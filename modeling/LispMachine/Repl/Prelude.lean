/-
The prelude: small functions on lists, written in the language itself.
-/
namespace LispMachine.Repl

def prelude : String :=
"; Small list and logic helpers loaded before user code.

(defun not (x) (if x nil t))

(defun null (x) (if x nil t))

(defun length (xs)
  (if xs (+ 1 (length (cdr xs))) 0))

(defun nth (n xs)
  (if (= n 0) (car xs) (nth (- n 1) (cdr xs))))

(defun mapcar (f xs)
  (if xs (cons (f (car xs)) (mapcar f (cdr xs))) nil))

(defun reduce (f init xs)
  (if xs (reduce f (f init (car xs)) (cdr xs)) init))

(defun append (xs ys)
  (if xs (cons (car xs) (append (cdr xs) ys)) ys))

(defun reverse (xs)
  (reduce (lambda (acc x) (cons x acc)) nil xs))
"

end LispMachine.Repl
