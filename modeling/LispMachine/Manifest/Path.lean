/-
File paths, as texts with `/` between the names.

A clean path has no empty name, no `.` and no `..` that could be taken back; it says the same as the path it was made
from. Joining drops what is empty and cleans the rest. A path may name a file that cannot be used; what is wrong with it
depends on what was asked of it.
-/
namespace LispMachine

/-- why a file cannot be read or written -/
inductive FileProblem where
  | missing
  /-- a name in the middle of the path is that of a plain file -/
  | notDirectory
  | isDirectory
  | nameTooLong
  /-- the path has a character that no path can have -/
  | invalid
deriving DecidableEq, Repr

namespace FileProblem

def text : FileProblem → String
  | .missing => "no such file or directory"
  | .notDirectory => "not a directory"
  | .isDirectory => "is a directory"
  | .nameTooLong => "file name too long"
  | .invalid => "invalid argument"

/-- the message about a file that cannot be read; a directory can be opened, only not read -/
def onLoad (path : String) (p : FileProblem) : String :=
  (if p = .isDirectory then "read " else "open ") ++ path ++ ": " ++ p.text

/-- the message about a file that cannot be written -/
def onSave (path : String) (p : FileProblem) : String := "open " ++ path ++ ": " ++ p.text

end FileProblem

namespace Path

/-- the names in a path -/
def names (path : String) : List String := (path.splitOn "/").filter (· ≠ "")

def isAbsolute (path : String) : Bool := path.startsWith "/"

/-- take the names from left to right; `done` holds those kept so far, the last first -/
def resolve (rooted : Bool) : List String → List String → List String
  | [], done => done.reverse
  | name :: rest, done =>
    if name = "." then resolve rooted rest done
    else if name = ".." then
      match done with
      | [] => resolve rooted rest (if rooted then [] else [".."])
      | last :: before => resolve rooted rest (if last = ".." then ".." :: done else before)
    else resolve rooted rest (name :: done)

/-- the path with these names -/
def ofNames (rooted : Bool) (ns : List String) : String :=
  let text := "/".intercalate ns
  if rooted then "/" ++ text else if text = "" then "." else text

/-- the shortest path that says the same -/
def clean (path : String) : String :=
  let rooted := isAbsolute path
  ofNames rooted (resolve rooted (names path) [])

/-- one path after another; an empty one is dropped -/
def join (dir name : String) : String :=
  if dir = "" then if name = "" then "" else clean name
  else clean (dir ++ "/" ++ name)

/-- a path as seen from a directory -/
def absolute (cwd path : String) : String :=
  if isAbsolute path then clean path else join cwd path

/-- the directories with these names, given from the innermost outwards -/
def ancestorsOf : List String → List String
  | [] => ["/"]
  | name :: outer => ofNames true (name :: outer).reverse :: ancestorsOf outer

/-- a directory and the directories it lies in, from the inside outwards -/
def ancestors (dir : String) : List String := ancestorsOf (resolve true (names dir) []).reverse

end Path

end LispMachine
