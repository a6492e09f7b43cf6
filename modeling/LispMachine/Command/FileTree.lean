/-
Files kept in memory.

A tree has directories and plain files, by their clean absolute paths; the directories around either are there as well. A
path is followed name by name: every name but the last has to be that of a directory when it is passed, so that a path
may lead out of a directory again only if that directory is there. A slash at the end asks for a directory.
-/
import LispMachine.Manifest.Path

namespace LispMachine

structure FileTree where
  directories : List String := []
  files : List (String × List UInt8) := []

namespace FileTree

/-- the most bytes of a name -/
def maxName : Nat := 255

/-- the most bytes of a path -/
def maxPath : Nat := 4095

def isFile (t : FileTree) (path : String) : Bool := t.files.any fun f => f.1 = path

def isDirectory (t : FileTree) (path : String) : Bool :=
  (t.directories.flatMap Path.ancestors ++ t.files.flatMap fun f => (Path.ancestors f.1).drop 1).contains path

/-- follow names from a place; nothing has to be at the place where the last name leads, and an empty name leads nowhere -/
def follow (t : FileTree) : String → List String → Except FileProblem String
  | place, [] => .ok place
  | place, name :: names =>
    if t.isFile place then .error .notDirectory
    else if !t.isDirectory place then .error .missing
    else if name = "" ∨ name = "." then follow t place names
    else if maxName < name.utf8ByteSize then .error .nameTooLong
    else follow t (Path.join place name) names

/-- the names of a path, with an empty one for every slash that stands beside nothing, and the place they start from -/
def start (cwd path : String) : Except FileProblem (String × List String) :=
  if path.contains '\x00' then .error .invalid
  else if path = "" then .error .missing
  else if maxPath < path.utf8ByteSize then .error .nameTooLong
  else .ok (if Path.isAbsolute path then "/" else cwd, path.splitOn "/")

/-- the contents of a file -/
def load (t : FileTree) (cwd path : String) : Except FileProblem (List UInt8) := do
  let (place, names) ← start cwd path
  let place ← t.follow place names
  match t.files.lookup place with
  | some bytes => .ok bytes
  | none => .error (if t.isDirectory place then .isDirectory else .missing)

/-- write a file, which is made if its directory is there -/
def save (t : FileTree) (cwd path : String) (bytes : List UInt8) : Except FileProblem FileTree := do
  let (place, names) ← start cwd path
  let named := (names.reverse.dropWhile (· = "")).reverse
  let last := named.getLast?.getD "."
  let dir ← t.follow place (named.dropLast ++ [""])
  if named.length < names.length ∨ last = "." ∨ last = ".." then .error .isDirectory
  else if maxName < last.utf8ByteSize then .error .nameTooLong
  else
    let target := Path.join dir last
    if t.isDirectory target then .error .isDirectory
    else .ok { t with files := (target, bytes) :: t.files.filter (·.1 ≠ target) }

end FileTree

end LispMachine
