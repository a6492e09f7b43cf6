/-
A system in memory: files, a standard input given beforehand, and what has been written so far. Its clock stands still.
-/
import LispMachine.Command.FileTree
import LispMachine.Command.Host

namespace LispMachine

structure Memory where
  tree : FileTree := {}
  stdin : List UInt8 := []
  out : Array String := #[]
  err : Array String := #[]

/-- the system in memory, with its environment variables and its working directory -/
def Memory.host (environment : String → Option String) (cwd : String) : Host (StateM Memory) where
  getVariable name := pure (environment name)
  workingDirectory := pure cwd
  load path := do return (← get).tree.load cwd path
  save path bytes := modifyGet fun s =>
    match s.tree.save cwd path bytes with
    | .ok tree => (.ok (), { s with tree := tree })
    | .error problem => (.error problem, s)
  readLine := modifyGet fun s =>
    let n := min ((s.stdin.takeWhile (· ≠ 10)).length + 1) s.stdin.length
    (s.stdin.take n, { s with stdin := s.stdin.drop n })
  readInput := modifyGet fun s => (s.stdin, { s with stdin := [] })
  putOut text := modify fun s => { s with out := s.out.push text }
  putErr text := modify fun s => { s with err := s.err.push text }
  clock := pure 0

end LispMachine
