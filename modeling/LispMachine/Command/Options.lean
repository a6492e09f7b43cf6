/-
The options of the command line.

Options come before the scripts. An option begins with one or two dashes; its value follows an `=` or is the next
argument. A switch takes a value only after an `=`. The first argument that is not an option, or a lone `--`, ends them.
-/
import LispMachine.Text.Integer
import LispMachine.Text.Quoted

namespace LispMachine

structure Options where
  verbosity : Int := 0
  interactive : Bool := false
  /-- the directory of the manifest; empty means that it is looked for -/
  config : String := ""
  parallel : Bool := false
  /-- the file for the report; empty means none -/
  statsFile : String := ""
  noPrompt : Bool := false
  scripts : List String := []
deriving DecidableEq, Repr

/-- why a command line is refused, or that help is asked for -/
inductive OptionError where
  | help
  | badSyntax (arg : String)
  | undefined (name : String)
  | needsArgument (name : String)
  | invalidBoolean (value name : String)
  | invalidValue (value name problem : String)
deriving DecidableEq, Repr

namespace OptionError

/-- the line in front of the usage; asking for help gets none -/
def text : OptionError → String
  | .help => ""
  | .badSyntax arg => "bad flag syntax: " ++ arg ++ "\n"
  | .undefined name => "flag provided but not defined: -" ++ name ++ "\n"
  | .needsArgument name => "flag needs an argument: -" ++ name ++ "\n"
  | .invalidBoolean value name => "invalid boolean value " ++ Text.quote value ++ " for -" ++ name ++ ": parse error\n"
  | .invalidValue value name problem =>
    "invalid value " ++ Text.quote value ++ " for flag -" ++ name ++ ": " ++ problem ++ "\n"

def exitCode : OptionError → Nat
  | .help => 0
  | _ => 2

end OptionError

namespace Options

def usage : String :=
"Usage: phoebe [options] [scripts...]

Evaluates each script, then starts a REPL if -i is given or no scripts are.

Options:
  -config string
    \tDirectory holding phoebe.toml (default: search upward from .)
  -gc-stats file
    \tWrite collector statistics to file (CBOR) on exit
  -i\tStart the interactive REPL after running scripts
  -no-prompt
    \tRead forms from stdin without line editing or prompts
  -parallel
    \tRun each script on its own thread, concurrently
  -v int
    \tLog verbosity (0 quiet, 1 info, 2 debug)

Examples:
  phoebe                          # Start REPL
  phoebe a.lisp b.lisp -i         # Load scripts, then REPL
  phoebe -parallel a.lisp b.lisp  # Run scripts on concurrent threads
  phoebe -gc-stats gc.cbor x.lisp # Record collector passes
"

/-- an argument as an option -/
inductive Shape where
  | plain
  /-- the mark that ends the options -/
  | ending
  | malformed
  | option (name : String) (value : Option String)
deriving DecidableEq, Repr

/-- the name of an option and the value after its first `=` -/
def splitValue (body : List Char) : Shape :=
  let name := body.takeWhile (· ≠ '=')
  match body.dropWhile (· ≠ '=') with
  | _ :: value => .option (String.ofList name) (some (String.ofList value))
  | [] => .option (String.ofList name) none

/-- an option after its dashes -/
def ofBody (body : List Char) : Shape :=
  match body with
  | [] => .malformed
  | c :: _ => if c = '-' ∨ c = '=' then .malformed else splitValue body

def shape (arg : String) : Shape :=
  match arg.toList with
  | ['-', '-'] => .ending
  | '-' :: '-' :: body => ofBody body
  | '-' :: c :: body => ofBody (c :: body)
  | _ => .plain

def boolean? (s : String) : Option Bool :=
  if ["1", "t", "T", "TRUE", "true", "True"].contains s then some true
  else if ["0", "f", "F", "FALSE", "false", "False"].contains s then some false
  else none

/-- set a switch -/
def setSwitch? (o : Options) (name : String) (b : Bool) : Option Options :=
  if name = "i" then some { o with interactive := b }
  else if name = "parallel" then some { o with parallel := b }
  else if name = "no-prompt" then some { o with noPrompt := b }
  else none

/-- set an option that takes a value -/
def setValue? (o : Options) (name value : String) : Option (Except OptionError Options) :=
  if name = "config" then some (.ok { o with config := value })
  else if name = "gc-stats" then some (.ok { o with statsFile := value })
  else if name = "v" then
    some (match Text.Integer.parseWide value with
      | .ok n => .ok { o with verbosity := n }
      | .error .syntactic => .error (.invalidValue value name "parse error")
      | .error .range => .error (.invalidValue value name "value out of range"))
  else none

/-- set a switch to a value that was given with it -/
def setGiven (o : Options) (name value : String) : Except OptionError Options :=
  match boolean? value with
  | none => .error (.invalidBoolean value name)
  | some b => .ok ((o.setSwitch? name b).getD o)

/-- an option that is not known -/
def unknown (name : String) : OptionError :=
  if name = "help" ∨ name = "h" then .help else .undefined name

/-- take the arguments from left to right -/
def parse (o : Options) : List String → Except OptionError Options
  | [] => .ok o
  | arg :: args =>
    match shape arg with
    | .plain => .ok { o with scripts := arg :: args }
    | .ending => .ok { o with scripts := args }
    | .malformed => .error (.badSyntax arg)
    | .option name value =>
      match o.setSwitch? name true, value with
      | some on, none => parse on args
      | some _, some v => do parse (← o.setGiven name v) args
      | none, some v => match o.setValue? name v with
        | some r => do parse (← r) args
        | none => .error (unknown name)
      | none, none => match args with
        | [] => if (o.setValue? name "").isSome then .error (.needsArgument name) else .error (unknown name)
        | v :: args => match o.setValue? name v with
          | some r => do parse (← r) args
          | none => .error (unknown name)

end Options

end LispMachine
