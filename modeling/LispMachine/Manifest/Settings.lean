/-
The manifest: the settings of a run.

Settings come from a file `phoebe.toml`, from environment variables, which override the file, and from defaults for what
neither gives. The file is looked for in one directory, or in a directory and those it lies in. A zero or an empty text
in the file counts as not given.
-/
import LispMachine.Machine.Settings
import LispMachine.Manifest.Duration
import LispMachine.Manifest.Path
import LispMachine.Manifest.Toml.Field

namespace LispMachine

structure Manifest where
  stackCapacity : Int := 0
  mode : String := ""
  allocator : String := ""
  threshold : Int := 0
  interval : Duration := 0
  verbosity : Int := 0
  prompt : String := ""
  history : String := ""
  preload : List String := []
  /-- the directory of the file; empty without one -/
  dir : String := ""
deriving DecidableEq

/-- what is wrong with a manifest -/
inductive ManifestError where
  /-- there is no file that can be read at this path -/
  | unreadable (path : String) (problem : FileProblem)
  | malformed (path : String)
  /-- a variable with a text that its setting cannot take -/
  | override (name problem : String)
  | unknownMode (mode : String)
  | unknownAllocator (cause : Cause)
  | negativeCapacity (n : Int)
  /-- a setting is wrong, and there is a file to blame -/
  | inFile (path : String) (e : ManifestError)
deriving DecidableEq

def ManifestError.text : ManifestError → String
  | .unreadable path problem => "cannot read " ++ path ++ ": " ++ problem.onLoad path
  | .malformed path => "parse error in " ++ path
  | .override name problem => name ++ ": " ++ problem
  | .unknownMode mode => "gc.mode " ++ Text.quote mode ++ ": want inline or background"
  | .unknownAllocator cause => "gc.allocator: " ++ cause.text
  | .negativeCapacity n => s!"runtime.stack-capacity {n} is negative"
  | .inFile path e => path ++ ": " ++ e.text

namespace Manifest

def fileName : String := "phoebe.toml"

/-! ## Defaults -/

/-- the settings with defaults for what is not given -/
def withDefaults (m : Manifest) : Manifest :=
  { m with
    stackCapacity := if m.stackCapacity = 0 then Stack.defaultCapacity else m.stackCapacity
    mode := if m.mode = "" then "inline" else m.mode
    allocator := if m.allocator = "" then AllocatorMode.inline.name else m.allocator
    threshold := if m.threshold = 0 then 1024 else m.threshold
    prompt := if m.prompt = "" then "phoebe> " else m.prompt
    history := if m.history = "" then ".phoebe_history" else m.history }

/-- the settings when there is no file -/
def default : Manifest := withDefaults {}

/-! ## The file -/

/-- a duration in a document: a text, or a bare zero -/
def intervalAt? : Toml.Entries → String → Option Duration :=
  Toml.setting? (fun
    | .string s => (Duration.parse s).toOption
    | .integer n => (Duration.parse (toString n)).toOption
    | _ => none) 0

/-- the settings a document gives -/
def ofToml? (es : Toml.Entries) : Option Manifest := do
  let runtime ← Toml.section? es "runtime"
  let gc ← Toml.section? es "gc"
  let log ← Toml.section? es "log"
  let repl ← Toml.section? es "repl"
  let preload ← Toml.section? es "preload"
  let stackCapacity ← Toml.integerAt? runtime "stack-capacity"
  let mode ← Toml.stringAt? gc "mode"
  let allocator ← Toml.stringAt? gc "allocator"
  let threshold ← Toml.integerAt? gc "initial-threshold"
  let interval ← intervalAt? gc "interval"
  let verbosity ← Toml.integerAt? log "verbosity"
  let prompt ← Toml.stringAt? repl "prompt"
  let history ← Toml.stringAt? repl "history"
  let files ← Toml.stringsAt? preload "files"
  return { stackCapacity, mode, allocator, threshold, interval, verbosity, prompt, history, preload := files }

/-! ## Overrides -/

/-- environment variables by name; an empty one is as good as none -/
abbrev Environment := String → Option String

def Environment.get? (env : Environment) (name : String) : Option String :=
  match env name with
  | some "" => none
  | r => r

/-- set what a variable gives, if it is there -/
def override (env : Environment) (name : String) (m : Manifest)
    (set : String → Except String Manifest) : Except ManifestError Manifest :=
  match env.get? name with
  | none => .ok m
  | some s => (set s).mapError (.override name)

/-- an integer from a variable; `reader` names the reader in the problem -/
def integerOf (reader s : String) : Except String Int :=
  (Text.Integer.parse s).mapError fun f => reader ++ ": parsing " ++ Text.quote s ++ ": " ++ f.text

/-- the settings with those that variables override -/
def withEnvironment (env : Environment) (m : Manifest) : Except ManifestError Manifest := do
  let m ← override env "PHOEBE_STACK_CAPACITY" m fun s => do
    return { m with stackCapacity := ← integerOf "strconv.Atoi" s }
  let m ← override env "PHOEBE_LOG_VERBOSITY" m fun s => do
    return { m with verbosity := ← integerOf "strconv.Atoi" s }
  let m ← override env "PHOEBE_GC_THRESHOLD" m fun s => do
    return { m with threshold := ← integerOf "strconv.ParseInt" s }
  let m ← override env "PHOEBE_GC_INTERVAL" m fun s => do
    return { m with interval := ← (Duration.parse s).mapError (·.text s) }
  let m ← override env "PHOEBE_GC_MODE" m fun s => .ok { m with mode := s }
  let m ← override env "PHOEBE_ALLOCATOR" m fun s => .ok { m with allocator := s }
  override env "PHOEBE_HISTORY" m fun s => .ok { m with history := s }

/-! ## Checking -/

/-- the settings for the machine, if every one of them means something -/
def request (m : Manifest) : Except ManifestError Request := do
  if m.mode ≠ "inline" ∧ m.mode ≠ "background" then throw (.unknownMode m.mode)
  let allocator ← (AllocatorMode.parse? m.allocator).mapError .unknownAllocator
  if m.stackCapacity < 0 then throw (.negativeCapacity m.stackCapacity)
  return ⟨m.stackCapacity, m.threshold, allocator, m.mode = "background"⟩

/-- the settings themselves, if every one of them means something -/
def checked (m : Manifest) : Except ManifestError Manifest := do
  let _ ← m.request
  return m

/-! ## Loading -/

/-- the path of the file in a directory -/
def pathIn (dir : String) : String := Path.join dir fileName

/-- the settings from the text of the file in a directory, as seen from the working directory -/
def ofText (env : Environment) (cwd dir : String) (text : Option String) : Except ManifestError Manifest := do
  match text.bind Toml.parse? |>.bind ofToml? with
  | none => throw (.malformed (pathIn dir))
  | some m =>
    let m ← withEnvironment env { m.withDefaults with dir := Path.absolute cwd dir }
    m.checked.mapError (.inFile (pathIn dir))

/-- the settings without a file -/
def withoutFile (env : Environment) : Except ManifestError Manifest := do
  (← default.withEnvironment env).checked

/-! ## Paths -/

/-- where the files to load first are -/
def preloadPaths (m : Manifest) : List String :=
  m.preload.map fun f => if Path.isAbsolute f then f else Path.join m.dir f

/-- where the history of the interactive loop is kept; a relative path is taken from the home directory -/
def historyPath (m : Manifest) (home : Option String) : String :=
  match home with
  | none | some "" => m.history
  | some home => if Path.isAbsolute m.history then m.history else Path.join home m.history

end Manifest

end LispMachine
