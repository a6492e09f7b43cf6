/-
Printing values.

Numbers, immediates and symbols print as their text; boxes and references print what they hold; scopes and functions by
name; errors by their message. A list prints in parentheses; a pair that is already being printed shows as `...`, so
circular lists end. An error, a box or a reference that would be printed inside itself has no text: printing it faults. Any
other value in a message that cannot be printed shows the fault instead.

Printing changes the machine in one way only: an error without a name of its own is shown by the name of its kind, and
that name is interned when the printer comes to it. A full heap is a fault at that place.
-/
import LispMachine.Machine.Access

namespace LispMachine

/-- a part of an error's message -/
inductive Part where
  | text (s : String)
  /-- the name of an error kind, which is interned to be shown -/
  | kindName (k : ErrorKind)
  /-- a payload to be printed -/
  | payload (v : Value)
deriving DecidableEq

namespace Render

/-- the text of an immediate or a number -/
def plain? : Value → Option String
  | .float x => some (Decimal.text x)
  | .nil => some "nil"
  | .t => some "t"
  | .unset => some "UNINITIALIZED"
  | .int n => some (toString n.toInt)
  | .uint n => some (toString n.toNat)
  | .reserved sub val =>
    some (if sub = 0 then "t" else if sub = 3 then "UNINITIALIZED" else s!"[immediate {sub.toNat}:{val.toNat}]")
  | _ => none

/-- what stands in a message for a value whose printing faults -/
def unprintable (verb : String) (method : String) (f : Fault) : String :=
  "%!" ++ verb ++ "(PANIC=" ++ method ++ " method: " ++ f.text ++ ")"

/-- the parts of an error's message -/
def message (m : Machine) (e : ErrorObject) : List Part :=
  match e.kind with
  | .stackOverflow =>
    [.text "Stack overflow after ", .payload e.first, .text " elements with capacity ", .payload e.second]
  | .stackUnderflow => [.text Cause.stackUnderflow.text]
  | .argCount =>
    [.text "The count ", .payload e.second, .text " is not compatible with the arglist ", .payload e.first]
  | .type => [.text "Expected a value of type ", .payload e.first, .text "."]
  | .improperList => [.text (Cause.improperList .nil).text]
  | .notAReference => [.text "Attempt to create a reference has failed"]
  | .unboundSymbol => [.text "The symbol ", .payload e.first, .text " is unbound."]
  | .unaccompaniedKey =>
    [.text "The key ", .payload e.first, .text " did not have an accompanying symbol when parsing key arguments."]
  | .argIndex =>
    [.text "Attempted to reference argument ", .payload e.first, .text " but only found ", .payload e.second, .text "."]
  | .user =>
    [match e.name with
      | some h => .text (m.symbolName h)
      | none => .kindName .user,
     .text ": ", .payload e.first]
  | .heapExhausted => [.text "Heap exhausted"]
  | .other _ => [.text e.kind.name]

/-- the printed name of a scope or a function -/
def named (m : Machine) (what : String) : Option Handle → String
  | some h => s!"[{what} {m.symbolName h}]"
  | none => s!"[{what} ANONYMOUS]"

/-- What is being printed, with the errors, boxes and references around it: coming back to one of these, the text would
never end. -/
inductive Job where
  /-- a value on its own -/
  | value (around : List Value) (v : Value)
  /-- a value inside a list, under the pairs being printed -/
  | element (around : List Value) (opened : List Handle) (v : Value)
  /-- a pair as the start of a list -/
  | list (around : List Value) (opened : List Handle) (h : Handle)
  /-- a pair of a list and the pairs after it, up to the closing parenthesis -/
  | chain (around : List Value) (opened : List Handle) (h : Handle)
  /-- the parts of a message -/
  | parts (around : List Value) (ps : List Part)

/-- go into a value that shows another one, unless that would never end -/
def into (around : List Value) (v : Value) : Act (List Value) :=
  if around.contains v then Act.fault .endless else pure (v :: around)

/-- the text of an object that shows no other, or the job of showing what it shows; `v` is the object as a value -/
def startObject (m : Machine) (around : List Value) (v : Value) (h : Handle) : Cell → Act (String ⊕ Job)
  | .box x => do return .inr (.value (← into around v) x)
  | .cons _ _ => return .inr (.list around [] h)
  | .symbol name => return .inl name
  | .scope s => return .inl (named m "namespace" s.name)
  | .function f => return .inl (named m "function" f.name)
  | .error e => do return .inr (.parts (← into around v) (message m e))

/-- the text of a value that shows no other, or the job of showing what it shows -/
def start (around : List Value) (v : Value) : Act (String ⊕ Job) := do
  match plain? v with
  | some s => return .inl s
  | none =>
    match v with
    | .ref p =>
      let around ← into around v
      return .inr (.value around (← Act.look p))
    | v =>
      match v.handle? with
      | none => return .inl ""
      | some h =>
        let m ← get
        match m.cell? h with
        | some c => startObject m around v h c
        | none =>
          Act.note .missed
          return .inl s!"[freed {v.kind.name} {h}]"

/-- what has been printed -/
structure Printed where
  /-- the texts, the latest first -/
  texts : List String
  /-- the pairs that are being printed -/
  opened : List Handle := []
  /-- those of a chain that is yet to be closed -/
  chain : List Handle := []

/-- at the end of a list its pairs are no longer being printed -/
def Printed.close (p : Printed) : Printed := { texts := p.texts, opened := p.opened.filter fun h => !p.chain.contains h }

/-- Print a job after `acc`, which holds the texts printed before, the latest first; the fuel bounds how far values nest. The pairs
being printed are handed on: a list adds its own, one after the other, and takes them away at its end. `chain` are those of the chain
that goes on. A value that is printed on its own starts with none. -/
def write : Nat → Job → List Handle → List String → Act Printed
  | 0, _, _, _ => Act.fault .endless
  | n + 1, .value around v, _, acc => do
    match ← start around v with
    | .inl s => return { texts := s :: acc }
    | .inr job => return { texts := (← write n job [] acc).texts }
  | n + 1, .element around opened v, _, acc => do
    match v with
    | .cons h =>
      match (← get).cell? h with
      | none =>
        Act.note .missed
        Act.fault (.freed h .cons)
      | some (.cons _ _) => write n (.list around opened h) [] acc
      | some _ => return { ← write n (.value around v) [] acc with opened }
    | v => return { ← write n (.value around v) [] acc with opened }
  | n + 1, .list around opened h, _, acc => do
    if opened.contains h then return { texts := "..." :: acc, opened }
    else return (← write n (.chain around opened h) [] ("(" :: acc)).close
  | n + 1, .chain around opened h, chain, acc => do
    let chain := h :: chain
    match (← get).cell? h with
    | some (.cons a d) =>
      let p ← write n (.element around (h :: opened) a) [] acc
      let dotted (_ : Unit) : Act Printed := do
        let q ← write n (.element around p.opened d) [] (" . " :: p.texts)
        return { texts := ")" :: q.texts, opened := q.opened, chain }
      match d with
      | .nil => return { texts := ")" :: p.texts, opened := p.opened, chain }
      | .cons next =>
        match (← get).cell? next with
        | none =>
          Act.note .missed
          Act.fault (.freed next .cons)
        | some (.cons _ _) =>
          if p.opened.contains next then return { texts := ")" :: " ..." :: p.texts, opened := p.opened, chain }
          else write n (.chain around p.opened next) chain (" " :: p.texts)
        | some _ => dotted ()
      | _ => dotted ()
    | _ => return { texts := acc, opened, chain }
  | _ + 1, .parts _ [], _, acc => return { texts := acc }
  | n + 1, .parts around (.text s :: ps), _, acc => write n (.parts around ps) [] (s :: acc)
  | n + 1, .parts around (.kindName k :: ps), _, acc => do
    let _ ← Act.intern k.name
    write n (.parts around ps) [] (k.name :: acc)
  | n + 1, .parts around (.payload v :: ps), _, acc => do
    match ← Act.observe (write n (.value around v) [] []) with
    | .ok p => write n (.parts around ps) [] (p.texts ++ acc)
    | .error (.fault .endless) => Act.fault .endless
    | .error (.fault f) => write n (.parts around ps) [] (unprintable "s" "String" f :: acc)
    | .error e => throw e

/-- more fuel than the printing of any value in a bounded heap needs -/
def fuel : Nat := 0x1000000000000000

end Render

namespace Act

/-- the printed text of a job -/
def printJob (j : Render.Job) : Act String := do
  let p ← Render.write Render.fuel j [] []
  return String.join p.texts.reverse

/-- the printed text of a value -/
def print (v : Value) : Act String := printJob (.value [] v)

/-- the printed text of a value inside a message: a fault is part of the text -/
def printIn (verb : String) (v : Value) : Act String := do
  match ← observe (print v) with
  | .ok s => return s
  | .error (.fault .endless) => fault .endless
  | .error (.fault f) => return Render.unprintable verb "String" f
  | .error e => throw e

/-- the message of an error -/
def errorMessage (e : HeldError) : Act String := do
  let m ← get
  if !m.holds e.toHeld then note .missed
  printJob (.parts [] (Render.message m (m.errorObject e)))

/-- the message of a cause -/
def messageOf : Cause → Act String
  | .object e => errorMessage e
  | .lostError => fault .mistyped
  | c => pure c.text

/-- the word of a value beside its printed text -/
def debugText (v : Value) : Act String := do
  return "vm.Object(0x" ++ (Word.encode v).hex ++ " " ++ (← printIn "s" v) ++ ")"

end Act

end LispMachine
