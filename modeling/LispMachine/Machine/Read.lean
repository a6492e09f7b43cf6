/-
Forms as values.

Reading a form puts it on the heap: atoms in reading order, the cells of a list once its items are there, from the last
to the first, and a quoted form as the list `(quote form)`. Of a form that cannot be read the parts that were complete
are put there as well.
-/
import LispMachine.Machine.Errors
import LispMachine.Source.Atom
import LispMachine.Source.Form
import LispMachine.Text.Quoted

namespace LispMachine

open Source

namespace Act

/-- the value of an atom -/
def atomValue : Atom → Act Value
  | .t => pure .t
  | .nil => pure .nil
  | .number n => pure (.ofNumber n)
  | .symbol name => symbol name

mutual

/-- put a form on the heap -/
def buildForm (th : ThreadId) : Form → Act Value
  | .atom text => atomValue (Atom.ofText text)
  | .list items => do newListOf th true (← buildForms th items)
  | .quoted form => do
    let v ← buildForm th form
    let quote ← symbol "quote"
    newListOf th true [quote, v]

/-- put forms on the heap in order -/
def buildForms (th : ThreadId) : List Form → Act (List Value)
  | [] => pure []
  | form :: forms => do
    let v ← buildForm th form
    return v :: (← buildForms th forms)

end

/-- the cause for a form that cannot be read -/
def misreadCause (cause : Misread) (at_ : Position) : Cause :=
  .misread at_.line at_.column at_.offset cause.message

/-- put on the heap what a reading found; none at the end of the text -/
def buildReading (th : ThreadId) : Reading → Act (Option Value)
  | .finished _ => pure none
  | .form f _ => do return some (← buildForm th f)
  | .failed cause begun after => do
    let _ ← buildForms th begun
    raise (misreadCause cause after.pos)

/-- read a text that holds exactly one form -/
def readOne (th : ThreadId) (c : Cursor) : Act Value := do
  let reading := c.read
  match ← buildReading th reading with
  | none => raise (.noForm (Text.quoteRunes c.rest))
  | some v =>
    if (Scanner.ofCursor reading.after).skip.1 then raise (.trailingText (Text.quoteRunes c.rest))
    else return v

def readString (th : ThreadId) (s : String) : Act Value := readOne th (Cursor.ofString s)

/-- read every form of a text, up to the first that cannot be read; `forms` holds those before, the latest first -/
def readAllFrom (th : ThreadId) (c : Cursor) (forms : List Value) : Act (List Value × Option Cause) := do
  match _h : c.read with
  | .finished _ => return (forms.reverse, none)
  | .failed cause begun after =>
    let _ ← buildForms th begun
    return (forms.reverse, some (misreadCause cause after.pos))
  | .form f after => readAllFrom th after ((← buildForm th f) :: forms)
termination_by c.rest.length
decreasing_by exact Cursor.read_form_length _h

def readAll (th : ThreadId) (c : Cursor) : Act (List Value × Option Cause) := readAllFrom th c []

end Act

end LispMachine
