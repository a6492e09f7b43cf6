/-
The tables that the lines of a document define.

A key is defined once, with an exception: a table that was only named on the way to something else is implicit, and an
implicit table can still be defined, which ends its being implicit and keeps what it holds. The names before the last one
of a key, and a table written inline while it is being read, are implicit in this sense too. A key that was last defined
as an array is replaced rather than kept when it is implicit.

A line either applies or spoils the document: what is wrong is not told apart.
-/
import LispMachine.Manifest.Toml.Line

namespace LispMachine

/-- a value of a document -/
inductive Toml where
  | string (s : String)
  | integer (n : Int)
  | float (x : Float)
  | boolean (b : Bool)
  | moment
  | array (items : List Toml)
  | table (entries : List (String × Toml))
  /-- tables opened by headers with double brackets, the latest first -/
  | tables (ts : List (List (String × Toml)))

namespace Toml

abbrev Entries := List (String × Toml)

/-! ## Tables -/

/-- the entries with the value of an existing or a new key replaced -/
def put (es : Entries) (k : String) (v : Toml) : Entries :=
  if (es.lookup k).isSome then es.map fun e => if e.1 = k then (k, v) else e else es ++ [(k, v)]

/-- the entries of the table at a path; of a list of tables the latest one counts -/
def tableAt? : Key → Entries → Option Entries
  | [], es => some es
  | k :: ks, es =>
    match es.lookup k with
    | some (.table inner) => tableAt? ks inner
    | some (.tables (t :: _)) => tableAt? ks t
    | _ => none

/-- the entries with a value put into the table at a path -/
def putAt (k : String) (v : Toml) : Key → Entries → Entries
  | [], es => put es k v
  | p :: ps, es =>
    match es.lookup p with
    | some (.table inner) => put es p (.table (putAt k v ps inner))
    | some (.tables (t :: ts)) => put es p (.tables (putAt k v ps t :: ts))
    | _ => es

/-- the entries of an inline table with a value set at a key; names on the way that are missing become tables -/
def setDeep (k : String) (v : Toml) : Key → Entries → Option Entries
  | [], es => some (put es k v)
  | p :: ps, es =>
    match es.lookup p with
    | none => (setDeep k v ps []).map fun inner => put es p (.table inner)
    | some (.table inner) => (setDeep k v ps inner).map fun inner => put es p (.table inner)
    | some _ => none

def isArray : Toml → Bool
  | .array _ => true
  | _ => false

/-! ## Drafts -/

/-- a document under reading -/
structure Draft where
  root : Entries := []
  /-- the path of the table that definitions go to -/
  context : Key := []
  /-- the paths that may be defined once more -/
  implicit : List Key := []
  /-- the paths that were last defined as arrays -/
  arrays : List Key := []

namespace Draft

def markImplicit (d : Draft) (path : Key) : Draft := { d with implicit := path :: d.implicit }

def unmarkImplicit (d : Draft) (path : Key) : Draft := { d with implicit := d.implicit.filter (· ≠ path) }

/-- note whether a key of the context is an array; the empty name stands for the context itself -/
def noteType (d : Draft) (k : String) (array : Bool) : Draft :=
  let path := if k = "" ∧ d.context ≠ [] then d.context else d.context ++ [k]
  let others := d.arrays.filter (· ≠ path)
  { d with arrays := if array then path :: others else others }

/-- define a key of the context -/
def define (d : Draft) (k : String) (v : Toml) : Option Draft := do
  let es ← tableAt? d.context d.root
  let path := d.context ++ [k]
  let written : Draft := { d with root := putAt k v d.context d.root }
  if (es.lookup k).isNone then some written
  else if !d.implicit.contains path then none
  else if d.arrays.contains path then some (written.unmarkImplicit path)
  else some (d.unmarkImplicit path)

/-- go to the table at a path below the context, or to the latest of a list of tables, and make it if it is missing -/
def descend (d : Draft) (k : String) : Option Draft := do
  let es ← tableAt? d.context d.root
  let path := d.context ++ [k]
  match es.lookup k with
  | none => some { (d.markImplicit path) with root := putAt k (.table []) d.context d.root, context := path }
  | some (.table _) | some (.tables _) => some { d with context := path }
  | some _ => none

/-- add an empty table to the list of tables at a key of the context -/
def addTable (d : Draft) (k : String) : Option Draft := do
  let es ← tableAt? d.context d.root
  match es.lookup k with
  | none => some { d with root := putAt k (.tables [[]]) d.context d.root }
  | some (.tables ts) => some { d with root := putAt k (.tables ([] :: ts)) d.context d.root }
  | some _ => none

/-- open the table at a path from the root, or one more of a list of tables -/
def openPath (d : Draft) (path : Key) (another : Bool) : Option Draft := do
  let last ← path.getLast?
  let d ← path.dropLast.foldlM descend { d with context := [] }
  let d ← if another then d.addTable last else d.define last (.table [])
  return { d with context := path }

/-- go to the tables that the names before the last one of a key stand for -/
def enter (d : Draft) (names : Key) : Option Draft :=
  names.foldlM (fun d name => (d.markImplicit (d.context ++ [name])).openPath (d.context ++ [name]) false) d

end Draft

/-! ## Terms and lines -/

mutual

/-- the value of a term that is to stand at a key of the context -/
def Term.toToml (k : String) (inArray : Bool) (d : Draft) : Term → Option (Toml × Draft)
  | .string s => some (.string s, d)
  | .integer n => some (.integer n, d)
  | .float x => some (.float x, d)
  | .boolean b => some (.boolean b, d)
  | .moment => some (.moment, d)
  | .array items => do
    let (vs, d) ← itemsToToml k (d.noteType k true) items
    return (.array vs, d)
  | .inline pairs => do
    let path := d.context ++ [k]
    let inner ← (d.markImplicit path).openPath path inArray
    let (es, inner) ← pairsToToml path inner [] pairs
    return (.table es, { inner with context := d.context })

def itemsToToml (k : String) (d : Draft) : List Term → Option (List Toml × Draft)
  | [] => some ([], d)
  | t :: ts => do
    let (v, d) ← t.toToml k true d
    let (vs, d) ← itemsToToml k d ts
    return (v :: vs, d)

/-- the entries that pairs give, which are defined in the context as well -/
def pairsToToml (path : Key) (d : Draft) (es : Entries) : List (Key × Term) → Option (Entries × Draft)
  | [] => some (es, d)
  | (k, t) :: rest => do
    let last ← k.getLast?
    let d ← d.enter k.dropLast
    let (v, d) ← t.toToml last false d
    let d ← d.define last v
    let es ← setDeep last v k.dropLast es
    pairsToToml path { (d.noteType last v.isArray) with context := path } es rest

end

/-- take a line -/
def Draft.take (d : Draft) : Line → Option Draft
  | .table k => do return (← d.openPath k false).noteType "" false
  | .tables k => do return (← d.openPath k true).noteType "" false
  | .assign k t => do
    let last ← k.getLast?
    let inner ← d.enter k.dropLast
    let (v, inner) ← t.toToml last false inner
    let inner ← inner.define last v
    return { (inner.noteType last v.isArray) with context := d.context }

/-- the entries of a document -/
def parse? (s : String) : Option Entries := do
  let d ← (← lines? s).foldlM Draft.take {}
  return d.root

end Toml

end LispMachine
