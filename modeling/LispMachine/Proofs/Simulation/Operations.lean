/-
The operations that change a machine, run in step.

`Operations` collects what has to be shown of a kind of situations: that each operation the primitives are built from keeps
two machines in step. The rest of this module is about errors, which are made by all of them.
-/
import LispMachine.Proofs.Simulation.Lists

namespace LispMachine.Simulation

/-- making symbols keeps situations and loses nothing -/
class Interns (S : Type) [Simulation S] : Prop where
  intern (σ : S) (name : String) : QuietSim σ (Act.intern name) (Act.intern name) fun τ h h' => Kept τ .symbol h h'

/-- the operations of a thread keep situations -/
class Operations (S : Type) [Simulation S] (th : ThreadId) : Prop where
  gensym (σ : S) : Sim σ Act.gensym Act.gensym fun τ h h' => Kept τ .symbol h h'
  newCons {σ : S} {a a' d d' : Value} : Live σ a a' → Live σ d d' →
    QuietSim σ (Act.newPair th false a d) (Act.newPair th false a' d') Val
  newText {σ : S} {a a' d d' : Value} : Code σ a a' → Code σ d d' →
    QuietSim σ (Act.newPair th true a d) (Act.newPair th true a' d') Code
  newErrorObject {σ : S} {x x' : ErrorObject} : x.Like (Obj σ) x' →
    Sim σ (Act.newErrorObject th x) (Act.newErrorObject th x') Err
  newScope {σ : S} {name name' parent parent' : Option Handle} : Option.Rel (Kept σ .symbol) name name' →
    Option.Rel (Kept σ .scope) parent parent' →
    Sim σ (Act.newScope th name parent) (Act.newScope th name' parent') fun τ h h' => Kept τ .scope h h'
  bindIn {σ : S} {g g' sym sym' : Handle} {v v' : Value} (overwrite : Bool) : Kept σ .scope g g' → Kept σ .symbol sym sym' →
    Val σ v v' → Sim σ (Act.bindIn g sym v overwrite) (Act.bindIn g' sym' v' overwrite) Placed
  lookup? {σ : S} {g g' sym sym' : Handle} : Kept σ .scope g g' → Kept σ .symbol sym sym' →
    Option.Rel (Placed σ) ((left σ).lookup? g sym) ((right σ).lookup? g' sym')
  globalScope (σ : S) : Sim σ (Act.globalScope th) (Act.globalScope th) fun τ g g' => Kept τ .scope g g'
  withGlobal {α : Type} {σ : S} {g g' : Handle} {x y : Act α} {Q : S → α → α → Prop} : Kept σ .scope g g' →
    (∀ τ, Later σ τ → Sim τ x y Q) → (∀ τ υ a b, Later τ υ → Q τ a b → Q υ a b) →
    Sim σ (Act.withGlobal th g x) (Act.withGlobal th g' y) Q
  deref {σ : S} {r r' : Value} : Spot σ r r' → Sim σ (Act.deref r) (Act.deref r') Live
  storeThrough {σ : S} {r r' v v' : Value} : Spot σ r r' → Val σ v v' →
    Sim σ (Act.storeThrough r v) (Act.storeThrough r' v') fun _ _ _ => True
  placed_field {σ : S} {h h' : Handle} : Kept σ .cons h h' →
    Placed σ (.ref (.car h)) (.ref (.car h')) ∧ Placed σ (.ref (.cdr h)) (.ref (.cdr h'))
  write (σ : S) (c : Channel) (text : String) : Sim σ (Act.write c text) (Act.write c text) fun _ _ _ => True
  debug {σ : S} {v v' : Value} : Val σ v v' → Sim σ (Act.debug v) (Act.debug v') Val
  gc (σ : S) : Sim σ Act.gc Act.gc Val

variable {S : Type} [Simulation S] [Interns S] {th : ThreadId} [Operations S th] {σ : S}

/-! ## Errors -/

omit [Interns S] in
theorem newError_sim (kind : ErrorKind) {a a' b b' : Value} (ha : Live σ a a') (hb : Live σ b b') :
    Sim σ (Act.newError th kind a b) (Act.newError th kind a' b') Err :=
  Operations.newErrorObject { kind := rfl, name := .none, first := ha, second := hb }

omit [Interns S] in
theorem newUserError_sim {name name' : Handle} {body body' : Value} (hname : Kept σ .symbol name name')
    (hbody : Live σ body body') : Sim σ (Act.newUserError th name body) (Act.newUserError th name' body') Err :=
  Operations.newErrorObject { kind := rfl, name := .some (obj_of_kept hname), first := hbody, second := .nil }

omit [Operations S th] in
theorem symbol_sim (σ : S) (name : String) :
    Sim σ (Act.symbol name) (Act.symbol name) fun τ v v' => Quiet σ τ ∧ Code τ v v' := by
  unfold Act.symbol
  exact (Sim.of_quiet (Interns.intern σ name)).bind fun τ h h' _ hh => .pure ⟨hh.1, .symbol hh.2, runnable_atom trivial⟩

theorem newTypeError_sim (wanted : String) {got got' : Value} (hgot : Live σ got got') :
    Sim σ (Act.newTypeError th wanted got) (Act.newTypeError th wanted got') Err := by
  unfold Act.newTypeError
  refine (symbol_sim σ wanted).bind fun τ v v' _ hv => ?_
  exact newError_sim .type hv.2.1.live (hgot.quiet hv.1)

variable {α β : Type} {Q : S → α → β → Prop}

omit [Interns S] in
theorem raiseError_sim (kind : ErrorKind) {a a' b b' : Value} (ha : Live σ a a') (hb : Live σ b b') :
    Sim σ (Act.raiseError th kind a b) (Act.raiseError th kind a' b') Q := by
  unfold Act.raiseError
  exact (newError_sim kind ha hb).bind fun τ e e' _ he => .raise (.object he)

theorem raiseType_sim (wanted : String) {got got' : Value} (hgot : Live σ got got') :
    Sim σ (Act.raiseType th wanted got) (Act.raiseType th wanted got') Q := by
  unfold Act.raiseType
  exact (newTypeError_sim wanted hgot).bind fun τ e e' _ he => .raise (.object he)

theorem asError_loose {c c' : Cause} (hc : Failure.Loose σ (.raised c) (.raised c')) :
    Sim σ (Act.asError th c) (Act.asError th c') Err := by
  rcases hc with ⟨⟨⟨he⟩ | hbare⟩⟩ | hl
  · exact .pure he
  rotate_left
  · exact newError_sim .improperList hl.live .nil
  ·
    -- an error that is no object and carries no value is made into the same object on both sides
    have huser (c : Cause) : Sim σ
        (do Act.newUserError th (← Act.intern "go-error") (← Act.symbol c.text))
        (do Act.newUserError th (← Act.intern "go-error") (← Act.symbol c.text)) Err := by
      refine (Sim.of_quiet (Interns.intern σ "go-error")).bind fun τ name name' _ hname => ?_
      refine (symbol_sim τ c.text).bind fun υ v v' hυ hv => ?_
      exact newUserError_sim (hυ.kept hname.2) hv.2.1.live
    cases c with
    | object e => exact absurd rfl (hbare.object e)
    | improperList list => exact absurd rfl (hbare.list list)
    | lostError => exact absurd rfl hbare.lost
    | stackOverflow size capacity => exact newError_sim .stackOverflow (.int _) (.int _)
    | stackUnderflow => exact newError_sim .stackUnderflow .nil .nil
    | argIndex attempted length => exact newError_sim .argIndex (.int _) (.int _)
    | wrongType wanted => exact newTypeError_sim wanted .nil
    | _ => exact huser _

theorem asError_sim {c c' : Cause} (hc : Cause.Like σ c c') : Sim σ (Act.asError th c) (Act.asError th c') Err :=
  asError_loose (.like (.raised hc))

theorem withErrorObjects_loose (th : ThreadId) [Operations S th] {x : Act α} {y : Act β} (h : LooseSim σ x y Q) :
    Sim σ (Act.withErrorObjects th x) (Act.withErrorObjects th y) Q := by
  unfold Act.withErrorObjects
  refine (Sim.attempted (fun _ _ _ => id) h).bind fun τ r r' _ hr => ?_
  cases hr with
  | ok h => exact .pure h
  | error hc => exact (asError_loose hc).bind fun υ e e' _ he => .raise (.object he)

theorem withErrorObjects_sim (th : ThreadId) [Operations S th] {x : Act α} {y : Act β} (h : Sim σ x y Q) :
    Sim σ (Act.withErrorObjects th x) (Act.withErrorObjects th y) Q := withErrorObjects_loose th (.of_sim h)

/-! ## Arguments -/

/-- argument lists whose items stand for each other -/
abbrev Args (R : Value → Value → Prop) (args args' : List Value) : Prop := List.Forall₂ R args args'

theorem arg_like {ρ : Kind → Handle → Handle → Prop} {args args' : List Value} (h : Args (Value.Like ρ) args args') (i : Nat) :
    (Act.arg args i).Like ρ (Act.arg args' i) := by
  unfold Act.arg
  induction h generalizing i with
  | nil => exact .unset
  | cons hv _ ih =>
    cases i with
    | zero => exact hv
    | succ i => exact ih i

omit [Interns S] in
theorem arg_code {args args' : List Value} (h : Args (Code σ) args args') (i : Nat) :
    Code σ (Act.arg args i) (Act.arg args' i) := by
  unfold Act.arg
  induction h generalizing i with
  | nil => exact ⟨.unset, runnable_atom trivial⟩
  | cons hv _ ih =>
    cases i with
    | zero => exact hv
    | succ i => exact ih i

theorem symbolArg_sim {v v' : Value} (hv : Val σ v v') : Sim σ (Act.symbolArg th v) (Act.symbolArg th v')
    fun τ h h' => Kept τ .symbol h h' := by
  unfold Act.symbolArg
  refine (asSymbol_sim hv).bind fun τ o o' _ h => ?_
  obtain ⟨rfl, ho⟩ := h
  cases ho with
  | none => exact raiseType_sim "symbol" hv.live
  | some h => exact .pure h.1

theorem scopeArg_sim {v v' : Value} (hv : Val σ v v') : Sim σ (Act.scopeArg th v) (Act.scopeArg th v')
    fun τ h h' => Kept τ .scope h h' := by
  unfold Act.scopeArg
  refine (asScope_sim hv).bind fun τ o o' _ h => ?_
  obtain ⟨rfl, ho⟩ := h
  cases ho with
  | none => exact raiseType_sim "namespace" hv.live
  | some h => exact .pure h

theorem run_numberOf {m : Machine} {v : Value} (hv : v.isReference = false) :
    (Act.numberOf v).run m = .ok v.number? m := by
  unfold Act.numberOf
  cases v with
  | ref p => cases hv
  | _ => rfl

theorem numberArg_sim {v v' : Value} (hv : Live σ v v') : Sim σ (Act.numberArg th v) (Act.numberArg th v')
    fun τ n n' => τ = σ ∧ n = n' := by
  unfold Act.numberArg
  refine Sim.bind (Q := fun τ o o' => τ = σ ∧ o = o' ∧ o = v.number?)
    (.read (run_numberOf hv.not_reference) (run_numberOf hv.not_reference') ⟨rfl, hv.number?_eq, rfl⟩) ?_
  rintro τ o o' _ ⟨rfl, rfl, rfl⟩
  cases v.number? with
  | none => exact raiseType_sim "number" hv
  | some n => exact .pure ⟨rfl, rfl⟩

theorem listArg_code {v v' : Value} (hv : Code σ v v') : Sim σ (Act.listArg th v) (Act.listArg th v')
    fun τ vs vs' => τ = σ ∧ Args (Code σ) vs vs' :=
  withErrorObjects_loose th (listItems_code hv)

theorem formsArg_sim {v v' : Value} (hv : Code σ v v') : Sim σ (Act.formsArg th v) (Act.formsArg th v')
    fun τ ks ks' => τ = σ ∧ List.Forall₂ (KeptForm σ) ks ks' := by
  unfold Act.formsArg
  refine (listArg_code hv).bind fun τ vs vs' _ h => ?_
  obtain ⟨rfl, hvs⟩ := h
  exact keepAll_sim hvs

theorem numbersOf_sim {vs vs' : List Value} (hvs : Args (Live σ) vs vs') (ns : List Number) :
    Sim σ (Act.numbersOf th vs ns) (Act.numbersOf th vs' ns) fun τ ns ns' => τ = σ ∧ ns = ns' := by
  induction hvs generalizing ns with
  | nil => exact .pure ⟨rfl, rfl⟩
  | cons hv _ ih =>
    unfold Act.numbersOf
    refine (numberArg_sim hv).bind fun τ n n' _ h => ?_
    obtain ⟨rfl, rfl⟩ := h
    exact ih (n :: ns)

theorem numbers_sim {v v' : Value} (hv : Val σ v v') : Sim σ (Act.numbers th v) (Act.numbers th v')
    fun τ ns ns' => τ = σ ∧ ns = ns' := by
  unfold Act.numbers
  refine (withErrorObjects_loose th (listItems_live hv)).bind fun τ vs vs' _ h => ?_
  obtain ⟨rfl, hvs⟩ := h
  exact numbersOf_sim hvs []

end LispMachine.Simulation
