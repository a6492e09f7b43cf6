/-
Forms that handle errors.

A form whose head is found to be a function that catches errors holds a form to try, a symbol and forms to go on with
(`HandlerForm`); on a given machine that can be computed (`Machine.holdsFor`). Its evaluation lays them on the stack, unless there
is no room for that, and from there on it is what trying the form comes to (`Act.run_evaluate_handler`); then the frame is
dropped, a pass may be taken and the evaluation ends. None of that changes a result or an error (`Act.comesTo_resumed`). So a
handler form is tried, or there was no room for it (`Act.tries_of_handlerForm`).
-/
import LispMachine.Proofs.Arguments
import LispMachine.Proofs.Following
import LispMachine.Proofs.Simulation.Access

namespace LispMachine

/-! ## Handler forms -/

/-- a function that catches errors: a form and a symbol are required, and what is left is one list -/
structure Function.IsHandler (f : Function) : Prop where
  body : f.body = .primitive .catchError true
  required : f.params.required.length = 2
  optional : f.params.optional = []
  rest : f.params.rest.isSome = true
  keys : f.params.keys = []

/-- a function that catches errors gets its forms as they are -/
theorem Function.IsHandler.isSpecial {f : Function} (hf : f.IsHandler) : f.isSpecial = true := by
  rw [Function.isSpecial, hf.body]

namespace Machine

/-- the machine with the evaluations of a thread nested one deeper -/
def deeper (m : Machine) (th : ThreadId) : Machine := m.onThread th fun t => { t with depth := (m.thread th).depth + 1 }

/-- a thread's evaluations may nest one deeper -/
def Nests (m : Machine) (th : ThreadId) : Prop := (m.thread th).depth < (m.thread th).stack.capacity * Act.depthPerSlot

instance (m : Machine) (th : ThreadId) : Decidable (m.Nests th) := inferInstanceAs (Decidable (_ < _))

end Machine

/-- The pair `h` is a handler form on `m`. Its head evaluates to the function `f`, which catches errors. On the machine `m₁` that
this leaves the pair is still there, and holds a form, a symbol and the forms to go on with. -/
structure HandlerForm (ev : Evaluator) (th : ThreadId) (h : Handle) (v : Value) (name : Handle) (forms : List Value)
    (f : Function) (m m₁ : Machine) : Prop where
  head : ∃ a d g, m.cell? h = some (.cons a d) ∧ (ev.eval a .value).run (m.deeper th) = .ok (.function g) m₁ ∧
    m₁.cell? g = some (.function f)
  handler : f.IsHandler
  same : (m₁.heap.slot? h).map Slot.serial = (m.heap.slot? h).map Slot.serial
  items : ∃ a d, m₁.cell? h = some (.cons a d) ∧ m₁.Walks d (v :: .symbol name :: forms)
  symbol : ∃ text, m₁.cell? name = some (.symbol text)

namespace Machine

variable {m : Machine} {th : ThreadId} {k : Nat} {h name : Handle} {v : Value} {forms vs : List Value} {f : Function}

/-- whether a value is the list of these values -/
def isListOf (m : Machine) : Value → List Value → Bool
  | .nil, [] => true
  | .cons h, v :: vs => match m.cell? h with
    | some (.cons a d) => a = v && m.isListOf d vs
    | _ => false
  | _, _ => false

theorem walks_of_isListOf (hv : m.isListOf v vs = true) : m.Walks v vs := by
  induction vs generalizing v with
  | nil => cases v <;> first | exact .nil | cases hv
  | cons w vs ih =>
    cases v <;> try cases hv
    rename_i h
    unfold isListOf at hv
    split at hv
    · rename_i a d hcell
      obtain ⟨ha, hd⟩ := Bool.and_eq_true_iff.1 hv
      exact of_decide_eq_true ha ▸ .cons hcell (ih hd)
    · cases hv

/-- the machine that evaluating the head of a form leaves -/
def pastHead (m : Machine) (k : Nat) (th : ThreadId) (h : Handle) : Machine :=
  match m.cell? h with
  | some (.cons a _) => Outcome.machine (((evaluator k th).eval a .value).run (m.deeper th))
  | _ => m

/-- whether a pair holds a form, a symbol and other forms for the function that its head evaluates to -/
def holdsFor (m : Machine) (k : Nat) (th : ThreadId) (h : Handle) (f : Function) (v : Value) (name : Handle)
    (forms : List Value) : Bool :=
  match m.cell? h with
  | some (.cons a _) => (((evaluator k th).eval a .value).run (m.deeper th)).isOkAnd fun x m₁ =>
    (match x with
      | .function g => m₁.cell? g = some (.function f)
      | _ => false) &&
    (m₁.heap.slot? h).map Slot.serial = (m.heap.slot? h).map Slot.serial &&
    m₁.isListOf (.cons h) (a :: v :: .symbol name :: forms) &&
    (match m₁.cell? name with
      | some (.symbol _) => true
      | _ => false)
  | _ => false

theorem handlerForm_of_holdsFor (hf : f.IsHandler) (hholds : m.holdsFor k th h f v name forms = true) :
    HandlerForm (evaluator k th) th h v name forms f m (m.pastHead k th h) := by
  unfold holdsFor at hholds
  split at hholds
  · rename_i a d hcell
    obtain ⟨x, m₁, hhead, hx⟩ := Outcome.exists_of_isOkAnd hholds
    simp only [Bool.and_eq_true, decide_eq_true_eq] at hx
    obtain ⟨⟨⟨hfunction, hsame⟩, hlist⟩, hsymbol⟩ := hx
    have hpast : m.pastHead k th h = m₁ := by
      unfold pastHead
      rw [hcell]
      exact congrArg Outcome.machine hhead
    rw [hpast]
    refine ⟨?_, hf, hsame, ?_, ?_⟩
    · split at hfunction
      · exact ⟨a, d, _, hcell, hhead, of_decide_eq_true hfunction⟩
      · cases hfunction
    · cases walks_of_isListOf hlist with
      | cons hcell' hwalks => exact ⟨a, _, hcell', hwalks⟩
    · split at hsymbol
      · exact ⟨_, by assumption⟩
      · cases hsymbol
  · cases hholds

end Machine

/-- an error that no handler takes, or a full heap -/
def Failure.IsFatal (f : Failure) : Prop := ∃ e, f.Names e ∧ e.kind.isFatal = true

theorem Failure.isFatal_exhausted : (Failure.fault .exhausted).IsFatal := ⟨_, .inr ⟨rfl, rfl⟩, rfl⟩

/-- there is no room for a frame: the stack or the heap is full -/
def Failure.IsCrowded (f : Failure) : Prop := f = .fault .exhausted ∨ ∃ size capacity, f = .raised (.stackOverflow size capacity)

/-- the outcome `r'` is the error in `r`, or the result if it is the value that is asked for, after clearing up and passes -/
structure Outcome.ComesTo (mode : Mode) (r r' : Outcome Value) : Prop where
  result : mode = .value → ∀ v m, r = .ok v m → ∃ m', r' = .ok v m' ∧ m.Since m'
  error : ∀ f m e, r = .error f m → f.Names e → ∃ f' m', r' = .error f' m' ∧ f'.Names e ∧ m.Since m'

theorem Outcome.ComesTo.trans {mode : Mode} {r r' r'' : Outcome Value} (h : r.ComesTo mode r') (h' : r'.ComesTo mode r'') :
    r.ComesTo mode r'' where
  result hmode v m hr := by
    obtain ⟨m', hr', hsince⟩ := h.result hmode v m hr
    obtain ⟨m'', hr'', hsince'⟩ := h'.result hmode v m' hr'
    exact ⟨m'', hr'', hsince.trans hsince'⟩
  error f m e hr he := by
    obtain ⟨f', m', hr', he', hsince⟩ := h.error f m e hr he
    obtain ⟨f'', m'', hr'', he'', hsince'⟩ := h'.error f' m' e hr' he'
    exact ⟨f'', m'', hr'', he'', hsince.trans hsince'⟩

namespace Act

variable {th : ThreadId} {b : Nat} {mode : Mode} {h name : Handle} {v body : Value} {forms : List Value} {f : Function}
  {m m' m₁ m₂ m₃ : Machine} {ev : Evaluator} {x y : Act Value}

theorem ends_newError_kind (kind : ErrorKind) (first second : Value) : (newError th kind first second).Ends m
    (fun e _ => e.kind = kind) fun f _ => f = .fault .exhausted := by
  unfold newError newErrorObject
  refine .read (Ends.bind ((ends_allocate _ false m).mono (fun _ _ h => h) fun _ _ h => h.1) fun h m₁ _ => ?_)
  exact Ends.bind (P := fun _ _ => True) (by unfold pin; split <;> exact trivial) fun _ _ _ => rfl

theorem ends_raiseError_isFatal {α : Type} {kind : ErrorKind} (hkind : kind.isFatal = true) (first second : Value) :
    (raiseError th kind first second : Act α).Ends m (fun _ _ => False) fun f _ => f.IsFatal := by
  refine Ends.bind ((ends_newError_kind kind first second).mono (fun _ _ h => h) ?_) fun e _ he => ?_
  · rintro _ _ rfl
    exact Failure.isFatal_exhausted
  · exact ⟨e, .inl rfl, he ▸ hkind⟩

/-! ## What is left of an evaluation -/

/-- the outcome of a primitive becomes that of the call -/
def answered (th : ThreadId) (x : Act Value) : Act Value := do unlessSignaling (← withErrorObjects th x)

/-- what is left of the evaluation of a handler form that started on `m`, from its primitive on -/
def resumed (th : ThreadId) (mode : Mode) (m : Machine) (x : Act Value) : Act Value := do
  let r ← observe (collecting (andThen (answered th x) (dropSlots th 3)) (delivered th mode))
  ended th m r

theorem run_evaluate (hnests : m.Nests th) :
    (evaluate ev th v mode).run m = (observe (dispatch ev th v mode) >>= ended th m).run (m.deeper th) := by
  have hlimit : ¬ (m.thread th).stack.capacity * depthPerSlot < (m.thread th).depth + 1 := Nat.not_lt.2 hnests
  change (observe (if (m.thread th).stack.capacity * depthPerSlot < (m.thread th).depth + 1 then _ else dispatch ev th v mode) >>=
    ended th m).run (m.deeper th) = _
  rw [if_neg hlimit]

theorem run_evaluate_overflow (hnests : ¬ m.Nests th) : (evaluate ev th v mode).run m = (observe (do
      note .overflowed
      raiseError th .stackOverflow (int32 ((m.thread th).depth + 1)) (int32 ((m.thread th).stack.capacity * depthPerSlot : Nat))) >>=
    ended th m).run (m.deeper th) := by
  have hlimit : (m.thread th).stack.capacity * depthPerSlot < (m.thread th).depth + 1 := Nat.lt_succ_of_le (Nat.not_lt.1 hnests)
  change (observe (if (m.thread th).stack.capacity * depthPerSlot < (m.thread th).depth + 1 then _ else dispatch ev th v mode) >>=
    ended th m).run (m.deeper th) = _
  rw [if_pos hlimit]

theorem Ends.of_run {α : Type} {x y : Act α} {Q : α → Machine → Prop} {E : Failure → Machine → Prop} (h : x.run m = y.run m')
    (hy : y.Ends m' Q E) : x.Ends m Q E := by
  unfold Ends at *
  rwa [h]

/-! ## Up to the primitive -/

/-- the head is found to be a function that catches errors, and is called on the forms as they are -/
theorem run_dispatch_handler (hform : HandlerForm ev th h v name forms f m m₁) (mode : Mode) :
    (dispatch ev th (.cons h) mode).run (m.deeper th) =
      (collecting (call ev th f (v :: .symbol name :: forms)) (delivered th mode)).run m₁ := by
  obtain ⟨a, d, g, hcell, heval, hfunction⟩ := hform.head
  obtain ⟨a', d', hcell', hwalks⟩ := hform.items
  obtain ⟨⟨_, epoch, serial, text⟩, hs, rfl⟩ := Heap.cell?_eq_some.1 hcell
  obtain ⟨⟨_, epoch', serial', text'⟩, hs', rfl⟩ := Heap.cell?_eq_some.1 hcell'
  obtain rfl : serial' = serial := by simpa [hs, hs'] using hform.same
  have hpair : (asCons (.cons h)).run (m.deeper th) = .ok (some ⟨h, serial'⟩) (m.deeper th) :=
    bind_ok (Simulation.run_resolve (m := m.deeper th) (v := .cons h) rfl hs)
  have hcar : (carOf ⟨h, serial'⟩).run (m.deeper th) = .ok a (m.deeper th) :=
    bind_ok (Simulation.run_fieldsOf (m := m.deeper th) (c := ⟨h, serial'⟩) hs)
  have hcdr : (cdrOf ⟨h, serial'⟩).run m₁ = .ok d' m₁ := bind_ok (Simulation.run_fieldsOf (c := ⟨h, serial'⟩) hs')
  have hfound : (asFunction (.function g)).run m₁ = .ok (some f) m₁ := by
    obtain ⟨⟨_, _, _, _⟩, hs, rfl⟩ := Heap.cell?_eq_some.1 hfunction
    exact bind_ok (Simulation.run_resolve (v := .function g) rfl hs)
  have hitems : (withErrorObjects th (do listItems (← cdrOf ⟨h, serial'⟩))).run m₁ = .ok (v :: .symbol name :: forms) m₁ :=
    run_withErrorObjects_ok ((bind_ok hcdr).trans hwalks.run_listItems)
  refine (bind_ok hpair).trans ((bind_ok hcar).trans ((bind_ok heval).trans ((bind_ok hfound).trans ((bind_ok hitems).trans ?_))))
  simp only [hform.handler.isSpecial, if_true]
  refine (bind_ok (run_pure _ _)).trans ((bind_ok hfound).trans ?_)
  rfl

/-! ## The frame -/

/-- a value is pushed unless the stack is full -/
theorem ends_push_ (hm : m.heap.InOrder) (ho : (m.thread th).isOpen = true) (hwhole : (m.thread th).stack.beyond = 0) (v : Value) :
    (push_ th v).Ends m (fun _ m' => m.Stacked th 0 [v] m')
      fun e _ => e.IsCrowded ∧ (m.thread th).stack.capacity ≤ (m.thread th).stack.items.size := by
  have hsize : (m.thread th).stack.size = (m.thread th).stack.items.size := by rw [Stack.size, hwhole, Nat.add_zero]
  unfold push_ push Ends
  simp only [run_bind, run_get, hsize]
  by_cases hfull : (m.thread th).stack.capacity ≤ (m.thread th).stack.items.size
  · rw [if_pos hfull]
    exact ⟨.inr ⟨_, _, rfl⟩, hfull⟩
  · rw [if_neg hfull]
    exact Machine.stacked_push hm ho v

/-- values have been pushed, and one more is, unless the stack had no room for that -/
theorem ends_push_stacked {n k : Nat} {vs : List Value} (hm : m.Stacked th n vs m') (ho : (m.thread th).isOpen = true)
    (hwhole : (m.thread th).stack.beyond = 0) (hk : vs.length < k) (v : Value) :
    (push_ th v).Ends m' (fun _ m'' => m.Stacked th n (vs ++ [v]) m'') fun e _ => e.IsCrowded ∧ ¬ m.HasRoom th k := by
  have hopen : (m'.thread th).isOpen = true := hm.isOpen.trans ho
  have hwhole' : (m'.thread th).stack.beyond = 0 := by rw [hm.stack]; exact hwhole
  refine (ends_push_ hm.order hopen hwhole' v).mono (fun _ m'' h => hm.trans h) fun e _ h => ⟨h.1, fun hroom => ?_⟩
  have hfits := hroom.fits
  have hfull := h.2
  rw [hm.stack] at hfull
  simp only [Stack.lay, Array.size_append, List.size_toArray] at hfull
  omega

/-- the frame of a handler is laid, unless there is no room for it -/
theorem ends_pushArgs_handler (hf : f.IsHandler) (hm : m.heap.InOrder) (ho : (m.thread th).isOpen = true)
    (hwhole : (m.thread th).stack.beyond = 0) (v w : Value) (forms : List Value) :
    (pushArgs th true f.params (v :: w :: forms)).Ends m
      (fun _ m' => ∃ body, m.Stacked th forms.length [v, w, body] m' ∧ m'.Walks body forms)
      fun e _ => e.IsCrowded ∧ (¬ m.HasRoom th 3 ∨ m.heap.Lacks forms.length) := by
  obtain ⟨-, hrequired, hoptional, hrest, hkeys⟩ := hf
  obtain ⟨a, c, hrequired⟩ := List.length_eq_two.1 hrequired
  obtain ⟨d, hrest⟩ := Option.isSome_iff_exists.1 hrest
  have hargs : pushArgs th true f.params (v :: w :: forms) = (do
      let args ← pushRequired th [a, c] (v :: w :: forms)
      push_ th (← newListOf th true args)
      pure ()) := by
    unfold pushArgs
    have hcount : ¬ (v :: w :: forms).length < [a, c].length := by simp
    simp only [hrequired, hoptional, hrest, hkeys, if_neg hcount]
    rfl
  have hcrowded {e : Failure} {k : Nat} (hk : k ≤ 3) (h : e.IsCrowded ∧ ¬ m.HasRoom th k) :
      e.IsCrowded ∧ (¬ m.HasRoom th 3 ∨ m.heap.Lacks forms.length) :=
    ⟨h.1, .inl fun hroom => h.2 ⟨hroom.isOpen, hroom.whole, (Nat.add_le_add_left hk _).trans hroom.fits⟩⟩
  rw [hargs]
  have hrequired : (pushRequired th [a, c] (v :: w :: forms)).Ends m
      (fun rest m' => forms = rest ∧ m.Stacked th 0 [v, w] m')
      fun e _ => e.IsCrowded ∧ (¬ m.HasRoom th 3 ∨ m.heap.Lacks forms.length) := by
    refine Ends.bind ((ends_push_stacked (.refl hm) ho hwhole Nat.one_pos v).mono (fun _ _ h => h) fun _ _ => hcrowded (by decide))
      fun _ m₁ h₁ => ?_
    exact Ends.bind ((ends_push_stacked h₁ ho hwhole (Nat.lt_succ_self 1) w).mono (fun _ _ h => h) fun _ _ =>
      hcrowded (by decide)) fun _ m₂ h₂ => ⟨rfl, h₂⟩
  refine hrequired.bind ?_
  rintro _ m₂ ⟨rfl, h₂⟩
  have hlist : (newListOf th true forms).Ends m₂
      (fun body m₃ => m.Stacked th forms.length [v, w] m₃ ∧ m₃.Walks body forms)
      fun e _ => e.IsCrowded ∧ (¬ m.HasRoom th 3 ∨ m.heap.Lacks forms.length) := by
    refine (lays_newListOf (E := fun _ _ => False) true h₂.order forms).mono ?_ ?_
    · rintro body m₃ ⟨_, h₃, rfl, hwalks⟩
      exact ⟨by simpa using h₂.trans h₃, hwalks⟩
    · rintro e m₃ (⟨_, _, -, -, hno⟩ | ⟨rfl, hlacks⟩)
      · exact hno.elim
      · exact ⟨.inl rfl, .inr (by simpa using h₂.lacks hlacks)⟩
  refine hlist.bind fun body m₃ ⟨h₃, hwalks⟩ => ?_
  have hpushed := (ends_push_stacked h₃ ho hwhole (Nat.lt_succ_self 2) body).and
    (ends_push_ h₃.order (h₃.isOpen.trans ho) (by rw [h₃.stack]; exact hwhole) body)
  exact Ends.bind (hpushed.mono (fun _ _ h => h) fun _ _ h => hcrowded (by decide) h.1) fun _ m₄ h₄ =>
    ⟨body, h₄.1, hwalks.enlarged h₄.2.toEnlarged⟩

/-- from its primitive on, the call of a handler is the handling -/
theorem run_call_handler (hf : f.IsHandler) (hwhole : (m₁.thread th).stack.beyond = 0) {n : Nat}
    (hlaid : (pushArgs th true f.params (v :: .symbol name :: forms)).run m₁ = .ok () m₂)
    (hstacked : m₁.Stacked th n [v, .symbol name, body] m₂) {text : String} (hname : m₁.cell? name = some (.symbol text)) :
    (call ev th f (v :: .symbol name :: forms)).run m₁ =
      (andThen (answered th (catching ev th name v body)) (dropSlots th 3)).run m₂ := by
  have hsize : f.params.size = 3 := by
    obtain ⟨c, hc⟩ := Option.isSome_iff_exists.1 hf.rest
    simp [Params.size, Params.symbols, hf.required, hf.optional, hf.keys, hc]
  have hattempt : (attempt (pushArgs th f.isSpecial f.params (v :: .symbol name :: forms))).run m₁ = .ok (.ok ()) m₂ := by
    rw [hf.isSpecial]
    exact run_attempt_ok hlaid
  have hframe : (frameValues th (m₁.thread th).stack.size 3).run m₂ = .ok [v, .symbol name, body] m₂ :=
    run_frameValues_laid hstacked hwhole
  have hsymbol : (symbolArg th (.symbol name)).run m₂ = .ok name m₂ :=
    bind_ok (run_asSymbol_of_cell (hstacked.cells name _ hname))
  have hprimitive : (runPrimitive ev th [v, .symbol name, body] .catchError).run m₂ = (catching ev th name v body).run m₂ :=
    bind_ok hsymbol
  have hbody : (runBody ev th f (m₁.thread th).stack.size).run m₂ = (answered th (catching ev th name v body)).run m₂ := by
    unfold runBody answered
    simp only [hf.body, hsize]
    rw [bind_ok hframe, run_bind, run_bind, run_withErrorObjects_congr hprimitive]
  refine (bind_ok hattempt).trans ?_
  unfold andThen
  rw [hsize, run_bind, run_bind, run_observe, run_observe, hbody]

theorem run_dispatch_laid (hform : HandlerForm ev th h v name forms f m m₁) (hwhole : (m₁.thread th).stack.beyond = 0) {n : Nat}
    (hlaid : (pushArgs th true f.params (v :: .symbol name :: forms)).run m₁ = .ok () m₂)
    (hstacked : m₁.Stacked th n [v, .symbol name, body] m₂) : (dispatch ev th (.cons h) mode).run (m.deeper th) =
      (collecting (andThen (answered th (catching ev th name v body)) (dropSlots th 3)) (delivered th mode)).run m₂ := by
  obtain ⟨text, hname⟩ := hform.symbol
  rw [run_dispatch_handler hform]
  unfold collecting
  rw [run_bind, run_bind, run_attempt_congr (run_call_handler hform.handler hwhole hlaid hstacked hname)]

/-- an evaluation of a handler form has come to trying its form, with what is left of it still to do -/
theorem run_evaluate_handler (hnests : m.Nests th) (hform : HandlerForm ev th h v name forms f m m₁)
    (hwhole : (m₁.thread th).stack.beyond = 0) {n : Nat}
    (hlaid : (pushArgs th true f.params (v :: .symbol name :: forms)).run m₁ = .ok () m₂)
    (hstacked : m₁.Stacked th n [v, .symbol name, body] m₂) :
    (evaluate ev th (.cons h) mode).run m = (resumed th mode m (catching ev th name v body)).run m₂ := by
  rw [run_evaluate hnests]
  unfold resumed
  rw [run_bind, run_bind, run_observe, run_observe, run_dispatch_laid hform hwhole hlaid hstacked]

/-! ## What comes of it -/

theorem ends_dropSlots_since (hwhole : (m.thread th).stack.beyond = 0) (n : Nat) :
    (dropSlots th n).Ends m (fun _ m' => m.Since m') fun _ _ => False := by
  unfold dropSlots stackBeyond
  refine Ends.bind (P := fun x m' => x = 0 ∧ m' = m) ⟨hwhole, rfl⟩ ?_
  rintro _ _ ⟨rfl, rfl⟩
  exact ⟨⟨[], rfl⟩, rfl, rfl, rfl, fun _ _ h => h⟩

/-- the stacks of all threads have their slots -/
theorem whole_of_onward {k : Nat} (hm : m.Sane th b k) (h : Machine.Onward th b k m m') (u : ThreadId)
    (hu : (m'.thread u).isOpen = true) : (m'.thread u).stack.beyond = 0 :=
  have hsame := h.shape_any rfl rfl rfl u
  hsame.2.1.trans (hm.beyond u (hsame.1.symm.trans hu))

theorem runs_answered (hx : Runs th b b Cause.IsObject x Value.IsPlain) :
    Runs th b b Cause.IsThrown (answered th x) Value.IsPlain := by
  refine (runs_withErrorObjects hx.fine).thrown.bind fun v hv => ?_
  have hpassed : unlessSignaling v = pure v := by
    unfold unlessSignaling
    rw [hv.2]
    rfl
  rw [hpassed]
  exact .pure hv

theorem comesTo_answered (hx : ∀ w m', x.run m = .ok w m' → w.isSignaling = false) :
    (x.run m).ComesTo mode ((answered th x).run m) := by
  have hrun : (answered th x).run m = (withErrorObjects th x >>= unlessSignaling).run m := rfl
  refine ⟨fun _ w m' hr => ⟨m', ?_, .refl m'⟩, fun f m' e hr he => ⟨f, m', ?_, he, .refl m'⟩⟩
  · have hquiet := hx w m' hr
    have hsame : (withErrorObjects th x).run m = .ok w m' := run_withErrorObjects_ok hr
    have hpure : unlessSignaling w = pure w := by
      unfold unlessSignaling
      rw [hquiet]
      rfl
    rw [hrun, bind_ok hsame, hpure]
    rfl
  · have hsame : (withErrorObjects th x).run m = .error f m' := by
      unfold withErrorObjects attempt
      simp only [run_bind, run_observe, hr]
      rcases he with rfl | ⟨rfl, -⟩ <;> rfl
    rw [hrun, bind_error hsame]

theorem comesTo_andThen {after : Act Unit}
    (hok : ∀ w m', x.run m = .ok w m' → after.Ends m' (fun _ m'' => m'.Since m'') fun _ _ => False)
    (herror : ∀ f m', x.run m = .error f m' → after.Ends m' (fun _ m'' => m'.Since m'') fun _ _ => False) :
    (x.run m).ComesTo mode ((andThen x after).run m) := by
  have hcleared {m' : Machine} (hafter : after.Ends m' (fun _ m'' => m'.Since m'') fun _ _ => False) (r : Except Failure Value)
      (hobserve : (observe x).run m = .ok r m') :
      ∃ m'', (andThen x after).run m = (settle r).run m'' ∧ m'.Since m'' := by
    cases ha : after.run m' with
    | ok _ m'' => exact ⟨m'', (bind_ok hobserve).trans (bind_ok ha), hafter.ok ha⟩
    | error _ _ => exact (hafter.error ha).elim
  refine ⟨fun _ w m' hr => ?_, fun f m' e hr he => ?_⟩
  · exact hcleared (hok w m' hr) (.ok w) (run_observe_ok hr)
  · obtain ⟨m'', hrun, hsince⟩ := hcleared (herror f m' hr) (.error f) (run_observe_error hr)
    exact ⟨f, m'', hrun, he, hsince⟩

theorem comesTo_collecting
    (hok : ∀ w m', x.run m = .ok w m' → ∀ u, (m'.thread u).isOpen = true → (m'.thread u).stack.beyond = 0)
    (herror : ∀ c m', x.run m = .error (.raised c) m' → ∀ u, (m'.thread u).isOpen = true → (m'.thread u).stack.beyond = 0)
    (hplain : ∀ w m', x.run m = .ok w m' → w.isReference = false) :
    (x.run m).ComesTo mode ((collecting x (delivered th mode)).run m) := by
  have hpast {m' : Machine} (hwhole : ∀ u, (m'.thread u).isOpen = true → (m'.thread u).stack.beyond = 0) :
      ∃ p m'', maybeCollect.run m' = .ok p m'' ∧ m'.Since m'' := by
    have hends := ends_maybeCollect_since hwhole (E := fun _ _ => False)
    cases hr : maybeCollect.run m' with
    | ok p m'' => exact ⟨p, m'', rfl, hends.ok hr⟩
    | error _ _ => exact (hends.error hr).elim
  refine ⟨fun hmode w m' hr => ?_, fun f m' e hr he => ?_⟩
  · subst hmode
    obtain ⟨p, m'', hcollect, hsince⟩ := hpast (hok w m' hr)
    have hdelivered : delivered th .value w = pure w := by
      unfold delivered plainValue
      simp [hplain w m' hr]
    refine ⟨m'', (bind_ok (run_attempt_ok hr)).trans ((bind_ok hcollect).trans ?_), hsince⟩
    have hpassed : (delivered th .value w).run m'' = .ok w m'' := by rw [hdelivered, run_pure]
    exact hpassed
  · rcases he with rfl | ⟨rfl, rfl⟩
    · obtain ⟨p, m'', hcollect, hsince⟩ := hpast (herror _ m' hr)
      exact ⟨_, m'', (bind_ok (run_attempt_raised hr)).trans (bind_ok hcollect), .inl rfl, hsince⟩
    · exact ⟨_, m', bind_error (run_attempt_error (by simp) hr), .inr ⟨rfl, rfl⟩, .refl m'⟩

theorem comesTo_ended (hm : m.Sane th b b) (hx : (observe x).Ends m₂ (fun _ m' => Machine.Onward th b b (m.deeper th) m')
    fun _ _ => False) : (x.run m₂).ComesTo mode ((observe x >>= ended th m).run m₂) := by
  refine ⟨fun _ w m' hr => ?_, fun f m' e hr he => ?_⟩
  · rw [bind_ok (run_observe_ok hr)]
    have hset : (setDepth th (m.thread th).depth).run m' = .ok () (m'.onThread th fun t => { t with depth := (m.thread th).depth }) :=
      rfl
    unfold ended
    rw [bind_ok hset]
    split <;> exact ⟨_, rfl, ⟨[], rfl⟩, rfl, rfl, rfl, fun _ _ h => h⟩
  · rw [bind_ok (run_observe_error hr)]
    exact names_ended hm (hx.ok (run_observe_error hr)) he

/-- what is left of the evaluation of a handler form keeps what its primitive has come to -/
theorem comesTo_resumed (hm : m.Sane th b b) (hm₁ : m₁.Sane th b b) (hm₂ : m₂.Sane th b b)
    (hx : Runs th b b Cause.IsObject x Value.IsPlain)
    (hcall : (andThen (answered th x) (dropSlots th 3)).Ends m₂ (fun w m' => Machine.Even th b b m₁ m' ∧ w.IsResult b)
      (Machine.Failed th b b Cause.IsThrown m₁))
    (hcame : (observe (collecting (andThen (answered th x) (dropSlots th 3)) (delivered th mode))).Ends m₂
      (fun _ m' => Machine.Onward th b b (m.deeper th) m') fun _ _ => False) :
    (x.run m₂).ComesTo mode ((resumed th mode m x).run m₂) := by
  have hanswered := runs_answered hx m₂ hm₂
  have hplain : (andThen (answered th x) (dropSlots th 3)).Ends m₂ (fun w _ => w.IsPlain) fun _ _ => True :=
    hanswered.andThen (fun w m' h => (ends_dropSlots_since (h.1.toOnward.beyond hm₂) 3).mono (fun _ _ _ => h.2) fun _ _ h => h)
      fun e m' h => (ends_dropSlots_since (h.onward.beyond hm₂) 3).mono (fun _ _ _ => trivial) fun _ _ h => h
  have hanswer : (x.run m₂).ComesTo mode ((answered th x).run m₂) :=
    comesTo_answered fun w m' hr => ((hx m₂ hm₂).ok hr).2.2
  have hdrop : ((answered th x).run m₂).ComesTo mode ((andThen (answered th x) (dropSlots th 3)).run m₂) :=
    comesTo_andThen (fun w m' hr => ends_dropSlots_since ((hanswered.ok hr).1.toOnward.beyond hm₂) 3)
      fun e m' hr => ends_dropSlots_since ((hanswered.error hr).onward.beyond hm₂) 3
  have hcollect : ((andThen (answered th x) (dropSlots th 3)).run m₂).ComesTo mode
      ((collecting (andThen (answered th x) (dropSlots th 3)) (delivered th mode)).run m₂) :=
    comesTo_collecting (fun w m' hr => whole_of_onward hm₁ (hcall.ok hr).1.toOnward)
      (fun c m' hr => whole_of_onward hm₁ (hcall.error hr).onward) fun w m' hr => (hplain.ok hr).1
  exact ((hanswer.trans hdrop).trans hcollect).trans (comesTo_ended hm hcame)

/-! ## Stopping where the form is tried -/

/-- an action that is stopped where it starts stops what is left of the evaluation -/
theorem isStopped_resumed (hx : x.run m₂ = .error (.fault (.custom "stopped")) m₂) (hwhole : (m₂.thread th).stack.beyond = 0) :
    (resumed th mode m x).IsStopped m₂ := by
  have hanswered : (answered th x).Ends m₂ (fun _ _ => False) fun e m' => e = .fault (.custom "stopped") ∧ m' = m₂ := by
    have htry : (withErrorObjects th x).run m₂ = .error (.fault (.custom "stopped")) m₂ :=
      bind_error (run_attempt_error (by simp) hx)
    unfold answered Ends
    rw [bind_error htry]
    exact ⟨rfl, rfl⟩
  have hdropped : (andThen (answered th x) (dropSlots th 3)).IsStopped m₂ := by
    refine Ends.andThen hanswered (fun _ _ h => h.elim) ?_
    rintro _ _ ⟨rfl, rfl⟩
    exact (ends_dropSlots_since hwhole 3).mono (fun _ _ _ => rfl) fun _ _ h => h
  have hcollecting : (collecting (andThen (answered th x) (dropSlots th 3)) (delivered th mode)).IsStopped m₂ :=
    hdropped.attempt.bind _
  refine Ends.bind (P := fun r _ => r = .error (.fault (.custom "stopped")))
    (.observe (hcollecting.mono (fun _ _ h => h.elim) fun _ _ h => by rw [h])) ?_
  rintro _ m' rfl
  have hset : (setDepth th (m.thread th).depth).run m' = .ok () (m'.onThread th fun t => { t with depth := (m.thread th).depth }) :=
    rfl
  refine IsStopped.of_ok hset ?_
  split <;> exact rfl

theorem run_catching_watched : (catching (ev.watched v .value m₂) th name v body).run m₂ =
    .error (.fault (.custom "stopped")) m₂ := by
  have heval : ((ev.watched v .value m₂).eval v .value).run m₂ = .error (.fault (.custom "stopped")) m₂ := by
    simp [Evaluator.watched, run_bind]
  exact bind_error (run_attempt_error (by simp) heval)

/-- what the primitive has noted stays noted -/
theorem journal_resumed (th : ThreadId) (mode : Mode) (m : Machine) (x : Act Value) (m₂ : Machine) :
    (Outcome.machine (x.run m₂)).journal <:+ (Outcome.machine ((resumed th mode m x).run m₂)).journal := by
  have hanswered : (Outcome.machine (x.run m₂)).journal <:+ (Outcome.machine ((answered th x).run m₂)).journal :=
    (journal_attempt x m₂ ▸ journal_bind (attempt x) _ m₂ : _ <:+ (Outcome.machine ((withErrorObjects th x).run m₂)).journal).trans
      (journal_bind ..)
  have hdropped : (Outcome.machine ((answered th x).run m₂)).journal <:+
      (Outcome.machine ((andThen (answered th x) (dropSlots th 3)).run m₂)).journal :=
    journal_observe (answered th x) m₂ ▸ journal_bind (observe (answered th x)) _ m₂
  have hcollected : (Outcome.machine ((andThen (answered th x) (dropSlots th 3)).run m₂)).journal <:+
      (Outcome.machine ((collecting (andThen (answered th x) (dropSlots th 3)) (delivered th mode)).run m₂)).journal :=
    journal_attempt (andThen (answered th x) (dropSlots th 3)) m₂ ▸ journal_bind (attempt _) _ m₂
  refine ((hanswered.trans hdropped).trans hcollected).trans ?_
  rw [← journal_observe]
  exact journal_bind ..

/-! ## Without room -/

/-- an evaluation ends in the fatal error that it has come to -/
theorem fails_ended (hm : m.Sane th b b) (hx : x.Ends m₂ (fun _ _ => False) fun f _ => f.IsFatal)
    (hcame : (observe x).Ends m₂ (fun _ m' => Machine.Onward th b b (m.deeper th) m') fun _ _ => False) :
    ∃ f m', (observe x >>= ended th m).run m₂ = .error f m' ∧ f.IsFatal := by
  cases hr : x.run m₂ with
  | ok _ _ => exact (hx.ok hr).elim
  | error f m' =>
    obtain ⟨e, he, hkind⟩ := hx.error hr
    have hobserve : (observe x).run m₂ = .ok (.error f) m' := run_observe_error hr
    obtain ⟨f', m'', hend, he', -⟩ := names_ended hm (hcame.ok hobserve) he
    exact ⟨f', m'', (bind_ok hobserve).trans hend, e, he', hkind⟩

/-- a call whose frame does not fit fails -/
theorem fails_call (ev : Evaluator) (hm : m.Sane th b b) {args : List Value} (hargs : ∀ v ∈ args, v.IsPlain) {f : Function}
    (hf : f.params.source.IsPlain)
    (hcrowded : (pushArgs th f.isSpecial f.params args).Ends m (fun _ _ => False) fun e _ => e.IsCrowded) :
    (call ev th f args).Ends m (fun _ _ => False) fun e _ => e.IsFatal := by
  have hpiles := piles_pushArgs f.isSpecial hf hargs m hm
  unfold call
  refine Ends.bind (P := fun base m' => base = (m.thread th).height ∧ m' = m) ⟨hm.size, rfl⟩ ?_
  rintro _ m' ⟨rfl, rfl⟩
  refine (hcrowded.and hpiles).attempting (fun _ _ h => h.1.elim) (fun c m₁ ⟨hc, hstray⟩ => ?_) fun e m₁ he ⟨hc, _⟩ => ?_
  · obtain ⟨size, capacity, rfl⟩ : ∃ size capacity, c = .stackOverflow size capacity := by
      rcases hc with hc | ⟨size, capacity, hc⟩
      · cases hc
      · exact ⟨size, capacity, Failure.raised.inj hc⟩
    exact Ends.bind ((ends_dropAbove hm hstray.onward).mono (fun _ _ h => h) fun _ _ h => h.elim) fun _ m₂ _ =>
      ends_raiseError_isFatal rfl (int32 size) (int32 capacity)
  · obtain rfl : e = .fault .exhausted := hc.resolve_right fun ⟨size, capacity, h⟩ => he _ h
    exact Failure.isFatal_exhausted

/-! ## Handler forms -/

/-- The evaluation of a handler form on `m` comes to trying its form. From `m₁`, where its head has been evaluated, it gets to
`m₂`: the form, the symbol and the list of its other forms lie on the stack and the scopes are those of `m`. There it tries the
form and handles its error, and this is what it comes to. -/
structure Tries (ev : Evaluator) (th : ThreadId) (h : Handle) (v : Value) (name : Handle) (forms : List Value) (mode : Mode)
    (m m₁ : Machine) (body : Value) (m₂ : Machine) : Prop where
  frame : m₁.Stacked th forms.length [v, .symbol name, body] m₂
  rest : body.IsPlain ∧ m₂.Walks body forms
  scopes : (m₂.thread th).scopes = (m.thread th).scopes
  starts : (evaluate (ev.watched v .value m₂) th (.cons h) mode).IsStopped m
  comes : ((catching ev th name v body).run m₂).ComesTo mode ((evaluate ev th (.cons h) mode).run m)
  part : (Outcome.machine ((catching ev th name v body).run m₂)).journal <:+
    (Outcome.machine ((evaluate ev th (.cons h) mode).run m)).journal

/-- where the head of a handler form has been evaluated, the machine is as before -/
theorem even_head (hev : ev.Orderly th b) (hm : m.Sane th b b) (hform : HandlerForm ev th h v name forms f m m₁) :
    Machine.Even th b b (m.deeper th) m₁ := by
  obtain ⟨a, d, g, -, heval, -⟩ := hform.head
  exact ((hev.value a (m.deeper th) (sane_setDepth hm _)).ok heval).1

/-- a handler form holds plain values -/
theorem plain_items (hm₁ : m₁.Sane th b b) (hform : HandlerForm ev th h v name forms f m m₁) :
    f.params.source.IsPlain ∧ ∀ w ∈ v :: .symbol name :: forms, w.IsPlain := by
  obtain ⟨-, -, g, -, -, hfunction⟩ := hform.head
  obtain ⟨a, d, hcell, hwalks⟩ := hform.items
  have hsource : f.params.source.IsPlain := by
    cases hm₁.heap.cells g _ hfunction with
    | function hs _ => exact hs
  have hd : d.IsPlain := by
    cases hm₁.heap.cells h _ hcell with
    | cons _ hd => exact hd
  exact ⟨hsource, (((still_listItems hd).runs m₁ hm₁).ok hwalks.run_listItems).2⟩

/-- whatever an evaluation comes to before its end, it has gone on from its start -/
theorem came_handler (hev : ev.Orderly th b) (hm : m.Sane th b b) (hnests : m.Nests th)
    (heq : (dispatch ev th (.cons h) mode).run (m.deeper th) = x.run m₂) :
    (observe x).Ends m₂ (fun _ m' => Machine.Onward th b b (m.deeper th) m') fun _ _ => False := by
  have hlimit : ¬ (m.thread th).stack.capacity * depthPerSlot < (m.thread th).depth + 1 := Nat.not_lt.2 hnests
  have hcame := cameTo_dispatch hev (sane_setDepth hm ((m.thread th).depth + 1)) (.cons h) mode (fun _ => nofun)
    (m.thread th).depth ((m.thread th).stack.capacity * depthPerSlot)
  rw [if_neg hlimit] at hcame
  refine Ends.of_run (y := observe (dispatch ev th (.cons h) mode)) ?_ (hcame.mono (fun _ _ h => h.1) fun _ _ h => h)
  rw [run_observe, run_observe, ← heq]
  rfl

/-- evaluations nest too deep -/
theorem fails_overflow (hev : ev.Orderly th b) (hm : m.Sane th b b) (hnests : ¬ m.Nests th) :
    ∃ f m', (evaluate ev th (.cons h) mode).run m = .error f m' ∧ f.IsFatal := by
  have hcame := cameTo_dispatch hev (sane_setDepth hm ((m.thread th).depth + 1)) (.cons h) mode (fun _ => nofun)
    (m.thread th).depth ((m.thread th).stack.capacity * depthPerSlot)
  rw [if_pos (Nat.lt_succ_of_le (Nat.not_lt.1 hnests))] at hcame
  rw [run_evaluate_overflow hnests]
  refine fails_ended hm ?_ (hcame.mono (fun _ _ h => h.1) fun _ _ h => h)
  exact Ends.bind (P := fun _ _ => True) True.intro fun _ _ _ => ends_raiseError_isFatal rfl _ _

/-- there is no room for the frame -/
theorem fails_crowded (hev : ev.Orderly th b) (hm : m.Sane th b b) (hform : HandlerForm ev th h v name forms f m m₁)
    (hnests : m.Nests th) {e : Failure} (hlaid : (pushArgs th true f.params (v :: .symbol name :: forms)).run m₁ = .error e m₂)
    (he : e.IsCrowded) : ∃ f' m', (evaluate ev th (.cons h) mode).run m = .error f' m' ∧ f'.IsFatal := by
  have hm₁ := (even_head hev hm hform).sane (sane_setDepth hm _)
  obtain ⟨hsource, hplain⟩ := plain_items hm₁ hform
  have hspecial := hform.handler.isSpecial
  have hcrowded : (pushArgs th f.isSpecial f.params (v :: .symbol name :: forms)).Ends m₁ (fun _ _ => False)
      fun e _ => e.IsCrowded := by
    unfold Ends
    rw [hspecial, hlaid]
    exact he
  have hclean : (Cell.function f).IsClean b := by
    obtain ⟨-, -, g, -, -, hfunction⟩ := hform.head
    exact hm₁.heap.cells g _ hfunction
  have hcall := (fails_call ev hm₁ hplain hsource hcrowded).and
    (abreast_call (.unrelated th ev) hev hclean hm₁ hplain fun h => by rw [hspecial] at h; cases h).1
  have hcollecting : (collecting (call ev th f (v :: .symbol name :: forms)) (delivered th mode)).Ends m₁ (fun _ _ => False)
      fun e _ => e.IsFatal := by
    refine hcall.attempting (fun _ _ h => h.1.elim) (fun c m₃ h₃ => ?_) fun _ _ _ h => h.1
    exact Ends.bind (ends_maybeCollect_since (whole_of_onward hm₁ h₃.2.onward)) fun _ _ _ => h₃.1
  have hrun := run_dispatch_handler hform mode
  obtain ⟨f', m', hr, hfatal⟩ := fails_ended hm hcollecting (came_handler hev hm hnests hrun)
  refine ⟨f', m', ?_, hfatal⟩
  rw [run_evaluate hnests, ← hr, run_bind, run_bind, run_observe, run_observe, hrun]

/-- the frame has been laid -/
theorem tries_laid (hev : ev.Orderly th b) (hm : m.Sane th b b) (hform : HandlerForm ev th h v name forms f m m₁)
    (hnests : m.Nests th) (hlaid : (pushArgs th true f.params (v :: .symbol name :: forms)).run m₁ = .ok () m₂)
    (hstacked : m₁.Stacked th forms.length [v, .symbol name, body] m₂) (hwalks : m₂.Walks body forms) :
    Tries ev th h v name forms mode m m₁ body m₂ := by
  have heven := even_head hev hm hform
  have hm₁ := heven.sane (sane_setDepth hm _)
  have hwhole := hm₁.beyond th hm₁.isOpen
  obtain ⟨hsource, hplain⟩ := plain_items hm₁ hform
  have hgrown := ((piles_pushArgs true hsource hplain m₁ hm₁).ok hlaid).1.toGrown
  have hm₂ := hgrown.sane hm₁
  have hitems : (m₂.thread th).stack.items = (m₁.thread th).stack.items ++ #[v, .symbol name, body] := by
    rw [hstacked.stack]
    rfl
  have hbody : body.IsPlain := hm₂.slots th body (by rw [hitems]; simp)
  have hdeeper : (m.deeper th).thread th = { m.thread th with depth := (m.thread th).depth + 1 } :=
    (Machine.becomes_onThread hm.isOpen _).own
  -- the head was evaluated before the frame was laid
  have hlater : m.deeper th ≠ m₂ := fun heq => by
    have hlevel : (m₁.thread th).stack.items.size = ((m.deeper th).thread th).stack.items.size := heven.level
    rw [heq, hitems, Array.size_append] at hlevel
    exact absurd hlevel (by simp)
  refine ⟨hstacked, ⟨hbody, hwalks⟩, ?_, ?_, ?_, ?_⟩
  · rw [hgrown.toOnward.scopes, heven.scopes, hdeeper]
  · have hwatched : HandlerForm (ev.watched v .value m₂) th h v name forms f m m₁ := by
      obtain ⟨a, d, g, hcell, heval, hfunction⟩ := hform.head
      refine { hform with head := ⟨a, d, g, hcell, ?_, hfunction⟩ }
      rw [Evaluator.run_watched fun heq => hlater heq.2.2, heval]
    exact Ends.of_run (run_evaluate_handler hnests hwatched hwhole hlaid hstacked)
      (isStopped_resumed run_catching_watched (hm₂.beyond th hm₂.isOpen))
  · rw [run_evaluate_handler hnests hform hwhole hlaid hstacked]
    obtain ⟨text, hname⟩ := hform.symbol
    obtain ⟨-, -, g, -, -, hfunction⟩ := hform.head
    have hspecial := hform.handler.isSpecial
    have hcall := (abreast_call (.unrelated th ev) hev (hm₁.heap.cells g _ hfunction) hm₁ hplain fun h => by
      rw [hspecial] at h; cases h).1
    exact comesTo_resumed hm hm₁ hm₂ (tracks_catching (.unrelated th ev) hev name v hbody).1
      (Ends.of_run (run_call_handler hform.handler hwhole hlaid hstacked hname).symm hcall)
      (came_handler hev hm hnests (run_dispatch_laid hform hwhole hlaid hstacked))
  · rw [run_evaluate_handler hnests hform hwhole hlaid hstacked]
    exact journal_resumed ..

theorem exists_tries (hev : ev.Orderly th b) (hm : m.Sane th b b) (hform : HandlerForm ev th h v name forms f m m₁)
    (mode : Mode) (hnests : m.Nests th) (hlaid : (pushArgs th true f.params (v :: .symbol name :: forms)).run m₁ = .ok () m₂) :
    ∃ body, Tries ev th h v name forms mode m m₁ body m₂ := by
  have hm₁ := (even_head hev hm hform).sane (sane_setDepth hm _)
  obtain ⟨body, hstacked, hwalks⟩ := (ends_pushArgs_handler hform.handler hm₁.heap.order hm₁.isOpen (hm₁.beyond th hm₁.isOpen)
    v (.symbol name) forms).ok hlaid
  exact ⟨body, tries_laid hev hm hform hnests hlaid hstacked hwalks⟩

/-- a handler form is tried, unless there is no room for that, and then its evaluation fails and nothing handles the failure -/
theorem tries_of_handlerForm (hev : ev.Orderly th b) (hm : m.Sane th b b) (hform : HandlerForm ev th h v name forms f m m₁)
    (mode : Mode) :
    ((¬ m.Nests th ∨ ¬ m₁.HasRoom th 3 ∨ m₁.heap.Lacks forms.length) ∧
      ∃ f' m', (evaluate ev th (.cons h) mode).run m = .error f' m' ∧ f'.IsFatal) ∨
    ∃ body m₂, Tries ev th h v name forms mode m m₁ body m₂ := by
  by_cases hnests : m.Nests th
  · have hm₁ := (even_head hev hm hform).sane (sane_setDepth hm _)
    have hends := ends_pushArgs_handler hform.handler hm₁.heap.order hm₁.isOpen (hm₁.beyond th hm₁.isOpen) v (.symbol name) forms
    cases hlaid : (pushArgs th true f.params (v :: .symbol name :: forms)).run m₁ with
    | error e m₂ =>
      obtain ⟨hcrowded, hno⟩ := hends.error hlaid
      exact .inl ⟨.inr hno, fails_crowded hev hm hform hnests hlaid hcrowded⟩
    | ok _ m₂ =>
      obtain ⟨body, htries⟩ := exists_tries hev hm hform mode hnests hlaid
      exact .inr ⟨body, m₂, htries⟩
  · exact .inl ⟨.inl hnests, fails_overflow hev hm hnests⟩

end Act

end LispMachine
