/-
Assignment to a variable.

An assignment looks its variable up again when the value has been computed, since that may have moved the binding. It stores into
the place that is found then: every look-up that finds this place, from whatever scope and whatever function has captured it, reads
the new value, and every other one reads what it read when the value had been computed (`Act.setf_reaches_sharers`).
-/
import LispMachine.Proofs.Arguments
import LispMachine.Proofs.Orderly.Evaluate
import LispMachine.Proofs.Promoting.Way

namespace LispMachine

namespace Machine

variable {m m' m'' : Machine} {t h sym : Handle} {th : ThreadId} {p : Place} {v : Value}

/-! ## What is not seen -/

/-- a machine with the same objects, stacks and scopes -/
structure Unmoved (m m' : Machine) : Prop where
  heap : m'.heap = m.heap
  owners : m'.stackOwners = m.stackOwners
  stack : ∀ u, (m'.thread u).stack = (m.thread u).stack
  within : ∀ u, (m'.thread u).scopes = (m.thread u).scopes

theorem Unmoved.refl (m : Machine) : m.Unmoved m := ⟨rfl, rfl, fun _ => rfl, fun _ => rfl⟩

theorem Unmoved.trans (h : m.Unmoved m') (h' : m'.Unmoved m'') : m.Unmoved m'' :=
  ⟨h'.heap.trans h.heap, h'.owners.trans h.owners, fun u => (h'.stack u).trans (h.stack u), fun u => (h'.within u).trans (h.within u)⟩

theorem unmoved_onThread (m : Machine) (th : ThreadId) {f : Thread → Thread}
    (hf : ∀ t, (f t).stack = t.stack ∧ (f t).scopes = t.scopes) : m.Unmoved (m.onThread th f) := by
  by_cases hlt : th < m.threads.size
  · have hthread := thread_onThread_of_lt hlt f
    have hsame (u : ThreadId) : ((m.onThread th f).thread u).stack = (m.thread u).stack ∧
        ((m.onThread th f).thread u).scopes = (m.thread u).scopes := by
      rw [hthread]
      split
      · rename_i hu
        exact hu ▸ hf _
      · exact ⟨rfl, rfl⟩
    exact ⟨rfl, rfl, fun u => (hsame u).1, fun u => (hsame u).2⟩
  · rw [onThread_of_le (Nat.le_of_not_lt hlt)]
    exact .refl m

theorem Unmoved.load_eq (h : m.Unmoved m') (p : Place) : m'.load p = m.load p := by
  cases p <;> simp [load, stack?, cell?, h.heap, h.owners, h.stack]

theorem Unmoved.lookup?_eq (h : m.Unmoved m') (t sym : Handle) : m'.lookup? t sym = m.lookup? t sym :=
  lookup?_of_scopes (congrArg Heap.births h.heap) (fun t => scope_congr (congrArg (·.cell? t) h.heap)) t sym

theorem Unmoved.seen_eq (h : m.Unmoved m') (t sym : Handle) : m'.seen t sym = m.seen t sym := by
  unfold seen
  rw [h.lookup?_eq]
  cases m.lookup? t sym with
  | none => rfl
  | some r =>
    cases r with
    | ref p => exact congrArg some (h.load_eq p)
    | _ => rfl

/-! ## What is assigned -/

/-- no thread of a sound machine has two stacks -/
theorem Sound.stacksApart (hm : m.Sound) : m.StacksApart := fun _ _ _ h h' =>
  ((hm.owners _ _).1 h).2.symm.trans ((hm.owners _ _).1 h').2

/-- nor of one that has come from it by what a thread has run -/
theorem StacksApart.moved {b k : Nat} {t : Thread} (hm : m.StacksApart) (h : m.Moved th b k t m') : m'.StacksApart := by
  have howners : m'.stackOwners = m.stackOwners := congrArg (·.2.1) h.fixed
  unfold StacksApart
  rwa [howners]

theorem StacksApart.unmoved (hm : m.StacksApart) (h : m.Unmoved m') : m'.StacksApart := by
  unfold StacksApart
  rwa [h.owners]

/-- a machine after an assignment to the place that a look-up of the symbol from `h` finds: a look-up finds what it found, and
reads the new value exactly if it finds that place -/
def Assigns (m : Machine) (h sym : Handle) (v : Value) (m' : Machine) : Prop :=
  ∃ p, m.lookup? h sym = some (.ref p) ∧ ∀ t k, m'.lookup? t k = m.lookup? t k ∧
    m'.seen t k = if m.lookup? t k = some (.ref p) then some v else m.seen t k

theorem Stored.assigns (h : m.Stored p v m') {u : Handle} (hfound : m.lookup? u sym = some (.ref p)) : m.Assigns u sym v m' := by
  have hlookup := lookup?_of_scopes h.books.births h.scopes
  refine ⟨p, hfound, fun t k => ⟨hlookup t k, ?_⟩⟩
  unfold seen
  rw [hlookup]
  cases hr : m.lookup? t k with
  | none => simp
  | some r =>
    cases r with
    | ref q =>
      by_cases hq : q = p
      · subst hq
        simpa [read] using h.value
      · simpa [read, hq] using h.others q hq
    | _ => simp [read]

/-- what is not seen between the value and the store makes no difference -/
theorem Unmoved.assigns (h : m.Unmoved m') {u : Handle} (ha : m'.Assigns u sym v m'') : m.Assigns u sym v m'' := by
  obtain ⟨p, hfound, hothers⟩ := ha
  refine ⟨p, h.lookup?_eq .. ▸ hfound, fun t k => ?_⟩
  rw [← h.lookup?_eq, ← h.seen_eq]
  exact hothers t k

end Machine

namespace Act

open Machine

variable {m : Machine} {th : ThreadId} {b : Nat} {h sym : Handle} {args : List Value} {Q : Value → Machine → Prop}

/-! ## A variable as a place -/

theorem ends_setDepth (d : Nat) {E : Failure → Machine → Prop} : (setDepth th d).Ends m (fun _ m' => m.Unmoved m') E :=
  unmoved_onThread (f := fun t => { t with depth := d }) m th fun _ => ⟨rfl, rfl⟩

theorem ends_unpinTo (mark : Nat) (kept : List Value) {E : Failure → Machine → Prop} :
    (unpinTo th mark kept).Ends m (fun _ m' => m.Unmoved m') E :=
  unmoved_onThread (f := fun t => { t with pins := t.pins.shrink mark ++ (kept.filter Value.needsPin).toArray }) m th
    fun _ => ⟨rfl, rfl⟩

theorem ends_conclude_ok (pins : Nat) (v : Value) :
    (conclude th pins (.ok v)).Ends m (fun w m' => w = v ∧ m.Unmoved m') fun _ _ => True :=
  (ends_unpinTo pins _).bind fun _ _ h => ⟨rfl, h⟩

/-- a failure stays one -/
theorem ends_conclude_error (pins : Nat) (e : Failure) : (conclude th pins (.error e)).Ends m Q fun _ _ => True := by
  unfold conclude
  split
  · trivial
  · exact Ends.trivial.bind fun _ _ _ => trivial

theorem ends_contain_error (base : Nat) (e : Failure) :
    (contain th base (.error e)).Ends m (fun r _ => ∃ e', r = .error e') fun _ _ => True := by
  unfold contain
  split
  · refine Ends.trivial.bind fun r _ _ => ?_
    split <;> exact ⟨_, rfl⟩
  · exact ⟨e, rfl⟩

theorem ends_lookup (hcurrent : (m.thread th).scopes.back? = some h) :
    (lookup th sym).Ends m (fun r m' => m' = m ∧ m.lookup? h sym = some r) fun _ _ => True := by
  have hrun : (currentScope th).run m = .ok h m := by simp [currentScope, run_bind, hcurrent]
  unfold lookup
  refine .next hrun (.read ?_)
  split
  · rename_i hr
    exact ⟨rfl, hr⟩
  · exact Ends.trivial.bind fun _ _ _ => trivial

/-- the place of a variable is what a look-up from the current scope finds -/
theorem ends_dispatch_symbol (ev : Evaluator) (hcurrent : (m.thread th).scopes.back? = some h) :
    (dispatch ev th (.symbol sym) .place).Ends m (fun r m' => m' = m ∧ m.lookup? h sym = some r) fun _ _ => True := by
  unfold dispatch
  refine (ends_asSymbol _).bind ?_
  rintro found _ ⟨rfl, hfound⟩
  cases found with
  | none => trivial
  | some k =>
    cases (hfound k rfl).1
    refine .read ?_
    split
    · exact Ends.trivial.bind fun _ _ _ => trivial
    · exact (ends_lookup hcurrent).bind fun _ _ h => h

/-- and finding it is not seen -/
theorem ends_evaluate_symbol (ev : Evaluator) (hcurrent : (m.thread th).scopes.back? = some h) :
    (evaluate ev th (.symbol sym) .place).Ends m (fun r m' => m.Unmoved m' ∧ m.lookup? h sym = some r) fun _ _ => True := by
  unfold evaluate openGuard
  refine .next rfl (.next rfl ?_)
  refine (ends_setDepth _).bind fun _ m₁ hdeep => ?_
  have hcurrent₁ : (m₁.thread th).scopes.back? = some h := by rw [hdeep.within, hcurrent]
  have hfind : (if (m.thread th).stack.capacity * depthPerSlot < (m.thread th).depth + 1 then do
      note .overflowed
      raiseError th .stackOverflow (int32 ((m.thread th).depth + 1)) (int32 ((m.thread th).stack.capacity * depthPerSlot))
      else dispatch ev th (.symbol sym) .place : Act Value).Ends m₁ (fun r m' => m' = m₁ ∧ m₁.lookup? h sym = some r) fun _ _ => True := by
    split
    · exact Ends.trivial.bind fun _ _ _ => Ends.trivial.bind fun _ _ _ => trivial
    · exact ends_dispatch_symbol ev hcurrent₁
  refine hfind.observing ?_ fun e m' _ => ?_
  · rintro r _ ⟨rfl, hr⟩
    rw [hdeep.lookup?_eq] at hr
    refine (ends_setDepth _).bind fun _ m₂ hback => ?_
    have hdone : (conclude th (m.thread th).pins.size (.ok r)).Ends m₂ (fun r m' => m.Unmoved m' ∧ m.lookup? h sym = some r)
        fun _ _ => True := by
      refine (ends_conclude_ok _ r).mono ?_ fun _ _ h => h
      rintro _ m₃ ⟨rfl, hend⟩
      exact ⟨(hdeep.trans hback).trans hend, hr⟩
    split <;> exact hdone
  · refine Ends.trivial.bind fun _ m₂ _ => ?_
    split
    · refine (ends_contain_error _ e).bind ?_
      rintro _ m₃ ⟨e', rfl⟩
      exact ends_conclude_error _ _
    · exact ends_conclude_error _ _

theorem ends_eval_symbol {fuel : Nat} (hcurrent : (m.thread th).scopes.back? = some h) :
    (eval th fuel (.symbol sym) .place).Ends m (fun r m' => m.Unmoved m' ∧ m.lookup? h sym = some r) fun _ _ => True := by
  cases fuel with
  | zero => trivial
  | succ fuel => exact ends_evaluate_symbol _ hcurrent

/-! ## Assignment -/

theorem ends_storeThrough (hm : m.StacksApart) (r v : Value) :
    (storeThrough r v).Ends m (fun _ m' => ∃ p, r = .ref p ∧ m.Stored p v m') fun _ _ => True := by
  unfold storeThrough
  split
  · rename_i p
    exact (ends_store (R := fun _ _ => True) (fun _ => hm) v).mono (fun _ _ h => ⟨p, rfl, h⟩) fun _ _ h => h
  · trivial

/-- **An assignment reaches every sharer.** If an assignment to a variable succeeds, its place and its form have been evaluated, and
what it gives is the value of the form. As long as the symbol has not been released on the way, the variable is then looked up from
the current scope, and the value is in the place that is found: every look-up, of whatever symbol from whatever scope, finds what
it found when the form had been evaluated; it reads the value if it finds this place, and what it read then if it does not. -/
theorem setf_reaches_sharers {fuel : Nat} (hm : m.Sane th b b) (hapart : m.StacksApart)
    (hcurrent : (m.thread th).scopes.back? = some h) (hname : arg args 0 = .symbol sym) :
    (setf (evaluator fuel th) th args).Ends m (fun v m' => ∃ r m₁ m₂, (eval th fuel (.symbol sym) .place).run m = .ok r m₁ ∧
      (eval th fuel (arg args 1) .value).run m₁ = .ok v m₂ ∧
      ((∃ name, m₂.cell? sym = some (.symbol name)) → m₂.Assigns h sym v m')) fun _ _ => True := by
  have hev := orderly_eval th b fuel fuel
  unfold setf evaluator
  simp only [hname]
  refine (Ends.run.mono (fun _ _ h => h) fun _ _ _ => trivial).bind fun r m₁ hplace => ?_
  have hmoved₁ := ((hev.place (.symbol sym) (Value.IsPlain.staysAbove ⟨rfl, rfl⟩) m hm).ok hplace).1
  refine (Ends.run.mono (fun _ _ h => h) fun _ _ _ => trivial).bind fun v m₂ hvalue => ?_
  have hmoved₂ := ((hev.value (arg args 1) m₁ (hmoved₁.sane hm)).ok hvalue).1
  have hapart₂ : m₂.StacksApart := (hapart.moved hmoved₁.toMoved).moved hmoved₂.toMoved
  have hcurrent₂ : (m₂.thread th).scopes.back? = some h := by rw [hmoved₂.scopes, hmoved₁.scopes, hcurrent]
  by_cases hsym : ∃ name, m₂.cell? sym = some (.symbol name)
  · obtain ⟨name, hcell⟩ := hsym
    refine .next (run_asSymbol_of_cell hcell) ((ends_eval_symbol hcurrent₂).bind ?_)
    rintro place m₃ ⟨hfinding, hfound⟩
    refine (ends_withErrorObjects_ok (ends_storeThrough (hapart₂.unmoved hfinding) place v)).bind ?_
    rintro _ m' ⟨p, rfl, hstored⟩
    exact ⟨r, m₁, m₂, hplace, hvalue, fun _ => hfinding.assigns (hstored.assigns ((hfinding.lookup?_eq ..).trans hfound))⟩
  · refine Ends.trivial.bind fun found _ _ => ?_
    cases found <;> exact Ends.trivial.bind fun _ _ _ => Ends.trivial.bind fun _ _ _ =>
      ⟨r, m₁, m₂, hplace, hvalue, fun h => absurd h hsym⟩

end Act

end LispMachine
