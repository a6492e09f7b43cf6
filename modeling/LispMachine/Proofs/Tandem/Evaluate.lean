/-
Evaluation on two machines in tandem.

An evaluation keeps what was held before it, and its result, and drops all else that it has pinned. Between two evaluations a pass
may be taken on one side only. By induction on the fuel, evaluating forms that stand for each other gives results or errors that do.
-/
import LispMachine.Proofs.Tandem.Forms

namespace LispMachine

/-- the thread with its pins dropped but for the first `n`, and others in their place -/
def Thread.unpinning (n : Nat) (keep : List Value) (t : Thread) : Thread :=
  { t with pins := t.pins.shrink n ++ (keep.filter Value.needsPin).toArray }

/-- the thread at another depth -/
def Thread.nested (d : Nat) (t : Thread) : Thread := { t with depth := d }

namespace Tandem

open Machine (Corr)
open Simulation (InStep Sim LooseSim QuietSim Later Val Code Result EvalSim Observed Fn)

variable {th : ThreadId} {same : Bool} {σ τ υ : Tandem th same} {ev ev' : Evaluator} {mode : Mode} {v v' : Value}

/-! ## Results -/

/-- what an evaluation gives: values, or in place mode places -/
def Out (mode : Mode) (σ : Tandem th same) (v v' : Value) : Prop :=
  match mode with
  | .value => Val σ v v'
  | .place => v.Leads σ.Kept v'

theorem Out.later (hle : Later σ τ) (h : Out mode σ v v') : Out mode τ v v' := by
  cases mode with
  | value => exact Val.later hle h
  | place => exact hle.placed h

/-- what corresponds and is pinned on both sides is a result -/
theorem Out.of_pins (h : Out mode τ v v') (hcorr : ∀ k t t', Corr τ.left τ.right k t t' → Corr υ.left υ.right k t t')
    (hv : v.needsPin = true → v ∈ (υ.left.thread th).pins) (hv' : v'.needsPin = true → v' ∈ (υ.right.thread th).pins) :
    Out mode υ v v' := by
  have hkept : ∀ k t t', v.Names t k → v'.Names t' k → τ.Kept k t t' → υ.Kept k t t' := fun k t t' hn hn' hk =>
    kept_of_pin (hcorr k t t' hk.corr) (hv (by cases hn <;> rfl)) hn (hv' (by cases hn' <;> rfl)) hn'
  cases mode with
  | value => exact Value.Like.mono_names hkept h
  | place => exact Value.Leads.mono_names hkept h

theorem run_derefAll {m : Machine} {p : Place} (hin : m.dangles p = false) (hplain : (m.load p).isReference = false) :
    (Act.derefAll (.ref p)).run m = .ok (m.load p) m := by
  obtain ⟨n, hn⟩ : ∃ n, m.extent = n + 2 := ⟨_, rfl⟩
  unfold Act.derefAll
  simp only [Act.run_bind, Act.run_get, hn, Act.derefAllWithin, run_look hin]
  generalize m.load p = v at hplain
  cases v with
  | ref q => cases hplain
  | _ => rfl

/-- a value, or what a place holds, pinned -/
theorem plainValue_sim (h : Result σ v v') : Sim σ (Act.plainValue th v) (Act.plainValue th v') Val := by
  unfold Act.plainValue
  rcases h with hv | hr
  · rw [hv.not_reference, hv.not_reference']
    exact .pure hv
  · obtain ⟨href, href'⟩ := Value.Leads.isReference hr
    rw [href, href']
    obtain ⟨p, rfl⟩ : ∃ p, v = .ref p := by cases v <;> cases href; exact ⟨_, rfl⟩
    obtain ⟨p', rfl⟩ : ∃ p, v' = .ref p := by cases v' <;> cases href'; exact ⟨_, rfl⟩
    obtain ⟨hlike, hin, hin'⟩ := load_like hr
    refine Sim.bind (Q := fun τ x x' => τ = σ ∧ x.Like (Corr σ.left σ.right) x')
      (.read (run_derefAll hin hlike.not_reference) (run_derefAll hin' hlike.not_reference') ⟨rfl, hlike⟩) ?_
    rintro τ x x' _ ⟨rfl, hx⟩
    refine (pin_sim (.inl hx)).sim.bind fun υ _ _ _ hkept => .pure ?_
    rcases hkept with hk | hk
    · exact hk
    · exact absurd hk.isReference.1 (by simp [hx.not_reference])

/-! ## Calls -/

theorem slotRefs_leads (σ : Tandem th same) (id base n : Nat) :
    List.Forall₂ (Value.Leads σ.Kept) (Act.slotRefs id base n) (Act.slotRefs id base n) := by
  unfold Act.slotRefs
  rw [List.forall₂_map_left_iff, List.forall₂_map_right_iff, List.forall₂_same]
  exact fun i _ => .stack id (base + i)

/-- a function runs on what has been laid on the stack for it -/
theorem runBody_sim (hev : EvalSim (Tandem th same) ev ev') {f f' : Function} (hf : Fn τ f f')
    (hlaid : Laid f.isSpecial σ τ) {base : Nat} (hbase : base = (σ.left.thread th).stack.items.size) :
    Sim τ (Act.runBody ev th f base) (Act.runBody ev' th f' base) Result := by
  have hbody := hf.like.body
  have hsize := hf.like.params.size_eq
  have hsymbols := hf.like.params.symbols
  unfold Act.runBody
  rw [← hsize]
  generalize hb : f.body = b, hb' : f'.body = b' at hbody
  cases hbody with
  | primitive p special =>
    have hspecial : f.isSpecial = special := by simp [Function.isSpecial, hb]
    obtain ⟨rfl, hhost⟩ := hf.suits p special hb
    rw [hspecial] at hlaid
    refine (frameValues_sim hlaid hbase _).bind ?_
    rintro υ vs vs' _ ⟨rfl, hvs⟩
    have hsuited : Simulation.Suited p υ vs vs' := by
      unfold Simulation.Suited
      split
      · rename_i hform
        exact hvs.imp fun _ _ h => ⟨h.val, h.isText hform⟩
      · exact hvs.imp fun _ _ h => h.val
    refine (Simulation.withErrorObjects_sim th (runPrimitive_sim hev hhost hsuited)).bind fun φ r r' _ hr => ?_
    exact Simulation.unlessSignaling_sim hr
  | forms hlist houter =>
    refine (stackId_sim τ).bind ?_
    rintro υ id _ _ ⟨rfl, rfl⟩
    refine (newTransient_sim houter hsymbols (slotRefs_leads υ id base _)).bind fun φ env env' hφ henv => ?_
    have hcode : Code φ _ _ := Code.later hφ ⟨hlist, hf.text _ _ hb⟩
    have hbody (ψ : Tandem th same) {form form' : Value} (hform : Code ψ form form') :
        Sim ψ (Act.evalBody ev th form) (Act.evalBody ev' th form') Val := Simulation.evalBody_sim hev hform
    have hrun : Sim φ _ _ Val := inScope_sim henv (fun ψ hψ => hbody ψ (hcode.later hψ))
      fun _ _ _ _ hle hv => Val.later hle hv
    exact hrun.mono fun _ _ _ _ => .inl

theorem call_sim (hev : EvalSim (Tandem th same) ev ev') {f f' : Function} (hf : Fn σ f f') {args args' : List Value}
    (hargs : List.Forall₂ (Item f.isSpecial σ) args args') :
    Sim σ (Act.call ev th f args) (Act.call ev' th f' args') Result := by
  unfold Act.call
  refine (stackSize_sim σ).bind ?_
  rintro τ base _ _ ⟨rfl, rfl, hbase⟩
  rw [← hf.like.isSpecial_eq]
  refine (Sim.attempt (pushArgs_sim hf.like.params hargs)).bind fun υ r r' hυ hr => ?_
  cases hr with
  | error hc =>
    refine (dropAbove_sim υ base).bind fun φ _ _ hφ _ => ?_
    cases hc with
    | raised hc => exact (Simulation.asError_sim (hc.later hφ)).bind fun _ _ _ _ he => .raise (.object he)
  | ok hlaid =>
    rw [← hf.like.params.size_eq]
    exact Sim.andThen (runBody_sim hev (hf.later hυ) hlaid hbase) (fun φ _ => dropSlots_sim φ _)
      fun _ _ _ _ hle hr => Result.later hle hr

/-! ## Forms -/

theorem selfEvaluating_sim (hv : Val σ v v') :
    Sim σ (Act.selfEvaluating th v mode) (Act.selfEvaluating th v' mode) (Out mode) := by
  cases mode with
  | value => exact .pure hv
  | place => exact Simulation.raiseError_sim .notAReference hv.live .nil

/-- functions that are kept are what they were made as -/
theorem function_kept {h h' : Handle} (hk : σ.Kept .function h h') : ∃ f f', σ.left.cell? h = some (.function f) ∧
    σ.right.cell? h' = some (.function f') ∧ Fn σ f f' := by
  obtain ⟨s, s', hs, hs', hsame, -, hkind⟩ := slots hk.corr
  have hc : σ.left.cell? h = some s.cell := Heap.cell?_of_slot? hs
  have hc' : σ.right.cell? h' = some s'.cell := Heap.cell?_of_slot? hs'
  have hlike := hsame.like
  generalize s.cell = c, s'.cell = c' at hlike hkind hc hc'
  cases hlike <;> cases hkind
  obtain ⟨hf, htext, hsuits⟩ := Simulation.kept_function (σ := σ) hk hc hc'
  exact ⟨_, _, hc, hc', hf, htext, hsuits⟩

theorem function_balanced (hb : Balanced σ τ) {h h' : Handle} (hk : σ.Kept .function h h') {f f' : Function}
    (hc : σ.left.cell? h = some (.function f)) (hc' : σ.right.cell? h' = some (.function f')) :
    τ.left.cell? h = some (.function f) ∧ τ.right.cell? h' = some (.function f') := by
  have hfixed {m m' : Machine} (hkeeps : m.Keeps m') {h : Handle} {f : Function} (hfirm : m.Firm h)
      (hc : m.cell? h = some (.function f)) : m'.cell? h = some (.function f) := by
    obtain ⟨s, hs, hcell⟩ := Heap.cell?_eq_some.1 hc
    obtain ⟨s', hs', hstable⟩ := hkeeps.stable h s hfirm hs
    have hsame := hstable.fixed (.inr (.inr (.inl (by rw [hcell]; rfl)))) (by rw [hcell]; simp [Cell.kind])
    exact (Heap.cell?_of_slot? hs').trans (congrArg some (hsame.trans hcell))
  exact ⟨hfixed hb.keeps hk.firm hc, hfixed hb.keeps' hk.firm' hc'⟩

theorem run_asFunction {m : Machine} {h : Handle} {f : Function} (hc : m.cell? h = some (.function f)) :
    (Act.asFunction (.function h)).run m = .ok (some f) m := by
  obtain ⟨⟨_, _, _, _⟩, hs, rfl⟩ := Heap.cell?_eq_some.1 hc
  exact Act.bind_ok (Simulation.run_resolve (v := .function h) rfl hs)

/-- a call and what is made of its result -/
theorem applied_sim (hev : EvalSim (Tandem th same) ev ev') {f f' : Function} (hf : Fn σ f f') {args args' : List Value}
    (hargs : List.Forall₂ (Item f.isSpecial σ) args args') :
    Sim σ (do
        let r ← Act.attempt (Act.call ev th f args)
        let _ ← Act.maybeCollect
        match r with
        | .error c => Act.raise c
        | .ok result =>
          match mode with
          | .place => if result.isReference then return result else Act.raiseError th .notAReference result .nil
          | .value => Act.plainValue th result)
      (do
        let r ← Act.attempt (Act.call ev' th f' args')
        let _ ← Act.maybeCollect
        match r with
        | .error c => Act.raise c
        | .ok result =>
          match mode with
          | .place => if result.isReference then return result else Act.raiseError th .notAReference result .nil
          | .value => Act.plainValue th result) (Out mode) := by
  refine (Sim.attempt (call_sim hev hf hargs)).bind fun τ r r' _ hr => ?_
  refine (maybeCollect_sim τ).bind fun υ _ _ hυ _ => ?_
  cases hr with
  | error hc =>
    cases hc with
    | raised hc => exact .raise (hc.later hυ)
  | ok hr =>
    have hr := Result.later hυ hr
    cases mode with
    | value => exact plainValue_sim hr
    | place =>
      rcases hr with hv | hr
      · simp only [hv.not_reference, hv.not_reference']
        exact Simulation.raiseError_sim .notAReference hv.live .nil
      · obtain ⟨href, href'⟩ := Value.Leads.isReference hr
        simp only [href, href']
        exact .pure hr

/-- a head that is no function -/
theorem noFunction_sim {v v' : Value} (hv : Val σ v v') {x y : Function → Act Value}
    (hx : (Act.asFunction v).run σ.left = .ok none σ.left) (hy : (Act.asFunction v').run σ.right = .ok none σ.right) :
    Sim σ (do match ← Act.asFunction v with | none => Act.raiseType th "function" v | some f => x f)
      (do match ← Act.asFunction v' with | none => Act.raiseType th "function" v' | some f => y f) (Out mode) :=
  InStep.after (τ := σ) hx hy (Simulation.raiseType_sim "function" hv.live)

theorem apply_sim (hev : EvalSim (Tandem th same) ev ev') {c c' : Held} (hc : Simulation.TextPair σ c c') :
    Sim σ (Act.apply ev th c mode) (Act.apply ev' th c' mode) (Out mode) := by
  unfold Act.apply
  refine (Simulation.carOf_sim hc).bind ?_
  rintro τ a a' _ ⟨rfl, ha⟩
  refine (hev.value ha).bind fun τ₁ head head' hτ₁ hhead => ?_
  cases hhead with
  | @function h h' hk =>
    obtain ⟨f, f', hf, hf', hfn⟩ := function_kept hk
    refine InStep.after (τ := τ₁) (run_asFunction hf) (run_asFunction hf') ?_
    have hforms : Sim τ₁ (Act.withErrorObjects th (do Act.listItems (← Act.cdrOf c)))
        (Act.withErrorObjects th (do Act.listItems (← Act.cdrOf c'))) fun υ vs vs' => υ = τ₁ ∧ List.Forall₂ (Code τ₁) vs vs' := by
      refine Simulation.withErrorObjects_loose th (LooseSim.bind (.of_sim (Simulation.cdrOf_sim (hc.later hτ₁))) ?_)
      rintro υ d d' _ ⟨rfl, hd⟩
      exact Simulation.listItems_code hd
    refine Sim.bind hforms ?_
    rintro τ₁ forms forms' _ ⟨rfl, hforms⟩
    simp only [← hfn.like.isSpecial_eq]
    split
    · refine InStep.after (τ := τ₁) (run_asFunction hf) (run_asFunction hf') ?_
      exact applied_sim hev hfn (hforms.imp fun _ _ h => ⟨h.1, fun _ => h.2⟩)
    · rename_i hspecial
      refine (Simulation.keepAll_sim hforms).bind ?_
      rintro τ₁ ks ks' _ ⟨rfl, hks⟩
      refine InStep.bind (Simulation.evalArgs_sim hev hks .nil) (fun _ => id) fun τ₂ args args' hτ₂ hargs => ?_
      -- looked at again after the arguments, the function is the same
      obtain ⟨hf₂, hf₂'⟩ := function_balanced hτ₂ hk hf hf'
      refine InStep.after (τ := τ₂) (run_asFunction hf₂) (run_asFunction hf₂') ?_
      refine InStep.mono (applied_sim hev (hfn.later (.of_balanced hτ₂)) ?_) (fun _ => Simulation.balanced_trans hτ₂)
        (fun _ _ _ _ => id) fun _ _ _ _ => id
      exact hargs.imp fun _ _ hv => ⟨hv, fun ht => absurd ht hspecial⟩
  | cons hk => exact noFunction_sim (.cons hk) rfl rfl
  | symbol hk => exact noFunction_sim (.symbol hk) rfl rfl
  | scope hk => exact noFunction_sim (.scope hk) rfl rfl
  | error mood hk => exact noFunction_sim (.error mood hk) rfl rfl
  | float x => exact noFunction_sim (.float x) rfl rfl
  | nil => exact noFunction_sim .nil rfl rfl
  | t => exact noFunction_sim .t rfl rfl
  | unset => exact noFunction_sim .unset rfl rfl
  | int n => exact noFunction_sim (.int n) rfl rfl
  | uint n => exact noFunction_sim (.uint n) rfl rfl
  | reserved sub val => exact noFunction_sim (.reserved sub val) rfl rfl

theorem dispatch_sim (hev : EvalSim (Tandem th same) ev ev') (hv : Code σ v v') :
    Sim σ (Act.dispatch ev th v mode) (Act.dispatch ev' th v' mode) (Out mode) := by
  obtain ⟨hval, htext⟩ := hv
  unfold Act.dispatch
  cases hval with
  | @symbol h h' hk =>
    refine (Simulation.asSymbol_sim (.symbol hk)).bind ?_
    rintro τ _ _ _ ⟨rfl, hsym | _⟩
    rotate_left
    · exact .fault (by simp) (by simp)
    refine Sim.get ?_
    rw [Simulation.symbolName_eq hsym.1.corr]
    split
    · exact selfEvaluating_sim (.symbol hk)
    · refine (lookup_sim hsym.1).bind fun υ r r' _ hr => ?_
      cases mode with
      | place => exact .pure hr
      | value => exact plainValue_sim (.inr hr)
  | @cons h h' hk =>
    refine (Simulation.asCons_code ⟨.cons hk, htext⟩).bind ?_
    rintro τ _ _ _ ⟨rfl, hc | _⟩
    · exact apply_sim hev hc
    · exact .fault (by simp) (by simp)
  | float x => exact selfEvaluating_sim (.float x)
  | nil => exact selfEvaluating_sim .nil
  | t => exact selfEvaluating_sim .t
  | unset => exact selfEvaluating_sim .unset
  | int n => exact selfEvaluating_sim (.int n)
  | _ => cases htext

/-! ## Guards -/

/-- the error for a full heap is kept -/
theorem exhausted_err (σ : Tandem th same) : Simulation.Err σ Machine.exhaustedError Machine.exhaustedError := by
  obtain ⟨epoch, hs⟩ := σ.sound.exhausted
  obtain ⟨epoch', hs'⟩ := σ.sound'.exhausted
  exact ⟨⟨⟨_, _, hs, hs', rfl, rfl, rfl⟩, .exhausted, .exhausted⟩, rfl, ⟨false, congrArg (Option.map Slot.label) hs⟩,
    ⟨false, congrArg (Option.map Slot.label) hs'⟩⟩

/-- outcomes that stand for each other, in one mode -/
abbrev Settled (mode : Mode) (σ : Tandem th same) (r r' : Except Failure Value) : Prop :=
  Observed Simulation.Failure.Like (Out mode) σ r r'

theorem contain_sim (base : Nat) {r r' : Except Failure Value} (hr : Settled mode σ r r') :
    Sim σ (Act.contain th base r) (Act.contain th base r') (Settled mode) := by
  unfold Act.contain
  cases hr with
  | ok hv => exact .pure (.ok hv)
  | error he =>
    cases he with
    | raised hc => exact .pure (.error (.raised hc))
    | outOfFuel => exact .pure (.error .outOfFuel)
    | @fault f hf =>
      cases f with
      | exhausted =>
        refine (Sim.observe (dropAbove_sim σ base)).bind fun τ r r' _ hr => ?_
        cases hr with
        | ok _ => exact .pure (.error (.raised (.object τ.exhausted_err)))
        | error he => exact .pure (.error he)
      | _ => exact .pure (.error (.fault hf))

/-- pins dropped on both sides, and others in their place -/
def unpinning (τ : Tandem th same) (n : Nat) {keep keep' : List Value}
    (hkeep : List.Forall₂ (Value.Same (Corr τ.left τ.right)) keep keep') : Tandem th same :=
  τ.onThread th τ.isOpen (Thread.unpinning n keep) (Thread.unpinning n keep')
    { τ.alike with
      pins := by
        simp only [Thread.unpinning, Array.toList_append]
        refine List.rel_append (forall₂_shrink τ.alike.pins n) ?_
        induction hkeep with
        | nil => exact .nil
        | cons hv _ ih =>
          simp only [List.filter_cons, hv.needsPin_eq]
          split
          · exact .cons hv ih
          · exact ih }
    { τ.fits with } { τ.fits' with } fun hsame => by rw [values_eq hsame hkeep]

theorem keeps_unpinning {m m' : Machine} (ho : (m'.thread th).isOpen = true) (hkeeps : m.Keeps m') (keep : List Value) :
    m.Keeps (m'.onThread th (Thread.unpinning (m.thread th).pins.size keep)) where
  threads t := by
    rw [Machine.thread_onThread ho]
    split
    · rename_i heq
      subst heq
      obtain ⟨hopen, hpins, hscopes⟩ := hkeeps.threads t
      refine ⟨hopen, ?_, hscopes⟩
      simp only [Thread.unpinning, Array.toList_append, Array.toList_shrink]
      rw [← Array.length_toList, ← List.prefix_iff_eq_take.1 hpins]
      exact List.prefix_append ..
    · exact hkeeps.threads t
  uses := hkeeps.uses
  global := hkeeps.global
  symbols := hkeeps.symbols
  stable := hkeeps.stable

theorem mem_unpinning {m : Machine} (ho : (m.thread th).isOpen = true) {n : Nat} {keep : List Value} (hv : v ∈ keep)
    (hpin : v.needsPin = true) : v ∈ ((m.onThread th (Thread.unpinning n keep)).thread th).pins := by
  rw [Machine.thread_onThread ho, if_pos rfl]
  simp [Thread.unpinning, hv, hpin]

theorem pins_size (σ : Tandem th same) : (σ.left.thread th).pins.size = (σ.right.thread th).pins.size := by
  have hlen := σ.alike.pins.length_eq
  rwa [Array.length_toList, Array.length_toList] at hlen

theorem balanced_unpinning (hτ : Balanced σ τ) {keep keep' : List Value}
    (hkeep : List.Forall₂ (Value.Same (Corr τ.left τ.right)) keep keep') :
    Balanced σ (τ.unpinning (σ.left.thread th).pins.size hkeep) :=
  ⟨keeps_unpinning τ.isOpen hτ.keeps keep, by
    unfold unpinning onThread
    rw [σ.pins_size]
    exact keeps_unpinning τ.isOpen' hτ.keeps' keep'⟩

/-- what a guarded operation had pinned is dropped, but for its result; all that was held before it still is -/
theorem conclude_sim (hτ : Balanced σ τ) {r r' : Except Failure Value} (hr : Settled mode τ r r') :
    InStep (fun _ υ => Balanced σ υ) Simulation.Failure.Like τ (Act.conclude th (σ.left.thread th).pins.size r)
      (Act.conclude th (σ.left.thread th).pins.size r') (Out mode) := by
  have hplain {e e' : Failure} (he : ∀ υ, υ = τ.unpinning (σ.left.thread th).pins.size .nil → Simulation.Failure.Like υ e e')
      (hx : Act.conclude th (σ.left.thread th).pins.size (.error e) =
        (do Act.unpinTo th (σ.left.thread th).pins.size []; Act.settle (.error e)))
      (hy : Act.conclude th (σ.left.thread th).pins.size (.error e') =
        (do Act.unpinTo th (σ.left.thread th).pins.size []; Act.settle (.error e'))) :
      InStep (fun _ υ => Balanced σ υ) Simulation.Failure.Like τ (Act.conclude th (σ.left.thread th).pins.size (.error e))
        (Act.conclude th (σ.left.thread th).pins.size (.error e')) (Out mode) := by
    rw [hx, hy]
    refine InStep.after (τ := τ.unpinning (σ.left.thread th).pins.size .nil) rfl rfl ?_
    exact InStep.throw (balanced_unpinning hτ .nil) (he _ rfl)
  cases hr with
  | @ok v v' hv =>
    have hsame : v.Same (Corr τ.left τ.right) v' := by
      cases mode with
      | value => exact .inl (Val.live hv)
      | place => exact .inr (hv.mono fun _ _ _ => Kept.corr)
    refine InStep.after (τ := τ.unpinning (σ.left.thread th).pins.size (.cons hsame .nil)) rfl rfl ?_
    refine InStep.pure (balanced_unpinning hτ _) (hv.of_pins (fun _ _ _ => id) (fun hpin => ?_) fun hpin => ?_)
    · exact mem_unpinning τ.isOpen List.mem_cons_self hpin
    · exact mem_unpinning τ.isOpen' List.mem_cons_self hpin
  | error he =>
    cases he with
    | outOfFuel => exact hplain (fun _ _ => .outOfFuel) rfl rfl
    | fault hf => exact hplain (fun _ _ => .fault hf) rfl rfl
    | raised hc =>
      cases hc with
      | bare hbare =>
        rename_i c
        have hconclude : Act.conclude th (σ.left.thread th).pins.size (.error (.raised c)) =
            (do Act.unpinTo th (σ.left.thread th).pins.size []; Act.settle (.error (.raised c))) := by
          cases c with
          | object e => exact absurd rfl (hbare.object e)
          | lostError => exact absurd rfl hbare.lost
          | _ => rfl
        exact hplain (fun _ _ => .raised (.bare hbare)) hconclude hconclude
      | @object e e' he =>
        have hsame : (e.value .quiet).Same (Corr τ.left τ.right) (e'.value .quiet) := .inl (.error .quiet he.kept.corr)
        refine InStep.after (τ := τ.unpinning (σ.left.thread th).pins.size (.cons hsame .nil)) rfl rfl ?_
        refine InStep.throw (balanced_unpinning hτ _) (.raised (.object ⟨?_, he.kind, he.object, he.object'⟩))
        refine kept_of_pin he.kept.corr (mem_unpinning τ.isOpen List.mem_cons_self rfl) (.error _ _)
          (mem_unpinning τ.isOpen' List.mem_cons_self rfl) (.error _ _)

theorem openGuard_sim (σ : Tandem th same) : Sim σ (Act.openGuard th) (Act.openGuard th) fun τ g g' =>
    τ = σ ∧ g = g' ∧ g.pins = (σ.left.thread th).pins.size := by
  refine .read (a := ⟨(σ.left.thread th).pins.size, (σ.left.thread th).stack.size⟩)
    (b := ⟨(σ.right.thread th).pins.size, (σ.right.thread th).stack.size⟩) rfl rfl ⟨rfl, ?_, rfl⟩
  rw [σ.pins_size, σ.stackSize_eq]

theorem guarded_sim {x y : Act Value} (h : Sim σ x y Val) : Sim σ (Act.guarded th x) (Act.guarded th y) Val := by
  unfold Act.guarded Act.closeGuard
  refine (openGuard_sim σ).bind ?_
  rintro σ g _ _ ⟨rfl, rfl, hg⟩
  rw [hg]
  refine InStep.observing h fun τ r r' hτ hr => ?_
  have hr : Settled .value τ r r' := hr
  refine InStep.bind (contain_sim g.base hr) (fun _ => Simulation.balanced_trans hτ) fun υ s s' hυ hs => ?_
  exact conclude_sim (Simulation.balanced_trans hτ hυ) hs

/-! ## Nesting -/

theorem setDepth_sim (σ : Tandem th same) (d : Nat) : Sim σ (Act.setDepth th d) (Act.setDepth th d) fun _ _ _ => True :=
  done (a := ⟨⟩) (b := ⟨⟩) (σ.onThread th σ.isOpen (Thread.nested d) (Thread.nested d) { σ.alike with depth := rfl } { σ.fits with }
    { σ.fits' with } fun _ => rfl)
    ⟨Machine.keeps_onThread σ.isOpen σ.isOpen List.prefix_rfl rfl,
      Machine.keeps_onThread σ.isOpen' σ.isOpen' List.prefix_rfl rfl⟩ rfl rfl trivial

theorem nesting_sim (σ : Tandem th same) : Sim σ (Act.nesting th) (Act.nesting th) fun τ d d' => τ = σ ∧ d = d' := by
  refine .read (a := ((σ.left.thread th).depth, (σ.left.thread th).stack.capacity * Act.depthPerSlot))
    (b := ((σ.right.thread th).depth, (σ.right.thread th).stack.capacity * Act.depthPerSlot)) rfl rfl ⟨rfl, ?_⟩
  rw [σ.alike.depth, σ.alike.capacity]

/-- one evaluation, given what the evaluations inside it do -/
theorem evaluate_sim (hev : EvalSim (Tandem th same) ev ev') (hv : Code σ v v') :
    Sim σ (Act.evaluate ev th v mode) (Act.evaluate ev' th v' mode) (Out mode) := by
  unfold Act.evaluate
  refine (openGuard_sim σ).bind ?_
  rintro σ g _ _ ⟨rfl, rfl, hg⟩
  rw [hg]
  refine (nesting_sim σ).bind ?_
  rintro σ ⟨depth, limit⟩ _ _ ⟨rfl, rfl⟩
  refine InStep.bind (setDepth_sim σ (depth + 1)) (fun _ => id) fun τ _ _ hτ _ => ?_
  have hinside : Sim τ
      (do
        if limit < depth + 1 then
          Act.note .overflowed
          Act.raiseError th .stackOverflow (Act.int32 (depth + 1 : Nat)) (Act.int32 limit)
        else Act.dispatch ev th v mode)
      (do
        if limit < depth + 1 then
          Act.note .overflowed
          Act.raiseError th .stackOverflow (Act.int32 (depth + 1 : Nat)) (Act.int32 limit)
        else Act.dispatch ev' th v' mode) (Out mode) := by
    split
    · refine (note_sim τ (e := .overflowed) (by simp)).sim.bind fun υ _ _ _ _ => ?_
      exact Simulation.raiseError_sim .stackOverflow (.int _) (.int _)
    · exact dispatch_sim hev (hv.later (.of_balanced hτ))
  refine InStep.observing hinside fun υ r r' hυ hr => ?_
  have hυ := Simulation.balanced_trans hτ hυ
  refine InStep.bind (setDepth_sim υ depth) (fun _ => Simulation.balanced_trans hυ) fun φ _ _ hφ _ => ?_
  have hr : Settled mode φ r r' := by
    cases hr with
    | ok hv => exact .ok (hv.later (.of_balanced hφ))
    | error he => exact .error (he.later (.of_balanced hφ))
  have hφ := Simulation.balanced_trans hυ hφ
  split
  · refine InStep.bind (contain_sim g.base hr) (fun _ => Simulation.balanced_trans hφ) fun ψ s s' hψ hs => ?_
    exact conclude_sim (Simulation.balanced_trans hφ hψ) hs
  · exact conclude_sim hφ hr

/-- evaluation on both sides, by induction on the fuel -/
theorem eval_sim (th : ThreadId) (fuel : Nat) : EvalSim (Tandem th same) ⟨eval th fuel, fuel⟩ ⟨eval th fuel, fuel⟩ := by
  induction fuel with
  | zero => exact ⟨rfl, fun _ => .throw .outOfFuel, fun _ => .throw .outOfFuel⟩
  | succ n ih =>
    refine ⟨rfl, fun hv => ?_, fun hv => ?_⟩
    · exact evaluate_sim ih hv
    · have hplace : Sim _ _ _ (Out .place) := evaluate_sim ih hv
      exact Sim.mono hplace fun _ _ _ _ => .inl

end Tandem

end LispMachine
