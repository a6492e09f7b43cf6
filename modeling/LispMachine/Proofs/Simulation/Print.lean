/-
Printing in step: values that stand for each other print as the same text.

Printing only interns names, so nothing that stands for each other is lost on the way, not even when the printing fails. The
proof is by induction on the fuel, which is the same on both sides, with one case for each kind of job.
-/
import LispMachine.Proofs.Nesting
import LispMachine.Proofs.Simulation.Operations

namespace LispMachine.Simulation

open Render (Job)

variable {S : Type} [Simulation S]

/-! ## Jobs -/

inductive Part.Like (σ : S) : Part → Part → Prop where
  | text (s : String) : Like σ (.text s) (.text s)
  | kindName (k : ErrorKind) : Like σ (.kindName k) (.kindName k)
  | payload {v v' : Value} : Live σ v v' → Like σ (.payload v) (.payload v')

inductive Job.Like (σ : S) : Job → Job → Prop where
  | value {around around' : List Value} {v v' : Value} : Args (Live σ) around around' → Live σ v v' →
      Like σ (.value around v) (.value around' v')
  | element {around around' : List Value} {opened opened' : List Handle} {v v' : Value} :
      Args (Live σ) around around' → List.Forall₂ (Obj σ .cons) opened opened' → Live σ v v' →
      Like σ (.element around opened v) (.element around' opened' v')
  | list {around around' : List Value} {opened opened' : List Handle} {h h' : Handle} :
      Args (Live σ) around around' → List.Forall₂ (Obj σ .cons) opened opened' → Obj σ .cons h h' →
      Like σ (.list around opened h) (.list around' opened' h')
  | chain {around around' : List Value} {opened opened' : List Handle} {h h' : Handle} :
      Args (Live σ) around around' → List.Forall₂ (Obj σ .cons) opened opened' → Obj σ .cons h h' →
      Like σ (.chain around opened h) (.chain around' opened' h')
  | parts {around around' : List Value} {ps ps' : List Part} :
      Args (Live σ) around around' → List.Forall₂ (Part.Like σ) ps ps' →
      Like σ (.parts around ps) (.parts around' ps')

section

variable {σ τ : S} (hq : Quiet σ τ)
include hq

theorem Args.quiet {vs vs' : List Value} (h : Args (Live σ) vs vs') : Args (Live τ) vs vs' :=
  h.imp fun _ _ hv => hv.quiet hq

theorem objs_quiet {hs hs' : List Handle} (h : List.Forall₂ (Obj σ .cons) hs hs') : List.Forall₂ (Obj τ .cons) hs hs' :=
  h.imp fun _ _ => obj_quiet hq

theorem parts_quiet {ps ps' : List Part} (h : List.Forall₂ (Part.Like σ) ps ps') :
    List.Forall₂ (Part.Like τ) ps ps' := by
  refine h.imp fun p p' hp => ?_
  cases hp with
  | text s => exact .text s
  | kindName k => exact .kindName k
  | payload hv => exact .payload (hv.quiet hq)

end

variable {σ : S}

/-- a value stands for one value only -/
theorem live_unique {v v' w w' : Value} (hv : Live σ v v') (hw : Live σ w w') : v = w ↔ v' = w' := by
  cases hv with
  | cons h => cases hw with
    | cons g => simp [obj_unique h g]
    | _ => simp
  | symbol h => cases hw with
    | symbol g => simp [obj_unique h g]
    | _ => simp
  | scope h => cases hw with
    | scope g => simp [obj_unique h g]
    | _ => simp
  | function h => cases hw with
    | function g => simp [obj_unique h g]
    | _ => simp
  | error mood h => cases hw with
    | error mood' g => simp [obj_unique h g]
    | _ => simp
  | _ => cases hw <;> simp

theorem contains_live {vs vs' : List Value} {v v' : Value} (hvs : Args (Live σ) vs vs') (hv : Live σ v v') :
    vs.contains v = vs'.contains v' := by
  induction hvs with
  | nil => rfl
  | cons hw _ ih => simp only [List.contains_cons, ih, Bool.beq_eq_decide_eq, live_unique hv hw]

theorem contains_obj {hs hs' : List Handle} {h h' : Handle} (hhs : List.Forall₂ (Obj σ .cons) hs hs') (hh : Obj σ .cons h h') :
    hs.contains h = hs'.contains h' := by
  induction hhs with
  | nil => rfl
  | cons hg _ ih => simp only [List.contains_cons, ih, Bool.beq_eq_decide_eq, obj_unique hh hg]

/-- the message of an error, apart from payloads, is the same text -/
theorem message_like {e e' : ErrorObject} (he : e.Like (Obj σ) e') :
    List.Forall₂ (Part.Like σ) (Render.message (left σ) e) (Render.message (right σ) e') := by
  obtain ⟨kind, name, first, second⟩ := e
  obtain ⟨kind', name', first', second'⟩ := e'
  obtain ⟨hkind, hname, hfirst, hsecond⟩ := he
  simp only at hkind hname hfirst hsecond
  subst hkind
  cases kind with
  | user =>
    refine .cons ?_ (.cons (.text _) (.cons (.payload hfirst) .nil))
    cases hname with
    | none => exact .kindName _
    | some h => simp only [symbolName_eq h]; exact .text _
  | stackOverflow => exact .cons (.text _) (.cons (.payload hfirst) (.cons (.text _) (.cons (.payload hsecond) .nil)))
  | argCount => exact .cons (.text _) (.cons (.payload hsecond) (.cons (.text _) (.cons (.payload hfirst) .nil)))
  | type => exact .cons (.text _) (.cons (.payload hfirst) (.cons (.text _) .nil))
  | unboundSymbol => exact .cons (.text _) (.cons (.payload hfirst) (.cons (.text _) .nil))
  | unaccompaniedKey => exact .cons (.text _) (.cons (.payload hfirst) (.cons (.text _) .nil))
  | argIndex =>
    exact .cons (.text _) (.cons (.payload hfirst) (.cons (.text _) (.cons (.payload hsecond) (.cons (.text _) .nil))))
  | _ => exact .cons (.text _) .nil

theorem named_eq (what : String) {name name' : Option Handle} (h : Option.Rel (Obj σ .symbol) name name') :
    Render.named (left σ) what name = Render.named (right σ) what name' := by
  cases h with
  | none => rfl
  | some h => simp only [Render.named, symbolName_eq h]

/-! ## The run -/

/-- going into an error that shows other values -/
theorem into_sim {around around' : List Value} {v v' : Value} (haround : Args (Live σ) around around')
    (hv : Live σ v v') : QuietSim σ (Render.into around v) (Render.into around' v') fun τ vs vs' =>
      τ = σ ∧ Args (Live σ) vs vs' := by
  unfold Render.into
  rw [contains_live haround hv]
  split
  · exact .fault (by simp) (by simp)
  · exact .pure ⟨rfl, .cons hv haround⟩

/-- what printing a value comes to at first: a text, which is the same, or a job -/
def Started (σ τ : S) (r r' : String ⊕ Job) : Prop :=
  τ = σ ∧ ((∃ s, r = .inl s ∧ r' = .inl s) ∨ ∃ j j', r = .inr j ∧ r' = .inr j' ∧ Job.Like σ j j')

/-- the start of printing an object -/
theorem start_object {around around' : List Value} {v v' : Value} {h h' : Handle}
    (haround : Args (Live σ) around around') (hv : Live σ v v') (hh : v.handle? = some h) (hh' : v'.handle? = some h') :
    QuietSim σ (Render.start around v) (Render.start around' v') (Started σ) := by
  obtain ⟨t, ht, hobj⟩ := hv.handle?_eq_some hh
  obtain rfl := Option.some.inj (ht.symm.trans hh')
  obtain ⟨s, s', hs, hs', hlike, -, hkind⟩ := view hobj
  have hc := Heap.cell?_of_slot? hs
  have hc' := Heap.cell?_of_slot? hs'
  have hstart {m : Machine} {u : Value} {around : List Value} {t : Handle} {c : Cell} (hu : u.handle? = some t)
      (hct : m.heap.cell? t = some c) :
      (Render.start around u).run m = (Render.startObject m around u t c).run m := by
    cases u <;> cases hu <;>
      simp only [Render.start, Render.plain?, Value.handle?, Act.run_bind, Act.run_get, Machine.cell?, hct]
  unfold QuietSim InStep
  rw [hstart hh hc, hstart hh' hc']
  clear hc hc' hstart
  -- no value of these names a box
  have hbox : s.cell.kind ≠ .box := by rw [hkind]; cases hv <;> simp [Value.kind]
  rw [← hkind] at hobj
  clear hkind
  generalize s.cell = c, s'.cell = c' at hlike hobj hbox
  cases hlike with
  | box _ => exact absurd rfl hbox
  | cons _ _ => exact QuietSim.pure ⟨rfl, .inr ⟨_, _, rfl, rfl, .list haround .nil hobj⟩⟩
  | symbol name => exact QuietSim.pure ⟨rfl, .inl ⟨name, rfl, rfl⟩⟩
  | scope hname => exact QuietSim.pure ⟨rfl, .inl ⟨_, rfl, by rw [named_eq _ hname]⟩⟩
  | function hf => exact QuietSim.pure ⟨rfl, .inl ⟨_, rfl, by rw [named_eq _ hf.name]⟩⟩
  | error he =>
    refine QuietSim.bind (into_sim haround hv) ?_
    rintro τ vs vs' _ ⟨rfl, hvs⟩
    exact .pure ⟨rfl, .inr ⟨_, _, rfl, rfl, .parts hvs (message_like he)⟩⟩

theorem start_sim {around around' : List Value} {v v' : Value} (haround : Args (Live σ) around around')
    (hv : Live σ v v') : QuietSim σ (Render.start around v) (Render.start around' v') (Started σ) := by
  cases hv with
  | cons h => exact start_object haround (.cons h) rfl rfl
  | symbol h => exact start_object haround (.symbol h) rfl rfl
  | scope h => exact start_object haround (.scope h) rfl rfl
  | function h => exact start_object haround (.function h) rfl rfl
  | error mood h => exact start_object haround (.error mood h) rfl rfl
  | _ => exact .pure ⟨rfl, .inl ⟨_, rfl, rfl⟩⟩

/-- the same texts, whatever the situation -/
abbrev Same {α : Type} (_ : S) (a b : α) : Prop := a = b

section

variable {n : Nat}
  (ih : ∀ {σ : S} {j j' : Job} (acc : List String), Job.Like σ j j' →
    QuietSim σ (Render.run n j acc) (Render.run n j' acc) Same)
include ih

theorem element_sim {around around' : List Value} {opened opened' : List Handle} {v v' : Value} (acc : List String)
    (haround : Args (Live σ) around around') (hopened : List.Forall₂ (Obj σ .cons) opened opened') (hv : Live σ v v') :
    QuietSim σ (Render.run (n + 1) (.element around opened v) acc)
      (Render.run (n + 1) (.element around' opened' v') acc) Same := by
  cases hv with
  | cons h =>
    simp only [Render.run]
    refine .get ?_
    obtain ⟨s, s', hs, hs', hlike, -, hkind⟩ := view h
    simp only [Machine.cell?, Heap.cell?_of_slot? hs, Heap.cell?_of_slot? hs']
    generalize s.cell = c, s'.cell = c' at hlike
    cases hlike with
    | cons _ _ => exact ih acc (.list haround hopened h)
    | _ => exact ih acc (.value haround (.cons h))
  | symbol h => simp only [Render.run]; exact ih acc (.value haround (.symbol h))
  | scope h => simp only [Render.run]; exact ih acc (.value haround (.scope h))
  | function h => simp only [Render.run]; exact ih acc (.value haround (.function h))
  | error mood h => simp only [Render.run]; exact ih acc (.value haround (.error mood h))
  | _ => simp only [Render.run]; exact ih acc (.value haround (by constructor))

/-- the rest of a list that is no pair, printed after a dot -/
theorem dotted_sim {around around' : List Value} {opened opened' : List Handle} {v v' : Value} (acc : List String)
    (haround : Args (Live σ) around around') (hopened : List.Forall₂ (Obj σ .cons) opened opened') (hv : Live σ v v') :
    QuietSim σ (do return ")" :: (← Render.run n (.element around opened v) (" . " :: acc)))
      (do return ")" :: (← Render.run n (.element around' opened' v') (" . " :: acc))) Same :=
  (ih _ (.element haround hopened hv)).bind fun _ _ _ _ h => .pure (congrArg _ h)

theorem chain_sim {around around' : List Value} {opened opened' : List Handle} {h h' : Handle} (acc : List String)
    (haround : Args (Live σ) around around') (hopened : List.Forall₂ (Obj σ .cons) opened opened') (hh : Obj σ .cons h h') :
    QuietSim σ (Render.run (n + 1) (.chain around opened h) acc)
      (Render.run (n + 1) (.chain around' opened' h') acc) Same := by
  simp only [Render.run]
  refine .get ?_
  obtain ⟨s, s', hs, hs', hlike, -, hkind⟩ := view hh
  simp only [Machine.cell?, Heap.cell?_of_slot? hs, Heap.cell?_of_slot? hs']
  generalize s.cell = c, s'.cell = c' at hlike
  cases hlike with
  | @cons a a' d d' ha hd =>
    refine (ih acc (.element haround (.cons hh hopened) ha)).bind fun τ acc' acc₁ hq hacc => ?_
    obtain rfl : acc' = acc₁ := hacc
    have haround' := haround.quiet hq
    have hopened' := (objs_quiet hq hopened).cons (obj_quiet hq hh)
    have hdotted := dotted_sim ih acc' haround' hopened' (Live.quiet hq hd)
    cases hd with
    | nil => exact .pure rfl
    | @cons next next' hnext =>
      refine .get ?_
      have hnext' := obj_quiet hq hnext
      obtain ⟨s, s', hs, hs', hlike, -, hkind⟩ := view hnext'
      simp only [Heap.cell?_of_slot? hs, Heap.cell?_of_slot? hs']
      generalize s.cell = c, s'.cell = c' at hlike
      cases hlike with
      | cons _ _ =>
        simp only [contains_obj hopened' hnext']
        split
        · exact .pure rfl
        · exact ih _ (.chain haround' hopened' hnext')
      | _ => exact hdotted
    | _ => exact hdotted
  | _ => exact .pure rfl

theorem parts_sim [Interns S] {around around' : List Value} {ps ps' : List Part} (acc : List String)
    (haround : Args (Live σ) around around') (hps : List.Forall₂ (Part.Like σ) ps ps') :
    QuietSim σ (Render.run (n + 1) (.parts around ps) acc) (Render.run (n + 1) (.parts around' ps') acc) Same := by
  cases hps with
  | nil => simp only [Render.run]; exact .pure rfl
  | cons hp hps =>
    cases hp with
    | text s => simp only [Render.run]; exact ih _ (.parts haround hps)
    | kindName k =>
      simp only [Render.run]
      refine QuietSim.bind (Interns.intern σ k.name) fun τ _ _ hq _ => ?_
      exact ih _ (.parts (haround.quiet hq) (parts_quiet hq hps))
    | payload hv =>
      simp only [Render.run]
      refine QuietSim.bind (InStep.observe (ih [] (.value haround hv))) fun τ r r' hq hr => ?_
      cases hr with
      | ok h =>
        cases h
        exact ih _ (.parts (haround.quiet hq) (parts_quiet hq hps))
      | error h =>
        cases h with
        | raised hc => exact .throw (.raised hc)
        | outOfFuel => exact .throw .outOfFuel
        | @fault f hf =>
          cases f with
          | endless => exact .fault (by simp) (by simp)
          | _ => exact ih _ (.parts (haround.quiet hq) (parts_quiet hq hps))

end

/-- an error that is held and kept is read as it is -/
theorem Err.objects {e e' : HeldError} (he : Err σ e e') :
    (left σ).holds e.toHeld = true ∧ (right σ).holds e'.toHeld = true ∧
      ((left σ).errorObject e).Like (Obj σ) ((right σ).errorObject e') := by
  obtain ⟨⟨c, n, k, t⟩, ⟨c', n', k', t'⟩, hs, hs', hlike, -, hkind⟩ := view (obj_of_kept he.kept)
  obtain ⟨text, hl⟩ := he.object
  obtain ⟨text', hl'⟩ := he.object'
  simp only [hs, hs', Slot.label, Option.map_some, Option.some.injEq, Prod.mk.injEq] at hl hl'
  obtain ⟨hserial, -, hkind⟩ := hl
  obtain ⟨hserial', -, hkind'⟩ := hl'
  cases hlike with
  | error hx =>
    refine ⟨by simp [Machine.holds, hs, hserial], by simp [Machine.holds, hs', hserial'], ?_⟩
    simpa [Machine.errorObject, hs, hs', hserial, hserial'] using hx
  | _ => cases hkind

section

variable [Interns S]

theorem run_sim (n : Nat) {σ : S} {j j' : Job} (acc : List String) (hj : Job.Like σ j j') :
    QuietSim σ (Render.run n j acc) (Render.run n j' acc) Same := by
  induction n generalizing σ j j' acc with
  | zero => simp only [Render.run]; exact .fault (by simp) (by simp)
  | succ n ih =>
    cases hj with
    | value haround hv =>
      simp only [Render.run]
      refine (start_sim haround hv).bind ?_
      rintro τ r r' _ ⟨rfl, ⟨s, rfl, rfl⟩ | ⟨j, j', rfl, rfl, hj⟩⟩
      · exact .pure rfl
      · exact ih acc hj
    | element haround hopened hv => exact element_sim ih acc haround hopened hv
    | @list around around' opened opened' h h' haround hopened hh =>
      simp only [Render.run, contains_obj hopened hh]
      split
      · exact .pure rfl
      · exact ih _ (.chain haround hopened hh)
    | chain haround hopened hh => exact chain_sim ih acc haround hopened hh
    | parts haround hps => exact parts_sim ih acc haround hps

theorem printJob_sim {j j' : Job} (hj : Job.Like σ j j') :
    QuietSim σ (Act.printJob j) (Act.printJob j') Same := by
  rw [Act.printJob_eq, Act.printJob_eq]
  refine (run_sim Render.fuel [] hj).bind fun τ s s' _ h => ?_
  cases h
  exact .pure rfl

theorem print_sim {v v' : Value} (hv : Live σ v v') : QuietSim σ (Act.print v) (Act.print v') Same :=
  printJob_sim (.value .nil hv)

theorem printIn_sim (verb : String) {v v' : Value} (hv : Live σ v v') :
    QuietSim σ (Act.printIn verb v) (Act.printIn verb v') Same := by
  unfold Act.printIn
  refine QuietSim.bind (InStep.observe (print_sim hv)) fun τ r r' _ hr => ?_
  cases hr with
  | ok h => exact .pure h
  | error h =>
    cases h with
    | raised hc => exact .throw (.raised hc)
    | outOfFuel => exact .throw .outOfFuel
    | @fault f hf =>
      cases f with
      | endless => exact .fault (by simp) (by simp)
      | _ => exact .pure rfl

/-- the words of values that stand for each other may differ, so what is written of them may -/
theorem debugText_sim {v v' : Value} (hv : Live σ v v') :
    QuietSim σ (Act.debugText v) (Act.debugText v') fun _ _ _ => True := by
  unfold Act.debugText
  exact QuietSim.bind (printIn_sim "s" hv) fun _ _ _ _ _ => .pure trivial

theorem errorMessage_sim {e e' : HeldError} (he : Err σ e e') :
    QuietSim σ (Act.errorMessage e) (Act.errorMessage e') Same := by
  obtain ⟨hheld, hheld', hlike⟩ := he.objects
  unfold Act.errorMessage
  refine .get ?_
  simp only [hheld, hheld', Bool.not_true, Bool.false_eq_true, if_false]
  exact printJob_sim (.parts .nil (message_like hlike))

end

end LispMachine.Simulation
