/-
The sections of a parameter list.

The markers in a parameter list open its sections. `Params.Fits` says without a look at how a list is read which symbols make a
parameter list: each marker stands there once at most, they stand in order, and there is one symbol in the rest section at most.
`Params.standing` are the symbols of a section, and `Params.ofSymbols` is the parameter list that has them in its sections. What is
left out of its symbols are the markers, and the others are in the order of the list (`Fits.symbols_ofSymbols`), which is the order
of the slots in a frame.

A symbol after others that fit is taken exactly if they fit together with it (`Fits.step`, `Fits.step_error`). From there by induction
on the items that fit: reading comes to the first one that does not (`run_parseItems`). `Act.parseParams_decides` puts it together.

Such an item is reported with the text of the list, and that has to end. A list of data has a text, whatever it shares and wherever
it runs into itself (`Act.parseParams_data`). One that holds an error that tells of the list has none, and then nothing is reported
(`Act.parseParams_endless`).
-/
import Mathlib.Data.List.Sublists
import LispMachine.Proofs.Arguments
import LispMachine.Proofs.Lists
import LispMachine.Proofs.Sharing
import LispMachine.Proofs.StackFrames.Operations

namespace LispMachine

namespace Params

variable {name : Handle → String} {syms rest : List Handle} {sym : Handle} {s next : Section}

/-! ## The sections of symbols -/

/-- the sections that the markers among symbols open -/
def markers (name : Handle → String) (syms : List Handle) : List Section := syms.filterMap fun sym => Section.ofMarker? (name sym)

/-- the symbols that are no markers -/
def names (name : Handle → String) (syms : List Handle) : List Handle :=
  syms.filter fun sym => (Section.ofMarker? (name sym)).isNone

/-- the section that is open after symbols: the last marker among them opens it -/
def opened (name : Handle → String) (syms : List Handle) : Section := (markers name syms).getLast?.getD .required

/-- the symbols in a section: those that are no markers and have the section open before them -/
def standing (name : Handle → String) (s : Section) (syms : List Handle) : List Handle :=
  (syms.zipIdx.filter fun x => Section.ofMarker? (name x.1) = none ∧ opened name (syms.take x.2) = s).map Prod.fst

/-- symbols that make a parameter list -/
structure Fits (name : Handle → String) (syms : List Handle) : Prop where
  markers : (markers name syms).Sublist [.optional, .rest, .keys]
  single : (standing name .rest syms).length ≤ 1

/-- the parameter list with given symbols in its sections -/
def ofSymbols (name : Handle → String) (list : Value) (syms : List Handle) : Params where
  required := standing name .required syms
  optional := standing name .optional syms
  rest := (standing name .rest syms).head?
  keys := standing name .keys syms
  source := list

/-- the symbols that a parameter list has in a section -/
def part (p : Params) : Section → List Handle
  | .required => p.required
  | .optional => p.optional
  | .rest => p.rest.toList
  | .keys => p.keys

/-! ## One more symbol -/

theorem ofMarker?_ne_required {n : String} (h : Section.ofMarker? n = some s) : s ≠ .required := by
  rintro rfl
  unfold Section.ofMarker? at h
  split_ifs at h <;> cases h

theorem markers_append : markers name (syms ++ rest) = markers name syms ++ markers name rest := List.filterMap_append

theorem opened_marker (h : Section.ofMarker? (name sym) = some next) : opened name (syms ++ [sym]) = next := by
  simp [opened, markers, h]

theorem opened_name (h : Section.ofMarker? (name sym) = none) : opened name (syms ++ [sym]) = opened name syms := by
  simp [opened, markers, h]

theorem standing_concat : standing name s (syms ++ [sym]) =
    standing name s syms ++ if Section.ofMarker? (name sym) = none ∧ opened name syms = s then [sym] else [] := by
  have hbefore : (syms.zipIdx.filter fun x => Section.ofMarker? (name x.1) = none ∧ opened name ((syms ++ [sym]).take x.2) = s) =
      syms.zipIdx.filter fun x => Section.ofMarker? (name x.1) = none ∧ opened name (syms.take x.2) = s :=
    List.filter_congr fun x hx => by rw [List.take_append_of_le_length (by simpa using (List.snd_lt_of_mem_zipIdx hx).le)]
  rw [standing, List.zipIdx_append, List.filter_append, List.map_append, hbefore]
  congr 1
  by_cases h : Section.ofMarker? (name sym) = none ∧ opened name syms = s <;> simp [h]

theorem standing_marker (h : Section.ofMarker? (name sym) = some next) :
    standing name s (syms ++ [sym]) = standing name s syms := by
  simp [standing_concat, h]

theorem standing_name (h : Section.ofMarker? (name sym) = none) :
    standing name s (syms ++ [sym]) = standing name s syms ++ if opened name syms = s then [sym] else [] := by
  simp [standing_concat, h]

theorem ofSymbols_marker {list : Value} (h : Section.ofMarker? (name sym) = some next) :
    ofSymbols name list (syms ++ [sym]) = ofSymbols name list syms := by
  simp only [ofSymbols, standing_marker h]

/-! ## Symbols that fit -/

theorem Fits.nil : Fits name [] := ⟨List.nil_sublist _, Nat.zero_le 1⟩

/-- after markers in order another one can come if it opens a later section -/
theorem sublist_concat_iff {l : List Section} (hl : l.Sublist [.optional, .rest, .keys]) (hs : s ≠ .required) :
    (l ++ [s]).Sublist [.optional, .rest, .keys] ↔ (l.getLast?.getD .required).rank < s.rank := by
  have hall : ∀ l ∈ [Section.optional, .rest, .keys].sublists, ∀ s ∈ [Section.optional, .rest, .keys],
      (l ++ [s]).Sublist [.optional, .rest, .keys] ↔ (l.getLast?.getD .required).rank < s.rank := by decide
  refine hall l (List.mem_sublists.2 hl) s ?_
  cases s with
  | required => exact absurd rfl hs
  | _ => decide

namespace Fits

theorem of_concat (h : Fits name (syms ++ [sym])) : Fits name syms where
  markers := (List.sublist_append_left ..).trans (markers_append ▸ h.markers)
  single := by
    have hsingle := h.single
    rw [standing_concat, List.length_append] at hsingle
    omega

theorem of_append (h : Fits name (syms ++ rest)) : Fits name syms := by
  induction rest using List.reverseRecOn with
  | nil => rwa [List.append_nil] at h
  | append_singleton rest sym ih => exact ih (List.append_assoc .. ▸ h).of_concat

/-- another marker fits if it opens a later section -/
theorem marker_iff (h : Fits name syms) (hsym : Section.ofMarker? (name sym) = some next) :
    Fits name (syms ++ [sym]) ↔ (opened name syms).rank < next.rank := by
  have hmarkers : Params.markers name (syms ++ [sym]) = Params.markers name syms ++ [next] := by
    simp [Params.markers, hsym]
  rw [opened, ← sublist_concat_iff h.markers (ofMarker?_ne_required hsym), ← hmarkers]
  exact ⟨Fits.markers, fun hnext => ⟨hnext, (standing_marker hsym).symm ▸ h.single⟩⟩

/-- another name fits unless it comes second in the rest section -/
theorem name_iff (h : Fits name syms) (hsym : Section.ofMarker? (name sym) = none) :
    Fits name (syms ++ [sym]) ↔ ¬ (opened name syms = .rest ∧ standing name .rest syms ≠ []) := by
  have hmarkers : Params.markers name (syms ++ [sym]) = Params.markers name syms := by
    simp [Params.markers, hsym]
  refine ⟨fun hfits hcrowded => ?_, fun hroom => ⟨hmarkers ▸ h.markers, ?_⟩⟩
  · have hsingle := hfits.single
    rw [standing_name hsym, if_pos hcrowded.1, List.length_append, List.length_singleton] at hsingle
    have hpos := List.length_pos_iff.2 hcrowded.2
    omega
  · rw [standing_name hsym]
    split
    · rename_i hopened
      simp [not_not.1 fun hne => hroom ⟨hopened, hne⟩]
    · simpa using h.single

/-- a symbol that fits is taken -/
theorem step (h : Fits name (syms ++ [sym])) (list : Value) :
    (ofSymbols name list syms).step (opened name syms) sym (name sym) =
      .ok (ofSymbols name list (syms ++ [sym]), opened name (syms ++ [sym])) := by
  unfold Params.step
  cases hsym : Section.ofMarker? (name sym) with
  | some next =>
    have hlater := (h.of_concat.marker_iff hsym).1 h
    simp only [if_pos hlater, ofSymbols_marker hsym, opened_marker hsym]
  | none =>
    have hroom := (h.of_concat.name_iff hsym).1 h
    simp only [opened_name hsym]
    cases hs : opened name syms with
    | rest =>
      have hempty : standing name .rest syms = [] := not_not.1 fun hne => hroom ⟨hs, hne⟩
      simp [add, ofSymbols, standing_name hsym, hs, hempty]
    | _ => simp [add, ofSymbols, standing_name hsym, hs]

/-- what a symbol that does not fit is refused for -/
theorem step_error (h : Fits name syms) (hsym : ¬ Fits name (syms ++ [sym])) (list : Value) :
    (ofSymbols name list syms).step (opened name syms) sym (name sym) =
      .error (if (Section.ofMarker? (name sym)).isSome then .misplaced (name sym) else .crowdedRest) := by
  unfold Params.step
  cases hmarker : Section.ofMarker? (name sym) with
  | some next =>
    rw [h.marker_iff hmarker] at hsym
    simp [hsym]
  | none =>
    rw [h.name_iff hmarker, not_not] at hsym
    simp [add, ofSymbols, hsym.1, List.isSome_head?, hsym.2]

/-- no symbol stands in a section that comes after the open one -/
theorem standing_later (h : Fits name syms) (hlater : (opened name syms).rank < s.rank) : standing name s syms = [] := by
  induction syms using List.reverseRecOn with
  | nil => rfl
  | append_singleton syms sym ih =>
    have hsyms := h.of_concat
    cases hsym : Section.ofMarker? (name sym) with
    | some next =>
      rw [opened_marker hsym] at hlater
      rw [standing_marker hsym]
      exact ih hsyms (((hsyms.marker_iff hsym).1 h).trans hlater)
    | none =>
      rw [opened_name hsym] at hlater
      have hother : opened name syms ≠ s := fun heq => absurd hlater (heq ▸ lt_irrefl _)
      rw [standing_name hsym, if_neg hother, List.append_nil]
      exact ih hsyms hlater

theorem part_ofSymbols (h : Fits name syms) (list : Value) (s : Section) : (ofSymbols name list syms).part s = standing name s syms := by
  cases s with
  | rest =>
    have hsingle := h.single
    show (standing name .rest syms).head?.toList = _
    match standing name .rest syms, hsingle with
    | [], _ => rfl
    | [_], _ => rfl
  | _ => rfl

/-- section by section the symbols are in the order of the list -/
theorem symbols_ofSymbols (h : Fits name syms) (list : Value) : (ofSymbols name list syms).symbols = names name syms := by
  have hparts {syms : List Handle} (h : Fits name syms) : (ofSymbols name list syms).symbols = standing name .required syms ++
      standing name .optional syms ++ standing name .rest syms ++ standing name .keys syms := by
    rw [← h.part_ofSymbols list .rest]
    rfl
  rw [hparts h]
  induction syms using List.reverseRecOn with
  | nil => rfl
  | append_singleton syms sym ih =>
    have hsyms := h.of_concat
    have ih := ih hsyms
    cases hsym : Section.ofMarker? (name sym) with
    | some next => simpa [standing_marker hsym, names, hsym] using ih
    | none =>
      have hnames : names name (syms ++ [sym]) = names name syms ++ [sym] := by simp [names, hsym]
      have hlater (s : Section) (hs : (opened name syms).rank < s.rank) := hsyms.standing_later hs
      rw [hnames, ← ih]
      -- the sections after the open one are empty, so the symbol comes last
      cases hs : opened name syms <;> rw [hs] at hlater
      case required =>
        simp [standing_name hsym, hs, hlater .optional (by decide), hlater .rest (by decide), hlater .keys (by decide)]
      case optional => simp [standing_name hsym, hs, hlater .rest (by decide), hlater .keys (by decide)]
      case rest => simp [standing_name hsym, hs, hlater .keys (by decide)]
      case keys => simp [standing_name hsym, hs]

end Fits

/-! ## What does not fit -/

/-- The leftmost item that is wrong in a parameter list, and what is wrong: it is no symbol, or as a symbol it cannot come next. -/
inductive Offends (name : Handle → String) : List Value → Option ParamsError → Prop where
  | notSymbol {before : List Handle} {v : Value} {after : List Value} : Fits name before → (∀ sym, v ≠ .symbol sym) →
      Offends name (before.map .symbol ++ v :: after) none
  | misplaced {before : List Handle} {sym : Handle} {s : Section} {after : List Value} : Fits name before →
      Section.ofMarker? (name sym) = some s → ¬ Fits name (before ++ [sym]) →
      Offends name (before.map .symbol ++ .symbol sym :: after) (some (.misplaced (name sym)))
  | crowdedRest {before : List Handle} {sym : Handle} {after : List Value} : Fits name before →
      Section.ofMarker? (name sym) = none → ¬ Fits name (before ++ [sym]) →
      Offends name (before.map .symbol ++ .symbol sym :: after) (some .crowdedRest)

theorem Offends.append {items : List Value} {e : Option ParamsError} (h : Offends name items e) (more : List Value) :
    Offends name (items ++ more) e := by
  cases h with
  | notSymbol hbefore hv => rw [List.append_assoc]; exact .notSymbol hbefore hv
  | misplaced hbefore hsym hfits => rw [List.append_assoc]; exact .misplaced hbefore hsym hfits
  | crowdedRest hbefore hsym hfits => rw [List.append_assoc]; exact .crowdedRest hbefore hsym hfits

/-- items make a parameter list, or there is a first one that is wrong -/
theorem fits_or_offends (name : Handle → String) (items : List Value) :
    (∃ syms, items = syms.map .symbol ∧ Fits name syms) ∨ ∃ e, Offends name items e := by
  induction items using List.reverseRecOn with
  | nil => exact .inl ⟨[], rfl, .nil⟩
  | append_singleton items v ih =>
    obtain ⟨syms, rfl, hsyms⟩ | ⟨e, he⟩ := ih
    · by_cases hv : ∃ sym, v = .symbol sym
      · obtain ⟨sym, rfl⟩ := hv
        by_cases hfits : Fits name (syms ++ [sym])
        · exact .inl ⟨syms ++ [sym], by simp, hfits⟩
        · cases hsym : Section.ofMarker? (name sym) with
          | some s => exact .inr ⟨_, .misplaced hsyms hsym hfits⟩
          | none => exact .inr ⟨_, .crowdedRest hsyms hsym hfits⟩
      · exact .inr ⟨_, .notSymbol hsyms fun sym heq => hv ⟨sym, heq⟩⟩
    · exact .inr ⟨e, he.append [v]⟩

/-- what is raised for an item that is wrong, with the text of the list -/
def refusal (text : String) : Option ParamsError → Cause
  | none => .wrongType "symbol"
  | some (.misplaced marker) => .misplaced marker text
  | some .crowdedRest => .crowdedRest text

end Params

namespace Act

open Machine Params

variable {m : Machine} {list : Value} {items : List Value} {syms : List Handle} {e : Option ParamsError}

/-! ## Reading -/

/-- refuse a parameter list for an item that is wrong; only what is wrong with a symbol is told with the text of the list -/
def refuse (list : Value) : Option ParamsError → Act Params
  | none => raise (refusal "" none)
  | some e => do raise (refusal (← printIn "s" list) (some e))

/-- the items that fit are taken, one after the other -/
theorem run_parseItems (list : Value) (before : List Handle) (hsyms : ∀ sym ∈ syms, ∃ name, m.cell? sym = some (.symbol name))
    (h : Fits m.symbolName (before ++ syms)) (rest : List Value) :
    (parseItems list (syms.map .symbol ++ rest) (ofSymbols m.symbolName list before) (opened m.symbolName before)).run m =
      (parseItems list rest (ofSymbols m.symbolName list (before ++ syms)) (opened m.symbolName (before ++ syms))).run m := by
  induction syms generalizing before with
  | nil => rw [List.append_nil]; rfl
  | cons sym syms ih =>
    obtain ⟨name, hc⟩ := hsyms sym List.mem_cons_self
    have hmoved : before ++ sym :: syms = before ++ [sym] ++ syms := by simp
    rw [hmoved] at h ⊢
    rw [← ih (before ++ [sym]) (fun sym hsym => hsyms sym (List.mem_cons_of_mem _ hsym)) h, List.map_cons, List.cons_append, parseItems,
      bind_ok (run_asSymbol_of_cell hc)]
    simp only [run_bind, run_get, h.of_append.step]

/-- where an item is wrong, it is what the list is refused for -/
theorem run_parseItems_offends (hsyms : ∀ sym, .symbol sym ∈ items → ∃ name, m.cell? sym = some (.symbol name))
    (h : Offends m.symbolName items e) : (parseItems list items { source := list } .required).run m = (refuse list e).run m := by
  have hbefore {before : List Handle} {rest : List Value} (hitems : items = before.map .symbol ++ rest)
      (hfits : Fits m.symbolName before) : (parseItems list items { source := list } .required).run m =
        (parseItems list rest (ofSymbols m.symbolName list before) (opened m.symbolName before)).run m := by
    subst hitems
    exact run_parseItems list [] (fun sym hsym => hsyms sym (by simp [hsym])) hfits rest
  cases h with
  | notSymbol hfits hv =>
    rw [hbefore rfl hfits, parseItems, bind_ok (run_asSymbol_of_not hv)]
    rfl
  | misplaced hfits hmarker hsym | crowdedRest hfits hmarker hsym =>
    obtain ⟨name, hc⟩ := hsyms _ (List.mem_append_right _ List.mem_cons_self)
    rw [hbefore rfl hfits, parseItems, bind_ok (run_asSymbol_of_cell hc)]
    simp only [run_bind, run_get, hfits.step_error hsym, hmarker]
    rfl

theorem run_parseParams (hwalk : m.Walks list items) :
    (parseParams list).run m = (parseItems list items { source := list } .required).run m := by
  rw [parseParams, bind_ok hwalk.run_listItems]

/-- a list whose items fit is taken apart -/
theorem run_parseParams_fits (hsyms : ∀ sym ∈ syms, ∃ name, m.cell? sym = some (.symbol name))
    (hwalk : m.Walks list (syms.map .symbol)) (h : Fits m.symbolName syms) :
    (parseParams list).run m = .ok (ofSymbols m.symbolName list syms) m := by
  have hrun := run_parseItems list [] hsyms h []
  rw [List.append_nil] at hrun
  exact (run_parseParams hwalk).trans hrun

/-- what is wrong is raised, unless there is no end to the text of the list -/
theorem ends_refuse (list : Value) (e : Option ParamsError) (m : Machine) : (refuse list e).Ends m (fun _ _ => False) fun f _ =>
    (∃ text, f = .raised (refusal text e)) ∨ f = .fault .endless := by
  cases e with
  | none => exact .inl ⟨"", rfl⟩
  | some e =>
    exact Ends.bind ((ends_printIn "s" list m).mono (fun _ _ h => h) fun _ _ h => .inr h.2) fun text _ _ => .inl ⟨text, rfl⟩

/-- a list that has a text is refused with it -/
theorem run_refuse {text : String} (htext : (printIn "s" list).run m = .ok text m) (e : Option ParamsError) :
    (refuse list e).run m = .error (.raised (refusal text e)) m := by
  cases e with
  | none => rfl
  | some e => rw [refuse, bind_ok htext, run_raise]

/-- **Taking a parameter list apart decides what a parameter list is.** It succeeds exactly if the list is a proper list of symbols
that fit: each marker is there once at most, the markers are in order, and there is one symbol in the rest section at most. Then the
parameters are the symbols of the list without the markers, in the order of the list, and there are as many slots for them. Each
section has the symbols that come after its marker and before the next one. What is no proper list is refused as a whole. In every
other list there is a leftmost item that is wrong, and the list is refused for it: that is raised, unless there is no end to the text
of the list (`ends_refuse`). Nothing is changed, unless by printing the list. -/
theorem parseParams_decides (hm : m.NoRestDangles) (hlist : m.IsThere list)
    (hsyms : ∀ items, m.Walks list items → ∀ sym, .symbol sym ∈ items → ∃ name, m.cell? sym = some (.symbol name)) :
    ((∃ p m', (parseParams list).run m = .ok p m') ↔
      ∃ syms, m.Walks list (syms.map .symbol) ∧ Fits m.symbolName syms) ∧
    (∀ syms, m.Walks list (syms.map .symbol) → Fits m.symbolName syms → ∃ p, (parseParams list).run m = .ok p m ∧
      p.source = list ∧ p.symbols = names m.symbolName syms ∧ p.size = (names m.symbolName syms).length ∧
      ∀ s, p.part s = standing m.symbolName s syms) ∧
    ((∀ items, ¬ m.Walks list items) → (parseParams list).run m = .error (.raised (.improperList list)) m) ∧
    ∀ items, m.Walks list items → (∃ syms, items = syms.map .symbol ∧ Fits m.symbolName syms) ∨
      ∃ e, Offends m.symbolName items e ∧ (parseParams list).run m = (refuse list e).run m := by
  have hfits {syms : List Handle} (hwalk : m.Walks list (syms.map .symbol)) (h : Fits m.symbolName syms) :
      (parseParams list).run m = .ok (ofSymbols m.symbolName list syms) m :=
    run_parseParams_fits (fun sym hsym => hsyms _ hwalk sym (List.mem_map_of_mem hsym)) hwalk h
  have himproper (hno : ∀ items, ¬ m.Walks list items) :
      (parseParams list).run m = .error (.raised (.improperList list)) m := bind_error (hm.sturdy.run_listItems hlist hno)
  have hdecided (items : List Value) (hwalk : m.Walks list items) :
      (∃ syms, items = syms.map .symbol ∧ Fits m.symbolName syms) ∨
        ∃ e, Offends m.symbolName items e ∧ (parseParams list).run m = (refuse list e).run m :=
    (fits_or_offends m.symbolName items).imp_right fun ⟨e, he⟩ =>
      ⟨e, he, (run_parseParams hwalk).trans (run_parseItems_offends (hsyms items hwalk) he)⟩
  refine ⟨⟨fun ⟨p, m', hrun⟩ => ?_, fun ⟨syms, hwalk, h⟩ => ⟨_, m, hfits hwalk h⟩⟩, fun syms hwalk h => ?_, himproper, hdecided⟩
  · by_cases hproper : ∃ items, m.Walks list items
    · obtain ⟨items, hwalk⟩ := hproper
      obtain ⟨syms, rfl, h⟩ | ⟨e, -, hrefused⟩ := hdecided items hwalk
      · exact ⟨syms, hwalk, h⟩
      · have hends := ends_refuse list e m
        rw [Ends, ← hrefused, hrun] at hends
        exact hends.elim
    · cases hrun.symm.trans (himproper fun items hwalk => hproper ⟨items, hwalk⟩)
  · have hsymbols := h.symbols_ofSymbols list
    exact ⟨_, hfits hwalk h, rfl, hsymbols, congrArg List.length hsymbols, h.part_ofSymbols list⟩

/-! ## Lists that have a text and lists that have none -/

theorem sturdy_isData (m : Machine) : m.Sturdy m.IsData := by
  intro h hv
  obtain ⟨_, a, d, heq, hc⟩ | hleaf := hv _ .refl
  · cases heq
    obtain ⟨s, hs, hcell⟩ := Heap.cell?_eq_some.1 hc
    refine ⟨s, hs, fun a' d' hcell' => ?_⟩
    cases hcell.symm.trans hcell'
    exact (HasField.rest hc).isData hv
  · cases hleaf

theorem isData_of_mem (hlist : m.IsData list) (hwalk : m.Walks list items) {v : Value} (hv : v ∈ items) : m.IsData v := by
  induction hwalk with
  | nil => cases hv
  | cons hc _ ih =>
    rcases List.mem_cons.1 hv with rfl | hv
    · exact (HasField.first hc).isData hlist
    · exact ih ((HasField.rest hc).isData hlist) hv

theorem exists_name_of_isData {sym : Handle} (h : m.IsData (.symbol sym)) : ∃ name, m.cell? sym = some (.symbol name) := by
  obtain ⟨_, _, _, heq, -⟩ | hleaf := h _ .refl
  · cases heq
  · simp only [leaf?] at hleaf
    split at hleaf
    · exact ⟨_, ‹_›⟩
    · cases hleaf

theorem run_printIn_isData (hsize : m.heap.slots.size ≤ 0x10000000) (hlist : m.IsData list) (verb : String) :
    ∃ s, m.Sketched [] list s ∧ (printIn verb list).run m = .ok s.text m := by
  obtain ⟨s, hs⟩ := hlist.exists_sketched (Nest.nil m)
  refine ⟨s, hs, ?_⟩
  rw [printIn, run_bind, run_observe, hs.run_print (hs.depth_le_fuel hsize)]
  rfl

/-- **A parameter list of data is taken or refused for what is wrong with it.** Pairs, numbers, immediates and symbols make a list that
has a text, whatever is shared in it and wherever it runs into itself. It is taken apart if it is a proper list of symbols that fit,
and refused as a whole if it is no proper list; or else it is refused for its leftmost item that is wrong. -/
theorem parseParams_data (hsize : m.heap.slots.size ≤ 0x10000000) (hlist : m.IsData list) : ∃ s, m.Sketched [] list s ∧
    ((∃ syms, m.Walks list (syms.map .symbol) ∧ Fits m.symbolName syms ∧
        (parseParams list).run m = .ok (ofSymbols m.symbolName list syms) m) ∨
      ((∀ items, ¬ m.Walks list items) ∧ (parseParams list).run m = .error (.raised (.improperList list)) m) ∨
      ∃ items e, m.Walks list items ∧ Offends m.symbolName items e ∧
        (parseParams list).run m = .error (.raised (refusal s.text e)) m) := by
  obtain ⟨s, hs, htext⟩ := run_printIn_isData hsize hlist "s"
  refine ⟨s, hs, ?_⟩
  by_cases hproper : ∃ items, m.Walks list items
  · obtain ⟨items, hwalk⟩ := hproper
    have hsyms (sym : Handle) (hsym : .symbol sym ∈ items) := exists_name_of_isData (isData_of_mem hlist hwalk hsym)
    obtain ⟨syms, rfl, h⟩ | ⟨e, he⟩ := fits_or_offends m.symbolName items
    · exact .inl ⟨syms, hwalk, h, run_parseParams_fits (fun sym hsym => hsyms sym (List.mem_map_of_mem hsym)) hwalk h⟩
    · have hrun := (run_parseParams hwalk).trans (run_parseItems_offends hsyms he)
      exact .inr (.inr ⟨items, e, hwalk, he, hrun.trans (run_refuse htext e)⟩)
  · have hno (items : List Value) (hwalk : m.Walks list items) := hproper ⟨items, hwalk⟩
    exact .inr (.inl ⟨hno, bind_error ((sturdy_isData m).run_listItems hlist hno)⟩)

/-- a parameter list with a marker that is there twice, and after it an error that tells of the list -/
def tangled : Machine := Outcome.machine ((do
  let key ← intern "&key"
  let last ← allocate (.cons .nil .nil)
  let second ← allocate (.cons (.symbol key) (.cons last))
  let first ← allocate (.cons (.symbol key) (.cons second))
  let e ← allocate (.error { kind := .user, name := some key, first := .cons first })
  store (.car last) (.error e .quiet) : Act Unit).run .initial)

/-- the second marker is wrong there, but the list has no text to report it with -/
theorem parseParams_endless : tangled.Walks (.cons 5) [.symbol 2, .symbol 2, .error 6 .quiet] ∧
    Offends tangled.symbolName [.symbol 2, .symbol 2, .error 6 .quiet] (some (.misplaced "&key")) ∧
    ∃ m', (parseParams (.cons 5)).run tangled = .error (.fault .endless) m' := by
  have hfirst : tangled.cell? 5 = some (.cons (.symbol 2) (.cons 4)) := by decide
  have hsecond : tangled.cell? 4 = some (.cons (.symbol 2) (.cons 3)) := by decide
  have hlast : tangled.cell? 3 = some (.cons (.error 6 .quiet) .nil) := by decide
  have hwalk : tangled.Walks (.cons 5) [.symbol 2, .symbol 2, .error 6 .quiet] := .cons hfirst (.cons hsecond (.cons hlast .nil))
  have hname : tangled.symbolName 2 = "&key" := by decide
  have hmarker : Section.ofMarker? (tangled.symbolName 2) = some .keys := by rw [hname]; rfl
  have hopened : opened tangled.symbolName ([] ++ [2]) = .keys := opened_marker hmarker
  have hfits : Fits tangled.symbolName [2] := (Fits.nil.marker_iff hmarker).2 (by decide)
  have hagain : ¬ Fits tangled.symbolName ([2] ++ [2]) := fun h =>
    (hopened ▸ (hfits.marker_iff hmarker).1 h).false
  have hoffends : Offends tangled.symbolName ([2].map .symbol ++ .symbol 2 :: [.error 6 .quiet])
      (some (.misplaced (tangled.symbolName 2))) := .misplaced hfits hmarker hagain
  exact ⟨hwalk, hname ▸ hoffends, _, rfl⟩

end Act

end LispMachine
