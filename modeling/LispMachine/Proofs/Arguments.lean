/-
Arguments and parameters.

Which arguments a parameter list takes depends on the number of required and optional parameters, on whether there is a rest
parameter, and on whether there are keys, which then have to alternate with values after the arguments for the other sections
(`Params.Accepts`). A call on arguments that are taken lays one value for each parameter on the stack, section after section
(`Params.Fills`); one on arguments that are not taken fails with the error for the number of arguments or, if that is right,
with the error for the first place where a key is missing or has no value (`Params.Refuses`). When the error occurs some of
the values may be on the stack already.

For each function that has a part in a call one lemma says what it lays on the stack (`Act.Lays`), and
`Machine.arguments_fill` puts them together.
-/
import LispMachine.Eval.Evaluate
import LispMachine.Proofs.Identity
import LispMachine.Proofs.Laying

namespace LispMachine

/-! ## Keys and values -/

/-- the text by which an argument for a parameter is given: the parameter's name with a colon in front -/
def Params.keyName (name : String) : String := if name.startsWith ":" then name else ":" ++ name

/-- there is a symbol at the place of key `i`: keys are at the even positions -/
def KeyAt (vs : List Value) (i : Nat) : Prop := ∃ h, vs[2 * i]? = some (.symbol h)

/-- symbols that alternate with values -/
structure Keyed (vs : List Value) : Prop where
  even : Even vs.length
  keys : ∀ i, 2 * i < vs.length → KeyAt vs i

/-- what keys and values give for a key: the value after the last occurrence of the key, if it is among the keys at all -/
inductive Gives (vs : List Value) (key : Handle) : Option Value → Prop where
  | last {i : Nat} {v : Value} : vs[2 * i]? = some (.symbol key) → vs[2 * i + 1]? = some v →
      (∀ j, i < j → vs[2 * j]? ≠ some (.symbol key)) → Gives vs key (some v)
  | absent : (∀ j, vs[2 * j]? ≠ some (.symbol key)) → Gives vs key none

/-- the error for the first place where keys and values do not alternate -/
inductive KeyRefused (m : Machine) (vs : List Value) : ErrorObject → Prop where
  | notSymbol {i : Nat} {v : Value} {s : Handle} : (∀ j < i, KeyAt vs j) → vs[2 * i]? = some v → (∀ h, v ≠ .symbol h) →
      m.symbols.lookup "symbol" = some s → KeyRefused m vs { kind := .type, first := .symbol s, second := v }
  | unaccompanied {i : Nat} {h : Handle} : (∀ j < i, KeyAt vs j) → vs[2 * i]? = some (.symbol h) → vs[2 * i + 1]? = none →
      KeyRefused m vs { kind := .unaccompaniedKey, first := .symbol h }

section Keys

variable {m : Machine} {vs : List Value} {h key : Handle} {v w : Value}

theorem KeyAt.zero : KeyAt (.symbol h :: vs) 0 := ⟨h, rfl⟩

/-- a key and its value in front move the others by one -/
theorem keyAt_succ {i : Nat} : KeyAt (v :: w :: vs) (i + 1) ↔ KeyAt vs i := Iff.rfl

theorem Keyed.nil : Keyed [] := ⟨⟨0, rfl⟩, fun _ h => absurd h (Nat.not_lt_zero _)⟩

theorem Keyed.cons (hvs : Keyed vs) : Keyed (.symbol h :: v :: vs) where
  even := hvs.even.add even_two
  keys
    | 0, _ => .zero
    | i + 1, hi => keyAt_succ.2 (hvs.keys i (by simp only [List.length_cons] at hi; omega))

theorem KeyRefused.cons {x : ErrorObject} (hvs : KeyRefused m vs x) : KeyRefused m (.symbol h :: v :: vs) x := by
  have hbefore {i : Nat} (hi : ∀ j < i, KeyAt vs j) : ∀ j < i + 1, KeyAt (.symbol h :: v :: vs) j
    | 0, _ => .zero
    | j + 1, hj => keyAt_succ.2 (hi j (Nat.lt_of_succ_lt_succ hj))
  cases hvs with
  | notSymbol hi hv hno hs => exact .notSymbol (hbefore hi) hv hno hs
  | unaccompanied hi hh hend => exact .unaccompanied (hbefore hi) hh hend

/-- where there is such an error, keys and values do not alternate -/
theorem KeyRefused.not_keyed {x : ErrorObject} (hx : KeyRefused m vs x) : ¬ Keyed vs := by
  rintro ⟨⟨n, hn⟩, hkeys⟩
  cases hx with
  | @notSymbol i v _ _ hv hno _ =>
    obtain ⟨hlt, -⟩ := List.getElem?_eq_some_iff.1 hv
    obtain ⟨h, hh⟩ := hkeys i hlt
    exact hno h (Option.some.inj (hv.symm.trans hh))
  | @unaccompanied i _ _ hh hend =>
    obtain ⟨hlt, -⟩ := List.getElem?_eq_some_iff.1 hh
    have hle := List.getElem?_eq_none_iff.1 hend
    omega

/-- a key and its value count unless the key occurs again after them -/
theorem Gives.cons {pairs : List (Handle × Value)} (hvs : Gives vs key (pairs.lookup key)) :
    Gives (.symbol h :: v :: vs) key ((pairs ++ [(h, v)]).lookup key) := by
  rw [List.lookup_append]
  generalize pairs.lookup key = given at hvs
  cases hvs with
  | @last i w hkey hw hlater =>
    refine .last (i := i + 1) hkey hw fun j hj => ?_
    obtain ⟨j, rfl⟩ := Nat.exists_eq_add_of_lt (Nat.zero_lt_of_lt hj)
    exact hlater _ (by omega)
  | absent hno =>
    by_cases heq : key = h
    · subst heq
      rw [Option.none_or, List.lookup_cons_self]
      refine .last (i := 0) rfl rfl fun j hj => ?_
      obtain ⟨j, rfl⟩ := Nat.exists_eq_add_of_lt hj
      exact hno _
    · rw [Option.none_or, List.lookup_cons, beq_false_of_ne heq]
      refine .absent fun
        | 0 => by simpa using Ne.symm heq
        | j + 1 => hno j

end Keys

/-! ## What a parameter list takes, and what it makes of it -/

namespace Params

/-- the arguments after those for the required and the optional parameters -/
def others (p : Params) (args : List Value) : List Value := (args.drop p.required.length).drop p.optional.length

/-- a number of arguments that the parameters take -/
structure Counts (p : Params) (n : Nat) : Prop where
  enough : p.required.length ≤ n
  few : p.rest = none → p.keys = [] → n ≤ p.required.length + p.optional.length

/-- arguments that the parameters take -/
structure Accepts (p : Params) (args : List Value) : Prop where
  count : p.Counts args.length
  keyed : p.keys ≠ [] → Keyed (p.others args)

end Params

/-- the values of a call's parameters, section after section -/
structure Sections where
  required : List Value
  optional : List Value
  rest : List Value
  keys : List Value

/-- the values in the order of their slots -/
def Sections.values (s : Sections) : List Value := s.required ++ s.optional ++ s.rest ++ s.keys

/-- arguments for the parameter `sym` are given by `key`: the symbol of its name with a colon in front -/
def Machine.KeyFor (m : Machine) (sym key : Handle) : Prop :=
  ∃ name, m.cell? sym = some (.symbol name) ∧ m.symbols.lookup (Params.keyName name) = some key

theorem Machine.KeyFor.enlarged {m m' : Machine} {sym key : Handle} {n : Nat} (h : m.KeyFor sym key) (hm : m.Enlarged n m') :
    m'.KeyFor sym key :=
  have ⟨name, hc, hs⟩ := h
  ⟨name, hm.cells _ _ hc, hm.symbols _ _ hs⟩

/-- the values that arguments come to: the first of them for the required parameters, the next for the optional ones, or unset,
the list of the others, if there is a parameter for it, and what the others give for each key, or unset -/
structure Params.Fills (p : Params) (args : List Value) (m : Machine) (s : Sections) : Prop where
  required : s.required = args.take p.required.length
  optional : s.optional = (args.drop p.required.length).takeD p.optional.length .unset
  rest : List.Forall₂ (fun _ list => m.Walks list (p.others args)) p.rest.toList s.rest
  keys : List.Forall₂ (fun sym v => ∃ key given, m.KeyFor sym key ∧ Gives (p.others args) key given ∧ v = given.getD .unset)
    p.keys s.keys

/-- the error for arguments that are not taken: that for their number, or else that for the first key that is amiss -/
inductive Params.Refuses (p : Params) (args : List Value) (m : Machine) : ErrorObject → Prop where
  | count : ¬ p.Counts args.length →
      Refuses p args m { kind := .argCount, first := p.source, second := Act.int32 args.length }
  | key {x : ErrorObject} : p.Counts args.length → p.keys ≠ [] → KeyRefused m (p.others args) x → Refuses p args m x

namespace Params

variable {p : Params} {args : List Value} {m : Machine}

theorem Refuses.not_accepts {x : ErrorObject} (hx : p.Refuses args m x) : ¬ p.Accepts args := by
  rintro ⟨hcount, hkeyed⟩
  cases hx with
  | count hno => exact hno hcount
  | key _ hkeys hrefused => exact hrefused.not_keyed (hkeyed hkeys)

theorem mem_keys_of_add {p' : Params} {s : Section} {sym : Handle} (hadd : p.add s sym = .ok p') {k : Handle}
    (hk : k ∈ p'.keys) : k ∈ p.keys ∨ k = sym := by
  cases s with
  | keys =>
    cases hadd
    simpa using hk
  | rest =>
    unfold add at hadd
    simp only at hadd
    split at hadd
    · cases hadd
    · cases hadd
      exact .inl hk
  | _ =>
    cases hadd
    exact .inl hk

/-- the next symbol of a parameter list is the only new key there may be -/
theorem mem_keys_of_step {p' : Params} {s s' : Section} {sym : Handle} {name : String}
    (hstep : p.step s sym name = .ok (p', s')) {k : Handle} (hk : k ∈ p'.keys) : k ∈ p.keys ∨ k = sym := by
  unfold step at hstep
  split at hstep
  · split at hstep
    · cases hstep
      exact .inl hk
    · cases hstep
  · split at hstep
    · rename_i hadd
      cases hstep
      exact mem_keys_of_add hadd hk
    · cases hstep

/-- the error depends on the names of symbols alone -/
theorem Refuses.of_symbols {m' : Machine} {x : ErrorObject} (hx : p.Refuses args m x) (hsame : m'.symbols = m.symbols) :
    p.Refuses args m' x := by
  cases hx with
  | count hno => exact .count hno
  | key hcount hkeys hrefused =>
    refine .key hcount hkeys ?_
    cases hrefused with
    | notSymbol hbefore hv hno hs => exact .notSymbol hbefore hv hno (hsame ▸ hs)
    | unaccompanied hbefore hh hend => exact .unaccompanied hbefore hh hend

/-- there is a value for each parameter -/
theorem Fills.length {s : Sections} (hs : p.Fills args m s) (hargs : p.Accepts args) : s.values.length = p.size := by
  have henough := hargs.count.enough
  rw [Sections.values, hs.required, hs.optional, size, symbols]
  simp only [List.length_append, List.length_take, List.takeD_length, Nat.min_eq_left henough, hs.rest.length_eq,
    hs.keys.length_eq]

end Params

namespace Act

variable {α β : Type} {th : ThreadId} {n k : Nat} {m : Machine}

/-! ## Laying the sections -/

section Laying

variable {E : ErrorObject → Machine → Prop}

theorem lays_pushRequired {ps : List Handle} {vs : List Value} (hlen : ps.length ≤ vs.length) {m : Machine} (hm : m.heap.InOrder)
    (hroom : m.HasRoom th (ps.length + k)) :
    Lays th 0 m (pushRequired th ps vs)
      (fun rest ws m' => rest = vs.drop ps.length ∧ ws = vs.take ps.length ∧ m'.HasRoom th k) E := by
  induction ps generalizing vs m with
  | nil => exact .pure hm ⟨rfl, rfl, by simpa using hroom⟩
  | cons p ps ih =>
    obtain _ | ⟨v, vs⟩ := vs
    · cases hlen
    · rw [List.length_cons, Nat.add_comm ps.length, Nat.add_assoc] at hroom
      refine (lays_push_ hm hroom v).bind (k := 0) ?_
      rintro _ _ m' hm' ⟨rfl, hroom'⟩
      exact (ih (Nat.le_of_succ_le_succ hlen) hm'.order hroom').imp fun _ _ _ _ h => by simpa using h

theorem lays_pushOptional {ps : List Handle} {vs : List Value} {m : Machine} (hm : m.heap.InOrder)
    (hroom : m.HasRoom th (ps.length + k)) :
    Lays th 0 m (pushOptional th ps vs)
      (fun rest ws m' => rest = vs.drop ps.length ∧ ws = vs.takeD ps.length .unset ∧ m'.HasRoom th k) E := by
  induction ps generalizing vs m with
  | nil => exact .pure hm ⟨rfl, rfl, by simpa using hroom⟩
  | cons p ps ih =>
    rw [List.length_cons, Nat.add_comm ps.length, Nat.add_assoc] at hroom
    obtain _ | ⟨v, vs⟩ := vs
    all_goals
      refine (lays_push_ hm hroom _).bind (k := 0) ?_
      rintro _ _ m' hm' ⟨rfl, hroom'⟩
      exact (ih hm'.order hroom').imp fun _ _ _ _ h => by simpa [Nat.add_comm 1] using h

end Laying

/-! ## Arguments by key -/

section Keys

variable {Q : β → List Value → Machine → Prop} {E : ErrorObject → Machine → Prop}

theorem run_asSymbol_of_cell {h : Handle} {name : String} (hc : m.cell? h = some (.symbol name)) :
    (asSymbol (.symbol h)).run m = .ok (some h) m := by
  obtain ⟨⟨_, _, _, _⟩, hs, rfl⟩ := Heap.cell?_eq_some.1 hc
  unfold asSymbol resolve
  simp only [Value.handle?, run_bind, run_get, hs, run_pure]

theorem run_asSymbol {h : Handle} (hh : m.Known h) : (asSymbol (.symbol h)).run m = .ok (some h) m :=
  have ⟨_, hc, _⟩ := hh
  run_asSymbol_of_cell hc

theorem run_asSymbol_of_not {v : Value} (hv : ∀ h, v ≠ .symbol h) : (asSymbol v).run m = .ok none m := by
  cases v with
  | symbol h => exact absurd rfl (hv h)
  | _ => rfl

/-- what is not a symbol is refused at the place of a key -/
theorem lays_notSymbol (hm : m.heap.InOrder) {v : Value} (hv : ∀ h, v ≠ .symbol h) (vs : List Value) (f : Handle → Act β) :
    Lays th 2 m (do
      match ← asSymbol v with
      | none => raiseType th "symbol" v
      | some key => f key) Q fun x m' => KeyRefused m' (v :: vs) x := by
  refine .next (run_asSymbol_of_not hv) (lays_raiseType hm fun s m' hs => ?_)
  exact .notSymbol (i := 0) nofun rfl hv hs

/-- arguments by key are told apart where keys and values alternate, and otherwise the first place where they do not is told -/
theorem lays_keyedArgs (hm : m.heap.InOrder) {vs : List Value} (hvs : ∀ h, .symbol h ∈ vs → m.Known h)
    (given : List (Handle × Value)) :
    Lays th 2 m (keyedArgs th vs given)
      (fun given' ws _ => ws = [] ∧ Keyed vs ∧ ∃ pairs, given' = pairs ++ given ∧ ∀ key, Gives vs key (pairs.lookup key))
      fun x m' => KeyRefused m' vs x := by
  fun_induction keyedArgs th vs given with
  | case1 given =>
    refine Lays.grow (.pure hm ⟨rfl, .nil, [], rfl, fun key => .absent fun j => ?_⟩) (Nat.zero_le 2)
    simp
  | case2 k given =>
    by_cases hk : ∃ h, k = .symbol h
    · obtain ⟨h, rfl⟩ := hk
      refine .next (run_asSymbol (hvs h (by simp))) ?_
      refine (lays_raiseError hm fun m' => ?_).grow (Nat.le_succ 1)
      exact .unaccompanied (i := 0) nofun rfl rfl
    · exact lays_notSymbol hm (not_exists.1 hk) _ _
  | case3 k v rest given ih =>
    by_cases hk : ∃ h, k = .symbol h
    · obtain ⟨h, rfl⟩ := hk
      refine .next (run_asSymbol (hvs h (by simp))) ?_
      refine ((ih h fun h' hh' => hvs h' (by simp [hh'])).impError fun _ _ h => h.cons).imp ?_
      rintro _ ws m' - ⟨rfl, hkeyed, pairs, rfl, hgives⟩
      exact ⟨rfl, hkeyed.cons, pairs ++ [(h, v)], by simp, fun key => (hgives key).cons⟩
    · exact lays_notSymbol hm (not_exists.1 hk) _ _

theorem lays_keyOf (hm : m.heap.InOrder) {sym : Handle} (hsym : m.Known sym) :
    Lays th 1 m (keyOf sym) (fun key ws m' => ws = [] ∧ m'.KeyFor sym key) E := by
  obtain ⟨name, hc, hs⟩ := hsym
  have hname : m.symbolName sym = name := by simp [Machine.symbolName, hc]
  unfold keyOf
  refine .next (run_get m) ?_
  simp only [hname]
  split
  · rename_i hcolon
    exact Lays.grow (.pure hm ⟨rfl, name, hc, by rwa [Params.keyName, if_pos hcolon]⟩) (Nat.zero_le 1)
  · rename_i hcolon
    refine (lays_intern hm _).imp ?_
    rintro key _ m' hm' ⟨rfl, hs'⟩
    exact ⟨rfl, name, hm'.cells _ _ hc, by rwa [Params.keyName, if_neg hcolon]⟩

theorem lays_pushKeys {given : List (Handle × Value)} {ks : List Handle} {m : Machine} (hm : m.heap.InOrder)
    (hks : ∀ k ∈ ks, m.Known k) (hroom : m.HasRoom th ks.length) :
    Lays th ks.length m (pushKeys th given ks)
      (fun _ ws m' => List.Forall₂ (fun sym v => ∃ key, m'.KeyFor sym key ∧ v = (given.lookup key).getD .unset) ks ws) E := by
  induction ks generalizing m with
  | nil => exact .pure hm .nil
  | cons k ks ih =>
    rw [List.forall_mem_cons] at hks
    rw [List.length_cons, Nat.add_comm] at hroom ⊢
    unfold pushKeys
    refine (lays_keyOf hm hks.1).bind ?_
    rintro key _ m₁ hm₁ ⟨rfl, hkey⟩
    rw [← Nat.zero_add ks.length]
    refine (lays_push_ hm₁.order (hm₁.hasRoom (by simpa using hroom)) _).bind ?_
    rintro _ _ m₂ hm₂ ⟨rfl, hroom₂⟩
    have hks₂ : ∀ k ∈ ks, m₂.Known k := fun k hk => ((hks.2 k hk).enlarged hm₁.toEnlarged).enlarged hm₂.toEnlarged
    refine (ih hm₂.order hks₂ hroom₂).imp fun _ ws m' hm' h => ?_
    exact .cons ⟨key, (hkey.enlarged hm₂.toEnlarged).enlarged hm'.toEnlarged, rfl⟩ h

end Keys

/-! ## A whole frame -/

section Frame

variable {p : Params} {args : List Value}

/-- the sections for the arguments that are left after the required and the optional ones -/
theorem lays_others {m : Machine} (hm : m.heap.InOrder) (hargs : ∀ h, .symbol h ∈ p.others args → m.Known h)
    (hkeys : ∀ k ∈ p.keys, m.Known k) (hroom : m.HasRoom th p.keys.length) (henough : p.required.length ≤ args.length) :
    Lays th (p.keys.length + 2) m (if p.keys.isEmpty then
        if p.rest.isNone && !(p.others args).isEmpty then raiseError th .argCount p.source (int32 args.length) else pure ()
      else do pushKeys th (← keyedArgs th (p.others args) []) p.keys : Act Unit)
      (fun _ ws m' => p.Accepts args ∧ List.Forall₂ (fun sym v => ∃ key given, m'.KeyFor sym key ∧
        Gives (p.others args) key given ∧ v = given.getD .unset) p.keys ws)
      fun x m' => p.Refuses args m' x := by
  have hlen : (p.others args).length = args.length - p.required.length - p.optional.length := by
    simp only [Params.others, List.length_drop]
  by_cases hempty : p.keys = []
  · rw [if_pos (List.isEmpty_iff.2 hempty)]
    split
    · rename_i hover
      rw [Bool.and_eq_true, Option.isNone_iff_eq_none] at hover
      refine (lays_raiseError hm fun m' => .count fun hcount => ?_).grow (by omega)
      have hfew := hcount.few hover.1 hempty
      have hsome : 0 < (p.others args).length := List.length_pos_iff.2 (by simpa using hover.2)
      omega
    · rename_i hover
      refine Lays.grow (.pure hm ⟨⟨⟨henough, fun hrest _ => ?_⟩, fun h => absurd hempty h⟩, hempty ▸ .nil⟩) (Nat.zero_le _)
      have hnone : (p.others args).length = 0 := by simpa [hrest] using hover
      omega
  · rw [if_neg (by simpa using hempty), Nat.add_comm]
    have hcount : p.Counts args.length := ⟨henough, fun _ h => absurd h hempty⟩
    refine ((lays_keyedArgs hm hargs []).impError fun x m' h => .key hcount hempty h).bind ?_
    rintro _ _ m' hm' ⟨rfl, hkeyed, pairs, rfl, hgives⟩
    rw [List.append_nil]
    have hkeys' (k : Handle) (hk : k ∈ p.keys) : m'.Known k := (hkeys k hk).enlarged hm'.toEnlarged
    refine (lays_pushKeys hm'.order hkeys' (hm'.hasRoom (by simpa using hroom))).imp fun _ ws m'' _ h =>
      ⟨⟨hcount, fun _ => hkeyed⟩, ?_⟩
    exact h.imp fun sym v ⟨key, hkey, hv⟩ => ⟨key, _, hkey, hgives key, hv⟩

/-- the list of the arguments that are left, if there is a parameter for it, comes before what else is laid -/
theorem lays_rest (text : Bool) (vs : List Value) {m : Machine} (hm : m.heap.InOrder)
    (hroom : m.HasRoom th (p.rest.toList.length + k)) {x : Act α} {Q : α → List Value → Machine → Prop}
    {E : ErrorObject → Machine → Prop} (hx : ∀ m', m.Enlarged vs.length m' → m'.HasRoom th k → Lays th n m' x Q E) :
    Lays th (vs.length + n) m (if p.rest.isSome then do push_ th (← newListOf th text vs); x else x)
      (fun a ws m' => ∃ rest others, ws = rest ++ others ∧
        List.Forall₂ (fun _ list => m'.Walks list vs) p.rest.toList rest ∧ Q a others m') E := by
  cases hrest : p.rest with
  | none =>
    have hsame := (Machine.Enlarged.refl hm).mono (Nat.zero_le vs.length)
    refine ((hx m hsame (by simpa [hrest] using hroom)).grow (Nat.le_add_left n _)).imp fun _ ws _ _ h => ?_
    exact ⟨[], ws, rfl, .nil, h⟩
  | some sym =>
    have hroom : m.HasRoom th (1 + k) := by simpa [hrest] using hroom
    rw [← Nat.zero_add n]
    simp only [Option.isSome_some, if_true]
    refine (lays_newListOf text hm vs).bind ?_
    rintro list _ m₁ hm₁ ⟨rfl, hlist⟩
    refine (lays_push_ hm₁.order (hm₁.hasRoom (by simpa using hroom)) list).bind ?_
    rintro _ _ m₂ hm₂ ⟨rfl, hroom₂⟩
    refine (hx m₂ (hm₁.toEnlarged.trans hm₂.toEnlarged) hroom₂).imp fun _ ws m' hm' h => ?_
    have hlist' := (hlist.enlarged hm₂.toEnlarged).enlarged hm'.toEnlarged
    exact ⟨[list], ws, rfl, .cons hlist' .nil, h⟩

/-- the arguments of a call are laid on the stack, or refused -/
theorem lays_pushArgs (text : Bool) {m : Machine} (hm : m.heap.InOrder) (hargs : ∀ h, .symbol h ∈ args → m.Known h)
    (hkeys : ∀ k ∈ p.keys, m.Known k) (hroom : m.HasRoom th p.size) :
    Lays th (args.length + p.keys.length + 2) m (pushArgs th text p args)
      (fun _ ws m' => p.Accepts args ∧ ∃ s, p.Fills args m' s ∧ ws = s.values) fun x m' => p.Refuses args m' x := by
  have hsize : p.size = p.required.length + (p.optional.length + (p.rest.toList.length + p.keys.length)) := by
    simp only [Params.size, Params.symbols, List.length_append]
    omega
  rw [hsize] at hroom
  unfold pushArgs
  simp only
  split
  · rename_i hlt
    have hraised : Lays th 1 m (raiseError th .argCount p.source (int32 args.length)) (fun (_ : PUnit) _ _ => False)
        fun x m' => p.Refuses args m' x :=
      lays_raiseError hm fun m' => .count fun hcount => absurd hcount.enough (Nat.not_le.2 hlt)
    exact (hraised.bind (k := 0) fun _ _ _ _ h => h.elim).grow (by omega)
  · rename_i hlt
    have henough := Nat.not_lt.1 hlt
    have hothers : (p.others args).length ≤ args.length := by
      simp only [Params.others, List.length_drop]
      omega
    refine Lays.grow (n := 0 + (0 + ((p.others args).length + (p.keys.length + 2))))
      ((lays_pushRequired henough hm hroom).bind ?_) (by omega)
    rintro _ _ m₁ hm₁ ⟨rfl, rfl, hroom₁⟩
    refine (lays_pushOptional hm₁.order hroom₁).bind ?_
    rintro _ _ m₂ hm₂ ⟨rfl, rfl, hroom₂⟩
    have hend (m₃ : Machine) (hm₃ : m₂.Enlarged (p.others args).length m₃) (hroom₃ : m₃.HasRoom th p.keys.length) :=
      have hlarger := (hm₁.toEnlarged.trans hm₂.toEnlarged).trans hm₃
      lays_others hm₃.order (fun h hh => (hargs h (List.mem_of_mem_drop (List.mem_of_mem_drop hh))).enlarged hlarger)
        (fun k hk => (hkeys k hk).enlarged hlarger) hroom₃ henough
    refine (lays_rest text (p.others args) hm₂.order hroom₂ hend).imp ?_
    rintro _ _ m' - ⟨rest, keys, rfl, hrest, haccepts, hfilled⟩
    exact ⟨haccepts, ⟨_, _, rest, keys⟩, ⟨rfl, rfl, hrest, hfilled⟩, by simp [Sections.values]⟩

/-- a call on arguments that are not taken fails with the error for them and leaves the stack as it was -/
theorem ends_call_refused (ev : Evaluator) (f : Function) (hm : m.heap.InOrder) (hargs : ∀ h, .symbol h ∈ args → m.Known h)
    (hkeys : ∀ k ∈ f.params.keys, m.Known k) (hroom : m.HasRoom th f.params.size) (hno : ¬ f.params.Accepts args) :
    (call ev th f args).Ends m (fun _ _ => False) fun e m' =>
      (∃ o, e = .raised (.object o) ∧ f.params.Refuses args m' (m'.errorObject o) ∧
        (m'.thread th).stack = (m.thread th).stack) ∨
      e = .fault .exhausted ∧ m.heap.Lacks (args.length + f.params.keys.length + 2) := by
  unfold call
  refine Ends.bind (P := fun base m' => base = (m.thread th).stack.size ∧ m' = m) ⟨rfl, rfl⟩ ?_
  rintro _ _ ⟨rfl, rfl⟩
  refine (lays_pushArgs f.isSpecial hm hargs hkeys hroom).attempting ?_ ?_ ?_
  · rintro _ _ ⟨_, -, haccepts, -⟩
    exact absurd haccepts hno
  · rintro c m' (⟨o, vs, hc, hlaid, hrefused⟩ | ⟨hc, -⟩)
    · obtain rfl := Failure.raised.inj hc
      obtain ⟨m'', hrun, hheap, hsymbols, hstack⟩ := run_dropAbove_laid hlaid hroom
      unfold Ends
      rw [bind_ok hrun]
      refine .inl ⟨o, rfl, ?_, hstack⟩
      have hsame : m''.errorObject o = m'.errorObject o := by rw [Machine.errorObject, hheap, Machine.errorObject]
      rw [hsame]
      exact hrefused.of_symbols hsymbols
    · cases hc
  · rintro e m' hraised (⟨o, -, rfl, -⟩ | h)
    · exact absurd rfl (hraised _)
    · exact .inr h

end Frame

/-! ## What has been laid -/

theorem run_withErrorObjects_ok {m' : Machine} {x : Act α} {a : α} (hx : x.run m = .ok a m') :
    (withErrorObjects th x).run m = .ok a m' :=
  bind_ok (run_attempt_ok hx)

/-- what has been laid on the stack is there to be read -/
theorem run_frameValues_laid {m' : Machine} {vs : List Value} (hm : m.Stacked th n vs m')
    (hwhole : (m.thread th).stack.beyond = 0) :
    (frameValues th (m.thread th).stack.size vs.length).run m' = .ok vs m' := by
  have hvalues : (List.range vs.length).map (fun i => (m'.thread th).stack.get ((m.thread th).stack.size + i)) = vs := by
    refine List.ext_getElem (by simp) fun i hi hi' => ?_
    simp [hm.stack, Stack.lay, Stack.get, Stack.size, hwhole, hi']
  exact congrArg (EStateM.Result.ok · m') hvalues

/-! ## Parameters that have been parsed -/

/-- only a symbol is taken for one -/
theorem ends_asSymbol (v : Value) : (asSymbol v).Ends m
    (fun r m' => m' = m ∧ ∀ h, r = some h → v = .symbol h ∧ ∃ name, m.cell? h = some (.symbol name)) fun _ _ => True := by
  unfold asSymbol
  split
  · rename_i h
    unfold resolve Ends
    simp only [Value.handle?, run_bind, run_get]
    cases hs : m.heap.slot? h with
    | none => trivial
    | some slot =>
      obtain ⟨c, _, _, _⟩ := slot
      cases c with
      | symbol name =>
        refine ⟨rfl, ?_⟩
        rintro _ ⟨⟩
        exact ⟨rfl, name, Heap.cell?_of_slot? hs⟩
      | _ => exact ⟨rfl, by simp⟩
  · exact ⟨rfl, by simp⟩

/-- the keys of a parameter list are symbols -/
theorem ends_parseItems (list : Value) {items : List Value} {p : Params} {s : Section}
    (hp : ∀ k ∈ p.keys, ∃ name, m.cell? k = some (.symbol name)) : (parseItems list items p s).Ends m
      (fun p' m' => ∀ k ∈ p'.keys, ∃ name, m'.cell? k = some (.symbol name)) fun _ _ => True := by
  induction items generalizing p s with
  | nil => exact hp
  | cons item items ih =>
    unfold parseItems
    refine (ends_asSymbol item).bind ?_
    rintro r _ ⟨rfl, hr⟩
    cases r with
    | none => trivial
    | some sym =>
      refine .read ?_
      split
      · rename_i p' s' hstep
        refine ih fun k hk => ?_
        rcases Params.mem_keys_of_step hstep hk with hk | rfl
        · exact hp k hk
        · exact (hr _ rfl).2
      all_goals exact Ends.bind Ends.trivial fun _ _ _ => trivial

theorem ends_parseParams (list : Value) : (parseParams list).Ends m
    (fun p m' => ∀ k ∈ p.keys, ∃ name, m'.cell? k = some (.symbol name)) fun _ _ => True := by
  unfold parseParams
  exact Ends.bind Ends.trivial fun items m' _ => ends_parseItems list nofun

end Act

/-- the parameters have been read from a list some time before -/
def Params.Parsed (p : Params) (m : Machine) : Prop :=
  ∃ list m₀ m₁, m₀.Listed ∧ (Act.parseParams list).run m₀ = .ok p m₁ ∧ m₁.Steps m

namespace Machine

variable {m : Machine} {p : Params}

theorem Listed.known (hm : m.Listed) {h : Handle} (hh : ∃ name, m.cell? h = some (.symbol name)) : m.Known h :=
  have ⟨name, hc⟩ := hh
  ⟨name, hc, hm.listed h name hc⟩

theorem listed_of_parsed (hp : p.Parsed m) : m.Listed ∧ ∀ k ∈ p.keys, m.Known k := by
  obtain ⟨list, m₀, m₁, hm₀, hrun, hlater⟩ := hp
  have hsteps : m₀.Steps m₁ := by
    have h := Act.Walks.steps (x := Act.parseParams list) m₀
    rwa [hrun] at h
  have hm₁ := hsteps.listed hm₀
  have hkept := hlater.keepsSymbols hm₁
  refine ⟨hlater.listed hm₁, fun k hk => (hlater.listed hm₁).known ?_⟩
  obtain ⟨name, hc⟩ := (Act.ends_parseParams list).ok hrun k hk
  exact ⟨name, hkept.named k name hc⟩

/-- **Arguments fill the parameters.** Take parameters that were parsed, and a stack with room for them. Laying arguments on the
stack succeeds exactly if the parameters take them, and then there is one value for each parameter on top of the stack, in the
order of the parameters: the first arguments for the required ones, the next for the optional ones, or unset, the list of the
arguments after those for the rest parameter, and for each key the value after the last occurrence of the key among them, or
unset. Otherwise it fails with the error for the number of arguments or, where that is right, for the leftmost place that is
amiss, and a call of a function with these parameters does so, too, and leaves the stack as it was. Nothing else ends either
but a heap that is full. -/
theorem arguments_fill {th : ThreadId} {args : List Value} (hp : p.Parsed m)
    (hargs : ∀ h, .symbol h ∈ args → ∃ name, m.cell? h = some (.symbol name)) (hroom : m.HasRoom th p.size) :
    (∀ text, (Act.pushArgs th text p args).Ends m
      (fun _ m' => p.Accepts args ∧ ∃ s, p.Fills args m' s ∧ s.values.length = p.size ∧
        m.Stacked th (args.length + p.keys.length + 2) s.values m')
      fun e m' => (∃ o, e = .raised (.object o) ∧ ¬ p.Accepts args ∧ p.Refuses args m' (m'.errorObject o)) ∨
        e = .fault .exhausted ∧ m.heap.Lacks (args.length + p.keys.length + 2)) ∧
    ∀ ev f, f.params = p → ¬ p.Accepts args → (Act.call ev th f args).Ends m (fun _ _ => False) fun e m' =>
      (∃ o, e = .raised (.object o) ∧ p.Refuses args m' (m'.errorObject o) ∧ (m'.thread th).stack = (m.thread th).stack) ∨
        e = .fault .exhausted ∧ m.heap.Lacks (args.length + p.keys.length + 2) := by
  obtain ⟨hlisted, hkeys⟩ := listed_of_parsed hp
  have hknown (h : Handle) (hh : .symbol h ∈ args) : m.Known h := hlisted.known (hargs h hh)
  refine ⟨fun text => ?_, ?_⟩
  · refine Act.Ends.mono (Act.lays_pushArgs text hlisted.order hknown hkeys hroom) ?_ ?_
    · rintro _ m' ⟨_, hlaid, haccepts, s, hs, rfl⟩
      exact ⟨haccepts, s, hs, hs.length haccepts, hlaid⟩
    · rintro e m' (⟨o, vs, rfl, -, hrefused⟩ | h)
      · exact .inl ⟨o, rfl, hrefused.not_accepts, hrefused⟩
      · exact .inr h
  · rintro ev f rfl hno
    exact Act.ends_call_refused ev f hlisted.order hknown hkeys hroom hno


/-- make the parameter list `(a &optional b &key k)` and the symbol `:k` on a thread with room for eight values -/
def specimen : Act (Value × Value) := do
  let th ← Act.openThread 8
  let marked ← Act.symbol "&optional"
  let keyed ← Act.symbol "&key"
  let list ← Act.newList th [← Act.symbol "a", marked, ← Act.symbol "b", keyed, ← Act.symbol "k"]
  return (list, ← Act.symbol ":k")

/-- the machine with the list, which has not been parsed yet, and its parameters -/
def prepared : Machine := Outcome.machine (specimen.run initial)

def parameters : Params := { required := [6], optional := [7], keys := [8], source := .cons 13 }

/-- four arguments fill the parameters; of three, the optional parameter takes what looks like a key, and the value of the key
then stands where a key has to -/
theorem arguments_fill_prepared :
    parameters.Parsed prepared ∧ prepared.cell? 14 = some (.symbol ":k") ∧ prepared.HasRoom 0 parameters.size ∧
    (Act.pushArgs 0 false parameters [.int 1, .int 2, .symbol 14, .int 5]).Ends prepared
      (fun _ m' => (m'.thread 0).stack.items = #[.int 1, .int 2, .int 5]) (fun _ _ => False) ∧
    (Act.pushArgs 0 false parameters [.int 1, .symbol 14, .int 5]).Ends prepared (fun _ _ => False) fun e m' =>
      ∃ o s, e = .raised (.object o) ∧ m'.errorObject o = { kind := .type, first := .symbol s, second := .int 5 } := by
  have : Act.Walks specimen := by
    unfold specimen
    infer_instance
  have hsteps : initial.Steps prepared := Act.Walks.steps (x := specimen) initial
  have hparsed : parameters.Parsed prepared :=
    ⟨.cons 13, prepared, prepared, hsteps.listed listed_initial, by rfl, .refl⟩
  have hkey : prepared.cell? 14 = some (.symbol ":k") := by decide
  have hroom : prepared.HasRoom 0 parameters.size := ⟨by decide, by decide, by decide⟩
  have hspare (n : Nat) (hn : n ≤ 7) : ¬ prepared.heap.Lacks n := by
    rintro ⟨limit, hlimit, hlacks⟩
    exact absurd (hlacks.trans_le hn) (by decide)
  refine ⟨hparsed, hkey, hroom, ?_, ?_⟩
  · refine ((arguments_fill hparsed (by simpa using ⟨_, hkey⟩) hroom).1 false).mono ?_ ?_
    · rintro _ m' ⟨-, ⟨required, optional, rest, keys⟩, ⟨rfl, rfl, hrest, hkeys⟩, -, hlaid⟩
      obtain _ | _ := hrest
      obtain _ | ⟨⟨key, given, ⟨name, hname, hnamed⟩, hgives, rfl⟩, _ | _⟩ := hkeys
      have hk : Cell.symbol name = .symbol "k" := Option.some.inj (hname.symm.trans (hlaid.cells 8 _ (by decide)))
      cases hk
      have hcolon : Params.keyName "k" = ":k" := by cbv
      rw [hcolon] at hnamed
      have hsame : key = 14 := Option.some.inj (hnamed.symm.trans (hlaid.symbols ":k" 14 (by decide)))
      subst hsame
      rw [hlaid.stack]
      cases hgives with
      | @last i v hi hv =>
        obtain _ | i := i
        · cases hv
          rfl
        · cases hi
      | absent hno => exact absurd rfl (hno 0)
    · rintro e m' (⟨_, -, hno, -⟩ | ⟨-, hlacks⟩)
      · refine hno ⟨⟨by decide, by decide⟩, fun _ => ⟨by decide, fun i hi => ?_⟩⟩
        obtain rfl : i = 0 := by
          have : 2 * i < 2 := hi
          omega
        exact ⟨14, rfl⟩
      · exact absurd hlacks (hspare _ (by decide))
  · refine ((arguments_fill hparsed (by simpa using ⟨_, hkey⟩) hroom).1 false).mono ?_ ?_
    · rintro _ m' ⟨⟨-, hkeyed⟩, -⟩
      exact absurd (hkeyed (by decide)).even (by decide)
    · rintro e m' (⟨o, rfl, -, hrefused⟩ | ⟨-, hlacks⟩)
      · generalize hx : m'.errorObject o = x at hrefused
        cases hrefused with
        | count hno => exact absurd ⟨by decide, by decide⟩ hno
        | key _ _ hrefused =>
          cases hrefused with
          | @notSymbol i _ s _ hv =>
            obtain _ | i := i
            · cases hv
              exact ⟨o, s, rfl, hx⟩
            · cases hv
          | @unaccompanied i _ _ hh =>
            obtain _ | i := i
            · cases hh
            · cases hh
      · exact absurd hlacks (hspare _ (by decide))

end Machine

end LispMachine
