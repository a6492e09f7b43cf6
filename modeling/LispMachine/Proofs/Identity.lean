/-
The identity of symbols.

Symbols are compared by their handles, and a handle may be issued again once its object has been released. A run goes by steps
(`Machine.Step`), whatever it is made of: readings, evaluations, generated symbols, errors, allocations that are refused, passes.
At every moment of a run the names that are listed and the symbol objects match one to one (`Steps.listed`), and from one moment
to a later one no symbol leaves the table, changes its name or gives up its handle (`Steps.keepsSymbols`). So symbols
obtained at two moments are the same exactly if they have the same name (`symbol_identity`), and so are their words, into which
every symbol of a table of the usual size fits (`History.fits_symbol`). A symbol that is generated is a new one only if its name
is not listed yet (`Listed.gensym_decides`).
-/
import LispMachine.Proofs.Bookkeeping
import LispMachine.Proofs.Interning
import LispMachine.Proofs.Words

namespace LispMachine

namespace Heap

variable {hp : Heap} {h : Handle}

/-- the object that has a handle at one moment is the object that has it at another -/
def SameObject (hp hp' : Heap) (h : Handle) : Prop := (hp'.slot? h).map Slot.serial = (hp.slot? h).map Slot.serial

theorem sameObject_insert (ho : hp.InOrder) (hthere : (hp.slot? h).isSome) (c : Cell) (epoch : Nat) (text : Bool) :
    hp.SameObject (hp.insert c epoch text) h := by
  have hne : h ≠ hp.nextHandle := by
    rintro rfl
    rw [ho.slot?_nextHandle] at hthere
    cases hthere
  unfold SameObject
  rw [ho.slot?_insert, if_neg hne]

theorem sameObject_pass (hthere : (hp.slot? h).isSome) {epoch : Nat} {work : List Handle} (hwork : h ∈ work) :
    hp.SameObject ((hp.mark epoch work).sweep epoch).1 h := by
  have hmark : hp.SameBooks (hp.mark epoch work) := .of_restamped (mark_restamped hp work)
  rw [← hmark.isSome] at hthere
  obtain ⟨s, hs⟩ := Option.isSome_iff_exists.1 hthere
  have hkept := not_mem_doomed hwork hs
  unfold SameObject
  rw [(SameBooks.sweep _ epoch).serials, slot?_swept, if_neg hkept, hmark.serials]

end Heap

namespace Machine

variable {m m' m'' : Machine} {h : Handle} {name : String}

/-- the names that are listed and the symbol objects match one to one -/
structure Listed (m : Machine) : Prop extends m.Interned where
  listed : ∀ h name, m.cell? h = some (.symbol name) → m.symbols.lookup name = some h

/-- every symbol of a machine is there later, under the same handle and the same name -/
structure KeepsSymbols (m m' : Machine) : Prop where
  listed : ∀ name h, m.symbols.lookup name = some h → m'.symbols.lookup name = some h
  named : ∀ h name, m.cell? h = some (.symbol name) → m'.cell? h = some (.symbol name)
  object : ∀ h name, m.cell? h = some (.symbol name) → m.heap.SameObject m'.heap h

theorem Listed.lookup_iff (hm : m.Listed) : m.symbols.lookup name = some h ↔ m.cell? h = some (.symbol name) :=
  ⟨hm.toInterned.of_lookup, hm.listed h name⟩

/-- a symbol is in the list that marking starts from -/
theorem Listed.mem_markingStart (hm : m.Listed) (hc : m.cell? h = some (.symbol name)) : h ∈ m.markingStart := by
  obtain ⟨before, after, heq, -⟩ := List.lookup_eq_some_iff.1 (hm.listed h name hc)
  refine List.mem_append_left _ (List.mem_map.2 ⟨(name, h), ?_, rfl⟩)
  simp [heq]

theorem listed_initial : initial.Listed where
  toInterned := interned_initial
  listed h name hc := by
    rcases h with _ | _ | h
    · cases hc
    · cases hc
    · cases (show (none : Option Cell) = some (.symbol name) from hc)

/-- a new name does not hide one that is listed -/
theorem lookup_listed {symbols : List (String × Handle)} {new : String} (hnew : symbols.lookup new = none)
    (hs : symbols.lookup name = some h) (t : Handle) : ((new, t) :: symbols).lookup name = some h := by
  have hne : ¬ name = new := by
    rintro rfl
    rw [hnew] at hs
    cases hs
  rw [List.lookup_cons, beq_false_of_ne hne]
  exact hs

/-! ## One step -/

/-- what has not become a symbol was one -/
theorem Listed.of_cells (hm : m.Listed) (hinterned : m'.Interned) (hsymbols : m'.symbols = m.symbols)
    (hcells : ∀ h name, m'.cell? h = some (.symbol name) → m.cell? h = some (.symbol name)) : m'.Listed where
  toInterned := hinterned
  listed h name hc := hsymbols ▸ hm.listed h name (hcells h name hc)

theorem cell?_allocated (ho : m.heap.InOrder) {c : Cell} {text : Bool} {epoch : Nat}
    (hc : (m.heap.insert c epoch text).cell? h = some (.symbol name)) :
    h = m.heap.nextHandle ∧ c = .symbol name ∨ h ≠ m.heap.nextHandle ∧ m.cell? h = some (.symbol name) := by
  by_cases heq : h = m.heap.nextHandle
  · subst heq
    rw [Heap.cell?_insert_nextHandle ho] at hc
    exact .inl ⟨rfl, Option.some.inj hc⟩
  · obtain ⟨s, hs, hcell⟩ := Heap.cell?_eq_some.1 hc
    rw [ho.slot?_insert, if_neg heq] at hs
    exact .inr ⟨heq, Heap.cell?_eq_some.2 ⟨s, hs, hcell⟩⟩

/-- no object becomes a symbol by being written to -/
theorem cell?_written {t : Handle} {old new : Cell} (hkind : new.kind = old.kind)
    (hopen : old.kind = .cons ∨ old.kind = .box ∨ old.kind = .scope)
    (hc : (m.heap.write t new).cell? h = some (.symbol name)) : h ≠ t ∧ m.cell? h = some (.symbol name) := by
  obtain ⟨s, hs, hcell⟩ := Heap.cell?_eq_some.1 hc
  rw [Heap.slot?_write] at hs
  split at hs
  · obtain ⟨s₀, -, rfl⟩ := Option.map_eq_some_iff.1 hs
    obtain rfl : new = .symbol name := hcell
    rw [← hkind] at hopen
    simp [Cell.kind] at hopen
  · exact ⟨‹_›, Heap.cell?_eq_some.2 ⟨s, hs, hcell⟩⟩

/-- no step makes a symbol but under its name -/
theorem Step.listed (hstep : m.Step m') (hm : m.Listed) : m'.Listed := by
  have hinterned := hstep.interned hm.toInterned
  cases hstep with
  | beside hheap hsymbols _ => exact hm.of_cells hinterned hsymbols fun h name hc => by rwa [cell?, hheap] at hc
  | allocate c text hkind _ =>
    refine hm.of_cells hinterned rfl fun h name hc => ?_
    rcases cell?_allocated hm.order hc with ⟨-, rfl⟩ | ⟨-, hc⟩
    · simp [Cell.kind] at hkind
    · exact hc
  | intern new hnew _ =>
    refine ⟨hinterned, fun h name hc => ?_⟩
    rcases cell?_allocated hm.order hc with ⟨rfl, hsame⟩ | ⟨-, hc⟩
    · cases hsame
      exact List.lookup_cons_self
    · exact lookup_listed hnew (hm.listed h name hc) _
  | write new _ hkind hopen => exact hm.of_cells hinterned rfl fun h name hc => (cell?_written hkind hopen hc).2
  | mark work =>
    refine hm.of_cells hinterned rfl fun h name hc => ?_
    exact (congrFun (Heap.mark_restamped ..).cell? h).symm.trans hc
  | pass =>
    refine hm.of_cells hinterned rfl fun h name hc => ?_
    obtain ⟨c, hc, hsame⟩ := Heap.cell?_sweep hc
    rw [(Heap.mark_restamped ..).cell?] at hc
    -- letting go of a scope makes no symbol of an object
    rcases hsame with rfl | hsame
    · exact hc
    · exact Cell.eq_of_releaseOuter hsame.symm rfl ▸ hc
  | restrict n => exact hm.of_cells hinterned rfl fun _ _ hc => hc
  | relax q => exact hm.of_cells hinterned rfl fun _ _ hc => hc

/-- no step takes a symbol out of the table, renames it or moves it -/
theorem Step.keepsSymbols (hstep : m.Step m') (hm : m.Listed) : m.KeepsSymbols m' := by
  -- the table grows only, and what is listed is named
  have hnamed (hlisted : ∀ name h, m.symbols.lookup name = some h → m'.symbols.lookup name = some h) (h : Handle)
      (name : String) (hc : m.cell? h = some (.symbol name)) : m'.cell? h = some (.symbol name) :=
    (hstep.interned hm.toInterned).of_lookup (hlisted name h (hm.listed h name hc))
  have hthere {h : Handle} {name : String} (hc : m.cell? h = some (.symbol name)) : (m.heap.slot? h).isSome := by
    obtain ⟨s, hs, -⟩ := Heap.cell?_eq_some.1 hc
    simp [hs]
  cases hstep with
  | beside hheap hsymbols _ =>
    have hlisted (name h) (hs : m.symbols.lookup name = some h) : m'.symbols.lookup name = some h := hsymbols ▸ hs
    exact ⟨hlisted, hnamed hlisted, fun h name _ => by unfold Heap.SameObject; rw [hheap]⟩
  | allocate c text _ _ =>
    exact ⟨fun _ _ h => h, hnamed fun _ _ h => h, fun h name hc => Heap.sameObject_insert hm.order (hthere hc) ..⟩
  | intern new hnew _ =>
    have hlisted (name h) (hs : m.symbols.lookup name = some h) := lookup_listed hnew hs m.heap.nextHandle
    exact ⟨hlisted, hnamed hlisted, fun h name hc => Heap.sameObject_insert hm.order (hthere hc) ..⟩
  | write new _ _ _ => exact ⟨fun _ _ h => h, hnamed fun _ _ h => h, fun h _ _ => (Heap.SameBooks.write ..).serials h⟩
  | mark work =>
    exact ⟨fun _ _ h => h, hnamed fun _ _ h => h, fun h _ _ => (Heap.SameBooks.of_restamped (Heap.mark_restamped ..)).serials h⟩
  | pass =>
    exact ⟨fun _ _ h => h, hnamed fun _ _ h => h,
      fun h name hc => Heap.sameObject_pass (hthere hc) (hm.mem_markingStart hc)⟩
  | restrict n => exact ⟨fun _ _ h => h, fun _ _ h => h, fun _ _ _ => rfl⟩
  | relax q => exact ⟨fun _ _ h => h, fun _ _ h => h, fun _ _ _ => rfl⟩

/-! ## Runs -/

theorem KeepsSymbols.refl (m : Machine) : m.KeepsSymbols m := ⟨fun _ _ h => h, fun _ _ h => h, fun _ _ _ => rfl⟩

theorem KeepsSymbols.trans (h₁ : m.KeepsSymbols m') (h₂ : m'.KeepsSymbols m'') : m.KeepsSymbols m'' where
  listed name h hs := h₂.listed name h (h₁.listed name h hs)
  named h name hc := h₂.named h name (h₁.named h name hc)
  object h name hc := (h₂.object h name (h₁.named h name hc)).trans (h₁.object h name hc)

theorem Steps.listed (hsteps : m.Steps m') (hm : m.Listed) : m'.Listed := by
  induction hsteps with
  | refl => exact hm
  | tail _ hstep ih => exact hstep.listed ih

theorem Steps.keepsSymbols (hsteps : m.Steps m') (hm : m.Listed) : m.KeepsSymbols m' := by
  induction hsteps with
  | refl => exact .refl m
  | tail hbefore hstep ih => exact ih.trans (hstep.keepsSymbols (Steps.listed hbefore hm))

/-- a symbol that is kept is the later symbol of the same name -/
theorem KeepsSymbols.same_iff (hkept : m.KeepsSymbols m') (hm : m.Listed) (hm' : m'.Listed) {h' : Handle} {name' : String}
    (hc : m.cell? h = some (.symbol name)) (hc' : m'.cell? h' = some (.symbol name')) : h = h' ↔ name = name' := by
  constructor
  · rintro rfl
    have heq := hkept.named h name hc
    rw [hc'] at heq
    cases heq
    rfl
  · rintro rfl
    have heq := hkept.listed name h (hm.listed h name hc)
    rw [hm'.listed h' name hc'] at heq
    exact (Option.some.inj heq).symm

/-- what comes of asking for the symbol of a name: the symbol, listed under its name, or a refusal that changes neither the
table nor the heap -/
def Named (m : Machine) (name : String) : Outcome Handle → Prop
  | .ok h m' => m'.symbols.lookup name = some h ∧ m'.cell? h = some (.symbol name)
  | .error f m' => f = .fault .exhausted ∧ m.heap.isFull = true ∧ m.symbols.lookup name = none ∧
      m'.symbols = m.symbols ∧ m'.heap = m.heap

theorem Listed.named_intern (hm : m.Listed) (name : String) : m.Named name ((Act.intern name).run m) := by
  cases hs : m.symbols.lookup name with
  | some h =>
    rw [run_intern_known hs]
    exact ⟨hs, hm.of_lookup hs⟩
  | none =>
    rw [run_intern_new hs]
    cases hfull : m.heap.isFull with
    | true => exact ⟨rfl, hfull, hs, rfl, rfl⟩
    | false => exact ⟨List.lookup_cons_self, Heap.cell?_insert_nextHandle hm.order ..⟩

/-- Generating a symbol takes the next name there is a number for, and gives a symbol that was not there before exactly if that
name has not been used: the number alone does not make it so. -/
theorem Listed.gensym_decides (hm : m.Listed) : Act.gensym.Ends m
    (fun h m' => m'.cell? h = some (.symbol s!"GENSYM-{m.gensyms}") ∧
      ((∀ name, m.cell? h ≠ some (.symbol name)) ↔ m.symbols.lookup s!"GENSYM-{m.gensyms}" = none))
    fun f m' => f = .fault .exhausted ∧ m.heap.isFull = true ∧ m'.heap = m.heap := by
  have hnext : { m with gensyms := m.gensyms + 1 }.Listed := ⟨⟨hm.order, hm.named⟩, hm.listed⟩
  have hnamed := hnext.named_intern s!"GENSYM-{m.gensyms}"
  have hrun : Act.gensym.run m = (Act.intern s!"GENSYM-{m.gensyms}").run { m with gensyms := m.gensyms + 1 } := rfl
  unfold Act.Ends
  rw [hrun]
  generalize s!"GENSYM-{m.gensyms}" = name at hnamed ⊢
  cases hr : (Act.intern name).run { m with gensyms := m.gensyms + 1 } with
  | error f m' =>
    rw [hr] at hnamed
    obtain ⟨hf, hfull, -, -, hheap⟩ := hnamed
    exact ⟨hf, hfull, hheap⟩
  | ok h m' =>
    rw [hr] at hnamed
    refine ⟨hnamed.2, fun hnew => ?_, fun hnone name' hc => ?_⟩
    · cases hs : m.symbols.lookup name with
      | none => rfl
      | some h₀ =>
        have hsame := hr.symm.trans (run_intern_known (m := { m with gensyms := m.gensyms + 1 }) hs)
        cases hsame
        exact absurd (hm.of_lookup hs) (hnew name)
    · -- a symbol that was there has kept its name, which is the generated one, and so was listed under it
      have hsteps : { m with gensyms := m.gensyms + 1 }.Steps m' := by
        have h := Act.Walks.steps (x := Act.intern name) { m with gensyms := m.gensyms + 1 }
        rwa [hr] at h
      have hkept := (hsteps.keepsSymbols hnext).named h name' hc
      rw [hnamed.2] at hkept
      cases hkept
      rw [hm.listed h name hc] at hnone
      cases hnone

/-- with a table of the usual size every symbol fits into a word, whatever was allocated, released and written -/
theorem History.fits_symbol {issued : List Handle} (hm : History (some 0x10000000) issued m)
    (hc : m.cell? h = some (.symbol name)) : (Value.symbol h).Fits := by
  have hlimit : ∀ n, some 0x10000000 = some n → 2 ≤ n := by
    rintro _ ⟨⟩
    decide
  obtain ⟨s, hs, -⟩ := Heap.cell?_eq_some.1 hc
  obtain ⟨hpos, hlt⟩ := (hm.booked hlimit).handle_bounds hm.limit_eq (Option.isSome_of_eq_some hs)
  exact .symbol hpos hlt

/-- **Symbols are the same exactly if their names are.** Take a machine at any moment of a run, and the machine at any moment
after that. The table lists exactly the symbol objects, each under its own name. Every symbol is still there later, as the
same object under the same handle and name. A symbol obtained at the first moment and one obtained at the second are the same
value, and the same word, exactly if they have the same name. And asking for the symbol of a name gives that symbol, or
is refused because the heap is full and leaves the table as it was. -/
theorem symbol_identity (hm : initial.Steps m) (hlater : m.Steps m') :
    (∀ name h, m.symbols.lookup name = some h ↔ m.cell? h = some (.symbol name)) ∧
    m.KeepsSymbols m' ∧
    (∀ h name h' name', m.cell? h = some (.symbol name) → m'.cell? h' = some (.symbol name') →
      (Value.symbol h = Value.symbol h' ↔ name = name') ∧
      ((Value.symbol h).Fits → (Value.symbol h').Fits →
        (Word.encode (.symbol h) = Word.encode (.symbol h') ↔ name = name'))) ∧
    ∀ name, m.Named name ((Act.intern name).run m) := by
  have hlisted := Steps.listed hm listed_initial
  have hkept := Steps.keepsSymbols hlater hlisted
  refine ⟨fun name h => hlisted.lookup_iff, hkept, fun h name h' name' hc hc' => ?_, hlisted.named_intern⟩
  have hsame : Value.symbol h = Value.symbol h' ↔ name = name' := by
    rw [Value.symbol.injEq]
    exact hkept.same_iff hlisted (Steps.listed hlater hlisted) hc hc'
  exact ⟨hsame, fun hfits hfits' => (Word.encode_inj hfits hfits').trans hsame⟩

/-- a machine that knows one name, and the machine after another symbol was generated and a pass was taken -/
def acquainted : Machine := Outcome.machine ((Act.intern "x").run initial)

def reacquainted : Machine :=
  Outcome.machine ((do let _ ← Act.gensym; let _ ← Act.collect .explicit : Act Unit).run acquainted)

/-- the objects of both machines were made by allocations and a pass -/
theorem history_acquainted : ∃ issued, History (some 0x10000000) issued acquainted :=
  ⟨_, .intern "x" .start⟩

theorem history_reacquainted : ∃ issued, History (some 0x10000000) issued reacquainted := by
  obtain ⟨_, hm⟩ := history_acquainted
  have hcounted : History (some 0x10000000) _ { acquainted with gensyms := 1 } := hm.change rfl
  have hgenerated : History (some 0x10000000) _ (Outcome.machine (Act.gensym.run acquainted)) := hcounted.intern "GENSYM-0"
  refine ⟨_, .change (hgenerated.collect .explicit) ?_⟩
  have hrun : Act.gensym.run acquainted = .ok 3 (Outcome.machine (Act.gensym.run acquainted)) := rfl
  unfold reacquainted
  rw [Act.bind_ok hrun, Act.run_bind]
  cases (Act.collect .explicit).run (Outcome.machine (Act.gensym.run acquainted)) <;> rfl

theorem symbol_identity_acquainted :
    initial.Steps acquainted ∧ acquainted.Steps reacquainted ∧ acquainted.cell? 2 = some (.symbol "x") ∧
    reacquainted.symbols.lookup "x" = some 2 ∧ acquainted.heap.SameObject reacquainted.heap 2 ∧
    ∀ h, reacquainted.cell? h = some (.symbol "GENSYM-0") →
      Value.symbol 2 ≠ Value.symbol h ∧ Word.encode (.symbol 2) ≠ Word.encode (.symbol h) := by
  have hm : initial.Steps acquainted := Act.Walks.steps (x := Act.intern "x") initial
  have hlater : acquainted.Steps reacquainted := Act.Walks.steps acquainted
  have hcell : acquainted.cell? 2 = some (.symbol "x") := by decide
  obtain ⟨hlisted, hkept, hsame, -⟩ := symbol_identity hm hlater
  refine ⟨hm, hlater, hcell, hkept.listed "x" 2 ((hlisted "x" 2).2 hcell), hkept.object 2 "x" hcell, fun h hh => ?_⟩
  have hname : "x" ≠ "GENSYM-0" := by decide
  obtain ⟨_, hhistory⟩ := history_acquainted
  obtain ⟨_, hhistory'⟩ := history_reacquainted
  obtain ⟨hvalue, hword⟩ := hsame 2 "x" h "GENSYM-0" hcell hh
  exact ⟨fun heq => hname (hvalue.1 heq),
    fun heq => hname ((hword (hhistory.fits_symbol hcell) (hhistory'.fits_symbol hh)).1 heq)⟩

end Machine

end LispMachine
