/-
Promotion keeps every binding.

A scope is made persistent together with all scopes around it, the outermost first. Its bindings move one by one, and the heap may
be full before any of them. That the loops go a way of promotion follows by induction from its steps, on the bindings of a scope
and on the scopes (`Act.ends_promoteBindings`, `Act.ends_promoteWithin`). What is left over after a failure can be promoted later.
-/
import LispMachine.Proofs.Promoting.Step

namespace LispMachine

namespace Machine

variable {m m' m'' : Machine} {hs : List Handle} {g h t sym : Handle} {s : Scope} {r r' v : Value}

/-! ## Chains -/

theorem Chain.unique {ts : List Handle} (hc : m.Chain h hs) (hc' : m.Chain h ts) : hs = ts := by
  induction hc generalizing ts with
  | outermost hcell hnone =>
    cases hc' with
    | outermost => rfl
    | inside hcell' hp =>
      cases Option.some.inj (hcell.symm.trans hcell')
      cases hnone.symm.trans hp
  | inside hcell hp _ ih =>
    cases hc' with
    | outermost hcell' hnone =>
      cases Option.some.inj (hcell.symm.trans hcell')
      cases hp.symm.trans hnone
    | inside hcell' hp' hrest =>
      cases Option.some.inj (hcell.symm.trans hcell')
      cases Option.some.inj (hp.symm.trans hp')
      rw [ih hrest]

theorem Chain.exists_from (hc : m.Chain h hs) (ht : t ∈ hs) : ∃ ts, m.Chain t ts ∧ ts.length ≤ hs.length := by
  induction hc with
  | outermost hcell hnone =>
    obtain rfl := List.mem_singleton.1 ht
    exact ⟨_, .outermost hcell hnone, le_rfl⟩
  | inside hcell hp hrest ih =>
    rcases List.mem_cons.1 ht with rfl | ht
    · exact ⟨_, .inside hcell hp hrest, le_rfl⟩
    · obtain ⟨ts, hts, hle⟩ := ih ht
      exact ⟨ts, hts, hle.trans (Nat.le_succ _)⟩

/-- no scope lies around itself -/
theorem Chain.nodup (hc : m.Chain h hs) : hs.Nodup := by
  induction hc with
  | outermost => exact List.nodup_singleton _
  | @inside h p s hs hcell hp hrest ih =>
    refine List.nodup_cons.2 ⟨fun hmem => ?_, ih⟩
    obtain ⟨ts, hts, hle⟩ := hrest.exists_from hmem
    rw [← (Chain.inside hcell hp hrest).unique hts, List.length_cons] at hle
    exact Nat.not_succ_le_self _ hle

/-- there are no more scopes around a scope than there have been objects -/
theorem Chain.length_le (hc : m.Chain h hs) (hm : m.Promotable hs) : hs.length ≤ m.heap.births := by
  obtain ⟨issued, hbooked⟩ := hm.booked
  have hsub : hs ⊆ issued := fun t ht => by
    obtain ⟨x, hx, -⟩ := Heap.cell?_eq_some.1 (hm.scope_cell ht)
    exact List.mem_of_getElem? (hbooked.home t x hx)
  rw [hbooked.births]
  exact (hc.nodup.subperm hsub).length_le

/-- what lies around a scope stays there -/
theorem Promoting.chain {ts : List Handle} (hp : Promoting hs m m') (hc : m.Chain h ts) (hsub : ts ⊆ hs) : m'.Chain h ts := by
  induction hc with
  | @outermost h s hcell hnone =>
    refine .outermost (hp.promotable.scope_cell (hsub List.mem_cons_self)) ?_
    rw [(hp.rebinds h).parent, scope_of_cell hcell, hnone]
  | @inside h p s ts hcell hparent _ ih =>
    refine .inside (hp.promotable.scope_cell (hsub List.mem_cons_self)) ?_ (ih fun t ht => hsub (List.mem_cons_of_mem _ ht))
    rw [(hp.rebinds h).parent, scope_of_cell hcell, hparent]

/-! ## All bindings and all scopes -/

/-- promotion has stopped because the heap is full, and there is a binding left that has not moved -/
structure Stalled (hs : List Handle) (m : Machine) (e : Failure) (m' : Machine) : Prop where
  failure : e = .fault .exhausted
  promoting : Promoting hs m m'
  full : m'.heap.isFull = true
  left : 0 < m'.stackBacked hs

theorem Stalled.after {e : Failure} (hp : Promoting hs m m') (h : Stalled hs m' e m'') : Stalled hs m e m'' :=
  { h with promoting := hp.trans h.promoting }

theorem stackBacked_pos (hg : g ∈ hs) {id i : Nat} (hmem : (sym, .ref (.stack id i)) ∈ (m.scope g).table) :
    0 < m.stackBacked hs := by
  have hone : 0 < (m.scope g).table.countP (·.2.onStack) := List.countP_pos_iff.2 ⟨_, hmem, rfl⟩
  exact hone.trans_le (List.le_sum_of_mem (List.mem_map_of_mem hg))

/-- an allocation that is refused changes no binding -/
theorem promoting_refusing (hm : m.Promotable hs) : Promoting hs m m.refusing where
  promotable := ⟨hm.booked, hm.scopes, hm.keys, hm.backed, hm.there⟩
  rest := rfl
  rebinds _ := .refl m m.refusing _
  seats := (Promoting.refl hm).seats
  others := (Promoting.refl hm).others
  boxes := (Promoting.refl hm).boxes
  own := (Promoting.refl hm).own
  births := rfl
  room := le_rfl
  limit := rfl

/-- a reference to a box stays what it is -/
theorem Rebinds.mem_box {s' : Scope} (hr : Rebinds m m' s s') {k b : Handle} (hmem : (k, .ref (.box b)) ∈ s.table) :
    (k, .ref (.box b)) ∈ s'.table := by
  obtain ⟨⟨_, r'⟩, he', rfl, hmoves⟩ := forall₂_exists hr.table hmem
  cases hmoves
  exact he'

end Machine

namespace Act

open Machine

variable {m : Machine} {hs : List Handle} {g h sym : Handle}

/-- a binding moves, if there is room for its box -/
theorem ends_moving (hm : m.Promotable hs) (hg : g ∈ hs) {id i : Nat} (hmem : (sym, .ref (.stack id i)) ∈ (m.scope g).table)
    {next : Act Unit} {Q : Unit → Machine → Prop}
    (hnext : m.heap.isFull = false → next.Ends (m.moving g sym (m.load (.stack id i))) Q (Stalled hs m)) :
    (do
      let box ← allocate (.box ((← get).load (.stack id i)))
      onScope g (·.insert sym (.ref (.box box)))
      next).Ends m Q (Stalled hs m) := by
  obtain ⟨issued, hbooked⟩ := hm.booked
  have hrun := run_allocate m (.box (m.load (.stack id i))) false
  refine .read ?_
  cases hfull : m.heap.isFull with
  | true =>
    rw [hfull, if_pos rfl] at hrun
    unfold Ends
    rw [bind_error hrun]
    exact ⟨rfl, promoting_refusing hm, hfull, stackBacked_pos hg hmem⟩
  | false =>
    rw [hfull, if_neg (by simp)] at hrun
    have hcell : (m.inserting (.box (m.load (.stack id i))) false).cell? g = some (.scope (m.scope g)) :=
      Heap.cell?_insert hbooked.toInOrder (hm.scope_cell hg) ..
    have hmoved : (onScope g (·.insert sym (.ref (.box m.heap.nextHandle)))).run
        (m.inserting (.box (m.load (.stack id i))) false) = .ok () (m.moving g sym (m.load (.stack id i))) := by
      rw [onScope, run_modify, hcell]
      rfl
    unfold Ends
    rw [bind_ok hrun, bind_ok hmoved]
    exact hnext hfull

/-- bindings of a scope, in whatever order they are given -/
theorem ends_promoteBindings (hnodup : hs.Nodup) (hg : g ∈ hs) {es : List (Handle × Value)} (hkeys : (es.map Prod.fst).Nodup)
    {m : Machine} (hm : m.Promotable hs) (hes : ∀ e ∈ es, e ∈ (m.scope g).table) : (promoteBindings g es).Ends m
      (fun _ m' => Promoting hs m m' ∧ m'.journal = m.journal ∧ ∀ e ∈ es, ∃ b, (e.1, .ref (.box b)) ∈ (m'.scope g).table)
      (Stalled hs m) := by
  induction es generalizing m with
  | nil => exact ⟨.refl hm, rfl, by simp⟩
  | cons e es ih =>
    obtain ⟨sym, r⟩ := e
    obtain ⟨hmem, hrest⟩ := List.forall_mem_cons.1 hes
    rw [List.map_cons, List.nodup_cons] at hkeys
    rcases hm.backed g hg _ hmem with ⟨b, v, rfl, -⟩ | ⟨-, hslot⟩
    · -- the binding is in a box already
      rw [promoteBindings.eq_def]
      refine (ih hkeys.2 hm hrest).mono ?_ fun _ _ h => h
      rintro _ m' ⟨hp, hjournal, hall⟩
      exact ⟨hp, hjournal, List.forall_mem_cons.2 ⟨⟨b, (hp.rebinds g).mem_box hmem⟩, hall⟩⟩
    · obtain ⟨id, i, rfl⟩ := Value.exists_of_onStack hslot
      rw [promoteBindings.eq_def]
      refine ends_moving hm hg hmem fun hroom => ?_
      have hp := promoting_moving hm hg hnodup hroom hmem
      have hscope := (rescoped_moving hm hg hroom sym (m.load (.stack id i))).scope_eq (hm.scope_cell hg) g
      rw [if_pos rfl] at hscope
      refine (ih hkeys.2 hp.promotable fun e he => ?_).mono ?_ fun _ _ h => h.after hp
      · have hkey : e.1 ∈ es.map Prod.fst := List.mem_map_of_mem he
        have hne : e.1 ≠ sym := fun heq => hkeys.1 (heq ▸ hkey)
        rw [hscope]
        exact Scope.mem_insert_of_ne (hrest e he) hne _
      · rintro _ m' ⟨hp', hjournal, hall⟩
        have hnew : (sym, .ref (.box m.heap.nextHandle)) ∈ ((m.moving g sym (m.load (.stack id i))).scope g).table := by
          rw [hscope]
          exact Scope.mem_insert ..
        exact ⟨hp.trans hp', hjournal, List.forall_mem_cons.2 ⟨⟨m.heap.nextHandle, (hp'.rebinds g).mem_box hnew⟩, hall⟩⟩

/-- a scope is promoted when those around it have been -/
theorem ends_promoteScope (hnodup : hs.Nodup) (hg : g ∈ hs) {m : Machine} (hm : m.Promotable hs) :
    (do
      let s := (← get).scope g
      if s.transient then
        promoteBindings g s.table
        onScope g ({ · with transient := false }) : Act Unit).Ends m
    (fun _ m' => Promoting hs m m' ∧ m'.journal = m.journal ∧ (m'.scope g).transient = false) (Stalled hs m) := by
  refine .read ?_
  dsimp only
  split
  · refine Ends.bind (ends_promoteBindings hnodup hg (hm.keys g hg) hm fun _ he => he) ?_
    rintro _ m' ⟨hp, hjournal, hboxed⟩
    have hall : ∀ e ∈ (m'.scope g).table, e.2.onStack = false := fun e he => by
      obtain ⟨e₀, he₀, hkey, -⟩ := (hp.rebinds g).exists_before he
      obtain ⟨b, hb⟩ := hboxed e₀ he₀
      have hvalue : e.2 = .ref (.box b) := Scope.eq_of_mem (hp.promotable.keys g hg) he (hkey ▸ hb)
      rw [hvalue]
      rfl
    have hdone := promoting_persisting hp.promotable hg hnodup hall
    have hscope := (rescoped_persisting hp.promotable g).scope_eq (hp.promotable.scope_cell hg) g
    rw [if_pos rfl] at hscope
    have hrun : (onScope g ({ · with transient := false })).run m' = .ok () (m'.persisting g) := by
      rw [onScope, run_modify, hp.promotable.scope_cell hg]
      rfl
    unfold Ends
    rw [hrun]
    exact ⟨hp.trans hdone, hjournal, by rw [hscope]⟩
  · rename_i hno
    exact ⟨.refl hm, rfl, by simpa using hno⟩

/-- a scope and those around it, the outermost first -/
theorem ends_promoteWithin (hnodup : hs.Nodup) {ts : List Handle} (hc : m.Chain h ts) (hsub : ts ⊆ hs) (hm : m.Promotable hs)
    {n : Nat} (hn : ts.length ≤ n) : (promoteWithin n h).Ends m
      (fun _ m' => Promoting hs m m' ∧ m'.journal = m.journal ∧ ∀ t ∈ ts, (m'.scope t).transient = false) (Stalled hs m) := by
  induction hc generalizing n with
  | @outermost h s hcell hnone =>
    obtain _ | n := n
    · cases hn
    have hparent : (m.scope h).parent.handle? = none := by rw [scope_of_cell hcell, hnone]
    rw [promoteWithin]
    refine .read ?_
    simp only [hparent]
    refine (ends_promoteScope hnodup (hsub List.mem_cons_self) hm).mono ?_ fun _ _ h => h
    rintro _ m' ⟨hp, hjournal, hdone⟩
    exact ⟨hp, hjournal, by simpa using hdone⟩
  | @inside h p s ts hcell hp hrest ih =>
    obtain _ | n := n
    · cases hn
    have hparent : (m.scope h).parent.handle? = some p := by rw [scope_of_cell hcell, hp]
    rw [promoteWithin]
    refine .read ?_
    simp only [hparent]
    refine (ih (fun t ht => hsub (List.mem_cons_of_mem h ht)) (Nat.le_of_succ_le_succ hn)).bind ?_
    rintro _ m₁ ⟨hp₁, hjournal₁, hdone₁⟩
    refine (ends_promoteScope hnodup (hsub List.mem_cons_self) hp₁.promotable).mono ?_ fun _ _ h => h.after hp₁
    rintro _ m₂ ⟨hp₂, hjournal₂, hdone₂⟩
    refine ⟨hp₁.trans hp₂, hjournal₂.trans hjournal₁, List.forall_mem_cons.2 ⟨hdone₂, fun t ht => ?_⟩⟩
    by_contra hopen
    have hbefore := (hp₂.rebinds t).transient (by simpa using hopen)
    rw [hdone₁ t ht] at hbefore
    cases hbefore

end Act

namespace Machine

variable {m m' : Machine} {hs : List Handle} {t : Handle}

/-! ## What has been promoted -/

/-- what promotion makes of a machine when it comes to its end: no binding is left on the stack, and the scopes that have been
persistent are what they were -/
structure Promoted (hs : List Handle) (m m' : Machine) : Prop extends Promoting hs m m' where
  persistent : ∀ t ∈ hs, (m'.scope t).transient = false
  boxed : ∀ t ∈ hs, ∀ e ∈ (m'.scope t).table, ∃ b, e.2 = .ref (.box b)
  kept : ∀ t ∈ hs, (m.scope t).transient = false → m'.heap.slot? t = m.heap.slot? t
  journal : m'.journal = m.journal
  allocated : m'.heap.births = m.heap.births + m.stackBacked hs

/-- the bindings of a persistent scope are in boxes -/
theorem Promotable.boxed (hm : m.Promotable hs) (ht : t ∈ hs) (hopen : (m.scope t).transient = false) :
    ∀ e ∈ (m.scope t).table, ∃ b, e.2 = .ref (.box b) := by
  intro e he
  rcases hm.backed t ht e he with ⟨b, _, hb, -⟩ | ⟨hno, -⟩
  · exact ⟨b, hb⟩
  · cases hopen.symm.trans hno

/-- a scope of which all bindings have been in boxes binds what it has bound -/
theorem Rebinds.table_eq {s s' : Scope} (hr : Rebinds m m' s s') (hboxed : ∀ e ∈ s.table, ∃ b, e.2 = .ref (.box b)) :
    s'.table = s.table := by
  refine (List.forall₂_eq_eq_eq ▸ ((List.forall₂_and_left _ _).2 ⟨hboxed, hr.table⟩).imp ?_ : s.table = s'.table).symm
  rintro ⟨k, _⟩ ⟨k', r'⟩ ⟨⟨b, rfl⟩, rfl, hmoves⟩
  cases hmoves
  rfl

/-- promotion that has come to all its scopes is complete -/
theorem Promoting.promoted (hp : Promoting hs m m') (hm : m.Promotable hs) (hjournal : m'.journal = m.journal)
    (hall : ∀ t ∈ hs, (m'.scope t).transient = false) : Promoted hs m m' where
  toPromoting := hp
  persistent := hall
  boxed t ht := hp.promotable.boxed ht (hall t ht)
  kept t ht hopen := by
    have hr := hp.rebinds t
    have hsame : m'.scope t = m.scope t := by
      have htable := hr.table_eq (hm.boxed ht hopen)
      have hname := hr.name
      have hparent := hr.parent
      have hopen' := hall t ht
      generalize m.scope t = s, m'.scope t = s' at *
      cases s
      cases s'
      simp_all
    obtain ⟨x, hx, hcell⟩ := Heap.cell?_eq_some.1 (hm.scope_cell ht)
    rw [hp.seats t ht x hx, hx, hsame, ← hcell]
  journal := hjournal
  allocated := by
    have hnone : m'.stackBacked hs = 0 := by
      refine List.sum_eq_zero fun n hn => ?_
      obtain ⟨t, ht, rfl⟩ := List.mem_map.1 hn
      refine List.countP_eq_zero.2 fun e he => ?_
      obtain ⟨b, hb⟩ := hp.promotable.boxed ht (hall t ht) e he
      simp [hb, Value.onStack]
    rw [← hp.births, hnone, Nat.add_zero]

/-- promotion stops only where there is no room for all the boxes -/
theorem Stalled.lacks {e : Failure} (h : Stalled hs m e m') : m.heap.Lacks (m.stackBacked hs) := by
  obtain ⟨limit, hlimit, hroom⟩ := Heap.lacks_of_isFull h.full
  have hbirths := h.promoting.births
  have hmore := h.promoting.room
  have hleft := h.left
  exact ⟨limit, h.promoting.limit ▸ hlimit, by omega⟩

end Machine

namespace Act

open Machine

variable {m : Machine} {hs : List Handle} {h : Handle}

/-- where all scopes are persistent there is nothing to do -/
theorem run_promoteWithin_persistent (hc : m.Chain h hs) (hall : ∀ t ∈ hs, (m.scope t).transient = false) {n : Nat}
    (hn : hs.length ≤ n) : (promoteWithin n h).run m = .ok () m := by
  induction hc generalizing n with
  | @outermost h s hcell hnone =>
    obtain _ | n := n
    · cases hn
    have hparent : (m.scope h).parent.handle? = none := by rw [scope_of_cell hcell, hnone]
    simp [promoteWithin, run_bind, hparent, hall h]
  | @inside h p s ts hcell hp hrest ih =>
    obtain _ | n := n
    · cases hn
    have hparent : (m.scope h).parent.handle? = some p := by rw [scope_of_cell hcell, hp]
    have haround := ih (fun t ht => hall t (List.mem_cons_of_mem h ht)) (Nat.le_of_succ_le_succ hn)
    simp [promoteWithin, run_bind, hparent, haround, hall h]

theorem ends_promote (hm : m.Promotable hs) (hc : m.Chain h hs) :
    (promote h).Ends m (fun _ m' => Promoted hs m m') (Stalled hs m) := by
  refine .read ((ends_promoteWithin hc.nodup hc (List.Subset.refl hs) hm ?_).mono ?_ fun _ _ h => h)
  · exact (hc.length_le hm).trans (Nat.le_succ _)
  · rintro _ m' ⟨hp, hjournal, hall⟩
    exact hp.promoted hm hjournal hall

/-- **Promotion keeps every binding.** Promote a scope, with those around it persistent or transient in any order and their
tables of any size and in any order. If there is room for a box for every binding on the stack, that many boxes are made and
nothing else than these scopes is touched: all of them are persistent, a binding on the stack has become a box of its own with
the same value, and all others are as they were. A look-up from any scope reads what it read, and a second promotion changes
nothing. Otherwise promotion fails between two bindings, and then, too, a look-up reads what it read. Whatever happens to the
machine later, a promotion for which there is room is complete, and a look-up that reads before it what it read at the failure
reads after it what it read at the start. -/
theorem promote_keeps_bindings (hm : m.Promotable hs) (hc : m.Chain h hs) : (promote h).Ends m
    (fun _ m' => Promoted hs m m' ∧ m.LooksAlike m' ∧ (promote h).run m' = .ok () m')
    (fun e m' => e = .fault .exhausted ∧ m.heap.Lacks (m.stackBacked hs) ∧ Promoting hs m m' ∧ m.LooksAlike m' ∧ m'.Chain h hs ∧
      ∀ m₁ : Machine, m₁.Promotable hs → m₁.Chain h hs → ¬ m₁.heap.Lacks (m₁.stackBacked hs) →
        ∃ m₂, (promote h).run m₁ = .ok () m₂ ∧ Promoted hs m₁ m₂ ∧
          ∀ t sym, m₁.seen t sym = m'.seen t sym → m₂.seen t sym = m.seen t sym) := by
  refine (ends_promote hm hc).mono ?_ ?_
  · intro _ m' hp
    have hchain := hp.chain hc (List.Subset.refl hs)
    refine ⟨hp, hp.looksAlike hm, ?_⟩
    exact run_promoteWithin_persistent hchain hp.persistent ((hchain.length_le hp.promotable).trans (Nat.le_succ _))
  · intro e m' hstop
    have hp := hstop.promoting
    have hsame := hp.looksAlike hm
    refine ⟨hstop.failure, hstop.lacks, hp, hsame, hp.chain hc (List.Subset.refl hs), fun m₁ hm₁ hc₁ hspare => ?_⟩
    have hlater := ends_promote hm₁ hc₁
    unfold Ends at hlater
    split at hlater
    · rename_i m₂ hrun
      exact ⟨m₂, hrun, hlater, fun t sym h => ((hlater.looksAlike hm₁ t sym).trans h).trans (hsame t sym)⟩
    · exact absurd hlater.lacks hspare

/-- a persistent scope inside of a transient one, and that inside of another persistent one; there is room for two boxes -/
def nested : Machine :=
  let named := Outcome.machine ((intern "b").run (Outcome.machine ((intern "a").run (initialWithin (some 10)))))
  let boxed := Outcome.machine ((allocate (.box (.int 7))).run named)
  let outer := Outcome.machine ((allocate (.scope { table := [(2, .ref (.box 4))] })).run boxed)
  let frame : Scope := { parent := .scope 5, table := [(2, .ref (.stack 0 1)), (3, .ref (.stack 0 0))], transient := true }
  let middle := Outcome.machine ((allocate (.scope frame)).run outer)
  let inner := Outcome.machine ((allocate (.scope { parent := .scope 6, table := [(3, .ref (.box 4))] })).run middle)
  { inner with stackOwners := #[some 0], threads := #[{ stack := { id := 0, capacity := 2, items := #[.int 1, .t] } }] }

theorem promotable_nested : nested.Promotable [7, 6, 5] where
  booked := by
    have hlimit : ∀ n, some 10 = some n → 2 ≤ n := fun n hn => by cases hn; decide
    have hstart : History (some 10) _ (initialWithin (some 10)) := .start
    have hm : History (some 10) _ nested :=
      .change (.allocate _ _ (.allocate _ _ (.allocate _ _ (.allocate _ _ (.intern _ (.intern _ hstart)))))) rfl
    exact ⟨_, hm.booked hlimit⟩
  scopes := by
    have hcells : ∀ t ∈ [7, 6, 5], nested.cell? t = some (.scope (nested.scope t)) := by decide
    exact fun t ht => ⟨_, hcells t ht⟩
  keys := by decide
  backed := by
    have hbacked : ∀ t ∈ [7, 6, 5], ∀ e ∈ (nested.scope t).table,
        e.2 = .ref (.box 4) ∨ (nested.scope t).transient = true ∧ e.2.onStack = true := by decide
    have hbox : nested.cell? 4 = some (.box (.int 7)) := by decide
    exact fun t ht e he => (hbacked t ht e he).imp_left fun hb => ⟨4, _, hb, hbox⟩
  there := by
    have hthere : ∀ t < 8, ∀ e ∈ (nested.scope t).table, e.2 = .ref (.box 4) ∨ e.2.onStack = true := by decide
    intro t e he p hp
    obtain ⟨x, hx, -⟩ := Heap.cell?_eq_some.1 (cell_of_mem he)
    have hlt : t < 8 := Heap.slot?_lt hx
    rcases hthere t hlt e he with hb | hslot
    · cases hb.symm.trans hp
      decide
    · obtain ⟨id, i, hslot⟩ := Value.exists_of_onStack hslot
      cases hslot.symm.trans hp
      rfl

/-- the transient scope has two bindings on the stack; when they have moved, the inner scope still sees the same -/
theorem promote_keeps_bindings_nested : nested.Promotable [7, 6, 5] ∧ nested.Chain 7 [7, 6, 5] ∧
    (promote 7).Ends nested (fun _ m' => Promoted [7, 6, 5] nested m' ∧ m'.heap.births = nested.heap.births + 2 ∧
      m'.seen 7 2 = some .t ∧ m'.seen 6 3 = some (.int 1)) fun _ _ => False := by
  have hchain : nested.Chain 7 [7, 6, 5] :=
    .inside (s := nested.scope 7) (by decide) rfl
      (.inside (s := nested.scope 6) (by decide) rfl (.outermost (s := nested.scope 5) (by decide) rfl))
  refine ⟨promotable_nested, hchain, (promote_keeps_bindings promotable_nested hchain).mono ?_ ?_⟩
  · rintro _ m' ⟨hp, hsame, -⟩
    have hmoved : nested.stackBacked [7, 6, 5] = 2 := by decide
    have ha : nested.seen 7 2 = some .t := by decide
    have hb : nested.seen 6 3 = some (.int 1) := by decide
    exact ⟨hp, hmoved ▸ hp.allocated, (hsame 7 2).trans ha, (hsame 6 3).trans hb⟩
  · rintro _ _ ⟨-, ⟨limit, -, hlacks⟩, -⟩
    exact absurd hlacks (by decide)

end Act

end LispMachine
