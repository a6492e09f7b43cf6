/-
References between objects, written down edge by edge.

A value names an object, or refers to a field of one, and says of which kind the object is. What an object refers to are
its name, its parts, and what its values name. In a typed table, where everything referred to is there and of the kind it is
said to be, marking follows exactly these references.
-/
import LispMachine.Proofs.Marking

namespace LispMachine

/-! ## References -/

/-- a value names an object of some kind, or refers to a field of one -/
inductive Value.Names : Value → Handle → Kind → Prop where
  | cons (h : Handle) : Names (.cons h) h .cons
  | symbol (h : Handle) : Names (.symbol h) h .symbol
  | scope (h : Handle) : Names (.scope h) h .scope
  | function (h : Handle) : Names (.function h) h .function
  | error (h : Handle) (mood : Mood) : Names (.error h mood) h .error
  | box (h : Handle) : Names (.box h) h .box
  | boxField (h : Handle) : Names (.ref (.box h)) h .box
  | carField (h : Handle) : Names (.ref (.car h)) h .cons
  | cdrField (h : Handle) : Names (.ref (.cdr h)) h .cons

/-- an object refers to an object of some kind -/
inductive Cell.Names : Cell → Handle → Kind → Prop where
  | car {a d : Value} {t : Handle} {k : Kind} : a.Names t k → Names (.cons a d) t k
  | cdr {a d : Value} {t : Handle} {k : Kind} : d.Names t k → Names (.cons a d) t k
  | content {v : Value} {t : Handle} {k : Kind} : v.Names t k → Names (.box v) t k
  | scopeName {s : Scope} {t : Handle} : s.name = some t → Names (.scope s) t .symbol
  | parent {s : Scope} {t : Handle} : s.parent = .scope t → Names (.scope s) t .scope
  | bound {s : Scope} {t : Handle} {r : Value} : (t, r) ∈ s.table → Names (.scope s) t .symbol
  | binding {s : Scope} {sym t : Handle} {r : Value} {k : Kind} :
      (sym, r) ∈ s.table → r.Names t k → Names (.scope s) t k
  | functionName {f : Function} {t : Handle} : f.name = some t → Names (.function f) t .symbol
  | params {f : Function} {t : Handle} {k : Kind} : f.params.source.Names t k → Names (.function f) t k
  | body {f : Function} {list : Value} {outer : Outer} {t : Handle} {k : Kind} :
      f.body = .forms list outer → list.Names t k → Names (.function f) t k
  | captured {f : Function} {list : Value} {t : Handle} :
      f.body = .forms list (.scope t) → Names (.function f) t .scope
  | errorName {e : ErrorObject} {t : Handle} : e.name = some t → Names (.error e) t .symbol
  | first {e : ErrorObject} {t : Handle} {k : Kind} : e.first.Names t k → Names (.error e) t k
  | second {e : ErrorObject} {t : Handle} {k : Kind} : e.second.Names t k → Names (.error e) t k

def Cell.kind : Cell → Kind
  | .cons _ _ => .cons
  | .symbol _ => .symbol
  | .scope _ => .scope
  | .function _ => .function
  | .error _ => .error
  | .box _ => .box

/-- the kind of the object with a handle -/
def Heap.kind? (hp : Heap) (h : Handle) : Option Kind := (hp.cell? h).map Cell.kind

/-- every object refers to objects that are there, of the kind it says -/
def Heap.Typed (hp : Heap) : Prop := ∀ h c t k, hp.cell? h = some c → c.Names t k → hp.kind? t = some k

theorem Value.target?_eq_some {v : Value} {t : Handle} : v.target? = some t ↔ ∃ k, v.Names t k := by
  constructor
  · intro h
    cases v with
    | ref p =>
      cases p with
      | stack id i => cases h
      | box _ => cases h; exact ⟨_, .boxField _⟩
      | car _ => cases h; exact ⟨_, .carField _⟩
      | cdr _ => cases h; exact ⟨_, .cdrField _⟩
    | cons _ => cases h; exact ⟨_, .cons _⟩
    | symbol _ => cases h; exact ⟨_, .symbol _⟩
    | scope _ => cases h; exact ⟨_, .scope _⟩
    | function _ => cases h; exact ⟨_, .function _⟩
    | error _ mood => cases h; exact ⟨_, .error _ mood⟩
    | box _ => cases h; exact ⟨_, .box _⟩
    | _ => cases h
  · rintro ⟨k, hk⟩
    cases hk <;> rfl

theorem Value.Names.unique {v : Value} {t t' : Handle} {k k' : Kind} (h : v.Names t k) (h' : v.Names t' k') :
    t = t' ∧ k = k' := by
  cases h <;> cases h' <;> exact ⟨rfl, rfl⟩

theorem Outer.handle?_eq_some {o : Outer} {t : Handle} : o.handle? = some t ↔ o = .scope t := by
  cases o <;> simp [handle?]

namespace Heap

variable {hp : Heap}

theorem kind?_eq_some {h : Handle} {k : Kind} : hp.kind? h = some k ↔ ∃ c, hp.cell? h = some c ∧ c.kind = k := by
  simp [kind?]

theorem isSome_of_kind? {h : Handle} {k : Kind} (hk : hp.kind? h = some k) : (hp.slot? h).isSome := by
  obtain ⟨c, hc, -⟩ := kind?_eq_some.1 hk
  obtain ⟨s, hs, -⟩ := cell?_eq_some.1 hc
  simp [hs]

theorem holdsCons_of_kind? {h : Handle} (hk : hp.kind? h = some .cons) : hp.holdsCons h := by
  obtain ⟨c, hc, hcons⟩ := kind?_eq_some.1 hk
  cases c <;> simp_all [holdsCons, Cell.kind]

/-- the rest of a pair keeps what it names alive: in a typed table a rest that names a pair names a pair -/
theorem restTarget?_eq {d : Value} (hd : ∀ t k, d.Names t k → hp.kind? t = some k) : hp.restTarget? d = d.target? := by
  cases d with
  | cons h => simp [restTarget?, holdsCons_of_kind? (hd h .cons (.cons h)), Value.target?, Value.handle?]
  | _ => rfl

/-- marking follows exactly the references of an object -/
theorem mem_children (ht : hp.Typed) {h : Handle} {c : Cell} (hc : hp.cell? h = some c) {t : Handle} :
    t ∈ hp.children c ↔ ∃ k, c.Names t k := by
  cases c with
  | cons a d =>
    have hd : hp.restTarget? d = d.target? := restTarget?_eq fun t k hk => ht h _ t k hc (.cdr hk)
    simp only [children, hd, List.mem_append, Option.mem_toList, Value.target?_eq_some]
    constructor
    · rintro (⟨k, hk⟩ | ⟨k, hk⟩)
      · exact ⟨k, .car hk⟩
      · exact ⟨k, .cdr hk⟩
    · rintro ⟨k, ⟨hk⟩ | ⟨hk⟩⟩
      · exact .inl ⟨k, ‹_›⟩
      · exact .inr ⟨k, ‹_›⟩
  | symbol name =>
    simp only [children, List.not_mem_nil, false_iff]
    rintro ⟨k, hk⟩
    cases hk
  | scope s =>
    simp only [children, List.mem_append, Option.mem_toList, Outer.handle?_eq_some, List.mem_flatMap, Prod.exists,
      List.mem_cons, Value.target?_eq_some]
    constructor
    · rintro ((hn | hp) | ⟨sym, r, hr, rfl | ⟨k, hk⟩⟩)
      · exact ⟨_, .scopeName hn⟩
      · exact ⟨_, .parent hp⟩
      · exact ⟨_, .bound hr⟩
      · exact ⟨k, .binding hr hk⟩
    · rintro ⟨k, hk⟩
      cases hk with
      | scopeName hn => exact .inl (.inl hn)
      | parent hp => exact .inl (.inr hp)
      | bound hr => exact .inr ⟨_, _, hr, .inl rfl⟩
      | binding hr hk => exact .inr ⟨_, _, hr, .inr ⟨k, hk⟩⟩
  | function f =>
    obtain ⟨name, params, body⟩ := f
    cases body with
    | forms list outer =>
      simp only [children, List.mem_append, Option.mem_toList, Outer.handle?_eq_some, Value.target?_eq_some]
      constructor
      · rintro ((hn | ⟨k, hk⟩) | ⟨k, hk⟩ | ho)
        · exact ⟨_, .functionName hn⟩
        · exact ⟨k, .params hk⟩
        · exact ⟨k, .body rfl hk⟩
        · exact ⟨_, @Cell.Names.captured _ list _ (by rw [ho])⟩
      · rintro ⟨k, hk⟩
        cases hk with
        | functionName hn => exact .inl (.inl hn)
        | params hk => exact .inl (.inr ⟨k, hk⟩)
        | body hb hk => cases hb; exact .inr (.inl ⟨k, hk⟩)
        | captured hb => cases hb; exact .inr (.inr rfl)
    | primitive p special =>
      simp only [children, List.mem_append, Option.mem_toList, Value.target?_eq_some, List.not_mem_nil, or_false]
      constructor
      · rintro (hn | ⟨k, hk⟩)
        · exact ⟨_, .functionName hn⟩
        · exact ⟨k, .params hk⟩
      · rintro ⟨k, hk⟩
        cases hk with
        | functionName hn => exact .inl hn
        | params hk => exact .inr ⟨k, hk⟩
        | body hb hk => cases hb
        | captured hb => cases hb
  | error e =>
    simp only [children, List.mem_append, Option.mem_toList, Value.target?_eq_some]
    constructor
    · rintro ((hn | ⟨k, hk⟩) | ⟨k, hk⟩)
      · exact ⟨_, .errorName hn⟩
      · exact ⟨k, .first hk⟩
      · exact ⟨k, .second hk⟩
    · rintro ⟨k, hk⟩
      cases hk with
      | errorName hn => exact .inl (.inl hn)
      | first hk => exact .inl (.inr ⟨k, hk⟩)
      | second hk => exact .inr ⟨k, hk⟩
  | box v =>
    simp only [children, Option.mem_toList, Value.target?_eq_some]
    constructor
    · rintro ⟨k, hk⟩
      exact ⟨k, .content hk⟩
    · rintro ⟨k, ⟨hk⟩⟩
      exact ⟨k, ‹_›⟩

end Heap

end LispMachine
