/-
Likeness: values and objects of two heaps that stand for each other.

Two heaps may hold the same objects under different handles. Given which handles stand for each other, and for objects of
which kind, values are alike if they are of one variant and their parts are alike; functions, errors and cells likewise. Only
plain values are alike: numbers, immediates and objects. A reference or a box stands for a place, and what stands for what there
depends on how the two machines keep their variables.
-/
import Mathlib.Tactic
import LispMachine.Heap.Table

namespace LispMachine

variable {ρ ρ' : Kind → Handle → Handle → Prop}

/-! ## Values -/

inductive Value.Like (ρ : Kind → Handle → Handle → Prop) : Value → Value → Prop where
  | float (x : Float) : Like ρ (.float x) (.float x)
  | nil : Like ρ .nil .nil
  | t : Like ρ .t .t
  | unset : Like ρ .unset .unset
  | int (n : Int32) : Like ρ (.int n) (.int n)
  | uint (n : UInt32) : Like ρ (.uint n) (.uint n)
  | reserved (sub : UInt16) (val : UInt32) : Like ρ (.reserved sub val) (.reserved sub val)
  | cons {h h' : Handle} : ρ .cons h h' → Like ρ (.cons h) (.cons h')
  | symbol {h h' : Handle} : ρ .symbol h h' → Like ρ (.symbol h) (.symbol h')
  | scope {h h' : Handle} : ρ .scope h h' → Like ρ (.scope h) (.scope h')
  | function {h h' : Handle} : ρ .function h h' → Like ρ (.function h) (.function h')
  | error {h h' : Handle} (mood : Mood) : ρ .error h h' → Like ρ (.error h mood) (.error h' mood)

namespace Value.Like

variable {v v' : Value}

theorem mono (hρ : ∀ k h h', ρ k h h' → ρ' k h h') (hv : v.Like ρ v') : v.Like ρ' v' := by
  cases hv with
  | cons h => exact .cons (hρ _ _ _ h)
  | symbol h => exact .symbol (hρ _ _ _ h)
  | scope h => exact .scope (hρ _ _ _ h)
  | function h => exact .function (hρ _ _ _ h)
  | error mood h => exact .error mood (hρ _ _ _ h)
  | _ => constructor

/-- alike values name handles that stand for each other -/
theorem handle?_eq_some {h : Handle} (hv : v.Like ρ v') (hh : v.handle? = some h) :
    ∃ h', v'.handle? = some h' ∧ ρ v.kind h h' := by
  cases hv <;> cases hh <;> exact ⟨_, rfl, ‹_›⟩

theorem handle?_eq_none (hv : v.Like ρ v') : v.handle? = none ↔ v'.handle? = none := by
  cases hv <;> simp [handle?]

theorem kind_eq (hv : v.Like ρ v') : v.kind = v'.kind := by cases hv <;> rfl

theorem eq_nil (hv : v.Like ρ v') : v = .nil ↔ v' = .nil := by cases hv <;> simp

theorem eq_unset (hv : v.Like ρ v') : v = .unset ↔ v' = .unset := by cases hv <;> simp

theorem truthy_eq (hv : v.Like ρ v') : v.truthy = v'.truthy := by cases hv <;> simp [truthy]

theorem isError_eq (hv : v.Like ρ v') : v.isError = v'.isError := by cases hv <;> rfl

theorem isSignaling_eq (hv : v.Like ρ v') : v.isSignaling = v'.isSignaling := by
  cases hv with
  | error mood _ => cases mood <;> rfl
  | _ => rfl

theorem number?_eq (hv : v.Like ρ v') : v.number? = v'.number? := by cases hv <;> rfl

theorem needsPin_eq (hv : v.Like ρ v') : v.needsPin = v'.needsPin := by cases hv <;> rfl

theorem not_reference (hv : v.Like ρ v') : v.isReference = false := by cases hv <;> rfl

theorem not_reference' (hv : v.Like ρ v') : v'.isReference = false := by cases hv <;> rfl

theorem toSignaling (hv : v.Like ρ v') : v.toSignaling.Like ρ v'.toSignaling := by
  cases hv with
  | error _ h => exact .error .signaling h
  | cons h => exact .cons h
  | symbol h => exact .symbol h
  | scope h => exact .scope h
  | function h => exact .function h
  | _ => constructor

theorem ofBool (b : Bool) : (Value.ofBool b).Like ρ (.ofBool b) := by
  cases b
  · exact .nil
  · exact .t

theorem ofNumber (n : Number) : (Value.ofNumber n).Like ρ (.ofNumber n) := by
  cases n
  · exact .int _
  · exact .float _

end Value.Like

/-! ## Objects -/

inductive Outer.Like (ρ : Kind → Handle → Handle → Prop) : Outer → Outer → Prop where
  | none : Like ρ .none .none
  | scope {h h' : Handle} : ρ .scope h h' → Like ρ (.scope h) (.scope h')

structure Params.Like (ρ : Kind → Handle → Handle → Prop) (p p' : Params) : Prop where
  required : List.Forall₂ (ρ .symbol) p.required p'.required
  optional : List.Forall₂ (ρ .symbol) p.optional p'.optional
  rest : Option.Rel (ρ .symbol) p.rest p'.rest
  keys : List.Forall₂ (ρ .symbol) p.keys p'.keys
  source : p.source.Like ρ p'.source

inductive Body.Like (ρ : Kind → Handle → Handle → Prop) : Body → Body → Prop where
  | forms {list list' : Value} {outer outer' : Outer} :
      list.Like ρ list' → outer.Like ρ outer' → Like ρ (.forms list outer) (.forms list' outer')
  | primitive (p : Primitive) (special : Bool) : Like ρ (.primitive p special) (.primitive p special)

structure Function.Like (ρ : Kind → Handle → Handle → Prop) (f f' : Function) : Prop where
  name : Option.Rel (ρ .symbol) f.name f'.name
  params : f.params.Like ρ f'.params
  body : f.body.Like ρ f'.body

structure ErrorObject.Like (ρ : Kind → Handle → Handle → Prop) (e e' : ErrorObject) : Prop where
  kind : e.kind = e'.kind
  name : Option.Rel (ρ .symbol) e.name e'.name
  first : e.first.Like ρ e'.first
  second : e.second.Like ρ e'.second

/-- Of scopes only the names count here. -/
inductive Cell.Like (ρ : Kind → Handle → Handle → Prop) : Cell → Cell → Prop where
  | cons {a a' d d' : Value} : a.Like ρ a' → d.Like ρ d' → Like ρ (.cons a d) (.cons a' d')
  | symbol (name : String) : Like ρ (.symbol name) (.symbol name)
  | scope {s s' : Scope} : Option.Rel (ρ .symbol) s.name s'.name → Like ρ (.scope s) (.scope s')
  | function {f f' : Function} : f.Like ρ f' → Like ρ (.function f) (.function f')
  | error {e e' : ErrorObject} : e.Like ρ e' → Like ρ (.error e) (.error e')
  | box {v v' : Value} : v.Like ρ v' → Like ρ (.box v) (.box v')

section

variable {r r' : Handle → Handle → Prop} {o o' : Option Handle}

theorem optionRel_mono (hr : ∀ h h', r h h' → r' h h') (ho : Option.Rel r o o') : Option.Rel r' o o' := by
  cases ho with
  | some h => exact .some (hr _ _ h)
  | none => exact .none

theorem optionRel_toList (ho : Option.Rel r o o') : List.Forall₂ r o.toList o'.toList := by
  cases ho with
  | some h => exact .cons h .nil
  | none => exact .nil

end

theorem Outer.Like.mono {o o' : Outer} (hρ : ∀ k h h', ρ k h h' → ρ' k h h') (ho : o.Like ρ o') : o.Like ρ' o' := by
  cases ho with
  | none => exact .none
  | scope h => exact .scope (hρ _ _ _ h)

theorem Params.Like.mono {p p' : Params} (hρ : ∀ k h h', ρ k h h' → ρ' k h h') (hp : p.Like ρ p') : p.Like ρ' p' where
  required := hp.required.imp (hρ _)
  optional := hp.optional.imp (hρ _)
  rest := optionRel_mono (hρ _) hp.rest
  keys := hp.keys.imp (hρ _)
  source := hp.source.mono hρ

theorem Body.Like.mono {b b' : Body} (hρ : ∀ k h h', ρ k h h' → ρ' k h h') (hb : b.Like ρ b') : b.Like ρ' b' := by
  cases hb with
  | forms hl ho => exact .forms (hl.mono hρ) (ho.mono hρ)
  | primitive p special => exact .primitive p special

theorem Function.Like.mono {f f' : Function} (hρ : ∀ k h h', ρ k h h' → ρ' k h h') (hf : f.Like ρ f') : f.Like ρ' f' where
  name := optionRel_mono (hρ _) hf.name
  params := hf.params.mono hρ
  body := hf.body.mono hρ

theorem ErrorObject.Like.mono {e e' : ErrorObject} (hρ : ∀ k h h', ρ k h h' → ρ' k h h') (he : e.Like ρ e') :
    e.Like ρ' e' where
  kind := he.kind
  name := optionRel_mono (hρ _) he.name
  first := he.first.mono hρ
  second := he.second.mono hρ

theorem Cell.Like.mono {c c' : Cell} (hρ : ∀ k h h', ρ k h h' → ρ' k h h') (hc : c.Like ρ c') : c.Like ρ' c' := by
  cases hc with
  | cons ha hd => exact .cons (ha.mono hρ) (hd.mono hρ)
  | symbol name => exact .symbol name
  | scope hn => exact .scope (optionRel_mono (hρ _) hn)
  | function hf => exact .function (hf.mono hρ)
  | error he => exact .error (he.mono hρ)
  | box hv => exact .box (hv.mono hρ)

theorem Params.Like.symbols {p p' : Params} (hp : p.Like ρ p') : List.Forall₂ (ρ .symbol) p.symbols p'.symbols :=
  List.rel_append (List.rel_append (List.rel_append hp.required hp.optional) (optionRel_toList hp.rest)) hp.keys

theorem Params.Like.size_eq {p p' : Params} (hp : p.Like ρ p') : p.size = p'.size := hp.symbols.length_eq

theorem Function.Like.isSpecial_eq {f f' : Function} (hf : f.Like ρ f') : f.isSpecial = f'.isSpecial := by
  obtain ⟨_, _, body⟩ := f
  obtain ⟨_, _, body'⟩ := f'
  have hb : body.Like ρ body' := hf.body
  cases hb <;> rfl

end LispMachine
