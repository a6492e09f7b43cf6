/-
Printing with the pairs around as a parameter.

The printer hands on the pairs that are being printed: every list adds its own while it is printed and takes them away at its end.
`Render.run` is told instead which pairs are around a job, and need not hand on anything. Both print the same (`Act.printJob_eq`),
because no list takes away a pair that it did not add: a pair that is already being printed is not started on.
-/
import LispMachine.Machine.Render
import LispMachine.Proofs.Actions

namespace LispMachine

namespace Act

variable {α : Type}

@[ext]
theorem ext {x y : Act α} (h : ∀ m, x.run m = y.run m) : x = y := by
  cases x
  cases y
  congr
  exact funext h

theorem run_map {β : Type} (f : α → β) (x : Act α) (m : Machine) : (f <$> x).run m = match x.run m with
    | .ok a m => .ok (f a) m
    | .error e m => .error e m := rfl

theorem lawful : LawfulMonad Act := LawfulMonad.mk' _
  (fun x => by
    ext m
    rw [run_map]
    cases x.run m <;> rfl)
  (fun _ _ => rfl)
  (fun x f g => by
    ext m
    exact run_bind_assoc m f g)

theorem observe_map {β : Type} (f : α → β) (x : Act α) : observe (f <$> x) = Except.map f <$> observe x := by
  ext m
  rw [run_observe, run_map, run_map, run_observe]
  cases x.run m <;> rfl

end Act

-- only here: elsewhere actions are run, and `simp` keeps their sequences as they are written
local instance : LawfulMonad Act := Act.lawful

namespace Render

/-- print a job after `acc`, under the pairs that are around it -/
def run : Nat → Job → List String → Act (List String)
  | 0, _, _ => Act.fault .endless
  | n + 1, .value around v, acc => do
    match ← start around v with
    | .inl s => return s :: acc
    | .inr job => run n job acc
  | n + 1, .element around opened v, acc => do
    match v with
    | .cons h =>
      match (← get).cell? h with
      | none =>
        Act.note .missed
        Act.fault (.freed h .cons)
      | some (.cons _ _) => run n (.list around opened h) acc
      | some _ => run n (.value around v) acc
    | v => run n (.value around v) acc
  | n + 1, .list around opened h, acc =>
    if opened.contains h then pure ("..." :: acc)
    else run n (.chain around opened h) ("(" :: acc)
  | n + 1, .chain around opened h, acc => do
    match (← get).cell? h with
    | some (.cons a d) =>
      let opened := h :: opened
      let acc ← run n (.element around opened a) acc
      let dotted (_ : Unit) : Act (List String) := do
        return ")" :: (← run n (.element around opened d) (" . " :: acc))
      match d with
      | .nil => return ")" :: acc
      | .cons next =>
        match (← get).cell? next with
        | none =>
          Act.note .missed
          Act.fault (.freed next .cons)
        | some (.cons _ _) =>
          if opened.contains next then return ")" :: " ..." :: acc
          else run n (.chain around opened next) (" " :: acc)
        | some _ => dotted ()
      | _ => dotted ()
    | _ => return acc
  | _ + 1, .parts _ [], acc => return acc
  | n + 1, .parts around (.text s :: ps), acc => run n (.parts around ps) (s :: acc)
  | n + 1, .parts around (.kindName k :: ps), acc => do
    let _ ← Act.intern k.name
    run n (.parts around ps) (k.name :: acc)
  | n + 1, .parts around (.payload v :: ps), acc => do
    match ← Act.observe (run n (.value around v) []) with
    | .ok texts => run n (.parts around ps) (texts ++ acc)
    | .error (.fault .endless) => Act.fault .endless
    | .error (.fault f) => run n (.parts around ps) (unprintable "s" "String" f :: acc)
    | .error e => throw e

/-! ## The pairs that are handed on -/

/-- the pairs that are being printed after a job; those of a chain, the last of which are `chain`, are taken away -/
def Job.left (chain : List Handle) : Job → List Handle
  | .value _ _ | .parts _ _ => []
  | .element _ opened _ | .list _ opened _ => opened
  | .chain _ opened h => opened.filter fun g => !(h :: chain).contains g

def Job.isChain : Job → Bool
  | .chain _ _ _ => true
  | _ => false

/-- what a job has printed, with its pairs taken away -/
def Job.printed (j : Job) (chain : List Handle) (texts : List String) : Printed := { texts, opened := j.left chain }

/-- the pairs being printed, without one that is none of them -/
theorem filter_cons_of_not_mem {opened chain : List Handle} {h : Handle} (hopen : ¬ opened.contains h = true) :
    (opened.filter fun g => !(h :: chain).contains g) = opened.filter fun g => !chain.contains g := by
  refine List.filter_congr fun g hg => ?_
  have hne : g ≠ h := by
    rintro rfl
    exact hopen (List.contains_iff_mem.2 hg)
  simp [hne]

/-- With this fuel what is printed is what `run` prints, and afterwards the pairs being printed are those that were before. A chain has
still to be closed. -/
structure HandsOn (n : Nat) : Prop where
  job : ∀ j chain acc, j.isChain = false → write n j chain acc = j.printed chain <$> run n j acc
  chain : ∀ around opened h chain acc, Printed.close <$> write n (.chain around opened h) chain acc =
    (Job.chain around opened h).printed chain <$> run n (.chain around opened h) acc

/-- closing a chain changes no text -/
theorem HandsOn.texts {n : Nat} (hn : HandsOn n) (j : Job) (chain : List Handle) (acc : List String) :
    Printed.texts <$> write n j chain acc = run n j acc := by
  have hprinted : Printed.texts <$> j.printed chain <$> run n j acc = run n j acc := by
    rw [← comp_map]
    exact id_map _
  cases hj : j.isChain with
  | false => rw [hn.job j chain acc hj, hprinted]
  | true =>
    cases j with
    | chain around opened h =>
      rw [← hn.chain, ← comp_map] at hprinted
      exact hprinted
    | _ => cases hj

section

variable {n : Nat} (ih : HandsOn n)
include ih

theorem write_element (around : List Value) (opened : List Handle) (v : Value) (chain : List Handle) (acc : List String) :
    write (n + 1) (.element around opened v) chain acc =
      (Job.element around opened v).printed chain <$> run (n + 1) (.element around opened v) acc := by
  have hvalue (v' : Value) : (do return { ← write n (.value around v') [] acc with opened } : Act Printed) =
      (Job.element around opened v).printed chain <$> run n (.value around v') acc := by
    simp only [bind_pure_comp]
    rw [ih.job _ _ _ rfl, ← comp_map]
    rfl
  cases v with
  | cons h =>
    simp only [write, run, map_bind]
    refine bind_congr fun m => ?_
    cases m.cell? h with
    | none => rfl
    | some c =>
      cases c with
      | cons _ _ => exact ih.job _ _ _ rfl
      | _ => exact hvalue _
  | _ => exact hvalue _

theorem write_list (around : List Value) (opened : List Handle) (h : Handle) (chain : List Handle) (acc : List String) :
    write (n + 1) (.list around opened h) chain acc =
      (Job.list around opened h).printed chain <$> run (n + 1) (.list around opened h) acc := by
  simp only [write, run]
  by_cases hopen : opened.contains h = true
  · rw [if_pos hopen, if_pos hopen]
    rfl
  · have hprinted : (Job.chain around opened h).printed [] = (Job.list around opened h).printed chain := by
      funext texts
      rw [Job.printed, Job.left, filter_cons_of_not_mem hopen]
      simp [Job.printed, Job.left]
    rw [if_neg hopen, if_neg hopen, bind_pure_comp, ih.chain, hprinted]

theorem write_parts (around : List Value) (ps : List Part) (chain : List Handle) (acc : List String) :
    write (n + 1) (.parts around ps) chain acc = (Job.parts around ps).printed chain <$> run (n + 1) (.parts around ps) acc := by
  cases ps with
  | nil => rfl
  | cons part ps =>
    cases part with
    | text s => exact ih.job _ _ _ rfl
    | kindName k =>
      simp only [write, run, map_bind]
      exact bind_congr fun _ => ih.job _ _ _ rfl
    | payload v =>
      simp only [write, run, map_bind]
      rw [← ih.texts _ [], Act.observe_map, bind_map_left]
      refine bind_congr fun r => ?_
      cases r with
      | ok p => exact ih.job _ _ _ rfl
      | error e =>
        cases e with
        | fault f =>
          cases f with
          | endless => rfl
          | _ => exact ih.job _ _ _ rfl
        | _ => rfl

/-- a chain takes away what it has added, with all that was there before it -/
theorem close_write_chain (around : List Value) (opened : List Handle) (h : Handle) (chain : List Handle) (acc : List String) :
    Printed.close <$> write (n + 1) (.chain around opened h) chain acc =
      (Job.chain around opened h).printed chain <$> run (n + 1) (.chain around opened h) acc := by
  have hclose (texts : List String) : Printed.close { texts, opened := h :: opened, chain := h :: chain } =
      (Job.chain around opened h).printed chain texts := by
    simp [Printed.close, Job.printed, Job.left]
  simp only [write, run, map_bind]
  refine bind_congr fun m => ?_
  cases m.cell? h with
  | none => rfl
  | some c =>
    cases c with
    | cons a d =>
      simp only [map_bind]
      rw [ih.job _ _ _ rfl, bind_map_left]
      refine bind_congr fun texts => ?_
      have hopened : ((Job.element around (h :: opened) a).printed [] texts).opened = h :: opened := rfl
      have hdotted : Printed.close <$> (do
            let q ← write n (.element around (h :: opened) d) [] (" . " :: texts)
            return { texts := ")" :: q.texts, opened := q.opened, chain := h :: chain } : Act Printed) =
          (Job.chain around opened h).printed chain <$>
            (do return ")" :: (← run n (.element around (h :: opened) d) (" . " :: texts)) : Act (List String)) := by
        simp only [map_bind]
        rw [ih.job _ _ _ rfl, bind_map_left]
        exact bind_congr fun texts => congrArg pure (hclose _)
      cases d with
      | nil => exact congrArg pure (hclose _)
      | cons next =>
        simp only [map_bind]
        refine bind_congr fun m => ?_
        cases m.cell? next with
        | none => rfl
        | some c =>
          cases c with
          | cons _ _ =>
            rw [hopened]
            by_cases hopen : (h :: opened).contains next = true
            · rw [if_pos hopen, if_pos hopen]
              exact congrArg pure (hclose _)
            · have hprinted : (Job.chain around (h :: opened) next).printed (h :: chain) =
                  (Job.chain around opened h).printed chain := by
                funext texts
                rw [Job.printed, Job.left, filter_cons_of_not_mem hopen]
                simp [Job.printed, Job.left]
              rw [if_neg hopen, if_neg hopen, ih.chain, hprinted]
              rfl
          | _ => exact hdotted
      | _ => exact hdotted
    | _ => rfl

end

theorem handsOn (n : Nat) : HandsOn n := by
  induction n with
  | zero => exact ⟨fun _ _ _ _ => by rw [write, run]; rfl, fun _ _ _ _ _ => by rw [write, run]; rfl⟩
  | succ n ih =>
    refine ⟨fun j chain acc hj => ?_, close_write_chain ih⟩
    cases j with
    | chain around opened h => cases hj
    | value around v =>
      simp only [write, run, map_bind]
      refine bind_congr fun r => ?_
      cases r with
      | inl s => rfl
      | inr job =>
        simp only [bind_pure_comp]
        rw [← ih.texts job [] acc, ← comp_map]
        rfl
    | element around opened v => exact write_element ih around opened v chain acc
    | list around opened h => exact write_list ih around opened h chain acc
    | parts around ps => exact write_parts ih around ps chain acc

end Render

/-- Printing comes to the same if a job is told the pairs around it. -/
theorem Act.printJob_eq (j : Render.Job) : printJob j = (do
    let texts ← Render.run Render.fuel j []
    return String.join texts.reverse) := by
  rw [printJob, ← (Render.handsOn _).texts j [] [], bind_map_left]

end LispMachine
