/-
Threads and counts of use: reading them after they have been written.
-/
import Mathlib.Tactic
import LispMachine.Machine.Threads

namespace LispMachine.Machine

variable {m : Machine} {th : ThreadId}

theorem thread_onThread_of_lt (hlt : th < m.threads.size) (f : Thread → Thread) (t : ThreadId) :
    (m.onThread th f).thread t = if t = th then f (m.thread th) else m.thread t := by
  unfold thread onThread
  rw [Array.getElem?_modify]
  by_cases heq : t = th
  · subst heq
    simp [Array.getElem?_eq_getElem hlt]
  · rw [if_neg (Ne.symm heq), if_neg heq]

/-- what a thread that does not exist is changed to is lost -/
theorem onThread_of_le (hle : m.threads.size ≤ th) (f : Thread → Thread) : m.onThread th f = m := by
  have hsame : m.threads.modify th f = m.threads := by
    refine Array.ext_getElem? fun i => ?_
    rw [Array.getElem?_modify]
    split
    · rename_i heq
      subst heq
      rw [Array.getElem?_eq_none hle]
      rfl
    · rfl
  unfold onThread
  rw [hsame]

theorem lt_of_isOpen (ho : (m.thread th).isOpen = true) : th < m.threads.size := by
  by_contra hle
  rw [thread, Array.getElem?_eq_none (Nat.not_lt.1 hle)] at ho
  cases ho

theorem thread_onThread (ho : (m.thread th).isOpen = true) (f : Thread → Thread) (t : ThreadId) :
    (m.onThread th f).thread t = if t = th then f (m.thread th) else m.thread t :=
  thread_onThread_of_lt (lt_of_isOpen ho) f t

/-- an open thread is one of the threads -/
theorem mem_threads {m : Machine} {th : ThreadId} (h : (m.thread th).isOpen = true) : m.thread th ∈ m.threads := by
  unfold thread at *
  cases ht : m.threads[th]? with
  | none => rw [ht] at h; cases h
  | some t => exact Array.mem_of_getElem? ht

theorem thread_of_mem {m : Machine} {t : Thread} (h : t ∈ m.threads) : ∃ th, m.thread th = t := by
  obtain ⟨th, hth⟩ := Array.getElem?_of_mem h
  exact ⟨th, by simp [thread, hth]⟩

theorem useCount_setUses (m : Machine) (h g : Handle) (n : Nat) :
    { m with uses := Act.setUses m.uses h n }.useCount g = if g = h then n else m.useCount g := by
  unfold useCount Act.setUses
  simp only
  split
  · rename_i hlt
    rw [Array.getElem?_setIfInBounds]
    by_cases heq : h = g
    · subst heq; simp [hlt]
    · rw [if_neg heq, if_neg (Ne.symm heq)]
  · rename_i hlt
    rw [Array.getElem?_push]
    have hsize : (m.uses ++ Array.replicate (h - m.uses.size) 0).size = h := by
      rw [Array.size_append, Array.size_replicate]
      exact Nat.add_sub_cancel' (Nat.not_lt.1 hlt)
    rw [hsize]
    by_cases heq : g = h
    · simp [heq]
    · rw [if_neg heq, if_neg heq, Array.getElem?_append]
      split
      · rfl
      · rename_i hge
        rw [Array.getElem?_eq_none (Nat.not_lt.1 hge), Array.getElem?_replicate]
        split <;> rfl

end LispMachine.Machine
