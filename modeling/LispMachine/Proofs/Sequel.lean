/-
A text and its sequel.

A line end is a token's end and a comment's end, so the tokens of a text that ends in one, followed by another text, are the
tokens of the first and then those of the second. What a reading does with tokens that come later it does only when it reaches
the end of the earlier ones: at the end of the text, or inside a form that is cut off there. So the loop over both texts, the
first having no form that is cut off at its end, is the loop over the first and then the loop over the second
(`Act.replLoop_append`): each reading takes what it needs, and a step leaves nothing behind but the machine.

A front end that waits for a sequel asks whether the text is complete. It is not if the first reading that fails is cut off
(`Act.isComplete_decides`); whatever comes after a failure of another kind is not looked at, though the loop would read it.
-/
import LispMachine.Proofs.Data

namespace LispMachine

namespace Source

open Text (Rune isBlank)

/-! ## Tokens of two texts -/

/-- the tokens of a text before a line end do not depend on what comes after it -/
theorem tokens_line (cs ds : List Char) : tokens (cs ++ '\n' :: ds) = tokens cs ++ tokens ds := by
  have hdrop (p : Char → Bool) (hp : p '\n' = false) (cs : List Char) :
      (cs ++ '\n' :: ds).dropWhile p = cs.dropWhile p ++ '\n' :: ds := by
    rw [List.dropWhile_append]
    split
    · rename_i h
      rw [List.isEmpty_iff.1 h]
      simp [hp]
    · rfl
  have htake (p : Char → Bool) (hp : p '\n' = false) (cs : List Char) :
      (cs ++ '\n' :: ds).takeWhile p = cs.takeWhile p := by
    rw [List.takeWhile_append]
    split
    · rename_i h
      rw [(List.takeWhile_prefix p).eq_of_length h]
      simp [hp]
    · rfl
  induction hn : cs.length using Nat.strongRecOn generalizing cs with
  | ind n ih =>
    match cs with
    | [] => rw [List.nil_append, tokens_blank (by decide), tokens_nil, List.nil_append]
    | c :: cs =>
      have hrest (p : Char → Bool) (hp : p '\n' = false) :
          tokens ((cs ++ '\n' :: ds).dropWhile p) = tokens (cs.dropWhile p) ++ tokens ds := by
        rw [hdrop p hp]
        exact ih _ (hn ▸ Nat.lt_succ_of_le (List.dropWhile_sublist p).length_le) _ rfl
      have hshort := ih _ (hn ▸ Nat.lt_succ_self _) cs rfl
      rw [List.cons_append, tokens, tokens, hrest _ (by decide), hrest _ (by decide), htake _ (by decide), hshort]
      split_ifs <;> rfl

/-! ## Readings of two texts -/

/-- whether a reading failed because the text ended inside a form -/
def Reading.isCutOff : Reading → Bool
  | .failed cause _ _ => cause.isCutOff
  | _ => false

/-- the second reading finds what the first does, and leaves the tokens that the first leaves and `ts` -/
def Reading.Continues (ts : List Token) : Reading → Reading → Prop
  | .form f after, .form f' after' => f = f' ∧ tokens after'.chars = tokens after.chars ++ ts
  | .failed cause begun after, .failed cause' begun' after' =>
    cause = cause' ∧ begun = begun' ∧ tokens after'.chars = tokens after.chars ++ ts
  | .finished after, .finished after' => tokens after'.chars = tokens after.chars ++ ts
  | _, _ => False

theorem Reading.Continues.after {ts : List Token} {r r' : Reading} (h : r.Continues ts r') :
    tokens r'.after.chars = tokens r.after.chars ++ ts := by
  cases r <;> cases r'
  case form.form => exact h.2
  case failed.failed => exact h.2.2
  case finished.finished => exact h
  all_goals exact h.elim

theorem Reading.Continues.isFinished {ts : List Token} {r r' : Reading} (h : r.Continues ts r') :
    r'.isFinished = r.isFinished := by
  cases r <;> cases r' <;> first | rfl | exact h.elim

/-- what becomes of a complete form does not depend on what comes after it -/
theorem complete_continues (f : Form) (outer : List Frame) {after after' : Cursor} {ts : List Token}
    (h : tokens after'.chars = tokens after.chars ++ ts) :
    match (match complete f outer with
      | .inl f => Sum.inl (Reading.form f after)
      | .inr outer => .inr outer : Reading ⊕ List Frame), (match complete f outer with
      | .inl f => Sum.inl (Reading.form f after')
      | .inr outer => .inr outer : Reading ⊕ List Frame) with
    | .inl r, .inl r' => r.Continues ts r'
    | .inr outer, .inr outer' => outer = outer'
    | _, _ => False := by
  cases complete f outer with
  | inl g => exact ⟨rfl, h⟩
  | inr outer => rfl

/-- nor does what a token does to the frames -/
theorem step_continues (stack : List Frame) (k : Token) {after after' : Cursor} {ts : List Token}
    (h : tokens after'.chars = tokens after.chars ++ ts) :
    match step stack k after, step stack k after' with
    | .inl r, .inl r' => r.Continues ts r'
    | .inr outer, .inr outer' => outer = outer'
    | _, _ => False := by
  cases k with
  | openParen => rfl
  | quote => rfl
  | doubleQuote => exact ⟨rfl, rfl, h⟩
  | atom text => exact complete_continues (.atom text) stack h
  | closeParen =>
    rcases stack with _ | ⟨items | _, outer⟩
    · exact ⟨rfl, rfl, h⟩
    · exact complete_continues (.list items.reverse) outer h
    · exact ⟨rfl, rfl, h⟩

/-- a reading goes on where more tokens follow, unless it ends because there are none -/
theorem readUnder_continues {ts : List Token} (stack : List Frame) (c c' : Cursor)
    (h : tokens c'.chars = tokens c.chars ++ ts) :
    (readUnder stack c).Continues ts (readUnder stack c') ∨
      ts ≠ [] ∧ ((readUnder stack c).isFinished = true ∨ (readUnder stack c).isCutOff = true) := by
  induction hn : c.rest.length using Nat.strongRecOn generalizing stack c c' with
  | ind n ih =>
    rcases ht : c.token? with ⟨_ | k, after⟩
    · rw [readUnder_end ht]
      by_cases hts : ts = []
      · left
        rw [Cursor.tokens_of_end ht, hts] at h
        rcases ht' : c'.token? with ⟨_ | k, after'⟩
        · have hsame : tokens after'.chars = tokens after.chars ++ ts := by
            rw [Cursor.chars, Cursor.chars, (Cursor.token?_end ht).2, (Cursor.token?_end ht').2, hts, List.append_nil]
          rw [readUnder_end ht']
          rcases stack with _ | ⟨items | _, outer⟩
          · exact hsame
          · exact ⟨rfl, rfl, hsame⟩
          · exact ⟨rfl, rfl, hsame⟩
        · rw [Cursor.tokens_of_token ht'] at h
          cases h
      · refine .inr ⟨hts, ?_⟩
        rcases stack with _ | ⟨items | _, outer⟩
        · exact .inl rfl
        · exact .inr rfl
        · exact .inr rfl
    · rw [Cursor.tokens_of_token ht, List.cons_append] at h
      obtain ⟨after', ht', hafter⟩ := Cursor.token?_of_tokens h
      have hstep := step_continues stack k hafter
      rw [readUnder_token ht, readUnder_token ht']
      split at hstep
      · rename_i r r' hr hr'
        rw [hr, hr']
        exact .inl hstep
      · rename_i outer outer' hr hr'
        rw [hr, hr', ← hstep]
        exact ih _ (hn ▸ Cursor.token?_length ht) outer after after' hafter rfl
      · exact hstep.elim

theorem Cursor.read_continues {ts : List Token} {c c' : Cursor} (h : tokens c'.chars = tokens c.chars ++ ts) :
    c.read.Continues ts c'.read ∨ ts ≠ [] ∧ (c.read.isFinished = true ∨ c.read.isCutOff = true) := by
  rw [read_eq, read_eq]
  exact readUnder_continues [] c c' h

/-- a reading is determined by the tokens -/
theorem Cursor.read_congr {c c' : Cursor} (h : tokens c'.chars = tokens c.chars) : c.read.Continues [] c'.read := by
  rw [← List.append_nil (tokens c.chars)] at h
  rcases read_continues h with h | h
  · exact h
  · exact absurd rfl h.1

/-- all readings of a text, up to its end and whatever they find -/
def Cursor.readings (c : Cursor) : List Reading :=
  if _h : c.read.isFinished then [] else c.read :: c.read.after.readings
termination_by c.rest.length
decreasing_by exact Cursor.read_length (by simpa using _h)

theorem Cursor.readings_of_finished {c : Cursor} (h : c.read.isFinished = true) : c.readings = [] := by
  rw [readings, dif_pos h]

theorem Cursor.readings_of_unfinished {c : Cursor} (h : c.read.isFinished = false) :
    c.readings = c.read :: c.read.after.readings := by
  rw [readings, dif_neg (by simp [h])]

theorem Cursor.tokens_of_finished {c : Cursor} (h : c.read.isFinished = true) : tokens c.chars = [] := by
  have hfits := c.read_fits
  cases hr : c.read with
  | finished after =>
    rw [hr] at hfits
    exact hfits
  | _ =>
    rw [hr] at h
    cases h

end Source

/-! ## The loop over two texts -/

namespace Act

open Source

variable {fuel : Nat} {th : ThreadId} {m m₁ : Machine}

theorem run_replLoop_finished {c : Cursor} (h : c.read.isFinished = true) : (replLoop fuel th false c).run m = .ok () m := by
  rw [replLoop]
  simp [h]

theorem replLoop_unfinished {c : Cursor} (h : c.read.isFinished = false) :
    replLoop fuel th false c = (do replStep fuel th c.read; replLoop fuel th false c.read.after) := by
  rw [replLoop]
  simp [h]

/-- a step does with what was read the same, whatever comes after it -/
theorem replStep_congr {ts : List Token} {r r' : Reading} (h : r.Continues ts r') :
    replStep fuel th r' = replStep fuel th r := by
  cases r <;> cases r'
  case form.form =>
    obtain ⟨rfl, -⟩ := h
    rfl
  case failed.failed =>
    obtain ⟨rfl, rfl, -⟩ := h
    rfl
  case finished.finished => rfl
  all_goals exact h.elim

/-- the loop is determined by the tokens -/
theorem run_replLoop_congr {c c' : Cursor} (h : tokens c'.chars = tokens c.chars) :
    (replLoop fuel th false c').run m = (replLoop fuel th false c).run m := by
  induction hn : c.rest.length using Nat.strongRecOn generalizing c c' m with
  | ind n ih =>
    have hread := Cursor.read_congr h
    cases hf : c.read.isFinished with
    | true => rw [run_replLoop_finished hf, run_replLoop_finished (hread.isFinished.trans hf)]
    | false =>
      rw [replLoop_unfinished hf, replLoop_unfinished (hread.isFinished.trans hf), replStep_congr hread, run_bind, run_bind]
      cases (replStep fuel th c.read).run m with
      | error e m' => rfl
      | ok _ m' =>
        have hafter := hread.after
        rw [List.append_nil] at hafter
        exact ih _ (hn ▸ Cursor.read_length hf) hafter rfl

/-- where more tokens follow the loop goes on with them -/
theorem run_replLoop_continues {c c' d : Cursor} (h : tokens c'.chars = tokens c.chars ++ tokens d.chars)
    (hwhole : ∀ r ∈ c.readings, r.isCutOff = false) (hrun : (replLoop fuel th false c).run m = .ok () m₁) :
    (replLoop fuel th false c').run m = (replLoop fuel th false d).run m₁ := by
  induction hn : c.rest.length using Nat.strongRecOn generalizing c c' m with
  | ind n ih =>
    cases hf : c.read.isFinished with
    | true =>
      rw [Cursor.tokens_of_finished hf, List.nil_append] at h
      rw [run_replLoop_finished hf] at hrun
      cases hrun
      exact run_replLoop_congr h
    | false =>
      rw [Cursor.readings_of_unfinished hf] at hwhole
      have hread : c.read.Continues (tokens d.chars) c'.read := by
        rcases Cursor.read_continues h with hread | ⟨-, hend⟩
        · exact hread
        · rcases hend with hend | hend
          · exact absurd (hend.symm.trans hf) (by simp)
          · exact absurd (hend.symm.trans (hwhole _ List.mem_cons_self)) (by simp)
      rw [replLoop_unfinished hf, run_bind] at hrun
      rw [replLoop_unfinished (hread.isFinished.trans hf), replStep_congr hread, run_bind]
      cases hstep : (replStep fuel th c.read).run m with
      | error e m' =>
        rw [hstep] at hrun
        cases hrun
      | ok _ m' =>
        rw [hstep] at hrun
        exact ih _ (hn ▸ Cursor.read_length hf) hread.after (fun r hr => hwhole r (List.mem_cons_of_mem _ hr)) hrun rfl

/-- The loop over a text and its sequel is the loop over the text and then the loop over the sequel. The text ends in a line
end, and none of its readings is cut off by its end. -/
theorem replLoop_append {s₁ : List UInt8} (s₂ : List UInt8) (hline : s₁.getLast? = some 10)
    (hwhole : ∀ r ∈ (Cursor.ofBytes s₁).readings, r.isCutOff = false)
    (hrun : (replLoop fuel th false (Cursor.ofBytes s₁)).run m = .ok () m₁) :
    (replLoop fuel th false (Cursor.ofBytes (s₁ ++ s₂))).run m = (replLoop fuel th false (Cursor.ofBytes s₂)).run m₁ := by
  refine run_replLoop_continues ?_ hwhole hrun
  obtain ⟨bytes, rfl⟩ := List.getLast?_eq_some_iff.1 hline
  have hchars (after : List UInt8) : (Cursor.ofBytes (bytes ++ 10 :: after)).chars =
      (Cursor.ofBytes bytes).chars ++ '\n' :: (Cursor.ofBytes after).chars := by
    simp only [Cursor.chars, Cursor.ofBytes, Cursor.ofRunes, Text.Rune.decode_line, List.map_append, List.map_cons]
    rfl
  have hnil : (Cursor.ofBytes []).chars = [] := rfl
  rw [List.append_assoc, List.singleton_append, hchars, hchars, tokens_line, tokens_line, hnil, tokens_nil, List.append_nil]

/-- the lines `1` and `)`, and then `2` -/
theorem replLoop_append_opened : [49, 10, 41, 10].getLast? = some (10 : UInt8) ∧
    (∀ r ∈ (Cursor.ofBytes [49, 10, 41, 10]).readings, r.isCutOff = false) ∧
    ∃ m₁, (replLoop 9 0 false (Cursor.ofBytes [49, 10, 41, 10])).run .opened = .ok () m₁ ∧
      (replLoop 9 0 false (Cursor.ofBytes ([49, 10, 41, 10] ++ [50]))).run .opened =
        (replLoop 9 0 false (Cursor.ofBytes [50])).run m₁ := by
  have hline : [49, 10, 41, 10].getLast? = some (10 : UInt8) := rfl
  have hwhole : ∀ r ∈ (Cursor.ofBytes [49, 10, 41, 10]).readings, r.isCutOff = false := by
    have hall : (Cursor.ofBytes [49, 10, 41, 10]).readings.all (!·.isCutOff) = true := by cbv
    simpa using hall
  have hok : ((replLoop 9 0 false (Cursor.ofBytes [49, 10, 41, 10])).run .opened).isOkAnd (fun _ _ => true) = true := by cbv
  obtain ⟨_, m₁, hrun, -⟩ := Outcome.exists_of_isOkAnd hok
  exact ⟨hline, hwhole, m₁, hrun, replLoop_append [50] hline hwhole hrun⟩

end Act

/-! ## Waiting for a sequel -/

namespace Source

/-- whether a reading found what is no form -/
def Reading.fails : Reading → Bool
  | .failed _ _ _ => true
  | _ => false

theorem Cursor.isComplete_finished {c after : Cursor} (h : c.read = .finished after) : c.isComplete = true := by
  rw [isComplete]
  split <;> simp_all

theorem Cursor.isComplete_failed {c after : Cursor} {cause : Misread} {begun : List Form}
    (h : c.read = .failed cause begun after) : c.isComplete = !cause.isCutOff := by
  rw [isComplete]
  split <;> simp_all

theorem Cursor.isComplete_form {c after : Cursor} {f : Form} (h : c.read = .form f after) :
    c.isComplete = after.isComplete := by
  rw [isComplete]
  split <;> simp_all

/-- A text is incomplete if the first reading that fails is cut off. -/
theorem Cursor.isComplete_eq_false_iff (c : Cursor) :
    c.isComplete = false ↔ ∃ r, c.readings.find? Reading.fails = some r ∧ r.isCutOff = true := by
  induction hn : c.rest.length using Nat.strongRecOn generalizing c with
  | ind n ih =>
    match h : c.read with
    | .finished after =>
      rw [isComplete_finished h, readings_of_finished (by rw [h]; rfl)]
      simp
    | .failed cause begun after =>
      rw [isComplete_failed h, readings_of_unfinished (by rw [h]; rfl), h, List.find?_cons_of_pos rfl]
      simp [Reading.isCutOff]
    | .form f after =>
      rw [isComplete_form h, readings_of_unfinished (by rw [h]; rfl), h, List.find?_cons_of_neg Bool.false_ne_true]
      exact ih _ (hn ▸ read_form_length h) after rfl

/-- if nothing else fails, a text is incomplete if one of its readings is cut off -/
theorem Cursor.isComplete_eq_false_iff_any {c : Cursor} (h : ∀ r ∈ c.readings, r.fails = true → r.isCutOff = true) :
    c.isComplete = false ↔ ∃ r ∈ c.readings, r.isCutOff = true := by
  rw [isComplete_eq_false_iff]
  refine ⟨fun ⟨r, hr, hcut⟩ => ⟨r, List.mem_of_find?_eq_some hr, hcut⟩, fun ⟨r, hr, hcut⟩ => ?_⟩
  have hfails : r.fails = true := by cases r <;> first | rfl | cases hcut
  obtain ⟨r', hr'⟩ := Option.isSome_iff_exists.1 (List.find?_isSome.2 ⟨r, hr, hfails⟩)
  exact ⟨r', hr', h r' (List.mem_of_find?_eq_some hr') (List.find?_some hr')⟩

-- after a failure of another kind a reading may be cut off all the same
example : (Cursor.ofString ") (foo").readings.map (fun r => (r.fails, r.isCutOff)) = [(true, false), (true, true)] := by cbv

end Source

namespace Act

open Source

variable {th : ThreadId} {m : Machine}

theorem builds_completeFrom (c : Cursor) {m : Machine} (hm : m.heap.InOrder) :
    Builds (3 * (tokens c.chars).length) m (completeFrom th c) fun b _ => b = c.isComplete := by
  induction hn : c.rest.length using Nat.strongRecOn generalizing c m with
  | ind n ih =>
    have hfits := c.read_fits
    rw [completeFrom]
    split
    · rename_i after h
      rw [h] at hfits
      rw [hfits, Cursor.isComplete_finished h]
      exact .pure hm rfl
    · rename_i cause begun after h
      rw [h] at hfits
      rw [Cursor.isComplete_failed h]
      have hobjects := Form.allObjects_le begun
      have hlen := hfits.2
      exact ((builds_forms begun hm).map fun _ _ _ _ => rfl).mono (by omega) fun _ _ h => h
    · rename_i f after h
      rw [h] at hfits
      have hobjects := f.objects_le
      rw [Cursor.isComplete_form h, hfits, List.length_append, Nat.mul_add]
      refine ((builds_form f hm).mono (by omega) fun _ _ h => h).bind fun _ m' hm' _ => ?_
      exact ih _ (hn ▸ Cursor.read_form_length h) after hm'.order rfl

/-- unless the heap is full, a front end waits for a sequel if and only if the first reading that fails is cut off -/
theorem isComplete_decides (hm : m.heap.InOrder) (c : Cursor) (hroom : ¬ m.heap.Lacks (3 * (tokens c.chars).length)) :
    ∃ b m', (isComplete th c).run m = .ok b m' ∧
      (b = false ↔ ∃ r, c.readings.find? Reading.fails = some r ∧ r.isCutOff = true) := by
  have hbuilds : Builds _ m (completeFrom th c) _ := builds_completeFrom c hm
  have hguard : (openGuard th).run m = .ok ⟨(m.thread th).pins.size, (m.thread th).stack.size⟩ m := rfl
  unfold Builds Ends at hbuilds
  unfold isComplete
  rw [bind_ok hguard, run_bind, run_observe]
  cases hr : (completeFrom th c).run m with
  | error e m' =>
    rw [hr] at hbuilds
    exact absurd hbuilds.2 hroom
  | ok b m' =>
    rw [hr] at hbuilds
    exact ⟨b, _, rfl, hbuilds.2 ▸ c.isComplete_eq_false_iff⟩

end Act

end LispMachine
