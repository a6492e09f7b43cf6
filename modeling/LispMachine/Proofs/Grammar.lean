/-
The grammar of forms.

A form is an atom, a list of forms in parentheses, or a quote before a form, so it is spelled by one sequence of tokens, and a
text says the forms whose spellings, one after the other, are its tokens. A text that says no forms breaks off: after some
forms comes the beginning of one that cannot be completed. `Offends` tells why, for every nesting of lists and quotes that the
beginning has opened; the failure is that of the innermost form.

Reading decides the grammar. `Cursor.parses_iff`: the forms and the failure that the readings of a text come to are the only
ones that its tokens have.
-/
import LispMachine.Proofs.Frames

namespace LispMachine.Source

/-! ## Spelling -/

mutual

/-- the tokens that spell a form -/
def Form.tokens : Form → List Token
  | .atom text => [.atom text]
  | .list items => .openParen :: (Form.allTokens items ++ [.closeParen])
  | .quoted form => .quote :: form.tokens

/-- the tokens that spell forms, one after the other -/
def Form.allTokens : List Form → List Token
  | [] => []
  | form :: forms => form.tokens ++ Form.allTokens forms

end

/-- `Offends ts cause`: where a form has to start, the tokens `ts` begin none, and `cause` says why -/
inductive Offends : List Token → Misread → Prop where
  | extraClose (ts : List Token) : Offends (.closeParen :: ts) .extraClose
  | stringLiteral (ts : List Token) : Offends (.doubleQuote :: ts) .stringLiteral
  | danglingQuote : Offends [.quote] .danglingQuote
  /-- after a quote a form has to start -/
  | quoted {ts : List Token} {cause : Misread} : Offends ts cause → Offends (.quote :: ts) cause
  | unclosed (items : List Form) : Offends (.openParen :: Form.allTokens items) .unclosed
  /-- after the items of an open list a form has to start, unless the list is closed -/
  | inside (items : List Form) {ts : List Token} {cause : Misread} : Offends ts cause → ts.head? ≠ some .closeParen →
      Offends (.openParen :: (Form.allTokens items ++ ts)) cause

/-- what a sequence of tokens says: forms up to its end, or up to a beginning that offends -/
inductive Parses : List Token → List Form → Option Misread → Prop where
  | whole (forms : List Form) : Parses (Form.allTokens forms) forms none
  | broken (forms : List Form) {ts : List Token} {cause : Misread} : Offends ts cause →
      Parses (Form.allTokens forms ++ ts) forms (some cause)

theorem Form.allTokens_append (fs gs : List Form) : allTokens (fs ++ gs) = allTokens fs ++ allTokens gs := by
  induction fs with
  | nil => rfl
  | cons f fs ih => rw [List.cons_append, allTokens, allTokens, ih, List.append_assoc]

theorem Form.allTokens_concat (fs : List Form) (f : Form) : allTokens (fs ++ [f]) = allTokens fs ++ f.tokens := by
  rw [allTokens_append, allTokens, allTokens, List.append_nil]

theorem Form.tokens_ne_nil (f : Form) : f.tokens ≠ [] := by cases f <;> simp [tokens]

theorem Offends.ne_nil {ts : List Token} {cause : Misread} (h : Offends ts cause) : ts ≠ [] := by
  cases h <;> simp

/-- more forms before an offending beginning -/
theorem Parses.cons {ts : List Token} {forms : List Form} {failure : Option Misread} (h : Parses ts forms failure)
    (f : Form) : Parses (f.tokens ++ ts) (f :: forms) failure := by
  cases h with
  | whole => exact .whole (f :: forms)
  | broken _ ho =>
    rw [← List.append_assoc]
    exact .broken (f :: forms) ho

/-! ## Frames -/

/-- the tokens behind the open lists and quotes -/
def pending : List Frame → List Token
  | [] => []
  | .list items :: outer => pending outer ++ .openParen :: Form.allTokens items.reverse
  | .quote :: outer => pending outer ++ [.quote]

theorem complete_tokens (f : Form) (stack : List Frame) :
    match complete f stack with
    | .inl g => g.tokens = pending stack ++ f.tokens
    | .inr stack' => pending stack' = pending stack ++ f.tokens := by
  induction stack generalizing f with
  | nil => rfl
  | cons frame outer ih =>
    cases frame with
    | list items => simp [complete, pending, Form.allTokens_concat]
    | quote =>
      have hquoted := ih (.quoted f)
      simp only [complete, pending, List.append_assoc, List.singleton_append]
      exact hquoted

/-- what offends under frames offends with the tokens behind them -/
theorem Offends.pending {stack : List Frame} {ts : List Token} {cause : Misread} (h : Offends ts cause)
    (hout : ts.head? = some .closeParen → Outside stack) : Offends (pending stack ++ ts) cause := by
  induction stack generalizing ts with
  | nil => exact h
  | cons frame outer ih =>
    cases frame with
    | list items =>
      rw [Source.pending, List.append_assoc, List.cons_append]
      exact ih (.inside items.reverse h fun hclose => hout hclose items outer rfl) (by simp)
    | quote =>
      rw [Source.pending, List.append_assoc, List.singleton_append]
      exact ih (.quoted h) (by simp)

/-- a text that ends under frames -/
theorem offends_pending (frame : Frame) (outer : List Frame) :
    Offends (pending (frame :: outer)) (match frame with
      | .list _ => .unclosed
      | .quote => .danglingQuote) := by
  cases frame with
  | list items => exact (Offends.unclosed items.reverse).pending (by simp)
  | quote => exact Offends.danglingQuote.pending (by simp)

/-! ## Reading is sound -/

/-- what a reading says of the tokens behind the frames and before the cursor -/
def Reading.Fits (ts : List Token) : Reading → Prop
  | .form f after => ts = f.tokens ++ Source.tokens after.chars
  | .failed cause begun _ => Offends ts cause ∧ (Form.allTokens begun).length ≤ ts.length
  | .finished _ => ts = []

/-- the forms that were complete are part of what was read -/
theorem begun_length (stack : List Frame) : (Form.allTokens (begun stack)).length ≤ (pending stack).length := by
  induction stack with
  | nil => rfl
  | cons frame outer ih =>
    rw [begun_cons, Form.allTokens_append, List.length_append]
    cases frame with
    | list items => simp only [pending, List.length_append, List.length_cons]; omega
    | quote => simp only [pending, List.length_append, List.length_singleton, Form.allTokens, List.length_nil]; omega

theorem atEnd_fits (stack : List Frame) (after : Cursor) : (atEnd stack after).Fits (pending stack) := by
  cases stack with
  | nil => rfl
  | cons frame outer =>
    have h := offends_pending frame outer
    cases frame <;> exact ⟨h, begun_length _⟩

/-- a token either goes to the frames or ends the reading -/
theorem step_fits (stack : List Frame) (k : Token) (after : Cursor) :
    match step stack k after with
    | .inl r => r.Fits (pending stack ++ k :: tokens after.chars)
    | .inr stack' => pending stack' = pending stack ++ [k] := by
  have hsettle (f : Form) (outer : List Frame) (htokens : pending outer ++ f.tokens = pending stack ++ [k]) :
      match (match complete f outer with
        | .inl f => Sum.inl (Reading.form f after)
        | .inr outer => .inr outer : Reading ⊕ List Frame) with
      | .inl r => r.Fits (pending stack ++ k :: tokens after.chars)
      | .inr stack' => pending stack' = pending stack ++ [k] := by
    have h := complete_tokens f outer
    cases hc : complete f outer with
    | inl g =>
      rw [hc] at h
      have hg : g.tokens = pending stack ++ [k] := h.trans htokens
      simp [Reading.Fits, hg]
    | inr stack' =>
      rw [hc] at h
      exact h.trans htokens
  have hbegun : (Form.allTokens (begun stack)).length ≤ (pending stack ++ k :: tokens after.chars).length := by
    rw [List.length_append]
    exact (begun_length stack).trans (Nat.le_add_right _ _)
  cases k with
  | openParen => rfl
  | quote => rfl
  | doubleQuote => exact ⟨(Offends.stringLiteral _).pending (by simp), hbegun⟩
  | atom text => exact hsettle (.atom text) stack rfl
  | closeParen =>
    match stack with
    | [] => exact ⟨.extraClose _, hbegun⟩
    | .quote :: outer => exact ⟨(Offends.extraClose _).pending fun _ _ _ h => (by cases h), hbegun⟩
    | .list items :: outer => exact hsettle (.list items.reverse) outer (by simp [Form.tokens, pending])

theorem readUnder_fits (stack : List Frame) (c : Cursor) :
    (readUnder stack c).Fits (pending stack ++ tokens c.chars) := by
  induction hn : c.rest.length using Nat.strongRecOn generalizing stack c with
  | ind n ih =>
    match h : c.token? with
    | (none, after) =>
      rw [readUnder_end h, Cursor.tokens_of_end h, List.append_nil]
      exact atEnd_fits stack after
    | (some k, after) =>
      have hstep := step_fits stack k after
      rw [readUnder_token h, Cursor.tokens_of_token h]
      split
      · rename_i r hr
        rw [hr] at hstep
        exact hstep
      · rename_i stack' hr
        rw [hr] at hstep
        have hrest := ih _ (hn ▸ Cursor.token?_length h) stack' after rfl
        rw [hstep] at hrest
        simpa using hrest

theorem Cursor.read_fits (c : Cursor) : c.read.Fits (tokens c.chars) := by
  rw [read_eq]
  exact readUnder_fits [] c

/-! ## Reading is complete -/

/-- the cursor after the first token -/
theorem Cursor.token?_of_tokens {c : Cursor} {k : Token} {ts : List Token} (h : tokens c.chars = k :: ts) :
    ∃ after, c.token? = (some k, after) ∧ tokens after.chars = ts := by
  match ht : c.token? with
  | (none, after) =>
    rw [tokens_of_end ht] at h
    cases h
  | (some k', after) =>
    rw [tokens_of_token ht] at h
    cases h
    exact ⟨after, rfl, rfl⟩

mutual

/-- tokens that spell a form are read as the form -/
theorem readUnder_form : (f : Form) → {stack : List Frame} → {c : Cursor} → {ts : List Token} →
    tokens c.chars = f.tokens ++ ts → ∃ after, readUnder stack c = readOn f stack after ∧ tokens after.chars = ts
  | .atom text, stack, c, ts, h => by
    obtain ⟨after, ht, hrest⟩ := Cursor.token?_of_tokens h
    exact ⟨after, readUnder_atom ht, hrest⟩
  | .list items, stack, c, ts, h => by
    rw [Form.tokens, List.cons_append, List.append_assoc] at h
    obtain ⟨inside, ht, hinside⟩ := Cursor.token?_of_tokens h
    obtain ⟨before, hread, hbefore⟩ := @readUnder_items items [] stack _ _ hinside
    obtain ⟨after, hclose, hrest⟩ := Cursor.token?_of_tokens hbefore
    refine ⟨after, ?_, hrest⟩
    rw [readUnder_open ht, hread, readUnder_close hclose, List.append_nil, List.reverse_reverse]
  | .quoted form, stack, c, ts, h => by
    obtain ⟨inside, ht, hinside⟩ := Cursor.token?_of_tokens h
    obtain ⟨after, hread, hrest⟩ := @readUnder_form form (.quote :: stack) _ _ hinside
    exact ⟨after, by rw [readUnder_quote ht, hread]; rfl, hrest⟩

/-- tokens that spell forms inside a list are read as its next items -/
theorem readUnder_items : (items : List Form) → {done : List Form} → {outer : List Frame} → {c : Cursor} →
    {ts : List Token} → tokens c.chars = Form.allTokens items ++ ts →
    ∃ after, readUnder (.list done :: outer) c = readUnder (.list (items.reverse ++ done) :: outer) after ∧
      tokens after.chars = ts
  | [], done, outer, c, ts, h => ⟨c, rfl, h⟩
  | f :: fs, done, outer, c, ts, h => by
    rw [Form.allTokens, List.append_assoc] at h
    obtain ⟨between, hread, hbetween⟩ := @readUnder_form f (.list done :: outer) _ _ h
    obtain ⟨after, hrest, hafter⟩ := @readUnder_items fs (f :: done) outer _ _ hbetween
    refine ⟨after, ?_, hafter⟩
    rw [hread, List.reverse_cons, List.append_assoc, List.singleton_append, ← hrest]
    rfl

end

theorem Cursor.read_form {c : Cursor} {f : Form} {ts : List Token} (h : tokens c.chars = f.tokens ++ ts) :
    ∃ after, c.read = .form f after ∧ tokens after.chars = ts := by
  rw [read_eq]
  exact readUnder_form f h

/-- a beginning that offends is read as the failure it is -/
theorem readUnder_offends {ts : List Token} {cause : Misread} (ho : Offends ts cause) {stack : List Frame} {c : Cursor}
    (h : tokens c.chars = ts) (hout : ts.head? = some .closeParen → Outside stack) :
    ∃ begun after, readUnder stack c = .failed cause begun after := by
  induction ho generalizing stack c with
  | extraClose ts =>
    obtain ⟨after, ht, -⟩ := Cursor.token?_of_tokens h
    rw [readUnder_token ht]
    match stack with
    | [] => exact ⟨_, _, rfl⟩
    | .quote :: outer => exact ⟨_, _, rfl⟩
    | .list items :: outer => exact absurd rfl (hout rfl items outer)
  | stringLiteral ts =>
    obtain ⟨after, ht, -⟩ := Cursor.token?_of_tokens h
    exact ⟨_, _, readUnder_token ht⟩
  | danglingQuote =>
    obtain ⟨inside, ht, hinside⟩ := Cursor.token?_of_tokens h
    match hend : inside.token? with
    | (none, after) => exact ⟨_, _, by rw [readUnder_quote ht, readUnder_end hend]; rfl⟩
    | (some k, after) =>
      rw [Cursor.tokens_of_token hend] at hinside
      cases hinside
  | quoted ho ih =>
    obtain ⟨inside, ht, hinside⟩ := Cursor.token?_of_tokens h
    rw [readUnder_quote ht]
    exact ih hinside fun _ _ _ => by simp
  | unclosed items =>
    obtain ⟨inside, ht, hinside⟩ := Cursor.token?_of_tokens h
    rw [← List.append_nil (Form.allTokens items)] at hinside
    obtain ⟨before, hread, hbefore⟩ := @readUnder_items items [] stack _ _ hinside
    match hend : before.token? with
    | (none, after) => exact ⟨_, _, by rw [readUnder_open ht, hread, readUnder_end hend]; rfl⟩
    | (some k, after) =>
      rw [Cursor.tokens_of_token hend] at hbefore
      cases hbefore
  | inside items ho hhead ih =>
    obtain ⟨inside, ht, hinside⟩ := Cursor.token?_of_tokens h
    obtain ⟨before, hread, hbefore⟩ := @readUnder_items items [] stack _ _ hinside
    rw [readUnder_open ht, hread]
    exact ih hbefore fun hclose => absurd hclose hhead

/-! ## Whole texts -/

/-- the forms of a text up to its end or to the first that cannot be read, with that failure -/
def Cursor.forms (c : Cursor) : List Form × Option Misread :=
  match _h : c.read with
  | .finished _ => ([], none)
  | .failed cause _ _ => ([], some cause)
  | .form f after => let (forms, failure) := after.forms; (f :: forms, failure)
termination_by c.rest.length
decreasing_by exact Cursor.read_form_length _h

theorem Cursor.forms_finished {c after : Cursor} (h : c.read = .finished after) : c.forms = ([], none) := by
  rw [forms]
  split <;> simp_all

theorem Cursor.forms_failed {c after : Cursor} {cause : Misread} {begun : List Form} (h : c.read = .failed cause begun after) :
    c.forms = ([], some cause) := by
  rw [forms]
  split <;> simp_all

theorem Cursor.forms_form {c after : Cursor} {f : Form} (h : c.read = .form f after) :
    c.forms = (f :: after.forms.1, after.forms.2) := by
  rw [forms]
  split <;> simp_all

/-- what the readings come to is what the tokens say -/
theorem Cursor.parses_forms (c : Cursor) : Parses (tokens c.chars) c.forms.1 c.forms.2 := by
  induction hn : c.rest.length using Nat.strongRecOn generalizing c with
  | ind n ih =>
    have hfits := c.read_fits
    match h : c.read with
    | .finished after =>
      rw [h] at hfits
      rw [forms_finished h, hfits]
      exact .whole []
    | .failed cause begun after =>
      rw [h] at hfits
      rw [forms_failed h]
      exact .broken [] hfits.1
    | .form f after =>
      rw [h] at hfits
      rw [forms_form h, hfits]
      exact (ih _ (hn ▸ read_form_length h) after rfl).cons f

/-- tokens that spell forms are read as the forms -/
theorem Cursor.forms_append (fs : List Form) {c : Cursor} {ts : List Token} (h : tokens c.chars = Form.allTokens fs ++ ts) :
    ∃ after : Cursor, c.forms = (fs ++ after.forms.1, after.forms.2) ∧ tokens after.chars = ts := by
  induction fs generalizing c with
  | nil => exact ⟨c, rfl, h⟩
  | cons f fs ih =>
    rw [Form.allTokens, List.append_assoc] at h
    obtain ⟨between, hread, hbetween⟩ := read_form h
    obtain ⟨after, hforms, hafter⟩ := ih hbetween
    exact ⟨after, by rw [forms_form hread, hforms]; rfl, hafter⟩

/-- The tokens of a text say one thing, and reading finds it. -/
theorem Cursor.parses_iff {c : Cursor} {forms : List Form} {failure : Option Misread} :
    Parses (tokens c.chars) forms failure ↔ c.forms = (forms, failure) := by
  refine ⟨fun h => ?_, fun h => ?_⟩
  · generalize htokens : tokens c.chars = ts at h
    cases h with
    | whole =>
      rw [← List.append_nil (Form.allTokens forms)] at htokens
      obtain ⟨after, hforms, hafter⟩ := forms_append forms htokens
      have hfits := after.read_fits
      rw [hafter] at hfits
      match hread : after.read with
      | .finished _ => rw [hforms, forms_finished hread, List.append_nil]
      | .failed cause begun _ =>
        rw [hread] at hfits
        exact absurd rfl hfits.1.ne_nil
      | .form f _ =>
        rw [hread] at hfits
        exact absurd (List.append_eq_nil_iff.1 hfits.symm).1 f.tokens_ne_nil
    | broken _ ho =>
      obtain ⟨after, hforms, hafter⟩ := forms_append forms htokens
      obtain ⟨begun, rest, hread⟩ := @readUnder_offends _ _ ho [] _ hafter fun _ _ _ => by simp
      rw [← read_eq] at hread
      rw [hforms, forms_failed hread, List.append_nil]
  · have hparses := c.parses_forms
    rw [h] at hparses
    exact hparses

end LispMachine.Source
