/-
Reading what was printed.

The text of the tree of a form is spelled by the tokens of a form with the same tree: lists in parentheses, `nil` for the empty
one and `(quote form)` for a quoted form, every atom by its own text. An atom's text is the text of no other atom, if its floats
are finite. So a form that was read prints as a text that reads as the same tree (`Machine.readString_print`).
-/
import LispMachine.Proofs.Numerals
import LispMachine.Proofs.Printing

namespace LispMachine

namespace Source

open Text (isBlank)

/-! ## Words -/

theorem tokens_open (cs : List Char) : tokens ('(' :: cs) = .openParen :: tokens cs := by
  rw [tokens, if_pos rfl]

theorem tokens_close (cs : List Char) : tokens (')' :: cs) = .closeParen :: tokens cs := by
  rw [tokens, if_neg (by decide), if_pos rfl]

theorem isWord_ofList {c : Char} (hc : isDelimiter c = false) (cs : List Char) :
    IsWord (String.ofList (c :: cs.takeWhile (!isDelimiter ·))) := by
  rw [IsWord, String.toList_ofList]
  refine ⟨List.cons_ne_nil _ _, List.forall_mem_cons.2 ⟨hc, fun d hd => ?_⟩⟩
  simpa using List.mem_takeWhile_imp hd

/-- the text of an atom is a word -/
theorem isWord_of_mem_tokens {cs : List Char} {text : String} (h : .atom text ∈ tokens cs) : IsWord text := by
  induction cs using tokens.induct with
  | case1 => simp [tokens_nil] at h
  | case2 cs ih => rw [tokens_open] at h; exact ih (by simpa using h)
  | case3 cs _ ih => rw [tokens_close] at h; exact ih (by simpa using h)
  | case4 cs _ _ ih => rw [tokens, if_neg (by decide), if_neg (by decide), if_pos rfl] at h; exact ih (by simpa using h)
  | case5 cs _ _ _ ih =>
    rw [tokens, if_neg (by decide), if_neg (by decide), if_neg (by decide), if_pos rfl] at h
    exact ih (by simpa using h)
  | case6 cs _ _ _ _ ih => rw [tokens_comment] at h; exact ih h
  | case7 c cs _ _ _ _ _ hblank ih => rw [tokens_blank hblank] at h; exact ih h
  | case8 c cs h₁ h₂ h₃ h₄ h₅ h₆ ih =>
    have hd : isDelimiter c = false := isDelimiter_eq_false_iff.2 ⟨by simpa using h₆, h₁, h₂, h₃, h₄, h₅⟩
    rw [tokens_atom hd, List.mem_cons] at h
    rcases h with h | h
    · cases h
      exact isWord_ofList hd cs
    · exact ih h

/-- a word before a delimiter is one token -/
theorem tokens_word {text : String} (hword : IsWord text) {rest : List Char} (hrest : ∀ c ∈ rest.head?, isDelimiter c = true) :
    tokens (text.toList ++ rest) = .atom text :: tokens rest := by
  obtain ⟨hne, hall⟩ := hword
  obtain ⟨c, cs, hcs⟩ := List.exists_cons_of_ne_nil hne
  rw [hcs, List.forall_mem_cons] at hall
  have hcs' : ∀ d ∈ cs, (!isDelimiter d) = true := fun d hd => by simp [hall.2 d hd]
  have hstop : rest.takeWhile (!isDelimiter ·) = [] ∧ rest.dropWhile (!isDelimiter ·) = rest := by
    cases rest with
    | nil => exact ⟨rfl, rfl⟩
    | cons d rest => simp [hrest d rfl]
  rw [hcs, List.cons_append, tokens_atom hall.1, List.takeWhile_append_of_pos hcs', List.dropWhile_append_of_pos hcs', hstop.1,
    hstop.2, List.append_nil, ← hcs, String.ofList_toList]

/-! ## Atoms -/

/-- tokens whose atoms are words, with finite floats -/
def Legible (ts : List Token) : Prop :=
  ∀ text, .atom text ∈ ts → IsWord text ∧ ∀ x, Atom.ofText text = .number (.float x) → x.isFinite = true

theorem isWord_t : IsWord "t" := by simp [IsWord, isDelimiter, isBlank]

theorem isWord_nil : IsWord "nil" := by simp [IsWord, isDelimiter, isBlank]

theorem isWord_quote : IsWord "quote" := by simp [IsWord, isDelimiter, isBlank]

theorem Atom.ofText_eq_symbol {text name : String} (h : ofText text = .symbol name) : name = text := by
  have hmeans := means_ofText text
  rw [h] at hmeans
  cases hmeans
  rfl

theorem Atom.ofText_quote : ofText "quote" = .symbol "quote" := by decide

/-- an atom is known by its text, if it has no float that is not finite -/
theorem Atom.isWord_text {text : String} (hword : IsWord text)
    (hfinite : ∀ x, ofText text = .number (.float x) → x.isFinite = true) :
    IsWord (ofText text).text ∧ ofText (ofText text).text = ofText text := by
  cases h : ofText text with
  | t => exact ⟨isWord_t, by decide⟩
  | nil => exact ⟨isWord_nil, by decide⟩
  | number n =>
    cases n with
    | int n => exact ⟨isWord_int n, ofText_int n⟩
    | float x => exact ⟨isWord_float (hfinite x h), ofText_float (hfinite x h)⟩
  | symbol name =>
    obtain rfl := ofText_eq_symbol h
    exact ⟨hword, h⟩

/-! ## Forms -/

mutual

/-- the form that the text of a form's tree spells -/
def Form.printed : Form → Form
  | .atom text => .atom (Atom.ofText text).text
  | .list [] => .atom "nil"
  | .list (form :: forms) => .list (form.printed :: Form.allPrinted forms)
  | .quoted form => .list [.atom "quote", form.printed]

def Form.allPrinted : List Form → List Form
  | [] => []
  | form :: forms => form.printed :: Form.allPrinted forms

end

theorem Legible.cons {k : Token} {ts : List Token} (h : Legible (k :: ts)) : Legible ts :=
  fun text hmem => h text (List.mem_cons_of_mem _ hmem)

theorem Legible.left {ts us : List Token} (h : Legible (ts ++ us)) : Legible ts :=
  fun text hmem => h text (List.mem_append_left _ hmem)

theorem Legible.right {ts us : List Token} (h : Legible (ts ++ us)) : Legible us :=
  fun text hmem => h text (List.mem_append_right _ hmem)

mutual

/-- it has the same tree -/
theorem Form.datum_printed : (f : Form) → Legible f.tokens → f.printed.datum = f.datum
  | .atom text, hf => by
    obtain ⟨hword, hfinite⟩ := hf text (List.mem_singleton_self _)
    simp only [Form.printed, Form.datum, (Atom.isWord_text hword hfinite).2]
  | .list [], _ => by
    simp only [Form.printed, Form.datum, Form.data]
    rfl
  | .list (f :: fs), hf => by
    have hitems := hf.cons.left
    simp only [Form.printed, Form.datum, Form.data, Form.datum_printed f hitems.left, Form.data_allPrinted fs hitems.right]
  | .quoted f, hf => by
    simp only [Form.printed, Form.datum, Form.data, Atom.ofText_quote, Form.datum_printed f hf.cons]

theorem Form.data_allPrinted : (fs : List Form) → Legible (Form.allTokens fs) → Form.data (Form.allPrinted fs) = Form.data fs
  | [], _ => rfl
  | f :: fs, hfs => by
    simp only [Form.allPrinted, Form.data, Form.datum_printed f hfs.left, Form.data_allPrinted fs hfs.right]

end

/-- after an item of a list a delimiter comes -/
theorem head?_tailPieces (ds : List Datum) (rest : List Char) :
    ∀ c ∈ ((Datum.list ds).tailPieces.flatMap String.toList ++ rest).head?, isDelimiter c = true := by
  cases ds with
  | nil =>
    rintro c ⟨⟩
    rfl
  | cons d ds =>
    rintro c ⟨⟩
    rfl

/-- the text of a form's tree, wherever a delimiter follows, spells the form `g` -/
def Prints (f g : Form) : Prop :=
  ∀ rest : List Char, (∀ c ∈ rest.head?, isDelimiter c = true) →
    tokens (f.datum.pieces.flatMap String.toList ++ rest) = g.tokens ++ tokens rest

/-- one item more -/
theorem Prints.tail {f g : Form} (h : Prints f g) (ds : List Datum) (rest : List Char) :
    tokens ((Datum.list (f.datum :: ds)).tailPieces.flatMap String.toList ++ rest) =
      g.tokens ++ tokens ((Datum.list ds).tailPieces.flatMap String.toList ++ rest) := by
  have hblank (cs : List Char) : tokens (' ' :: cs) = tokens cs := tokens_blank rfl cs
  rw [← h _ (head?_tailPieces ds rest)]
  simp [Datum.list, Datum.tailPieces, hblank]

/-- the first item -/
theorem Prints.list {f g : Form} (h : Prints f g) (ds : List Datum) (rest : List Char) :
    tokens ((Datum.list (f.datum :: ds)).pieces.flatMap String.toList ++ rest) =
      .openParen :: (g.tokens ++ tokens ((Datum.list ds).tailPieces.flatMap String.toList ++ rest)) := by
  rw [← h _ (head?_tailPieces ds rest), ← tokens_open]
  simp [Datum.list, Datum.pieces]

theorem prints_atom {text : String} (hf : Legible [.atom text]) : Prints (.atom text) (.atom (Atom.ofText text).text) := by
  obtain ⟨hword, hfinite⟩ := hf text (List.mem_singleton_self _)
  intro rest hrest
  have h := tokens_word (Atom.isWord_text hword hfinite).1 hrest
  simpa [Form.datum, Datum.pieces, Form.tokens] using h

theorem prints_quote : Prints (.atom "quote") (.atom "quote") := prints_atom fun text hmem => by
  cases List.mem_singleton.1 hmem
  exact ⟨isWord_quote, fun x hx => by cases hx.symm.trans Atom.ofText_quote⟩

mutual

/-- the text of a form's tree spells what is printed of the form -/
theorem Form.prints : (f : Form) → Legible f.tokens → Prints f f.printed
  | .atom text, hf => prints_atom hf
  | .list [], _ => fun _ hrest => tokens_word isWord_nil hrest
  | .list (f :: fs), hf => fun rest _ => by
    have hitems := hf.cons.left
    have hopen := (Form.prints f hitems.left).list (Form.data fs) rest
    rw [Form.tokens_tail fs hitems.right rest] at hopen
    simpa [Form.datum, Form.data, Form.printed, Form.tokens, Form.allTokens] using hopen
  | .quoted f, hf => fun rest _ => by
    have hopen := prints_quote.list [f.datum] rest
    rw [(Form.prints f hf.cons).tail [] rest] at hopen
    have hclose : Source.tokens ((Datum.list []).tailPieces.flatMap String.toList ++ rest) = .closeParen :: Source.tokens rest :=
      tokens_close rest
    rw [hclose] at hopen
    simpa [Form.datum, Atom.ofText_quote, Form.printed, Form.tokens, Form.allTokens] using hopen

/-- and that of the rest of a list its items -/
theorem Form.tokens_tail : (fs : List Form) → Legible (Form.allTokens fs) → (rest : List Char) →
    Source.tokens ((Datum.list (Form.data fs)).tailPieces.flatMap String.toList ++ rest) =
      Form.allTokens (Form.allPrinted fs) ++ .closeParen :: Source.tokens rest
  | [], _, rest => tokens_close rest
  | f :: fs, hfs, rest => by
    have hitem := (Form.prints f hfs.left).tail (Form.data fs) rest
    rw [Form.tokens_tail fs hfs.right rest] at hitem
    simpa [Form.data, Form.allPrinted, Form.allTokens] using hitem

end

/-! ## Forms that were read -/

end Source

/-- whether all doubles of a tree are finite -/
def Datum.isFinite : Datum → Bool
  | .atom (.number (.float x)) => x.isFinite
  | .atom _ => true
  | .pair first rest => first.isFinite && rest.isFinite

theorem Datum.isFinite_pair {first rest : Datum} :
    (Datum.pair first rest).isFinite = true ↔ first.isFinite = true ∧ rest.isFinite = true := Bool.and_eq_true_iff

namespace Source

mutual

theorem Form.isFinite_of_mem : (f : Form) → f.datum.isFinite = true → {text : String} → .atom text ∈ f.tokens → {x : Float} →
    Atom.ofText text = .number (.float x) → x.isFinite = true
  | .atom text, hf, text', hmem, x, hx => by
    cases List.mem_singleton.1 hmem
    rw [Form.datum, hx] at hf
    exact hf
  | .list fs, hf, text, hmem, x, hx => by
    refine Form.all_isFinite_of_mem fs hf ?_ hx
    simpa [Form.tokens] using hmem
  | .quoted f, hf, text, hmem, x, hx => by
    refine Form.isFinite_of_mem f (Datum.isFinite_pair.1 (Datum.isFinite_pair.1 hf).2).1 ?_ hx
    simpa [Form.tokens] using hmem

theorem Form.all_isFinite_of_mem : (fs : List Form) → (Datum.list (Form.data fs)).isFinite = true →
    {text : String} → .atom text ∈ Form.allTokens fs → {x : Float} → Atom.ofText text = .number (.float x) → x.isFinite = true
  | [], _, text, hmem, x, _ => absurd hmem List.not_mem_nil
  | f :: fs, hfs, text, hmem, x, hx => by
    rcases List.mem_append.1 hmem with hmem | hmem
    · exact Form.isFinite_of_mem f (Datum.isFinite_pair.1 hfs).1 hmem hx
    · exact Form.all_isFinite_of_mem fs (Datum.isFinite_pair.1 hfs).2 hmem hx

end

/-- the atoms of a form that was read are words -/
theorem Cursor.legible_of_read {c after : Cursor} {f : Form} (hread : c.read = .form f after) (hfinite : f.datum.isFinite = true) :
    Legible f.tokens := by
  have hfits := c.read_fits
  rw [hread] at hfits
  intro text hmem
  have hmem' : .atom text ∈ tokens c.chars := hfits ▸ List.mem_append_left _ hmem
  exact ⟨isWord_of_mem_tokens hmem', fun x hx => f.isFinite_of_mem hfinite hmem hx⟩

theorem Cursor.chars_ofString (s : String) : (ofString s).chars = s.toList := by
  rw [chars, ofString, ofRunes, Text.Rune.ofString, List.map_map]
  exact List.map_id _

/-- where no token is left, nothing but separators is -/
theorem Scanner.skip_none {c : Cursor} (h : tokens c.chars = []) : (Scanner.ofCursor c).skip.1 = false := by
  cases hskip : (Scanner.ofCursor c).skip.1 with
  | false => rfl
  | true =>
    obtain ⟨r, rs, hrest, hcomment, hblank⟩ := Scanner.skip_next hskip
    have hcursor : (Scanner.ofCursor c).skip.2.cursor = c.skip := Scanner.skip_eq _
    have hchars : c.skip.chars = r.toChar :: rs.map Text.Rune.toChar := by
      rw [← hcursor, Cursor.chars, Scanner.cursor, hrest, List.map_cons]
    rw [← Cursor.tokens_skip, hchars] at h
    exact absurd h (tokens_ne_nil hcomment hblank _)

/-- the text of a form that was read spells a form with the same tree -/
theorem Form.tokens_text {f : Form} (hf : Legible f.tokens) : Source.tokens f.datum.text.toList = f.printed.tokens := by
  have h := f.prints hf [] nofun
  rw [List.append_nil, tokens_nil, List.append_nil] at h
  rw [Datum.text, String.toList_join, h]

end Source

open Source

/-- a form that was read is put on the heap as its tree -/
theorem Act.builds_reading {m : Machine} (hm : m.heap.InOrder) (th : ThreadId) (f : Form) (after : Cursor) :
    Builds f.objects m (buildReading th (.form f after)) fun o m' => ∃ v, o = some v ∧ m'.Holds v f.datum :=
  (builds_form f hm).map fun v _ _ hv => ⟨v, rfl, hv⟩

/-- a text that spells one form is read as its tree -/
theorem Act.builds_readString {m : Machine} (hm : m.heap.InOrder) (th : ThreadId) {s : String} {f : Form}
    (h : tokens s.toList = f.tokens) :
    Builds (3 * (tokens s.toList).length) m (readString th s) fun v m' => m'.Holds v f.datum := by
  have hchars : tokens (Cursor.ofString s).chars = f.tokens ++ [] := by rw [Cursor.chars_ofString, h, List.append_nil]
  obtain ⟨after, hread, hafter⟩ := Cursor.read_form hchars
  have hobjects := f.objects_le
  unfold readString readOne
  rw [hread]
  refine ((builds_reading hm th f after).bind (k := 0) ?_).mono (by rw [h]; omega) fun _ _ h => h
  rintro _ m' hm' ⟨v, rfl, hv⟩
  simp only [Reading.after, Scanner.skip_none hafter, Bool.false_eq_true, if_false]
  exact .pure hm'.order hv

namespace Machine

/-- the values have the same tree: the same pairs down to the same atoms, numbers bit by bit and symbols by their objects -/
inductive SameTree (m : Machine) : Value → Value → Prop where
  | leaf {v : Value} : (∀ h, v ≠ .cons h) → SameTree m v v
  | pair {h h' : Handle} {a d a' d' : Value} : m.cell? h = some (.cons a d) → m.cell? h' = some (.cons a' d') →
      SameTree m a a' → SameTree m d d' → SameTree m (.cons h) (.cons h')

variable {m m₁ : Machine}

theorem Holds.eq_of_atom {v v' : Value} {a : Atom} (hv : m.Holds v (.atom a)) (hv' : m.Holds v' (.atom a)) : v = v' := by
  cases hv with
  | t => cases hv'; rfl
  | nil => cases hv'; rfl
  | number n => cases hv'; rfl
  | symbol hs =>
    cases hv'
    rename_i hs'
    rw [hs] at hs'
    cases hs'
    rfl

/-- values that unfold to one tree have the same tree -/
theorem Holds.sameTree {v v' : Value} {d : Datum} (hv : m.Holds v d) (hv' : m.Holds v' d) : m.SameTree v v' := by
  induction d generalizing v v' with
  | atom a => exact hv.eq_of_atom hv' ▸ .leaf hv.atom_ne_cons
  | pair first rest ihfirst ihrest =>
    obtain ⟨h, rfl⟩ := hv.exists_cons
    obtain ⟨h', rfl⟩ := hv'.exists_cons
    obtain ⟨a, r, _, _, hc, ha, hr, heq⟩ := hv.of_cons
    cases heq
    obtain ⟨a', r', _, _, hc', ha', hr', heq⟩ := hv'.of_cons
    cases heq
    exact .pair hc hc' (ihfirst ha ha') (ihrest hr hr')

/-- Printing a form that was read and reading its text makes a value with the same tree, if all its floats are finite; nothing
but a full heap keeps it from being read. Handles have 28 bits. -/
theorem readString_print (hm : m.Settled) {th : ThreadId} {c after : Cursor} {f : Form} (hread : c.read = .form f after)
    (hfinite : f.datum.isFinite = true) {v : Value} (hbuilt : (Act.buildReading th c.read).run m = .ok (some v) m₁)
    (hsize : m₁.heap.slots.size ≤ 0x10000000) (th' : ThreadId) :
    ∃ text, (Act.print v).run m₁ = .ok text m₁ ∧
      (Act.readString th' text).Ends m₁ (fun v' m₂ => m₂.SameTree v v') fun e _ =>
        e = .fault .exhausted ∧ m₁.heap.Lacks (3 * (tokens text.toList).length) := by
  have hlegible := Cursor.legible_of_read hread hfinite
  have hsteps : m.Steps m₁ := by
    have h := Act.Walks.steps (x := Act.buildReading th c.read) m
    rw [hbuilt] at h
    exact h
  have hinterned : m₁.Interned := hsteps.interned hm.interned
  have hholds : m₁.Holds v f.datum := by
    rw [hread] at hbuilt
    obtain ⟨-, w, hw, hholds⟩ := (Act.builds_reading hm.interned.order th f after).ok hbuilt
    cases hw
    exact hholds
  have htext : tokens f.datum.text.toList = f.printed.tokens := Form.tokens_text hlegible
  refine ⟨f.datum.text, hinterned.run_print hsize hholds, ?_⟩
  refine Act.Ends.mono (Act.builds_readString hinterned.order th' htext) ?_ fun _ _ h => h
  rintro v' m₂ ⟨hm₂, hv'⟩
  rw [f.datum_printed hlegible] at hv'
  exact (hholds.enlarged hm₂).sameTree hv'

/-- a negative zero, a quoted list, and symbols that look like numbers or points -/
theorem readString_print_opened : ∃ f after v m₁,
    opened.Settled ∧ (Cursor.ofString "(a -0.0 '(. 1+) ...)").read = .form f after ∧ f.datum.isFinite = true ∧
      (Act.buildReading 0 (Cursor.ofString "(a -0.0 '(. 1+) ...)").read).run opened = .ok (some v) m₁ ∧
      m₁.heap.slots.size ≤ 0x10000000 ∧ (Act.print v).run m₁ = .ok "(a -0.0 (quote (. 1+)) ...)" m₁ ∧
      (Act.readString 0 "(a -0.0 (quote (. 1+)) ...)").Ends m₁ (fun v' m₂ => m₂.SameTree v v') fun _ _ => False := by
  let f : Form := .list [.atom "a", .atom "-0.0", .quoted (.list [.atom ".", .atom "1+"]), .atom "..."]
  have htokens : tokens (Cursor.ofString "(a -0.0 '(. 1+) ...)").chars = f.tokens ++ [] := by cbv
  obtain ⟨after, hread, -⟩ := Cursor.read_form htokens
  have hfinite : f.datum.isFinite = true := by decide +kernel
  have hrun : ((Act.buildForm 0 f).run opened).isOkAnd (fun v m₁ => m₁.heap.slots.size ≤ 0x10000000 && 99 ≤ m₁.heap.room &&
      ((Act.print v).run m₁).isOkAnd fun text _ => text == "(a -0.0 (quote (. 1+)) ...)") = true := by decide +kernel
  obtain ⟨v, m₁, hform, hrun⟩ := Outcome.exists_of_isOkAnd hrun
  simp only [Bool.and_eq_true, decide_eq_true_eq] at hrun
  obtain ⟨⟨hsize, hroom⟩, htext⟩ := hrun
  have hbuilt : (Act.buildReading 0 (Cursor.ofString "(a -0.0 '(. 1+) ...)").read).run opened = .ok (some v) m₁ := by
    rw [hread, Act.buildReading, Act.bind_ok hform]
    rfl
  obtain ⟨text, hprint, hends⟩ := readString_print settled_opened hread hfinite hbuilt hsize 0
  rw [hprint] at htext
  obtain rfl := eq_of_beq htext
  refine ⟨f, after, v, m₁, settled_opened, hread, hfinite, hbuilt, hsize, hprint, hends.mono (fun _ _ h => h) ?_⟩
  rintro e m₂ ⟨-, limit, -, hlacks⟩
  have hlength : (tokens "(a -0.0 (quote (. 1+)) ...)".toList).length = 12 := by cbv
  omega

end Machine

end LispMachine
