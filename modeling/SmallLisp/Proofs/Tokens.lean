import SmallLisp.Datum.Token
import SmallLisp.Text.Digit

/-!
Tokens of a text, from the left.

`Token.ofChars` is `tokenize` on characters.  A parenthesis in front of a text is one more token, a
blank is none, and a word is one if the text after it does not go on with the word
(`Token.ofChars_word`).  A blank between two texts keeps their tokens apart
(`Token.ofChars_append_blank`).
-/

namespace SmallLisp.Token

/-- Neither blank nor a parenthesis. -/
def isPlain (c : Char) : Bool := !Text.isBlank c && c != '(' && c != ')'

/-- What can be a token other than a parenthesis. -/
def Word (cs : List Char) : Prop := cs ≠ [] ∧ ∀ c ∈ cs, isPlain c = true

/-- A text that a word in front of it does not run into. -/
def Boundary (cs : List Char) : Prop := ∀ c rest, cs = c :: rest → c = ' ' ∨ c = '(' ∨ c = ')'

theorem boundary_cons {c : Char} (h : c = ' ' ∨ c = '(' ∨ c = ')') (cs : List Char) :
    Boundary (c :: cs) := by
  intro c' rest heq
  cases heq
  exact h

def ofChars (cs : List Char) : List (List Char) := Text.words (spaced cs)

theorem tokenize_eq (source : String) :
    tokenize source = (ofChars source.toList).map String.ofList :=
  rfl

theorem opening_eq : opening = String.ofList ['('] := rfl

theorem closing_eq : closing = String.ofList [')'] := rfl

theorem isPlain_iff {c : Char} :
    isPlain c = true ↔ Text.isBlank c = false ∧ c ≠ '(' ∧ c ≠ ')' := by
  simp [isPlain, and_assoc]

theorem isPlain_of_isDigit {c : Char} (h : Text.isDigit c = true) : isPlain c = true := by
  have htable : ∀ z ∈ Text.digitZeros, ∀ k < 10, isPlain (Char.ofNat (z + k)) = true := by
    decide +kernel
  obtain ⟨n, hn⟩ := Option.isSome_iff_exists.1 h
  obtain ⟨z, hz, rfl⟩ := Option.map_eq_some_iff.1 hn
  have hrange := List.find?_some hz
  simp only [Bool.and_eq_true, decide_eq_true_eq] at hrange
  have hplain := htable z (List.mem_of_find?_eq_some hz) (c.toNat - z) (by omega)
  have hc : z + (c.toNat - z) = c.toNat := by omega
  rwa [hc, Char.ofNat_toNat] at hplain

/-! ## Words of a text -/

theorem words_blank (cs : List Char) : Text.words (' ' :: cs) = Text.words cs := rfl

theorem foldr_addChar_word {w : List Char} (hw : ∀ c ∈ w, Text.isBlank c = false)
    (p : List Char × List (List Char)) : w.foldr Text.addChar p = (w ++ p.1, p.2) := by
  induction w with
  | nil => rfl
  | cons c w ih =>
    rw [List.foldr_cons, ih fun c hc => hw c (by simp [hc]), Text.addChar, hw c (by simp)]
    rfl

/-- A word in front of a text that is empty or starts with a blank. -/
theorem words_append {w cs : List Char} (hne : w ≠ []) (hw : ∀ c ∈ w, Text.isBlank c = false)
    (hcs : ∀ c rest, cs = c :: rest → c = ' ') : Text.words (w ++ cs) = w :: Text.words cs := by
  have hfirst : (cs.foldr Text.addChar ([], [])).1 = [] := by
    cases cs with
    | nil => rfl
    | cons c rest =>
      rw [hcs c rest rfl]
      rfl
  unfold Text.words
  rw [List.foldr_append, foldr_addChar_word hw, hfirst, List.append_nil]
  simp [Text.pushWord, hne, hfirst]

theorem pushWord_append (w : List Char) (ws vs : List (List Char)) :
    Text.pushWord w (ws ++ vs) = Text.pushWord w ws ++ vs := by
  unfold Text.pushWord
  split <;> rfl

/-- Words that stand after a text stay as they are when characters are put in front. -/
theorem foldr_addChar_append (cs : List Char) (ws : List (List Char)) :
    cs.foldr Text.addChar ([], ws) =
      ((cs.foldr Text.addChar ([], [])).1, (cs.foldr Text.addChar ([], [])).2 ++ ws) := by
  induction cs with
  | nil => rfl
  | cons c cs ih =>
    rw [List.foldr_cons, ih, List.foldr_cons]
    generalize cs.foldr Text.addChar ([], []) = p
    unfold Text.addChar
    by_cases hc : Text.isBlank c = true
    · simp only [if_pos hc, pushWord_append]
    · simp only [if_neg hc]

theorem words_append_blank {c : Char} (hc : Text.isBlank c = true) (cs ds : List Char) :
    Text.words (cs ++ c :: ds) = Text.words cs ++ Text.words ds := by
  have hblank : (c :: ds).foldr Text.addChar ([], []) = ([], Text.words ds) := by
    rw [List.foldr_cons, Text.addChar, if_pos hc]
    rfl
  show Text.pushWord ((cs ++ c :: ds).foldr Text.addChar ([], [])).1
    ((cs ++ c :: ds).foldr Text.addChar ([], [])).2 = _
  rw [List.foldr_append, hblank, foldr_addChar_append]
  exact pushWord_append _ _ _

/-! ## Tokens of a text -/

theorem spaced_cons_plain {c : Char} (hc : isPlain c = true) (cs : List Char) :
    spaced (c :: cs) = c :: spaced cs := by
  obtain ⟨-, hopen, hclose⟩ := isPlain_iff.1 hc
  simp [spaced, hopen, hclose]

theorem spaced_word {w : List Char} (hw : ∀ c ∈ w, isPlain c = true) (cs : List Char) :
    spaced (w ++ cs) = w ++ spaced cs := by
  induction w with
  | nil => rfl
  | cons c w ih =>
    rw [List.cons_append, spaced_cons_plain (hw c (by simp)), ih fun c hc => hw c (by simp [hc])]
    rfl

@[simp] theorem ofChars_nil : ofChars [] = [] := rfl

@[simp] theorem ofChars_blank (cs : List Char) : ofChars (' ' :: cs) = ofChars cs := rfl

theorem spaced_parenthesis {c : Char} (hc : c = '(' ∨ c = ')') (cs : List Char) :
    spaced (c :: cs) = ' ' :: ([c] ++ ' ' :: spaced cs) := by
  rcases hc with rfl | rfl <;> rfl

theorem ofChars_parenthesis {c : Char} (hc : c = '(' ∨ c = ')') (cs : List Char) :
    ofChars (c :: cs) = [c] :: ofChars cs := by
  have hblank : ∀ b ∈ [c], Text.isBlank b = false := by
    intro b hb
    rw [List.mem_singleton.1 hb]
    rcases hc with rfl | rfl <;> decide
  unfold ofChars
  rw [spaced_parenthesis hc, words_blank, words_append (by simp) hblank, words_blank]
  intro b rest h
  cases h
  rfl

theorem ofChars_word {w cs : List Char} (hw : Word w) (hcs : Boundary cs) :
    ofChars (w ++ cs) = w :: ofChars cs := by
  unfold ofChars
  rw [spaced_word hw.2]
  apply words_append hw.1 fun c hc => (isPlain_iff.1 (hw.2 c hc)).1
  intro c rest h
  cases cs with
  | nil => cases h
  | cons b cs =>
    -- a blank stays what it is, and a parenthesis gets one in front of it
    rcases hcs b cs rfl with rfl | rfl | rfl <;> cases h <;> rfl

theorem spaced_append (cs ds : List Char) : spaced (cs ++ ds) = spaced cs ++ spaced ds :=
  List.flatMap_append

theorem ofChars_append_blank {c : Char} (hc : Text.isBlank c = true) (cs ds : List Char) :
    ofChars (cs ++ c :: ds) = ofChars cs ++ ofChars ds := by
  have hspaced : spaced (c :: ds) = c :: spaced ds := by
    have hopen : c ≠ '(' := by rintro rfl; cases hc
    have hclose : c ≠ ')' := by rintro rfl; cases hc
    simp [spaced, hopen, hclose]
  unfold ofChars
  rw [spaced_append, hspaced, words_append_blank hc]

theorem ofChars_cons_blank {c : Char} (hc : Text.isBlank c = true) (cs : List Char) :
    ofChars (c :: cs) = ofChars cs :=
  ofChars_append_blank hc [] cs

theorem ofChars_gap {gap : List Char} (hgap : ∀ c ∈ gap, Text.isBlank c = true) (cs : List Char) :
    ofChars (gap ++ cs) = ofChars cs := by
  induction gap with
  | nil => rfl
  | cons c gap ih =>
    rw [List.cons_append, ofChars_cons_blank (hgap c (by simp)), ih fun b hb => hgap b (by simp [hb])]

theorem ofChars_of_isBlank {cs : List Char} (h : ∀ c ∈ cs, Text.isBlank c = true) :
    ofChars cs = [] := by
  have hgap := ofChars_gap h []
  rwa [List.append_nil] at hgap

theorem ofChars_append_parenthesis {c : Char} (hc : c = '(' ∨ c = ')') (cs ds : List Char) :
    ofChars (cs ++ c :: ds) = ofChars cs ++ [c] :: ofChars ds := by
  have hparenthesis := ofChars_parenthesis hc ds
  unfold ofChars at hparenthesis ⊢
  rw [spaced_parenthesis hc, words_blank] at hparenthesis
  rw [spaced_append, spaced_parenthesis hc, words_append_blank (by decide), hparenthesis]

theorem tokenize_append_newline (p q : String) :
    tokenize (p ++ "\n" ++ q) = tokenize p ++ tokenize q := by
  have hchars : (p ++ "\n" ++ q).toList = p.toList ++ '\n' :: q.toList := by simp
  rw [tokenize_eq, hchars, ofChars_append_blank (by decide), List.map_append]
  rfl

end SmallLisp.Token
