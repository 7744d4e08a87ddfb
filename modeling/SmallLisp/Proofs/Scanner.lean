import SmallLisp.Proofs.Tokens

/-!
Tokens by maximal munch.

`Token.scan` reads a text once, from the left: a blank ends the word at hand, a parenthesis ends it and
is a token of its own, and any other character goes on with it.  Its tokens are those of the text with
blanks around the parentheses, split at blanks (`Token.scan_eq`).

`Token.Laid tokens cs` says where tokens stand in a text: one after another, with nothing but blanks
around them and at least one between two words.  Every text is laid out in one way
(`Token.laid_iff`), so no word is cut in two and no two are run together.
-/

namespace SmallLisp

namespace Token

/-! ## Definitions -/

/-- The tokens of a text whose first word goes on with what has been read of it, `word`. -/
def scan (word : List Char) : List Char → List (List Char)
  | [] => Text.pushWord word []
  | c :: cs =>
    if Text.isBlank c then Text.pushWord word (scan [] cs)
    else if c = '(' ∨ c = ')' then Text.pushWord word ([c] :: scan [] cs)
    else scan (word ++ [c]) cs

/-- A text with blanks around each parenthesis of one kind. -/
def surround (p : Char) (cs : List Char) : List Char :=
  cs.flatMap fun c => if c = p then [' ', c, ' '] else [c]

/-- A parenthesis or a word. -/
def Valid (w : List Char) : Prop := w = ['('] ∨ w = [')'] ∨ Word w

/-- If the first of the tokens in a text is a word, a blank stands before it. -/
def SetApart (ts : List (List Char)) (cs : List Char) : Prop :=
  ∀ u ∈ ts.head?, Word u → ∃ b rest, cs = b :: rest ∧ Text.isBlank b = true

/-- Tokens stand in a text in this order, with blanks around them; a word that follows a word is set
apart from it. -/
inductive Laid : List (List Char) → List Char → Prop
  | blank {gap : List Char} : (∀ c ∈ gap, Text.isBlank c = true) → Laid [] gap
  | token {gap w cs : List Char} {ts : List (List Char)} :
      (∀ c ∈ gap, Text.isBlank c = true) → Valid w → (Word w → SetApart ts cs) → Laid ts cs →
      Laid (w :: ts) (gap ++ (w ++ cs))

/-! ## Lemmas -/

theorem surround_append (p : Char) (cs ds : List Char) :
    surround p (cs ++ ds) = surround p cs ++ surround p ds :=
  List.flatMap_append

/-- One kind of parenthesis after the other is both at once. -/
theorem spaced_eq_surround (cs : List Char) : spaced cs = surround ')' (surround '(' cs) := by
  induction cs with
  | nil => rfl
  | cons c cs ih =>
    have hspaced : spaced (c :: cs) =
        (if c = '(' || c = ')' then [' ', c, ' '] else [c]) ++ spaced cs := rfl
    have hopen : surround '(' (c :: cs) =
        (if c = '(' then [' ', c, ' '] else [c]) ++ surround '(' cs := rfl
    rw [hspaced, hopen, surround_append, ih]
    congr 1
    by_cases h : c = '('
    · subst h
      rfl
    · by_cases h' : c = ')'
      · subst h'
        rfl
      · simp [h, h', surround]

theorem not_word_parenthesis {c : Char} (hc : c = '(' ∨ c = ')') : ¬ Word [c] := by
  intro h
  have hplain := isPlain_iff.1 (h.2 c (by simp))
  rcases hc with rfl | rfl
  · exact hplain.2.1 rfl
  · exact hplain.2.2 rfl

theorem Valid.isBlank {w : List Char} (h : Valid w) {c : Char} (hc : c ∈ w) :
    Text.isBlank c = false := by
  rcases h with rfl | rfl | h
  · rw [List.mem_singleton.1 hc]
    decide
  · rw [List.mem_singleton.1 hc]
    decide
  · exact (isPlain_iff.1 (h.2 c hc)).1

theorem ofChars_pushWord {word : List Char} (hword : ∀ c ∈ word, isPlain c = true) :
    ofChars word = Text.pushWord word [] := by
  cases word with
  | nil => rfl
  | cons c word =>
    have hboundary : Boundary [] := by
      intro b rest h
      cases h
    have hone := ofChars_word ⟨by simp, hword⟩ hboundary
    rwa [List.append_nil] at hone

/-- The scanner finds the tokens of the text. -/
theorem scan_eq {word : List Char} (hword : ∀ c ∈ word, isPlain c = true) (cs : List Char) :
    scan word cs = ofChars (word ++ cs) := by
  induction cs generalizing word with
  | nil => rw [List.append_nil, ofChars_pushWord hword, scan]
  | cons c cs ih =>
    have hrest : scan [] cs = ofChars cs := ih (by simp)
    rw [scan]
    split
    · next hblank =>
      rw [ofChars_append_blank hblank, ofChars_pushWord hword, ← pushWord_append, hrest]
      rfl
    · next hblank =>
      split
      · next hc =>
        rw [ofChars_append_parenthesis hc, ofChars_pushWord hword, ← pushWord_append, hrest]
        rfl
      · next hc =>
        rw [ih, List.append_assoc]
        · rfl
        · intro b hb
          rcases List.mem_append.1 hb with hb | hb
          · exact hword b hb
          · rw [List.mem_singleton.1 hb]
            exact isPlain_iff.2 ⟨by simpa using hblank, not_or.1 hc⟩

/-! ## Where tokens stand -/

theorem Laid.cons_blank {ts : List (List Char)} {cs : List Char} (h : Laid ts cs) {c : Char}
    (hc : Text.isBlank c = true) : Laid ts (c :: cs) := by
  cases h with
  | blank hgap => exact .blank (List.forall_mem_cons.2 ⟨hc, hgap⟩)
  | token hgap hw hapart hrest =>
    rw [← List.cons_append]
    exact .token (List.forall_mem_cons.2 ⟨hc, hgap⟩) hw hapart hrest

/-- A word that is pushed stands before a text that it does not run into. -/
theorem Laid.pushWord {ts : List (List Char)} {word cs : List Char} (h : Laid ts cs)
    (hword : ∀ c ∈ word, isPlain c = true) (hapart : SetApart ts cs) :
    Laid (Text.pushWord word ts) (word ++ cs) := by
  cases word with
  | nil => exact h
  | cons c word =>
    have hgap : ∀ b ∈ ([] : List Char), Text.isBlank b = true := by simp
    exact .token hgap (Or.inr (Or.inr ⟨by simp, hword⟩)) (fun _ => hapart) h

theorem laid_scan {word : List Char} (hword : ∀ c ∈ word, isPlain c = true) (cs : List Char) :
    Laid (scan word cs) (word ++ cs) := by
  induction cs generalizing word with
  | nil =>
    rw [scan]
    exact Laid.pushWord (.blank (by simp)) hword nofun
  | cons c cs ih =>
    have hrest : Laid (scan [] cs) cs := ih (by simp)
    rw [scan]
    split
    · next hblank =>
      exact (hrest.cons_blank hblank).pushWord hword fun _ _ _ => ⟨c, cs, rfl, hblank⟩
    · next hblank =>
      split
      · next hc =>
        have hvalid : Valid [c] := by
          rcases hc with rfl | rfl
          · exact Or.inl rfl
          · exact Or.inr (Or.inl rfl)
        have hgap : ∀ b ∈ ([] : List Char), Text.isBlank b = true := by simp
        have hparenthesis : Laid ([c] :: scan [] cs) (c :: cs) :=
          .token hgap hvalid (fun h => absurd h (not_word_parenthesis hc)) hrest
        refine hparenthesis.pushWord hword fun u hu hplain => ?_
        cases hu
        exact absurd hplain (not_word_parenthesis hc)
      · next hc =>
        have hplain : isPlain c = true := isPlain_iff.2 ⟨by simpa using hblank, not_or.1 hc⟩
        have hlonger : Laid (scan (word ++ [c]) cs) (word ++ [c] ++ cs) := by
          refine ih fun b hb => ?_
          rcases List.mem_append.1 hb with hb | hb
          · exact hword b hb
          · rw [List.mem_singleton.1 hb]
            exact hplain
        rwa [List.append_assoc] at hlonger

/-- What follows a word in a text does not go on with it. -/
theorem Laid.ofChars_word {w cs : List Char} {ts : List (List Char)} (h : Laid ts cs) (hw : Word w)
    (hapart : SetApart ts cs) : ofChars (w ++ cs) = w :: ofChars cs := by
  have hone : ofChars w = [w] := by
    rw [ofChars_pushWord hw.2]
    exact if_neg (by simpa using hw.1)
  have hblank : ∀ b rest, cs = b :: rest → Text.isBlank b = true →
      ofChars (w ++ cs) = w :: ofChars cs := by
    rintro b rest rfl hb
    rw [ofChars_append_blank hb, ofChars_cons_blank hb, hone]
    rfl
  have hparenthesis : ∀ c rest, c = '(' ∨ c = ')' → cs = [c] ++ rest →
      ofChars (w ++ cs) = w :: ofChars cs := by
    rintro c rest hc rfl
    rw [List.singleton_append, ofChars_append_parenthesis hc, ofChars_parenthesis hc, hone]
    rfl
  cases h with
  | blank hgap =>
    cases cs with
    | nil =>
      rw [List.append_nil, hone]
      rfl
    | cons b rest => exact hblank b rest rfl (hgap b (by simp))
  | @token gap u rest ts hgap hu _ _ =>
    cases gap with
    | cons b gap => exact hblank b _ rfl (hgap b (by simp))
    | nil =>
      rcases hu with rfl | rfl | hu
      · exact hparenthesis '(' rest (Or.inl rfl) rfl
      · exact hparenthesis ')' rest (Or.inr rfl) rfl
      · obtain ⟨b, rest', heq, hb⟩ := hapart u rfl hu
        exact hblank b rest' heq hb

theorem Laid.eq_ofChars {ts : List (List Char)} {cs : List Char} (h : Laid ts cs) :
    ts = ofChars cs := by
  induction h with
  | @blank gap hgap =>
    rw [ofChars_of_isBlank hgap]
  | @token gap w cs ts hgap hw hapart hrest ih =>
    rw [ofChars_gap hgap]
    rcases hw with rfl | rfl | hw
    · rw [List.singleton_append, ofChars_parenthesis (Or.inl rfl), ih]
    · rw [List.singleton_append, ofChars_parenthesis (Or.inr rfl), ih]
    · rw [hrest.ofChars_word hw (hapart hw), ih]

theorem laid_iff {ts : List (List Char)} {cs : List Char} : Laid ts cs ↔ ts = ofChars cs := by
  constructor
  · exact Laid.eq_ofChars
  · rintro rfl
    have hlaid : Laid (scan [] cs) cs := laid_scan (by simp) cs
    rwa [scan_eq (by simp)] at hlaid

theorem Laid.valid {ts : List (List Char)} {cs : List Char} (h : Laid ts cs) :
    ∀ w ∈ ts, Valid w := by
  induction h with
  | blank _ => simp
  | token _ hw _ _ ih => exact List.forall_mem_cons.2 ⟨hw, ih⟩

theorem Laid.flatten_eq {ts : List (List Char)} {cs : List Char} (h : Laid ts cs) :
    ts.flatten = cs.filter fun c => !Text.isBlank c := by
  have hgone : ∀ gap : List Char, (∀ c ∈ gap, Text.isBlank c = true) →
      gap.filter (fun c => !Text.isBlank c) = [] := by
    intro gap hgap
    exact List.filter_eq_nil_iff.2 fun c hc => by simp [hgap c hc]
  induction h with
  | blank hgap => rw [hgone _ hgap, List.flatten_nil]
  | @token gap w cs ts hgap hw _ _ ih =>
    have hkept : w.filter (fun c => !Text.isBlank c) = w :=
      List.filter_eq_self.2 fun c hc => by simp [hw.isBlank hc]
    rw [List.flatten_cons, List.filter_append, List.filter_append, hgone gap hgap, hkept, ih]
    rfl

theorem valid_of_mem_ofChars {cs w : List Char} (h : w ∈ ofChars cs) : Valid w :=
  (laid_iff.2 rfl).valid w h

/-- A token that is no parenthesis is a word. -/
theorem word_of_mem_tokenize {source token : String} (h : token ∈ tokenize source)
    (hopen : token ≠ opening) (hclose : token ≠ closing) : Word token.toList := by
  rw [tokenize_eq] at h
  obtain ⟨w, hw, rfl⟩ := List.mem_map.1 h
  rw [String.toList_ofList]
  rcases valid_of_mem_ofChars hw with rfl | rfl | hword
  · exact absurd opening_eq.symm hopen
  · exact absurd closing_eq.symm hclose
  · exact hword

/-! ## Texts -/

theorem map_toList_tokenize (source : String) :
    (tokenize source).map String.toList = ofChars source.toList := by
  rw [tokenize_eq, List.map_map]
  exact List.map_id'' (fun w => String.toList_ofList) _

theorem eq_tokenize_iff {tokens : List String} {source : String} :
    tokens = tokenize source ↔ Laid (tokens.map String.toList) source.toList := by
  rw [laid_iff, ← map_toList_tokenize]
  exact (List.map_inj_right fun _ _ => String.toList_injective).symm

theorem join_tokenize (source : String) :
    String.join (tokenize source) =
      String.ofList (source.toList.filter fun c => !Text.isBlank c) := by
  apply String.toList_injective
  rw [String.toList_join, String.toList_ofList, List.flatMap_def, map_toList_tokenize]
  exact (laid_iff.2 rfl).flatten_eq

theorem tokenize_append_blank (source rest : String) {w : String} (hne : w ≠ "")
    (hw : ∀ c ∈ w.toList, Text.isBlank c = true) :
    tokenize (source ++ w ++ rest) = tokenize source ++ tokenize rest := by
  obtain ⟨c, gap, hchars⟩ : ∃ c gap, w.toList = c :: gap :=
    List.exists_cons_of_ne_nil fun h => hne (String.toList_eq_nil_iff.1 h)
  rw [hchars] at hw
  rw [tokenize_eq, tokenize_eq, tokenize_eq, String.toList_append, String.toList_append, hchars,
    List.append_assoc, List.cons_append, ofChars_append_blank (hw c (by simp)),
    ofChars_gap fun b hb => hw b (by simp [hb]), List.map_append]

theorem tokenize_append_parenthesis (source rest : String) {c : Char} (hc : c = '(' ∨ c = ')') :
    tokenize (source ++ String.ofList [c] ++ rest) =
      tokenize source ++ String.ofList [c] :: tokenize rest := by
  rw [tokenize_eq, tokenize_eq, tokenize_eq, String.toList_append, String.toList_append,
    String.toList_ofList, List.append_assoc, List.singleton_append, ofChars_append_parenthesis hc,
    List.map_append, List.map_cons]

end Token

/-! ## Top theorem -/

open Token

/-- Blanks around the opening parentheses, then around the closing ones, and a split at blanks: this
finds the tokens that one pass over the text finds.  Each is a parenthesis or a word, together they are
the text without its blanks, and they are the only tokens that can be laid out in it.  So tokens
before a blank or a parenthesis do not depend on what comes after it. -/
theorem tokenize_maximal_munch (source : String) :
    tokenize source =
        (Text.words (surround ')' (surround '(' source.toList))).map String.ofList ∧
      tokenize source = (scan [] source.toList).map String.ofList ∧
      (∀ token ∈ tokenize source, token = opening ∨ token = closing ∨ Word token.toList) ∧
      String.join (tokenize source) =
        String.ofList (source.toList.filter fun c => !Text.isBlank c) ∧
      (∀ tokens, tokens = tokenize source ↔ Laid (tokens.map String.toList) source.toList) ∧
      (∀ w rest : String, w ≠ "" → (∀ c ∈ w.toList, Text.isBlank c = true) →
        tokenize (source ++ w ++ rest) = tokenize source ++ tokenize rest) ∧
      (∀ rest, tokenize (source ++ opening ++ rest) =
        tokenize source ++ opening :: tokenize rest) ∧
      ∀ rest, tokenize (source ++ closing ++ rest) =
        tokenize source ++ closing :: tokenize rest := by
  refine ⟨?_, ?_, ?_, join_tokenize source, fun tokens => eq_tokenize_iff, ?_, ?_, ?_⟩
  · rw [← spaced_eq_surround]
    rfl
  · rw [scan_eq (by simp)]
    rfl
  · intro token htoken
    by_cases hopen : token = opening
    · exact Or.inl hopen
    · by_cases hclose : token = closing
      · exact Or.inr (Or.inl hclose)
      · exact Or.inr (Or.inr (word_of_mem_tokenize htoken hopen hclose))
  · intro w rest hne hw
    exact tokenize_append_blank source rest hne hw
  · intro rest
    rw [opening_eq]
    exact tokenize_append_parenthesis source rest (Or.inl rfl)
  · intro rest
    rw [closing_eq]
    exact tokenize_append_parenthesis source rest (Or.inr rfl)

/-- An em space between two words, and a parenthesis that needs none. -/
theorem tokenize_maximal_munch_em_space :
    tokenize ("(ab" ++ "\u2003\t" ++ "c)d") = tokenize "(ab" ++ tokenize "c)d" ∧
      Laid [['('], ['a', 'b']] "(ab".toList ∧ Laid [['c'], [')'], ['d']] "c)d".toList := by
  obtain ⟨-, -, -, -, hfirst, hblank, -, -⟩ := tokenize_maximal_munch "(ab"
  obtain ⟨-, -, -, -, hsecond, -, -, -⟩ := tokenize_maximal_munch "c)d"
  have hbefore : ["(", "ab"] = tokenize "(ab" := by decide +kernel
  have hafter : ["c", ")", "d"] = tokenize "c)d" := by decide +kernel
  have hgap : "\u2003\t".toList.all Text.isBlank = true := by decide +kernel
  have happend := hblank "\u2003\t" "c)d" (by decide) (List.all_eq_true.1 hgap)
  exact ⟨happend, (hfirst _).1 hbefore, (hsecond _).1 hafter⟩

end SmallLisp
