import SmallLisp.Proofs.Output
import SmallLisp.Proofs.Scanner
import SmallLisp.Proofs.Traces

/-!
Sessions and files.

A file whose lines are those of a session has their tokens, one line after another
(`Token.tokenize_intercalate`), whatever its line breaks are (`Token.tokenize_unifyBreaks`).  If each
line of the session is answered with a printed value (`Session.Printed`), the file reads, and evaluating
it at once does line by line what the session does: the stores agree after each line, and the value is
that of the last line that is not blank (`Session.Replays`, `Session.exists_replays`).  So the file is
run to the same bindings, with what the session wrote for that line (`CommandLine.runProgram_replays`).
-/

namespace SmallLisp

/-! ## Tokens of lines -/

namespace Token

/-- Only a blank text has no tokens. -/
theorem isEmpty_strip_of_tokenize {source : String} (h : tokenize source = []) :
    (Text.strip source).isEmpty = true := by
  have hblank : ∀ c ∈ source.toList, Text.isBlank c = true := by
    have hlaid := eq_tokenize_iff.1 h.symm
    cases hlaid with
    | blank hgap => exact hgap
  have hdrop : source.toList.dropWhile Text.isBlank = [] := List.dropWhile_eq_nil_iff.2 hblank
  rw [Text.strip, Text.stripChars, hdrop]
  rfl

theorem tokenize_intercalate (lines : List String) :
    tokenize ("\n".intercalate lines) = lines.flatMap tokenize := by
  induction lines with
  | nil => rfl
  | cons line lines ih =>
    cases lines with
    | nil => simp
    | cons next lines =>
      rw [String.intercalate_cons_cons, tokenize_append_newline, ih]
      rfl

theorem foldr_spaced_cons (c : Char) (cs : List Char) (p : List Char × List (List Char)) :
    (spaced (c :: cs)).foldr Text.addChar p =
      (spaced [c]).foldr Text.addChar ((spaced cs).foldr Text.addChar p) := by
  rw [← List.singleton_append, spaced_append, List.foldr_append]

open CommandLine in
/-- Line breaks of all kinds are blank, and so are two in a row. -/
theorem tokenize_unifyBreaks (cs : List Char) :
    tokenize (String.ofList (unifyBreaks cs)) = tokenize (String.ofList cs) := by
  have hfold : (spaced (unifyBreaks cs)).foldr Text.addChar ([], []) =
      (spaced cs).foldr Text.addChar ([], []) := by
    fun_induction unifyBreaks cs with
    | case1 => rfl
    | case2 rest ih =>
      rw [foldr_spaced_cons, ih, foldr_spaced_cons '\r', foldr_spaced_cons '\n']
      rfl
    | case3 rest _ ih =>
      rw [foldr_spaced_cons, ih, foldr_spaced_cons '\r']
      rfl
    | case4 c rest _ _ ih => rw [foldr_spaced_cons, ih, foldr_spaced_cons c rest]
  rw [tokenize_eq, tokenize_eq, String.toList_ofList, String.toList_ofList, ofChars, ofChars,
    Text.words, Text.words, hfold]

end Token

/-! ## Lines answered with a printed value -/

theorem Interpreter.eval_eq_ok_iff {limit : Nat} {root : FrameId} {source : String} {s s' : Store}
    {v : Value} :
    eval limit root source s = .ok v s' ↔ ∃ data, parseAll limit source = (data, none) ∧
      evalData limit root .unspecified data s = .ok v s' := by
  constructor
  · intro h
    cases hread : parseAll limit source with
    | mk data fault =>
      cases fault with
      | some fault =>
        rw [eval_of_not_reads hread] at h
        cases h
      | none =>
        rw [eval_of_reads hread, reportExhaustion] at h
        refine ⟨data, rfl, ?_⟩
        split at h
        · cases h
        · exact h
  · rintro ⟨data, hread, hdata⟩
    rw [eval_of_reads hread, reportExhaustion, hdata]

namespace Session

/-- Evaluation of a line ends with a value that has a text. -/
def Printed (limit : Nat) (root : FrameId) (source : String) (s : Store) : Prop :=
  ∃ v s' text, Interpreter.eval limit root source s = .ok v s' ∧ v.print limit = .ok text

def isPrinted (limit : Nat) (root : FrameId) (source : String) (s : Store) : Bool :=
  match Interpreter.eval limit root source s with
  | .ok v _ => (v.print limit).isOk
  | .error _ _ => false

theorem isPrinted_iff {limit : Nat} {root : FrameId} {source : String} {s : Store} :
    isPrinted limit root source s = true ↔ Printed limit root source s := by
  unfold isPrinted Printed
  cases Interpreter.eval limit root source s with
  | ok v s' => cases hv : v.print limit <;> simp [hv, Except.isOk, Except.toBool]
  | error fault s' => simp

instance (limit : Nat) (root : FrameId) (source : String) (s : Store) :
    Decidable (Printed limit root source s) :=
  decidable_of_iff _ isPrinted_iff

variable {limit : Nat} {root : FrameId} {s t : Store} {source : String} {lines : List String}

/-- What the session does for a line with a printed value. -/
theorem turn_of_printed (hexit : Text.strip source ≠ exitCommand)
    (hblank : (Text.strip source).isEmpty = false) {v : Value} {s' : Store} {text : String}
    (heval : Interpreter.eval limit root source s = .ok v s') (htext : v.print limit = .ok text) :
    turn limit root source s = ⟨(takeShown s').1 ++ line text, (takeShown s').2, none, false⟩ := by
  have hanswer : Interpreter.answer limit root source s = (.printed text, s') := by
    rw [Interpreter.answer, heval]
    dsimp only
    rw [htext]
  rw [turn_eq hexit, if_neg (by simp [hblank]), respond_eq, hanswer]

/-- A session takes out of the store what is shown. -/
theorem output_turn (limit : Nat) (root : FrameId) (source : String) (h : s.output = "") :
    (turn limit root source s).store.output = "" := by
  by_cases hexit : Text.strip source = exitCommand
  · rw [turn, if_pos hexit]
    exact h
  · rw [turn_eq hexit, respond_eq]
    split
    · exact h
    · cases (Interpreter.answer limit root source s).1 <;> rfl

theorem output_run (limit : Nat) (root : FrameId) (lines : List String) (h : s.output = "") :
    (run limit root s lines).store.output = "" := by
  induction lines generalizing s with
  | nil => exact h
  | cons source lines ih =>
    have hturn := output_turn limit root source h
    cases hended : (turn limit root source s).ended with
    | true =>
      rw [run_of_ended hended]
      dsimp only
      exact hturn
    | false =>
      rw [run_of_not_ended hended]
      exact ih hturn

/-- A line that is not blank, evaluated after others in one go. -/
theorem Printed.evalData (hprinted : Printed limit root source s)
    (hblank : (Text.strip source).isEmpty = false) (h : s.Agrees t) (last : Value) :
    ∃ data v s' t' text, parseAll limit source = (data, none) ∧
      Interpreter.eval limit root source s = .ok v s' ∧ v.print limit = .ok text ∧
      Interpreter.evalData limit root last data t = .ok v t' ∧ s'.Beside s.output t.output t' := by
  obtain ⟨v, s', text, heval, htext⟩ := hprinted
  obtain ⟨data, hread, hdata⟩ := Interpreter.eval_eq_ok_iff.1 heval
  have halike := h.evalData limit root data
  rw [hdata] at halike
  generalize hresult : Interpreter.evalData limit root .unspecified data t = result at halike
  cases halike with
  | @ok _ _ t' hbeside =>
    refine ⟨data, v, s', t', text, hread, heval, htext, ?_, hbeside⟩
    cases data with
    | nil =>
      -- a text that reads as nothing is blank
      obtain ⟨hderives, -⟩ := parseAll_eq_iff.1 hread
      generalize htokens : tokenize source = tokens at hderives
      cases hderives
      rw [Token.isEmpty_strip_of_tokenize htokens] at hblank
      cases hblank
    | cons d ds => exact hresult

/-! ## All lines -/

/-- A run from `t` to `t'` that evaluates lines in one go, after the value `last`, and comes to `v`,
does what the session does from `s`: the value is that of the last line that is not blank. -/
structure Replays (limit : Nat) (root : FrameId) (s t : Store) (lines : List String) (last v : Value)
    (t' : Store) : Prop where
  store : (run limit root s lines).store.Agrees t'
  shown : ∃ text, (run limit root s lines).shown = s.output ++ text ∧ t'.output = t.output ++ text
  blank : (∀ line ∈ lines, (Text.strip line).isEmpty = true) → v = last
  value : ∀ i line, lines[i]? = some line → (Text.strip line).isEmpty = false →
    (∀ later ∈ lines.drop (i + 1), (Text.strip later).isEmpty = true) →
    ∃ s', Interpreter.eval limit root line (reached limit root s lines i) = .ok v s'

theorem replays_nil (h : s.Agrees t) (v : Value) : Replays limit root s t [] v v t where
  store := h
  shown := ⟨"", by simp [run, Transcript.shown, farewell], String.append_empty.symm⟩
  blank _ := rfl
  value _ _ h := by cases h

/-- One more line in front, which leads from `t` to `t₁` and to the value `mid`. -/
theorem Replays.cons {t₁ t' : Store} {last mid v : Value}
    (hgoes : (turn limit root source s).ended = false)
    (hshown : ∃ text, displayed (turn limit root source s).events ++
      (turn limit root source s).store.output = s.output ++ text ∧ t₁.output = t.output ++ text)
    (hblank : (Text.strip source).isEmpty = true → mid = last)
    (hvalue : (Text.strip source).isEmpty = false →
      ∃ s', Interpreter.eval limit root source s = .ok mid s')
    (h : Replays limit root (turn limit root source s).store t₁ lines mid v t') :
    Replays limit root s t (source :: lines) last v t' where
  store := by
    rw [run_of_not_ended hgoes]
    exact h.store
  shown := by
    obtain ⟨text, hs, ht⟩ := hshown
    obtain ⟨text', hs', ht'⟩ := h.shown
    refine ⟨text ++ text', ?_, by rw [ht', ht, String.append_assoc]⟩
    rw [Transcript.shown] at hs'
    rw [run_of_not_ended hgoes, Transcript.shown, displayed_append, displayed_prompted,
      String.append_assoc, hs', ← String.append_assoc, hs, String.append_assoc]
  blank hall := by
    rw [h.blank fun line hline => hall line (by simp [hline]), hblank (hall source (by simp))]
  value i line hline hnot hlater := by
    cases i with
    | zero =>
      cases hline
      obtain ⟨s', heval⟩ := hvalue hnot
      rw [h.blank hlater]
      exact ⟨s', heval⟩
    | succ i =>
      rw [reached_succ hgoes]
      exact h.value i line hline hnot hlater

/-- Lines that the session answers with printed values read together, and evaluating them in one go does
what the session does. -/
theorem exists_replays (hexit : ∀ line ∈ lines, Text.strip line ≠ exitCommand)
    (hprinted : ∀ i line, lines[i]? = some line → (Text.strip line).isEmpty = false →
      Printed limit root line (reached limit root s lines i))
    (h : s.Agrees t) {last : Value} (hlast : ∃ text, last.print limit = .ok text) :
    ∃ data v t', Grammar.DerivesAll (lines.flatMap tokenize) data ∧ Datum.nestingAll data ≤ limit ∧
      Interpreter.evalData limit root last data t = .ok v t' ∧
      (∃ text, v.print limit = .ok text) ∧ Replays limit root s t lines last v t' := by
  induction lines generalizing s t last with
  | nil => exact ⟨[], last, t, .nil, Nat.zero_le _, rfl, hlast, replays_nil h last⟩
  | cons source lines ih =>
    have hsource := hexit source (by simp)
    have hlines : ∀ line ∈ lines, Text.strip line ≠ exitCommand :=
      fun line hline => hexit line (by simp [hline])
    have hnext : (turn limit root source s).ended = false → ∀ i line, lines[i]? = some line →
        (Text.strip line).isEmpty = false →
        Printed limit root line (reached limit root (turn limit root source s).store lines i) := by
      intro hgoes i line hline hnot
      rw [← reached_succ hgoes]
      exact hprinted (i + 1) line hline hnot
    cases hblank : (Text.strip source).isEmpty with
    | true =>
      -- no tokens and no turn: neither run moves
      have hturn : turn limit root source s = ⟨[], s, none, false⟩ := by
        rw [turn_eq hsource, if_pos hblank]
      have htokens : tokenize source = [] := Token.tokenize_of_blank hblank
      have hgoes : (turn limit root source s).ended = false := by rw [hturn]
      rw [hturn] at hnext
      obtain ⟨data, v, t', hderives, hnesting, heval, htext, hreplays⟩ := ih hlines (hnext rfl) h hlast
      refine ⟨data, v, t', ?_, hnesting, heval, htext, ?_⟩
      · rwa [List.flatMap_cons, htokens, List.nil_append]
      · refine Replays.cons hgoes ⟨"", ?_, String.append_empty.symm⟩
          (fun _ => rfl) (fun hnot => ?_) ?_
        · rw [hturn]
          simp
        · rw [hblank] at hnot
          cases hnot
        · rwa [hturn]
    | false =>
      -- both runs evaluate the data of the line, in stores that agree; only the session then takes out
      -- what was shown
      have hfirst := hprinted 0 source rfl hblank
      rw [reached_zero] at hfirst
      obtain ⟨data₁, mid, s₁, t₁, text, hread, heval₁, htext₁, hdata₁, hbeside⟩ :=
        hfirst.evalData hblank h last
      have hturn := turn_of_printed hsource hblank heval₁ htext₁
      have hgoes : (turn limit root source s).ended = false := by rw [hturn]
      obtain ⟨hderives₁, hnesting₁⟩ := parseAll_eq_iff.1 hread
      have hagrees : (turn limit root source s).store.Agrees t₁ := by
        rw [hturn]
        exact ⟨hbeside.frames, hbeside.nextMark, hbeside.recorded⟩
      obtain ⟨data, v, t', hderives, hnesting, heval, htext, hreplays⟩ :=
        ih hlines (hnext hgoes) hagrees ⟨text, htext₁⟩
      refine ⟨data₁ ++ data, v, t', ?_, ?_, ?_, htext, ?_⟩
      · exact hderives₁.append hderives
      · rw [Datum.nestingAll_append]
        exact Nat.max_le.2 ⟨hnesting₁, hnesting⟩
      · rw [Interpreter.evalData_append, Eval.bind_ok hdata₁]
        exact heval
      · refine Replays.cons hgoes ?_ (fun hyes => ?_) (fun _ => ⟨s₁, heval₁⟩) hreplays
        · obtain ⟨shown, hs, ht⟩ := hbeside.output
          refine ⟨shown, ?_, ht⟩
          rw [hturn]
          simp [hs]
        · rw [hblank] at hyes
          cases hyes

end Session

/-! ## Top theorem -/

theorem Eval.quiet_forM {α : Type} {f : α → Eval Unit} (h : ∀ a s, (f a).Quiet s) (xs : List α)
    (s : Store) : (xs.forM f).Quiet s := by
  induction xs generalizing s with
  | nil => exact quiet_pure ()
  | cons a xs ih => exact (h a s).bind fun _ s' _ => ih s'

theorem Eval.quiet_register (f : FrameId) (s : Store) : (register f).Quiet s := by
  refine quiet_forM (fun entry s => ?_) _ s
  obtain ⟨name, entry⟩ := entry
  cases entry <;> rfl

namespace CommandLine

open Session (reached Printed exitCommand written displayed turn)

theorem output_fresh {notices : Array Notice} {root : FrameId} {s : Store}
    (hfresh : fresh notices = (root, s)) : s.output = "" := by
  rw [fresh_eq] at hfresh
  rw [← (Prod.mk.inj hfresh).2]
  exact Eval.quiet_register 0 (Store.bare notices)

theorem runText_of_printed {setup : Setup} {root : FrameId} {s t : Store} {source text : String}
    (hfresh : fresh setup.notices = (root, s))
    (hanswer : Interpreter.answer setup.limit root source s = (.printed text, t)) :
    runText setup source = ⟨t.output ++ written (Session.line text),
      logText setup.logLevel t.notices.toList, .exit 0⟩ := by
  rw [runText, hfresh]
  dsimp only
  rw [hanswer]

theorem readProgram_of_file {entryAt : String → Entry} {path text : String}
    (hnull : (normalPath path).toList.contains (Char.ofNat 0) = false)
    (hfile : entryAt (normalPath path) = .file text) :
    readProgram entryAt path = .ok (String.ofList (unifyBreaks text.toList)) := by
  simp only [readProgram, hnull, hfile, Bool.false_eq_true, if_false]

/-- Let a session on a fresh interpreter answer each line that is not blank with a printed value, none
being the exit command.  Then the file of these lines is run without a fault, to the same bindings in
the root frame; programs show the same; and what is written is what the session wrote for the last line
that is not blank, or nothing if all are. -/
theorem runProgram_replays (setup : Setup) {root : FrameId} {s : Store}
    (hfresh : fresh setup.notices = (root, s)) {lines : List String}
    (hexit : ∀ line ∈ lines, Text.strip line ≠ exitCommand)
    (hprinted : ∀ i line, lines[i]? = some line → (Text.strip line).isEmpty = false →
      Printed setup.limit root line (reached setup.limit root s lines i))
    {entryAt : String → Entry} {path : String}
    (hnull : (normalPath path).toList.contains (Char.ofNat 0) = false)
    (hfile : entryAt (normalPath path) = .file ("\n".intercalate lines)) :
    let session := Session.run setup.limit root s lines
    let outcome := runProgram setup entryAt path
    outcome.ending = .exit 0 ∧
      (∃ source, readProgram entryAt path = .ok source ∧
        (Interpreter.answer setup.limit root source s).2.bindings root =
          session.store.bindings root) ∧
      (∀ i line, lines[i]? = some line → (Text.strip line).isEmpty = false →
        (∀ later ∈ lines.drop (i + 1), (Text.strip later).isEmpty = true) →
        outcome.stdout = displayed session.events ++
          written (turn setup.limit root line (reached setup.limit root s lines i)).events) ∧
      ((∀ line ∈ lines, (Text.strip line).isEmpty = true) →
        outcome.stdout = displayed session.events) := by
  intro session outcome
  have hlast : ∃ text, Value.unspecified.print setup.limit = .ok text := ⟨"", rfl⟩
  obtain ⟨data, v, t, hderives, hnesting, hdata, ⟨text, htext⟩, hreplays⟩ :=
    Session.exists_replays hexit hprinted (.refl s) hlast
  have hread := readProgram_of_file hnull hfile
  generalize hsource : String.ofList (unifyBreaks ("\n".intercalate lines).toList) = source at hread
  have htokens : tokenize source = lines.flatMap tokenize := by
    rw [← hsource, Token.tokenize_unifyBreaks, String.ofList_toList, Token.tokenize_intercalate]
  have hparse : parseAll setup.limit source = (data, none) :=
    parseAll_eq_iff.2 ⟨htokens ▸ hderives, hnesting⟩
  have hanswer : Interpreter.answer setup.limit root source s = (.printed text, t) := by
    rw [Interpreter.answer, Interpreter.eval_eq_ok_iff.2 ⟨data, hparse, hdata⟩]
    dsimp only
    rw [htext]
  have hrun : outcome = runText setup source := by
    show runProgram setup entryAt path = _
    rw [runProgram, hread]
  have hshown : t.output = displayed session.events := by
    obtain ⟨more, hsession, ht⟩ := hreplays.shown
    rw [ht, ← hsession, Session.Transcript.shown,
      Session.output_run setup.limit root lines (output_fresh hfresh), String.append_empty]
  rw [hrun, runText_of_printed hfresh hanswer]
  refine ⟨rfl, ⟨source, hread, ?_⟩, fun i line hline hnot hlater => ?_, fun hblank => ?_⟩
  · rw [hanswer]
    exact hreplays.store.bindings_eq root
  · obtain ⟨s', heval⟩ := hreplays.value i line hline hnot hlater
    have hturn := Session.turn_of_printed (hexit line (List.mem_of_getElem? hline)) hnot heval htext
    rw [hturn, hshown]
    simp
  · have hempty : text = "" := by
      rw [hreplays.blank hblank] at htext
      cases htext
      rfl
    rw [hempty, hshown]
    exact String.append_empty

/-- A definition that a later line uses, with blank lines after either. -/
theorem runProgram_replays_definition :
    let setup : Setup := ⟨50, 30, "> ", #[]⟩
    let s := (fresh #[]).2
    let lines := ["(define k (list 1 2))", "", "(cons 0 k)", "\t"]
    let entryAt := fun _ : String => Entry.file ("\n".intercalate lines)
    let outcome := runProgram setup entryAt "k.lisp"
    (∀ line ∈ lines, Text.strip line ≠ exitCommand) ∧
      Printed 50 0 "(define k (list 1 2))" (reached 50 0 s lines 0) ∧
      Printed 50 0 "(cons 0 k)" (reached 50 0 s lines 2) ∧
      outcome.ending = .exit 0 ∧ outcome.stdout = "(0 1 2)\n" := by
  intro setup s lines entryAt outcome
  have hfresh : fresh setup.notices = (0, s) := by
    show fresh #[] = (0, (fresh #[]).2)
    rw [fresh_eq]
  have hexit : ∀ line ∈ lines, Text.strip line ≠ exitCommand := by decide +kernel
  have hsession : Printed 50 0 "(define k (list 1 2))" (reached 50 0 s lines 0) ∧
      Printed 50 0 "(cons 0 k)" (reached 50 0 s lines 2) ∧
      displayed (Session.run 50 0 s lines).events = "" ∧
      written (turn 50 0 "(cons 0 k)" (reached 50 0 s lines 2)).events = "(0 1 2)\n" := by
    decide +kernel
  obtain ⟨hdefine, hcons, hdisplayed, hwritten⟩ := hsession
  have hprinted : ∀ i line, lines[i]? = some line → (Text.strip line).isEmpty = false →
      Printed setup.limit 0 line (reached setup.limit 0 s lines i) := by
    intro i line hline hnot
    match i, hline with
    | 0, hline => cases hline; exact hdefine
    | 1, hline => cases hline; cases hnot
    | 2, hline => cases hline; exact hcons
    | 3, hline => cases hline; revert hnot; decide +kernel
  have hnull : (normalPath "k.lisp").toList.contains (Char.ofNat 0) = false := by decide +kernel
  have hfile : entryAt (normalPath "k.lisp") = .file ("\n".intercalate lines) := rfl
  obtain ⟨hending, -, hlast, -⟩ := runProgram_replays setup hfresh hexit hprinted hnull hfile
  have hstdout := hlast 2 "(cons 0 k)" rfl (by decide +kernel) (by decide +kernel)
  refine ⟨hexit, hdefine, hcons, hending, hstdout.trans ?_⟩
  exact (congrArg₂ (· ++ ·) hdisplayed hwritten).trans String.empty_append

end CommandLine

end SmallLisp
