import Mathlib.Data.List.TakeWhile
import SmallLisp.CommandLine
import SmallLisp.Proofs.Composition

/-!
Which sessions reach the end of input.

A line is answered if its evaluation ends with a value that has a text or with an error of the
language (`Session.Answered`).  A turn goes on after every line that is answered, a blank one
included, and after no other line but for the exit command (`Session.turn_ended_iff`).  So a session
without that command reads all lines, asks once more and says farewell exactly if every line is
answered in the store that the session has reached by then (`Session.run_survives_iff`).  A value
without a text ends the session, though its evaluation was fine.
-/

namespace SmallLisp

/-! ## Blank texts -/

theorem Token.ofChars_dropWhile (cs : List Char) :
    ofChars (cs.dropWhile Text.isBlank) = ofChars cs := by
  induction cs with
  | nil => rfl
  | cons c cs ih =>
    by_cases hc : Text.isBlank c = true
    · rw [List.dropWhile_cons_of_pos hc, ih]
      exact (ofChars_cons_blank hc cs).symm
    · rw [List.dropWhile_cons_of_neg hc]

theorem Token.ofChars_append_isBlank (cs : List Char) {bs : List Char}
    (hbs : ∀ c ∈ bs, Text.isBlank c = true) : ofChars (cs ++ bs) = ofChars cs := by
  cases bs with
  | nil => rw [List.append_nil]
  | cons b bs =>
    have hrest : ofChars bs = [] := ofChars_of_isBlank fun c hc => hbs c (by simp [hc])
    rw [ofChars_append_blank (hbs b (by simp)), hrest, List.append_nil]

/-- Blanks at the ends of a text make no tokens. -/
theorem Token.tokenize_strip (source : String) : tokenize (Text.strip source) = tokenize source := by
  have hchars : ofChars (Text.stripChars source.toList) = ofChars source.toList := by
    rw [← ofChars_dropWhile source.toList, Text.stripChars]
    generalize source.toList.dropWhile Text.isBlank = cs
    have hsplit := congrArg List.reverse
      (List.takeWhile_append_dropWhile (p := Text.isBlank) (l := cs.reverse))
    rw [List.reverse_append, List.reverse_reverse] at hsplit
    refine Eq.trans (ofChars_append_isBlank _ fun c hc => ?_).symm (congrArg ofChars hsplit)
    exact List.mem_takeWhile_imp (List.mem_reverse.1 hc)
  rw [tokenize_eq, tokenize_eq, Text.strip, String.toList_ofList, hchars]

theorem Token.tokenize_of_blank {source : String} (h : (Text.strip source).isEmpty = true) :
    tokenize source = [] := by
  rw [← tokenize_strip, String.isEmpty_iff.1 h]
  rfl

/-- There is nothing to evaluate in a blank text. -/
theorem Interpreter.eval_blank (limit : Nat) (root : FrameId) {source : String}
    (h : (Text.strip source).isEmpty = true) (s : Store) :
    eval limit root source s = .ok .unspecified s := by
  have hread : parseAll limit source = ([], none) := by
    unfold parseAll
    rw [Token.tokenize_of_blank h]
    rfl
  rw [eval_of_reads hread]
  rfl

/-- Whether a computation ends with a value. -/
def Eval.givesValue {α : Type} (x : Eval α) (s : Store) : Bool :=
  match x s with
  | .ok _ _ => true
  | .error _ _ => false

theorem Eval.exists_of_givesValue {α : Type} {x : Eval α} {s : Store}
    (h : x.givesValue s = true) : ∃ a s', x s = .ok a s' := by
  unfold givesValue at h
  split at h
  · next a s' hx => exact ⟨a, s', hx⟩
  · cases h

namespace Session

/-! ## One line -/

/-- Evaluation of a line ends with a value that has a text or with an error of the language. -/
def Answered (limit : Nat) (root : FrameId) (source : String) (s : Store) : Prop :=
  (Interpreter.eval limit root source).Ends s (fun v _ => ∃ text, v.print limit = .ok text)
    (fun fault _ => ∃ e, fault = .error e)

def isAnswered (limit : Nat) (root : FrameId) (source : String) (s : Store) : Bool :=
  match Interpreter.eval limit root source s with
  | .ok v _ => (v.print limit).isOk
  | .error (.error _) _ => true
  | .error _ _ => false

theorem isAnswered_iff {limit : Nat} {root : FrameId} {source : String} {s : Store} :
    isAnswered limit root source s = true ↔ Answered limit root source s := by
  unfold isAnswered Answered Eval.Ends
  cases Interpreter.eval limit root source s with
  | ok v s' => cases hv : v.print limit <;> simp [hv, Except.isOk, Except.toBool]
  | error fault s' => cases fault <;> simp

instance (limit : Nat) (root : FrameId) (source : String) (s : Store) :
    Decidable (Answered limit root source s) :=
  decidable_of_iff _ isAnswered_iff

/-- What a line that was evaluated leads to, by what its run comes to. -/
theorem respond_eq (limit : Nat) (root : FrameId) (source : String) (s : Store) :
    respond limit root source s =
      let (shown, s') := takeShown (Interpreter.answer limit root source s).2
      match (Interpreter.answer limit root source s).1 with
      | .printed text => ⟨shown ++ line text, s', none, false⟩
      | .failed e => ⟨shown ++ [errorLine e], s'.note (.failed e.kind), none, false⟩
      | .broken fault => ⟨shown, s', some fault, true⟩ :=
  rfl

theorem respond_ended_iff {limit : Nat} {root : FrameId} {source : String} {s : Store} :
    (respond limit root source s).ended = false ↔ Answered limit root source s := by
  unfold Answered Eval.Ends respond Interpreter.answer
  cases Interpreter.eval limit root source s with
  | ok v s' => cases hv : v.print limit <;> simp [hv]
  | error fault s' => cases fault <;> simp

/-- A response after which the session is over has a fault. -/
theorem respond_fault {limit : Nat} {root : FrameId} {source : String} {s : Store}
    (hended : (respond limit root source s).ended = true) :
    (respond limit root source s).fault ≠ none := by
  rw [respond_eq] at hended ⊢
  cases hreport : (Interpreter.answer limit root source s).1 with
  | printed text => simp [hreport] at hended
  | failed e => simp [hreport] at hended
  | broken fault => simp

theorem turn_eq {source : String} (hexit : Text.strip source ≠ exitCommand) (limit : Nat)
    (root : FrameId) (s : Store) :
    turn limit root source s =
      if (Text.strip source).isEmpty then ⟨[], s, none, false⟩ else respond limit root source s := by
  rw [turn, if_neg hexit]

/-- A turn goes on after a line that is answered, and after no other. -/
theorem turn_ended_iff {limit : Nat} {root : FrameId} {source : String} {s : Store}
    (hexit : Text.strip source ≠ exitCommand) :
    (turn limit root source s).ended = false ↔ Answered limit root source s := by
  rw [turn_eq hexit]
  by_cases hblank : (Text.strip source).isEmpty = true
  · rw [if_pos hblank]
    refine ⟨fun _ => ?_, fun _ => rfl⟩
    rw [Answered, Eval.Ends, Interpreter.eval_blank limit root hblank]
    exact ⟨"", rfl⟩
  · rw [if_neg hblank]
    exact respond_ended_iff

/-- A turn after which the session is over, though the line is not the exit command, has a fault. -/
theorem turn_fault {limit : Nat} {root : FrameId} {source : String} {s : Store}
    (hexit : Text.strip source ≠ exitCommand) (hended : (turn limit root source s).ended = true) :
    (turn limit root source s).fault ≠ none := by
  rw [turn_eq hexit] at hended ⊢
  split at hended
  · cases hended
  · next hblank =>
    rw [if_neg hblank]
    exact respond_fault hended

@[simp] theorem prompts_nil : prompts [] = 0 := rfl

@[simp] theorem prompts_prompted (es : List Event) : prompts (.prompted :: es) = prompts es + 1 := by
  simp [prompts]

@[simp] theorem prompts_shown (text : String) (es : List Event) :
    prompts (.shown text :: es) = prompts es := by
  simp [prompts]

@[simp] theorem prompts_wrote (text : String) (es : List Event) :
    prompts (.wrote text :: es) = prompts es := by
  simp [prompts]

@[simp] theorem prompts_append (es es' : List Event) :
    prompts (es ++ es') = prompts es + prompts es' := by
  simp [prompts]

@[simp] theorem prompts_line (text : String) : prompts (line text) = 0 := by
  unfold line
  split <;> simp

@[simp] theorem prompts_takeShown (s : Store) : prompts (takeShown s).1 = 0 := by
  unfold takeShown
  split <;> simp

/-- A turn itself does not ask for input. -/
theorem prompts_turn {source : String} (hexit : Text.strip source ≠ exitCommand) (limit : Nat)
    (root : FrameId) (s : Store) : prompts (turn limit root source s).events = 0 := by
  rw [turn_eq hexit, respond_eq]
  split
  · rfl
  · cases (Interpreter.answer limit root source s).1 <;> simp [errorLine]

/-! ## All lines -/

/-- All of `n` lines were read, input was asked for once more, no fault came up, and the farewell
was written last. -/
structure Survived (t : Transcript) (n : Nat) : Prop where
  unread : t.unread = []
  prompts : prompts t.events = n + 1
  fault : t.fault = none
  farewell : t.events.getLast? = some farewell

/-- The store that a session has reached when it has read the first `i` lines. -/
def reached (limit : Nat) (root : FrameId) (s : Store) (lines : List String) (i : Nat) : Store :=
  (run limit root s (lines.take i)).store

variable {limit : Nat} {root : FrameId} {s : Store} {source : String} {lines : List String}

theorem run_of_not_ended (h : (turn limit root source s).ended = false) (lines : List String) :
    run limit root s (source :: lines) =
      { run limit root (turn limit root source s).store lines with
        events := .prompted :: (turn limit root source s).events ++
          (run limit root (turn limit root source s).store lines).events } := by
  rw [run, if_neg (by simp [h])]

theorem run_of_ended (h : (turn limit root source s).ended = true) (lines : List String) :
    run limit root s (source :: lines) =
      ⟨.prompted :: (turn limit root source s).events, (turn limit root source s).store, lines,
        (turn limit root source s).fault⟩ := by
  rw [run, if_pos h]

theorem reached_zero : reached limit root s lines 0 = s := rfl

theorem reached_succ (h : (turn limit root source s).ended = false) (i : Nat) :
    reached limit root s (source :: lines) (i + 1) =
      reached limit root (turn limit root source s).store lines i := by
  rw [reached, List.take_succ_cons, run_of_not_ended h]
  rfl

/-- One more line in front, after which the session goes on. -/
theorem survived_cons_iff (hexit : Text.strip source ≠ exitCommand)
    (h : (turn limit root source s).ended = false) :
    Survived (run limit root s (source :: lines)) (lines.length + 1) ↔
      Survived (run limit root (turn limit root source s).store lines) lines.length := by
  rw [run_of_not_ended h]
  generalize run limit root (turn limit root source s).store lines = t
  have hprompts : prompts (.prompted :: (turn limit root source s).events ++ t.events) =
      prompts t.events + 1 := by
    simp [prompts_turn hexit]
  have hlast : t.events ≠ [] →
      (.prompted :: (turn limit root source s).events ++ t.events).getLast? =
        t.events.getLast? := by
    intro hne
    rw [List.getLast?_append, List.getLast?_eq_some_getLast hne]
    rfl
  constructor
  · rintro ⟨hunread, hp, hfault, hbye⟩
    have hasked : prompts t.events = lines.length + 1 := by
      have := hprompts.symm.trans hp
      omega
    have hne : t.events ≠ [] := by
      rintro hnil
      rw [hnil] at hasked
      cases hasked
    exact ⟨hunread, hasked, hfault, (hlast hne).symm.trans hbye⟩
  · rintro ⟨hunread, hp, hfault, hbye⟩
    have hne : t.events ≠ [] := by
      rintro hnil
      rw [hnil] at hbye
      cases hbye
    exact ⟨hunread, by rw [hprompts, hp], hfault, (hlast hne).trans hbye⟩

/-- A session whose lines are not the exit command reads all of them, asks once more, lets no fault
out and ends with the farewell exactly if every line is answered: evaluated in the store that the
session has reached, it ends with a value that has a text or with an error of the language. -/
theorem run_survives_iff (limit : Nat) (root : FrameId) (s : Store) (lines : List String)
    (hexit : ∀ line ∈ lines, Text.strip line ≠ exitCommand) :
    Survived (run limit root s lines) lines.length ↔
      ∀ i line, lines[i]? = some line →
        Answered limit root line (reached limit root s lines i) := by
  induction lines generalizing s with
  | nil =>
    constructor
    · intro _ i line h
      cases h
    · intro _
      exact ⟨rfl, rfl, rfl, rfl⟩
  | cons source lines ih =>
    have hsource := hexit source (by simp)
    have hlines : ∀ line ∈ lines, Text.strip line ≠ exitCommand :=
      fun line h => hexit line (by simp [h])
    cases hended : (turn limit root source s).ended with
    | false =>
      rw [List.length_cons, survived_cons_iff hsource hended, ih _ hlines]
      constructor
      · intro h i line hline
        cases i with
        | zero =>
          cases hline
          rw [reached_zero]
          exact (turn_ended_iff hsource).1 hended
        | succ i =>
          rw [reached_succ hended]
          exact h i line hline
      · intro h i line hline
        rw [← reached_succ hended]
        exact h (i + 1) line hline
    | true =>
      constructor
      · intro h
        rw [run_of_ended hended] at h
        exact absurd h.fault (turn_fault hsource hended)
      · intro h
        have hanswered := h 0 source rfl
        rw [reached_zero] at hanswered
        have hgoes := (turn_ended_iff hsource).2 hanswered
        rw [hended] at hgoes
        cases hgoes

/-- A value, an unreadable line and a blank one. -/
theorem run_survives_iff_unreadable :
    let s : Store := { Store.empty with frames := #[⟨[(.symbol "t", .bool true)], none⟩] }
    let lines := ["t", "(t", " "]
    (∀ line ∈ lines, Text.strip line ≠ exitCommand) ∧ Survived (run 9 0 s lines) 3 := by
  intro s lines
  have hexit : ∀ line ∈ lines, Text.strip line ≠ exitCommand := by decide +kernel
  refine ⟨hexit, (run_survives_iff 9 0 s lines hexit).2 fun i line h => ?_⟩
  match i, h with
  | 0, h => cases h; decide +kernel
  | 1, h => cases h; decide +kernel
  | 2, h => cases h; decide +kernel

/-- `(factorial 2000)` ends with a value, but the session is over with it: the integer has no text,
the line after it is not read, and there is no farewell. -/
theorem run_not_survived_long_integer :
    let s := (CommandLine.fresh #[]).2
    let lines := ["(factorial 2000)", "1"]
    (∀ line ∈ lines, Text.strip line ≠ exitCommand) ∧
      (∃ v s', Interpreter.eval Interpreter.standardLimit 0 "(factorial 2000)" s = .ok v s') ∧
      (run Interpreter.standardLimit 0 s lines).fault = some .integerText ∧
      (run Interpreter.standardLimit 0 s lines).unread = ["1"] ∧
      prompts (run Interpreter.standardLimit 0 s lines).events = 1 ∧
      ¬ Survived (run Interpreter.standardLimit 0 s lines) 2 := by
  intro s lines
  have hvalue : (Interpreter.eval Interpreter.standardLimit 0 "(factorial 2000)").givesValue s =
      true := by decide +kernel
  have hfault : (run Interpreter.standardLimit 0 s lines).fault = some .integerText := by
    decide +kernel
  refine ⟨by decide +kernel, Eval.exists_of_givesValue hvalue, hfault, by decide +kernel,
    by decide +kernel, fun h => ?_⟩
  rw [h.fault] at hfault
  cases hfault

end Session

end SmallLisp
