import SmallLisp.Proofs.Traces

/-!
Lines that a session passes over.

Nothing is evaluated for a line that is blank or that does not read (`Session.Idle`), so what comes
after it starts from a store that agrees with the one before (`Session.Idle.turn`).  A session that
gets through some lines goes on from the store that it has reached with them
(`Session.GetsThrough.run_append`), and one that does not is over before what comes after them
(`Session.run_append_of_not_getsThrough`).  Hence such a line, put between others, is asked for and
answered, and makes no other difference (`Session.run_idle_line`).
-/

namespace SmallLisp.Session

variable {limit : Nat} {root : FrameId} {s : Store} {source : String} {lines : List String}

/-! ## Lines one after another -/

/-- None of the lines is the exit command, and no fault comes up with them. -/
def GetsThrough (limit : Nat) (root : FrameId) (s : Store) (lines : List String) : Prop :=
  (∀ line ∈ lines, Text.strip line ≠ exitCommand) ∧ (run limit root s lines).fault = none

theorem not_exit_of_not_ended (h : (turn limit root source s).ended = false) :
    Text.strip source ≠ exitCommand := by
  intro hexit
  rw [turn, if_pos hexit] at h
  cases h

theorem getsThrough_cons_iff (h : (turn limit root source s).ended = false) :
    GetsThrough limit root s (source :: lines) ↔
      GetsThrough limit root (turn limit root source s).store lines := by
  unfold GetsThrough
  rw [run_of_not_ended h]
  simp [not_exit_of_not_ended h]

theorem GetsThrough.not_ended (h : GetsThrough limit root s (source :: lines)) :
    (turn limit root source s).ended = false := by
  obtain ⟨hexit, hfault⟩ := h
  cases hended : (turn limit root source s).ended with
  | false => rfl
  | true =>
    rw [run_of_ended hended] at hfault
    exact absurd hfault (turn_fault (hexit source (by simp)) hended)

/-- After lines that it gets through, a session goes on from the store that it has reached. -/
theorem GetsThrough.run_append (h : GetsThrough limit root s lines) :
    ∃ before, (run limit root s lines).events = before ++ [.prompted, farewell] ∧
      ∀ more, run limit root s (lines ++ more) =
        { run limit root (run limit root s lines).store more with
          events := before ++ (run limit root (run limit root s lines).store more).events } := by
  induction lines generalizing s with
  | nil => exact ⟨[], rfl, fun _ => rfl⟩
  | cons source lines ih =>
    have hgoes := h.not_ended
    obtain ⟨before, hevents, hmore⟩ := ih ((getsThrough_cons_iff hgoes).1 h)
    rw [run_of_not_ended hgoes]
    refine ⟨.prompted :: (turn limit root source s).events ++ before, ?_, fun more => ?_⟩
    · simp [hevents]
    · rw [List.cons_append, run_of_not_ended hgoes, hmore more]
      simp

/-- A session that does not get through some lines reads none of those after them. -/
theorem run_append_of_not_getsThrough (h : ¬ GetsThrough limit root s lines) (more : List String) :
    run limit root s (lines ++ more) =
      { run limit root s lines with unread := (run limit root s lines).unread ++ more } := by
  induction lines generalizing s with
  | nil => exact absurd ⟨nofun, rfl⟩ h
  | cons source lines ih =>
    cases hended : (turn limit root source s).ended with
    | true => rw [List.cons_append, run_of_ended hended, run_of_ended hended]
    | false =>
      have hrest := ih fun hthrough => h ((getsThrough_cons_iff hended).2 hthrough)
      rw [List.cons_append, run_of_not_ended hended, run_of_not_ended hended, hrest]

/-! ## Lines for which nothing is evaluated -/

/-- A line for which nothing is evaluated, with what is written for it. -/
inductive Idle (limit : Nat) (source : String) : String → Prop
  | blank : (Text.strip source).isEmpty = true → Idle limit source ""
  | unreadable {fault : ReadFault} : (parseAll limit source).2 = some fault →
    Idle limit source ("error: " ++ fault.message ++ "\n")

/-- The exit command reads, and so does every line that is stripped to it. -/
theorem not_exit_of_unreadable (hlimit : 0 < limit) {fault : ReadFault}
    (h : (parseAll limit source).2 = some fault) : Text.strip source ≠ exitCommand := by
  intro hexit
  have htokens : tokenize source = [Token.opening, "exit", Token.closing] := by
    rw [← Token.tokenize_strip, hexit]
    decide +kernel
  have hreads : parseAll limit source = ([.list [.atom "exit"]], none) := by
    refine parseAll_eq_iff.2 ⟨?_, ?_⟩
    · have hatom : Grammar.Derives ["exit"] (.atom "exit") := .atom (by decide) (by decide)
      rw [htokens]
      exact (Grammar.Derives.list hatom.single).single
    · simp only [Datum.nestingAll, Datum.nesting, Datum.nesting_atom]
      omega
  rw [hreads] at h
  cases h

theorem not_blank_of_unreadable {fault : ReadFault} (h : (parseAll limit source).2 = some fault) :
    ¬ (Text.strip source).isEmpty = true := by
  intro hblank
  have hvalue := Interpreter.eval_blank limit 0 hblank Store.empty
  rw [Interpreter.eval_of_not_reads (Prod.ext rfl h)] at hvalue
  cases hvalue

/-- The session goes on after an idle line, from a store that agrees with the one before.  Of what there
was to show, nothing is lost. -/
theorem Idle.turn {text : String} (h : Idle limit source text) (hlimit : 0 < limit)
    (root : FrameId) (s : Store) :
    (turn limit root source s).ended = false ∧ s.Agrees (turn limit root source s).store ∧
      prompts (turn limit root source s).events = 0 ∧
      written (turn limit root source s).events = text ∧
      displayed (turn limit root source s).events ++ (turn limit root source s).store.output =
        s.output := by
  cases h with
  | blank hblank =>
    have hexit : Text.strip source ≠ exitCommand := by
      intro hexit
      rw [hexit] at hblank
      cases hblank
    rw [turn_eq hexit, if_pos hblank]
    exact ⟨rfl, .refl s, rfl, rfl, String.empty_append⟩
  | @unreadable fault hfault =>
    have hanswer : Interpreter.answer limit root source s = (.failed (.unreadable fault), s) := by
      rw [Interpreter.answer, Interpreter.eval_of_not_reads (Prod.ext rfl hfault)]
    rw [turn_eq (not_exit_of_unreadable hlimit hfault), if_neg (not_blank_of_unreadable hfault),
      respond_eq, hanswer]
    refine ⟨rfl, ⟨rfl, rfl, rfl⟩, ?_, ?_, ?_⟩
    · simp [errorLine]
    · have hmessage : (LispError.unreadable fault).message = fault.message := rfl
      simp only [written_append, written_takeShown, errorLine, written_wrote, written_nil,
        String.append_empty, String.empty_append, hmessage]
    · simp [errorLine]

/-! ## Top theorem -/

/-- Let a line be blank or not readable.  If the session gets through `a`, the line between `a` and `b`
leaves the store, what is shown, the lines left unread and the fault as they are without it; input is
asked for once more, and what is written has nothing more in it than the error, right where the lines
of `a` are answered.  If the session does not get through `a`, the line is just one more left unread. -/
theorem run_idle_line (hlimit : 0 < limit) {line text : String} (hline : Idle limit line text)
    (root : FrameId) (s : Store) (a b : List String) :
    let without := run limit root s (a ++ b)
    let t := run limit root s (a ++ line :: b)
    (GetsThrough limit root s a →
      without.store.Agrees t.store ∧ t.shown = without.shown ∧ t.unread = without.unread ∧
        t.fault = without.fault ∧ prompts t.events = prompts without.events + 1 ∧
        ∃ p q, written (run limit root s a).events = p ++ "\n" ∧ written without.events = p ++ q ∧
          written t.events = p ++ text ++ q) ∧
    (¬ GetsThrough limit root s a →
      t.events = without.events ∧ t.store = without.store ∧ t.fault = without.fault ∧
        ∃ unread, without.unread = unread ++ b ∧ t.unread = unread ++ line :: b) := by
  intro without t
  refine ⟨fun hthrough => ?_, fun hnot => ?_⟩
  · obtain ⟨before, hbefore, hmore⟩ := hthrough.run_append
    generalize (run limit root s a).store = s₁ at hmore
    obtain ⟨hgoes, hagrees, hprompts, hwritten, hshown⟩ := hline.turn hlimit root s₁
    -- the lines of `b` are read in `s₁` without the line, and with it in a store that agrees with `s₁`
    obtain ⟨hunread, hfault, htracks⟩ := run_agrees limit root hagrees b
    have hwithout : without = { run limit root s₁ b with
        events := before ++ (run limit root s₁ b).events } := hmore b
    have ht : t = { run limit root (turn limit root line s₁).store b with
        events := before ++ (.prompted :: (turn limit root line s₁).events ++
          (run limit root (turn limit root line s₁).store b).events) } := by
      exact (hmore (line :: b)).trans (by rw [run_of_not_ended hgoes])
    rw [hwithout, ht]
    refine ⟨htracks.store, ?_, hunread, hfault, ?_, ?_⟩
    · obtain ⟨more, hs, hs'⟩ := htracks.shown
      simp only [Transcript.shown, displayed_append, displayed_prompted, String.append_assoc,
        List.cons_append]
      rw [hs, hs', ← hshown, String.append_assoc]
    · simp [hprompts, htracks.prompts]
      omega
    · refine ⟨written before, written (run limit root s₁ b).events, ?_, ?_, ?_⟩
      · rw [hbefore]
        simp [farewell]
      · simp
      · simp [hwritten, htracks.written, String.append_assoc]
  · have hwithout : without = _ := run_append_of_not_getsThrough hnot b
    have ht : t = _ := run_append_of_not_getsThrough hnot (line :: b)
    rw [hwithout, ht]
    exact ⟨rfl, rfl, rfl, _, rfl, rfl⟩

/-- A definition with a parenthesis too many after it is not evaluated: the line after it sees the
definition before it.  After the exit command it is not even read. -/
theorem run_idle_line_half_read :
    let s : Store := { Store.empty with frames := #[⟨[], none⟩] }
    let line := "(define y 3) ("
    let t := run 50 0 s (["(define y 2)"] ++ line :: ["y"])
    Idle 50 line "error: unexpected end of input\n" ∧ GetsThrough 50 0 s ["(define y 2)"] ∧
      written (run 50 0 s (["(define y 2)"] ++ ["y"])).events = "2\n\n" ∧
      (∃ p q, "2\n\n" = p ++ q ∧ written t.events = p ++ "error: unexpected end of input\n" ++ q) ∧
      prompts t.events = 4 ∧
      ¬ GetsThrough 50 0 s ["(exit)"] ∧
      ∃ unread, (run 50 0 s (["(exit)"] ++ line :: ["y"])).unread = unread ++ [line, "y"] := by
  intro s line t
  have hline : Idle 50 line "error: unexpected end of input\n" :=
    @Idle.unreadable 50 line .unexpectedEnd (by decide +kernel)
  have hthrough : GetsThrough 50 0 s ["(define y 2)"] := ⟨by decide +kernel, by decide +kernel⟩
  have hwritten : written (run 50 0 s (["(define y 2)"] ++ ["y"])).events = "2\n\n" := by
    decide +kernel
  have hprompts : prompts (run 50 0 s (["(define y 2)"] ++ ["y"])).events = 3 := by decide +kernel
  have hnot : ¬ GetsThrough 50 0 s ["(exit)"] := fun h => h.1 "(exit)" (by simp) (by decide +kernel)
  obtain ⟨-, -, -, -, hasked, p, q, -, hwithout, ht⟩ :=
    (run_idle_line (by decide) hline 0 s ["(define y 2)"] ["y"]).1 hthrough
  obtain ⟨-, -, -, unread, -, hunread⟩ :=
    (run_idle_line (by decide) hline 0 s ["(exit)"] ["y"]).2 hnot
  exact ⟨hline, hthrough, hwritten, ⟨p, q, hwritten.symm.trans hwithout, ht⟩,
    hasked.trans (congrArg (· + 1) hprompts), hnot, unread, hunread⟩

end SmallLisp.Session
