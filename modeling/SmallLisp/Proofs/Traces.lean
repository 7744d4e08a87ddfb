import SmallLisp.Proofs.Chains
import SmallLisp.Proofs.Sessions
import SmallLisp.Proofs.Transparency

/-!
What was shown and noted before makes no difference.

Stores agree if they hold the same, what was shown and noted apart (`Store.Agrees`).  No program can
tell them apart: it comes to the same end in both, shows the same, and leaves stores that agree
(`Store.Agrees.eval`).  So sessions from stores that agree take the same course: they answer all lines
in the same way (`Session.Tracks`, `Session.run_agrees`).

A session takes what was shown out of the store after each answer, so a course is told by what was
shown together with what is still in the store.
-/

namespace SmallLisp

open Eval (Alike)

namespace Store

/-- Stores that hold the same, what was shown and noted apart. -/
structure Agrees (s t : Store) : Prop where
  frames : t.frames = s.frames
  nextMark : t.nextMark = s.nextMark
  recorded : t.recorded = s.recorded

/-- Stores that agree, where the same was shown after `a` in one and after `b` in the other. -/
structure Beside (a b : String) (s t : Store) : Prop extends Agrees s t where
  output : ∃ shown, s.output = a ++ shown ∧ t.output = b ++ shown

def beside (a b : String) : Mirror .none where
  Rel := Beside a b
  Lost _ _ := False

@[simp] theorem output_note (s : Store) (n : Notice) : (s.note n).output = s.output := rfl

namespace Agrees

variable {s t : Store}

theorem refl (s : Store) : s.Agrees s := ⟨rfl, rfl, rfl⟩

theorem beside (h : s.Agrees t) : s.Beside s.output t.output t :=
  ⟨h, "", String.append_empty.symm, String.append_empty.symm⟩

theorem note (h : s.Agrees t) (n m : Notice) : (s.note n).Agrees (t.note m) :=
  ⟨h.frames, h.nextMark, h.recorded⟩

theorem chain_eq (h : s.Agrees t) (f : FrameId) : t.chain f = s.chain f :=
  chain_congr fun g _ => by rw [h.frames]

theorem bindings_eq (h : s.Agrees t) (f : FrameId) : t.bindings f = s.bindings f := by
  rw [bindings, bindings, h.frames]

theorem lookup?_eq (h : s.Agrees t) (f : FrameId) (name : Value) :
    t.lookup? f name = s.lookup? f name := by
  have hget : (fun g => t.get? g name) = fun g => s.get? g name := by
    funext g
    rw [get?, get?, h.frames]
  rw [lookup?, lookup?, h.chain_eq f, hget]

end Agrees

theorem beside_lawful (a b : String) : (beside a b).Lawful Policy.any where
  lost _ _ h := h
  note h _ := ⟨⟨h.frames, h.nextMark, h.recorded⟩, h.output⟩
  display {s t} h text := by
    obtain ⟨shown, hs, ht⟩ := h.output
    refine ⟨⟨h.frames, h.nextMark, h.recorded⟩, shown ++ text, ?_, ?_⟩
    · rw [display, hs, String.append_assoc]
    · rw [display, ht, String.append_assoc]
  record h text := ⟨⟨h.frames, h.nextMark, congrArg (·.push text) h.recorded⟩, h.output⟩
  spend h n := by
    refine Or.inr ⟨⟨⟨h.frames, congrArg (· + n) h.nextMark, h.recorded⟩, h.output⟩, fun i _ => ?_⟩
    exact congrArg (· + i) h.nextMark.symm
  addFrame h fr := by
    rw [Frame.rename_none]
    exact Or.inr ⟨⟨⟨congrArg (·.push fr) h.frames, h.nextMark, h.recorded⟩, h.output⟩,
      congrArg Array.size h.frames.symm⟩
  insert h f x v := by
    rw [Value.rename_none]
    exact ⟨⟨congrArg (·.modify f (·.insert (.symbol x) v)) h.frames, h.nextMark, h.recorded⟩, h.output⟩
  lookup _ _ h := by
    rw [Value.rename_none_eq_id, Option.map_id]
    exact h.toAgrees.lookup?_eq _ _
  shown {s t mark f} _ _ h := by
    refine Or.inl ?_
    simp only [Frame.renameBindings_none]
    rw [← h.toAgrees.chain_eq f]
    exact List.map_congr_left fun g _ => h.toAgrees.bindings_eq g

end Store

/-! ## Programs -/

section Programs

variable {s t : Store}

theorem Store.Agrees.alike (h : s.Agrees t) {x : Eval Value}
    (hx : (Store.beside s.output t.output).Follows Policy.any (Value.rename .none) x x s) :
    Alike (Store.Beside s.output t.output) (x s) (x t) := by
  have hend := (hx (Policy.any_holds s) t h.beside).resolve_left id
  rwa [Value.rename_none_eq_id, id_map] at hend

/-- A program comes to the same end and shows the same. -/
theorem Store.Agrees.eval (h : s.Agrees t) (limit : Nat) (root : FrameId) (source : String) :
    Alike (Store.Beside s.output t.output) (Interpreter.eval limit root source s)
      (Interpreter.eval limit root source t) :=
  h.alike ((Store.beside_lawful _ _).eval Policy.any_lawful fun _ _ _ _ _ _ => trivial)

theorem Store.Agrees.evalData (h : s.Agrees t) (limit : Nat) (root : FrameId) (data : List Datum) :
    Alike (Store.Beside s.output t.output) (Interpreter.evalData limit root .unspecified data s)
      (Interpreter.evalData limit root .unspecified data t) := by
  have hlast : Policy.any.Good s .unspecified := trivial
  exact h.alike ((Store.beside_lawful _ _).follows_evalData Policy.any_lawful limit hlast
    fun _ _ _ _ _ _ => trivial)

theorem Store.Agrees.answer (h : s.Agrees t) (limit : Nat) (root : FrameId) (source : String) :
    (Interpreter.answer limit root source t).1 = (Interpreter.answer limit root source s).1 ∧
      (Interpreter.answer limit root source s).2.Beside s.output t.output
        (Interpreter.answer limit root source t).2 := by
  have halike := h.eval limit root source
  have hrenamed : Alike (Store.Beside s.output t.output)
      ((Value.rename .none <$> Interpreter.eval limit root source) s)
      (Interpreter.eval limit root source t) := by
    rwa [Value.rename_none_eq_id, id_map]
  constructor
  · exact Interpreter.answer_fst_of_alike hrenamed
  · rw [Interpreter.answer_snd, Interpreter.answer_snd]
    exact halike.rel

end Programs

/-! ## Views of events -/

namespace Session

theorem intercalate_empty_append (texts texts' : List String) :
    "".intercalate (texts ++ texts') = "".intercalate texts ++ "".intercalate texts' := by
  by_cases h : texts = []
  · simp [h]
  · by_cases h' : texts' = []
    · simp [h']
    · simp [String.intercalate_append_of_ne_nil h h']

@[simp] theorem written_nil : written [] = "" := rfl

@[simp] theorem written_append (es es' : List Event) :
    written (es ++ es') = written es ++ written es' := by
  simp only [written, List.filterMap_append, intercalate_empty_append]

@[simp] theorem written_prompted (es : List Event) : written (.prompted :: es) = written es := rfl

@[simp] theorem written_wrote (text : String) (es : List Event) :
    written (.wrote text :: es) = text ++ written es := by
  rw [← List.singleton_append, written_append]
  simp [written]

@[simp] theorem written_takeShown (s : Store) : written (takeShown s).1 = "" := by
  unfold takeShown
  split <;> rfl

@[simp] theorem displayed_nil : displayed [] = "" := rfl

@[simp] theorem displayed_append (es es' : List Event) :
    displayed (es ++ es') = displayed es ++ displayed es' := by
  simp only [displayed, List.filterMap_append, intercalate_empty_append]

@[simp] theorem displayed_prompted (es : List Event) : displayed (.prompted :: es) = displayed es := rfl

@[simp] theorem displayed_wrote (text : String) (es : List Event) :
    displayed (.wrote text :: es) = displayed es := rfl

@[simp] theorem displayed_line (text : String) : displayed (line text) = "" := by
  unfold line
  split <;> rfl

@[simp] theorem displayed_takeShown (s : Store) : displayed (takeShown s).1 = s.output := by
  unfold takeShown
  split
  · next h => exact (String.isEmpty_iff.1 h).symm
  · simp [displayed]

@[simp] theorem output_takeShown (s : Store) : (takeShown s).2.output = "" := rfl

theorem agrees_takeShown {s t : Store} (h : s.Agrees t) : (takeShown s).2.Agrees (takeShown t).2 :=
  ⟨h.frames, h.nextMark, h.recorded⟩

/-! ## Sessions -/

/-- All that programs have shown by the end of a session. -/
def Transcript.shown (t : Transcript) : String := displayed t.events ++ t.store.output

/-- Two courses that answer in the same way: from `s` with the events `es` to `s'`, and from `t` with
the events `fs` to `t'`. -/
structure Tracks (s t : Store) (es : List Event) (s' : Store) (fs : List Event) (t' : Store) :
    Prop where
  prompts : prompts fs = prompts es
  written : written fs = written es
  shown : ∃ text, displayed es ++ s'.output = s.output ++ text ∧
    displayed fs ++ t'.output = t.output ++ text
  store : s'.Agrees t'

section Tracks

variable {s t s₁ t₁ s₂ t₂ : Store} {es fs es' fs' : List Event}

theorem tracks_nil (h : s.Agrees t) : Tracks s t [] s [] t :=
  ⟨rfl, rfl, ⟨"", by simp, by simp⟩, h⟩

theorem Tracks.append (h : Tracks s t es s₁ fs t₁) (h' : Tracks s₁ t₁ es' s₂ fs' t₂) :
    Tracks s t (es ++ es') s₂ (fs ++ fs') t₂ := by
  obtain ⟨text, hs, ht⟩ := h.shown
  obtain ⟨text', hs', ht'⟩ := h'.shown
  refine ⟨by simp [h.prompts, h'.prompts], by simp [h.written, h'.written],
    ⟨text ++ text', ?_, ?_⟩, h'.store⟩
  · rw [displayed_append, String.append_assoc, hs', ← String.append_assoc, hs, String.append_assoc]
  · rw [displayed_append, String.append_assoc, ht', ← String.append_assoc, ht, String.append_assoc]

theorem Tracks.prompted (h : Tracks s t es s₁ fs t₁) :
    Tracks s t (.prompted :: es) s₁ (.prompted :: fs) t₁ :=
  ⟨by simp [h.prompts], by simp [h.written], by simpa using h.shown, h.store⟩

end Tracks

variable {s t : Store} (limit : Nat) (root : FrameId)

theorem respond_agrees (h : s.Agrees t) (source : String) :
    (respond limit root source t).ended = (respond limit root source s).ended ∧
      (respond limit root source t).fault = (respond limit root source s).fault ∧
      Tracks s t (respond limit root source s).events (respond limit root source s).store
        (respond limit root source t).events (respond limit root source t).store := by
  obtain ⟨hreport, hstore⟩ := h.answer limit root source
  obtain ⟨shown, hs, ht⟩ := hstore.output
  have hagrees := agrees_takeShown hstore.toAgrees
  rw [respond_eq, respond_eq, hreport]
  cases (Interpreter.answer limit root source s).1 with
  | printed text =>
    exact ⟨rfl, rfl, by simp, by simp, ⟨shown, by simp [hs], by simp [ht]⟩, hagrees⟩
  | failed e =>
    exact ⟨rfl, rfl, by simp, by simp, ⟨shown, by simp [errorLine, hs], by simp [errorLine, ht]⟩,
      hagrees.note _ _⟩
  | broken fault =>
    exact ⟨rfl, rfl, by simp, by simp, ⟨shown, by simp [hs], by simp [ht]⟩, hagrees⟩

theorem turn_agrees (h : s.Agrees t) (source : String) :
    (turn limit root source t).ended = (turn limit root source s).ended ∧
      (turn limit root source t).fault = (turn limit root source s).fault ∧
      Tracks s t (turn limit root source s).events (turn limit root source s).store
        (turn limit root source t).events (turn limit root source t).store := by
  by_cases hexit : Text.strip source = exitCommand
  · simp only [turn, if_pos hexit]
    exact ⟨trivial, trivial, tracks_nil h⟩
  · rw [turn_eq hexit, turn_eq hexit]
    split
    · exact ⟨rfl, rfl, tracks_nil h⟩
    · exact respond_agrees limit root h source

/-- Sessions from stores that agree take the same course. -/
theorem run_agrees (h : s.Agrees t) (lines : List String) :
    (run limit root t lines).unread = (run limit root s lines).unread ∧
      (run limit root t lines).fault = (run limit root s lines).fault ∧
      Tracks s t (run limit root s lines).events (run limit root s lines).store
        (run limit root t lines).events (run limit root t lines).store := by
  induction lines generalizing s t with
  | nil =>
    refine ⟨rfl, rfl, ?_⟩
    show Tracks s t [.prompted, farewell] s [.prompted, farewell] t
    exact ⟨rfl, rfl, ⟨"", by simp [farewell], by simp [farewell]⟩, h⟩
  | cons source lines ih =>
    obtain ⟨hended, hfault, htracks⟩ := turn_agrees limit root h source
    cases hgoes : (turn limit root source s).ended with
    | true =>
      rw [run_of_ended hgoes, run_of_ended (hended.trans hgoes)]
      dsimp only
      exact ⟨rfl, hfault, htracks.prompted⟩
    | false =>
      rw [run_of_not_ended hgoes, run_of_not_ended (hended.trans hgoes)]
      obtain ⟨hunread, hfault', htracks'⟩ := ih htracks.store
      exact ⟨hunread, hfault', htracks.prompted.append htracks'⟩

end Session

end SmallLisp
