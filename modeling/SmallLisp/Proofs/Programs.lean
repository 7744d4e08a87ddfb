import SmallLisp.CommandLine
import SmallLisp.Proofs.Data
import SmallLisp.Proofs.Policy

/-!
Invariants of programs and of runs of an interpreter.

What a policy says of evaluation carries over to the evaluation of a program text
(`Policy.Lawful.leads_eval`) and to the standard bindings (`Policy.Lawful.register`).  A run is
a sequence of program texts that are evaluated one after another in one root frame, each ending with
a value or a fault; `Interpreter.Reaches root s s'` says that some run leads from `s` to `s'`.
-/

namespace SmallLisp

namespace Policy

variable {p : Policy} {s : Store} {α : Type} {Q : Store → α → Prop}

/-! ## Program texts -/

theorem Lawful.leads_intern (hp : p.Lawful) (d : Datum) :
    p.Leads (Eval.intern d) s fun _ e => e.datum? = some d := by
  intro hs
  have hf : ({ s with nextMark := (d.intern s.nextMark).2 } : Store).frames = s.frames := rfl
  exact ⟨Store.Writes.of_frames_eq hf, hp.holds_eq hf hs, Value.datum?_intern d _⟩

theorem Lawful.leads_evalData (hp : p.Lawful) (limit : Nat) {root : FrameId} {last : Value}
    {data : List Datum} (hlast : p.Good s last)
    (hexpr : ∀ d ∈ data, ∀ e s', s.Extends s' → e.datum? = some d → p.Expr s' e root) :
    p.Leads (Interpreter.evalData limit root last data) s p.Good := by
  induction data generalizing s last with
  | nil => exact leads_pure hlast
  | cons d data ih =>
    refine (hp.leads_intern d).bind fun e s₁ hext₁ he => ?_
    refine (hp.evaluate limit (hexpr d (by simp) e s₁ hext₁ he)).bind fun v s₂ hext₂ hv => ?_
    refine ih hv fun d' hd' e' s' hext he' => ?_
    have hext' : s.Extends s' := Store.Writes.trans hext₁ (Store.Writes.trans hext₂ hext)
    exact hexpr d' (by simp [hd']) e' s' hext' he'

theorem Lawful.leads_reportExhaustion (hp : p.Lawful) (hexhausted : p.Allowed (.error .exhausted))
    (source : String) {x : Eval α} (hx : p.Leads x s Q) :
    p.Leads (Interpreter.reportExhaustion source x) s Q := by
  intro hs
  have h := hx hs
  unfold Eval.Ends at h
  unfold Eval.Ends Interpreter.reportExhaustion
  cases hxs : x s with
  | ok a s' => rw [hxs] at h; exact h
  | error fault s' =>
    rw [hxs] at h
    obtain ⟨hext, hs', hfault⟩ := h
    cases fault with
    | depth =>
      have hf : (s'.note (.exhausted source)).frames = s'.frames := rfl
      exact ⟨Store.Writes.trans hext (Store.Writes.of_frames_eq hf), hp.holds_eq hf hs', hexhausted⟩
    | error e => exact ⟨hext, hs', hfault⟩
    | integerText => exact ⟨hext, hs', hfault⟩

theorem Lawful.leads_eval (hp : p.Lawful) (hexhausted : p.Allowed (.error .exhausted))
    {limit : Nat} {root : FrameId} {source : String}
    (hunreadable : ∀ fault, (parseAll limit source).2 = some fault →
      p.Allowed (.error (.unreadable fault)))
    (hexpr : ∀ d ∈ (parseAll limit source).1, ∀ e s', s.Extends s' → e.datum? = some d →
      p.Expr s' e root) :
    p.Leads (Interpreter.eval limit root source) s p.Good := by
  unfold Interpreter.eval
  split
  · next fault hread => exact leads_fail (hunreadable fault (by rw [hread]))
  · next data hread =>
    rw [hread] at hexpr
    exact hp.leads_reportExhaustion hexhausted source (hp.leads_evalData limit trivial hexpr)

/-! ## Standard bindings -/

/-- Whether an entry is a builtin that shows frames. -/
def showsFrames : Standard.Entry → Bool
  | .builtin (.showFrames _) => true
  | _ => false

theorem mathEntries_not_showsFrames :
    (Standard.mathEntries.all fun e => !showsFrames e.2) = true :=
  rfl

/-- The only frame that a standard builtin refers to is the one in which it is bound. -/
theorem frame_of_mem_entries {f g : FrameId} {name : String}
    (h : (name, .builtin (.showFrames g)) ∈ Standard.entries f) : g = f := by
  unfold Standard.entries at h
  rcases List.mem_append.1 h with h | h
  · rcases List.mem_append.1 h with h | h
    · have := List.all_eq_true.1 mathEntries_not_showsFrames _ h
      cases this
    · obtain ⟨b, hb, heq⟩ := List.mem_map.1 h
      cases heq
      simpa [Standard.procedures] using hb
  · simp at h

theorem Lawful.register (hp : p.Lawful) (hs : p.Holds s) {f : FrameId}
    (hprim : ∀ s' mark b, s.Extends s' → (∀ g, b = .showFrames g → g = f) →
      p.Proc s' (.primitive mark b)) :
    s.Extends ((Eval.register f).after s) ∧ p.Holds ((Eval.register f).after s) := by
  have hframe : ∀ name g, (name, .builtin (.showFrames g)) ∈ Standard.entries f → g = f :=
    fun _ _ => frame_of_mem_entries
  unfold Eval.register
  -- there are many entries: nothing below may unfold them
  generalize Standard.entries f = entries at hframe ⊢
  refine Leads.after (Q := fun _ _ => True) (leads_forM ?_) hs
  intro entry hentry s₁ hext₁
  obtain ⟨name, entry⟩ := entry
  have hmake : p.Leads (Eval.makeEntry entry) s₁ p.Good := by
    cases entry with
    | number x => exact leads_pure trivial
    | truth b => exact leads_pure trivial
    | builtin b =>
      intro hs₁
      have hf : ({ s₁ with nextMark := s₁.nextMark + 1 } : Store).frames = s₁.frames := rfl
      have hext₂ := Store.Writes.of_frames_eq (W := fun _ _ => True) hf
      refine ⟨hext₂, hp.holds_eq hf hs₁, hprim _ _ b (Store.Writes.trans hext₁ hext₂) ?_⟩
      intro g hb
      subst hb
      exact hframe name g hentry
  exact hmake.bind fun v s₂ _ hv => hp.leads_insert f name hv

end Policy

/-! ## Runs -/

namespace Interpreter

/-- Texts evaluated one after another, each with a limit of its own, lead from one store to another. -/
inductive Reaches (root : FrameId) (s : Store) : Store → Prop
  | refl : Reaches root s s
  | eval {s' : Store} (limit : Nat) (source : String) :
      Reaches root s s' → Reaches root s ((Interpreter.eval limit root source).after s')

end Interpreter

/-- A policy that allows every datum in the root frame holds along all runs. -/
theorem Policy.Lawful.reaches {p : Policy} (hp : p.Lawful)
    (hexhausted : p.Allowed (.error .exhausted))
    (hunreadable : ∀ fault, p.Allowed (.error (.unreadable fault))) {root : FrameId}
    {s s' : Store} (hexpr : ∀ d e s', s.Extends s' → e.datum? = some d → p.Expr s' e root)
    (hs : p.Holds s) (h : Interpreter.Reaches root s s') : s.Extends s' ∧ p.Holds s' := by
  induction h with
  | refl => exact ⟨Store.Writes.refl s, hs⟩
  | @eval s₁ limit source _ ih =>
    obtain ⟨hext₁, hs₁⟩ := ih
    have hleads : p.Leads (Interpreter.eval limit root source) s₁ p.Good :=
      hp.leads_eval hexhausted (fun fault _ => hunreadable fault) fun d _ e s₂ hext₂ he =>
        hexpr d e s₂ (Store.Writes.trans hext₁ hext₂) he
    obtain ⟨hext₂, hs₂⟩ := hleads.after hs₁
    exact ⟨Store.Writes.trans hext₁ hext₂, hs₂⟩

end SmallLisp
