import SmallLisp.Evaluator
import SmallLisp.Proofs.Frames
import SmallLisp.Proofs.Outcome

/-!
The write footprint of evaluation.

`Value.defines e` lists the names of the definitions that stand in `e` outside quoted text and
outside procedures.  Evaluating `e` in `f` writes those names in `f` and nothing else, and a call
writes nothing at all in the frames that were there:

    (evaluate d e f).Moves (Store.WritesIn f e.defines)        (evaluate_writesIn)
    (call d procedure args).Moves Store.Keeps                  (call_keeps)

The induction is on the depth: `Machine.Frugal` says this of one level, and each form, builtin and
call of the level above is shown to keep to it.
-/

namespace SmallLisp

/-! ## Names that an expression defines -/

namespace Value

/-- The name that the operands of a definition define. -/
def definedName : List Value → List String
  | [.symbol x, _] => [x]
  | _ => []

mutual

/-- The names of the definitions in an expression, those in quoted text and in procedures left out. -/
def defines : Value → List String
  | .list _ items => definesForm items
  | .tuple _ items => definesForm items
  | _ => []

def definesForm : List Value → List String
  | [] => []
  | head :: operands =>
    match SpecialForm.ofHead? head with
    | some .quote => []
    | some .lambda => []
    | some .define => definedName operands ++ definesAll operands
    | _ => defines head ++ definesAll operands

def definesAll : List Value → List String
  | [] => []
  | e :: rest => defines e ++ definesAll rest

end

theorem mem_definesAll {x : String} {es : List Value} :
    x ∈ definesAll es ↔ ∃ e ∈ es, x ∈ e.defines := by
  induction es with
  | nil => simp [definesAll]
  | cons e es ih => simp [definesAll, ih]

end Value

namespace Store

/-- Nothing is written but the given names in one frame. -/
def WritesIn (f : FrameId) (xs : List String) : Store → Store → Prop :=
  Writes fun g x => g = f ∧ x ∈ xs

/-- No frame is changed. -/
def Keeps : Store → Store → Prop := Writes fun _ _ => False

instance (f : FrameId) (xs : List String) : IsPreorder Store (WritesIn f xs) :=
  inferInstanceAs (IsPreorder Store (Writes _))

instance : IsPreorder Store Keeps := inferInstanceAs (IsPreorder Store (Writes _))

theorem Keeps.of_frames_eq {s s' : Store} (h : s'.frames = s.frames) : Keeps s s' :=
  Writes.of_frames_eq h

theorem WritesIn.mono {f : FrameId} {xs ys : List String} (h : ∀ x ∈ xs, x ∈ ys) {s s' : Store}
    (hs : WritesIn f xs s s') : WritesIn f ys s s' :=
  Writes.mono (fun _ x hx => ⟨hx.1, h x hx.2⟩) hs

theorem Keeps.writesIn {f : FrameId} {xs : List String} {s s' : Store} (h : Keeps s s') :
    WritesIn f xs s s' :=
  Writes.mono (fun _ _ hx => hx.elim) h

end Store

/-! ## Computations that change no frame -/

namespace Eval

open Store

theorem keeps_modify {g : Store → Store} (h : ∀ s, (g s).frames = s.frames) :
    (modify g : Eval Unit).Moves Keeps :=
  moves_modify fun s => Keeps.of_frames_eq (h s)

theorem keeps_freshMark : freshMark.Moves Keeps := fun _ => Keeps.of_frames_eq rfl

theorem keeps_makeList (items : List Value) : (makeList items).Moves Keeps :=
  keeps_freshMark.bind fun _ => moves_pure _

theorem keeps_makeTuple (items : List Value) : (makeTuple items).Moves Keeps :=
  fun _ => Keeps.of_frames_eq rfl

theorem newFrame_of_length_eq (names values : List Value) (h : names.length = values.length)
    (outer : Option FrameId) (s : Store) :
    newFrame names values outer s = .ok s.frames.size (s.push names values outer).2 := by
  rw [newFrame, if_pos h]
  rfl

theorem newFrame_of_length_ne (names values : List Value) (h : names.length ≠ values.length)
    (outer : Option FrameId) (s : Store) :
    newFrame names values outer s =
      .error (.error (.arity (.closure names.length values.length))) s := by
  rw [newFrame, if_neg h]
  rfl

theorem lookup_symbol (depth : Nat) (f : FrameId) (x : String) (s : Store) :
    lookup depth f (.symbol x) s =
      match s.lookup? f (.symbol x) with
      | some v => .ok v s
      | none => .error (.error (.unbound x)) s := by
  show (match s.lookup? f (.symbol x) with
    | some v => pure v
    | none => fail (.unbound x) : Eval Value) s = _
  cases s.lookup? f (.symbol x) <;> rfl

theorem keeps_lookup (depth : Nat) (f : FrameId) (name : Value) :
    (lookup depth f name).Moves Keeps := by
  refine moves_get.bind fun s => ?_
  split
  · exact moves_pure _
  · exact (moves_text _).bind fun _ => moves_fail _

end Eval

namespace Machine

open Eval Store

theorem keeps_settle (name : String) (r : Attempt Answer) : (settle name r).Moves Keeps := by
  unfold settle
  split
  · exact moves_pure _
  · exact keeps_makeList _
  · exact keeps_makeTuple _
  · exact moves_throw _

theorem keeps_attempt {α : Type} (name : String) (r : Attempt α) :
    (attempt name r).Moves Keeps := by
  cases r with
  | ok a => exact moves_pure a
  | error r => exact moves_throw _

theorem keeps_showBinding (m : Machine) (b : Value × Value) : (m.showBinding b).Moves Keeps :=
  (moves_text _).bind fun _ => (moves_text _).bind fun _ =>
    keeps_modify fun _ => rfl

theorem keeps_showFrames (m : Machine) (level : Nat) (fs : List FrameId) :
    (m.showFrames level fs).Moves Keeps := by
  induction fs generalizing level with
  | nil => exact moves_pure ()
  | cons f fs ih =>
    refine Moves.bind (keeps_modify fun _ => rfl) fun _ => ?_
    refine moves_get.bind fun s => ?_
    exact (moves_forM (keeps_showBinding m) _).bind fun _ => ih (level + 1)

/-! ## One level of evaluation -/

/-- A level whose evaluations write only what the expression defines, and whose calls write nothing. -/
structure Frugal (m : Machine) : Prop where
  eval : ∀ e f, (m.eval e f).Moves (WritesIn f e.defines)
  call : ∀ procedure args, (m.call procedure args).Moves Keeps

section Frugal

variable {m : Machine}

theorem writesIn_evalAll (hm : m.Frugal) (f : FrameId) (es : List Value) :
    (m.evalAll f es).Moves (WritesIn f (Value.definesAll es)) := by
  induction es with
  | nil => exact moves_pure _
  | cons e es ih =>
    have he : (m.eval e f).Moves (WritesIn f (Value.definesAll (e :: es))) :=
      (hm.eval e f).mono fun _ _ => WritesIn.mono fun x hx => by simp [Value.definesAll, hx]
    have hes : (m.evalAll f es).Moves (WritesIn f (Value.definesAll (e :: es))) :=
      ih.mono fun _ _ => WritesIn.mono fun x hx => by simp [Value.definesAll, hx]
    exact he.bind fun _ => hes.bind fun _ => moves_pure _

theorem keeps_quote (operands : List Value) : (quote operands).Moves Keeps := by
  unfold quote
  split
  · exact moves_pure _
  · exact moves_fail _

theorem writesIn_conditional (hm : m.Frugal) (operands : List Value) (f : FrameId) :
    (m.conditional operands f).Moves (WritesIn f (Value.definesAll operands)) := by
  have step : ∀ e ∈ operands, (m.eval e f).Moves (WritesIn f (Value.definesAll operands)) :=
    fun e he => (hm.eval e f).mono fun _ _ =>
      WritesIn.mono fun x hx => Value.mem_definesAll.2 ⟨e, he, hx⟩
  unfold conditional
  split
  · refine (step _ (by simp)).bind fun v => ?_
    split
    · exact step _ (by simp)
    · exact step _ (by simp)
  · exact moves_fail _

theorem writesIn_define (hm : m.Frugal) (operands : List Value) (f : FrameId) :
    (m.define operands f).Moves
      (WritesIn f (Value.definedName operands ++ Value.definesAll operands)) := by
  unfold define
  split
  · rename_i x e
    have he : (m.eval e f).Moves
        (WritesIn f (Value.definedName [.symbol x, e] ++ Value.definesAll [.symbol x, e])) :=
      (hm.eval e f).mono fun _ _ => WritesIn.mono fun y hy =>
        List.mem_append_right _ (Value.mem_definesAll.2 ⟨e, by simp, hy⟩)
    refine he.bind fun v => (moves_modify fun s => ?_).bind fun _ => moves_pure _
    exact Store.writes_insert ⟨rfl, by simp [Value.definedName]⟩ v
  · exact (moves_text _).bind fun _ => moves_fail _
  · exact moves_fail _

theorem keeps_lambda (m : Machine) (operands : List Value) (f : FrameId) :
    (m.lambda operands f).Moves Keeps := by
  unfold lambda
  split
  · split
    · exact (moves_text _).bind fun _ => moves_fail _
    · split
      · exact keeps_freshMark.bind fun _ => moves_pure _
      · exact moves_fail _
  · exact moves_fail _

theorem writesIn_combination (hm : m.Frugal) (head : Value) (operands : List Value) (f : FrameId) :
    (m.combination head operands f).Moves
      (WritesIn f (Value.definesForm (head :: operands))) := by
  unfold combination
  cases hf : SpecialForm.ofHead? head with
  | some form =>
    cases form with
    | quote => exact (keeps_quote operands).mono fun _ _ => Keeps.writesIn
    | conditional =>
      refine (writesIn_conditional hm operands f).mono fun _ _ => WritesIn.mono fun x hx => ?_
      simp [Value.definesForm, hf, hx]
    | define =>
      refine (writesIn_define hm operands f).mono fun _ _ => WritesIn.mono fun x hx => ?_
      simpa [Value.definesForm, hf] using hx
    | lambda => exact (keeps_lambda m operands f).mono fun _ _ => Keeps.writesIn
  | none =>
    have hd : Value.definesForm (head :: operands) = head.defines ++ Value.definesAll operands := by
      simp [Value.definesForm, hf]
    rw [hd]
    have hhead : (m.eval head f).Moves (WritesIn f (head.defines ++ Value.definesAll operands)) :=
      (hm.eval head f).mono fun _ _ => WritesIn.mono fun x hx => List.mem_append_left _ hx
    have hrest : (m.evalAll f operands).Moves
        (WritesIn f (head.defines ++ Value.definesAll operands)) :=
      (writesIn_evalAll hm f operands).mono fun _ _ =>
        WritesIn.mono fun x hx => List.mem_append_right _ hx
    refine hhead.bind fun procedure => hrest.bind fun args => ?_
    exact (hm.call procedure args).mono fun _ _ => Keeps.writesIn

theorem writesIn_evalStep (hm : m.Frugal) (e : Value) (f : FrameId) :
    (m.evalStep e f).Moves (WritesIn f e.defines) := by
  unfold evalStep
  split
  · exact (keeps_lookup _ _ _).mono fun _ _ => Keeps.writesIn
  · exact moves_pure _
  · exact moves_fail _
  · exact moves_fail _
  · exact writesIn_combination hm _ _ f
  · exact writesIn_combination hm _ _ f
  · exact (moves_text _).bind fun _ => moves_fail _

/-! ## Calls of one level -/

theorem keeps_callAll (hm : m.Frugal) (procedure : Value) (rows : List (List Value)) :
    (m.callAll procedure rows).Moves Keeps := by
  induction rows with
  | nil => exact moves_pure _
  | cons args rows ih => exact (hm.call procedure args).bind fun _ => ih.bind fun _ => moves_pure _

theorem keeps_callMap (hm : m.Frugal) (args : List Value) : (m.callMap args).Moves Keeps := by
  unfold callMap
  split
  · exact keeps_attempt _ _
  · exact moves_fail _
  · refine (keeps_attempt _ _).bind fun _ => (keeps_attempt _ _).bind fun _ => ?_
    exact (keeps_callAll hm _ _).bind fun _ => keeps_makeList _

theorem keeps_callApply (hm : m.Frugal) (args : List Value) : (m.callApply args).Moves Keeps := by
  unfold callApply
  split
  · exact (keeps_attempt _ _).bind fun _ => hm.call _ _
  · exact keeps_attempt _ _

theorem keeps_callBuiltin (hm : m.Frugal) (b : Builtin) (args : List Value) :
    (m.callBuiltin b args).Moves Keeps := by
  cases b with
  | operation op => exact keeps_settle _ _
  | map => exact (keeps_callMap hm args).mapFault
  | apply => exact (keeps_callApply hm args).mapFault
  | showFrames f =>
    simp only [callBuiltin]
    split
    · refine Moves.mapFault (moves_get.bind fun s => ?_)
      exact (keeps_showFrames m 0 _).bind fun _ => moves_pure _
    · exact keeps_attempt _ _
  | record =>
    simp only [callBuiltin]
    split
    · refine Moves.mapFault ((moves_text _).bind fun _ => ?_)
      exact Moves.bind (keeps_modify fun _ => rfl) fun _ => moves_pure _
    · exact keeps_attempt _ _

/-- The store in which the body of a closure runs; its frame is the last one. -/
def entered (s : Store) (params : List String) (args : List Value) (f : FrameId) : Store :=
  ((s.note (.applied params args.length)).push (params.map .symbol) args (some f)).2

theorem callStep_closure (m : Machine) {params : List String} {args : List Value}
    (h : params.length = args.length) (mark : Mark) (body : Value) (f : FrameId) (s : Store) :
    m.callStep (.closure mark params body f) args s =
      m.eval body s.frames.size (entered s params args f) := by
  have hn := newFrame_of_length_eq (params.map .symbol) args (by simpa using h) (some f)
    (s.note (.applied params args.length))
  exact bind_ok hn

theorem callStep_closure_arity (m : Machine) {params : List String} {args : List Value}
    (h : params.length ≠ args.length) (mark : Mark) (body : Value) (f : FrameId) (s : Store) :
    m.callStep (.closure mark params body f) args s =
      .error (.error (.arity (.closure params.length args.length)))
        (s.note (.applied params args.length)) := by
  have hn := newFrame_of_length_ne (params.map .symbol) args (by simpa using h) (some f)
    (s.note (.applied params args.length))
  rw [List.length_map] at hn
  show (newFrame _ _ _ >>= fun frame => m.eval body frame) _ = _
  exact bind_error hn

theorem keeps_entered (s : Store) (params : List String) (args : List Value) (f : FrameId) :
    Keeps s (entered s params args f) :=
  (Keeps.of_frames_eq rfl : Keeps s (s.note (.applied params args.length))).trans
    (Store.writes_push _ _ _)

/-- The body of a closure runs in a frame that was not there, so what it writes changes no frame
that was. -/
theorem keeps_callClosure (hm : m.Frugal) (mark : Mark) (params : List String) (body : Value)
    (f : FrameId) (args : List Value) :
    (m.callStep (.closure mark params body f) args).Moves Keeps := by
  intro s
  by_cases h : params.length = args.length
  · have hb := hm.eval body s.frames.size (entered s params args f)
    rw [Eval.after, callStep_closure m h]
    refine Store.Writes.restrict ?_ ((keeps_entered s params args f).writesIn.trans hb)
    rintro g x hg ⟨rfl, -⟩
    exact absurd hg (Nat.lt_irrefl _)
  · rw [after_error (callStep_closure_arity m h mark body f s)]
    exact Keeps.of_frames_eq rfl

theorem keeps_callStep (hm : m.Frugal) (procedure : Value) (args : List Value) :
    (m.callStep procedure args).Moves Keeps := by
  cases procedure with
  | closure mark params body f => exact keeps_callClosure hm mark params body f args
  | primitive mark b => exact keeps_callBuiltin hm b args
  | _ => exact (moves_text _).bind fun _ => moves_fail _

end Frugal

end Machine

/-! ## Evaluation and calls at every depth -/

/-- The level of evaluation at a depth, as the level above uses it. -/
def Machine.level (d : Nat) : Machine := ⟨d, evaluate d, SmallLisp.call d⟩

theorem Machine.frugal_level (d : Nat) : (Machine.level d).Frugal := by
  induction d with
  | zero => exact ⟨fun _ _ => Eval.moves_throw _, fun _ _ => Eval.moves_throw _⟩
  | succ d ih => exact ⟨Machine.writesIn_evalStep ih, Machine.keeps_callStep ih⟩

theorem evaluate_writesIn (d : Nat) (e : Value) (f : FrameId) :
    (evaluate d e f).Moves (Store.WritesIn f e.defines) :=
  (Machine.frugal_level d).eval e f

theorem call_keeps (d : Nat) (procedure : Value) (args : List Value) :
    (call d procedure args).Moves Store.Keeps :=
  (Machine.frugal_level d).call procedure args

/-- A definition that fails has failed in the evaluation of its value. -/
theorem evaluate_define_error {d : Nat} {mark : Mark} {x : String} {e : Value} {f : FrameId}
    {s s' : Store} {fault : Fault}
    (h : evaluate (d + 1) (.list mark [.symbol "define", .symbol x, e]) f s = .error fault s') :
    evaluate d e f s = .error fault s' := by
  have hdef : evaluate (d + 1) (.list mark [.symbol "define", .symbol x, e]) f =
      (evaluate d e f >>= fun v => do
        modify fun s => s.insert f (.symbol x) v
        return .unspecified) := rfl
  rw [hdef] at h
  cases hx : evaluate d e f s with
  | ok v s₁ =>
    rw [Eval.bind_ok hx] at h
    cases h
  | error fault' s₁ =>
    rw [Eval.bind_error hx] at h
    exact h

/-- Evaluation in `f` leaves every other frame as it was and changes in `f` only names that the
expression defines; a call of any procedure leaves all frames as they were; and a definition that
fails leaves its name as it was, unless the expression of its value defines that name too. -/
theorem evaluate_footprint (d : Nat) (e : Value) (f : FrameId) (s : Store) :
    (∀ g fr, g ≠ f → s.frames[g]? = some fr → ((evaluate d e f).after s).frames[g]? = some fr) ∧
    (∀ fr, s.frames[f]? = some fr → ∃ fr', ((evaluate d e f).after s).frames[f]? = some fr' ∧
      fr'.outer = fr.outer ∧
      ∀ name, (∀ x ∈ e.defines, name ≠ .symbol x) → fr'.get? name = fr.get? name) ∧
    (∀ procedure args (g : FrameId) fr, s.frames[g]? = some fr →
      ((call d procedure args).after s).frames[g]? = some fr) ∧
    (∀ mark x e₁ fr fault s', e = .list mark [.symbol "define", .symbol x, e₁] →
      s.frames[f]? = some fr → evaluate d e f s = .error fault s' → x ∉ e₁.defines →
      s'.get? f (.symbol x) = fr.get? (.symbol x)) := by
  refine ⟨?_, ?_, ?_, ?_⟩
  · intro g fr hg hfr
    exact (evaluate_writesIn d e f s).frame_eq hfr fun x hx => hg hx.1
  · intro fr hfr
    obtain ⟨fr', hfr', hgrow⟩ := evaluate_writesIn d e f s f fr hfr
    refine ⟨fr', hfr', hgrow.outer_eq, fun name hname => hgrow.get?_eq ?_⟩
    intro x hx
    exact hname x hx.2
  · intro procedure args g fr hfr
    exact (call_keeps d procedure args s).frame_eq hfr fun x hx => hx
  · intro mark x e₁ fr fault s' he hfr herr hx
    subst he
    cases d with
    | zero =>
      cases herr
      rw [Store.get?, hfr]
      rfl
    | succ d =>
      have herr₁ := evaluate_define_error herr
      have hw := evaluate_writesIn d e₁ f s
      rw [Eval.after_error herr₁] at hw
      obtain ⟨fr', hfr', hgrow⟩ := hw f fr hfr
      rw [Store.get?, hfr', Option.bind_some]
      refine hgrow.get?_eq ?_
      intro y hy hxy
      cases hxy
      exact hx hy.2

/-- `(define x (x (define w x)))` in a frame where `x` is no procedure: `w` is defined, then the call
fails, and `x` stays as it was in both frames; nor does a procedure that defines `x` change them. -/
theorem evaluate_footprint_failed_call :
    let outer : Frame := ⟨[(.symbol "x", .bool true)], none⟩
    let inner : Frame := ⟨[(.symbol "x", .unspecified)], some 0⟩
    let s : Store := { Store.empty with frames := #[outer, inner] }
    let e₁ : Value := .list 1 [.symbol "x", .list 2 [.symbol "define", .symbol "w", .symbol "x"]]
    let e : Value := .list 0 [.symbol "define", .symbol "x", e₁]
    let procedure : Value := .closure 3 ["y"] (.list 4 [.symbol "define", .symbol "x", .symbol "y"]) 1
    let s' := (evaluate 5 e 1).after s
    s'.frames[0]? = some outer ∧
    (∃ fr', s'.frames[1]? = some fr' ∧ fr'.outer = some 0 ∧ fr'.get? (.symbol "v") = none) ∧
    ((call 5 procedure [.unspecified]).after s).frames[1]? = some inner ∧
    s'.get? 1 (.symbol "x") = some .unspecified := by
  intro outer inner s e₁ e procedure s'
  obtain ⟨hother, hsame, hcall, hfail⟩ := evaluate_footprint 5 e 1 s
  have hdefines : e.defines = ["x", "w"] := rfl
  have herr : evaluate 5 e 1 s = .error (.error (.type (.notProcedure "Unspecified"))) s' := by with_unfolding_all rfl
  refine ⟨hother 0 outer (by decide) rfl, ?_, hcall procedure _ 1 inner rfl, ?_⟩
  · obtain ⟨fr', hfr', houter, hname⟩ := hsame inner rfl
    exact ⟨fr', hfr', houter, hname (.symbol "v") (by simp [hdefines])⟩
  · exact hfail 0 "x" e₁ inner _ s' rfl rfl herr (by decide)

end SmallLisp
