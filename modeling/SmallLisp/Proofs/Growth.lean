import SmallLisp.Interpreter
import SmallLisp.Proofs.Data
import SmallLisp.Proofs.Footprint

/-!
Runs only add to a store.

`s.Later s'` says that `s'` has no fewer frames than `s`, has given out no fewer marks and has shown
no less.  Every computation of the evaluator leads to a later store, however it ends.  `Eval.Adds` is
a class, so that this is found from the parts of a computation where it is needed.
-/

namespace SmallLisp

structure Store.Later (s s' : Store) : Prop where
  frames : s.frames.size ≤ s'.frames.size
  marks : s.nextMark ≤ s'.nextMark
  output : s.output.length ≤ s'.output.length

instance : IsPreorder Store Store.Later where
  refl _ := ⟨Nat.le_refl _, Nat.le_refl _, Nat.le_refl _⟩
  trans _ _ _ h h' := ⟨Nat.le_trans h.frames h'.frames, Nat.le_trans h.marks h'.marks,
    Nat.le_trans h.output h'.output⟩

/-- A computation that only adds to the store. -/
class Eval.Adds {α : Type} (x : Eval α) : Prop where
  later : x.Moves Store.Later

namespace Eval

open Store

variable {α β : Type}

/-- What comes after a computation adds to what it leaves. -/
theorem later_bind (x : Eval α) (f : α → Eval β) [∀ a, (f a).Adds] (s : Store) :
    (x.after s).Later ((x >>= f).after s) := by
  cases hx : x s with
  | ok a s' =>
    rw [after_ok hx, after_bind_ok hx]
    exact Adds.later s'
  | error e s' =>
    rw [after_error hx, after_error (bind_error hx)]
    exact refl_of Later s'

/-! ## Changes of the store -/

instance adds_pure (a : α) : (pure a : Eval α).Adds := ⟨moves_pure a⟩

instance adds_throw (fault : Fault) : (throw fault : Eval α).Adds := ⟨moves_throw fault⟩

instance adds_fail (e : LispError) : (fail e : Eval α).Adds := ⟨moves_fail e⟩

instance adds_get : (get : Eval Store).Adds := ⟨moves_get⟩

instance adds_bind (x : Eval α) (f : α → Eval β) [x.Adds] [∀ a, (f a).Adds] : (x >>= f).Adds :=
  ⟨Adds.later.bind fun _ => Adds.later⟩

instance adds_ite (c : Prop) [Decidable c] (x y : Eval α) [x.Adds] [y.Adds] :
    (if c then x else y).Adds := by
  split <;> infer_instance

instance adds_text (t : Except TextFault String) : (text t).Adds := ⟨moves_text t⟩

instance adds_mapFault (g : Fault → Fault) (x : Eval α) [x.Adds] : (x.mapFault g).Adds :=
  ⟨Adds.later.mapFault⟩

instance adds_forM (f : α → Eval Unit) [∀ a, (f a).Adds] (xs : List α) : (xs.forM f).Adds :=
  ⟨moves_forM (fun _ => Adds.later) xs⟩

instance adds_freshMark : freshMark.Adds :=
  ⟨fun s => ⟨Nat.le_refl _, Nat.le_succ s.nextMark, Nat.le_refl _⟩⟩

instance adds_makeList (items : List Value) : (makeList items).Adds :=
  adds_bind _ _

instance adds_makeTuple (items : List Value) : (makeTuple items).Adds :=
  ⟨fun s => ⟨Nat.le_refl _, Nat.le_add_right s.nextMark _, Nat.le_refl _⟩⟩

instance adds_note (n : Notice) : (modify fun s => s.note n : Eval Unit).Adds :=
  ⟨moves_modify fun _ => ⟨Nat.le_refl _, Nat.le_refl _, Nat.le_refl _⟩⟩

instance adds_display (t : String) : (modify fun s => s.display t : Eval Unit).Adds :=
  ⟨moves_modify fun s => ⟨Nat.le_refl _, Nat.le_refl _, by simp [Store.display]⟩⟩

instance adds_record (t : String) :
    (modify fun s => { s with recorded := s.recorded.push t } : Eval Unit).Adds :=
  ⟨moves_modify fun _ => ⟨Nat.le_refl _, Nat.le_refl _, Nat.le_refl _⟩⟩

instance adds_insert (f : FrameId) (name v : Value) :
    (modify fun s => s.insert f name v : Eval Unit).Adds :=
  ⟨moves_modify fun s => ⟨by simp [Store.insert], Nat.le_refl _, Nat.le_refl _⟩⟩

instance adds_newFrame (names values : List Value) (outer : Option FrameId) :
    (newFrame names values outer).Adds := by
  unfold newFrame
  split
  · refine ⟨fun s => ⟨?_, Nat.le_refl _, Nat.le_refl _⟩⟩
    show s.frames.size ≤ (s.frames.push _).size
    rw [Array.size_push]
    exact Nat.le_succ _
  · infer_instance

instance adds_lookup (depth : Nat) (f : FrameId) (name : Value) : (lookup depth f name).Adds := by
  refine @adds_bind _ _ _ _ _ fun s => ?_
  split <;> infer_instance

instance adds_intern (d : Datum) : (intern d).Adds := by
  refine ⟨fun s => ⟨Nat.le_refl _, ?_, Nat.le_refl _⟩⟩
  show s.nextMark ≤ (d.intern s.nextMark).2
  rw [Datum.intern_snd]
  exact Nat.le_add_right _ _

end Eval

namespace Machine

open Eval

instance adds_attempt {α : Type} (name : String) (r : Attempt α) : (attempt name r).Adds := by
  cases r <;> (unfold attempt; infer_instance)

instance adds_settle (name : String) (r : Attempt Answer) : (settle name r).Adds := by
  unfold settle
  split <;> infer_instance

instance adds_within {α : Type} (name : String) (x : Eval α) [x.Adds] : (within name x).Adds :=
  adds_mapFault _ x

/-! ## One level of evaluation -/

/-- A level that only adds to the store. -/
class Adds (m : Machine) : Prop where
  eval : ∀ e f, (m.eval e f).Adds
  call : ∀ procedure args, (m.call procedure args).Adds

variable (m : Machine)

instance adds_eval [m.Adds] (e : Value) (f : FrameId) : (m.eval e f).Adds := Adds.eval e f

instance adds_call [m.Adds] (procedure : Value) (args : List Value) : (m.call procedure args).Adds :=
  Adds.call procedure args

instance adds_quote (operands : List Value) : (quote operands).Adds := by
  unfold quote
  split <;> infer_instance

instance adds_conditional [m.Adds] (operands : List Value) (f : FrameId) :
    (m.conditional operands f).Adds := by
  unfold conditional
  split <;> infer_instance

instance adds_define [m.Adds] (operands : List Value) (f : FrameId) :
    (m.define operands f).Adds := by
  unfold define
  split <;> infer_instance

instance adds_lambda (operands : List Value) (f : FrameId) : (m.lambda operands f).Adds := by
  unfold lambda
  split
  · split <;> infer_instance
  · infer_instance

instance adds_evalAll [m.Adds] (f : FrameId) (es : List Value) : (m.evalAll f es).Adds := by
  induction es with
  | nil => exact adds_pure _
  | cons e es ih =>
    unfold evalAll
    infer_instance

instance adds_combination [m.Adds] (head : Value) (operands : List Value) (f : FrameId) :
    (m.combination head operands f).Adds := by
  unfold combination
  split
  · unfold form
    split <;> infer_instance
  · infer_instance

instance adds_evalStep [m.Adds] (e : Value) (f : FrameId) : (m.evalStep e f).Adds := by
  unfold evalStep
  split <;> infer_instance

/-! ## Calls of one level -/

instance adds_callAll [m.Adds] (procedure : Value) (rows : List (List Value)) :
    (m.callAll procedure rows).Adds := by
  induction rows with
  | nil => exact adds_pure _
  | cons args rows ih =>
    unfold callAll
    infer_instance

instance adds_callMap [m.Adds] (args : List Value) : (m.callMap args).Adds := by
  unfold callMap
  split <;> infer_instance

instance adds_callApply [m.Adds] (args : List Value) : (m.callApply args).Adds := by
  unfold callApply
  split <;> infer_instance

instance adds_showBinding (b : Value × Value) : (m.showBinding b).Adds := by
  unfold showBinding
  infer_instance

instance adds_showFrames (level : Nat) (fs : List FrameId) : (m.showFrames level fs).Adds := by
  induction fs generalizing level with
  | nil => exact adds_pure _
  | cons f fs ih =>
    unfold showFrames
    infer_instance

instance adds_callBuiltin [m.Adds] (b : Builtin) (args : List Value) :
    (m.callBuiltin b args).Adds := by
  unfold callBuiltin
  split
  · infer_instance
  · infer_instance
  · infer_instance
  · split <;> infer_instance
  · split <;> infer_instance

instance adds_callStep [m.Adds] (procedure : Value) (args : List Value) :
    (m.callStep procedure args).Adds := by
  unfold callStep
  split <;> infer_instance

/-! ## Every depth -/

instance adds_level (d : Nat) : (level d).Adds := by
  induction d with
  | zero => exact ⟨fun _ _ => adds_throw _, fun _ _ => adds_throw _⟩
  | succ d ih => exact ⟨adds_evalStep (level d), adds_callStep (level d)⟩

end Machine

instance adds_evaluate (d : Nat) (e : Value) (f : FrameId) : (evaluate d e f).Adds :=
  (Machine.level d).adds_eval e f

namespace Interpreter

instance adds_evalData (limit : Nat) (root : FrameId) (last : Value) (data : List Datum) :
    (evalData limit root last data).Adds := by
  induction data generalizing last with
  | nil => exact Eval.adds_pure last
  | cons d data ih =>
    unfold evalData
    infer_instance

theorem after_reportExhaustion {α : Type} (source : String) (x : Eval α) (s : Store) :
    (reportExhaustion source x).after s = x.after s ∨
      (reportExhaustion source x).after s = (x.after s).note (.exhausted source) := by
  unfold Eval.after reportExhaustion
  cases x s with
  | ok a s' => exact Or.inl rfl
  | error fault s' =>
    cases fault with
    | depth => exact Or.inr rfl
    | error e => exact Or.inl rfl
    | integerText => exact Or.inl rfl

theorem later_reportExhaustion {α : Type} (source : String) (x : Eval α) (s : Store) :
    (x.after s).Later ((reportExhaustion source x).after s) := by
  rcases after_reportExhaustion source x s with h | h <;> rw [h]
  · exact refl_of Store.Later _
  · exact ⟨Nat.le_refl _, Nat.le_refl _, Nat.le_refl _⟩

instance adds_eval (limit : Nat) (root : FrameId) (source : String) :
    (eval limit root source).Adds := by
  unfold eval
  split
  · infer_instance
  · exact ⟨fun s => trans_of Store.Later (Eval.Adds.later s) (later_reportExhaustion _ _ s)⟩

end Interpreter

end SmallLisp
