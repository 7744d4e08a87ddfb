import Mathlib.Data.Nat.Basic
import Mathlib.Order.Monotone.Basic
import SmallLisp.Evaluator
import SmallLisp.Proofs.Data

/-!
Renaming of frames and marks.

A `Renaming` gives frames and marks other numbers: frames in the same order, and different marks to
different objects.  Renamed values have the same texts (`Value.print_rename`) and compare as before
(`Value.isEq_rename`, `Value.isEqual?_rename`).  Renamed frames bind the same names, and a datum that is
made a value with other marks becomes the renamed value (`Datum.intern_rename`).
-/

namespace SmallLisp

structure Renaming where
  frame : FrameId → FrameId
  mark : Mark → Mark
  frame_strictMono : StrictMono frame
  mark_injective : Function.Injective mark

namespace Renaming

/-- Everything keeps its number. -/
def none : Renaming := ⟨id, id, strictMono_id, Function.injective_id⟩

variable (r : Renaming)

@[simp] theorem mark_beq (m n : Mark) : (r.mark m == r.mark n) = (m == n) := by
  rw [Bool.eq_iff_iff, beq_iff_eq, beq_iff_eq]
  exact r.mark_injective.eq_iff

end Renaming

def Builtin.rename (r : Renaming) : Builtin → Builtin
  | .showFrames f => .showFrames (r.frame f)
  | b => b

@[simp] theorem Builtin.name_rename (r : Renaming) (b : Builtin) : (b.rename r).name = b.name := by
  cases b <;> rfl

namespace Value

mutual

def rename (r : Renaming) : Value → Value
  | .number x => .number x
  | .symbol name => .symbol name
  | .bool b => .bool b
  | .unspecified => .unspecified
  | .list mark items => .list (r.mark mark) (renameAll r items)
  | .tuple marks items => .tuple (marks.map r.mark) (renameAll r items)
  | .primitive mark b => .primitive (r.mark mark) (b.rename r)
  | .closure mark params body f => .closure (r.mark mark) params (rename r body) (r.frame f)
  | .text s => .text s
  | .nothing => .nothing

def renameAll (r : Renaming) : List Value → List Value
  | [] => []
  | v :: rest => rename r v :: renameAll r rest

end

variable (r : Renaming)

@[simp] theorem renameAll_eq (vs : List Value) : renameAll r vs = vs.map (rename r) := by
  induction vs with
  | nil => rfl
  | cons v vs ih => rw [renameAll, ih, List.map_cons]

@[simp] theorem typeName_rename (v : Value) : (v.rename r).typeName = v.typeName := by
  cases v <;> rfl

@[simp] theorem numeric?_rename (v : Value) : (v.rename r).numeric? = v.numeric? := by
  cases v <;> rfl

@[simp] theorem isFalse_rename (v : Value) : (v.rename r).isFalse = v.isFalse := by
  cases v <;> rfl

@[simp] theorem symbolName?_rename (v : Value) : (v.rename r).symbolName? = v.symbolName? := by
  cases v <;> rfl

@[simp] theorem ofHead?_rename (v : Value) :
    SpecialForm.ofHead? (v.rename r) = SpecialForm.ofHead? v := by
  cases v <;> rfl

@[simp] theorem parameters?_rename (v : Value) :
    Machine.parameters? (v.rename r) = Machine.parameters? v := by
  cases v with
  | list mark items =>
    simp only [rename, renameAll_eq, Machine.parameters?, List.mapM_map]
    congr 1
    funext v
    exact symbolName?_rename r v
  | _ => rfl

mutual

theorem rename_none : ∀ v : Value, v.rename .none = v
  | .list mark items => by
    have h := renameAll_none items
    simp only [rename, h]
    rfl
  | .tuple marks items => by
    have h := renameAll_none items
    have hmarks : marks.map Renaming.none.mark = marks := List.map_id marks
    simp only [rename, h, hmarks]
  | .primitive mark b => by cases b <;> rfl
  | .closure mark params body f => by
    have h := rename_none body
    simp only [rename, h]
    rfl
  | .number _ | .symbol _ | .bool _ | .unspecified | .text _ | .nothing => rfl

theorem renameAll_none : ∀ vs : List Value, renameAll .none vs = vs
  | [] => rfl
  | v :: vs => by rw [renameAll, rename_none v, renameAll_none vs]

end

theorem rename_none_eq_id : rename .none = id := funext rename_none

theorem map_rename_none (vs : List Value) : vs.map (rename .none) = vs := by
  rw [← renameAll_eq, renameAll_none]

/-! ## Texts -/

mutual

@[simp] theorem describe_rename : ∀ (depth : Nat) (v : Value),
    (v.rename r).describe depth = v.describe depth
  | depth, .list mark items => by
    cases depth with
    | zero => rfl
    | succ depth => simp only [rename, describe, describeAll_rename depth items]
  | depth, .tuple marks items => by
    cases depth with
    | zero => rfl
    | succ depth => simp only [rename, describe, describeAll_rename depth items]
  | depth, .primitive mark b => by simp only [rename, describe, Builtin.name_rename]
  | _, .closure _ _ _ _ => rfl
  | _, .number _ | _, .symbol _ | _, .bool _ | _, .unspecified | _, .text _ | _, .nothing => rfl

theorem describeAll_rename : ∀ (depth : Nat) (vs : List Value),
    describeAll depth (renameAll r vs) = describeAll depth vs
  | _, [] => rfl
  | depth, v :: vs => by
    simp only [renameAll, describeAll, describe_rename depth v, describeAll_rename depth vs]

end

mutual

@[simp] theorem print_rename : ∀ (depth : Nat) (v : Value),
    (v.rename r).print depth = v.print depth
  | depth, .list mark items => by
    cases depth with
    | zero => rfl
    | succ depth => simp only [rename, print, printAll_rename depth items]
  | depth, .tuple marks items => describe_rename r depth (.tuple marks items)
  | _, .primitive _ _ | _, .closure _ _ _ _ => rfl
  | _, .number _ | _, .symbol _ | _, .bool _ | _, .unspecified | _, .text _ | _, .nothing => rfl

theorem printAll_rename : ∀ (depth : Nat) (vs : List Value),
    printAll depth (renameAll r vs) = printAll depth vs
  | _, [] => rfl
  | depth, v :: vs => by
    simp only [renameAll, printAll, print_rename depth v, printAll_rename depth vs]

end

/-! ## Comparisons -/

mutual

theorem same_rename : ∀ a b : Value, (a.rename r).same (b.rename r) = a.same b
  | .number x, b => by simp only [rename, same, numeric?_rename]
  | .bool x, b => by simp only [rename, same, numeric?_rename]
  | .list m xs, b => by
    cases b with
    | list n ys => simp only [rename, same, Renaming.mark_beq, sameItems_rename xs ys]
    | _ => rfl
  | .tuple ms xs, b => by
    cases b with
    | tuple ns ys => simp only [rename, same, sameMarked_rename ms xs ns ys]
    | _ => rfl
  | .primitive m f, b => by
    cases b with
    | primitive n g => simp only [rename, same, Renaming.mark_beq]
    | _ => rfl
  | .closure m _ _ _, b => by
    cases b with
    | closure n _ _ _ => simp only [rename, same, Renaming.mark_beq]
    | _ => rfl
  | .symbol x, b => by cases b <;> rfl
  | .unspecified, b => by cases b <;> rfl
  | .text x, b => by cases b <;> rfl
  | .nothing, b => by cases b <;> rfl

theorem sameItems_rename : ∀ xs ys : List Value,
    sameItems (renameAll r xs) (renameAll r ys) = sameItems xs ys
  | [], [] => rfl
  | [], _ :: _ => rfl
  | _ :: _, [] => rfl
  | x :: xs, y :: ys => by
    simp only [renameAll, sameItems, same_rename x y, sameItems_rename xs ys]

theorem sameMarked_rename : ∀ (ms : List Mark) (xs : List Value) (ns : List Mark) (ys : List Value),
    sameMarked (ms.map r.mark) (renameAll r xs) (ns.map r.mark) (renameAll r ys) =
      sameMarked ms xs ns ys
  | _, [], _, [] => by simp only [renameAll, sameMarked]
  | _, [], _, _ :: _ => by simp only [renameAll, sameMarked]
  | [], _ :: _, _, _ => by simp only [renameAll, List.map_nil, sameMarked]
  | _ :: _, _ :: _, [], [] | _ :: _, _ :: _, _ :: _, [] | _ :: _, _ :: _, [], _ :: _ => by
    simp only [renameAll, List.map_cons, List.map_nil, sameMarked]
  | m :: ms, x :: xs, n :: ns, y :: ys => by
    simp only [renameAll, List.map_cons, sameMarked, Renaming.mark_beq, same_rename x y,
      sameMarked_rename ms xs ns ys]

end

theorem isEq_rename (a b : Value) : (a.rename r).isEq (b.rename r) = a.isEq b := by
  cases a <;> cases b <;> simp only [rename, isEq, Renaming.mark_beq, sameMarked_rename]

mutual

theorem isEqual?_rename : ∀ (depth : Nat) (a b : Value),
    (a.rename r).isEqual? depth (b.rename r) = a.isEqual? depth b
  | depth, .list m xs, b => by
    cases b with
    | list n ys =>
      cases depth with
      | zero => rfl
      | succ depth =>
        have hlength : ∀ vs : List Value, (renameAll r vs).length = vs.length := by simp
        simp only [rename, isEqual?, allEqual?_rename depth xs ys, hlength]
    | _ => rfl
  | _, .number _, b | _, .symbol _, b | _, .bool _, b | _, .unspecified, b | _, .tuple _ _, b
  | _, .primitive _ _, b | _, .closure _ _ _ _, b | _, .text _, b | _, .nothing, b =>
    congrArg some (isEq_rename r _ b)

theorem allEqual?_rename : ∀ (depth : Nat) (xs ys : List Value),
    allEqual? depth (renameAll r xs) (renameAll r ys) = allEqual? depth xs ys
  | _, [], [] => rfl
  | _, [], _ :: _ => rfl
  | _, _ :: _, [] => rfl
  | depth, x :: xs, y :: ys => by
    simp only [renameAll, allEqual?, isEqual?_rename depth x y, allEqual?_rename depth xs ys]

end

end Value

/-! ## Frames -/

namespace Frame

variable (r : Renaming)

/-- The names of a frame are symbols and have no number. -/
def renameBindings (bs : List (Value × Value)) : List (Value × Value) :=
  bs.map fun b => (b.1, b.2.rename r)

def rename (fr : Frame) : Frame := ⟨renameBindings r fr.bindings, fr.outer.map r.frame⟩

theorem renameBindings_none (bs : List (Value × Value)) : renameBindings .none bs = bs := by
  simp only [renameBindings, Value.rename_none, List.map_id']

theorem rename_none (fr : Frame) : fr.rename .none = fr := by
  obtain ⟨bs, outer⟩ := fr
  have houter : outer.map Renaming.none.frame = outer := Option.map_id'
  simp only [rename, renameBindings_none, houter]

theorem bind_rename (name v : Value) (bs : List (Value × Value)) :
    bind name (v.rename r) (renameBindings r bs) = renameBindings r (bind name v bs) := by
  induction bs with
  | nil => rfl
  | cons b bs ih =>
    obtain ⟨key, old⟩ := b
    simp only [renameBindings, List.map_cons, bind] at ih ⊢
    split
    · rfl
    · rw [ih]
      rfl

theorem insert_rename (fr : Frame) (name v : Value) :
    (fr.rename r).insert name (v.rename r) = (fr.insert name v).rename r := by
  simp only [insert, rename, bind_rename]

theorem get?_rename (fr : Frame) (name : Value) :
    (fr.rename r).get? name = (fr.get? name).map (Value.rename r) := by
  simp only [get?, rename, renameBindings, List.find?_map, Option.map_map]
  rfl

/-- The bindings of a new frame. -/
theorem foldl_bind_rename (names values : List Value) (bs : List (Value × Value)) :
    (names.zip (values.map (Value.rename r))).foldl (fun bs b => bind b.1 b.2 bs)
        (renameBindings r bs) =
      renameBindings r ((names.zip values).foldl (fun bs b => bind b.1 b.2 bs) bs) := by
  induction names generalizing values bs with
  | nil => rfl
  | cons name names ih =>
    cases values with
    | nil => rfl
    | cons v values =>
      simp only [List.map_cons, List.zip_cons_cons, List.foldl_cons, bind_rename, ih]

end Frame

/-! ## Data -/

mutual

/-- Data that take marks in parallel become the same values, renamed. -/
theorem Datum.intern_rename (r : Renaming) : ∀ (d : Datum) (next next' : Mark),
    (∀ i < d.marks, r.mark (next + i) = next' + i) →
      (d.intern next).1.rename r = (d.intern next').1
  | .number _, _, _, _ => rfl
  | .symbol _, _, _, _ => rfl
  | .list items, next, next', h => by
    have hmark : r.mark next = next' := h 0 (by simp [Datum.marks])
    have hitems := Datum.internAll_rename r items (next + 1) (next' + 1) fun i hi => by
      rw [Nat.add_assoc, Nat.add_assoc, Nat.add_comm 1]
      exact h (i + 1) (by simpa [Datum.marks] using hi)
    simp only [Datum.intern, Value.rename, hmark, hitems]

theorem Datum.internAll_rename (r : Renaming) : ∀ (ds : List Datum) (next next' : Mark),
    (∀ i < Datum.marksAll ds, r.mark (next + i) = next' + i) →
      Value.renameAll r (Datum.internAll next ds).1 = (Datum.internAll next' ds).1
  | [], _, _, _ => rfl
  | d :: ds, next, next', h => by
    have hd := Datum.intern_rename r d next next' fun i hi =>
      h i (by simp only [Datum.marksAll]; omega)
    have hds := Datum.internAll_rename r ds (d.intern next).2 (d.intern next').2 fun i hi => by
      rw [Datum.intern_snd, Datum.intern_snd, Nat.add_assoc, Nat.add_assoc]
      exact h (d.marks + i) (by simp only [Datum.marksAll]; omega)
    simp only [Datum.internAll, Value.renameAll, hd, hds]

end

end SmallLisp
