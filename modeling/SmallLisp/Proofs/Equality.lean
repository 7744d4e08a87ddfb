import Mathlib.Data.List.Forall2
import SmallLisp.Proofs.Identity
import SmallLisp.Proofs.Limits
import SmallLisp.Proofs.Number.Order

/-!
The laws of equality.

`eq?` compares lists and procedures by identity and `equal?` looks into lists.  Neither is reflexive,
since a NaN equals nothing.  Nor is it plain that they are transitive: `equal?` changes between lists
and identity, and two tuples are equal if each pair of items is identical or holds the same.

Among values that one registry records, both are symmetric and transitive, `eq?` fails for a value and
itself at a NaN only and `equal?` only where lists lead to one (`Registry.equalityLaws`).  So this is
true of all values that arise in a course of programs (`Interpreter.equality_of_arising`).
-/

namespace SmallLisp

namespace Value

/-! ## NaNs and nesting -/

def IsNaN : Value → Prop
  | .number x => x.isNaN = true
  | _ => False

/-- A NaN is there, as the value itself or where lists lead to it. -/
inductive HoldsNaN : Value → Prop
  | self {v : Value} : v.IsNaN → HoldsNaN v
  | item {mark : Mark} {items : List Value} {v : Value} : v ∈ items → HoldsNaN v →
      HoldsNaN (.list mark items)

mutual

/-- How deep lists stand in lists. -/
def nesting : Value → Nat
  | .list _ items => nestingAll items + 1
  | _ => 0

def nestingAll : List Value → Nat
  | [] => 0
  | v :: rest => max (nesting v) (nestingAll rest)

end

theorem nesting_le_of_mem {v : Value} {vs : List Value} (h : v ∈ vs) : v.nesting ≤ nestingAll vs := by
  induction vs with
  | nil => cases h
  | cons w vs ih =>
    rw [nestingAll]
    rcases List.mem_cons.1 h with rfl | h
    · exact Nat.le_max_left _ _
    · exact Nat.le_trans (ih h) (Nat.le_max_right _ _)

theorem holdsNaN_list {mark : Mark} {items : List Value} :
    HoldsNaN (.list mark items) ↔ ∃ v ∈ items, HoldsNaN v := by
  constructor
  · rintro (h | ⟨hv, h⟩)
    · cases h
    · exact ⟨_, hv, h⟩
  · rintro ⟨v, hv, h⟩
    exact .item hv h

theorem holdsNaN_of_not_list {v : Value} (hv : ∀ mark items, v ≠ .list mark items) :
    HoldsNaN v ↔ v.IsNaN := by
  constructor
  · rintro (h | ⟨-, -⟩)
    · exact h
    · exact absurd rfl (hv _ _)
  · exact .self

/-! ## Identity -/

/-- What `isEq` holds of. -/
inductive Identical : Value → Value → Prop
  | number {x y : Number} : Number.holds .equal x y = true → Identical (.number x) (.number y)
  | symbol (name : String) : Identical (.symbol name) (.symbol name)
  | bool (b : Bool) : Identical (.bool b) (.bool b)
  | unspecified : Identical .unspecified .unspecified
  | list {mark : Mark} {xs ys : List Value} : Identical (.list mark xs) (.list mark ys)
  | tuple {ms ns : List Mark} {xs ys : List Value} : sameMarked ms xs ns ys = true →
      Identical (.tuple ms xs) (.tuple ns ys)
  | primitive {mark : Mark} {f g : Builtin} : Identical (.primitive mark f) (.primitive mark g)
  | closure {mark : Mark} {xs ys : List String} {e e' : Value} {f g : FrameId} :
      Identical (.closure mark xs e f) (.closure mark ys e' g)
  | text (s : String) : Identical (.text s) (.text s)
  | nothing : Identical .nothing .nothing

theorem isEq_iff {a b : Value} : a.isEq b = true ↔ Identical a b := by
  constructor
  · intro h
    unfold isEq at h
    split at h
    · cases eq_of_beq h
      exact .list
    · cases eq_of_beq h
      exact .primitive
    · cases eq_of_beq h
      exact .closure
    · exact .number h
    · cases eq_of_beq h
      exact .bool _
    · cases eq_of_beq h
      exact .symbol _
    · exact .unspecified
    · exact .tuple h
    · cases eq_of_beq h
      exact .text _
    · exact .nothing
    · cases h
  · intro h
    cases h with
    | number h => exact h
    | tuple h => exact h
    | unspecified => rfl
    | nothing => rfl
    | _ => exact beq_self_eq_true _

/-- Tuples are compared item by item. -/
theorem sameMarked_cons_iff {ms ns : List Mark} {x : Value} {xs vs : List Value} :
    sameMarked ms (x :: xs) ns vs = true ↔
      ∃ m ms' n ns' y ys, ms = m :: ms' ∧ ns = n :: ns' ∧ vs = y :: ys ∧
        (m = n ∨ same x y = true) ∧ sameMarked ms' xs ns' ys = true := by
  cases ms with
  | nil => simp [sameMarked]
  | cons m ms =>
    cases ns with
    | nil => simp [sameMarked]
    | cons n ns =>
      cases vs with
      | nil => simp [sameMarked]
      | cons y ys =>
        rw [sameMarked, Bool.and_eq_true, Bool.or_eq_true, beq_iff_eq]
        constructor
        · rintro ⟨hitem, hrest⟩
          exact ⟨m, ms, n, ns, y, ys, rfl, rfl, rfl, hitem, hrest⟩
        · rintro ⟨_, _, _, _, _, _, hm, hn, hy, hitem, hrest⟩
          cases hm
          cases hn
          cases hy
          exact ⟨hitem, hrest⟩

theorem sameMarked_nil_iff {ms ns : List Mark} {vs : List Value} :
    sameMarked ms [] ns vs = true ↔ vs = [] := by
  cases vs <;> simp [sameMarked]

end Value

namespace Registry

open Value

variable {r : Registry} {ms ns ps : List Mark} {xs ys zs : List Value} {a b c v : Value}

/-! ## Tuples -/

theorem Records.of_tuple_cons {m : Mark} {x : Value}
    (h : r.Records (.tuple (m :: ms) (x :: xs))) :
    r m = some x ∧ (∃ n, x = .number n) ∧ r.Records (.tuple ms xs) := by
  obtain ⟨hmarks, hnumbers⟩ := h
  obtain ⟨hm, hms⟩ := List.cons.inj hmarks
  obtain ⟨hx, hxs⟩ := List.forall_mem_cons.1 hnumbers
  exact ⟨hm, hx, hms, hxs⟩

theorem Records.sameMarked_symm (hx : r.Records (.tuple ms xs)) (hy : r.Records (.tuple ns ys))
    (h : sameMarked ms xs ns ys = true) : sameMarked ns ys ms xs = true := by
  induction xs generalizing ms ns ys with
  | nil =>
    cases sameMarked_nil_iff.1 h
    exact sameMarked_nil_iff.2 rfl
  | cons x xs ih =>
    obtain ⟨m, ms, n, ns, y, ys, rfl, rfl, rfl, hitem, hrest⟩ := sameMarked_cons_iff.1 h
    obtain ⟨-, ⟨i, rfl⟩, hxs⟩ := hx.of_tuple_cons
    obtain ⟨-, ⟨j, rfl⟩, hys⟩ := hy.of_tuple_cons
    refine sameMarked_cons_iff.2 ⟨n, ns, m, ms, _, xs, rfl, rfl, rfl, ?_, ih hxs hys hrest⟩
    exact hitem.imp Eq.symm Number.holds_equal_symm

/-- Items that are identical hold the same, so that an item which holds the same as one of them does
so with the other. -/
theorem Records.sameMarked_trans (hx : r.Records (.tuple ms xs)) (hy : r.Records (.tuple ns ys))
    (hz : r.Records (.tuple ps zs)) (hxy : sameMarked ms xs ns ys = true)
    (hyz : sameMarked ns ys ps zs = true) : sameMarked ms xs ps zs = true := by
  induction xs generalizing ms ns ps ys zs with
  | nil =>
    cases sameMarked_nil_iff.1 hxy
    exact sameMarked_nil_iff.2 (sameMarked_nil_iff.1 hyz)
  | cons x xs ih =>
    obtain ⟨m, ms, n, ns, y, ys, rfl, rfl, rfl, hitem, hrest⟩ := sameMarked_cons_iff.1 hxy
    obtain ⟨_, _, p, ps, z, zs, heq, rfl, rfl, hitem', hrest'⟩ := sameMarked_cons_iff.1 hyz
    cases heq
    obtain ⟨hm, ⟨i, rfl⟩, hxs⟩ := hx.of_tuple_cons
    obtain ⟨hn, ⟨j, rfl⟩, hys⟩ := hy.of_tuple_cons
    obtain ⟨hp, ⟨k, rfl⟩, hzs⟩ := hz.of_tuple_cons
    refine sameMarked_cons_iff.2
      ⟨m, ms, p, ps, _, zs, rfl, rfl, rfl, ?_, ih hxs hys hzs hrest hrest'⟩
    rcases hitem with rfl | hitem
    · rw [hm] at hn
      cases hn
      exact hitem'
    · rcases hitem' with rfl | hitem'
      · rw [hn] at hp
        cases hp
        exact Or.inr hitem
      · exact Or.inr (Number.holds_equal_trans hitem hitem')

theorem Records.sameMarked_self (hx : r.Records (.tuple ms xs)) : sameMarked ms xs ms xs = true := by
  induction xs generalizing ms with
  | nil => exact sameMarked_nil_iff.2 rfl
  | cons x xs ih =>
    cases ms with
    | nil => cases hx.1
    | cons m ms =>
      exact sameMarked_cons_iff.2
        ⟨m, ms, m, ms, x, xs, rfl, rfl, rfl, Or.inl rfl, ih hx.of_tuple_cons.2.2⟩

/-! ## Laws of `eq?` -/

theorem Records.identical_symm (ha : r.Records a) (hb : r.Records b) (h : Identical a b) :
    Identical b a := by
  cases h with
  | number h => exact .number (Number.holds_equal_symm h)
  | tuple h => exact .tuple (ha.sameMarked_symm hb h)
  | symbol name => exact .symbol name
  | bool b => exact .bool b
  | unspecified => exact .unspecified
  | list => exact .list
  | primitive => exact .primitive
  | closure => exact .closure
  | text s => exact .text s
  | nothing => exact .nothing

theorem Records.isEq_comm (ha : r.Records a) (hb : r.Records b) : a.isEq b = b.isEq a := by
  rw [Bool.eq_iff_iff, isEq_iff, isEq_iff]
  exact ⟨ha.identical_symm hb, hb.identical_symm ha⟩

theorem Records.isEq_trans (ha : r.Records a) (hb : r.Records b) (hc : r.Records c)
    (hab : a.isEq b = true) (hbc : b.isEq c = true) : a.isEq c = true := by
  rw [isEq_iff] at hab hbc ⊢
  cases hab with
  | number h =>
    cases hbc with
    | number h' => exact .number (Number.holds_equal_trans h h')
  | tuple h =>
    cases hbc with
    | tuple h' => exact .tuple (ha.sameMarked_trans hb hc h h')
  | list =>
    cases hbc with
    | list => exact .list
  | primitive =>
    cases hbc with
    | primitive => exact .primitive
  | closure =>
    cases hbc with
    | closure => exact .closure
  | _ => exact hbc

theorem Records.isEq_self (hv : r.Records v) : v.isEq v = true ↔ ¬ v.IsNaN := by
  cases v with
  | number x => exact Number.holds_equal_self
  | tuple ms xs => simp [isEq, IsNaN, hv.sameMarked_self]
  | _ => simp [isEq, IsNaN]

/-- Lists that are identical are the same. -/
theorem Records.eq_of_isEq {mark : Mark} (ha : r.Records (.list mark xs)) (hb : r.Records b)
    (h : (Value.list mark xs).isEq b = true) : b = .list mark xs := by
  cases isEq_iff.1 h with
  | list => exact Option.some.inj (hb.1.symm.trans ha.1)

end Registry

/-! ## Comparison of lists -/

namespace Value

variable {a b v : Value} {d : Nat} {xs ys : List Value}

theorem eq_list_or (v : Value) :
    (∃ mark items, v = .list mark items) ∨ ∀ mark items, v ≠ .list mark items := by
  cases v with
  | list mark items => exact Or.inl ⟨mark, items, rfl⟩
  | _ => exact Or.inr nofun

theorem isEqual?_of_not_list (ha : ∀ mark items, a ≠ .list mark items) :
    a.isEqual? d b = some (a.isEq b) := by
  cases a with
  | list mark items => exact absurd rfl (ha mark items)
  | _ => rfl

theorem isEqual?_not_list (hb : ∀ mark items, b ≠ .list mark items) :
    a.isEqual? d b = some (a.isEq b) := by
  cases b with
  | list mark items => exact absurd rfl (hb mark items)
  | _ => cases a <;> rfl

theorem isEqual?_list (d : Nat) (m n : Mark) (xs ys : List Value) :
    (Value.list m xs).isEqual? (d + 1) (.list n ys) =
      if xs.length = ys.length then allEqual? d xs ys else some false := by
  rw [isEqual?]

theorem allEqual?_eq_true_iff (hlen : xs.length = ys.length) :
    allEqual? d xs ys = some true ↔ List.Forall₂ (fun x y => x.isEqual? d y = some true) xs ys := by
  induction xs generalizing ys with
  | nil =>
    cases ys with
    | nil => simp [allEqual?]
    | cons y ys => cases hlen
  | cons x xs ih =>
    cases ys with
    | nil => cases hlen
    | cons y ys =>
      rw [List.forall₂_cons, ← ih (Nat.succ.inj hlen), allEqual?]
      cases hxy : x.isEqual? d y with
      | none => simp
      | some answer => cases answer <;> simp

/-- Lists are equal if they are of one length and their items are equal. -/
theorem isEqual?_list_iff {m n : Mark} :
    (Value.list m xs).isEqual? (d + 1) (.list n ys) = some true ↔
      List.Forall₂ (fun x y => x.isEqual? d y = some true) xs ys := by
  rw [isEqual?_list]
  split
  · next hlen => exact allEqual?_eq_true_iff hlen
  · next hlen => exact ⟨nofun, fun h => absurd h.length_eq hlen⟩

/-- Values are equal as lists or as values of `eq?`. -/
theorem isEqual?_cases (h : a.isEqual? d b = some true) :
    (∃ k m n xs ys, d = k + 1 ∧ a = .list m xs ∧ b = .list n ys ∧
      List.Forall₂ (fun x y => x.isEqual? k y = some true) xs ys) ∨
    (∀ mark items, a ≠ .list mark items) ∧ (∀ mark items, b ≠ .list mark items) ∧
      a.isEq b = true := by
  rcases eq_list_or a with ⟨m, xs, rfl⟩ | ha
  · rcases eq_list_or b with ⟨n, ys, rfl⟩ | hb
    · cases d with
      | zero => cases h
      | succ k => exact Or.inl ⟨k, m, n, xs, ys, rfl, rfl, rfl, isEqual?_list_iff.1 h⟩
    · rw [isEqual?_not_list hb] at h
      cases isEq_iff.1 (Option.some.inj h) with
      | list => exact absurd rfl (hb m _)
  · rw [isEqual?_of_not_list ha] at h
    have heq := Option.some.inj h
    refine Or.inr ⟨ha, ?_, heq⟩
    rintro mark items rfl
    cases isEq_iff.1 heq with
    | list => exact ha mark _ rfl

theorem allEqual?_isSome (h : ∀ x ∈ xs, ∀ y, (x.isEqual? d y).isSome) (ys : List Value) :
    (allEqual? d xs ys).isSome := by
  induction xs generalizing ys with
  | nil => rfl
  | cons x xs ih =>
    cases ys with
    | nil => rfl
    | cons y ys =>
      obtain ⟨answer, hanswer⟩ := Option.isSome_iff_exists.1 (h x (by simp) y)
      rw [allEqual?, hanswer]
      cases answer with
      | false => rfl
      | true => exact ih (fun x' hx' => h x' (by simp [hx'])) ys

/-- There is an answer if one of the values is not nested beyond the depth. -/
theorem isEqual?_isSome (h : a.nesting ≤ d) (b : Value) : (a.isEqual? d b).isSome := by
  induction d generalizing a b with
  | zero =>
    rw [isEqual?_of_not_list]
    · rfl
    · rintro mark items rfl
      cases h
  | succ d ih =>
    rcases eq_list_or a with ⟨m, xs, rfl⟩ | ha
    · rcases eq_list_or b with ⟨n, ys, rfl⟩ | hb
      · rw [isEqual?_list]
        split
        · refine allEqual?_isSome (fun x hx y => ih ?_ y) ys
          exact Nat.le_trans (nesting_le_of_mem hx) (Nat.le_of_succ_le_succ h)
        · rfl
      · rw [isEqual?_not_list hb]
        rfl
    · rw [isEqual?_of_not_list ha]
      rfl

end Value

namespace Registry

open Value

variable {r : Registry} {a b c v : Value} {d : Nat} {xs ys : List Value}

/-! ## Laws of `equal?` -/

theorem allEqual?_comm (h : ∀ x ∈ xs, ∀ y ∈ ys, x.isEqual? d y = y.isEqual? d x) :
    allEqual? d xs ys = allEqual? d ys xs := by
  induction xs generalizing ys with
  | nil => cases ys <;> rfl
  | cons x xs ih =>
    cases ys with
    | nil => rfl
    | cons y ys =>
      rw [allEqual?, allEqual?, h x (by simp) y (by simp),
        ih fun x' hx' y' hy' => h x' (by simp [hx']) y' (by simp [hy'])]

theorem Records.isEqual?_comm_of_not_list (ha : r.Records a) (hb : r.Records b)
    (hlist : ∀ mark items, a ≠ .list mark items) : a.isEqual? d b = b.isEqual? d a := by
  rw [isEqual?_of_not_list hlist, isEqual?_not_list hlist, ha.isEq_comm hb]

theorem Records.isEqual?_comm (ha : r.Records a) (hb : r.Records b) :
    a.isEqual? d b = b.isEqual? d a := by
  induction d using Nat.strongRecOn generalizing a b with
  | ind d ih =>
    rcases eq_list_or a with ⟨m, xs, rfl⟩ | hlist
    · rcases eq_list_or b with ⟨n, ys, rfl⟩ | hlist
      · cases d with
        | zero => rfl
        | succ d =>
          have hitems : allEqual? d xs ys = allEqual? d ys xs := allEqual?_comm fun x hx y hy =>
            ih d (Nat.lt_succ_self d) (recordsAll_iff.1 ha.2 x hx) (recordsAll_iff.1 hb.2 y hy)
          rw [isEqual?_list, isEqual?_list, hitems]
          simp only [eq_comm]
      · exact (hb.isEqual?_comm_of_not_list ha hlist).symm
    · exact ha.isEqual?_comm_of_not_list hb hlist

theorem forall₂_trans {R : Value → Value → Prop} {zs : List Value}
    (h : ∀ x ∈ xs, ∀ y ∈ ys, ∀ z ∈ zs, R x y → R y z → R x z) (hxy : List.Forall₂ R xs ys)
    (hyz : List.Forall₂ R ys zs) : List.Forall₂ R xs zs := by
  induction hxy generalizing zs with
  | nil => exact hyz
  | @cons x y xs ys hhead _ ih =>
    cases hyz with
    | @cons _ z _ zs hhead' htail' =>
      refine .cons (h x (by simp) y (by simp) z (by simp) hhead hhead') (ih ?_ htail')
      exact fun x' hx' y' hy' z' hz' => h x' (by simp [hx']) y' (by simp [hy']) z' (by simp [hz'])

theorem Records.isEqual?_trans (ha : r.Records a) (hb : r.Records b) (hc : r.Records c)
    (hab : a.isEqual? d b = some true) (hbc : b.isEqual? d c = some true) :
    a.isEqual? d c = some true := by
  induction d using Nat.strongRecOn generalizing a b c with
  | ind d ih =>
    rcases isEqual?_cases hab with ⟨k, m, n, xs, ys, rfl, rfl, rfl, hxy⟩ | ⟨hna, hnb, heq⟩
    · rcases isEqual?_cases hbc with ⟨k', _, p, _, zs, hk, hlist, rfl, hyz⟩ | ⟨hnb, -⟩
      · cases hk
        cases hlist
        refine isEqual?_list_iff.2 (forall₂_trans (fun x hx y hy z hz => ?_) hxy hyz)
        exact ih k (Nat.lt_succ_self k) (recordsAll_iff.1 ha.2 x hx) (recordsAll_iff.1 hb.2 y hy)
          (recordsAll_iff.1 hc.2 z hz)
      · exact absurd rfl (hnb n ys)
    · rcases isEqual?_cases hbc with ⟨_, n, _, ys, _, -, rfl, -⟩ | ⟨-, -, heq'⟩
      · exact absurd rfl (hnb n ys)
      · rw [isEqual?_of_not_list hna, ha.isEq_trans hb hc heq heq']

theorem Records.isEqual?_self (hv : r.Records v) (h : v.nesting ≤ d) :
    v.isEqual? d v = some true ↔ ¬ v.HoldsNaN := by
  induction d using Nat.strongRecOn generalizing v with
  | ind d ih =>
    rcases eq_list_or v with ⟨m, xs, rfl⟩ | hlist
    · cases d with
      | zero => cases h
      | succ d =>
        have hitem : ∀ x ∈ xs, (x.isEqual? d x = some true ↔ ¬ x.HoldsNaN) := fun x hx =>
          ih d (Nat.lt_succ_self d) (recordsAll_iff.1 hv.2 x hx)
            (Nat.le_trans (nesting_le_of_mem hx) (Nat.le_of_succ_le_succ h))
        rw [isEqual?_list_iff, List.forall₂_same, holdsNaN_list]
        constructor
        · rintro hall ⟨x, hx, hnan⟩
          exact (hitem x hx).1 (hall x hx) hnan
        · intro hnone x hx
          exact (hitem x hx).2 fun hnan => hnone ⟨x, hx, hnan⟩
    · rw [isEqual?_of_not_list hlist, holdsNaN_of_not_list hlist, ← hv.isEq_self,
        Option.some.injEq]

theorem Records.isEqual?_of_isEq (ha : r.Records a) (hb : r.Records b) (hd : a.nesting ≤ d)
    (hnan : ¬ a.HoldsNaN) (h : a.isEq b = true) : a.isEqual? d b = some true := by
  rcases eq_list_or a with ⟨m, xs, rfl⟩ | hlist
  · cases ha.eq_of_isEq hb h
    exact (ha.isEqual?_self hd).2 hnan
  · rw [isEqual?_of_not_list hlist, h]

end Registry

/-! ## Values that arise -/

/-- The laws of `eq?` and `equal?` among some values. -/
structure EqualityLaws (P : Value → Prop) : Prop where
  eq_comm : ∀ a b, P a → P b → a.isEq b = b.isEq a
  eq_trans : ∀ a b c, P a → P b → P c → a.isEq b = true → b.isEq c = true → a.isEq c = true
  eq_self : ∀ v, P v → (v.isEq v = true ↔ ¬ v.IsNaN)
  /-- Identity of lists is sound. -/
  eq_of_isEq : ∀ mark items b, P (.list mark items) → P b →
    (Value.list mark items).isEq b = true → b = .list mark items
  equal_comm : ∀ d a b, P a → P b → a.isEqual? d b = b.isEqual? d a
  equal_trans : ∀ d a b c, P a → P b → P c → a.isEqual? d b = some true →
    b.isEqual? d c = some true → a.isEqual? d c = some true
  equal_self : ∀ d v, P v → v.nesting ≤ d → (v.isEqual? d v = some true ↔ ¬ v.HoldsNaN)
  equal_of_eq : ∀ d a b, P a → P b → a.nesting ≤ d → ¬ a.HoldsNaN → a.isEq b = true →
    a.isEqual? d b = some true

theorem Registry.equalityLaws (r : Registry) : EqualityLaws r.Records where
  eq_comm _ _ := Records.isEq_comm
  eq_trans _ _ _ := Records.isEq_trans
  eq_self _ := Records.isEq_self
  eq_of_isEq _ _ _ := Records.eq_of_isEq
  equal_comm _ _ _ := Records.isEqual?_comm
  equal_trans _ _ _ _ := Records.isEqual?_trans
  equal_self _ _ := Records.isEqual?_self
  equal_of_eq _ _ _ := Records.isEqual?_of_isEq

theorem EqualityLaws.mono {P P' : Value → Prop} (h : EqualityLaws P) (hP : ∀ v, P' v → P v) :
    EqualityLaws P' where
  eq_comm a b ha hb := h.eq_comm a b (hP a ha) (hP b hb)
  eq_trans a b c ha hb hc := h.eq_trans a b c (hP a ha) (hP b hb) (hP c hc)
  eq_self v hv := h.eq_self v (hP v hv)
  eq_of_isEq mark items b hlist hb := h.eq_of_isEq mark items b (hP _ hlist) (hP b hb)
  equal_comm d a b ha hb := h.equal_comm d a b (hP a ha) (hP b hb)
  equal_trans d a b c ha hb hc := h.equal_trans d a b c (hP a ha) (hP b hb) (hP c hc)
  equal_self d v hv := h.equal_self d v (hP v hv)
  equal_of_eq d a b ha hb := h.equal_of_eq d a b (hP a ha) (hP b hb)

/-- A depth at which a value can be compared, and the answer that all greater depths give. -/
theorem Value.exists_isEqual? {a : Value} {d : Nat} (h : a.nesting ≤ d) (b : Value) :
    ∃ answer, ∀ d', d ≤ d' → a.isEqual? d' b = some answer := by
  obtain ⟨answer, hanswer⟩ := Option.isSome_iff_exists.1 (Value.isEqual?_isSome h b)
  refine ⟨answer, fun d' hd' => ?_⟩
  rcases Value.isEqual?_upto a b hd' with hnone | heq
  · rw [hanswer] at hnone
    cases hnone
  · rw [heq, hanswer]

namespace Interpreter

/-- `eq?` and `equal?` in the course of any programs.  They answer at the depth of the call, and
`equal?` has an answer, always the same, where lists are not nested beyond it. -/
theorem equality_of_arising {notices : Array Notice} {root : FrameId} {s₀ : Store}
    (hfresh : CommandLine.fresh notices = (root, s₀)) (ps : List (Nat × String)) :
    EqualityLaws (Arises root ps s₀) ∧
    (∀ d m n xs ys, (Value.list m xs).isEqual? (d + 1) (.list n ys) = some true ↔
      List.Forall₂ (fun x y => x.isEqual? d y = some true) xs ys) ∧
    (∀ d (a b : Value), a.nesting ≤ d → ∃ answer, ∀ d', d ≤ d' → a.isEqual? d' b = some answer) ∧
    ∀ d mark s a b,
      call (d + 1) (.primitive mark (.operation .eq)) [a, b] s = .ok (.bool (a.isEq b)) s ∧
      call (d + 1) (.primitive mark (.operation .equal)) [a, b] s =
        match a.isEqual? d b with
        | some answer => .ok (.bool answer) s
        | none => .error .depth s := by
  refine ⟨?_, ?_, ?_, ?_⟩
  · obtain ⟨r, hr⟩ := exists_records hfresh ps
    exact r.equalityLaws.mono hr
  · exact fun d m n xs ys => Value.isEqual?_list_iff
  · exact fun d a b h => Value.exists_isEqual? h b
  · intro d mark s a b
    refine ⟨rfl, ?_⟩
    show Machine.settle _ (Lists.equal d [a, b]) s = _
    rw [Lists.equal, Argument.two]
    cases a.isEqual? d b <;> rfl

end Interpreter

/-- The run gives a list of one NaN. -/
def Eval.givesNaN (x : Eval Value) (s : Store) : Bool :=
  match x s with
  | .ok (.list _ [.number y]) _ => y.isNaN
  | _ => false

theorem Eval.exists_of_givesNaN {x : Eval Value} {s : Store} (h : x.givesNaN s = true) :
    ∃ mark y s', x s = .ok (.list mark [.number y]) s' ∧ y.isNaN = true := by
  unfold Eval.givesNaN at h
  split at h
  · next mark y s' hx => exact ⟨mark, y, s', hx, h⟩
  · cases h

namespace Interpreter

/-- A list that is itself but not equal to itself, and two lists that are equal but not identical. -/
theorem equality_of_arising_nan :
    let ps := [(9, "(list NAN)"), (9, "(quote ((p q) (p q)))")]
    let items : List Value := [.symbol "p", .symbol "q"]
    ∃ s₀ k m n x, CommandLine.fresh #[] = (0, s₀) ∧
      Arises 0 ps s₀ (.list k [.number x]) ∧ x.isNaN = true ∧
      (Value.list k [.number x]).isEq (.list k [.number x]) = true ∧
      (Value.list k [.number x]).isEqual? 1 (.list k [.number x]) ≠ some true ∧
      Arises 0 ps s₀ (.list m items) ∧ Arises 0 ps s₀ (.list n items) ∧
      (Value.list m items).isEq (.list n items) = false ∧
      (Value.list m items).isEqual? 1 (.list n items) = some true ∧
      (Value.list n items).isEqual? 1 (.list m items) = some true := by
  intro ps items
  let nan : Datum := .list [.symbol "list", .symbol "NAN"]
  let pair : Datum := .list [.symbol "p", .symbol "q"]
  let quoted : Datum := .list [.symbol "quote", .list [pair, pair]]
  -- the store is large: nothing below may unfold it
  obtain ⟨s₀, hfresh, hrun⟩ : ∃ s₀, CommandLine.fresh #[] = (0, s₀) ∧
      (evaluate 9 (nan.intern s₀.nextMark).1 0).givesNaN (s₀.spend nan.marks) = true :=
    ⟨_, CommandLine.fresh_eq #[], by decide +kernel⟩
  obtain ⟨hlaws, -, -, -⟩ := equality_of_arising hfresh ps
  obtain ⟨k, x, s, hresult, hx⟩ := Eval.exists_of_givesNaN hrun
  have hreadNaN : parseAll 9 "(list NAN)" = ([nan], none) := by with_unfolding_all rfl
  have hreadQuoted : parseAll 9 "(quote ((p q) (p q)))" = ([quoted], none) := by
    with_unfolding_all rfl
  have hfirst : ∀ x found, (⟨9, x, found⟩ : Turn) ∈ turnsOf 9 0 [x] found := fun x found =>
    mem_turnsOf_cons.2 (Or.inl rfl)
  have hturn : (⟨9, nan, s₀⟩ : Turn) ∈ turns 0 ps s₀ :=
    List.mem_append_left _ (mem_turnsIn.2 ⟨[nan], hreadNaN, hfirst nan s₀⟩)
  obtain ⟨found, hturn'⟩ : ∃ found, (⟨9, quoted, found⟩ : Turn) ∈ turns 0 ps s₀ :=
    ⟨_, List.mem_append_right _ (List.mem_append_left _
      (mem_turnsIn.2 ⟨[quoted], hreadQuoted, hfirst quoted _⟩))⟩
  have hnan : Arises 0 ps s₀ (.list k [.number x]) := .result ⟨_, hturn, .refl⟩ hresult
  let m : Nat := found.nextMark + 2
  have hpairs : Arises 0 ps s₀ (.list (found.nextMark + 1) [.list m items, .list (m + 1) items]) :=
    .item (.subject ⟨_, hturn', .refl⟩ List.mem_cons_self)
      (List.mem_cons_of_mem _ List.mem_cons_self)
  have hm : Arises 0 ps s₀ (.list m items) := .item hpairs List.mem_cons_self
  have hn : Arises 0 ps s₀ (.list (m + 1) items) :=
    .item hpairs (List.mem_cons_of_mem _ List.mem_cons_self)
  refine ⟨s₀, k, m, m + 1, x, hfresh, hnan, hx, ?_, ?_, hm, hn, ?_, rfl, ?_⟩
  · exact (hlaws.eq_self _ hnan).2 fun h => h
  · intro h
    exact (hlaws.equal_self 1 _ hnan (Nat.le_refl 1)).1 h (.item List.mem_cons_self (.self hx))
  · exact beq_false_of_ne (Nat.ne_of_lt (Nat.lt_succ_self m))
  · exact (hlaws.equal_comm 1 _ _ hn hm).trans rfl

end Interpreter

end SmallLisp
