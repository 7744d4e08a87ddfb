import SmallLisp.Proofs.Number.Order
import SmallLisp.Proofs.Standard

/-!
One order of all numbers.

The five comparisons, `eq?`, `equal?`, `max` and `min` follow the order of exact values
(`Number.holds_iff`): no integer is rounded to be compared with a float, and infinities are the ends.
`max` and `min` go through their arguments from the left and keep the best so far, which is always the
earliest of those that nothing seen so far passes (`Number.Leads.step`); so they end with the earliest
argument that nothing passes (`Number.leads_extremum`).
-/

namespace SmallLisp

/-- What a builtin makes of its arguments at every depth and in every store, which it leaves as it is. -/
def Operation.Returns (op : Operation) (args : List Value) (v : Value) : Prop :=
  ∀ d mark s, SmallLisp.call (d + 1) (.primitive mark (.operation op)) args s = .ok v s

theorem Operation.returns_of_call {op : Operation} {args : List Value} {v : Value}
    (h : ∀ depth, op.call depth args = .ok (.value v)) : op.Returns args v := by
  intro d mark s
  show Machine.settle op.name (op.call d args) s = .ok v s
  rw [h d]
  rfl

namespace Number

/-! ## Comparisons -/

/-- The relation of exact values that a comparison is. -/
def Relation.Between : Relation → WithBot (WithTop ℚ) → WithBot (WithTop ℚ) → Prop
  | .greater, p, q => q < p
  | .less, p, q => p < q
  | .greaterEq, p, q => q ≤ p
  | .lessEq, p, q => p ≤ q
  | .equal, p, q => p = q

/-- The comparison that a strict one or equality is. -/
def Relation.orEqual : Relation → Relation
  | .greater => .greaterEq
  | .less => .lessEq
  | r => r

theorem Relation.allows_cmp (r : Relation) (p q : WithBot (WithTop ℚ)) :
    r.allows (cmp p q) = true ↔ r.Between p q := by
  rcases lt_trichotomy p q with h | rfl | h
  · rw [(cmp_eq_lt_iff p q).2 h]
    cases r <;> simp [allows, Between, h, h.le, h.ne, h.not_gt]
  · rw [cmp_self_eq_eq]
    cases r <;> simp [allows, Between]
  · rw [(cmp_eq_gt_iff p q).2 h]
    cases r <;> simp [allows, Between, h, h.le, h.ne', h.not_gt]

section Laws

variable {r : Relation} {a b c : Number} {p q : WithBot (WithTop ℚ)}

/-- A comparison holds of two numbers if it does of their exact values. -/
theorem holds_iff (ha : a.value? = some p) (hb : b.value? = some q) :
    holds r a b = true ↔ r.Between p q := by
  rw [← r.allows_cmp, holds, compare?_eq, ha, hb]

theorem holds_of_isNaN (h : a.isNaN = true ∨ b.isNaN = true) : holds r a b = false := by
  rw [← value?_eq_none_iff, ← value?_eq_none_iff] at h
  rw [holds, compare?_eq]
  rcases h with h | h
  · rw [h]
  · rw [h]
    cases a.value? <;> rfl

theorem exists_between (h : holds r a b = true) :
    ∃ p q, a.value? = some p ∧ b.value? = some q ∧ r.Between p q := by
  cases ha : a.value? with
  | none =>
    rw [holds_of_isNaN (Or.inl ((value?_eq_none_iff a).1 ha))] at h
    cases h
  | some p =>
    cases hb : b.value? with
    | none =>
      rw [holds_of_isNaN (Or.inr ((value?_eq_none_iff b).1 hb))] at h
      cases h
    | some q => exact ⟨p, q, rfl, rfl, (holds_iff ha hb).1 h⟩

theorem holds_lessEq (a b : Number) :
    holds .lessEq a b = (holds .less a b || holds .equal a b) := by
  unfold holds
  cases compare? a b <;> rfl

theorem holds_greaterEq (a b : Number) : holds .greaterEq a b = holds .lessEq b a := by
  rw [Bool.eq_iff_iff]
  constructor
  · intro h
    obtain ⟨p, q, ha, hb, hpq⟩ := exists_between h
    exact (holds_iff hb ha).2 hpq
  · intro h
    obtain ⟨q, p, hb, ha, hqp⟩ := exists_between h
    exact (holds_iff ha hb).2 hqp

/-! ### Less and greater -/

section Strict

variable (hr : r = .greater ∨ r = .less)
include hr

/-- A smaller one of a smaller one is smaller, and likewise for greater ones. -/
theorem holds_trans (hab : holds r a b = true) (hbc : holds r b c = true) :
    holds r a c = true := by
  obtain ⟨p, q, ha, hb, hpq⟩ := exists_between hab
  obtain ⟨q', s, hb', hc, hqs⟩ := exists_between hbc
  rw [hb] at hb'
  cases hb'
  refine (holds_iff ha hc).2 ?_
  rcases hr with rfl | rfl
  · exact lt_trans hqs hpq
  · exact lt_trans hpq hqs

theorem not_holds_self : holds r a a = false := by
  refine Bool.eq_false_iff.2 fun h => ?_
  obtain ⟨p, q, ha, ha', hpq⟩ := exists_between h
  rw [ha] at ha'
  cases ha'
  rcases hr with rfl | rfl
  · exact lt_irrefl p hpq
  · exact lt_irrefl p hpq

theorem not_holds_symm (h : holds r a b = true) : holds r b a = false := by
  refine Bool.eq_false_iff.2 fun h' => ?_
  have hself := holds_trans hr h h'
  rw [not_holds_self hr] at hself
  cases hself

/-- What passes a number passes every number that does not. -/
theorem holds_of_not_holds (hc : c.isNaN = false) (hab : holds r a b = true)
    (hcb : holds r c b = false) : holds r a c = true := by
  obtain ⟨p, q, ha, hb, hpq⟩ := exists_between hab
  obtain ⟨s, hc⟩ := exists_value hc
  have hsq : ¬ r.Between s q := fun h => by rw [(holds_iff hc hb).2 h] at hcb; cases hcb
  refine (holds_iff ha hc).2 ?_
  rcases hr with rfl | rfl
  · exact lt_of_le_of_lt (not_lt.1 hsq) hpq
  · exact lt_of_lt_of_le hpq (not_lt.1 hsq)

theorem holds_orEqual_iff (ha : a.isNaN = false) (hb : b.isNaN = false) :
    holds r.orEqual a b = true ↔ holds r b a = false := by
  obtain ⟨p, ha⟩ := exists_value ha
  obtain ⟨q, hb⟩ := exists_value hb
  rw [← Bool.not_eq_true, holds_iff ha hb, holds_iff hb ha]
  rcases hr with rfl | rfl
  · exact not_lt.symm
  · exact not_lt.symm

end Strict

end Laws

/-! ## The greatest and the smallest -/

/-- The earliest of some numbers that has the relation to all of them. -/
def Earliest (r : Relation) (xs : List Number) (m : Number) : Prop :=
  ∃ earlier later, xs = earlier ++ m :: later ∧ (∀ x ∈ xs, holds r m x = true) ∧
    ∀ x ∈ earlier, ¬ ∀ y ∈ xs, holds r x y = true

/-- A number passes those before it, and those after it do not pass it. -/
def Leads (r : Relation) (xs : List Number) (m : Number) : Prop :=
  ∃ earlier later, xs = earlier ++ m :: later ∧ (∀ x ∈ earlier, holds r m x = true) ∧
    ∀ x ∈ later, holds r x m = false

section Extremum

variable {r : Relation} (hr : r = .greater ∨ r = .less) {xs : List Number} {m : Number}
include hr

/-- One more number takes the lead if it passes the number that has it. -/
theorem Leads.step (hnan : ∀ x ∈ xs, x.isNaN = false) (h : Leads r xs m) (x : Number) :
    Leads r (xs ++ [x]) (if holds r x m then x else m) := by
  obtain ⟨earlier, later, rfl, hearlier, hlater⟩ := h
  split
  · next hx =>
    refine ⟨_, [], rfl, fun y hy => ?_, by simp⟩
    rcases List.mem_append.1 hy with hy | hy
    · exact holds_trans hr hx (hearlier y hy)
    · rcases List.mem_cons.1 hy with rfl | hy'
      · exact hx
      · exact holds_of_not_holds hr (hnan y (by simp [hy'])) hx (hlater y hy')
  · next hx =>
    refine ⟨earlier, later ++ [x], by simp, hearlier, fun y hy => ?_⟩
    rcases List.mem_append.1 hy with hy | hy
    · exact hlater y hy
    · rw [List.mem_singleton.1 hy]
      exact Bool.eq_false_iff.2 hx

theorem Leads.foldl {rest : List Number} (hnan : ∀ x ∈ xs ++ rest, x.isNaN = false)
    (h : Leads r xs m) :
    Leads r (xs ++ rest) (rest.foldl (fun best x => if holds r x best then x else best) m) := by
  induction rest generalizing xs m with
  | nil =>
    rw [List.append_nil]
    exact h
  | cons x rest ih =>
    have hsplit : xs ++ x :: rest = xs ++ [x] ++ rest := by simp
    rw [hsplit] at hnan ⊢
    exact ih hnan (Leads.step hr (fun y hy => hnan y (by simp [hy])) h x)

/-- The fold of `max` and `min` ends with the number that has the lead. -/
theorem leads_extremum {first : Number} {rest : List Number}
    (hnan : ∀ x ∈ first :: rest, x.isNaN = false) :
    Leads r (first :: rest) (extremum r first rest) := by
  have hstart : Leads r [first] first := ⟨[], [], rfl, by simp, by simp⟩
  exact Leads.foldl hr hnan hstart

theorem Leads.earliest (hnan : ∀ x ∈ xs, x.isNaN = false) (h : Leads r xs m) :
    Earliest r.orEqual xs m := by
  obtain ⟨earlier, later, rfl, hearlier, hlater⟩ := h
  have hm := hnan m (by simp)
  refine ⟨earlier, later, rfl, fun x hx => ?_, fun x hx hall => ?_⟩
  · rw [holds_orEqual_iff hr hm (hnan x hx)]
    rcases List.mem_append.1 hx with hx' | hx'
    · exact not_holds_symm hr (hearlier x hx')
    · rcases List.mem_cons.1 hx' with rfl | hx'
      · exact not_holds_self hr
      · exact hlater x hx'
  · have hle := (holds_orEqual_iff hr (hnan x (by simp [hx])) hm).1 (hall m (by simp))
    rw [hearlier x hx] at hle
    cases hle

end Extremum

/-! ## Top theorem -/

theorem numbers_map (depth : Nat) (operation : String) (xs : List Number) :
    Arithmetic.numbers depth operation (xs.map .number) = .ok xs := by
  unfold Arithmetic.numbers
  induction xs with
  | nil => rfl
  | cons x xs ih =>
    rw [List.map_cons, List.mapM_cons, ih]
    rfl

theorem extremum_call (depth : Nat) (operation : String) (r : Relation) (first : Number)
    (rest : List Number) :
    Arithmetic.extremum depth operation r ((first :: rest).map .number) =
      .ok (.value (.number (extremum r first rest))) := by
  have hnumbers := numbers_map depth operation (first :: rest)
  unfold Arithmetic.extremum Arithmetic.someNumbers
  rw [hnumbers]
  rfl

/-- Of three comparisons exactly one holds. -/
theorem existsUnique_holds {a b : Number} (ha : a.isNaN = false) (hb : b.isNaN = false) :
    ∃! r : Relation, (r = .less ∨ r = .equal ∨ r = .greater) ∧ holds r a b = true := by
  obtain ⟨p, ha⟩ := exists_value ha
  obtain ⟨q, hb⟩ := exists_value hb
  simp only [holds_iff ha hb]
  rcases lt_trichotomy p q with h | rfl | h
  · refine ⟨.less, ⟨by simp, h⟩, ?_⟩
    rintro r ⟨rfl | rfl | rfl, hr⟩
    · rfl
    · exact absurd hr h.ne
    · exact absurd hr h.not_gt
  · refine ⟨.equal, ⟨by simp, rfl⟩, ?_⟩
    rintro r ⟨rfl | rfl | rfl, hr⟩
    · exact absurd hr (lt_irrefl p)
    · rfl
    · exact absurd hr (lt_irrefl p)
  · refine ⟨.greater, ⟨by simp, h⟩, ?_⟩
    rintro r ⟨rfl | rfl | rfl, hr⟩
    · exact absurd hr h.not_gt
    · exact absurd hr h.ne'
    · rfl

theorem exists_extremum {op : Operation} {operation : String} {r : Relation}
    (hr : r = .greater ∨ r = .less)
    (hop : ∀ depth args, op.call depth args = Arithmetic.extremum depth operation r args)
    {xs : List Number} (hne : xs ≠ []) (hnan : ∀ x ∈ xs, x.isNaN = false) :
    ∃ m, op.Returns (xs.map .number) (.number m) ∧ Earliest r.orEqual xs m := by
  cases xs with
  | nil => exact absurd rfl hne
  | cons first rest =>
    refine ⟨extremum r first rest, Operation.returns_of_call fun depth => ?_,
      Leads.earliest hr hnan (leads_extremum hr hnan)⟩
    rw [hop, extremum_call]

end Number

open Number in
/-- The comparisons answer by the exact values of numbers, where an integer is its own value and a
float that of its parts.  Among numbers that are no NaN they are one linear order, shared by `eq?` and
`equal?`; with a NaN all of them fail.  `max` and `min` give the earliest argument that is at least,
or at most, every argument. -/
theorem compared_by_value {notices : Array Notice} {root : FrameId} {s₀ : Store}
    (hfresh : CommandLine.fresh notices = (root, s₀)) :
    ((∀ r, s₀.Offers root (.compare r)) ∧ s₀.Offers root .eq ∧ s₀.Offers root .equal ∧
      s₀.Offers root .max ∧ s₀.Offers root .min) ∧
    (∀ a b : Number,
      (∀ r, (Operation.compare r).Returns [.number a, .number b] (.bool (holds r a b))) ∧
      Operation.eq.Returns [.number a, .number b] (.bool (holds .equal a b)) ∧
      Operation.equal.Returns [.number a, .number b] (.bool (holds .equal a b))) ∧
    ((∀ n, (integer n).value? = some (rational n)) ∧
      ∀ x : Double, (float x).value? = (Binary.ofFloat x.toFloat).value?) ∧
    (∀ a b : Number, a.isNaN = false → b.isNaN = false →
      (∃ p q, a.value? = some p ∧ b.value? = some q ∧ (holds .less a b = true ↔ p < q) ∧
        (holds .equal a b = true ↔ p = q) ∧ (holds .greater a b = true ↔ q < p)) ∧
      (∃! r : Relation, (r = .less ∨ r = .equal ∨ r = .greater) ∧ holds r a b = true) ∧
      holds .lessEq a b = (holds .less a b || holds .equal a b) ∧
      holds .greaterEq a b = holds .lessEq b a) ∧
    (∀ a b c, holds .less a b = true → holds .less b c = true → holds .less a c = true) ∧
    (∀ r (a b : Number), a.isNaN = true ∨ b.isNaN = true → holds r a b = false) ∧
    ∀ xs : List Number, xs ≠ [] → (∀ x ∈ xs, x.isNaN = false) →
      (∃ m, Operation.max.Returns (xs.map .number) (.number m) ∧ Earliest .greaterEq xs m) ∧
      ∃ m, Operation.min.Returns (xs.map .number) (.number m) ∧ Earliest .lessEq xs m := by
  refine ⟨⟨?_, ?_, ?_, ?_, ?_⟩, ?_, ⟨value?_integer, value?_float⟩, ?_, ?_, ?_, ?_⟩
  · intro r
    apply Standard.offers_procedure hfresh
    cases r <;> simp [Standard.procedures]
  · exact Standard.offers_procedure hfresh (by simp [Standard.procedures])
  · exact Standard.offers_procedure hfresh (by simp [Standard.procedures])
  · exact Standard.offers_procedure hfresh (by simp [Standard.procedures])
  · exact Standard.offers_procedure hfresh (by simp [Standard.procedures])
  · intro a b
    exact ⟨fun r => Operation.returns_of_call fun _ => rfl, Operation.returns_of_call fun _ => rfl,
      Operation.returns_of_call fun _ => rfl⟩
  · intro a b hna hnb
    obtain ⟨p, ha⟩ := exists_value hna
    obtain ⟨q, hb⟩ := exists_value hnb
    exact ⟨⟨p, q, ha, hb, holds_iff ha hb, holds_iff ha hb, holds_iff ha hb⟩,
      existsUnique_holds hna hnb, holds_lessEq a b, holds_greaterEq a b⟩
  · exact fun a b c => holds_trans (Or.inr rfl)
  · exact fun r a b => holds_of_isNaN
  · intro xs hne hnan
    exact ⟨exists_extremum (Or.inl rfl) (fun _ _ => rfl) hne hnan,
      exists_extremum (Or.inr rfl) (fun _ _ => rfl) hne hnan⟩

open Number in
/-- The integer after `2 ^ 53`, which no float is, between that float and infinity. -/
theorem compared_by_value_between_floats :
    let x : Number := .float (.float (Binary.nearest false 9007199254740992 1))
    let n : Number := .integer 9007199254740993
    let top : Number := .float (.float (Binary.floatOfBits false Binary.infinityBits))
    (∀ y ∈ [x, n, x], y.isNaN = false) ∧
      ∃ s₀, CommandLine.fresh #[] = (0, s₀) ∧ s₀.Offers 0 (.compare .less) ∧
      (Operation.compare .less).Returns [.number x, .number n] (.bool true) ∧
      (∃! r : Relation, (r = .less ∨ r = .equal ∨ r = .greater) ∧ holds r x n = true) ∧
      holds .less n top = true ∧ holds .less x top = true ∧
      (∃ m, Operation.max.Returns [.number x, .number n, .number x] (.number m) ∧
        Earliest .greaterEq [x, n, x] m) ∧
      ∃ m, Operation.min.Returns [.number x, .number n, .number x] (.number m) ∧
        Earliest .lessEq [x, n, x] m := by
  intro x n top
  have hx : x.isNaN = false := by decide +kernel
  have hn : n.isNaN = false := rfl
  have hless : holds .less x n = true := by decide +kernel
  have htop : holds .less n top = true := by decide +kernel
  have hall : ∀ y ∈ [x, n, x], y.isNaN = false := by
    intro y hy
    rcases List.mem_cons.1 hy with rfl | hy
    · exact hx
    · rcases List.mem_cons.1 hy with rfl | hy
      · exact hn
      · rw [List.mem_singleton.1 hy]
        exact hx
  obtain ⟨⟨hcompare, -⟩, hreturns, -, hvalues, htrans, -, hextrema⟩ :=
    compared_by_value (CommandLine.fresh_eq #[])
  have hanswer := (hreturns x n).1 .less
  rw [hless] at hanswer
  obtain ⟨hmax, hmin⟩ := hextrema [x, n, x] (by simp) hall
  exact ⟨hall, _, CommandLine.fresh_eq #[], hcompare .less, hanswer, (hvalues x n hx hn).2.1, htop,
    htrans x n top hless htop, hmax, hmin⟩

end SmallLisp
