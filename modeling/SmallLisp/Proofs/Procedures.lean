import SmallLisp.Builtin.Standard

/-!
The procedures that a value holds.

`v.Procedures p` says that `p` holds of every procedure in `v`: those in the items of lists and
tuples and in the bodies of closures count.  A builtin that computes from its arguments alone makes
no procedures, so what it answers holds only procedures that its arguments held.  This is so of every
property that numbers and truth values have and that passes from a list to its items
(`Value.Hereditary`).  Where a builtin refuses, the refusal is one that arguments can cause
(`Refusal.Ordinary`):

    (∀ v ∈ args, p v) → (op.call depth args).Gives (Answer.Satisfies p)      (Operation.gives_call)
-/

namespace SmallLisp

namespace Value

mutual

def Procedures (p : Value → Prop) : Value → Prop
  | .list _ items => ProceduresAll p items
  | .tuple _ items => ProceduresAll p items
  | .primitive mark b => p (.primitive mark b)
  | .closure mark params body f => p (.closure mark params body f) ∧ Procedures p body
  | _ => True

def ProceduresAll (p : Value → Prop) : List Value → Prop
  | [] => True
  | v :: rest => Procedures p v ∧ ProceduresAll p rest

end

theorem proceduresAll_iff {p : Value → Prop} {vs : List Value} :
    ProceduresAll p vs ↔ ∀ v ∈ vs, v.Procedures p := by
  induction vs with
  | nil => simp [ProceduresAll]
  | cons v vs ih => simp [ProceduresAll, ih]

mutual

theorem Procedures.mono {p q : Value → Prop} (h : ∀ v, p v → q v) :
    ∀ v : Value, v.Procedures p → v.Procedures q
  | .list _ items, hv => ProceduresAll.mono h items hv
  | .tuple _ items, hv => ProceduresAll.mono h items hv
  | .primitive _ _, hv => h _ hv
  | .closure _ _ body _, hv => ⟨h _ hv.1, Procedures.mono h body hv.2⟩
  | .number _, _ | .symbol _, _ | .bool _, _ | .unspecified, _ | .text _, _ | .nothing, _ => trivial

theorem ProceduresAll.mono {p q : Value → Prop} (h : ∀ v, p v → q v) :
    ∀ vs : List Value, ProceduresAll p vs → ProceduresAll q vs
  | [], _ => trivial
  | v :: vs, hv => ⟨Procedures.mono h v hv.1, ProceduresAll.mono h vs hv.2⟩

end

mutual

theorem procedures_of_forall {p : Value → Prop} (h : ∀ v, p v) : ∀ v : Value, v.Procedures p
  | .list _ items => proceduresAll_of_forall h items
  | .tuple _ items => proceduresAll_of_forall h items
  | .primitive _ _ => h _
  | .closure _ _ body _ => ⟨h _, procedures_of_forall h body⟩
  | .number _ | .symbol _ | .bool _ | .unspecified | .text _ | .nothing => trivial

theorem proceduresAll_of_forall {p : Value → Prop} (h : ∀ v, p v) :
    ∀ vs : List Value, ProceduresAll p vs
  | [] => trivial
  | v :: vs => ⟨procedures_of_forall h v, proceduresAll_of_forall h vs⟩

end

/-- A property of all values that hold nothing, and of the items of lists and tuples that have it. -/
class Hereditary (p : Value → Prop) : Prop where
  number : ∀ x, p (.number x)
  bool : ∀ b, p (.bool b)
  unspecified : p .unspecified
  text : ∀ s, p (.text s)
  items : ∀ {mark items}, p (.list mark items) → ∀ v ∈ items, p v
  parts : ∀ {marks items}, p (.tuple marks items) → ∀ v ∈ items, p v
  copies : ∀ {marks items} (n : Int), p (.tuple marks items) →
    p (.tuple (Math.Product.copies n marks) (Math.Product.copies n items))

end Value

theorem Math.Product.mem_copies {α : Type} {n : Int} {items : List α} {a : α}
    (h : a ∈ copies n items) : a ∈ items := by
  unfold copies at h
  split at h
  · cases h
  · obtain ⟨xs, hxs, ha⟩ := List.mem_flatten.1 h
    rw [(List.mem_replicate.1 hxs).2] at ha
    exact ha

instance (p : Value → Prop) : Value.Hereditary (Value.Procedures p) where
  number _ := trivial
  bool _ := trivial
  unspecified := trivial
  text _ := trivial
  items h := Value.proceduresAll_iff.1 h
  parts h := Value.proceduresAll_iff.1 h
  copies _ h := Value.proceduresAll_iff.2 fun v hv =>
    Value.proceduresAll_iff.1 h v (Math.Product.mem_copies hv)

/-- What an answer is once it has been made a value. -/
def Answer.Satisfies (p : Value → Prop) : Answer → Prop
  | .value v => p v
  | .list items => ∀ v ∈ items, p v
  | .tuple items => ∀ v ∈ items, ∃ x, v = .number x

/-! ## Attempts -/

/-- The refusals that arguments of a builtin can cause. -/
def Refusal.Ordinary : Refusal → Prop
  | .error (.type (.notNumber _ _)) => True
  | .error (.type (.notList _ _)) => True
  | .error (.type (.emptyList _)) => True
  | .error (.arity (.atLeastOne _)) => True
  | .error .divisionByZero => True
  | .error _ => False
  | .misuse _ => True
  | .noResult _ => True
  | .depth => True

namespace Attempt

variable {α β : Type}

/-- A result that satisfies `P`, or an ordinary refusal. -/
def Gives (x : Attempt α) (P : α → Prop) : Prop :=
  match x with
  | .ok a => P a
  | .error r => r.Ordinary

variable {P : α → Prop} {Q : β → Prop}

theorem gives_pure {a : α} (h : P a) : (pure a : Attempt α).Gives P := h

theorem gives_misuse (m : Misuse) : (misuse m : Attempt α).Gives P := trivial

theorem Gives.bind {x : Attempt α} {f : α → Attempt β} (hx : x.Gives P)
    (hf : ∀ a, P a → (f a).Gives Q) : (x >>= f).Gives Q := by
  cases x with
  | ok a => exact hf a hx
  | error r => exact hx

theorem gives_ofResult (r : Except NoResult α) : (ofResult r).Gives fun _ => True := by
  cases r <;> trivial

theorem gives_ofText (t : Except TextFault String) : (ofText t).Gives fun _ => True := by
  match t with
  | .ok _ => trivial
  | .error .tooDeep => trivial
  | .error .integerTooLong => trivial

theorem gives_mapM {f : α → Attempt β} {xs : List α} (h : ∀ a ∈ xs, (f a).Gives Q) :
    (xs.mapM f).Gives fun ys => ∀ y ∈ ys, Q y := by
  induction xs with
  | nil => exact gives_pure (by simp)
  | cons a xs ih =>
    rw [List.mapM_cons]
    refine (h a (by simp)).bind fun b hb => ?_
    refine (ih fun c hc => h c (by simp [hc])).bind fun bs hbs => gives_pure ?_
    intro y hy
    rcases List.mem_cons.1 hy with rfl | hy
    · exact hb
    · exact hbs y hy

theorem gives_foldlM {f : β → α → Attempt β} {xs : List α} {b : β} (hb : Q b)
    (h : ∀ b a, a ∈ xs → Q b → (f b a).Gives Q) : (xs.foldlM f b).Gives Q := by
  induction xs generalizing b with
  | nil => exact gives_pure hb
  | cons a xs ih =>
    rw [List.foldlM_cons]
    refine (h b a (by simp) hb).bind fun c hc => ?_
    exact ih hc fun d a' ha' hd => h d a' (by simp [ha']) hd

end Attempt

/-! ## Arguments -/

namespace Argument

open Attempt
open Value (Hereditary)

variable {α : Type} {P : α → Prop} {p : Value → Prop} [Hereditary p]

theorem gives_one {s : Signature} {f : Value → Attempt α} {args : List Value}
    (h : ∀ x ∈ args, (f x).Gives P) : (one s f args).Gives P := by
  unfold one
  split
  · exact h _ (by simp)
  · exact gives_misuse _

theorem gives_two {s : Signature} {f : Value → Value → Attempt α} {args : List Value}
    (h : ∀ x ∈ args, ∀ y ∈ args, (f x y).Gives P) : (two s f args).Gives P := by
  unfold two
  split
  · exact h _ (by simp) _ (by simp)
  · exact gives_misuse _

theorem gives_mathOne {name : String} {f : Value → Attempt α} {args : List Value}
    (h : ∀ x ∈ args, (f x).Gives P) : (mathOne name f args).Gives P := by
  unfold mathOne
  split
  · exact h _ (by simp)
  · exact gives_misuse _

theorem gives_mathTwo {name : String} {f : Value → Value → Attempt α} {args : List Value}
    (h : ∀ x ∈ args, ∀ y ∈ args, (f x y).Gives P) : (mathTwo name f args).Gives P := by
  unfold mathTwo
  split
  · exact h _ (by simp) _ (by simp)
  · exact gives_misuse _

theorem gives_number (depth : Nat) (operation : String) (v : Value) :
    (number depth operation v).Gives fun _ => True := by
  unfold number
  split
  · trivial
  · exact (gives_ofText _).bind fun _ _ => trivial

theorem gives_items {depth : Nat} {operation : String} {v : Value} (h : p v) :
    (items depth operation v).Gives fun vs => ∀ w ∈ vs, p w := by
  unfold items
  split
  · exact Hereditary.items h
  · exact (gives_ofText _).bind fun _ _ => trivial

theorem gives_numeric (v : Value) : (numeric v).Gives fun _ => True := by
  unfold numeric
  split
  · trivial
  · exact gives_misuse _

theorem gives_real (v : Value) : (real v).Gives fun _ => True :=
  (gives_numeric v).bind fun _ _ => gives_ofResult _

theorem gives_integer (v : Value) : (integer v).Gives fun _ => True := by
  unfold integer
  split
  · trivial
  · split
    · trivial
    · exact gives_misuse _
  · exact gives_misuse _

theorem gives_sequence {v : Value} (h : p v) :
    (sequence v).Gives fun vs => ∀ w ∈ vs, p w := by
  unfold sequence
  split
  · exact Hereditary.items h
  · exact Hereditary.parts h
  · intro w hw
    obtain ⟨c, -, rfl⟩ := List.mem_map.1 hw
    exact Hereditary.text _
  · exact gives_misuse _

end Argument

/-! ## Operations -/

section Operations

open Attempt Argument
open Value (Hereditary)

variable {p : Value → Prop} [Hereditary p] {args : List Value}

theorem gives_value_number (x : Number) :
    (pure (.value (.number x)) : Attempt Answer).Gives (Answer.Satisfies p) :=
  Hereditary.number (p := p) x

theorem gives_truth (b : Bool) : (Lists.truth b).Gives (Answer.Satisfies p) :=
  Hereditary.bool (p := p) b

namespace Arithmetic

theorem gives_answer (r : Except NoResult Number) : (answer r).Gives (Answer.Satisfies p) :=
  (gives_ofResult r).bind fun _ _ => gives_value_number _

theorem gives_numbers (depth : Nat) (operation : String) (args : List Value) :
    (numbers depth operation args).Gives fun _ => True := by
  have h : (numbers depth operation args).Gives fun xs => ∀ x ∈ xs, True :=
    gives_mapM fun v _ => gives_number depth operation v
  cases hn : numbers depth operation args with
  | ok xs => trivial
  | error r => rw [hn] at h; exact h

theorem gives_someNumbers (depth : Nat) (operation : String) (args : List Value) :
    (someNumbers depth operation args).Gives fun _ => True := by
  unfold someNumbers
  split
  · trivial
  · refine (gives_numbers depth operation args).bind fun xs _ => ?_
    cases xs <;> trivial

theorem gives_sub (depth : Nat) (args : List Value) :
    (sub depth args).Gives (Answer.Satisfies p) := by
  refine (gives_someNumbers depth "-" args).bind fun xs _ => ?_
  split
  · exact gives_value_number _
  · exact gives_answer _

theorem gives_divide (a b : Number) : (divide a b).Gives fun _ => True := by
  unfold divide
  split <;> trivial

theorem gives_div (depth : Nat) (args : List Value) :
    (div depth args).Gives (Answer.Satisfies p) := by
  refine (gives_someNumbers depth "/" args).bind fun xs _ => ?_
  split
  · exact (gives_divide _ _).bind fun _ _ => gives_value_number _
  · exact (gives_foldlM trivial fun b a _ _ => gives_divide b a).bind fun _ (_ : True) =>
      gives_value_number _

theorem gives_compare (depth : Nat) (r : Number.Relation) (args : List Value) :
    (compare depth r args).Gives (Answer.Satisfies p) :=
  gives_two fun x _ y _ => (gives_number _ _ x).bind fun _ _ =>
    (gives_number _ _ y).bind fun _ _ => gives_truth _

theorem gives_extremum (depth : Nat) (operation : String) (r : Number.Relation)
    (args : List Value) : (extremum depth operation r args).Gives (Answer.Satisfies p) :=
  (gives_someNumbers depth operation args).bind fun _ _ => gives_value_number _

end Arithmetic

namespace Lists

theorem gives_car (depth : Nat) (h : ∀ v ∈ args, p v) :
    (car depth args).Gives (Answer.Satisfies p) := by
  refine gives_one fun v hv => (gives_items (h v hv)).bind fun vs hvs => ?_
  cases vs with
  | nil => trivial
  | cons w vs => exact gives_pure (hvs w (by simp))

theorem gives_cdr (depth : Nat) (h : ∀ v ∈ args, p v) :
    (cdr depth args).Gives (Answer.Satisfies p) := by
  refine gives_one fun v hv => (gives_items (h v hv)).bind fun vs hvs => ?_
  cases vs with
  | nil => trivial
  | cons w vs => exact gives_pure fun u hu => hvs u (by simp [hu])

theorem gives_cons (depth : Nat) (h : ∀ v ∈ args, p v) :
    (cons depth args).Gives (Answer.Satisfies p) := by
  refine gives_two fun head hh tail ht => (gives_items (h tail ht)).bind fun vs hvs => ?_
  refine gives_pure fun u hu => ?_
  rcases List.mem_cons.1 hu with rfl | hu
  · exact h u hh
  · exact hvs u hu

theorem gives_append (depth : Nat) (h : ∀ v ∈ args, p v) :
    (append depth args).Gives (Answer.Satisfies p) := by
  refine (gives_mapM fun v hv => gives_items (h v hv)).bind fun vss hvss => ?_
  refine gives_pure fun u hu => ?_
  obtain ⟨vs, hvs, hu⟩ := List.mem_flatten.1 hu
  exact hvss vs hvs u hu

theorem satisfies_begin (h : ∀ v ∈ args, p v) : (begin args).Satisfies p := by
  unfold begin
  cases hl : args.getLast? with
  | none => exact Hereditary.unspecified
  | some v => exact h v (List.mem_of_getLast? hl)

theorem gives_equal (depth : Nat) (args : List Value) :
    (equal depth args).Gives (Answer.Satisfies p) := by
  refine gives_two fun a _ b _ => ?_
  split
  · exact gives_truth _
  · trivial

end Lists

namespace Math

theorem gives_ofDouble (r : Except NoResult Double) : (ofDouble r).Gives (Answer.Satisfies p) :=
  (gives_ofResult r).bind fun _ _ => gives_value_number _

theorem gives_ofInt (r : Except NoResult Int) : (ofInt r).Gives (Answer.Satisfies p) :=
  (gives_ofResult r).bind fun _ _ => gives_value_number _

theorem gives_rounding (r : Rounding) (args : List Value) :
    (rounding r args).Gives (Answer.Satisfies p) := by
  refine gives_mathOne fun v _ => ?_
  split
  · exact gives_ofInt _
  · exact gives_misuse _
  · exact gives_misuse _

theorem gives_logOf (l : Logarithm) (v : Value) : (logOf l v).Gives fun _ => True :=
  (gives_numeric v).bind fun _ _ => gives_ofResult _

theorem gives_logarithm (l : Logarithm) (args : List Value) :
    (logarithm l args).Gives (Answer.Satisfies p) := by
  unfold logarithm
  split
  · exact (gives_logOf _ _).bind fun _ _ => gives_value_number _
  · exact (gives_logOf _ _).bind fun _ _ => (gives_logOf _ _).bind fun _ _ => gives_ofDouble _
  · exact gives_misuse _
  · exact gives_misuse _

theorem gives_integers (args : List Value) :
    (args.mapM Argument.integer).Gives fun ns => ∀ n ∈ ns, True :=
  gives_mapM fun v _ => gives_integer v

theorem gives_integer_call (f : IntegerFunction) (args : List Value) :
    (integer f args).Gives (Answer.Satisfies p) := by
  have hone : ∀ (g : Int → Except NoResult Int) (v : Value),
      (do ofInt (g (← Argument.integer v))).Gives (Answer.Satisfies p) :=
    fun g v => (gives_integer v).bind fun n _ => gives_ofInt (g n)
  have htwo : ∀ (g : Int → Int → Except NoResult Int) (v w : Value),
      (do ofInt (g (← Argument.integer v) (← Argument.integer w))).Gives (Answer.Satisfies p) :=
    fun g v w => (gives_integer v).bind fun n _ => (gives_integer w).bind fun k _ =>
      gives_ofInt (g n k)
  cases f with
  | factorial => exact gives_mathOne fun v _ => hone Whole.factorial v
  | isqrt => exact gives_mathOne fun v _ => hone Whole.isqrt v
  | comb => exact gives_mathTwo fun v _ w _ => htwo Whole.comb v w
  | perm =>
    simp only [integer]
    split
    · exact gives_misuse _
    · exact hone Whole.factorial _
    · exact hone Whole.factorial _
    · exact htwo Whole.perm _ _
    · exact gives_misuse _
  | gcd => exact (gives_integers args).bind fun _ _ => gives_ofInt _
  | lcm => exact (gives_integers args).bind fun _ _ => gives_ofInt _

theorem gives_ldexp (args : List Value) : (ldexp args).Gives (Answer.Satisfies p) := by
  refine gives_mathTwo fun x _ k _ => (gives_real x).bind fun _ _ => ?_
  split
  · exact gives_ofDouble _
  · exact gives_ofDouble _
  · exact gives_misuse _

omit [Hereditary p] in
theorem satisfies_pair (x y : Number) : (Answer.tuple [.number x, .number y]).Satisfies p := by
  intro v hv
  rcases List.mem_cons.1 hv with rfl | hv
  · exact ⟨x, rfl⟩
  · exact ⟨y, List.mem_singleton.1 hv⟩

omit [Hereditary p] in
theorem gives_frexp (args : List Value) : (frexp args).Gives (Answer.Satisfies p) :=
  gives_mathOne fun x _ => (gives_real x).bind fun _ _ => gives_pure (satisfies_pair _ _)

omit [Hereditary p] in
theorem gives_modf (args : List Value) : (modf args).Gives (Answer.Satisfies p) :=
  gives_mathOne fun x _ => (gives_real x).bind fun _ _ => gives_pure (satisfies_pair _ _)

theorem gives_isclose (args : List Value) : (isclose args).Gives (Answer.Satisfies p) := by
  unfold isclose
  split
  · exact (gives_real _).bind fun _ _ => (gives_real _).bind fun _ _ => gives_truth _
  · exact gives_misuse _
  · exact gives_misuse _
  · split <;> exact gives_misuse _

theorem gives_hypot (args : List Value) : (hypot args).Gives (Answer.Satisfies p) :=
  (gives_mapM fun v _ => gives_real v).bind fun _ _ => gives_value_number _

theorem gives_differences (ps qs : List Value) : (differences ps qs).Gives fun _ => True := by
  induction ps generalizing qs with
  | nil => trivial
  | cons x ps ih =>
    cases qs with
    | nil => trivial
    | cons y qs =>
      exact (gives_real x).bind fun _ _ => (gives_real y).bind fun _ _ =>
        (ih qs).bind fun _ _ => trivial

theorem gives_dist (h : ∀ v ∈ args, p v) : (dist args).Gives (Answer.Satisfies p) := by
  refine gives_mathTwo fun v hv w hw => (gives_sequence (h v hv)).bind fun ps _ => ?_
  refine (gives_sequence (h w hw)).bind fun qs _ => ?_
  split
  · exact (gives_differences ps qs).bind fun _ _ => gives_value_number _
  · trivial

theorem gives_fsum (h : ∀ v ∈ args, p v) : (fsum args).Gives (Answer.Satisfies p) := by
  refine gives_mathOne fun v hv => (gives_sequence (h v hv)).bind fun items _ => ?_
  refine Gives.bind ?_ fun total (_ : True) => gives_ofDouble total.result
  refine gives_foldlM trivial fun s item _ _ => ?_
  exact (gives_real item).bind fun _ _ => gives_ofResult _

namespace Product

/-- What a product is, whatever it has come to. -/
def Satisfies (p : Value → Prop) : Product → Prop
  | .list items => ∀ v ∈ items, p v
  | .tuple marks items => p (.tuple marks items)
  | _ => True

theorem gives_repeated {n : Int} {q : Product} (h : q.Satisfies p) :
    (repeated n q).Gives (Satisfies p) := by
  unfold repeated
  split
  · trivial
  · cases q with
    | number x => trivial
    | list items => exact fun v hv => h v (mem_copies hv)
    | tuple marks items => exact Hereditary.copies n h
    | text s => trivial

theorem satisfies_ofSequence? {v : Value} {q : Product} (hv : p v)
    (h : ofSequence? v = some q) : q.Satisfies p := by
  unfold ofSequence? at h
  split at h
  · cases h; exact Hereditary.items hv
  · cases h; exact hv
  · cases h; trivial
  · cases h

theorem gives_mul {q : Product} {v : Value} (hq : q.Satisfies p) (hv : p v) :
    (mul q v).Gives (Satisfies p) := by
  unfold mul
  split
  · exact (gives_ofResult _).bind fun _ _ => trivial
  · next hs => exact gives_repeated (satisfies_ofSequence? hv hs)
  · exact gives_misuse _
  · exact gives_misuse _
  · exact gives_repeated hq
  · exact gives_misuse _

theorem satisfies_answer {q : Product} (h : q.Satisfies p) : q.answer.Satisfies p := by
  cases q with
  | number x => exact Hereditary.number x
  | list items => exact h
  | tuple marks items => exact h
  | text s => exact Hereditary.text s

end Product

theorem gives_prod (h : ∀ v ∈ args, p v) : (prod args).Gives (Answer.Satisfies p) := by
  unfold prod
  split
  · refine (gives_sequence (h _ (by simp))).bind fun items hitems => ?_
    refine Gives.bind (gives_foldlM trivial fun q v hv hq => ?_) fun q hq =>
      gives_pure (Product.satisfies_answer hq)
    exact Product.gives_mul hq (hitems v hv)
  · split <;> exact gives_misuse _

theorem gives_call (f : MathFunction) (h : ∀ v ∈ args, p v) :
    (call f args).Gives (Answer.Satisfies p) := by
  cases f with
  | real f => exact gives_mathOne fun v _ => (gives_real v).bind fun _ _ => gives_ofDouble _
  | realPair f =>
    exact gives_mathTwo fun v _ w _ => (gives_real v).bind fun _ _ =>
      (gives_real w).bind fun _ _ => gives_ofDouble _
  | test f => exact gives_mathOne fun v _ => (gives_real v).bind fun _ _ => gives_truth _
  | rounding r => exact gives_rounding r args
  | integer f => exact gives_integer_call f args
  | logarithm l => exact gives_logarithm l args
  | frexp => exact gives_frexp args
  | ldexp => exact gives_ldexp args
  | modf => exact gives_modf args
  | isclose => exact gives_isclose args
  | hypot => exact gives_hypot args
  | dist => exact gives_dist h
  | fsum => exact gives_fsum h
  | prod => exact gives_prod h

end Math

theorem Operation.gives_call (depth : Nat) (op : Operation) (h : ∀ v ∈ args, p v) :
    (op.call depth args).Gives (Answer.Satisfies p) := by
  cases op with
  | math f => exact Math.gives_call f h
  | add => exact (Arithmetic.gives_numbers _ _ args).bind fun _ _ => Arithmetic.gives_answer _
  | mul => exact (Arithmetic.gives_numbers _ _ args).bind fun _ _ => Arithmetic.gives_answer _
  | sub => exact Arithmetic.gives_sub depth args
  | div => exact Arithmetic.gives_div depth args
  | compare r => exact Arithmetic.gives_compare depth r args
  | max => exact Arithmetic.gives_extremum depth _ _ args
  | min => exact Arithmetic.gives_extremum depth _ _ args
  | append => exact Lists.gives_append depth h
  | car => exact Lists.gives_car depth h
  | cdr => exact Lists.gives_cdr depth h
  | cons => exact Lists.gives_cons depth h
  | length =>
    exact gives_one fun v hv => (gives_items (h v hv)).bind fun _ _ => gives_value_number _
  | list => exact gives_pure h
  | begin => exact gives_pure (Lists.satisfies_begin h)
  | eq => exact gives_two fun _ _ _ _ => gives_truth _
  | equal => exact Lists.gives_equal depth args
  | not => exact gives_one fun _ _ => gives_truth _
  | isNull => exact gives_one fun v _ => by cases v <;> exact gives_truth _
  | isNumber => exact gives_one fun v _ => by cases v <;> exact gives_truth _
  | isList => exact gives_one fun v _ => by cases v <;> exact gives_truth _
  | isProcedure => exact gives_one fun v _ => by cases v <;> exact gives_truth _
  | isSymbol => exact gives_one fun v _ => by cases v <;> exact gives_truth _

end Operations

end SmallLisp
