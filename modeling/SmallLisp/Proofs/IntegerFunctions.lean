import Mathlib.Data.List.Forall2
import SmallLisp.Proofs.Number.Whole
import SmallLisp.Proofs.Standard

/-!
The builtins on integers.

A builtin on integers looks at the number of its arguments, turns them into integers one after another
and applies its function (`Math.integer_of_takes`, `Math.integer_of_not_takes`).  Only the second step sees
how an argument is given: an integer, a truth value, or a float whose exact value is an integer
(`Argument.integer_eq_ok_iff`).  So a whole float and its integer cannot be told apart, any other float
is refused, and what is given is the value of the function for the integers.
-/

namespace SmallLisp

/-! ## Arguments -/

namespace Value

/-- A value counts as an integer. -/
inductive IsWhole : Value → Int → Prop
  | integer (n : Int) : IsWhole (.integer n) n
  | bool (b : Bool) : IsWhole (.bool b) (if b then 1 else 0)
  | float {x : Double} {n : Int} : (Number.float x).value? = some (Number.rational n) →
      IsWhole (.double x) n

/-- The same value, or the integer that a float is. -/
inductive Recast : Value → Value → Prop
  | same (v : Value) : Recast v v
  | whole {x : Double} {n : Int} : (Number.float x).value? = some (Number.rational n) →
      Recast (.double x) (.integer n)

theorem IsWhole.unique {v : Value} {m n : Int} (h : v.IsWhole m) (h' : v.IsWhole n) : m = n := by
  cases h with
  | integer =>
    cases h'
    rfl
  | bool =>
    cases h'
    rfl
  | float h =>
    cases h' with
    | float h' =>
      rw [h, Option.some.injEq, Number.rational_inj] at h'
      exact_mod_cast h'

end Value

namespace Argument

variable {v w : Value} {n : Int}

/-- An integer by its kinds: the integer that a value counts as, or a misuse. -/
theorem integer_cases (v : Value) :
    (∃ n, v.IsWhole n ∧ integer v = .ok n) ∨
      (∀ n, ¬ v.IsWhole n) ∧ integer v = Attempt.misuse (.notInteger v.typeName) := by
  cases v with
  | number x =>
    cases x with
    | integer n => exact Or.inl ⟨n, .integer n, rfl⟩
    | float x =>
      have hvalue := Number.value?_float x
      cases hint : (Binary.ofFloat x.toFloat).toInt? with
      | some n =>
        have hinteger : integer (.number (.float x)) = .ok n := by
          simp only [integer, Value.numeric?, hint]
        exact Or.inl ⟨n, .float (hvalue.trans (Binary.toInt?_eq_some_iff.1 hint)), hinteger⟩
      | none =>
        have hinteger : integer (.number (.float x)) = Attempt.misuse (.notInteger "float") := by
          simp only [integer, Value.numeric?, hint]
          rfl
        refine Or.inr ⟨fun n h => ?_, hinteger⟩
        cases h with
        | float h =>
          rw [Binary.toInt?_eq_some_iff.2 (hvalue.symm.trans h)] at hint
          cases hint
  | bool b => exact Or.inl ⟨_, .bool b, rfl⟩
  | _ => exact Or.inr ⟨fun n h => (by cases h), rfl⟩

theorem integer_eq_ok_iff : integer v = .ok n ↔ v.IsWhole n := by
  rcases integer_cases v with ⟨m, hm, heq⟩ | ⟨hnone, heq⟩
  · rw [heq, Except.ok.injEq]
    constructor
    · rintro rfl
      exact hm
    · exact hm.unique
  · rw [heq]
    exact ⟨fun h => (by cases h), fun h => absurd h (hnone n)⟩

/-- The integer that a float is passes for the float. -/
theorem integer_recast (h : v.Recast w) : integer v = integer w := by
  cases h with
  | same => rfl
  | whole h => rw [integer_eq_ok_iff.2 (.float h), integer_eq_ok_iff.2 (.integer _)]

theorem mapM_integer_eq_ok_iff {args : List Value} {ns : List Int} :
    args.mapM integer = .ok ns ↔ List.Forall₂ Value.IsWhole args ns := by
  induction args generalizing ns with
  | nil =>
    rw [List.forall₂_nil_left_iff]
    exact ⟨fun h => by cases h; rfl, fun h => by rw [h]; rfl⟩
  | cons v args ih =>
    rw [List.mapM_cons, List.forall₂_cons_left_iff]
    constructor
    · intro h
      cases hv : integer v with
      | error r => rw [hv] at h; cases h
      | ok n =>
        cases hargs : args.mapM integer with
        | error r => rw [hv, hargs] at h; cases h
        | ok ns' =>
          rw [hv, hargs] at h
          cases h
          exact ⟨n, ns', integer_eq_ok_iff.1 hv, ih.1 hargs, rfl⟩
    · rintro ⟨n, ns', hv, hargs, rfl⟩
      rw [integer_eq_ok_iff.2 hv, ih.2 hargs]
      rfl

theorem mapM_integer_recast {args args' : List Value} (h : List.Forall₂ Value.Recast args args') :
    args.mapM integer = args'.mapM integer := by
  induction h with
  | nil => rfl
  | cons hv _ ih => rw [List.mapM_cons, List.mapM_cons, integer_recast hv, ih]

/-- One argument that counts as no integer is enough for a misuse. -/
theorem mapM_integer_misuse {args : List Value} (hmem : v ∈ args) (hv : ∀ n, ¬ v.IsWhole n) :
    ∃ m, args.mapM integer = Attempt.misuse m := by
  induction args with
  | nil => cases hmem
  | cons w args ih =>
    rw [List.mapM_cons]
    rcases integer_cases w with ⟨n, hn, heq⟩ | ⟨-, heq⟩
    · have hlater : v ∈ args := (List.mem_cons.1 hmem).resolve_left fun h => hv n (h ▸ hn)
      obtain ⟨m, hm⟩ := ih hlater
      rw [heq, hm]
      exact ⟨m, rfl⟩
    · rw [heq]
      exact ⟨_, rfl⟩

end Argument

/-! ## Functions -/

namespace IntegerFunction

/-- The numbers of arguments that a function takes. -/
def Takes : IntegerFunction → Nat → Prop
  | .factorial, k => k = 1
  | .isqrt, k => k = 1
  | .comb, k => k = 2
  | .perm, k => k = 1 ∨ k = 2
  | .gcd, _ => True
  | .lcm, _ => True

/-- The arguments that matter: all of them, but nothing in place of the second one of `perm` is as if it
were not there. -/
def operands : IntegerFunction → List Value → List Value
  | .perm, [n, .nothing] => [n]
  | _, args => args

variable {f : IntegerFunction} {args args' : List Value}

theorem operands_of_ne (h : ∀ n, f = .perm → args ≠ [n, .nothing]) : f.operands args = args := by
  unfold operands
  split
  · next n => exact absurd rfl (h n rfl)
  · rfl

theorem mem_operands {v : Value} (hv : v ≠ .nothing) (h : v ∈ args) : v ∈ f.operands args := by
  unfold operands
  split
  · next n => simpa [hv] using h
  · exact h

theorem operands_recast (h : List.Forall₂ Value.Recast args args') :
    List.Forall₂ Value.Recast (f.operands args) (f.operands args') := by
  by_cases hform : f = .perm ∧ ∃ n, args = [n, .nothing]
  · obtain ⟨rfl, n, rfl⟩ := hform
    cases h with
    | cons hn hrest =>
      cases hrest with
      | cons hk hnil =>
        cases hnil
        cases hk
        exact .cons hn .nil
  · have hsame : f.operands args = args := operands_of_ne fun n hf hargs => hform ⟨hf, n, hargs⟩
    have hsame' : f.operands args' = args' := by
      refine operands_of_ne fun n hf hargs => ?_
      subst hargs
      cases h with
      | cons _ hrest =>
        cases hrest with
        | cons hk hnil =>
          cases hnil
          cases hk
          exact hform ⟨hf, _, rfl⟩
    rw [hsame, hsame']
    exact h

theorem takes_of_operands (h : f.Takes (f.operands args).length) : f.Takes args.length := by
  unfold operands at h
  split at h
  · exact Or.inr rfl
  · exact h

theorem Gives.takes {ns : List Int} {r : Int} (h : f.Gives ns r) : f.Takes ns.length := by
  cases h with
  | factorial => rfl
  | isqrt => rfl
  | comb => rfl
  | permAll => exact Or.inl rfl
  | perm => exact Or.inr rfl
  | gcd => trivial
  | lcm => trivial

end IntegerFunction

namespace Math

variable {f : IntegerFunction} {args : List Value}

theorem apply_one (f : IntegerFunction) (n : Value) :
    ([n].mapM Argument.integer >>= fun ns => ofInt (f.apply ns)) =
      Argument.integer n >>= fun n => ofInt (f.apply [n]) := by
  rw [List.mapM_cons]
  cases Argument.integer n <;> rfl

theorem apply_two (f : IntegerFunction) (n k : Value) :
    ([n, k].mapM Argument.integer >>= fun ns => ofInt (f.apply ns)) =
      Argument.integer n >>= fun n => Argument.integer k >>= fun k => ofInt (f.apply [n, k]) := by
  rw [List.mapM_cons, List.mapM_cons]
  cases Argument.integer n with
  | error => rfl
  | ok => cases Argument.integer k <;> rfl

theorem mathOne_of_length_ne {name : String} {g : Value → Attempt Answer} {k : Nat} (hk : k ≠ 1)
    (hlength : args.length = k) :
    Argument.mathOne name g args = Attempt.misuse (.oneArgument name k) := by
  subst hlength
  match args with
  | [] => rfl
  | [_] => exact absurd rfl hk
  | _ :: _ :: _ => rfl

theorem mathTwo_of_length_ne {name : String} {g : Value → Value → Attempt Answer} {k : Nat}
    (hk : k ≠ 2) (hlength : args.length = k) :
    Argument.mathTwo name g args = Attempt.misuse (.exactCount name 2 k) := by
  subst hlength
  match args with
  | [] => rfl
  | [_] => rfl
  | [_, _] => exact absurd rfl hk
  | _ :: _ :: _ :: _ => rfl

/-- With a number of arguments that the function takes, these become integers and the function is
applied. -/
theorem integer_of_takes (h : f.Takes args.length) :
    integer f args = (f.operands args).mapM Argument.integer >>= fun ns => ofInt (f.apply ns) := by
  cases f with
  | factorial =>
    obtain ⟨n, rfl⟩ := List.length_eq_one_iff.1 h
    exact (apply_one .factorial n).symm
  | isqrt =>
    obtain ⟨n, rfl⟩ := List.length_eq_one_iff.1 h
    exact (apply_one .isqrt n).symm
  | comb =>
    obtain ⟨n, k, rfl⟩ := List.length_eq_two.1 h
    exact (apply_two .comb n k).symm
  | perm =>
    rcases h with h | h
    · obtain ⟨n, rfl⟩ := List.length_eq_one_iff.1 h
      exact (apply_one .perm n).symm
    · obtain ⟨n, k, rfl⟩ := List.length_eq_two.1 h
      by_cases hk : k = .nothing
      · subst hk
        exact (apply_one .perm n).symm
      · have hoperands : IntegerFunction.perm.operands [n, k] = [n, k] :=
          IntegerFunction.operands_of_ne fun _ _ h => hk (by injection h with _ h; injection h)
        rw [hoperands, apply_two]
        cases k with
        | nothing => exact absurd rfl hk
        | _ => rfl
  | gcd => rfl
  | lcm => rfl

/-- A number of arguments that the function does not take is a misuse, whatever they are. -/
theorem integer_of_not_takes {k : Nat} (h : ¬ f.Takes k) :
    ∃ m, ∀ args, args.length = k → integer f args = Attempt.misuse m := by
  cases f with
  | factorial => exact ⟨_, fun _ => mathOne_of_length_ne h⟩
  | isqrt => exact ⟨_, fun _ => mathOne_of_length_ne h⟩
  | comb => exact ⟨_, fun _ => mathTwo_of_length_ne h⟩
  | perm =>
    cases k with
    | zero =>
      refine ⟨.leastCount "perm" 1 0, fun args hargs => ?_⟩
      rw [List.length_eq_zero_iff.1 hargs]
      rfl
    | succ k =>
      refine ⟨.mostCount "perm" 2 (k + 1), fun args hargs => ?_⟩
      match args with
      | [] => cases hargs
      | [_] => exact absurd (Or.inl hargs.symm) h
      | [_, _] => exact absurd (Or.inr hargs.symm) h
      | _ :: k :: _ :: _ =>
        rw [← hargs]
        cases k <;> rfl
  | gcd => exact absurd trivial h
  | lcm => exact absurd trivial h

theorem ofInt_eq_ok_iff {r : Except NoResult Int} {a : Answer} :
    ofInt r = .ok a ↔ ∃ n, r = .ok n ∧ a = .value (.integer n) := by
  cases r with
  | error e => exact ⟨fun h => (by cases h), fun ⟨_, h, _⟩ => (by cases h)⟩
  | ok n =>
    constructor
    · intro h
      cases h
      exact ⟨n, rfl, rfl⟩
    · rintro ⟨_, hn, rfl⟩
      cases hn
      rfl

/-- An integer is given exactly for whole operands for which the function has a value, and is then that
value. -/
theorem integer_eq_ok_iff {a : Answer} :
    integer f args = .ok a ↔ ∃ ns r, List.Forall₂ Value.IsWhole (f.operands args) ns ∧
      f.Gives ns r ∧ a = .value (.integer r) := by
  by_cases htakes : f.Takes args.length
  · rw [integer_of_takes htakes]
    constructor
    · intro h
      cases hns : (f.operands args).mapM Argument.integer with
      | error => rw [hns] at h; cases h
      | ok ns =>
        rw [hns] at h
        obtain ⟨r, hr, rfl⟩ := ofInt_eq_ok_iff.1 h
        exact ⟨ns, r, Argument.mapM_integer_eq_ok_iff.1 hns, IntegerFunction.apply_eq_ok_iff.1 hr, rfl⟩
    · rintro ⟨ns, r, hns, hr, rfl⟩
      rw [Argument.mapM_integer_eq_ok_iff.2 hns]
      exact ofInt_eq_ok_iff.2 ⟨r, IntegerFunction.apply_eq_ok_iff.2 hr, rfl⟩
  · obtain ⟨m, hm⟩ := integer_of_not_takes htakes
    rw [hm args rfl]
    refine ⟨fun h => (by cases h), ?_⟩
    rintro ⟨ns, r, hns, hr, -⟩
    exact absurd (IntegerFunction.takes_of_operands (hns.length_eq ▸ hr.takes)) htakes

theorem integer_recast {args' : List Value} (h : List.Forall₂ Value.Recast args args') :
    integer f args = integer f args' := by
  by_cases htakes : f.Takes args.length
  · rw [integer_of_takes htakes, integer_of_takes (h.length_eq ▸ htakes),
      Argument.mapM_integer_recast (IntegerFunction.operands_recast h)]
  · obtain ⟨m, hm⟩ := integer_of_not_takes htakes
    rw [hm args rfl, hm args' h.length_eq.symm]

/-- An argument that is there and counts as no integer is a misuse. -/
theorem integer_misuse {v : Value} (hmem : v ∈ args) (hthere : v ≠ .nothing)
    (hv : ∀ n, ¬ v.IsWhole n) : ∃ m, integer f args = Attempt.misuse m := by
  by_cases htakes : f.Takes args.length
  · obtain ⟨m, hm⟩ := Argument.mapM_integer_misuse (IntegerFunction.mem_operands hthere hmem) hv
    rw [integer_of_takes htakes, hm]
    exact ⟨m, rfl⟩
  · obtain ⟨m, hm⟩ := integer_of_not_takes htakes
    exact ⟨m, hm args rfl⟩

/-- The builtins on integers make nothing new: what they give is settled as it is. -/
theorem settle_integer_eq_ok_iff {name : String} {v : Value} {s s' : Store} :
    Machine.settle name (integer f args) s = .ok v s' ↔ s' = s ∧ integer f args = .ok (.value v) := by
  cases h : integer f args with
  | error r => exact ⟨fun h => (by cases h), fun h => (by cases h.2)⟩
  | ok a =>
    obtain ⟨ns, r, -, -, rfl⟩ := integer_eq_ok_iff.1 h
    constructor
    · intro h
      cases h
      exact ⟨rfl, rfl⟩
    · rintro ⟨rfl, h⟩
      cases h
      rfl

end Math

open Number in
/-- The builtins on integers do not tell a whole float from its integer, refuse every other float,
and give exactly the values of their functions. -/
theorem integer_functions_exact {notices : Array Notice} {root : FrameId} {s₀ : Store}
    (hfresh : CommandLine.fresh notices = (root, s₀)) (f : IntegerFunction) :
    s₀.Offers root (.math (.integer f)) ∧
    ∀ d mark s,
      (∀ args args', List.Forall₂ Value.Recast args args' →
        call d (.primitive mark (.operation (.math (.integer f)))) args s =
          call d (.primitive mark (.operation (.math (.integer f)))) args' s) ∧
      (∀ args x, Value.double x ∈ args → (∀ n : Int, (float x).value? ≠ some (rational n)) →
        ∃ e, call (d + 1) (.primitive mark (.operation (.math (.integer f)))) args s =
          .error (.error e) s) ∧
      ∀ args v s', call (d + 1) (.primitive mark (.operation (.math (.integer f)))) args s = .ok v s' ↔
        s' = s ∧ ∃ ns r, List.Forall₂ Value.IsWhole (f.operands args) ns ∧ f.Gives ns r ∧
          v = .integer r := by
  have hcall : ∀ d mark args s,
      call (d + 1) (.primitive mark (.operation (.math (.integer f)))) args s =
        Machine.settle f.name (Math.integer f args) s := fun _ _ _ _ => rfl
  refine ⟨Standard.offers_math hfresh ?_, fun d mark s => ⟨?_, ?_, ?_⟩⟩
  · cases f <;> simp [Standard.mathEntries]
  · intro args args' h
    cases d with
    | zero => rfl
    | succ d => rw [hcall, hcall, Math.integer_recast h]
  · intro args x hmem hx
    obtain ⟨m, hm⟩ := Math.integer_misuse (f := f) hmem (by intro h; cases h) (by
      intro n h
      cases h with
      | float h => exact hx n h)
    rw [hcall, hm]
    exact ⟨_, rfl⟩
  · intro args v s'
    rw [hcall, Math.settle_integer_eq_ok_iff]
    constructor
    · rintro ⟨hs, hv⟩
      obtain ⟨ns, r, hns, hr, heq⟩ := Math.integer_eq_ok_iff.1 hv
      cases heq
      exact ⟨hs, ns, r, hns, hr, rfl⟩
    · rintro ⟨hs, ns, r, hns, hr, rfl⟩
      exact ⟨hs, Math.integer_eq_ok_iff.2 ⟨ns, r, hns, hr, rfl⟩⟩

open Number in
/-- A float above `2 ^ 53`, the negative zero and one half. -/
theorem integer_functions_exact_of_floats :
    let large : Double := .float (Binary.nearest false 27021597764222976 1)
    let zero : Double := .float (Binary.nearest true 0 1)
    let half : Double := .float (Binary.nearest false 1 2)
    let gcd := Value.primitive 0 (.operation (.math (.integer .gcd)))
    List.Forall₂ Value.Recast [.double large, .double zero, .integer (-15)]
        [.integer 27021597764222976, .integer 0, .integer (-15)] ∧
      (∀ n : Int, (float half).value? ≠ some (rational n)) ∧
      ∃ s₀, CommandLine.fresh #[] = (0, s₀) ∧ s₀.Offers 0 (.math (.integer .gcd)) ∧
      call 1 gcd [.double large, .double zero, .integer (-15)] s₀ =
        call 1 gcd [.integer 27021597764222976, .integer 0, .integer (-15)] s₀ ∧
      (∃ e, call 1 gcd [.integer 0, .double half] s₀ = .error (.error e) s₀) ∧
      call 1 gcd [.integer 27021597764222976, .integer 0, .integer (-15)] s₀ = .ok (.integer 3) s₀ ∧
      call 1 gcd [] s₀ = .ok (.integer 0) s₀ := by
  intro large zero half gcd
  have hlarge : (float large).value? = some (rational (27021597764222976 : Int)) := by
    rw [value?_float, ← Binary.toInt?_eq_some_iff]
    decide +kernel
  have hzero : (float zero).value? = some (rational (0 : Int)) := by
    rw [value?_float, ← Binary.toInt?_eq_some_iff]
    decide +kernel
  have hhalf : ∀ n : Int, (float half).value? ≠ some (rational n) := by
    intro n
    have hnone : (Binary.ofFloat half.toFloat).toInt? = none := by decide +kernel
    rw [value?_float, Ne, ← Binary.toInt?_eq_some_iff, hnone]
    intro h
    cases h
  have hrecast : List.Forall₂ Value.Recast [.double large, .double zero, .integer (-15)]
      [.integer 27021597764222976, .integer 0, .integer (-15)] :=
    .cons (.whole hlarge) (.cons (.whole hzero) (.cons (.same _) .nil))
  have hfresh := CommandLine.fresh_eq #[]
  obtain ⟨hoffers, hcall⟩ := integer_functions_exact hfresh .gcd
  refine ⟨hrecast, hhalf, _, hfresh, hoffers, (hcall 1 0 _).1 _ _ hrecast,
    (hcall 0 0 _).2.1 _ half (by simp) hhalf, ?_, ?_⟩
  · exact ((hcall 0 0 _).2.2 _ _ _).2 ⟨rfl, _, 3,
      .cons (.integer _) (.cons (.integer _) (.cons (.integer _) .nil)),
      IntegerFunction.apply_eq_ok_iff.1 (by decide +kernel), rfl⟩
  · exact ((hcall 0 0 _).2.2 _ _ _).2 ⟨rfl, [], 0, .nil,
      IntegerFunction.apply_eq_ok_iff.1 (by decide +kernel), rfl⟩

end SmallLisp
