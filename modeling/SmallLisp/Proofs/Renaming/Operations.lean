import SmallLisp.Proofs.Renaming.Values

/-!
Operations on renamed values.

No text of a value shows the numbers of frames and marks, and comparisons only ask whether two of them
are the same, so whatever an operation makes of renamed values is the renamed result, and so is an
error, which has no numbers in it:

    op.call depth (args.map (Value.rename r)) = Answer.rename r <$> op.call depth args
                                                                 (Operation.call_rename)
-/

namespace SmallLisp

/-! ## Arguments -/

def Answer.rename (r : Renaming) : Answer → Answer
  | .value v => .value (v.rename r)
  | .list items => .list (items.map (Value.rename r))
  | .tuple items => .tuple (items.map (Value.rename r))

namespace Argument

variable (r : Renaming) {α β : Type} {k : α → β}

theorem one_rename {s : Signature} {f : Value → Attempt α} {g : Value → Attempt β}
    (h : ∀ x, g (x.rename r) = k <$> f x) (args : List Value) :
    one s g (args.map (Value.rename r)) = k <$> one s f args := by
  match args with
  | [] => rfl
  | [x] => exact h x
  | _ :: _ :: rest =>
    simp only [one, List.map_cons, List.length_cons, List.length_map]
    rfl

theorem two_rename {s : Signature} {f : Value → Value → Attempt α} {g : Value → Value → Attempt β}
    (h : ∀ x y, g (x.rename r) (y.rename r) = k <$> f x y) (args : List Value) :
    two s g (args.map (Value.rename r)) = k <$> two s f args := by
  match args with
  | [] | [_] => rfl
  | [x, y] => exact h x y
  | _ :: _ :: _ :: rest =>
    simp only [two, List.map_cons, List.length_cons, List.length_map]
    rfl

theorem mathOne_rename {name : String} {f : Value → Attempt α} {g : Value → Attempt β}
    (h : ∀ x, g (x.rename r) = k <$> f x) (args : List Value) :
    mathOne name g (args.map (Value.rename r)) = k <$> mathOne name f args := by
  match args with
  | [] => rfl
  | [x] => exact h x
  | _ :: _ :: rest =>
    simp only [mathOne, List.map_cons, List.length_cons, List.length_map]
    rfl

theorem mathTwo_rename {name : String} {f : Value → Value → Attempt α}
    {g : Value → Value → Attempt β} (h : ∀ x y, g (x.rename r) (y.rename r) = k <$> f x y)
    (args : List Value) :
    mathTwo name g (args.map (Value.rename r)) = k <$> mathTwo name f args := by
  match args with
  | [] | [_] => rfl
  | [x, y] => exact h x y
  | _ :: _ :: _ :: rest =>
    simp only [mathTwo, List.map_cons, List.length_cons, List.length_map]
    rfl

theorem mapM_rename {f : Value → Attempt α} {g : Value → Attempt β}
    (h : ∀ x, g (x.rename r) = k <$> f x) (args : List Value) :
    (args.map (Value.rename r)).mapM g = List.map k <$> args.mapM f := by
  induction args with
  | nil => rfl
  | cons x args ih =>
    simp only [List.map_cons, List.mapM_cons, h, ih, map_bind, bind_map_left, map_pure]

@[simp] theorem number_rename (depth : Nat) (operation : String) (v : Value) :
    number depth operation (v.rename r) = number depth operation v := by
  have htext := v.print_rename r depth
  cases v with
  | number x => rfl
  | _ =>
    simp only [number]
    rw [← htext]
    rfl

@[simp] theorem items_rename (depth : Nat) (operation : String) (v : Value) :
    items depth operation (v.rename r) = List.map (Value.rename r) <$> items depth operation v := by
  have htext := v.print_rename r depth
  cases v with
  | list mark vs =>
    simp only [Value.rename, Value.renameAll_eq]
    rfl
  | _ =>
    simp only [items, map_bind]
    rw [← htext]
    rfl

@[simp] theorem numeric_rename (v : Value) : numeric (v.rename r) = numeric v := by
  simp only [numeric, Value.numeric?_rename, Value.typeName_rename]

@[simp] theorem real_rename (v : Value) : real (v.rename r) = real v := by
  simp only [real, numeric_rename]

@[simp] theorem integer_rename (v : Value) : integer (v.rename r) = integer v := by
  simp only [integer, Value.numeric?_rename, Value.typeName_rename]

@[simp] theorem sequence_rename (v : Value) :
    sequence (v.rename r) = List.map (Value.rename r) <$> sequence v := by
  cases v with
  | list mark vs =>
    simp only [Value.rename, Value.renameAll_eq]
    rfl
  | tuple marks vs =>
    simp only [Value.rename, Value.renameAll_eq]
    rfl
  | text s =>
    have hchars : (s.toList.map fun c => Value.text (String.singleton c)).map (Value.rename r) =
        s.toList.map fun c => Value.text (String.singleton c) := by
      rw [List.map_map]
      rfl
    show Except.ok _ = Except.ok _
    rw [hchars]
  | _ => rfl

end Argument

/-! ## Operations -/

section Operations

open Argument

variable (r : Renaming)

namespace Arithmetic

@[simp] theorem numbers_rename (depth : Nat) (operation : String) (args : List Value) :
    numbers depth operation (args.map (Value.rename r)) = numbers depth operation args := by
  simp only [numbers, List.mapM_map]
  congr 1
  funext v
  exact number_rename r depth operation v

@[simp] theorem someNumbers_rename (depth : Nat) (operation : String) (args : List Value) :
    someNumbers depth operation (args.map (Value.rename r)) = someNumbers depth operation args := by
  simp only [someNumbers, numbers_rename, List.isEmpty_map]

@[simp] theorem rename_answer (x : Except NoResult Number) :
    Answer.rename r <$> answer x = answer x := by
  cases x <;> rfl

theorem add_rename (depth : Nat) (args : List Value) :
    add depth (args.map (Value.rename r)) = Answer.rename r <$> add depth args := by
  simp only [add, numbers_rename, map_bind, rename_answer]

theorem mul_rename (depth : Nat) (args : List Value) :
    mul depth (args.map (Value.rename r)) = Answer.rename r <$> mul depth args := by
  simp only [mul, numbers_rename, map_bind, rename_answer]

theorem sub_rename (depth : Nat) (args : List Value) :
    sub depth (args.map (Value.rename r)) = Answer.rename r <$> sub depth args := by
  simp only [sub, someNumbers_rename, map_bind]
  congr 1
  funext x
  split
  · rfl
  · rw [rename_answer]

theorem div_rename (depth : Nat) (args : List Value) :
    div depth (args.map (Value.rename r)) = Answer.rename r <$> div depth args := by
  simp only [div, someNumbers_rename, map_bind]
  congr 1
  funext x
  split
  · simp only [map_bind, map_pure, Answer.rename, Value.rename]
  · simp only [map_bind, map_pure, Answer.rename, Value.rename]

theorem compare_rename (depth : Nat) (c : Number.Relation) (args : List Value) :
    compare depth c (args.map (Value.rename r)) = Answer.rename r <$> compare depth c args := by
  refine two_rename r (fun a b => ?_) args
  simp only [number_rename, map_bind, map_pure, Answer.rename, Value.rename]

theorem extremum_rename (depth : Nat) (operation : String) (c : Number.Relation)
    (args : List Value) :
    extremum depth operation c (args.map (Value.rename r)) =
      Answer.rename r <$> extremum depth operation c args := by
  simp only [extremum, someNumbers_rename, map_bind, map_pure, Answer.rename, Value.rename]

end Arithmetic

namespace Lists

theorem car_rename (depth : Nat) (args : List Value) :
    car depth (args.map (Value.rename r)) = Answer.rename r <$> car depth args := by
  refine one_rename r (fun v => ?_) args
  simp only [items_rename, map_bind, bind_map_left]
  congr 1
  funext vs
  cases vs <;> rfl

theorem cdr_rename (depth : Nat) (args : List Value) :
    cdr depth (args.map (Value.rename r)) = Answer.rename r <$> cdr depth args := by
  refine one_rename r (fun v => ?_) args
  simp only [items_rename, map_bind, bind_map_left]
  congr 1
  funext vs
  cases vs <;> rfl

theorem cons_rename (depth : Nat) (args : List Value) :
    cons depth (args.map (Value.rename r)) = Answer.rename r <$> cons depth args := by
  refine two_rename r (fun v w => ?_) args
  simp only [items_rename, map_bind, bind_map_left, map_pure, Answer.rename, List.map_cons]

theorem append_rename (depth : Nat) (args : List Value) :
    append depth (args.map (Value.rename r)) = Answer.rename r <$> append depth args := by
  simp only [append, mapM_rename r (items_rename r depth "append"), bind_map_left, map_bind,
    map_pure, Answer.rename, List.map_flatten]

theorem length_rename (depth : Nat) (args : List Value) :
    length depth (args.map (Value.rename r)) = Answer.rename r <$> length depth args := by
  refine one_rename r (fun v => ?_) args
  simp only [items_rename, bind_map_left, map_bind, map_pure, List.length_map]
  rfl

theorem begin_rename (args : List Value) :
    begin (args.map (Value.rename r)) = (begin args).rename r := by
  simp only [begin, List.getLast?_map, Answer.rename]
  cases args.getLast? <;> rfl

theorem eq_rename (args : List Value) :
    eq (args.map (Value.rename r)) = Answer.rename r <$> eq args := by
  refine two_rename r (fun a b => ?_) args
  rw [Value.isEq_rename]
  rfl

theorem equal_rename (depth : Nat) (args : List Value) :
    equal depth (args.map (Value.rename r)) = Answer.rename r <$> equal depth args := by
  refine two_rename r (fun a b => ?_) args
  rw [Value.isEqual?_rename]
  cases a.isEqual? depth b <;> rfl

theorem not_rename (args : List Value) :
    not (args.map (Value.rename r)) = Answer.rename r <$> not args := by
  refine one_rename r (fun v => ?_) args
  rw [Value.isFalse_rename]
  rfl

theorem isNull_rename (args : List Value) :
    isNull (args.map (Value.rename r)) = Answer.rename r <$> isNull args := by
  refine one_rename r (fun v => ?_) args
  cases v with
  | list mark items =>
    simp only [Value.rename, Value.renameAll_eq, List.isEmpty_map]
    rfl
  | _ => rfl

end Lists

namespace Math

@[simp] theorem rename_ofDouble (x : Except NoResult Double) :
    Answer.rename r <$> ofDouble x = ofDouble x := by
  cases x <;> rfl

@[simp] theorem rename_ofInt (x : Except NoResult Int) :
    Answer.rename r <$> ofInt x = ofInt x := by
  cases x <;> rfl

theorem rounding_rename (f : Rounding) (args : List Value) :
    rounding f (args.map (Value.rename r)) = Answer.rename r <$> rounding f args := by
  refine mathOne_rename r (fun v => ?_) args
  simp only [Value.numeric?_rename, Value.typeName_rename]
  split
  · rw [rename_ofInt]
  · rfl
  · rfl

@[simp] theorem logOf_rename (l : Logarithm) (v : Value) : logOf l (v.rename r) = logOf l v := by
  simp only [logOf, numeric_rename]

theorem logarithm_rename (l : Logarithm) (args : List Value) :
    logarithm l (args.map (Value.rename r)) = Answer.rename r <$> logarithm l args := by
  match l, args with
  | .natural, [] | .decimal, [] | .binary, [] => rfl
  | l, [x] =>
    simp only [List.map_cons, List.map_nil, logarithm, logOf_rename, map_bind, map_pure]
    rfl
  | .natural, [x, base] =>
    simp only [List.map_cons, List.map_nil, logarithm, logOf_rename, map_bind, rename_ofDouble]
  | .natural, _ :: _ :: _ :: _ => rfl
  | .decimal, _ :: _ :: _ | .binary, _ :: _ :: _ =>
    simp only [List.map_cons, logarithm, List.length_cons, List.length_map]
    rfl

theorem integer_rename (f : IntegerFunction) (args : List Value) :
    integer f (args.map (Value.rename r)) = Answer.rename r <$> integer f args := by
  have hone : ∀ (g : Int → Except NoResult Int) (v : Value),
      (do ofInt (g (← Argument.integer (v.rename r)))) =
        Answer.rename r <$> (do ofInt (g (← Argument.integer v))) := by
    intro g v
    simp only [Argument.integer_rename, map_bind, rename_ofInt]
  have htwo : ∀ (g : Int → Int → Except NoResult Int) (v w : Value),
      (do ofInt (g (← Argument.integer (v.rename r)) (← Argument.integer (w.rename r)))) =
        Answer.rename r <$> (do ofInt (g (← Argument.integer v) (← Argument.integer w))) := by
    intro g v w
    simp only [Argument.integer_rename, map_bind, rename_ofInt]
  have hall : (args.map (Value.rename r)).mapM Argument.integer = args.mapM Argument.integer := by
    simp only [List.mapM_map]
    congr 1
    funext v
    exact Argument.integer_rename r v
  cases f with
  | factorial => exact mathOne_rename r (hone Whole.factorial) args
  | isqrt => exact mathOne_rename r (hone Whole.isqrt) args
  | comb => exact mathTwo_rename r (htwo Whole.comb) args
  | perm =>
    match args with
    | [] => rfl
    | [n] => exact hone Whole.factorial n
    | [n, k] =>
      cases k with
      | nothing => exact hone Whole.factorial n
      | _ => exact htwo Whole.perm n _
    | n :: k :: v :: rest =>
      have hmany : ∀ n k v rest, integer .perm (n :: k :: v :: rest) =
          Attempt.misuse (.mostCount "perm" 2 (rest.length + 3)) := by
        intro n k v rest
        cases k <;> rfl
      simp only [List.map_cons, hmany, List.length_map]
      rfl
  | gcd => simp only [integer, hall, map_bind, rename_ofInt]
  | lcm => simp only [integer, hall, map_bind, rename_ofInt]

theorem ldexp_rename (args : List Value) :
    ldexp (args.map (Value.rename r)) = Answer.rename r <$> ldexp args := by
  refine mathTwo_rename r (fun x k => ?_) args
  simp only [real_rename, map_bind]
  congr 1
  funext d
  match k with
  | .number (.integer k) => simp only [Value.rename, rename_ofDouble]
  | .bool b => simp only [Value.rename, rename_ofDouble]
  | .number (.float _) | .symbol _ | .unspecified | .list _ _ | .tuple _ _ | .primitive _ _
  | .closure _ _ _ _ | .text _ | .nothing => rfl

theorem isclose_rename (args : List Value) :
    isclose (args.map (Value.rename r)) = Answer.rename r <$> isclose args := by
  match args with
  | [] | [_] => rfl
  | [a, b] =>
    simp only [List.map_cons, List.map_nil, isclose, real_rename, map_bind, map_pure, Answer.rename,
      Value.rename]
  | _ :: _ :: _ :: _ =>
    simp only [List.map_cons, isclose, List.length_cons, List.length_map]
    split <;> rfl

@[simp] theorem mapM_real_rename (args : List Value) :
    (args.map (Value.rename r)).mapM real = args.mapM real := by
  simp only [List.mapM_map]
  congr 1
  funext v
  exact real_rename r v

theorem differences_rename : ∀ ps qs : List Value,
    differences (ps.map (Value.rename r)) (qs.map (Value.rename r)) = differences ps qs
  | [], _ => rfl
  | _ :: _, [] => rfl
  | p :: ps, q :: qs => by
    simp only [List.map_cons, differences, real_rename, differences_rename ps qs]

theorem dist_rename (args : List Value) :
    dist (args.map (Value.rename r)) = Answer.rename r <$> dist args := by
  refine mathTwo_rename r (fun v w => ?_) args
  simp only [sequence_rename, bind_map_left, map_bind, List.length_map, differences_rename]
  congr 1
  funext ps
  congr 1
  funext qs
  split
  · simp only [map_bind, map_pure]
    rfl
  · rfl

theorem fsum_rename (args : List Value) :
    fsum (args.map (Value.rename r)) = Answer.rename r <$> fsum args := by
  refine mathOne_rename r (fun v => ?_) args
  simp only [sequence_rename, bind_map_left, map_bind, List.foldlM_map, real_rename,
    rename_ofDouble]

namespace Product

def rename : Product → Product
  | .number x => .number x
  | .list items => .list (items.map (Value.rename r))
  | .tuple marks items => .tuple (marks.map r.mark) (items.map (Value.rename r))
  | .text s => .text s

theorem ofSequence?_rename (v : Value) :
    ofSequence? (v.rename r) = (ofSequence? v).map (rename r) := by
  cases v with
  | list mark items =>
    simp only [Value.rename, Value.renameAll_eq]
    rfl
  | tuple marks items =>
    simp only [Value.rename, Value.renameAll_eq]
    rfl
  | _ => rfl

theorem map_copies {α β : Type} (f : α → β) (n : Int) (items : List α) :
    (copies n items).map f = copies n (items.map f) := by
  simp only [copies, List.isEmpty_map]
  split
  · rfl
  · simp only [List.map_flatten, List.map_replicate]

theorem repeated_rename (n : Int) (q : Product) :
    repeated n (q.rename r) = rename r <$> repeated n q := by
  unfold repeated
  split
  · rfl
  · cases q with
    | number x => rfl
    | list items =>
      simp only [rename, ← map_copies]
      rfl
    | tuple marks items =>
      simp only [rename, ← map_copies]
      rfl
    | text s => rfl

theorem mul_rename (q : Product) (v : Value) :
    mul (q.rename r) (v.rename r) = rename r <$> mul q v := by
  simp only [mul, Value.numeric?_rename, Value.typeName_rename, ofSequence?_rename]
  generalize v.numeric? = n, v.typeName = kind, ofSequence? v = o
  cases q with
  | number x =>
    cases n with
    | some y => simp only [rename, map_bind, map_pure]
    | none =>
      cases o with
      | none => cases x <;> rfl
      | some q =>
        cases x with
        | integer n => exact repeated_rename r n q
        | float x => rfl
  | list _ | tuple _ _ | text _ =>
    cases n with
    | none => rfl
    | some y =>
      cases y with
      | integer n => exact repeated_rename r n _
      | float x => rfl

theorem answer_rename (q : Product) : (q.rename r).answer = q.answer.rename r := by
  cases q with
  | tuple marks items => simp only [rename, answer, Answer.rename, Value.rename, Value.renameAll_eq]
  | _ => rfl

end Product

theorem prod_rename (args : List Value) :
    prod (args.map (Value.rename r)) = Answer.rename r <$> prod args := by
  have hfold : ∀ (items : List Value) (q : Product),
      (items.map (Value.rename r)).foldlM Product.mul (q.rename r) =
        Product.rename r <$> items.foldlM Product.mul q := by
    intro items
    induction items with
    | nil => exact fun _ => rfl
    | cons v items ih =>
      intro q
      simp only [List.map_cons, List.foldlM_cons, Product.mul_rename, bind_map_left, map_bind, ih]
  match args with
  | [] => rfl
  | [v] =>
    simp only [List.map_cons, List.map_nil, prod, sequence_rename, bind_map_left, map_bind, map_pure,
      ← Product.answer_rename]
    congr 1
    funext items
    have h := hfold items (.number (.integer 1))
    simp only [Product.rename] at h
    rw [h, bind_map_left]
  | _ :: _ :: _ =>
    simp only [List.map_cons, prod, List.length_cons, List.length_map]
    split <;> rfl

theorem call_rename (f : MathFunction) (args : List Value) :
    call f (args.map (Value.rename r)) = Answer.rename r <$> call f args := by
  cases f with
  | real f =>
    refine mathOne_rename r (fun v => ?_) args
    simp only [real_rename, map_bind, rename_ofDouble]
  | realPair f =>
    refine mathTwo_rename r (fun v w => ?_) args
    simp only [real_rename, map_bind, rename_ofDouble]
  | test f =>
    refine mathOne_rename r (fun v => ?_) args
    simp only [real_rename, map_bind, map_pure, Answer.rename, Value.rename]
  | rounding f => exact rounding_rename r f args
  | integer f => exact integer_rename r f args
  | logarithm l => exact logarithm_rename r l args
  | frexp =>
    refine mathOne_rename r (fun v => ?_) args
    simp only [real_rename, map_bind, map_pure]
    rfl
  | ldexp => exact ldexp_rename r args
  | modf =>
    refine mathOne_rename r (fun v => ?_) args
    simp only [real_rename, map_bind, map_pure]
    rfl
  | isclose => exact isclose_rename r args
  | hypot =>
    simp only [call, hypot, mapM_real_rename, map_bind, map_pure]
    rfl
  | dist => exact dist_rename r args
  | fsum => exact fsum_rename r args
  | prod => exact prod_rename r args

end Math

theorem Operation.call_rename (depth : Nat) (op : Operation) (args : List Value) :
    op.call depth (args.map (Value.rename r)) = Answer.rename r <$> op.call depth args := by
  cases op with
  | math f => exact Math.call_rename r f args
  | add => exact Arithmetic.add_rename r depth args
  | sub => exact Arithmetic.sub_rename r depth args
  | mul => exact Arithmetic.mul_rename r depth args
  | div => exact Arithmetic.div_rename r depth args
  | compare c => exact Arithmetic.compare_rename r depth c args
  | max => exact Arithmetic.extremum_rename r depth _ _ args
  | min => exact Arithmetic.extremum_rename r depth _ _ args
  | append => exact Lists.append_rename r depth args
  | car => exact Lists.car_rename r depth args
  | cdr => exact Lists.cdr_rename r depth args
  | cons => exact Lists.cons_rename r depth args
  | length => exact Lists.length_rename r depth args
  | list => rfl
  | begin => exact congrArg Except.ok (Lists.begin_rename r args)
  | eq => exact Lists.eq_rename r args
  | equal => exact Lists.equal_rename r depth args
  | not => exact Lists.not_rename r args
  | isNull => exact Lists.isNull_rename r args
  | isNumber => exact one_rename r (fun v => by cases v <;> rfl) args
  | isList => exact one_rename r (fun v => by cases v <;> rfl) args
  | isProcedure => exact one_rename r (fun v => by cases v <;> rfl) args
  | isSymbol => exact one_rename r (fun v => by cases v <;> rfl) args

end Operations

theorem Machine.mapM_head?_rename (r : Renaming) (vss : List (List Value)) :
    (vss.map (List.map (Value.rename r))).mapM List.head? =
      (vss.mapM List.head?).map (List.map (Value.rename r)) := by
  induction vss with
  | nil => rfl
  | cons vs vss ih =>
    simp only [List.map_cons, List.mapM_cons, ih, List.head?_map]
    cases vs.head? <;> cases vss.mapM List.head? <;> rfl

theorem Machine.rows_rename (r : Renaming) (first : List Value) (others : List (List Value)) :
    rows (first.map (Value.rename r)) (others.map (List.map (Value.rename r))) =
      (rows first others).map (List.map (Value.rename r)) := by
  induction first generalizing others with
  | nil => rfl
  | cons x first ih =>
    have hheads := mapM_head?_rename r others
    have htails : (others.map (List.map (Value.rename r))).map List.tail =
        (others.map List.tail).map (List.map (Value.rename r)) := by
      simp only [List.map_map]
      congr 1
      funext vs
      exact List.map_tail.symm
    simp only [List.map_cons, rows, hheads, htails, ih]
    cases others.mapM List.head? <;> rfl

end SmallLisp
