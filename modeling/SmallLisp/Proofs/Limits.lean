import SmallLisp.Proofs.Faults

/-!
More depth, same answer.

Depth is used up by nested lists where values are read, shown and compared, and by nested evaluations
and calls.  `x.Upto y` says that `y` does what `x` does, unless `x` exhausts its depth; this passes
through `bind`, so a level of evaluation with more depth below it does the same unless the level with
less depth exhausts it:

    d ≤ d' → (evaluate d e f).Upto (evaluate d' e f)                            (evaluate_upto)

The same holds of reading, and so a program that a limit is enough for has the same end under every
greater one (`Interpreter.eval_of_le`).
-/

namespace SmallLisp

/-! ## Results that may be wanting for depth -/

/-- The second result is the first, unless that is the error `e`. -/
def Unless {ε α : Type} (e : ε) (x y : Except ε α) : Prop := x = .error e ∨ y = x

namespace Unless

variable {ε α β : Type} {e : ε}

theorem refl (x : Except ε α) : Unless e x x := Or.inr rfl

theorem bind {x x' : Except ε α} {f f' : α → Except ε β} (hx : Unless e x x')
    (hf : ∀ a, Unless e (f a) (f' a)) : Unless e (x >>= f) (x' >>= f') := by
  rcases hx with rfl | rfl
  · exact Or.inl rfl
  · cases x' with
    | ok a => exact hf a
    | error e' => exact refl _

theorem mapM {f f' : α → Except ε β} (h : ∀ a, Unless e (f a) (f' a)) (xs : List α) :
    Unless e (xs.mapM f) (xs.mapM f') := by
  induction xs with
  | nil => exact refl _
  | cons a xs ih =>
    rw [List.mapM_cons, List.mapM_cons]
    exact (h a).bind fun b => ih.bind fun bs => refl _

end Unless

/-! ## Values -/

namespace Value

mutual

theorem describe_upto : ∀ (v : Value) {d d' : Nat}, d ≤ d' →
    Unless .tooDeep (v.describe d) (v.describe d')
  | .list _ items, d, d', h => by
    cases d with
    | zero => exact Or.inl rfl
    | succ d =>
      obtain ⟨d', rfl⟩ := Nat.exists_eq_add_of_le' (Nat.le_trans (Nat.succ_pos d) h)
      simp only [describe]
      exact (describeAll_upto items (Nat.le_of_succ_le_succ h)).bind fun _ => .refl _
  | .tuple _ items, d, d', h => by
    cases d with
    | zero => exact Or.inl rfl
    | succ d =>
      obtain ⟨d', rfl⟩ := Nat.exists_eq_add_of_le' (Nat.le_trans (Nat.succ_pos d) h)
      simp only [describe]
      exact (describeAll_upto items (Nat.le_of_succ_le_succ h)).bind fun _ => .refl _
  | .number _, _, _, _ | .symbol _, _, _, _ | .bool _, _, _, _ | .unspecified, _, _, _
  | .primitive _ _, _, _, _ | .closure _ _ _ _, _, _, _ | .text _, _, _, _ | .nothing, _, _, _ =>
    .refl _

theorem describeAll_upto : ∀ (vs : List Value) {d d' : Nat}, d ≤ d' →
    Unless .tooDeep (describeAll d vs) (describeAll d' vs)
  | [], _, _, _ => .refl _
  | v :: vs, _, _, h => by
    simp only [describeAll]
    exact (describe_upto v h).bind fun _ => (describeAll_upto vs h).bind fun _ => .refl _

end

mutual

theorem print_upto : ∀ (v : Value) {d d' : Nat}, d ≤ d' →
    Unless .tooDeep (v.print d) (v.print d')
  | .list _ items, d, d', h => by
    cases d with
    | zero => exact Or.inl rfl
    | succ d =>
      obtain ⟨d', rfl⟩ := Nat.exists_eq_add_of_le' (Nat.le_trans (Nat.succ_pos d) h)
      simp only [print]
      exact (printAll_upto items (Nat.le_of_succ_le_succ h)).bind fun _ => .refl _
  | .tuple marks items, _, _, h => describe_upto (.tuple marks items) h
  | .number _, _, _, _ | .symbol _, _, _, _ | .bool _, _, _, _ | .unspecified, _, _, _
  | .primitive _ _, _, _, _ | .closure _ _ _ _, _, _, _ | .text _, _, _, _ | .nothing, _, _, _ =>
    .refl _

theorem printAll_upto : ∀ (vs : List Value) {d d' : Nat}, d ≤ d' →
    Unless .tooDeep (printAll d vs) (printAll d' vs)
  | [], _, _, _ => .refl _
  | v :: vs, _, _, h => by
    simp only [printAll]
    exact (print_upto v h).bind fun _ => (printAll_upto vs h).bind fun _ => .refl _

end

theorem plain_upto (v : Value) {d d' : Nat} (h : d ≤ d') :
    Unless .tooDeep (v.plain d) (v.plain d') := by
  cases v with
  | symbol name => exact .refl _
  | text s => exact .refl _
  | _ => exact describe_upto _ h

mutual

theorem isEqual?_upto : ∀ (a b : Value) {d d' : Nat}, d ≤ d' →
    a.isEqual? d b = none ∨ a.isEqual? d' b = a.isEqual? d b
  | .list _ xs, b, d, d', h => by
    cases b with
    | list n ys =>
      cases d with
      | zero => exact Or.inl rfl
      | succ d =>
        obtain ⟨d', rfl⟩ := Nat.exists_eq_add_of_le' (Nat.le_trans (Nat.succ_pos d) h)
        simp only [isEqual?]
        split
        · exact allEqual?_upto xs ys (Nat.le_of_succ_le_succ h)
        · exact Or.inr rfl
    | _ => exact Or.inr rfl
  | .number _, _, _, _, _ | .symbol _, _, _, _, _ | .bool _, _, _, _, _ | .unspecified, _, _, _, _
  | .tuple _ _, _, _, _, _ | .primitive _ _, _, _, _, _ | .closure _ _ _ _, _, _, _, _
  | .text _, _, _, _, _ | .nothing, _, _, _, _ => Or.inr rfl

theorem allEqual?_upto : ∀ (xs ys : List Value) {d d' : Nat}, d ≤ d' →
    allEqual? d xs ys = none ∨ allEqual? d' xs ys = allEqual? d xs ys
  | x :: xs, y :: ys, d, d', h => by
    simp only [allEqual?]
    rcases isEqual?_upto x y h with hxy | hxy
    · rw [hxy]
      exact Or.inl rfl
    · rw [hxy]
      match isEqual? d x y with
      | some true => exact allEqual?_upto xs ys h
      | some false => exact Or.inr rfl
      | none => exact Or.inl rfl
  | [], [], _, _, _ | [], _ :: _, _, _, _ | _ :: _, [], _, _, _ => Or.inr rfl

end

end Value

/-! ## Builtins -/

theorem Attempt.ofText_upto {t t' : Except TextFault String} (h : Unless .tooDeep t t') :
    Unless .depth (ofText t) (ofText t') := by
  rcases h with rfl | rfl
  · exact Or.inl rfl
  · exact .refl _

section Operations

variable {d d' : Nat} (h : d ≤ d')
include h

theorem Argument.number_upto (operation : String) (v : Value) :
    Unless .depth (number d operation v) (number d' operation v) := by
  cases v with
  | number x => exact .refl _
  | _ => exact (Attempt.ofText_upto (Value.print_upto _ h)).bind fun _ => .refl _

theorem Argument.items_upto (operation : String) (v : Value) :
    Unless .depth (items d operation v) (items d' operation v) := by
  cases v with
  | list mark items => exact .refl _
  | _ => exact (Attempt.ofText_upto (Value.print_upto _ h)).bind fun _ => .refl _

omit h in
theorem Argument.one_upto {α : Type} {s : Signature} {f f' : Value → Attempt α}
    (hf : ∀ x, Unless .depth (f x) (f' x)) (args : List Value) :
    Unless .depth (one s f args) (one s f' args) := by
  match args with
  | [x] => exact hf x
  | [] | _ :: _ :: _ => exact .refl _

omit h in
theorem Argument.two_upto {α : Type} {s : Signature} {f f' : Value → Value → Attempt α}
    (hf : ∀ x y, Unless .depth (f x y) (f' x y)) (args : List Value) :
    Unless .depth (two s f args) (two s f' args) := by
  match args with
  | [x, y] => exact hf x y
  | [] | [_] | _ :: _ :: _ :: _ => exact .refl _

theorem Arithmetic.numbers_upto (operation : String) (args : List Value) :
    Unless .depth (numbers d operation args) (numbers d' operation args) :=
  .mapM (Argument.number_upto h operation) args

theorem Arithmetic.someNumbers_upto (operation : String) (args : List Value) :
    Unless .depth (someNumbers d operation args) (someNumbers d' operation args) := by
  unfold someNumbers
  split
  · exact .refl _
  · exact (numbers_upto h operation args).bind fun _ => .refl _

theorem Lists.equal_upto (args : List Value) : Unless .depth (equal d args) (equal d' args) := by
  refine Argument.two_upto (fun a b => ?_) args
  rcases Value.isEqual?_upto a b h with hab | hab
  · rw [hab]
    exact Or.inl rfl
  · rw [hab]
    exact .refl _

theorem Operation.call_upto (op : Operation) (args : List Value) :
    Unless .depth (op.call d args) (op.call d' args) := by
  cases op with
  | add => exact (Arithmetic.numbers_upto h "+" args).bind fun _ => .refl _
  | mul => exact (Arithmetic.numbers_upto h "*" args).bind fun _ => .refl _
  | sub => exact (Arithmetic.someNumbers_upto h "-" args).bind fun _ => .refl _
  | div => exact (Arithmetic.someNumbers_upto h "/" args).bind fun _ => .refl _
  | max => exact (Arithmetic.someNumbers_upto h "max" args).bind fun _ => .refl _
  | min => exact (Arithmetic.someNumbers_upto h "min" args).bind fun _ => .refl _
  | compare r =>
    refine Argument.two_upto (fun a b => ?_) args
    exact (Argument.number_upto h _ a).bind fun _ => (Argument.number_upto h _ b).bind fun _ => .refl _
  | append => exact (Unless.mapM (Argument.items_upto h "append") args).bind fun _ => .refl _
  | car => exact Argument.one_upto (fun v => (Argument.items_upto h _ v).bind fun _ => .refl _) args
  | cdr => exact Argument.one_upto (fun v => (Argument.items_upto h _ v).bind fun _ => .refl _) args
  | length =>
    exact Argument.one_upto (fun v => (Argument.items_upto h _ v).bind fun _ => .refl _) args
  | cons =>
    exact Argument.two_upto (fun _ v => (Argument.items_upto h _ v).bind fun _ => .refl _) args
  | equal => exact Lists.equal_upto h args
  | math f | list | begin | eq | not | isList | isNull | isNumber | isProcedure | isSymbol =>
    exact .refl _

end Operations

/-! ## Computations -/

namespace Eval

variable {α β : Type}

theorem fault?_error {x : Eval α} {s s' : Store} {fault : Fault} (h : x s = .error fault s') :
    x.fault? s = some fault := by
  rw [fault?, h]

/-- The second computation does what the first does, unless that exhausts its depth. -/
def Upto (x y : Eval α) : Prop := ∀ s, (∃ s', x s = .error .depth s') ∨ y s = x s

theorem Upto.refl (x : Eval α) : x.Upto x := fun _ => Or.inr rfl

theorem upto_depth (y : Eval α) : (throw .depth : Eval α).Upto y := fun s => Or.inl ⟨s, rfl⟩

theorem Upto.bind {x x' : Eval α} {f f' : α → Eval β} (hx : x.Upto x')
    (hf : ∀ a, (f a).Upto (f' a)) : (x >>= f).Upto (x' >>= f') := by
  intro s
  rcases hx s with ⟨s', hdepth⟩ | hsame
  · exact Or.inl ⟨s', bind_error hdepth⟩
  · cases hxs : x s with
    | ok a s' =>
      rw [bind_ok hxs, bind_ok (hsame.trans hxs)]
      exact hf a s'
    | error fault s' =>
      rw [bind_error hxs, bind_error (hsame.trans hxs)]
      exact Or.inr rfl

theorem text_upto {t t' : Except TextFault String} (h : Unless .tooDeep t t') :
    (text t).Upto (text t') := by
  rcases h with rfl | rfl
  · exact upto_depth _
  · exact .refl _

/-- A failure whose message shows a value. -/
theorem fail_text_upto (v : Value) {d d' : Nat} (h : d ≤ d') (e : String → LispError) :
    (do fail (e (← text (v.describe d))) : Eval α).Upto (do fail (e (← text (v.describe d')))) :=
  (text_upto (v.describe_upto h)).bind fun _ => .refl _

theorem upto_forM {f f' : α → Eval Unit} (h : ∀ a, (f a).Upto (f' a)) (xs : List α) :
    (xs.forM f).Upto (xs.forM f') := by
  induction xs with
  | nil => exact .refl _
  | cons a xs ih => exact (h a).bind fun _ => ih

end Eval

namespace Machine

open Eval

theorem within_upto {α : Type} {x y : Eval α} (h : x.Upto y) (name : String) :
    (within name x).Upto (within name y) := by
  intro s
  unfold within mapFault
  rcases h s with ⟨s', hdepth⟩ | hsame
  · rw [hdepth]
    exact Or.inl ⟨s', rfl⟩
  · rw [hsame]
    exact Or.inr rfl

theorem attempt_upto {α : Type} {r r' : Attempt α} (h : Unless .depth r r')
    (name : String) : (attempt name r).Upto (attempt name r') := by
  rcases h with rfl | rfl
  · exact upto_depth _
  · exact .refl _

theorem settle_upto {r r' : Attempt Answer} (h : Unless .depth r r') (name : String) :
    (settle name r).Upto (settle name r') := by
  rcases h with rfl | rfl
  · exact upto_depth _
  · exact .refl _

/-! ## Levels -/

/-- The second level does what the first does, unless that exhausts its depth. -/
structure Upto (m m' : Machine) : Prop where
  depth : m.depth ≤ m'.depth
  eval : ∀ e f, (m.eval e f).Upto (m'.eval e f)
  call : ∀ procedure args, (m.call procedure args).Upto (m'.call procedure args)

section Level

variable {m m' : Machine} (h : m.Upto m')
include h

theorem evalAll_upto (f : FrameId) (es : List Value) :
    (m.evalAll f es).Upto (m'.evalAll f es) := by
  induction es with
  | nil => exact .refl _
  | cons e es ih => exact (h.eval e f).bind fun _ => ih.bind fun _ => .refl _

theorem conditional_upto (operands : List Value) (f : FrameId) :
    (m.conditional operands f).Upto (m'.conditional operands f) := by
  match operands with
  | [] | [_] | [_, _] | _ :: _ :: _ :: _ :: _ => exact .refl _
  | [test, consequent, alternative] =>
    refine (h.eval test f).bind fun v => ?_
    split
    · exact h.eval alternative f
    · exact h.eval consequent f

theorem define_upto (operands : List Value) (f : FrameId) :
    (m.define operands f).Upto (m'.define operands f) := by
  match operands with
  | [] => exact .refl _
  | [_] | _ :: _ :: _ :: _ =>
    simp only [define]
    exact .refl _
  | [name, e] =>
    cases name with
    | symbol x => exact (h.eval e f).bind fun _ => .refl _
    | _ => exact fail_text_upto _ h.depth _

theorem lambda_upto (operands : List Value) (f : FrameId) :
    (m.lambda operands f).Upto (m'.lambda operands f) := by
  match operands with
  | [] | [_] | _ :: _ :: _ :: _ => exact .refl _
  | [params, body] =>
    simp only [lambda]
    cases parameters? params with
    | none => exact fail_text_upto params h.depth _
    | some names => exact .refl _

theorem combination_upto (head : Value) (operands : List Value) (f : FrameId) :
    (m.combination head operands f).Upto (m'.combination head operands f) := by
  unfold combination
  cases SpecialForm.ofHead? head with
  | some form =>
    cases form with
    | quote => exact .refl _
    | conditional => exact conditional_upto h operands f
    | define => exact define_upto h operands f
    | lambda => exact lambda_upto h operands f
  | none =>
    refine (h.eval head f).bind fun procedure => ?_
    exact (evalAll_upto h f operands).bind fun args => h.call procedure args

theorem evalStep_upto (e : Value) (f : FrameId) : (m.evalStep e f).Upto (m'.evalStep e f) := by
  match e with
  | .symbol x =>
    refine (Eval.Upto.refl get).bind fun s => ?_
    split
    · exact .refl _
    · exact (text_upto (Value.plain_upto _ h.depth)).bind fun _ => .refl _
  | .number _ | .list _ [] | .tuple _ [] => exact .refl _
  | .list _ (head :: operands) | .tuple _ (head :: operands) => exact combination_upto h head operands f
  | .bool _ | .unspecified | .primitive _ _ | .closure _ _ _ _ | .text _ | .nothing =>
    exact fail_text_upto _ h.depth _

/-! ### Calls -/

theorem callAll_upto (procedure : Value) (rows : List (List Value)) :
    (m.callAll procedure rows).Upto (m'.callAll procedure rows) := by
  induction rows with
  | nil => exact .refl _
  | cons args rows ih => exact (h.call procedure args).bind fun _ => ih.bind fun _ => .refl _

theorem callMap_upto (args : List Value) : (m.callMap args).Upto (m'.callMap args) := by
  match args with
  | [] | [_] => exact .refl _
  | procedure :: first :: others =>
    refine (attempt_upto (Argument.items_upto h.depth _ first) _).bind fun vs => ?_
    refine (attempt_upto (.mapM (Argument.items_upto h.depth _) others) _).bind fun vss => ?_
    exact (callAll_upto h procedure _).bind fun _ => .refl _

theorem callApply_upto (args : List Value) : (m.callApply args).Upto (m'.callApply args) := by
  match args with
  | [] | [_] | _ :: _ :: _ :: _ => exact .refl _
  | [procedure, list] =>
    exact (attempt_upto (Argument.items_upto h.depth _ list) _).bind fun args => h.call procedure args

theorem showBinding_upto (b : Value × Value) : (m.showBinding b).Upto (m'.showBinding b) :=
  (text_upto (Value.plain_upto _ h.depth)).bind fun _ =>
    (text_upto (Value.print_upto _ h.depth)).bind fun _ => .refl _

theorem showFrames_upto (level : Nat) (fs : List FrameId) :
    (m.showFrames level fs).Upto (m'.showFrames level fs) := by
  induction fs generalizing level with
  | nil => exact .refl _
  | cons f fs ih =>
    refine (Eval.Upto.refl _).bind fun _ => (Eval.Upto.refl get).bind fun s => ?_
    exact (upto_forM (showBinding_upto h) _).bind fun _ => ih (level + 1)

theorem callBuiltin_upto (b : Builtin) (args : List Value) :
    (m.callBuiltin b args).Upto (m'.callBuiltin b args) := by
  cases b with
  | operation op => exact settle_upto (Operation.call_upto h.depth op args) _
  | map => exact within_upto (callMap_upto h args) _
  | apply => exact within_upto (callApply_upto h args) _
  | showFrames f =>
    cases args with
    | nil =>
      refine within_upto ((Eval.Upto.refl get).bind fun s => ?_) _
      exact (showFrames_upto h 0 _).bind fun _ => .refl _
    | cons v args => exact .refl _
  | record =>
    match args with
    | [] | _ :: _ :: _ => exact .refl _
    | [v] =>
      refine within_upto ?_ _
      exact (text_upto (Value.print_upto v h.depth)).bind fun _ => .refl _

theorem callStep_upto (procedure : Value) (args : List Value) :
    (m.callStep procedure args).Upto (m'.callStep procedure args) := by
  cases procedure with
  | closure mark params body f =>
    exact (Eval.Upto.refl _).bind fun _ => (Eval.Upto.refl _).bind fun frame => h.eval body frame
  | primitive mark b => exact callBuiltin_upto h b args
  | _ => exact fail_text_upto _ h.depth _

end Level

/-- The induction is on the smaller depth: at depth 0 there is nothing but exhaustion. -/
theorem level_upto {d d' : Nat} (h : d ≤ d') : (level d).Upto (level d') := by
  induction d generalizing d' with
  | zero => exact ⟨h, fun _ _ => upto_depth _, fun _ _ => upto_depth _⟩
  | succ d ih =>
    obtain ⟨d', rfl⟩ := Nat.exists_eq_add_of_le' (Nat.le_trans (Nat.succ_pos d) h)
    have hbelow := ih (Nat.le_of_succ_le_succ h)
    exact ⟨h, evalStep_upto hbelow, callStep_upto hbelow⟩

end Machine

theorem evaluate_upto {d d' : Nat} (h : d ≤ d') (e : Value) (f : FrameId) :
    (evaluate d e f).Upto (evaluate d' e f) :=
  (Machine.level_upto h).eval e f

/-! ## Reading -/

namespace Reader

variable {limit limit' : Nat} (h : limit ≤ limit')
include h

theorem step_upto (pending : List (List Datum)) (token : String) :
    step limit pending token = .fail .tooDeep ∨
      step limit' pending token = step limit pending token := by
  by_cases hopen : token = Token.opening
  · subst hopen
    by_cases hlt : pending.length < limit
    · rw [step_open hlt, step_open (Nat.lt_of_lt_of_le hlt h)]
      exact Or.inr rfl
    · exact Or.inl (step_open_deep hlt)
  · refine Or.inr ?_
    unfold step
    rw [if_neg hopen, if_neg hopen]

theorem readMany_upto (pending : List (List Datum)) (done : List Datum) (ts : List String) :
    (readMany limit pending done ts).fault = some .tooDeep ∨
      readMany limit' pending done ts = readMany limit pending done ts := by
  induction ts generalizing pending done with
  | nil => exact Or.inr rfl
  | cons token ts ih =>
    simp only [readMany]
    rcases step_upto h pending token with hdeep | hsame
    · rw [hdeep]
      exact Or.inl rfl
    · rw [hsame]
      cases step limit pending token with
      | more pending' => exact ih pending' done
      | done d => exact ih [] (d :: done)
      | fail f => exact Or.inr rfl

end Reader

theorem parseAll_upto {limit limit' : Nat} (h : limit ≤ limit') (source : String) :
    (parseAll limit source).2 = some .tooDeep ∨ parseAll limit' source = parseAll limit source := by
  refine (Reader.readMany_upto h [] [] (tokenize source)).imp id fun hsame => ?_
  show (_, _) = _
  rw [show (TokenStream.ofTokens (tokenize source)).unread = tokenize source from rfl, hsame]
  rfl

/-! ## Programs -/

namespace Interpreter

/-- The limit is too small for a text: to read it, or to evaluate it. -/
def Exhausts (limit : Nat) (root : FrameId) (source : String) (s : Store) : Prop :=
  (eval limit root source).fault? s = some (.error (.unreadable .tooDeep)) ∨
    (eval limit root source).fault? s = some (.error .exhausted)

instance (limit : Nat) (root : FrameId) (source : String) (s : Store) :
    Decidable (Exhausts limit root source s) :=
  inferInstanceAs (Decidable (_ ∨ _))

variable {limit limit' : Nat} {root : FrameId} {s : Store}

theorem evalData_upto (h : limit ≤ limit') (last : Value) (data : List Datum) :
    (evalData limit root last data).Upto (evalData limit' root last data) := by
  induction data generalizing last with
  | nil => exact .refl _
  | cons d data ih =>
    exact (Eval.Upto.refl _).bind fun e => (evaluate_upto h e root).bind fun v => ih v

theorem reportExhaustion_upto {α : Type} {x y : Eval α} (h : x.Upto y) (source : String) :
    (∃ s', reportExhaustion source x s = .error (.error .exhausted) s') ∨
      reportExhaustion source y s = reportExhaustion source x s := by
  unfold reportExhaustion
  rcases h s with ⟨s', hdepth⟩ | hsame
  · rw [hdepth]
    exact Or.inl ⟨_, rfl⟩
  · rw [hsame]
    exact Or.inr rfl

/-- A greater limit makes no difference to a program that a limit is enough for: the same value or the
same fault, and the same store with all that was shown. -/
theorem eval_of_le (h : limit ≤ limit') (root : FrameId) (source : String) (s : Store)
    (henough : ¬ Exhausts limit root source s) :
    eval limit' root source s = eval limit root source s := by
  have hread := parseAll_upto h source
  cases hp : parseAll limit source with
  | mk data fault =>
    rw [hp] at hread
    cases fault with
    | some fault =>
      have hfails := eval_of_not_reads hp root s
      rcases hread with hdeep | hsame
      · cases hdeep
        exact absurd (Or.inl (Eval.fault?_error hfails)) henough
      · rw [hfails, eval_of_not_reads hsame]
    | none =>
      have hsame := hread.resolve_left nofun
      have hruns := eval_of_reads hp root
      rw [eval_of_reads hsame, hruns]
      refine (reportExhaustion_upto (evalData_upto h _ data) source).resolve_left ?_
      rintro ⟨s', hexhausted⟩
      rw [← hruns] at hexhausted
      exact henough (Or.inr (Eval.fault?_error hexhausted))

/-- A call of a list, whose description needs depth too: a limit of 6 is not enough, 7 is. -/
theorem eval_of_le_described_list :
    let s : Store := { Store.empty with frames := #[⟨[], none⟩] }
    let source := "(define x (quote (() (())))) ((lambda (y) (y)) x)"
    Exhausts 6 0 source s ∧ ¬ Exhausts 7 0 source s ∧
      eval standardLimit 0 source s = eval 7 0 source s ∧
      (eval 7 0 source).fault? s =
        some (.error (.type (.notProcedure "[[], [[]]]"))) := by
  intro s source
  have henough : ¬ Exhausts 7 0 source s := by decide +kernel
  exact ⟨by decide +kernel, henough, eval_of_le (by decide) 0 source s henough, by decide +kernel⟩

end Interpreter

end SmallLisp
