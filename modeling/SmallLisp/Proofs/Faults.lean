import SmallLisp.Proofs.Composition
import SmallLisp.Proofs.Shape

/-!
Which faults leave the interpreter.

Exhausted depth is reported as an error, and inside a builtin so is an integer without a text.  What
is left is the description of an operator that is no procedure: the message of that error shows the
operator, and if an integer in it is too long, the message cannot be made.

`Task.Passes` says which parts of an evaluation or a call hand their fault on as it is: operands,
tests, branches, defined values, bodies of closures, but nothing that a builtin calls.  `Task.Comes` is
a chain of such steps.  A program ends in a fault that is no error of the language exactly if its run
comes to a call of a value without a description (`Interpreter.eval_fault_iff_unshown`).
-/

namespace SmallLisp

/-! ## Texts of data -/

namespace Value

mutual

/-- The numbers in a datum are floats, and those have texts. -/
theorem describe_of_datum? (depth : Nat) :
    ∀ {v : Value} {d : Datum}, v.datum? = some d → v.describe depth ≠ .error .integerTooLong
  | .number (.float (.float _)), _, _ => nofun
  | .symbol _, _, _ => nofun
  | .list _ items, _, h => by
    obtain ⟨ds, hds, -⟩ := Option.map_eq_some_iff.1 h
    cases depth with
    | zero => nofun
    | succ depth =>
      have hitems := describeAll_of_data? depth hds
      simp only [describe]
      cases hd : describeAll depth items with
      | ok texts => nofun
      | error fault =>
        rw [hd] at hitems
        rintro heq
        cases heq
        exact hitems rfl

theorem describeAll_of_data? (depth : Nat) :
    ∀ {vs : List Value} {ds : List Datum}, data? vs = some ds →
      describeAll depth vs ≠ .error .integerTooLong
  | [], _, _ => nofun
  | v :: vs, _, h => by
    obtain ⟨d, ds, hd, hds, -⟩ := data?_cons.1 h
    have hv := describe_of_datum? depth hd
    have hvs := describeAll_of_data? depth hds
    simp only [describeAll]
    cases hdv : describe depth v with
    | error fault =>
      rw [hdv] at hv
      rintro heq
      cases heq
      exact hv rfl
    | ok text =>
      cases hdvs : describeAll depth vs with
      | ok texts => nofun
      | error fault =>
        rw [hdvs] at hvs
        rintro heq
        cases heq
        exact hvs rfl

end

end Value

/-- The fault in which a computation ends, if it ends in one. -/
def Eval.fault? {α : Type} (x : Eval α) (s : Store) : Option Fault :=
  match x s with
  | .ok _ _ => none
  | .error fault _ => some fault

theorem Eval.exists_of_fault? {α : Type} {x : Eval α} {s : Store} {fault : Fault}
    (h : x.fault? s = some fault) : ∃ s', x s = .error fault s' := by
  unfold fault? at h
  split at h
  · cases h
  · next fault' s' hx =>
    cases h
    exact ⟨s', hx⟩

theorem Eval.text_eq_integerText {t : Except TextFault String} {s s' : Store}
    (h : Eval.text t s = .error .integerText s') : t = .error .integerTooLong ∧ s' = s := by
  match t, h with
  | .error .integerTooLong, h => exact ⟨rfl, by cases h; rfl⟩

/-- A message that shows a value with a description can be made. -/
theorem Eval.fail_text_ne_integerText {α : Type} {t : Except TextFault String}
    (ht : t ≠ .error .integerTooLong) (e : String → LispError) (s s' : Store) :
    (do Eval.fail (e (← Eval.text t)) : Eval α) s ≠ .error .integerText s' := by
  intro h
  rcases Eval.bind_eq_error h with h | ⟨text, s₁, -, h⟩
  · exact ht (Eval.text_eq_integerText h).1
  · cases h

/-! ## Builtins -/

namespace Machine

variable {α : Type} {s s' : Store}

theorem within_ne_integerText (name : String) (x : Eval α) :
    within name x s ≠ .error .integerText s' := by
  unfold within Eval.mapFault
  cases x s with
  | ok a s₁ => nofun
  | error fault s₁ => cases fault <;> nofun

theorem attempt_ne_integerText (name : String) (r : Attempt α) :
    attempt name r s ≠ .error .integerText s' := by
  match r with
  | .ok _ => nofun
  | .error (.error _) | .error (.misuse _) | .error (.noResult _) | .error .depth => nofun

theorem settle_ne_integerText (name : String) (r : Attempt Answer) :
    settle name r s ≠ .error .integerText s' := by
  match r with
  | .ok (.value _) | .ok (.list _) | .ok (.tuple _) => nofun
  | .error (.error _) | .error (.misuse _) | .error (.noResult _) | .error .depth => nofun

theorem callBuiltin_ne_integerText (m : Machine) (b : Builtin) (args : List Value) :
    m.callBuiltin b args s ≠ .error .integerText s' := by
  cases b with
  | operation op => exact settle_ne_integerText _ _
  | map => exact within_ne_integerText _ _
  | apply => exact within_ne_integerText _ _
  | showFrames f =>
    simp only [callBuiltin]
    split
    · exact within_ne_integerText _ _
    · exact attempt_ne_integerText _ _
  | record =>
    simp only [callBuiltin]
    split
    · exact within_ne_integerText _ _
    · exact attempt_ne_integerText _ _

/-! ## Combinations -/

variable {m : Machine} {f : FrameId}

theorem evalAll_append_error {before after : List Value} {e : Value} {vs : List Value} {s₁ : Store}
    {fault : Fault} (hbefore : m.evalAll f before s = .ok vs s₁)
    (he : m.eval e f s₁ = .error fault s') :
    m.evalAll f (before ++ e :: after) s = .error fault s' := by
  induction before generalizing s vs with
  | nil =>
    cases hbefore
    exact Eval.bind_error he
  | cons e' before ih =>
    simp only [evalAll] at hbefore
    cases he' : m.eval e' f s with
    | error fault' s₂ =>
      rw [Eval.bind_error he'] at hbefore
      cases hbefore
    | ok v s₂ =>
      rw [Eval.bind_ok he'] at hbefore
      cases hrest : m.evalAll f before s₂ with
      | error fault' s₃ =>
        rw [Eval.bind_error hrest] at hbefore
        cases hbefore
      | ok vs' s₃ =>
        rw [Eval.bind_ok hrest] at hbefore
        cases hbefore
        simp only [List.cons_append, evalAll]
        rw [Eval.bind_ok he', Eval.bind_error (ih hrest)]

/-- A fault in one of several expressions: those before it have values. -/
theorem exists_of_evalAll_error {es : List Value} {fault : Fault}
    (h : m.evalAll f es s = .error fault s') :
    ∃ before e after vs s₁, es = before ++ e :: after ∧ m.evalAll f before s = .ok vs s₁ ∧
      m.eval e f s₁ = .error fault s' := by
  induction es generalizing s with
  | nil => cases h
  | cons e es ih =>
    rcases Eval.bind_eq_error h with he | ⟨v, s₁, he, h⟩
    · exact ⟨[], e, es, [], s, rfl, rfl, he⟩
    · rcases Eval.bind_eq_error h with hes | ⟨vs, s₂, -, h⟩
      · obtain ⟨before, e', after, vs, s₂, rfl, hbefore, he'⟩ := ih hes
        refine ⟨e :: before, e', after, v :: vs, s₂, rfl, ?_, he'⟩
        simp only [evalAll]
        rw [Eval.bind_ok he, Eval.bind_ok hbefore]
        rfl
      · cases h

/-- Operator and operands are evaluated as one list of expressions. -/
theorem combination_eq {head : Value} (hhead : SpecialForm.ofHead? head = none)
    (operands : List Value) (f : FrameId) :
    m.combination head operands f = m.evalAll f (head :: operands) >>= fun vs =>
      match vs with
      | [] => pure .unspecified
      | procedure :: args => m.call procedure args := by
  unfold combination
  rw [hhead]
  simp only [evalAll, bind_assoc, pure_bind]

end Machine

/-- The name that announces a special form. -/
def SpecialForm.keyword : SpecialForm → String
  | .quote => "quote"
  | .conditional => "if"
  | .define => "define"
  | .lambda => "lambda"

theorem SpecialForm.ofHead?_eq_some {head : Value} {form : SpecialForm}
    (h : ofHead? head = some form) : head = .symbol form.keyword := by
  cases head with
  | symbol name =>
    simp only [ofHead?] at h
    unfold ofName? at h
    split at h <;> cases h <;> rfl
  | _ => cases h

/-! ## Faults that are handed on -/

/-- What a level of evaluation is asked to do. -/
inductive Task where
  | eval (e : Value) (f : FrameId)
  | call (procedure : Value) (args : List Value)

namespace Task

def run (d : Nat) : Task → Eval Value
  | .eval e f => evaluate d e f
  | .call procedure args => SmallLisp.call d procedure args

/-- One level above `d`, the first task comes to the second and hands its fault on. -/
inductive Passes (d : Nat) : Task → Store → Task → Store → Prop
  | test {mark : Mark} {test consequent alternative : Value} {f : FrameId} {s : Store} :
      Passes d (.eval (.list mark [.symbol "if", test, consequent, alternative]) f) s
        (.eval test f) s
  | branch {mark : Mark} {test consequent alternative v : Value} {f : FrameId} {s s₁ : Store} :
      evaluate d test f s = .ok v s₁ →
      Passes d (.eval (.list mark [.symbol "if", test, consequent, alternative]) f) s
        (.eval (if v.isFalse then alternative else consequent) f) s₁
  | definition {mark : Mark} {x : String} {e : Value} {f : FrameId} {s : Store} :
      Passes d (.eval (.list mark [.symbol "define", .symbol x, e]) f) s (.eval e f) s
  | part {mark : Mark} {head e : Value} {operands before after vs : List Value} {f : FrameId}
      {s s₁ : Store} : SpecialForm.ofHead? head = none → head :: operands = before ++ e :: after →
      (Machine.level d).evalAll f before s = .ok vs s₁ →
      Passes d (.eval (.list mark (head :: operands)) f) s (.eval e f) s₁
  | application {mark : Mark} {head procedure : Value} {operands args : List Value} {f : FrameId}
      {s s₁ : Store} : SpecialForm.ofHead? head = none →
      (Machine.level d).evalAll f (head :: operands) s = .ok (procedure :: args) s₁ →
      Passes d (.eval (.list mark (head :: operands)) f) s (.call procedure args) s₁
  | body {mark : Mark} {params : List String} {body : Value} {args : List Value} {f : FrameId}
      {s : Store} : params.length = args.length →
      Passes d (.call (.closure mark params body f) args) s (.eval body s.frames.size)
        (Machine.entered s params args f)

/-- A task comes to another, further down, and hands its fault on. -/
inductive Comes : Nat → Task → Store → Nat → Task → Store → Prop
  | refl {d : Nat} {t : Task} {s : Store} : Comes d t s d t s
  | step {d d' : Nat} {t t₁ t' : Task} {s s₁ s' : Store} : Passes d t s t₁ s₁ →
      Comes d t₁ s₁ d' t' s' → Comes (d + 1) t s d' t' s'

theorem Passes.error {d : Nat} {t t' : Task} {s s' s'' : Store} {fault : Fault}
    (h : Passes d t s t' s') (ht' : t'.run d s' = .error fault s'') :
    t.run (d + 1) s = .error fault s'' := by
  cases h with
  | test => exact Eval.bind_error ht'
  | @branch _ _ _ _ v _ _ _ hv =>
    refine (Eval.bind_ok hv).trans (Eq.trans ?_ ht')
    cases v.isFalse <;> rfl
  | definition => exact Eval.bind_error ht'
  | @part _ head _ operands _ _ _ f _ _ hhead hoperands hbefore =>
    show (Machine.level d).combination head operands f s = _
    rw [Machine.combination_eq hhead, hoperands]
    exact Eval.bind_error (Machine.evalAll_append_error hbefore ht')
  | @application _ head _ operands _ f _ _ hhead hall =>
    show (Machine.level d).combination head operands f s = _
    rw [Machine.combination_eq hhead]
    exact (Eval.bind_ok hall).trans ht'
  | @body mark _ _ _ _ _ hlen =>
    exact (Machine.callStep_closure (Machine.level d) hlen mark _ _ s).trans ht'

theorem Comes.error {d d' : Nat} {t t' : Task} {s s' s'' : Store} {fault : Fault}
    (h : Comes d t s d' t' s') (ht' : t'.run d' s' = .error fault s'') :
    t.run d s = .error fault s'' := by
  induction h with
  | refl => exact ht'
  | step hpasses _ ih => exact hpasses.error (ih ht')

/-! ## Where a fault comes from -/

/-- A task over data that were read, and over closures made of them. -/
def Sourced (s : Store) : Task → Prop
  | .eval e _ => e.Reads fun _ => True
  | .call procedure args => Policy.anyShape.Good s procedure ∧ ∀ v ∈ args, Policy.anyShape.Good s v

/-- A task comes to another one, which ends for want of the text of an integer. -/
def Hands (d : Nat) (t : Task) (s s' : Store) : Prop :=
  ∃ t' s₁, Passes d t s t' s₁ ∧ t'.Sourced s₁ ∧ Policy.anyShape.Holds s₁ ∧
    t'.run d s₁ = .error .integerText s'

variable {d : Nat} {s s' : Store} {mark : Mark} {f : FrameId} {operands : List Value}

theorem reads_of_data? {ds : List Datum} (h : Value.data? operands = some ds) :
    ∀ e ∈ operands, e.Reads fun _ => True := by
  intro e he
  obtain ⟨d, -, hd⟩ := Value.exists_of_mem_data? h he
  exact ⟨d, hd, trivial⟩

theorem hands_conditional (hs : Policy.anyShape.Holds s)
    (hreads : ∀ e ∈ operands, e.Reads fun _ => True)
    (h : (Machine.level d).conditional operands f s = .error .integerText s') :
    Hands d (.eval (.list mark (.symbol "if" :: operands)) f) s s' := by
  match operands, hreads, h with
  | [], _, h | [_], _, h | [_, _], _, h | _ :: _ :: _ :: _ :: _, _, h => cases h
  | [test, consequent, alternative], hreads, h =>
    have htest := hreads test (by simp)
    rcases Eval.bind_eq_error h with h | ⟨v, s₁, hv, h⟩
    · exact ⟨_, _, .test, htest, hs, h⟩
    · have hs₁ := ((Policy.anyShape_lawful.evaluate d (f := f) htest hs).of_ok hv).2.1
      refine ⟨_, _, .branch hv, ?_, hs₁, Eq.trans ?_ h⟩
      · cases v.isFalse with
        | true => exact hreads alternative (by simp)
        | false => exact hreads consequent (by simp)
      · cases v.isFalse <;> rfl

theorem hands_define (hs : Policy.anyShape.Holds s)
    (hreads : ∀ e ∈ operands, e.Reads fun _ => True)
    (h : (Machine.level d).define operands f s = .error .integerText s') :
    Hands d (.eval (.list mark (.symbol "define" :: operands)) f) s s' := by
  match operands, hreads, h with
  | [], _, h => cases h
  | [_], _, h | _ :: _ :: _ :: _, _, h =>
    simp only [Machine.define] at h
    cases h
  | [name, e], hreads, h =>
    obtain ⟨_, hname, -⟩ := hreads name (by simp)
    have hshown := Value.describe_of_datum? d hname
    cases name with
    | symbol x =>
      rcases Eval.bind_eq_error h with h | ⟨v, s₁, -, h⟩
      · exact ⟨_, _, .definition, hreads e (by simp), hs, h⟩
      · cases h
    | _ => exact absurd h (Eval.fail_text_ne_integerText hshown _ _ _)

theorem lambda_ne_integerText (hreads : ∀ e ∈ operands, e.Reads fun _ => True) :
    (Machine.level d).lambda operands f s ≠ .error .integerText s' := by
  match operands, hreads with
  | [], _ | [_], _ | _ :: _ :: _ :: _, _ =>
    intro h
    cases h
  | [params, body], hreads =>
    obtain ⟨_, hparams, -⟩ := hreads params (by simp)
    have hshown := Value.describe_of_datum? d hparams
    simp only [Machine.lambda]
    cases Machine.parameters? params with
    | none => exact Eval.fail_text_ne_integerText hshown _ _ _
    | some names =>
      dsimp only
      intro h
      split at h <;> cases h

theorem hands_combination {head : Value} (hhead : SpecialForm.ofHead? head = none)
    (hs : Policy.anyShape.Holds s) (hreads : ∀ e ∈ head :: operands, e.Reads fun _ => True)
    (h : (Machine.level d).combination head operands f s = .error .integerText s') :
    Hands d (.eval (.list mark (head :: operands)) f) s s' := by
  have hp := Policy.anyShape_lawful
  have hm := hp.sound_level d
  rw [Machine.combination_eq hhead] at h
  rcases Eval.bind_eq_error h with h | ⟨vs, s₁, hall, h⟩
  · obtain ⟨before, e, after, vs, s₁, hsplit, hbefore, he⟩ := Machine.exists_of_evalAll_error h
    have hsourced : ∀ e' ∈ before, e'.Reads fun _ => True := fun e' he' =>
      hreads e' (by rw [hsplit]; simp [he'])
    have hs₁ := (hm.leads_evalAll hp (f := f) hsourced hs).of_ok hbefore
    exact ⟨_, _, .part hhead hsplit hbefore, hreads e (by rw [hsplit]; simp), hs₁.2.1, he⟩
  · obtain ⟨-, hs₁, hgood⟩ := (hm.leads_evalAll hp (f := f) hreads hs).of_ok hall
    cases vs with
    | nil => cases h
    | cons procedure args =>
      refine ⟨_, _, .application hhead hall, ⟨hgood procedure (by simp), ?_⟩, hs₁, h⟩
      exact fun v hv => hgood v (by simp [hv])

theorem hands_of_eval {e : Value} (hs : Policy.anyShape.Holds s) (he : e.Reads fun _ => True)
    (h : evaluate (d + 1) e f s = .error .integerText s') : Hands d (.eval e f) s s' := by
  obtain ⟨datum, hd, -⟩ := he
  cases datum with
  | number x =>
    cases Value.datum?_eq_number hd
    cases h
  | symbol x =>
    cases Value.datum?_eq_symbol hd
    change Eval.lookup d f (.symbol x) s = _ at h
    rw [Eval.lookup_symbol] at h
    split at h <;> cases h
  | list ds =>
    obtain ⟨mark, items, rfl, hitems⟩ := Value.datum?_eq_list hd
    cases items with
    | nil => cases h
    | cons head operands =>
      have hreads := reads_of_data? hitems
      have hops : ∀ e ∈ operands, e.Reads fun _ => True := fun e he => hreads e (by simp [he])
      change (Machine.level d).combination head operands f s = _ at h
      cases hhead : SpecialForm.ofHead? head with
      | none => exact hands_combination hhead hs hreads h
      | some form =>
        unfold Machine.combination at h
        rw [hhead] at h
        cases SpecialForm.ofHead?_eq_some hhead
        cases form with
        | quote =>
          simp only [Machine.form, Machine.quote] at h
          split at h <;> cases h
        | conditional => exact hands_conditional hs hops h
        | define => exact hands_define hs hops h
        | lambda => exact absurd h (lambda_ne_integerText hops)

theorem hands_of_call {procedure : Value} {args : List Value} (hs : Policy.anyShape.Holds s)
    (hproc : Policy.anyShape.Good s procedure) (hargs : ∀ v ∈ args, Policy.anyShape.Good s v)
    (h : SmallLisp.call (d + 1) procedure args s = .error .integerText s') :
    (procedure.describe d = .error .integerTooLong ∧ s' = s) ∨
      Hands d (.call procedure args) s s' := by
  have hp := Policy.anyShape_lawful
  cases procedure with
  | closure mark params body f =>
    by_cases hlen : params.length = args.length
    · have hbody := Machine.callStep_closure (Machine.level d) hlen mark body f s
      exact Or.inr ⟨_, _, .body hlen, hproc.1, hp.holds_entered hs hproc hlen hargs,
        hbody.symm.trans h⟩
    · cases (Machine.callStep_closure_arity (Machine.level d) hlen mark body f s).symm.trans h
  | primitive mark b => exact absurd h ((Machine.level d).callBuiltin_ne_integerText b args)
  | _ =>
    rcases Eval.bind_eq_error h with h | ⟨text, s₁, -, h⟩
    · exact Or.inl (Eval.text_eq_integerText h)
    · cases h

/-- A task over data ends for want of the text of an integer only if it comes to the call of a value
that has no description for such an integer. -/
theorem comes_of_integerText {t : Task} (hs : Policy.anyShape.Holds s) (ht : t.Sourced s)
    (h : t.run d s = .error .integerText s') :
    ∃ d' procedure args, Comes d t s (d' + 1) (.call procedure args) s' ∧
      procedure.describe d' = .error .integerTooLong := by
  induction d generalizing t s with
  | zero => cases t <;> cases h
  | succ d ih =>
    have hstep : (∃ procedure args, t = .call procedure args ∧
        procedure.describe d = .error .integerTooLong ∧ s' = s) ∨ Hands d t s s' := by
      cases t with
      | eval e f => exact Or.inr (hands_of_eval hs ht h)
      | call procedure args =>
        rcases hands_of_call hs ht.1 ht.2 h with h | h
        · exact Or.inl ⟨procedure, args, rfl, h⟩
        · exact Or.inr h
    rcases hstep with ⟨procedure, args, rfl, hshown, rfl⟩ | ⟨t', s₁, hpasses, ht', hs₁, h'⟩
    · exact ⟨d, procedure, args, .refl, hshown⟩
    · obtain ⟨d', procedure, args, hcomes, hshown⟩ := ih hs₁ ht' h'
      exact ⟨d', procedure, args, .step hpasses hcomes, hshown⟩

theorem run_of_comes {t : Task} {d' : Nat} {procedure : Value} {args : List Value}
    (h : Comes d t s (d' + 1) (.call procedure args) s')
    (hshown : procedure.describe d' = .error .integerTooLong) :
    t.run d s = .error .integerText s' := by
  refine h.error ?_
  cases procedure with
  | closure mark params body f => cases hshown
  | primitive mark b => cases hshown
  | _ =>
    refine Eval.bind_error ?_
    show Eval.text _ s' = _
    rw [hshown]
    rfl

end Task

/-! ## Program texts -/

namespace Interpreter

variable {limit : Nat} {root : FrameId} {data : List Datum} {s s' : Store}

/-- A fault in one of several data: those before it have values. -/
theorem evalData_eq_error_iff {last : Value} {fault : Fault} :
    evalData limit root last data s = .error fault s' ↔
      ∃ before d after v s₁ e s₂, data = before ++ d :: after ∧
        evalData limit root last before s = .ok v s₁ ∧ Eval.intern d s₁ = .ok e s₂ ∧
        evaluate limit e root s₂ = .error fault s' := by
  constructor
  · intro h
    induction data generalizing s last with
    | nil => cases h
    | cons d data ih =>
      rcases Eval.bind_eq_error h with h | ⟨e, s₁, he, h⟩
      · cases h
      · rcases Eval.bind_eq_error h with hv | ⟨v, s₂, hv, h⟩
        · exact ⟨[], d, data, last, s, e, s₁, rfl, rfl, he, hv⟩
        · obtain ⟨before, d', after, w, s₃, e', s₄, rfl, hbefore, he', hfault⟩ := ih h
          refine ⟨d :: before, d', after, w, s₃, e', s₄, rfl, ?_, he', hfault⟩
          simp only [evalData]
          rw [Eval.bind_ok he, Eval.bind_ok hv, hbefore]
  · rintro ⟨before, d, after, v, s₁, e, s₂, rfl, hbefore, he, hfault⟩
    rw [evalData_append, Eval.bind_ok hbefore]
    simp only [evalData]
    rw [Eval.bind_ok he, Eval.bind_error hfault]

/-- Evaluation of data comes to the call of a value that has no description, for an integer in it. -/
def CallsUnshown (limit : Nat) (root : FrameId) (data : List Datum) (s s' : Store) : Prop :=
  ∃ before d after v s₁ e s₂ depth procedure args, data = before ++ d :: after ∧
    evalData limit root .unspecified before s = .ok v s₁ ∧ Eval.intern d s₁ = .ok e s₂ ∧
    Task.Comes limit (.eval e root) s₂ (depth + 1) (.call procedure args) s' ∧
    procedure.describe depth = .error .integerTooLong

theorem evalData_integerText_iff (hs : Policy.anyShape.Holds s) :
    evalData limit root .unspecified data s = .error .integerText s' ↔
      CallsUnshown limit root data s s' := by
  have hp := Policy.anyShape_lawful
  rw [evalData_eq_error_iff]
  constructor
  · rintro ⟨before, d, after, v, s₁, e, s₂, hdata, hbefore, he, hfault⟩
    have hlead : Policy.anyShape.Leads (evalData limit root .unspecified before) s
        Policy.anyShape.Good :=
      hp.leads_evalData limit trivial fun d _ e _ _ he => ⟨d, he, trivial⟩
    obtain ⟨-, hs₁, -⟩ := (hlead hs).of_ok hbefore
    obtain ⟨-, hs₂, hdatum⟩ := (hp.leads_intern d hs₁).of_ok he
    obtain ⟨depth, procedure, args, hcomes, hshown⟩ :=
      Task.comes_of_integerText (t := .eval e root) hs₂ ⟨d, hdatum, trivial⟩ hfault
    exact ⟨before, d, after, v, s₁, e, s₂, depth, procedure, args, hdata, hbefore, he, hcomes,
      hshown⟩
  · rintro ⟨before, d, after, v, s₁, e, s₂, depth, procedure, args, hdata, hbefore, he, hcomes,
      hshown⟩
    exact ⟨before, d, after, v, s₁, e, s₂, hdata, hbefore, he, Task.run_of_comes hcomes hshown⟩

theorem reportExhaustion_ne_depth {α : Type} (source : String) (x : Eval α) (s s' : Store) :
    reportExhaustion source x s ≠ .error .depth s' := by
  unfold reportExhaustion
  cases x s with
  | ok a s₁ => nofun
  | error fault s₁ => cases fault <;> nofun

theorem reportExhaustion_integerText_iff {α : Type} (source : String) (x : Eval α) :
    reportExhaustion source x s = .error .integerText s' ↔ x s = .error .integerText s' := by
  unfold reportExhaustion
  cases x s with
  | ok a s₁ => simp
  | error fault s₁ => cases fault <;> simp

theorem eval_ne_depth (source : String) : eval limit root source s ≠ .error .depth s' := by
  cases hread : parseAll limit source with
  | mk data fault =>
    cases fault with
    | some fault =>
      rw [eval_of_not_reads hread]
      nofun
    | none =>
      rw [eval_of_reads hread]
      exact reportExhaustion_ne_depth _ _ _ _

theorem eval_integerText_iff (source : String) (hs : Policy.anyShape.Holds s) :
    eval limit root source s = .error .integerText s' ↔
      (parseAll limit source).2 = none ∧
        CallsUnshown limit root (parseAll limit source).1 s s' := by
  cases hread : parseAll limit source with
  | mk data fault =>
    cases fault with
    | some fault =>
      rw [eval_of_not_reads hread]
      simp
    | none =>
      rw [eval_of_reads hread, reportExhaustion_integerText_iff, evalData_integerText_iff hs]
      simp

/-- A program that a fresh interpreter is given, at any time, fails with an error of the language or
for want of the text of an integer.  The second happens exactly if the program reads and its run comes
to a call of a value that is no procedure and that cannot be described, an integer in it being too
long: as an operator, and not as what a builtin calls. -/
theorem eval_fault_iff_unshown (notices : Array Notice) {root : FrameId} {s₀ s : Store}
    (hfresh : CommandLine.fresh notices = (root, s₀)) (hs : Reaches root s₀ s) (limit : Nat)
    (source : String) :
    (∀ fault s', eval limit root source s = .error fault s' →
      (∃ e, fault = .error e) ∨ fault = .integerText) ∧
    ∀ s', eval limit root source s = .error .integerText s' ↔
      (parseAll limit source).2 = none ∧
        CallsUnshown limit root (parseAll limit source).1 s s' := by
  constructor
  · intro fault s' h
    cases fault with
    | error e => exact Or.inl ⟨e, rfl⟩
    | integerText => exact Or.inr rfl
    | depth => exact absurd h (eval_ne_depth source)
  · intro s'
    exact eval_integerText_iff source (hs.holds_anyShape hfresh)

/-- The operator of `((factorial 2000))` is such a value. -/
theorem eval_fault_iff_unshown_factorial :
    ∃ s₀ s', CommandLine.fresh #[] = (0, s₀) ∧ Reaches 0 s₀ s₀ ∧
      eval 40 0 "((factorial 2000))" s₀ = .error .integerText s' ∧
      CallsUnshown 40 0 (parseAll 40 "((factorial 2000))").1 s₀ s' := by
  have hfault : (eval 40 0 "((factorial 2000))").fault? (CommandLine.fresh #[]).2 =
      some .integerText := by decide +kernel
  obtain ⟨s', heval⟩ := Eval.exists_of_fault? hfault
  have hfresh := CommandLine.fresh_eq #[]
  have hroot : CommandLine.fresh #[] = (0, (CommandLine.fresh #[]).2) := by rw [hfresh]
  obtain ⟨-, hiff⟩ := eval_fault_iff_unshown #[] hroot .refl 40 "((factorial 2000))"
  exact ⟨_, s', hroot, .refl, heval, ((hiff s').1 heval).2⟩

/-- A long integer as an operator leaves the interpreter with a fault that is no error of the
language, though the same call through `apply` is one. -/
theorem eval_not_error_long_operator :
    let s₀ := (CommandLine.fresh #[]).2
    (∃ s', eval standardLimit 0 "((factorial 2000))" s₀ = .error .integerText s') ∧
      ∃ s', eval standardLimit 0 "(apply (factorial 2000) (list))" s₀ =
        .error (.error (.noResult "apply" .integerTextTooLong)) s' := by
  intro s₀
  have hoperator : (eval standardLimit 0 "((factorial 2000))").fault? s₀ = some .integerText := by
    decide +kernel
  have happly : (eval standardLimit 0 "(apply (factorial 2000) (list))").fault? s₀ =
      some (.error (.noResult "apply" .integerTextTooLong)) := by
    decide +kernel
  exact ⟨Eval.exists_of_fault? hoperator, Eval.exists_of_fault? happly⟩

end Interpreter

end SmallLisp
