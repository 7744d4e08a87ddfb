import SmallLisp.Proofs.Faults

/-!
What a run shows.

`Task.Starts` says which evaluations and calls one level asks of the level below: those that
`Task.Passes` lists, and the calls that `map` and `apply` make.  `Task.Runs` is a chain of such steps,
so it leads to every evaluation and every call in a run.  The only builtin that shows anything is
`env?`: a run that calls it nowhere leaves the output as it was (`Task.quiet_of_not_showsFrames`,
`Interpreter.quiet_of_not_showsFrames`).
-/

namespace SmallLisp

/-! ## Quiet computations -/

/-- From `s`, nothing is shown. -/
def Eval.Quiet {α : Type} (x : Eval α) (s : Store) : Prop := (x.after s).output = s.output

namespace Eval

variable {α β : Type} {s : Store}

theorem quiet_pure (a : α) : (pure a : Eval α).Quiet s := rfl

theorem quiet_fail (e : LispError) : (fail e : Eval α).Quiet s := rfl

theorem Quiet.bind {x : Eval α} {f : α → Eval β} (hx : x.Quiet s)
    (hf : ∀ a s', x s = .ok a s' → (f a).Quiet s') : (x >>= f).Quiet s := by
  unfold Quiet at hx ⊢
  cases hxs : x s with
  | ok a s' =>
    rw [after_ok hxs] at hx
    rw [after_bind_ok hxs, hf a s' hxs, hx]
  | error e s' =>
    rw [after_error hxs] at hx
    rw [after_error (bind_error hxs), hx]

theorem Quiet.of_eq {x y : Eval α} {s' : Store} (hxy : x s = y s') (hy : y.Quiet s')
    (hs : s'.output = s.output) : x.Quiet s := by
  unfold Quiet Eval.after at hy ⊢
  rw [hxy, hy, hs]

theorem Quiet.mapFault {x : Eval α} (hx : x.Quiet s) (g : Fault → Fault) : (x.mapFault g).Quiet s := by
  rw [Quiet, after_mapFault]
  exact hx

theorem quiet_text (t : Except TextFault String) : (text t).Quiet s := by
  cases t <;> rfl

theorem quiet_fail_text (t : Except TextFault String) (e : String → LispError) :
    (do fail (e (← text t)) : Eval α).Quiet s :=
  (quiet_text t).bind fun _ _ _ => quiet_fail _

theorem quiet_lookup (depth : Nat) (f : FrameId) (x : String) :
    (lookup depth f (.symbol x)).Quiet s := by
  unfold Quiet Eval.after
  rw [Eval.lookup_symbol]
  cases s.lookup? f (.symbol x) <;> rfl

/-- One computation after another, each from the store that those before it leave. -/
theorem quiet_mapM {g : α → Eval β} {xs : List α}
    (h : ∀ before a after bs s₁, xs = before ++ a :: after → before.mapM g s = .ok bs s₁ →
      (g a).Quiet s₁) : (xs.mapM g).Quiet s := by
  induction xs generalizing s with
  | nil => exact quiet_pure []
  | cons a xs ih =>
    rw [List.mapM_cons]
    refine (h [] a xs [] s rfl rfl).bind fun b s₁ hb => ?_
    refine Quiet.bind (ih fun before a' after bs s₂ hsplit hbefore => ?_) fun _ _ _ => rfl
    refine h (a :: before) a' after (b :: bs) s₂ (by rw [hsplit]; rfl) ?_
    rw [List.mapM_cons, bind_ok hb, bind_ok hbefore]
    rfl

end Eval

namespace Machine

variable (m : Machine) {s : Store}

theorem evalAll_eq_mapM (f : FrameId) (es : List Value) :
    m.evalAll f es = es.mapM fun e => m.eval e f := by
  induction es with
  | nil => rfl
  | cons e es ih => rw [evalAll, ih, List.mapM_cons]

theorem callAll_eq_mapM (procedure : Value) (rows : List (List Value)) :
    m.callAll procedure rows = rows.mapM (m.call procedure) := by
  induction rows with
  | nil => rfl
  | cons args rows ih => rw [callAll, ih, List.mapM_cons]

/-- With lists as arguments, `map` calls the procedure for each row. -/
theorem callMap_eq {procedure first : Value} {others vs : List Value} {vss : List (List Value)}
    (hfirst : Argument.items m.depth "map" first = .ok vs)
    (hothers : others.mapM (Argument.items m.depth "map") = .ok vss) :
    m.callMap (procedure :: first :: others) =
      m.callAll procedure (rows vs vss) >>= Eval.makeList := by
  rw [callMap, hfirst, hothers]
  rfl

theorem callApply_eq {procedure list : Value} {args : List Value}
    (hargs : Argument.items m.depth "apply" list = .ok args) :
    m.callApply [procedure, list] = m.call procedure args := by
  rw [callApply, hargs]
  rfl

theorem quiet_attempt {α : Type} (name : String) (r : Attempt α) : (attempt name r).Quiet s := by
  cases r <;> rfl

theorem attempt_eq_ok {α : Type} {name : String} {r : Attempt α} {a : α} {s' : Store}
    (h : attempt name r s = .ok a s') : r = .ok a ∧ s' = s := by
  cases r with
  | ok b =>
    cases h
    exact ⟨rfl, rfl⟩
  | error refusal => cases h

theorem quiet_settle (name : String) (r : Attempt Answer) : (settle name r).Quiet s := by
  match r with
  | .ok (.value _) | .ok (.list _) | .ok (.tuple _) | .error _ => rfl

theorem quiet_quote (operands : List Value) : (quote operands).Quiet s := by
  unfold quote
  split <;> rfl

theorem quiet_lambda (operands : List Value) (f : FrameId) : (m.lambda operands f).Quiet s := by
  unfold lambda
  split
  · split
    · exact Eval.quiet_fail_text _ _
    · split <;> rfl
  · rfl

end Machine

/-! ## The tasks in a run -/

namespace Task

/-- One level above `d`, the first task starts the second. -/
inductive Starts (d : Nat) : Task → Store → Task → Store → Prop
  | passes {t t' : Task} {s s' : Store} : Passes d t s t' s' → Starts d t s t' s'
  | tuple {mark : Mark} {marks : List Mark} {items : List Value} {f : FrameId} {t : Task}
      {s s' : Store} : Passes d (.eval (.list mark items) f) s t s' →
      Starts d (.eval (.tuple marks items) f) s t s'
  | mapped {mark : Mark} {procedure first : Value} {others vs ws args : List Value}
      {vss before after : List (List Value)} {s s₁ : Store} :
      Argument.items d "map" first = .ok vs → others.mapM (Argument.items d "map") = .ok vss →
      Machine.rows vs vss = before ++ args :: after →
      (Machine.level d).callAll procedure before s = .ok ws s₁ →
      Starts d (.call (.primitive mark .map) (procedure :: first :: others)) s
        (.call procedure args) s₁
  | applied {mark : Mark} {procedure list : Value} {args : List Value} {s : Store} :
      Argument.items d "apply" list = .ok args →
      Starts d (.call (.primitive mark .apply) [procedure, list]) s (.call procedure args) s

/-- A task is a part of the run of another. -/
inductive Runs : Nat → Task → Store → Nat → Task → Store → Prop
  | refl {d : Nat} {t : Task} {s : Store} : Runs d t s d t s
  | step {d d' : Nat} {t t₁ t' : Task} {s s₁ s' : Store} : Starts d t s t₁ s₁ →
      Runs d t₁ s₁ d' t' s' → Runs (d + 1) t s d' t' s'

/-- The run calls `env?`. -/
def ShowsFrames (d : Nat) (t : Task) (s : Store) : Prop :=
  ∃ d' mark f args s', Runs d t s d' (.call (.primitive mark (.showFrames f)) args) s'

variable {d : Nat} {t t' : Task} {s s' : Store}

/-! ### Invariants along a run -/

/-- What a policy asks of a task. -/
def Keeps (p : Policy) (s : Store) : Task → Prop
  | .eval e f => p.Expr s e f
  | .call procedure args => p.Good s procedure ∧ ∀ v ∈ args, p.Good s v

theorem Passes.exists_items {e : Value} {f : FrameId} (h : Passes d (.eval e f) s t' s') :
    ∃ mark head operands, e = .list mark (head :: operands) := by
  cases h <;> exact ⟨_, _, _, rfl⟩

section Keeps

variable {p : Policy} (hp : p.Lawful) (hs : p.Holds s)
include hp hs

theorem Passes.keeps_of_combination {mark : Mark} {head : Value} {operands : List Value}
    {f : FrameId} (hparts : p.Combination s f head operands)
    (h : Passes d (.eval (.list mark (head :: operands)) f) s t' s') :
    p.Holds s' ∧ t'.Keeps p s' := by
  have hm := hp.sound_level d
  cases h with
  | test => exact ⟨hs, hparts.1⟩
  | @branch _ test consequent alternative v _ _ _ hv =>
    obtain ⟨htest, hthen, helse⟩ := hparts
    obtain ⟨hext, hs', -⟩ := (hp.evaluate d htest hs).of_ok hv
    refine ⟨hs', ?_⟩
    cases v.isFalse with
    | true => exact hp.expr_mono hext helse
    | false => exact hp.expr_mono hext hthen
  | definition => exact ⟨hs, hparts⟩
  | @part _ _ e _ before after _ _ _ _ hhead hsplit hbefore =>
    unfold Policy.Combination at hparts
    rw [hhead] at hparts
    have hall : ∀ e' ∈ before ++ e :: after, p.Expr s e' f := by
      rw [← hsplit]
      exact List.forall_mem_cons.2 hparts
    have hexprs : ∀ e' ∈ before, p.Expr s e' f := fun e' he' => hall e' (by simp [he'])
    obtain ⟨hext, hs', -⟩ := (hm.leads_evalAll hp hexprs hs).of_ok hbefore
    exact ⟨hs', hp.expr_mono hext (hall e (by simp))⟩
  | application hhead hvalues =>
    unfold Policy.Combination at hparts
    rw [hhead] at hparts
    have hexprs : ∀ e ∈ head :: operands, p.Expr s e f := List.forall_mem_cons.2 hparts
    obtain ⟨-, hs', hgood⟩ := (hm.leads_evalAll hp hexprs hs).of_ok hvalues
    exact ⟨hs', List.forall_mem_cons.1 hgood⟩

theorem Starts.keeps (ht : t.Keeps p s) (h : Starts d t s t' s') : p.Holds s' ∧ t'.Keeps p s' := by
  cases h with
  | passes h =>
    cases t with
    | eval e f =>
      obtain ⟨mark, head, operands, rfl⟩ := h.exists_items
      exact h.keeps_of_combination hp hs (hp.parts ht)
    | call procedure args =>
      cases h with
      | body hlen => exact ⟨hp.holds_entered hs ht.1 hlen ht.2, (hp.enter hs ht.1 hlen).2⟩
  | tuple h =>
    obtain ⟨mark, head, operands, heq⟩ := h.exists_items
    cases heq
    exact h.keeps_of_combination hp hs (hp.parts ht)
  | @mapped _ procedure first others vs ws args vss before after _ _ hfirst hothers hsplit hbefore =>
    have hvs : (Argument.items d "map" first).Gives fun vs => ∀ v ∈ vs, p.Good s v :=
      Argument.gives_items (ht.2 first (by simp))
    have hvss : (others.mapM (Argument.items d "map")).Gives fun vss =>
        ∀ vs ∈ vss, ∀ v ∈ vs, p.Good s v :=
      Attempt.gives_mapM fun list hlist => Argument.gives_items (ht.2 list (by simp [hlist]))
    rw [hfirst] at hvs
    rw [hothers] at hvss
    have hproc : p.Good s procedure := ht.2 procedure (by simp)
    have hrows := Policy.forall_rows hvs hvss
    rw [hsplit] at hrows
    have hbefores : ∀ row ∈ before, ∀ v ∈ row, p.Good s v := fun row hrow =>
      hrows row (by simp [hrow])
    obtain ⟨hext, hs', -⟩ := ((hp.sound_level d).leads_callAll hp hproc hbefores hs).of_ok hbefore
    refine ⟨hs', hp.good_mono hext hproc, fun v hv => hp.good_mono hext ?_⟩
    exact hrows args (by simp) v hv
  | @applied _ procedure list args _ hargs =>
    have hgood : (Argument.items d "apply" list).Gives fun vs => ∀ v ∈ vs, p.Good s v :=
      Argument.gives_items (ht.2 list (by simp))
    rw [hargs] at hgood
    exact ⟨hs, ht.2 procedure (by simp), hgood⟩

/-- Every task in a run keeps to a policy that the task at its start keeps to. -/
theorem Runs.keeps {d' : Nat} (ht : t.Keeps p s) (h : Runs d t s d' t' s') :
    p.Holds s' ∧ t'.Keeps p s' := by
  induction h with
  | refl => exact ⟨hs, ht⟩
  | step hstart _ ih =>
    obtain ⟨hs₁, ht₁⟩ := hstart.keeps hp hs ht
    exact ih hs₁ ht₁

end Keeps

/-! ### Tasks that show nothing -/

/-- What a task starts at the level `d` shows nothing. -/
def StartsQuiet (d : Nat) (t : Task) (s : Store) : Prop :=
  ∀ t' s', Starts d t s t' s' → (t'.run d).Quiet s'

variable {mark : Mark} {operands args : List Value} {f : FrameId}

/-- What a list of expressions passes on to the level `d` shows nothing. -/
def PassesQuiet (d : Nat) (mark : Mark) (items : List Value) (f : FrameId) (s : Store) : Prop :=
  ∀ t' s', Passes d (.eval (.list mark items) f) s t' s' → (t'.run d).Quiet s'

theorem PassesQuiet.conditional (h : PassesQuiet d mark (.symbol "if" :: operands) f s) :
    ((Machine.level d).conditional operands f).Quiet s := by
  match operands, h with
  | [], _ | [_], _ | [_, _], _ | _ :: _ :: _ :: _ :: _, _ => exact Eval.quiet_fail _
  | [test, consequent, alternative], h =>
    refine (h _ _ .test).bind fun v s₁ hv => ?_
    have hbranch := h _ _ (.branch hv)
    cases hfalse : v.isFalse with
    | true =>
      rw [hfalse] at hbranch
      exact hbranch
    | false =>
      rw [hfalse] at hbranch
      exact hbranch

theorem PassesQuiet.define (h : PassesQuiet d mark (.symbol "define" :: operands) f s) :
    ((Machine.level d).define operands f).Quiet s := by
  match operands, h with
  | [], _ => exact Eval.quiet_fail _
  | [_], _ | _ :: _ :: _ :: _, _ =>
    simp only [Machine.define]
    exact Eval.quiet_fail _
  | [name, e], h =>
    cases name with
    | symbol x => exact (h _ _ .definition).bind fun _ _ _ => rfl
    | _ => exact Eval.quiet_fail_text _ _

theorem PassesQuiet.application {head : Value} (hhead : SpecialForm.ofHead? head = none)
    (h : PassesQuiet d mark (head :: operands) f s) :
    ((Machine.level d).combination head operands f).Quiet s := by
  rw [Machine.combination_eq hhead]
  refine Eval.Quiet.bind ?_ fun vs s₁ hvs => ?_
  · rw [Machine.evalAll_eq_mapM]
    refine Eval.quiet_mapM fun before e after vs s₁ hsplit hbefore => ?_
    rw [← Machine.evalAll_eq_mapM] at hbefore
    exact h _ _ (.part hhead hsplit hbefore)
  · cases vs with
    | nil => exact Eval.quiet_pure _
    | cons procedure args => exact h _ _ (.application hhead hvs)

theorem PassesQuiet.combination {head : Value} (h : PassesQuiet d mark (head :: operands) f s) :
    ((Machine.level d).combination head operands f).Quiet s := by
  cases hhead : SpecialForm.ofHead? head with
  | none => exact h.application hhead
  | some form =>
    cases SpecialForm.ofHead?_eq_some hhead
    unfold Machine.combination
    rw [hhead]
    cases form with
    | quote => exact Machine.quiet_quote operands
    | conditional => exact h.conditional
    | define => exact h.define
    | lambda => exact (Machine.level d).quiet_lambda operands f

theorem StartsQuiet.eval {e : Value} (h : StartsQuiet d (.eval e f) s) :
    (evaluate (d + 1) e f).Quiet s := by
  match e, h with
  | .symbol x, _ => exact Eval.quiet_lookup d f x
  | .number _, _ => exact Eval.quiet_pure _
  | .list _ [], _ | .tuple _ [], _ => exact Eval.quiet_fail _
  | .list mark (head :: operands), h =>
    have hquiet : PassesQuiet d mark (head :: operands) f s := fun t' s' hpasses =>
      h t' s' (.passes hpasses)
    exact hquiet.combination
  | .tuple marks (head :: operands), h =>
    have hquiet : PassesQuiet d 0 (head :: operands) f s := fun t' s' hpasses =>
      h t' s' (.tuple hpasses)
    exact hquiet.combination
  | .bool _, _ | .unspecified, _ | .primitive _ _, _ | .closure _ _ _ _, _ | .text _, _
  | .nothing, _ => exact Eval.quiet_fail_text _ _

theorem StartsQuiet.callMap (h : StartsQuiet d (.call (.primitive mark .map) args) s) :
    ((Machine.level d).callMap args).Quiet s := by
  match args, h with
  | [], _ => exact Machine.quiet_attempt "map" (Attempt.misuse (Machine.mapSignature.wrongCount 0))
  | [_], _ => exact Eval.quiet_fail _
  | procedure :: first :: others, h =>
    refine (Machine.quiet_attempt _ _).bind fun vs s₁ hvs => ?_
    obtain ⟨hfirst, rfl⟩ := Machine.attempt_eq_ok hvs
    refine (Machine.quiet_attempt _ _).bind fun vss s₂ hvss => ?_
    obtain ⟨hothers, rfl⟩ := Machine.attempt_eq_ok hvss
    refine Eval.Quiet.bind ?_ fun _ _ _ => rfl
    rw [Machine.callAll_eq_mapM]
    refine Eval.quiet_mapM fun before args after ws s₁ hsplit hbefore => ?_
    rw [← Machine.callAll_eq_mapM] at hbefore
    exact h _ _ (.mapped hfirst hothers hsplit hbefore)

theorem StartsQuiet.callApply (h : StartsQuiet d (.call (.primitive mark .apply) args) s) :
    ((Machine.level d).callApply args).Quiet s := by
  unfold Machine.callApply
  split
  · next procedure list =>
    refine (Machine.quiet_attempt _ _).bind fun vs s₁ hvs => ?_
    obtain ⟨hlist, rfl⟩ := Machine.attempt_eq_ok hvs
    exact h _ _ (.applied hlist)
  · exact Machine.quiet_attempt _ _

/-- A call that is none of `env?`. -/
theorem StartsQuiet.call {procedure : Value}
    (hproc : ∀ mark f, procedure ≠ .primitive mark (.showFrames f))
    (h : StartsQuiet d (.call procedure args) s) :
    (SmallLisp.call (d + 1) procedure args).Quiet s := by
  show ((Machine.level d).callStep procedure args).Quiet s
  cases procedure with
  | closure mark params body f =>
    by_cases hlen : params.length = args.length
    · exact Eval.Quiet.of_eq (Machine.callStep_closure (Machine.level d) hlen mark body f s)
        (h _ _ (.passes (.body hlen))) rfl
    · rw [Eval.Quiet, Eval.after_error (Machine.callStep_closure_arity _ hlen mark body f s)]
      rfl
  | primitive mark b =>
    cases b with
    | operation op => exact Machine.quiet_settle _ _
    | map => exact h.callMap.mapFault _
    | apply => exact h.callApply.mapFault _
    | showFrames f => exact absurd rfl (hproc mark f)
    | record =>
      simp only [Machine.callStep, Machine.callBuiltin]
      split
      · refine Eval.Quiet.mapFault ?_ _
        exact (Eval.quiet_text _).bind fun _ _ _ => rfl
      · exact Machine.quiet_attempt _ _
  | _ => exact Eval.quiet_fail_text _ _

/-- A run shows something only if it calls `env?`. -/
theorem quiet_of_not_showsFrames (h : ¬ t.ShowsFrames d s) : (t.run d).Quiet s := by
  induction d generalizing t s with
  | zero => cases t <;> rfl
  | succ d ih =>
    have hstarts : StartsQuiet d t s := by
      intro t' s' hstart
      refine ih ?_
      rintro ⟨d', mark, f, args, s'', hruns⟩
      exact h ⟨d', mark, f, args, s'', .step hstart hruns⟩
    cases t with
    | eval e f => exact hstarts.eval
    | call procedure args =>
      refine hstarts.call fun mark f hproc => ?_
      subst hproc
      exact h ⟨_, mark, f, args, s, .refl⟩

end Task

/-! ## Stores without `env?` -/

/-- A procedure other than `env?`. -/
def Value.HidesFrames : Value → Prop
  | .primitive _ (.showFrames _) => False
  | _ => True

/-- No `env?` is held; faults are free. -/
def Policy.unshown : Policy where
  Expr _ e _ := e.Procedures Value.HidesFrames
  Proc _ v := v.HidesFrames
  Inv _ := True
  Allowed _ := True

theorem Policy.unshown_lawful : Policy.unshown.Lawful where
  expr_mono _ he := he
  proc_mono _ hv := hv
  inv_eq _ _ := trivial
  inv_insert _ := trivial
  ordinary _ := trivial
  parts he := parts_of_good (fun _ => trivial) (fun _ h => h) (fun _ h => h) (fun _ _ _ _ => trivial) he
  enter _ hc _ := ⟨trivial, hc.2⟩

theorem Task.not_showsFrames {d : Nat} {t : Task} {s : Store} (hs : Policy.unshown.Holds s)
    (ht : t.Keeps Policy.unshown s) : ¬ t.ShowsFrames d s := by
  rintro ⟨d', mark, f, args, s', hruns⟩
  exact (hruns.keeps Policy.unshown_lawful hs ht).2.1

/-! ## Program texts -/

namespace Interpreter

/-- The evaluation of data, one after another, calls `env?`. -/
def ShowsFrames (limit : Nat) (root : FrameId) (data : List Datum) (s : Store) : Prop :=
  ∃ before d after v s₁ e s₂, data = before ++ d :: after ∧
    evalData limit root .unspecified before s = .ok v s₁ ∧ Eval.intern d s₁ = .ok e s₂ ∧
    (Task.eval e root).ShowsFrames limit s₂

variable {limit : Nat} {root : FrameId} {data : List Datum} {s : Store}

/-- Where no `env?` is held, no program calls it. -/
theorem not_showsFrames (hs : Policy.unshown.Holds s) : ¬ ShowsFrames limit root data s := by
  have hp := Policy.unshown_lawful
  have hexpr : ∀ (d : Datum) (e : Value) (s' : Store), e.datum? = some d →
      Policy.unshown.Expr s' e root := fun _ _ _ he => Value.procedures_of_datum? he
  rintro ⟨before, d, after, v, s₁, e, s₂, -, hbefore, he, hshows⟩
  have hleads : Policy.unshown.Leads (evalData limit root .unspecified before) s
      Policy.unshown.Good := hp.leads_evalData limit trivial fun d _ e s' _ => hexpr d e s'
  obtain ⟨-, hs₁, -⟩ := (hleads hs).of_ok hbefore
  obtain ⟨-, hs₂, hd⟩ := (hp.leads_intern d hs₁).of_ok he
  exact Task.not_showsFrames (t := .eval e root) hs₂ (hexpr d e s₂ hd) hshows

theorem quiet_evalData {last : Value}
    (h : ∀ before d after v s₁ e s₂, data = before ++ d :: after →
      evalData limit root last before s = .ok v s₁ → Eval.intern d s₁ = .ok e s₂ →
      ¬ (Task.eval e root).ShowsFrames limit s₂) :
    (evalData limit root last data).Quiet s := by
  induction data generalizing s last with
  | nil => exact Eval.quiet_pure _
  | cons d data ih =>
    have hintern : (Eval.intern d).Quiet s := rfl
    refine hintern.bind fun e s₁ he => ?_
    have hquiet := Task.quiet_of_not_showsFrames (h [] d data last s e s₁ rfl rfl he)
    refine Eval.Quiet.bind hquiet fun v s₂ hv => ?_
    refine ih fun before d' after w s₃ e' s₄ hsplit hbefore he' => ?_
    refine h (d :: before) d' after w s₃ e' s₄ (by rw [hsplit]; rfl) ?_ he'
    simp only [evalData]
    rw [Eval.bind_ok he, Eval.bind_ok hv, hbefore]

theorem quiet_reportExhaustion {α : Type} {x : Eval α} (hx : x.Quiet s) (source : String) :
    (reportExhaustion source x).Quiet s := by
  unfold Eval.Quiet Eval.after at hx ⊢
  unfold reportExhaustion
  cases hxs : x s with
  | ok a s' =>
    rw [hxs] at hx
    exact hx
  | error fault s' =>
    rw [hxs] at hx
    cases fault <;> exact hx

/-- A program shows something only if it calls `env?`. -/
theorem quiet_of_not_showsFrames {source : String}
    (h : ¬ ShowsFrames limit root (parseAll limit source).1 s) :
    (eval limit root source).Quiet s := by
  unfold eval
  split
  · exact Eval.quiet_fail _
  · next data hread =>
    rw [hread] at h
    refine quiet_reportExhaustion (quiet_evalData ?_) source
    intro before d after v s₁ e s₂ hsplit hbefore he hshows
    exact h ⟨before, d, after, v, s₁, e, s₂, hsplit, hbefore, he, hshows⟩

end Interpreter

end SmallLisp
