import SmallLisp.Proofs.Nesting
import SmallLisp.Proofs.Registry

/-!
Objects that are identical hold the same.

Whatever a run does, a registry can be kept up with it so that all that is evaluated, passed, bound
and returned on the way is recorded in the one at its end (`Registry.sound`).  The induction is on the
depth: what a task meets is its own, or is met by a task that it starts.

Reading enters the lists of a text, and nothing is entered for the standard names.  So one registry
records all values of a course of texts from a fresh store:

    Arises root ps s₀ v → r.Records v                                    (Interpreter.exists_records)
-/

namespace SmallLisp

/-! ## What a run meets -/

namespace Task

variable {d : Nat} {t t' : Task} {s s' : Store} {v : Value}

/-- The values that a task is about. -/
def values : Task → List Value
  | .eval e _ => [e]
  | .call procedure args => procedure :: args

/-- A part of the run is about a value, finds it bound or gives it. -/
def Meets (d : Nat) (t : Task) (s : Store) (v : Value) : Prop :=
  ∃ d' t' s', Runs d t s d' t' s' ∧
    (v ∈ t'.values ∨ s'.Contains v ∨ ∃ s'', t'.run d' s' = .ok v s'')

/-- A value is met by what a task starts. -/
def MeetsBelow (d : Nat) (t : Task) (s : Store) (v : Value) : Prop :=
  ∃ t' s', Starts d t s t' s' ∧ t'.Meets d s' v

/-- A value is met by what a list of expressions passes on to. -/
def MeetsIn (d : Nat) (items : List Value) (f : FrameId) (s : Store) (v : Value) : Prop :=
  ∃ mark t' s', Passes d (.eval (.list mark items) f) s t' s' ∧ t'.Meets d s' v

/-- What a special form passes on to. -/
theorem Passes.of_form {mark : Mark} {head : Value} {operands : List Value} {f : FrameId}
    {form : SpecialForm} (hform : SpecialForm.ofHead? head = some form)
    (h : Passes d (.eval (.list mark (head :: operands)) f) s t' s') :
    (∃ test consequent alternative, form = .conditional ∧
      operands = [test, consequent, alternative] ∧
      (t' = .eval test f ∧ s' = s ∨ ∃ v, evaluate d test f s = .ok v s' ∧
        t' = .eval (if v.isFalse then alternative else consequent) f)) ∨
    ∃ x e, form = .define ∧ operands = [.symbol x, e] ∧ t' = .eval e f ∧ s' = s := by
  cases h with
  | @test _ test consequent alternative =>
    cases hform
    exact Or.inl ⟨test, consequent, alternative, rfl, rfl, Or.inl ⟨rfl, rfl⟩⟩
  | @branch _ test consequent alternative v _ _ _ hv =>
    cases hform
    exact Or.inl ⟨test, consequent, alternative, rfl, rfl, Or.inr ⟨v, hv, rfl⟩⟩
  | @definition _ x e =>
    cases hform
    exact Or.inr ⟨x, e, rfl, rfl, rfl, rfl⟩
  | part hhead =>
    rw [hhead] at hform
    cases hform
  | application hhead =>
    rw [hhead] at hform
    cases hform

end Task

namespace Registry

open SmallLisp.Task (Meets MeetsBelow MeetsIn)

variable {r : Registry} {s s' : Store} {d : Nat} {t : Task} {f : FrameId} {operands args : List Value}

/-- A registry can be kept up with all tasks at the level `d`, and has all that they meet. -/
def Sound (d : Nat) : Prop :=
  ∀ {t : Task} {s : Store} {r : Registry}, (∀ v ∈ t.values, r.Records v) →
    r.Leads (t.run d) s (t.Meets d s) Records

/-- What a task itself meets is recorded where what it starts is. -/
theorem Leads.meets (ht : ∀ v ∈ t.values, r.Records v)
    (h : r.Leads (t.run d) s (fun v => ∃ d₁, d = d₁ + 1 ∧ t.MeetsBelow d₁ s v) Records) :
    r.Leads (t.run d) s (t.Meets d s) Records := by
  intro hr
  obtain ⟨r', hgrows, hr', hbelow, hresult⟩ := h hr
  refine ⟨r', hgrows, hr', ?_, hresult⟩
  rintro v ⟨d', t', s', hruns, hv⟩
  cases hruns with
  | refl =>
    rcases hv with hv | hv | ⟨s'', hv⟩
    · exact (ht v hv).mono hgrows
    · exact (hr.bound v hv).mono hgrows
    · exact hresult v s'' hv
  | step hstart hruns => exact hbelow v ⟨_, rfl, _, _, hstart, d', t', s', hruns, hv⟩

theorem Sound.eval (hd : Sound d) {e : Value} (he : r.Records e) :
    r.Leads (evaluate d e f) s ((Task.eval e f).Meets d s) Records :=
  hd (t := .eval e f) (List.forall_mem_singleton.2 he)

theorem Sound.call (hd : Sound d) {procedure : Value} (hp : r.Records procedure)
    (hargs : ∀ v ∈ args, r.Records v) :
    r.Leads (SmallLisp.call d procedure args) s ((Task.call procedure args).Meets d s) Records :=
  hd (t := .call procedure args) (List.forall_mem_cons.2 ⟨hp, hargs⟩)

/-! ### Combinations -/

theorem leads_quote (h : ∀ e ∈ operands, r.Records e) :
    r.Leads (Machine.quote operands) s (fun _ => False) Records := by
  match operands, h with
  | [], _ | _ :: _ :: _, _ => exact leads_fail _
  | [v], h => exact leads_pure (h v (by simp))

theorem leads_lambda (m : Machine) (h : ∀ e ∈ operands, r.Records e) :
    r.Leads (m.lambda operands f) s (fun _ => False) Records := by
  unfold Machine.lambda
  split
  · next params body =>
    split
    · exact leads_fail_text _ _
    · split
      · exact leads_freshMark fun _ => h body (by simp)
      · exact leads_fail _
  · exact leads_fail _

theorem Sound.conditional (hd : Sound d) {head : Value}
    (hform : SpecialForm.ofHead? head = some .conditional) (h : ∀ e ∈ operands, r.Records e) :
    r.Leads ((Machine.level d).conditional operands f) s (MeetsIn d (head :: operands) f s)
      Records := by
  have hother : (∀ test consequent alternative, operands ≠ [test, consequent, alternative]) →
      ∀ v, MeetsIn d (head :: operands) f s v → False := by
    rintro hne v ⟨mark, t', s', hpasses, -⟩
    rcases hpasses.of_form hform with ⟨test, consequent, alternative, -, heq, -⟩ | ⟨_, _, heq, -⟩
    · exact hne test consequent alternative heq
    · cases heq
  match operands, h with
  | [], _ | [_], _ | [_, _], _ | _ :: _ :: _ :: _ :: _, _ =>
    exact (leads_fail _).mono (hother (by simp))
  | [test, consequent, alternative], h =>
    let branch (v : Value) : Value := if v.isFalse then alternative else consequent
    have htest : r.Leads (evaluate d test f) s _ Records := hd.eval (h test (by simp))
    refine (htest.bind (T := fun v s' => (Task.eval (branch v) f).Meets d s') ?_).mono ?_
    · intro r' v s' hgrows _ _
      show r'.Leads (if v.isFalse then evaluate d alternative f else evaluate d consequent f) s'
        ((Task.eval (if v.isFalse then alternative else consequent) f).Meets d s') Records
      split
      · exact hd.eval ((h alternative (by simp)).mono hgrows)
      · exact hd.eval ((h consequent (by simp)).mono hgrows)
    · rintro v ⟨mark, t', s', hpasses, hv⟩
      rcases hpasses.of_form hform with ⟨_, _, _, -, heq, hcases⟩ | ⟨_, _, heq, -⟩
      · cases heq
        rcases hcases with ⟨rfl, rfl⟩ | ⟨w, hw, rfl⟩
        · exact Or.inl hv
        · exact Or.inr ⟨w, s', hw, hv⟩
      · cases heq

theorem Sound.define (hd : Sound d) {head : Value}
    (hform : SpecialForm.ofHead? head = some .define) (h : ∀ e ∈ operands, r.Records e) :
    r.Leads ((Machine.level d).define operands f) s (MeetsIn d (head :: operands) f s) Records := by
  have hother : (∀ x e, operands ≠ [.symbol x, e]) →
      ∀ v, MeetsIn d (head :: operands) f s v → False := by
    rintro hne v ⟨mark, t', s', hpasses, -⟩
    rcases hpasses.of_form hform with ⟨_, _, _, heq, -⟩ | ⟨x, e, -, heq, -⟩
    · cases heq
    · exact hne x e heq
  unfold Machine.define
  split
  · next x e =>
    have he : r.Leads (evaluate d e f) s _ Records := hd.eval (h e (by simp))
    refine (he.bind (T := fun _ _ _ => False) ?_).mono ?_
    · intro r' v s' _ _ hv
      exact (leads_insert f x hv).bind_pure fun _ _ => trivial
    · rintro v ⟨mark, t', s', hpasses, hv⟩
      rcases hpasses.of_form hform with ⟨_, _, _, heq, -⟩ | ⟨_, _, -, heq, rfl, rfl⟩
      · cases heq
      · cases heq
        exact Or.inl hv
  · next v e hne =>
    refine (leads_fail_text _ _).mono (hother ?_)
    rintro x e' heq
    cases heq
    exact hne x rfl
  · next hne => exact (leads_fail _).mono (hother fun x e heq => hne _ _ heq)

theorem Sound.application (hd : Sound d) {head : Value}
    (hhead : SpecialForm.ofHead? head = none) (h : ∀ e ∈ head :: operands, r.Records e) :
    r.Leads ((Machine.level d).combination head operands f) s (MeetsIn d (head :: operands) f s)
      Records := by
  rw [Machine.combination_eq hhead, Machine.evalAll_eq_mapM]
  have hparts : r.Leads ((head :: operands).mapM fun e => evaluate d e f) s _ _ :=
    leads_mapM (fun hgrows hv => hv.mono hgrows)
      fun e he _ _ hgrows => hd.eval (f := f) ((h e he).mono hgrows)
  refine (hparts.bind (T := fun vs s' v => ∃ procedure args, vs = procedure :: args ∧
    (Task.call procedure args).Meets d s' v) ?_).mono ?_
  · intro r' vs s' _ _ hvs
    cases vs with
    | nil =>
      refine (leads_pure trivial).mono ?_
      rintro v ⟨procedure, args, heq, -⟩
      cases heq
    | cons procedure args =>
      obtain ⟨hprocedure, hargs⟩ := List.forall_mem_cons.1 hvs
      refine (hd.call hprocedure hargs).mono ?_
      rintro v ⟨_, _, heq, hv⟩
      cases heq
      exact hv
  · rintro v ⟨mark, t', s', hpasses, hv⟩
    cases hpasses with
    | test => cases hhead
    | branch => cases hhead
    | definition => cases hhead
    | part _ hsplit hbefore =>
      rw [Machine.evalAll_eq_mapM] at hbefore
      exact Or.inl ⟨_, _, _, _, s', hsplit, hbefore, hv⟩
    | application _ hall =>
      rw [Machine.evalAll_eq_mapM] at hall
      exact Or.inr ⟨_, s', hall, _, _, rfl, hv⟩

theorem Sound.combination (hd : Sound d) {head : Value} (h : ∀ e ∈ head :: operands, r.Records e) :
    r.Leads ((Machine.level d).combination head operands f) s (MeetsIn d (head :: operands) f s)
      Records := by
  cases hform : SpecialForm.ofHead? head with
  | none => exact hd.application hform h
  | some form =>
    have hoperands := (List.forall_mem_cons.1 h).2
    have hleaf : form ≠ .conditional → form ≠ .define →
        ∀ v, MeetsIn d (head :: operands) f s v → False := by
      rintro hconditional hdefine v ⟨mark, t', s', hpasses, -⟩
      rcases hpasses.of_form hform with ⟨_, _, _, heq, -⟩ | ⟨_, _, heq, -⟩
      · exact hconditional heq
      · exact hdefine heq
    unfold Machine.combination
    rw [hform]
    cases form with
    | quote => exact (leads_quote hoperands).mono (hleaf (by simp) (by simp))
    | conditional => exact hd.conditional hform hoperands
    | define => exact hd.define hform hoperands
    | lambda => exact (leads_lambda _ hoperands).mono (hleaf (by simp) (by simp))

/-- A list or a tuple is evaluated as a combination of its items. -/
theorem Sound.evalStep (hd : Sound d) {e : Value} (he : r.Records e) :
    r.Leads (evaluate (d + 1) e f) s ((Task.eval e f).MeetsBelow d s) Records := by
  have hother : (∀ mark head operands, e ≠ .list mark (head :: operands)) →
      (∀ marks head operands, e ≠ .tuple marks (head :: operands)) →
      ∀ v, (Task.eval e f).MeetsBelow d s v → False := by
    rintro hlist htuple v ⟨t', s', hstarts, -⟩
    cases hstarts with
    | passes hpasses =>
      obtain ⟨mark, head, operands, heq⟩ := hpasses.exists_items
      exact hlist mark head operands heq
    | tuple hpasses =>
      obtain ⟨mark, head, operands, heq⟩ := hpasses.exists_items
      cases heq
      exact htuple _ head operands rfl
  match e, he with
  | .symbol x, _ => exact leads_lookup.mono (hother nofun nofun)
  | .number x, _ => exact (leads_pure trivial).mono (hother nofun nofun)
  | .list mark [], _ => exact (leads_fail _).mono (hother nofun nofun)
  | .tuple marks [], _ => exact (leads_fail _).mono (hother nofun nofun)
  | .list mark (head :: operands), he =>
    refine (hd.combination (recordsAll_iff.1 he.2)).mono ?_
    rintro v ⟨t', s', hstarts, hv⟩
    cases hstarts with
    | passes hpasses => exact ⟨mark, t', s', hpasses, hv⟩
  | .tuple marks (head :: operands), he =>
    refine (hd.combination (Value.Hereditary.parts he)).mono ?_
    rintro v ⟨t', s', hstarts, hv⟩
    cases hstarts with
    | passes hpasses => cases hpasses
    | tuple hpasses => exact ⟨_, t', s', hpasses, hv⟩
  | .bool _, _ | .unspecified, _ | .closure _ _ _ _, _ | .primitive _ _, _ | .text _, _
  | .nothing, _ => exact (leads_fail_text _ _).mono (hother nofun nofun)

/-! ### Calls -/

theorem Sound.callMap (hd : Sound d) (mark : Mark) (h : ∀ v ∈ args, r.Records v) :
    r.Leads ((Machine.level d).callMap args) s
      ((Task.call (.primitive mark .map) args).MeetsBelow d s) Records := by
  match args, h with
  | [], _ =>
    refine (leads_throw _).mono ?_
    rintro v ⟨t', s', hstarts, -⟩
    cases hstarts with
    | passes hpasses => cases hpasses
  | [_], _ =>
    refine (leads_fail _).mono ?_
    rintro v ⟨t', s', hstarts, -⟩
    cases hstarts with
    | passes hpasses => cases hpasses
  | procedure :: first :: others, h =>
    obtain ⟨hprocedure, hfirst, hothers⟩ : r.Records procedure ∧ r.Records first ∧
        ∀ list ∈ others, r.Records list := by simpa using h
    refine (leads_attempt "map" (T := fun vs v => ∃ vss,
      others.mapM (Argument.items d "map") = .ok vss ∧ InTurn (SmallLisp.call d procedure)
        (fun args => (Task.call procedure args).Meets d) (Machine.rows vs vss) s v)
      fun vs hvs => leads_attempt "map" fun vss hvss => ?_).mono ?_
    · have hgives : (Argument.items d "map" first).Gives fun vs => ∀ v ∈ vs, r.Records v :=
        Argument.gives_items hfirst
      have hgives' : (others.mapM (Argument.items d "map")).Gives fun vss =>
          ∀ vs ∈ vss, ∀ v ∈ vs, r.Records v :=
        Attempt.gives_mapM fun list hlist => Argument.gives_items (hothers list hlist)
      replace hvs : Argument.items d "map" first = .ok vs := hvs
      rw [hvs] at hgives
      rw [hvss] at hgives'
      have hrows := Policy.forall_rows hgives hgives'
      rw [Machine.callAll_eq_mapM]
      have hcalls : r.Leads ((Machine.rows vs vss).mapM (SmallLisp.call d procedure)) s _ _ :=
        leads_mapM (fun hgrows hv => hv.mono hgrows) fun row hrow _ _ hgrows =>
          hd.call (hprocedure.mono hgrows) fun v hv => (hrows row hrow v hv).mono hgrows
      refine (hcalls.bind (T := fun _ _ _ => False) fun _ _ hitems => leads_makeList hitems).mono ?_
      exact fun v hv => Or.inl hv
    · rintro v ⟨t', s', hstarts, hv⟩
      cases hstarts with
      | passes hpasses => cases hpasses
      | mapped hvs hvss hsplit hbefore =>
        rw [Machine.callAll_eq_mapM] at hbefore
        exact ⟨_, hvs, _, hvss, _, _, _, _, s', hsplit, hbefore, hv⟩

theorem Sound.callApply (hd : Sound d) (mark : Mark) (h : ∀ v ∈ args, r.Records v) :
    r.Leads ((Machine.level d).callApply args) s
      ((Task.call (.primitive mark .apply) args).MeetsBelow d s) Records := by
  unfold Machine.callApply
  split
  · next procedure list =>
    obtain ⟨hprocedure, hlist⟩ : r.Records procedure ∧ r.Records list := by simpa using h
    refine (leads_attempt "apply" (T := fun args => (Task.call procedure args).Meets d s)
      fun args hargs => ?_).mono ?_
    · have hgives : (Argument.items d "apply" list).Gives fun vs => ∀ v ∈ vs, r.Records v :=
        Argument.gives_items hlist
      replace hargs : Argument.items d "apply" list = .ok args := hargs
      rw [hargs] at hgives
      exact hd.call hprocedure hgives
    · rintro v ⟨t', s', hstarts, hv⟩
      cases hstarts with
      | passes hpasses => cases hpasses
      | applied hargs => exact ⟨_, hargs, hv⟩
  · next hne =>
    refine (leads_throw _).mono ?_
    rintro v ⟨t', s', hstarts, -⟩
    cases hstarts with
    | passes hpasses => cases hpasses
    | applied hargs => exact hne _ _ rfl

theorem unmoved_showFrames (m : Machine) (level : Nat) (fs : List FrameId) :
    (m.showFrames level fs).Moves Store.Unmoved := by
  have hdisplay : ∀ t : String, (modify fun s => s.display t : Eval Unit).Moves Store.Unmoved :=
    fun t => Eval.moves_modify fun _ => ⟨rfl, rfl⟩
  induction fs generalizing level with
  | nil => exact Eval.moves_pure _
  | cons g fs ih =>
    refine (hdisplay _).bind fun _ => Eval.moves_get.bind fun s => ?_
    refine Eval.Moves.bind (Eval.moves_forM (fun b => ?_) _) fun _ => ih (level + 1)
    exact (Eval.moves_text _).bind fun _ => (Eval.moves_text _).bind fun _ => hdisplay _

theorem leads_showFrames (m : Machine) (g : FrameId) :
    r.Leads (m.callBuiltin (.showFrames g) args) s (fun _ => False) Records := by
  simp only [Machine.callBuiltin]
  split
  · refine Leads.within (leads_unmoved ?_ fun v s' hv => ?_) _
    · exact Eval.moves_get.bind fun _ => (unmoved_showFrames m 0 _).bind fun _ => Eval.moves_pure _
    · obtain ⟨_, _, -, hv⟩ := Eval.bind_eq_ok hv
      obtain ⟨_, _, -, hv⟩ := Eval.bind_eq_ok hv
      cases hv
      trivial
  · exact leads_throw _

theorem leads_record (m : Machine) (h : ∀ v ∈ args, r.Records v) :
    r.Leads (m.callBuiltin .record args) s (fun _ => False) Records := by
  simp only [Machine.callBuiltin]
  split
  · next v =>
    let record (printed : String) : Eval Unit :=
      modify fun s => { s with recorded := s.recorded.push printed }
    have hrecord : ∀ printed, (record printed).Moves Store.Unmoved :=
      fun printed => Eval.moves_modify fun _ => ⟨rfl, rfl⟩
    refine Leads.within (leads_unmoved ?_ fun w s' hw => ?_) _
    · exact (Eval.moves_text _).bind fun printed => (hrecord printed).bind fun _ => Eval.moves_pure v
    · obtain ⟨printed, s₁, -, hw⟩ := Eval.bind_eq_ok hw
      obtain ⟨_, s₂, -, hw⟩ := Eval.bind_eq_ok hw
      cases hw
      exact h v (by simp)
  · exact leads_throw _

theorem Sound.callBuiltin (hd : Sound d) (mark : Mark) (b : Builtin) (h : ∀ v ∈ args, r.Records v) :
    r.Leads ((Machine.level d).callBuiltin b args) s
      ((Task.call (.primitive mark b) args).MeetsBelow d s) Records := by
  have hleaf : b ≠ .map → b ≠ .apply →
      ∀ v, (Task.call (.primitive mark b) args).MeetsBelow d s v → False := by
    rintro hmap happly v ⟨t', s', hstarts, -⟩
    cases hstarts with
    | passes hpasses => cases hpasses
    | mapped => exact hmap rfl
    | applied => exact happly rfl
  cases b with
  | operation op =>
    exact (leads_settle op.name (Operation.gives_call d op h)).mono (hleaf nofun nofun)
  | map => exact (hd.callMap mark h).within _
  | apply => exact (hd.callApply mark h).within _
  | showFrames g => exact (leads_showFrames _ g).mono (hleaf nofun nofun)
  | record => exact (leads_record _ h).mono (hleaf nofun nofun)

theorem Sound.callClosure (hd : Sound d) {mark : Mark} {params : List String} {body : Value}
    (hbody : r.Records body) (h : ∀ v ∈ args, r.Records v) :
    r.Leads ((Machine.level d).callStep (.closure mark params body f) args) s
      ((Task.call (.closure mark params body f) args).MeetsBelow d s) Records := by
  by_cases hlen : params.length = args.length
  · refine Leads.of_eq ((Machine.level d).callStep_closure hlen mark body f s) fun hr =>
      ⟨r, .refl r, hr.entered params f h, (hd.eval hbody).mono ?_⟩
    rintro v ⟨t', s', hstarts, hv⟩
    cases hstarts with
    | passes hpasses =>
      cases hpasses with
      | body => exact hv
  · have harity := (Machine.level d).callStep_closure_arity hlen mark body f s
    refine Leads.of_eq (y := throw _) harity fun hr =>
      ⟨r, .refl r, hr.unmoved ⟨rfl, rfl⟩, (leads_throw _).mono ?_⟩
    rintro v ⟨t', s', hstarts, -⟩
    cases hstarts with
    | passes hpasses =>
      cases hpasses with
      | body heq => exact hlen heq

theorem Sound.callStep (hd : Sound d) {procedure : Value} (hprocedure : r.Records procedure)
    (h : ∀ v ∈ args, r.Records v) :
    r.Leads (SmallLisp.call (d + 1) procedure args) s
      ((Task.call procedure args).MeetsBelow d s) Records := by
  cases procedure with
  | closure mark params body g => exact hd.callClosure hprocedure h
  | primitive mark b => exact hd.callBuiltin mark b h
  | _ =>
    refine (leads_fail_text _ _).mono ?_
    rintro v ⟨t', s', hstarts, -⟩
    cases hstarts with
    | passes hpasses => cases hpasses

/-! ### Every depth -/

/-- A registry can be kept up with every task. -/
theorem sound (d : Nat) : Sound d := by
  induction d with
  | zero =>
    intro t s r ht
    refine Leads.meets ht ?_
    have hdepth : t.run 0 = throw .depth := by cases t <;> rfl
    rw [hdepth]
    refine (leads_throw _).mono ?_
    rintro v ⟨d₁, hd₁, -⟩
    cases hd₁
  | succ d ih =>
    intro t s r ht
    refine Leads.meets ht (Leads.mono (S := t.MeetsBelow d s) ?_ ?_)
    · cases t with
      | eval e f => exact ih.evalStep (ht e (by simp [Task.values]))
      | call procedure args =>
        obtain ⟨hprocedure, hargs⟩ := List.forall_mem_cons.1 ht
        exact ih.callStep hprocedure hargs
    · rintro v ⟨d₁, hd₁, hv⟩
      cases hd₁
      exact hv

/-! ## Reading -/

mutual

/-- The lists of a datum are entered as it is read. -/
theorem exists_enter_datum : ∀ (d : Datum) {r : Registry} {n : Nat},
    (∀ mark : Nat, n ≤ mark → r mark = none) →
    ∃ r' : Registry, r.Grows r' ∧ (∀ mark : Nat, n + d.marks ≤ mark → r' mark = none) ∧
      r'.Records (d.intern n).1
  | .number _, r, _, hr => ⟨r, .refl r, hr, trivial⟩
  | .symbol _, r, _, hr => ⟨r, .refl r, hr, trivial⟩
  | .list items, r, n, hr => by
    -- a list is made after its items, but what it will hold is known before
    let made : Value := .list n (Datum.internAll (n + 1) items).1
    have hgrows := grows_enter (hr n (Nat.le_refl n)) made
    have hnext : ∀ mark : Nat, n + 1 ≤ mark → r.enter n made mark = none := fun mark hmark =>
      enter_of_lt hmark (hr mark (Nat.le_of_succ_le hmark)) made
    obtain ⟨r', hgrows', hfresh, hitems⟩ := exists_enter_data items hnext
    refine ⟨r', hgrows.trans hgrows', fun mark hmark => hfresh mark ?_, ?_, hitems⟩
    · rw [Datum.marks] at hmark
      omega
    · exact hgrows' n made (enter_self r n made)

theorem exists_enter_data : ∀ (ds : List Datum) {r : Registry} {n : Nat},
    (∀ mark : Nat, n ≤ mark → r mark = none) →
    ∃ r' : Registry, r.Grows r' ∧ (∀ mark : Nat, n + Datum.marksAll ds ≤ mark → r' mark = none) ∧
      r'.RecordsAll (Datum.internAll n ds).1
  | [], r, _, hr => ⟨r, .refl r, hr, trivial⟩
  | d :: ds, r, n, hr => by
    obtain ⟨r₁, hgrows, hfresh, hd⟩ := exists_enter_datum d hr
    obtain ⟨r', hgrows', hfresh', hds⟩ := exists_enter_data ds hfresh
    refine ⟨r', hgrows.trans hgrows', fun mark hmark => hfresh' mark ?_, ?_⟩
    · rw [Datum.marksAll] at hmark
      omega
    · rw [Datum.internAll_cons]
      exact ⟨hd.mono hgrows', hds⟩

end

theorem Knows.intern (hr : r.Knows s) (d : Datum) :
    ∃ r' : Registry, r.Grows r' ∧ r'.Knows (s.spend d.marks) ∧
      r'.Records (d.intern s.nextMark).1 := by
  obtain ⟨r', hgrows, hfresh, hd⟩ := exists_enter_datum d hr.fresh
  exact ⟨r', hgrows, ⟨hfresh, fun v hv => (hr.bound v hv).mono hgrows⟩, hd⟩

end Registry

/-! ## Courses of texts -/

namespace Interpreter

/-- A value is met at one of the turns. -/
def MeetsAt (root : FrameId) (as : List Turn) (v : Value) : Prop :=
  ∃ a ∈ as, (Task.eval a.expr root).Meets a.limit a.store v

end Interpreter

namespace Registry

open Interpreter

variable {r : Registry} {s : Store}

theorem leads_evalData (limit : Nat) (root : FrameId) (last : Value) (ds : List Datum) :
    r.Leads (evalData limit root last ds) s (MeetsAt root (turnsOf limit root ds s))
      fun _ _ => True := by
  induction ds generalizing r s last with
  | nil =>
    refine (leads_pure trivial).mono ?_
    rintro v ⟨a, ha, -⟩
    cases ha
  | cons d ds ih =>
    refine Leads.of_eq (evalData_cons limit root last d ds s) fun hr => ?_
    obtain ⟨r₁, hgrows, hr₁, he⟩ := hr.intern d
    have hfirst : r₁.Leads (evaluate limit (d.intern s.nextMark).1 root) (s.spend d.marks) _ Records :=
      Sound.eval (sound limit) he
    refine ⟨r₁, hgrows, hr₁, ?_⟩
    refine (hfirst.bind (T := fun _ s' => MeetsAt root (turnsOf limit root ds s')) ?_).mono ?_
    · exact fun _ _ _ => ih _
    · rintro v ⟨a, ha, hv⟩
      rcases mem_turnsOf_cons.1 ha with rfl | ⟨w, s', hw, ha⟩
      · exact Or.inl hv
      · exact Or.inr ⟨w, s', hw, a, ha, hv⟩

theorem leads_eval (limit : Nat) (root : FrameId) (source : String) :
    r.Leads (eval limit root source) s (MeetsAt root (turnsIn limit root source s))
      fun _ _ => True := by
  intro hr
  cases hread : parseAll limit source with
  | mk ds fault =>
    cases fault with
    | some fault =>
      refine ⟨r, .refl r, ?_, ?_, fun _ _ _ => trivial⟩
      · rw [Eval.after_error (eval_of_not_reads hread root s)]
        exact hr
      · rintro v ⟨a, ha, -⟩
        obtain ⟨ds', hds', -⟩ := mem_turnsIn.1 ha
        rw [hread] at hds'
        cases hds'
    | none =>
      obtain ⟨r', hgrows, hr', hmet, -⟩ := leads_evalData limit root .unspecified ds hr
      refine ⟨r', hgrows, ?_, ?_, fun _ _ _ => trivial⟩
      · rw [eval_of_reads hread]
        rcases after_reportExhaustion source (evalData limit root .unspecified ds) s with heq | heq
        · rw [heq]
          exact hr'
        · rw [heq]
          exact hr'.unmoved ⟨rfl, rfl⟩
      · rintro v ⟨a, ha, hv⟩
        obtain ⟨ds', hds', ha⟩ := mem_turnsIn.1 ha
        rw [hread] at hds'
        cases hds'
        exact hmet v ⟨a, ha, hv⟩

/-- The registry can be kept up with texts that are run one after another. -/
theorem Knows.runAll (hr : r.Knows s) (root : FrameId) (ps : List (Nat × String)) :
    ∃ r' : Registry, r.Grows r' ∧ r'.Knows (runAll root ps s) ∧
      ∀ v, MeetsAt root (turns root ps s) v → r'.Records v := by
  induction ps generalizing r s with
  | nil =>
    refine ⟨r, .refl r, hr, ?_⟩
    rintro v ⟨a, ha, -⟩
    cases ha
  | cons program ps ih =>
    obtain ⟨r₁, hgrows, hr₁, hfirst, -⟩ := leads_eval program.1 root program.2 hr
    obtain ⟨r', hgrows', hr', hrest⟩ := ih hr₁
    refine ⟨r', hgrows.trans hgrows', hr', ?_⟩
    rintro v ⟨a, ha, hv⟩
    rcases List.mem_append.1 ha with ha | ha
    · exact (hfirst v ⟨a, ha, hv⟩).mono hgrows'
    · exact hrest v ⟨a, ha, hv⟩

/-! ### A fresh interpreter -/

theorem leads_makeEntry (entry : Standard.Entry) :
    r.Leads (Eval.makeEntry entry) s (fun _ => False) Records := by
  cases entry with
  | number x => exact leads_pure trivial
  | truth b => exact leads_pure trivial
  | builtin b => exact leads_freshMark fun _ => trivial

theorem leads_register (f : FrameId) :
    r.Leads (Eval.register f) s (fun _ => False) fun _ _ => True := by
  unfold Eval.register
  generalize Standard.entries f = entries
  induction entries generalizing r s with
  | nil => exact leads_pure trivial
  | cons entry entries ih =>
    have hentry : r.Leads (do
        let v ← Eval.makeEntry entry.2
        modify fun s => s.insert f (.symbol entry.1) v) s (fun _ => False) fun _ _ => True := by
      refine ((leads_makeEntry entry.2).bind (T := fun _ _ _ => False) ?_).mono fun _ h => h.elim
      exact fun _ _ hv => leads_insert f entry.1 hv
    refine (hentry.bind (T := fun _ _ _ => False) ?_).mono fun _ h => h.elim
    exact fun _ _ _ => ih

theorem exists_knows_fresh (notices : Array Notice) :
    ∃ r : Registry, r.Knows (CommandLine.fresh notices).2 := by
  have hbare : Registry.Knows (fun _ => none) (Store.bare notices) := by
    refine ⟨fun _ _ => rfl, ?_⟩
    rintro v ⟨g, fr, b, hfr, hb, -⟩
    obtain ⟨rfl, rfl⟩ := Store.bare_frame hfr
    cases hb
  obtain ⟨r, -, hr, -⟩ := leads_register 0 hbare
  rw [CommandLine.fresh_eq]
  dsimp only
  exact ⟨r, hr⟩

end Registry

namespace Interpreter

/-- The values of a course: all that is bound, evaluated, called, passed or returned in it, and what
is in such lists and tuples. -/
inductive Arises (root : FrameId) (ps : List (Nat × String)) (s₀ : Store) : Value → Prop
  | bound {s : Store} {v : Value} : Visits root ps s₀ s → s.Contains v → Arises root ps s₀ v
  | subject {d : Nat} {t : Task} {s : Store} {v : Value} : Performs root ps s₀ d t s →
      v ∈ t.values → Arises root ps s₀ v
  | result {d : Nat} {t : Task} {s s' : Store} {v : Value} : Performs root ps s₀ d t s →
      t.run d s = .ok v s' → Arises root ps s₀ v
  | item {mark : Mark} {items : List Value} {v : Value} : Arises root ps s₀ (.list mark items) →
      v ∈ items → Arises root ps s₀ v
  | part {marks : List Mark} {items : List Value} {v : Value} : Arises root ps s₀ (.tuple marks items) →
      v ∈ items → Arises root ps s₀ v

/-- One registry has all values of a course. -/
theorem exists_records {notices : Array Notice} {root : FrameId} {s₀ : Store}
    (hfresh : CommandLine.fresh notices = (root, s₀)) (ps : List (Nat × String)) :
    ∃ r : Registry, ∀ v, Arises root ps s₀ v → r.Records v := by
  obtain ⟨r₀, hr₀⟩ := Registry.exists_knows_fresh notices
  rw [hfresh] at hr₀
  obtain ⟨r, -, hr, hmet⟩ := hr₀.runAll root ps
  refine ⟨r, fun v hv => ?_⟩
  induction hv with
  | @bound s v hvisits hv =>
    rcases hvisits with ⟨d, t, a, ha, hruns⟩ | rfl
    · exact hmet v ⟨a, ha, d, t, s, hruns, Or.inr (Or.inl hv)⟩
    · exact hr.bound v hv
  | @subject d t s v hperforms hv =>
    obtain ⟨a, ha, hruns⟩ := hperforms
    exact hmet v ⟨a, ha, d, t, s, hruns, Or.inl hv⟩
  | @result d t s s' v hperforms hv =>
    obtain ⟨a, ha, hruns⟩ := hperforms
    exact hmet v ⟨a, ha, d, t, s, hruns, Or.inr (Or.inr ⟨s', hv⟩)⟩
  | item _ hv ih => exact Value.Hereditary.items ih _ hv
  | part _ hv ih => exact Value.Hereditary.parts ih _ hv

end Interpreter

end SmallLisp
