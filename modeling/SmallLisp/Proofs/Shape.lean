import SmallLisp.Proofs.WellFormed

/-!
Programs of the right shape end in no error of form.

A datum is well-shaped if its special forms have the operands that they take wherever the datum is
evaluated: also in the bodies of lambdas, and not under a quote (`Datum.WellShaped`).  The only values
that are ever evaluated are data that were read and their parts, since the body of a closure is a
part of what was evaluated (`Policy.source`).  So values that are no data, such as truth values and
tuples, may be computed everywhere but never stand where an expression is evaluated, and the shape of
a program settles which errors of form it can end in (`eval_not_ofForm`).
-/

namespace SmallLisp

namespace Datum

/-- The names that announce a special form. -/
def keywords : List String := ["quote", "if", "define", "lambda"]

/-- No empty list and no special form with wrong operands is evaluated as a part of the datum. -/
inductive WellShaped : Datum → Prop
  | number (x : Float) : WellShaped (.number x)
  | symbol (name : String) : WellShaped (.symbol name)
  | quote (d : Datum) : WellShaped (.list [.symbol "quote", d])
  | conditional {test consequent alternative : Datum} : WellShaped test → WellShaped consequent →
      WellShaped alternative → WellShaped (.list [.symbol "if", test, consequent, alternative])
  | define (name : String) {e : Datum} : WellShaped e →
      WellShaped (.list [.symbol "define", .symbol name, e])
  | lambda {params : List String} {body : Datum} : params.Nodup → WellShaped body →
      WellShaped (.list [.symbol "lambda", .list (params.map .symbol), body])
  | combination {head : Datum} {operands : List Datum} :
      (∀ name, head = .symbol name → name ∉ keywords) → (∀ e ∈ head :: operands, WellShaped e) →
      WellShaped (.list (head :: operands))

end Datum

/-- An error of reading or of a special form, an empty combination, or a value that is no expression. -/
def LispError.OfForm (e : LispError) : Prop :=
  e.kind = .syntactic ∨ e = .type .emptyCombination ∨ ∃ got, e = .type (.unknownExpression got)

namespace Value

/-- A value that was read, as a datum that satisfies `P`. -/
def Reads (P : Datum → Prop) (v : Value) : Prop := ∃ d, v.datum? = some d ∧ P d

def BodyReads (P : Datum → Prop) : Value → Prop
  | .closure _ _ body _ => body.Reads P
  | _ => True

end Value

/-- The bodies of all closures that a store holds were read as data that satisfy `P`. -/
def Store.BodiesRead (P : Datum → Prop) (s : Store) : Prop :=
  ∀ (g : FrameId) (fr : Frame) (b : Value × Value),
    s.frames[g]? = some fr → b ∈ fr.bindings → b.2.Procedures (Value.BodyReads P)

/-! ## Operands of well-shaped data -/

theorem SpecialForm.ofName?_eq_none {name : String} (h : name ∉ Datum.keywords) :
    SpecialForm.ofName? name = none := by
  simp only [Datum.keywords, List.mem_cons, List.not_mem_nil, or_false, not_or] at h
  unfold ofName?
  split <;> simp_all

theorem SpecialForm.ofHead?_eq_none {v : Value} {d : Datum} (hv : v.datum? = some d)
    (h : ∀ name, d = .symbol name → name ∉ Datum.keywords) : SpecialForm.ofHead? v = none := by
  cases v with
  | symbol name =>
    cases hv
    exact ofName?_eq_none (h name rfl)
  | _ => rfl

/-- A list that starts with a name, by the values after it. -/
theorem Value.datum?_eq_form {v : Value} {name : String} {ds : List Datum}
    (h : v.datum? = some (.list (.symbol name :: ds))) :
    ∃ mark operands, v = .list mark (.symbol name :: operands) ∧ data? operands = some ds := by
  obtain ⟨mark, items, rfl, hitems⟩ := datum?_eq_list h
  obtain ⟨head, operands, rfl, hhead, hoperands⟩ := data?_eq_cons hitems
  cases datum?_eq_symbol hhead
  exact ⟨mark, operands, rfl, hoperands⟩

theorem Value.mapM_symbolName? {vs : List Value} {names : List String}
    (h : data? vs = some (names.map .symbol)) : vs.mapM symbolName? = some names := by
  induction names generalizing vs with
  | nil =>
    cases data?_eq_nil h
    rfl
  | cons name names ih =>
    obtain ⟨v, vs', rfl, hv, hvs'⟩ := data?_eq_cons h
    cases datum?_eq_symbol hv
    rw [List.mapM_cons, ih hvs']
    rfl

theorem eraseDups_of_nodup {names : List String} (h : names.Nodup) : names.eraseDups = names := by
  induction names with
  | nil => rfl
  | cons name names ih =>
    obtain ⟨hname, hnames⟩ := List.nodup_cons.1 h
    have hkeep : names.filter (fun other => !other == name) = names := by
      apply List.filter_eq_self.2
      intro other hother
      rw [Bool.not_eq_true', beq_eq_false_iff_ne]
      rintro rfl
      exact hname hother
    rw [List.eraseDups_cons, hkeep, ih hnames]

namespace Policy

/-- Evaluation of what was read as a datum that satisfies `P`. -/
def source (P : Datum → Prop) (A : Fault → Prop) : Policy where
  Expr _ e _ := e.Reads P
  Proc _ v := v.BodyReads P
  Inv _ := True
  Allowed := A

variable {P : Datum → Prop} {A : Fault → Prop} {s : Store}

theorem source_lawful (hord : ∀ {fault : Fault}, fault.Ordinary → A fault)
    (hparts : ∀ {s e f}, e.Reads P → (source P A).Parts s f e) : (source P A).Lawful where
  expr_mono _ he := he
  proc_mono _ hv := hv
  inv_eq _ _ := trivial
  inv_insert _ := trivial
  ordinary := hord
  parts := hparts
  enter _ hc _ := ⟨trivial, hc.1⟩

theorem source_good {e : Value} (h : e.Reads P) : (source P A).Good s e := by
  obtain ⟨d, hd, -⟩ := h
  exact Value.procedures_of_datum? hd

theorem source_good_closure {body : Value} (h : body.Reads P) (mark : Mark) (names : List String)
    (f : FrameId) : (source P A).Good s (.closure mark names body f) :=
  ⟨h, source_good h⟩

/-! ## Well-shaped data -/

theorem source_parts_wellShaped (hunbound : ∀ name, A (.error (.unbound name))) {e : Value}
    {f : FrameId} (h : e.Reads Datum.WellShaped) : (source Datum.WellShaped A).Parts s f e := by
  obtain ⟨d, hd, hshape⟩ := h
  cases hshape with
  | number x =>
    cases Value.datum?_eq_number hd
    trivial
  | symbol name =>
    cases Value.datum?_eq_symbol hd
    exact fun _ => hunbound name
  | quote d =>
    obtain ⟨mark, operands, rfl, hrest⟩ := Value.datum?_eq_form hd
    obtain ⟨v, rest, rfl, hv, hnil⟩ := Value.data?_eq_cons hrest
    cases Value.data?_eq_nil hnil
    exact Value.procedures_of_datum? (v := v) hv
  | conditional htest hthen helse =>
    obtain ⟨mark, operands, rfl, hrest⟩ := Value.datum?_eq_form hd
    obtain ⟨test, rest, rfl, hv, hrest⟩ := Value.data?_eq_cons hrest
    obtain ⟨consequent, rest, rfl, hv', hrest⟩ := Value.data?_eq_cons hrest
    obtain ⟨alternative, rest, rfl, hv'', hnil⟩ := Value.data?_eq_cons hrest
    cases Value.data?_eq_nil hnil
    exact ⟨⟨_, hv, htest⟩, ⟨_, hv', hthen⟩, ⟨_, hv'', helse⟩⟩
  | define name he =>
    obtain ⟨mark, operands, rfl, hrest⟩ := Value.datum?_eq_form hd
    obtain ⟨x, rest, rfl, hx, hrest⟩ := Value.data?_eq_cons hrest
    obtain ⟨e, rest, rfl, hv, hnil⟩ := Value.data?_eq_cons hrest
    cases Value.data?_eq_nil hnil
    cases Value.datum?_eq_symbol hx
    exact ⟨_, hv, he⟩
  | @lambda names body hnodup hbody =>
    obtain ⟨mark, operands, rfl, hrest⟩ := Value.datum?_eq_form hd
    obtain ⟨params, rest, rfl, hparams, hrest⟩ := Value.data?_eq_cons hrest
    obtain ⟨body', rest, rfl, hv, hnil⟩ := Value.data?_eq_cons hrest
    cases Value.data?_eq_nil hnil
    obtain ⟨mark', symbols, rfl, hsymbols⟩ := Value.datum?_eq_list hparams
    have hnames : Machine.parameters? (.list mark' symbols) = some names :=
      Value.mapM_symbolName? hsymbols
    show (source Datum.WellShaped A).Operands s f .lambda [.list mark' symbols, body']
    simp only [Operands]
    rw [hnames]
    dsimp only
    rw [if_pos (by rw [eraseDups_of_nodup hnodup])]
    exact fun mark => source_good_closure ⟨_, hv, hbody⟩ mark names f
  | combination hhead hparts =>
    obtain ⟨mark, items, rfl, hitems⟩ := Value.datum?_eq_list hd
    obtain ⟨head, operands, rfl, hv, -⟩ := Value.data?_eq_cons hitems
    have hreads : ∀ e ∈ head :: operands, e.Reads Datum.WellShaped := by
      intro e he
      obtain ⟨d, hd, hed⟩ := Value.exists_of_mem_data? hitems he
      exact ⟨d, hed, hparts d hd⟩
    show (source Datum.WellShaped A).Combination s f head operands
    unfold Combination
    rw [SpecialForm.ofHead?_eq_none hv hhead]
    exact ⟨hreads head (by simp), fun e he => hreads e (by simp [he])⟩

/-! ## Data of any shape -/

theorem source_parts_datum (hform : ∀ fault, A (.error (.form fault)))
    (hunbound : ∀ name, A (.error (.unbound name))) (hempty : A (.error (.type .emptyCombination)))
    {e : Value} {f : FrameId} (h : e.Reads fun _ => True) :
    (source (fun _ => True) A).Parts s f e := by
  obtain ⟨d, hd, -⟩ := h
  cases d with
  | number x =>
    cases Value.datum?_eq_number hd
    trivial
  | symbol name =>
    cases Value.datum?_eq_symbol hd
    exact fun _ => hunbound name
  | list ds =>
    obtain ⟨mark, items, rfl, hitems⟩ := Value.datum?_eq_list hd
    cases items with
    | nil => exact hempty
    | cons head operands =>
      refine combination_of_parts hform ?_ (fun _ => source_good) fun mark names body _ h =>
        source_good_closure h mark names f
      intro e he
      obtain ⟨d, -, hed⟩ := Value.exists_of_mem_data? hitems he
      exact ⟨d, hed, trivial⟩

end Policy

/-! ## Program texts -/

theorem LispError.not_ofForm_of_ordinary {fault : Fault} (h : fault.Ordinary) {e : LispError}
    (he : fault = .error e) : ¬ e.OfForm := by
  subst he
  rintro (hkind | rfl | ⟨got, rfl⟩)
  · cases e with
    | unreadable _ => exact h
    | form _ => exact h
    | _ => cases hkind
  · exact h
  · exact h

theorem LispError.not_ofForm_of_kind {e : LispError} (hsyntactic : e.kind ≠ .syntactic)
    (htype : e.kind ≠ .type) : ¬ e.OfForm := by
  rintro (hkind | rfl | ⟨got, rfl⟩)
  · exact hsyntactic hkind
  · exact htype rfl
  · exact htype rfl

/-- Evaluation of well-shaped data, without errors of form. -/
def Policy.shaped : Policy :=
  .source Datum.WellShaped fun fault => ∀ e, fault = .error e → ¬ e.OfForm

theorem Policy.shaped_lawful : Policy.shaped.Lawful := by
  refine source_lawful (fun h e he => LispError.not_ofForm_of_ordinary h he) fun h => ?_
  refine source_parts_wellShaped (fun name e he => ?_) h
  cases he
  exact LispError.not_ofForm_of_kind nofun nofun

/-- Evaluation of data, in which no value that is no expression is met. -/
def Policy.anyShape : Policy :=
  .source (fun _ => True) fun fault => ∀ got, fault ≠ .error (.type (.unknownExpression got))

theorem Policy.anyShape_lawful : Policy.anyShape.Lawful := by
  refine source_lawful (fun h got he => ?_) fun h => ?_
  · subst he
    exact h
  · exact source_parts_datum (fun _ _ => nofun) (fun _ _ => nofun) (fun _ => nofun) h

theorem Interpreter.leads_eval_wellShaped {limit : Nat} {source : String} {data : List Datum}
    (hread : parseAll limit source = (data, none)) (hdata : ∀ d ∈ data, d.WellShaped)
    (root : FrameId) (s : Store) :
    Policy.shaped.Leads (Interpreter.eval limit root source) s Policy.shaped.Good := by
  refine Policy.shaped_lawful.leads_eval ?_ (fun fault h => ?_) fun d hd e s' _ he => ?_
  · intro e he
    cases he
    exact LispError.not_ofForm_of_kind nofun nofun
  · rw [hread] at h
    cases h
  · rw [hread] at hd
    exact ⟨d, he, hdata d hd⟩

theorem Interpreter.Reaches.holds_anyShape {notices : Array Notice} {root : FrameId} {s₀ s : Store}
    (hfresh : CommandLine.fresh notices = (root, s₀)) (hs : Interpreter.Reaches root s₀ s) :
    Policy.anyShape.Holds s := by
  have hp := Policy.anyShape_lawful
  have hs₀ := hp.fresh notices trivial fun _ _ _ _ _ => trivial
  rw [hfresh] at hs₀
  exact (hp.reaches (fun _ => nofun) (fun _ _ => nofun) (fun d e _ _ he => ⟨d, he, trivial⟩)
    hs₀.2 hs).2

theorem Interpreter.eval_ne_unknownExpression {notices : Array Notice} {root : FrameId}
    {s₀ s : Store} (hfresh : CommandLine.fresh notices = (root, s₀))
    (hs : Interpreter.Reaches root s₀ s) (limit : Nat) (source got : String) (s' : Store) :
    Interpreter.eval limit root source s ≠ .error (.error (.type (.unknownExpression got))) s' := by
  have hleads : Policy.anyShape.Leads (Interpreter.eval limit root source) s Policy.anyShape.Good :=
    Policy.anyShape_lawful.leads_eval (fun _ => nofun) (fun _ _ _ => nofun) fun d _ e _ _ he =>
      ⟨d, he, trivial⟩
  intro heval
  exact (Eval.Ends.of_error (hleads (hs.holds_anyShape hfresh)) heval).2.2 got rfl

/-- A program of well-shaped data, run where all closures have well-shaped bodies, ends in no error of
form, and closures have well-shaped bodies afterwards.  Whatever its shape is, no program that a fresh
interpreter is given comes to evaluate a value that is no expression. -/
theorem eval_not_ofForm (limit : Nat) :
    (∀ (root : FrameId) (s : Store) (source : String) (data : List Datum),
      s.BodiesRead Datum.WellShaped → parseAll limit source = (data, none) →
      (∀ d ∈ data, d.WellShaped) →
      (∀ e s', Interpreter.eval limit root source s = .error (.error e) s' → ¬ e.OfForm) ∧
      ((Interpreter.eval limit root source).after s).BodiesRead Datum.WellShaped ∧
      ∀ v s', Interpreter.eval limit root source s = .ok v s' →
        v.Procedures (Value.BodyReads Datum.WellShaped)) ∧
    ∀ (notices : Array Notice) (root : FrameId) (s₀ s : Store),
      CommandLine.fresh notices = (root, s₀) → Interpreter.Reaches root s₀ s →
      ∀ source got s', Interpreter.eval limit root source s ≠
        .error (.error (.type (.unknownExpression got))) s' := by
  constructor
  · intro root s source data hbodies hread hdata
    have hleads := Interpreter.leads_eval_wellShaped hread hdata root s
    have hs : Policy.shaped.Holds s := ⟨trivial, hbodies⟩
    refine ⟨fun e s' heval => ?_, (hleads.after hs).2.bound, fun v s' heval => ?_⟩
    · exact (Eval.Ends.of_error (hleads hs) heval).2.2 e rfl
    · exact (Eval.Ends.of_ok (hleads hs) heval).2.2
  · intro notices root s₀ s hfresh hs source got s'
    exact Interpreter.eval_ne_unknownExpression hfresh hs limit source got s'

/-- A root frame that binds the identity. -/
def Store.identity : Store :=
  ⟨#[⟨[(.symbol "f", .closure 0 ["x"] (.symbol "x") 0)], none⟩], 1, "", #[], #[]⟩

/-- The quoted operand of a call need not be well-shaped. -/
theorem eval_not_ofForm_quoted :
    Store.identity.BodiesRead Datum.WellShaped ∧
      parseAll 9 "(f (quote (if)))" =
        ([.list [.symbol "f", .list [.symbol "quote", .list [.symbol "if"]]]], none) ∧
      (∀ e s', Interpreter.eval 9 0 "(f (quote (if)))" Store.identity = .error (.error e) s' →
        ¬ e.OfForm) ∧
      ((Interpreter.eval 9 0 "(f (quote (if)))").after Store.identity).BodiesRead
        Datum.WellShaped ∧
      ∃ s₀, CommandLine.fresh #[] = (0, s₀) ∧ ∀ got s',
        Interpreter.eval 9 0 "(f)" s₀ ≠ .error (.error (.type (.unknownExpression got))) s' := by
  have hbodies : Store.identity.BodiesRead Datum.WellShaped := by
    intro g fr b hfr hb
    have hlt : g < 1 := (Array.getElem?_eq_some_iff.1 hfr).1
    cases Nat.lt_one_iff.1 hlt
    cases hfr
    cases List.mem_singleton.1 hb
    exact ⟨⟨.symbol "x", rfl, .symbol "x"⟩, trivial⟩
  have hread : parseAll 9 "(f (quote (if)))" =
      ([.list [.symbol "f", .list [.symbol "quote", .list [.symbol "if"]]]], none) := by
    with_unfolding_all rfl
  have hdata : ∀ d ∈ [Datum.list [.symbol "f", .list [.symbol "quote", .list [.symbol "if"]]]],
      d.WellShaped := by
    intro d hd
    cases List.mem_singleton.1 hd
    refine .combination (fun name h => by cases h; decide) fun e he => ?_
    rcases List.mem_cons.1 he with rfl | he
    · exact .symbol "f"
    · cases List.mem_singleton.1 he
      exact .quote _
  obtain ⟨hshape, hfree⟩ := eval_not_ofForm 9
  obtain ⟨herror, hafter, -⟩ := hshape 0 Store.identity _ _ hbodies hread hdata
  exact ⟨hbodies, hread, herror, hafter, _, CommandLine.fresh_eq #[],
    hfree #[] 0 _ _ (CommandLine.fresh_eq #[]) .refl _⟩

end SmallLisp
