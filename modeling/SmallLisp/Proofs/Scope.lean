import SmallLisp.Proofs.Chains
import SmallLisp.Proofs.Data
import SmallLisp.Proofs.Policy

/-!
Closed programs meet no unbound variable.

`Value.free e` lists the symbols of `e` that stand where they are evaluated.  A closure is covered
when the free symbols of its body, its parameters apart, are bound along the chain of its frame;
frames grow under it, so it stays covered.  If all closures of a store are covered and so is an
expression, its evaluation ends in no unbound variable, and all closures are covered again:

    s.Covered → (∀ x ∈ e.free, s.Binds f x) → evaluate d e f s ≠ .error (.error (.unbound x)) s'
                                                                     (evaluate_ne_unbound)
-/

namespace SmallLisp

/-! ## Free symbols -/

namespace Value

mutual

/-- The symbols that stand in an expression where they are evaluated.  Special forms with operands of
another shape count as combinations, without their keyword. -/
def free : Value → List String
  | .symbol x => [x]
  | .list _ items => freeForm items
  | .tuple _ items => freeForm items
  | _ => []

def freeForm : List Value → List String
  | [] => []
  | head :: operands =>
    match SpecialForm.ofHead? head with
    | some .quote => []
    | some .conditional => freeAll operands
    | some .define => freeDefine operands
    | some .lambda => freeLambda operands
    | none => free head ++ freeAll operands

def freeDefine : List Value → List String
  | [] => []
  | [.symbol _, e] => free e
  | e :: rest => free e ++ freeAll rest

def freeLambda : List Value → List String
  | [] => []
  | [params, body] =>
    match Machine.parameters? params with
    | some names => (free body).filter (· ∉ names)
    | none => free params ++ free body
  | e :: rest => free e ++ freeAll rest

def freeAll : List Value → List String
  | [] => []
  | e :: rest => free e ++ freeAll rest

end

theorem mem_freeAll {x : String} {es : List Value} : x ∈ freeAll es ↔ ∃ e ∈ es, x ∈ e.free := by
  induction es with
  | nil => simp [freeAll]
  | cons e es ih => simp [freeAll, ih]

end Value

/-! ## Covered closures -/

namespace Store

/-- The free symbols of a closure's body, its parameters apart, are bound along its chain. -/
def Covers (s : Store) : Value → Prop
  | .closure _ params body f => ∀ x ∈ body.free, x ∉ params → s.Binds f x
  | _ => True

/-- All closures that a store holds in its bindings are covered. -/
def Covered (s : Store) : Prop :=
  ∀ (g : FrameId) (fr : Frame) (b : Value × Value),
    s.frames[g]? = some fr → b ∈ fr.bindings → b.2.Procedures s.Covers

theorem Covers.mono {s s' : Store} (h : s.Extends s') {v : Value} (hv : s.Covers v) :
    s'.Covers v := by
  cases v with
  | closure mark params body f => exact fun x hx hp => (hv x hx hp).mono h
  | _ => trivial

end Store

namespace Policy

/-- Free symbols are bound and closures are covered; then no variable is unbound. -/
def scope : Policy where
  Expr s e f := (∀ x ∈ e.free, s.Binds f x) ∧ e.Procedures s.Covers
  Proc s v := s.Covers v
  Inv _ := True
  Allowed fault := ∀ x, fault ≠ .error (.unbound x)

section Scope

variable {s : Store} {f : FrameId}

theorem scope_holds_iff : scope.Holds s ↔ s.Covered :=
  ⟨fun h => h.bound, fun h => ⟨trivial, h⟩⟩

theorem scope_all {es : List Value} (hfree : ∀ x ∈ Value.freeAll es, s.Binds f x)
    (hproc : ∀ e ∈ es, e.Procedures s.Covers) : ∀ e ∈ es, scope.Expr s e f :=
  fun e he => ⟨fun x hx => hfree x (Value.mem_freeAll.2 ⟨e, he, hx⟩), hproc e he⟩

theorem scope_combination {head : Value} {operands : List Value}
    (hfree : ∀ x ∈ Value.freeForm (head :: operands), s.Binds f x)
    (hproc : ∀ e ∈ head :: operands, e.Procedures s.Covers) :
    scope.Combination s f head operands := by
  have hform : ∀ fault, scope.Allowed (.error (.form fault)) := fun _ _ => nofun
  have hops : ∀ e ∈ operands, e.Procedures s.Covers := fun e he => hproc e (by simp [he])
  unfold Combination
  cases hhead : SpecialForm.ofHead? head with
  | none =>
    simp only [Value.freeForm, hhead, List.mem_append] at hfree
    refine ⟨⟨fun x hx => hfree x (Or.inl hx), hproc head (by simp)⟩, ?_⟩
    exact scope_all (fun x hx => hfree x (Or.inr hx)) hops
  | some form =>
    cases form with
    | quote => exact operands_quote hform hops
    | conditional =>
      simp only [Value.freeForm, hhead] at hfree
      exact operands_conditional hform (scope_all hfree hops)
    | define =>
      refine operands_define hform fun x e he => ?_
      subst he
      simp only [Value.freeForm, hhead, Value.freeDefine] at hfree
      exact ⟨hfree, hops e (by simp)⟩
    | lambda =>
      refine operands_lambda hform fun params body names he hnames _ mark => ?_
      subst he
      simp only [Value.freeForm, hhead, Value.freeLambda, hnames, List.mem_filter, decide_not,
        Bool.not_eq_true', decide_eq_false_iff_not] at hfree
      exact ⟨fun x hx hp => hfree x ⟨hx, hp⟩, hops body (by simp)⟩

theorem scope_lawful : scope.Lawful where
  expr_mono h he := ⟨fun x hx => (he.1 x hx).mono h, Value.Procedures.mono (fun _ => .mono h) _ he.2⟩
  proc_mono h hv := hv.mono h
  inv_eq _ _ := trivial
  inv_insert _ := trivial
  ordinary h _ hx := by rw [hx] at h; exact h
  parts {s e f} he := by
    obtain ⟨hfree, hproc⟩ := he
    match e with
    | .symbol x => exact fun hl => absurd (hfree x (by simp [Value.free])) (Store.lookup?_eq_none_iff.1 hl)
    | .number _ => trivial
    | .list _ [] | .tuple _ [] => exact fun _ => nofun
    | .list _ (_ :: _) | .tuple _ (_ :: _) =>
      exact scope_combination hfree (Value.proceduresAll_iff.1 hproc)
    | .bool _ | .unspecified | .primitive _ _ | .closure _ _ _ _ | .text _ | .nothing =>
      exact fun _ _ => nofun
  enter {s mark params body f args} hs hc hlen := by
    refine ⟨trivial, fun x hx => ?_, ?_⟩
    · by_cases hp : x ∈ params
      · exact Store.binds_entered_param hlen hp
      · exact Store.binds_entered_outer (hc.1 x hx hp)
    · exact Value.Procedures.mono (fun _ => .mono (Store.extends_entered s params args f)) _ hc.2

end Scope

end Policy

/-! ## Top theorem -/

/-- In a store whose closures are covered, an expression that was read, with its free symbols bound
along the chain of `f`, is evaluated in `f` without meeting an unbound variable; afterwards, also
after another fault, all closures are covered, those in the value included. -/
theorem evaluate_ne_unbound (d : Nat) {e : Value} {t : Datum} {f : FrameId} {s : Store}
    (he : e.datum? = some t) (hs : s.Covered) (hfree : ∀ x ∈ e.free, s.Binds f x) :
    (∀ x s', evaluate d e f s ≠ .error (.error (.unbound x)) s') ∧
    ((evaluate d e f).after s).Covered ∧
    (∀ v s', evaluate d e f s = .ok v s' → v.Procedures s'.Covers) := by
  have hends := Policy.scope_lawful.evaluate d ⟨hfree, Value.procedures_of_datum? he⟩
    (Policy.scope_holds_iff.2 hs)
  refine ⟨fun x s' h => ?_, ?_, fun v s' h => (hends.of_ok h).2.2⟩
  · exact (hends.of_error h).2.2 x rfl
  · exact hends.after (fun _ _ h => Policy.scope_holds_iff.1 h.2.1)
      fun _ _ h => Policy.scope_holds_iff.1 h.2.1

/-- `(define z ((lambda (a) (a)) k))` in a frame inside one that binds `y` and a procedure `k` of the
body `y`: the closures are covered, and the run ends with a value. -/
theorem evaluate_ne_unbound_nested_call :
    let outer : Frame :=
      ⟨[(.symbol "y", .bool true), (.symbol "k", .closure 0 [] (.symbol "y") 0)], none⟩
    let s : Store := { Store.empty with frames := #[outer, ⟨[], some 0⟩] }
    let e : Value := .list 1 [.symbol "define", .symbol "z", .list 2 [.list 3 [.symbol "lambda",
      .list 4 [.symbol "a"], .list 5 [.symbol "a"]], .symbol "k"]]
    e.free = ["k"] ∧ s.Binds 1 "k" ∧ s.Covered ∧
    (∀ x s', evaluate 9 e 1 s ≠ .error (.error (.unbound x)) s') ∧
    ((evaluate 9 e 1).after s).Covered ∧
    ((evaluate 9 e 1).after s).get? 1 (.symbol "z") = some (.bool true) := by
  intro outer s e
  have hk : s.Binds 1 "k" := by with_unfolding_all rfl
  have hy : s.Binds 0 "y" := by with_unfolding_all rfl
  have hs : s.Covered := by
    intro g fr b hfr hb
    match g, hfr with
    | 0, hfr =>
      cases hfr
      rcases List.mem_cons.1 hb with rfl | hb
      · trivial
      · cases List.mem_singleton.1 hb
        refine ⟨fun x hx _ => ?_, trivial⟩
        cases List.mem_singleton.1 hx
        exact hy
    | 1, hfr => cases hfr; cases hb
  have hfree : e.free = ["k"] := rfl
  obtain ⟨h, hs', -⟩ := evaluate_ne_unbound 9 (e := e) (f := 1) (by rfl) hs fun x hx => by
    rw [hfree] at hx
    cases List.mem_singleton.1 hx
    exact hk
  exact ⟨hfree, hk, hs, h, hs', by with_unfolding_all rfl⟩

end SmallLisp
