import SmallLisp.Proofs.Footprint
import SmallLisp.Proofs.Procedures

/-!
Invariants of evaluation.

A `Policy` says which expressions may be evaluated in which frame, which procedures may be held,
what holds of the frames, and in which faults evaluation may end.  It is lawful if each rule of
evaluation keeps to it (`Policy.Lawful`): growth of the store breaks nothing, the parts of an allowed
expression are allowed where they are evaluated, and so is the body of a closure in the frame of a
call.  Then whole evaluations and calls keep to it, whether they end with a value or with a fault:

    p.Lawful → p.Holds s → p.Expr s e f →
      (evaluate d e f).Ends s (fun v s' => s.Extends s' ∧ p.Holds s' ∧ p.Good s' v)
        (fun fault s' => s.Extends s' ∧ p.Holds s' ∧ p.Allowed fault)     (Policy.Lawful.evaluate)
-/

namespace SmallLisp

/-- The faults in which calls and texts of values can end by themselves, whatever was evaluated. -/
def Fault.Ordinary : Fault → Prop
  | .error (.type .emptyCombination) => False
  | .error (.type (.unknownExpression _)) => False
  | .error (.type _) => True
  | .error (.arity _) => True
  | .error (.noResult _ _) => True
  | .error .divisionByZero => True
  | .error _ => False
  | .depth => True
  | .integerText => True

theorem Refusal.Ordinary.toFault {r : Refusal} (h : r.Ordinary) (name : String) :
    (r.toFault name).Ordinary := by
  match r with
  | .error (.type (.notNumber _ _)) => trivial
  | .error (.type (.notList _ _)) => trivial
  | .error (.type (.emptyList _)) => trivial
  | .error (.arity (.atLeastOne _)) => trivial
  | .error .divisionByZero => trivial
  | .misuse _ => trivial
  | .noResult _ => trivial
  | .depth => trivial

theorem Fault.ordinary_ofText (f : TextFault) : (Fault.ofText f).Ordinary := by
  cases f <;> trivial

structure Policy where
  /-- Which expressions may be evaluated in which frame. -/
  Expr : Store → Value → FrameId → Prop
  /-- Which procedures may be held. -/
  Proc : Store → Value → Prop
  /-- What holds of the frames. -/
  Inv : Store → Prop
  /-- In which faults evaluation may end. -/
  Allowed : Fault → Prop

namespace Policy

variable (p : Policy)

def Good (s : Store) (v : Value) : Prop := v.Procedures (p.Proc s)

instance (s : Store) : Value.Hereditary (p.Good s) :=
  inferInstanceAs (Value.Hereditary (Value.Procedures (p.Proc s)))

/-- What the operands of a special form have to be, or else which fault is allowed. -/
def Operands (s : Store) (f : FrameId) : SpecialForm → List Value → Prop
  | .quote, [v] => p.Good s v
  | .quote, _ => p.Allowed (.error (.form .quoteOperands))
  | .conditional, [test, consequent, alternative] =>
    p.Expr s test f ∧ p.Expr s consequent f ∧ p.Expr s alternative f
  | .conditional, _ => p.Allowed (.error (.form .ifOperands))
  | .define, [.symbol _, e] => p.Expr s e f
  | .define, [_, _] => ∀ t, p.Allowed (.error (.form (.defineName t)))
  | .define, _ => p.Allowed (.error (.form .defineOperands))
  | .lambda, [params, body] =>
    match Machine.parameters? params with
    | none => ∀ t, p.Allowed (.error (.form (.lambdaParameters t)))
    | some names =>
      if names.eraseDups.length = names.length then ∀ mark, p.Good s (.closure mark names body f)
      else p.Allowed (.error (.form .lambdaRepeated))
  | .lambda, _ => p.Allowed (.error (.form .lambdaOperands))

def Combination (s : Store) (f : FrameId) (head : Value) (operands : List Value) : Prop :=
  match SpecialForm.ofHead? head with
  | some form => p.Operands s f form operands
  | none => p.Expr s head f ∧ ∀ e ∈ operands, p.Expr s e f

/-- What an expression has to be for its evaluation to keep to the policy. -/
def Parts (s : Store) (f : FrameId) : Value → Prop
  | .symbol x => s.lookup? f (.symbol x) = none → p.Allowed (.error (.unbound x))
  | .number _ => True
  | .list _ [] => p.Allowed (.error (.type .emptyCombination))
  | .tuple _ [] => p.Allowed (.error (.type .emptyCombination))
  | .list _ (head :: operands) => p.Combination s f head operands
  | .tuple _ (head :: operands) => p.Combination s f head operands
  | _ => ∀ t, p.Allowed (.error (.type (.unknownExpression t)))

/-! ### Policies that allow faults of form -/

section FormFaults

variable {p} {s : Store} {f : FrameId} {operands : List Value}
  (hform : ∀ fault, p.Allowed (.error (.form fault)))
include hform

theorem operands_quote (h : ∀ v ∈ operands, p.Good s v) : p.Operands s f .quote operands :=
  match operands, h with
  | [], _ => hform _
  | [v], h => h v (by simp)
  | _ :: _ :: _, _ => hform _

theorem operands_conditional (h : ∀ e ∈ operands, p.Expr s e f) :
    p.Operands s f .conditional operands :=
  match operands, h with
  | [], _ | [_], _ | [_, _], _ | _ :: _ :: _ :: _ :: _, _ => hform _
  | [_, _, _], h => ⟨h _ (by simp), h _ (by simp), h _ (by simp)⟩

theorem operands_define (h : ∀ x e, operands = [.symbol x, e] → p.Expr s e f) :
    p.Operands s f .define operands := by
  match operands, h with
  | [], _ => exact hform _
  | [_], _ | _ :: _ :: _ :: _, _ =>
    simp only [Operands]
    exact hform _
  | [name, e], h =>
    cases name with
    | symbol x => exact h x e rfl
    | _ => exact fun _ => hform _

theorem operands_lambda (h : ∀ params body names, operands = [params, body] →
      Machine.parameters? params = some names → names.Nodup →
      ∀ mark, p.Good s (.closure mark names body f)) :
    p.Operands s f .lambda operands := by
  match operands, h with
  | [], _ | [_], _ | _ :: _ :: _ :: _, _ => exact hform _
  | [params, body], h =>
    simp only [Operands]
    cases hnames : Machine.parameters? params with
    | none => exact fun _ => hform _
    | some names =>
      dsimp only
      split
      · next hdistinct => exact h params body names rfl hnames (nodup_of_length_eraseDups hdistinct)
      · exact hform _

/-- Where nothing is asked of the shape of an expression, it is enough that its parts are allowed and
that a procedure may be made of any of them. -/
theorem combination_of_parts {head : Value} (hparts : ∀ e ∈ head :: operands, p.Expr s e f)
    (hgood : ∀ e, p.Expr s e f → p.Good s e)
    (hclosure : ∀ mark names body, names.Nodup → p.Expr s body f →
      p.Good s (.closure mark names body f)) :
    p.Combination s f head operands := by
  have hops : ∀ e ∈ operands, p.Expr s e f := fun e he => hparts e (by simp [he])
  unfold Combination
  cases SpecialForm.ofHead? head with
  | none => exact ⟨hparts head (by simp), hops⟩
  | some form =>
    cases form with
    | quote => exact operands_quote hform fun e he => hgood e (hops e he)
    | conditional => exact operands_conditional hform hops
    | define => exact operands_define hform fun x e he => hops e (by simp [he])
    | lambda =>
      refine operands_lambda hform fun params body names he _ hnodup mark => ?_
      exact hclosure mark names body hnodup (hops body (by simp [he]))

end FormFaults

/-- Where every fault is allowed, it is enough that an expression holds procedures that are. -/
theorem parts_of_good {p : Policy} {s : Store} {f : FrameId} (hfree : ∀ fault, p.Allowed fault)
    (hexpr : ∀ e, p.Good s e → p.Expr s e f)
    (hgood : ∀ e, p.Expr s e f → p.Good s e)
    (hproc : ∀ mark names body, names.Nodup → p.Proc s (.closure mark names body f)) {e : Value}
    (he : p.Good s e) : p.Parts s f e := by
  match e with
  | .symbol _ => exact fun _ => hfree _
  | .number _ => trivial
  | .list _ [] | .tuple _ [] => exact hfree _
  | .list _ (_ :: _) | .tuple _ (_ :: _) =>
    refine combination_of_parts (fun _ => hfree _) (fun e hmem => ?_) hgood ?_
    · exact hexpr e (Value.proceduresAll_iff.1 he e hmem)
    · exact fun mark names body hnodup h => ⟨hproc mark names body hnodup, hgood body h⟩
  | .bool _ | .unspecified | .primitive _ _ | .closure _ _ _ _ | .text _ | .nothing =>
    exact fun _ => hfree _

/-- A store keeps to a policy: its frames do, and so does all that is bound. -/
structure Holds (s : Store) : Prop where
  inv : p.Inv s
  bound : ∀ (g : FrameId) (fr : Frame) (b : Value × Value),
    s.frames[g]? = some fr → b ∈ fr.bindings → p.Good s b.2

structure Lawful : Prop where
  expr_mono : ∀ {s s' e f}, s.Extends s' → p.Expr s e f → p.Expr s' e f
  proc_mono : ∀ {s s' v}, s.Extends s' → p.Proc s v → p.Proc s' v
  inv_eq : ∀ {s s' : Store}, s'.frames = s.frames → p.Inv s → p.Inv s'
  inv_insert : ∀ {s f x v}, p.Inv s → p.Inv (s.insert f (.symbol x) v)
  ordinary : ∀ {fault}, fault.Ordinary → p.Allowed fault
  parts : ∀ {s e f}, p.Expr s e f → p.Parts s f e
  enter : ∀ {s mark params body f} {args : List Value}, p.Holds s →
    p.Good s (.closure mark params body f) → params.length = args.length →
    p.Inv (Machine.entered s params args f) ∧
      p.Expr (Machine.entered s params args f) body s.frames.size

variable {p}

theorem Lawful.good_mono (hp : p.Lawful) {s s' : Store} (h : s.Extends s') {v : Value}
    (hv : p.Good s v) : p.Good s' v :=
  Value.Procedures.mono (fun _ => hp.proc_mono h) v hv

/-! ## Stores -/

theorem Lawful.holds_eq (hp : p.Lawful) {s s' : Store} (h : s'.frames = s.frames)
    (hs : p.Holds s) : p.Holds s' := by
  refine ⟨hp.inv_eq h hs.inv, fun g fr b hfr hb => ?_⟩
  rw [h] at hfr
  exact hp.good_mono (Store.Writes.of_frames_eq h) (hs.bound g fr b hfr hb)

theorem Lawful.holds_insert (hp : p.Lawful) {s : Store} (hs : p.Holds s) (f : FrameId)
    (x : String) {v : Value} (hv : p.Good s v) : p.Holds (s.insert f (.symbol x) v) := by
  have hext : s.Extends (s.insert f (.symbol x) v) := Store.writes_insert trivial v
  refine ⟨hp.inv_insert hs.inv, fun g fr b hfr hb => hp.good_mono hext ?_⟩
  obtain ⟨fr₀, hfr₀, -, hvalues⟩ := Store.exists_frame_of_insert hfr
  rcases hvalues b hb with hb | hb
  · exact hs.bound g fr₀ b hfr₀ hb
  · rw [hb]; exact hv

theorem mem_foldl_bind {pairs bs : List (Value × Value)} {b : Value × Value}
    (h : b ∈ pairs.foldl (fun bs c => Frame.bind c.1 c.2 bs) bs) :
    b ∈ bs ∨ ∃ c ∈ pairs, b.2 = c.2 := by
  induction pairs generalizing bs with
  | nil => exact Or.inl h
  | cons c pairs ih =>
    rcases ih h with h | ⟨d, hd, hbd⟩
    · rcases Frame.mem_bind h with h | h
      · exact Or.inl h
      · exact Or.inr ⟨c, by simp, h⟩
    · exact Or.inr ⟨d, by simp [hd], hbd⟩

theorem Lawful.holds_entered (hp : p.Lawful) {s : Store} (hs : p.Holds s) {mark : Mark}
    {params : List String} {body : Value} {f : FrameId} {args : List Value}
    (hc : p.Good s (.closure mark params body f)) (hlen : params.length = args.length)
    (hargs : ∀ v ∈ args, p.Good s v) : p.Holds (Machine.entered s params args f) := by
  have hext : s.Extends (Machine.entered s params args f) :=
    (Machine.keeps_entered s params args f).mono fun _ _ h => h.elim
  refine ⟨(hp.enter hs hc hlen).1, fun g fr b hfr hb => hp.good_mono hext ?_⟩
  simp only [Machine.entered, Store.push, Store.note, Array.getElem?_push] at hfr
  split at hfr
  · cases hfr
    rcases mem_foldl_bind hb with hb | ⟨c, hc, hbc⟩
    · cases hb
    · rw [hbc]
      exact hargs c.2 (List.of_mem_zip hc).2
  · exact hs.bound g fr b hfr hb

theorem exists_mem_of_lookup? {s : Store} {f : FrameId} {name v : Value}
    (h : s.lookup? f name = some v) :
    ∃ (g : FrameId) (fr : Frame) (b : Value × Value),
      s.frames[g]? = some fr ∧ b ∈ fr.bindings ∧ b.2 = v := by
  obtain ⟨g, -, hg⟩ := List.exists_of_findSome?_eq_some h
  obtain ⟨fr, hfr, hv⟩ := Option.bind_eq_some_iff.1 hg
  obtain ⟨b, hb, rfl⟩ := Option.map_eq_some_iff.1 hv
  exact ⟨g, fr, b, hfr, List.mem_of_find?_eq_some hb, rfl⟩

/-! ## Computations -/

variable {α β : Type}

/-- From a store that keeps to the policy `x` leads to one that does, and a value satisfies `Q`. -/
def Leads (p : Policy) (x : Eval α) (s : Store) (Q : Store → α → Prop) : Prop :=
  p.Holds s → x.Ends s (fun a s' => s.Extends s' ∧ p.Holds s' ∧ Q s' a)
    (fun fault s' => s.Extends s' ∧ p.Holds s' ∧ p.Allowed fault)

variable {Q : Store → α → Prop} {s : Store}

theorem leads_pure {a : α} (h : Q s a) : p.Leads (pure a) s Q :=
  fun hs => ⟨Store.Writes.refl s, hs, h⟩

theorem leads_throw {fault : Fault} (h : p.Allowed fault) :
    p.Leads (throw fault : Eval α) s Q :=
  fun hs => ⟨Store.Writes.refl s, hs, h⟩

theorem leads_fail {e : LispError} (h : p.Allowed (.error e)) :
    p.Leads (Eval.fail e : Eval α) s Q :=
  leads_throw h

theorem Leads.bind {x : Eval α} {f : α → Eval β} {R : Store → β → Prop} (hx : p.Leads x s Q)
    (hf : ∀ a s', s.Extends s' → Q s' a → p.Leads (f a) s' R) : p.Leads (x >>= f) s R := by
  intro hs
  refine (hx hs).bind (fun a s' h => ?_) fun fault s' h => h
  obtain ⟨hext, hs', ha⟩ := h
  refine (hf a s' hext ha hs').mono (fun b s'' h => ?_) fun fault s'' h => ?_
  · exact ⟨Store.Writes.trans hext h.1, h.2⟩
  · exact ⟨Store.Writes.trans hext h.1, h.2⟩

theorem Leads.after {x : Eval α} (hx : p.Leads x s Q) (hs : p.Holds s) :
    s.Extends (x.after s) ∧ p.Holds (x.after s) := by
  refine Eval.Ends.after (P := fun s' => s.Extends s' ∧ p.Holds s') (hx hs) ?_ ?_
  · exact fun _ _ h => ⟨h.1, h.2.1⟩
  · exact fun _ _ h => ⟨h.1, h.2.1⟩

/-- A change of the store that leaves the frames alone. -/
theorem Lawful.leads_modify (hp : p.Lawful) {g : Store → Store} (hg : (g s).frames = s.frames) :
    p.Leads (modify g) s fun _ _ => True :=
  fun hs => ⟨Store.Writes.of_frames_eq hg, hp.holds_eq hg hs, trivial⟩

theorem leads_get : p.Leads get s fun s' found => s' = found :=
  fun hs => ⟨Store.Writes.refl s, hs, rfl⟩

theorem Lawful.leads_text (hp : p.Lawful) (t : Except TextFault String) :
    p.Leads (Eval.text t) s fun _ _ => True := by
  cases t with
  | ok a => exact leads_pure trivial
  | error f => exact leads_throw (hp.ordinary (Fault.ordinary_ofText f))

/-- A failure whose message shows a value. -/
theorem Lawful.leads_fail_text (hp : p.Lawful) {t : Except TextFault String}
    {e : String → LispError} (h : ∀ text, p.Allowed (.error (e text))) :
    p.Leads (do Eval.fail (e (← Eval.text t)) : Eval α) s Q :=
  (hp.leads_text t).bind fun text _ _ _ => leads_fail (h text)

theorem Lawful.leads_within (hp : p.Lawful) (name : String) {x : Eval α} (hx : p.Leads x s Q) :
    p.Leads (Machine.within name x) s Q := by
  intro hs
  have h := hx hs
  unfold Eval.Ends at h
  unfold Eval.Ends Machine.within Eval.mapFault
  cases hxs : x s with
  | ok a s' => rw [hxs] at h; exact h
  | error fault s' =>
    rw [hxs] at h
    refine ⟨h.1, h.2.1, ?_⟩
    cases fault with
    | integerText => exact hp.ordinary trivial
    | depth => exact h.2.2
    | error e => exact h.2.2

theorem Lawful.leads_attempt (hp : p.Lawful) (name : String) {r : Attempt α} {P : α → Prop}
    (h : r.Gives P) : p.Leads (Machine.attempt name r) s fun _ a => P a := by
  cases r with
  | ok a => exact leads_pure h
  | error r => exact leads_throw (hp.ordinary (h.toFault name))

theorem Lawful.leads_misuse (hp : p.Lawful) (name : String) (m : Misuse) :
    p.Leads (Machine.attempt name (Attempt.misuse m : Attempt α)) s Q :=
  leads_throw (hp.ordinary trivial)

theorem Lawful.leads_makeList (hp : p.Lawful) {items : List Value}
    (h : ∀ v ∈ items, p.Good s v) : p.Leads (Eval.makeList items) s p.Good := by
  intro hs
  have hf : ({ s with nextMark := s.nextMark + 1 } : Store).frames = s.frames := rfl
  have hext := Store.Writes.of_frames_eq (W := fun _ _ => True) hf
  exact ⟨hext, hp.holds_eq hf hs,
    Value.proceduresAll_iff.2 fun v hv => hp.good_mono hext (h v hv)⟩

theorem Lawful.leads_makeTuple (hp : p.Lawful) {items : List Value}
    (h : ∀ v ∈ items, p.Good s v) : p.Leads (Eval.makeTuple items) s p.Good := by
  intro hs
  have hf : ({ s with nextMark := s.nextMark + items.length } : Store).frames = s.frames := rfl
  have hext := Store.Writes.of_frames_eq (W := fun _ _ => True) hf
  exact ⟨hext, hp.holds_eq hf hs,
    Value.proceduresAll_iff.2 fun v hv => hp.good_mono hext (h v hv)⟩

theorem Lawful.leads_settle (hp : p.Lawful) (name : String) {r : Attempt Answer}
    (h : r.Gives (Answer.Satisfies (p.Good s))) : p.Leads (Machine.settle name r) s p.Good := by
  match r with
  | .ok (.value v) => exact leads_pure h
  | .ok (.list items) => exact hp.leads_makeList h
  | .ok (.tuple items) =>
    refine hp.leads_makeTuple fun v hv => ?_
    obtain ⟨x, rfl⟩ := h v hv
    trivial
  | .error r => exact leads_throw (hp.ordinary (h.toFault name))

/-! ## One level of evaluation -/

/-- A level that keeps to a policy. -/
structure Sound (p : Policy) (m : Machine) : Prop where
  eval : ∀ {s e f}, p.Expr s e f → p.Leads (m.eval e f) s p.Good
  call : ∀ {s procedure} {args : List Value}, p.Good s procedure → (∀ v ∈ args, p.Good s v) →
    p.Leads (m.call procedure args) s p.Good

variable {m : Machine}

theorem leads_lookup {depth : Nat} {f : FrameId} {x : String}
    (h : s.lookup? f (.symbol x) = none → p.Allowed (.error (.unbound x))) :
    p.Leads (Eval.lookup depth f (.symbol x)) s p.Good := by
  intro hs
  unfold Eval.Ends
  rw [Eval.lookup_symbol]
  cases hl : s.lookup? f (.symbol x) with
  | none => exact ⟨Store.Writes.refl s, hs, h hl⟩
  | some v =>
    obtain ⟨g, fr, b, hfr, hb, rfl⟩ := exists_mem_of_lookup? hl
    exact ⟨Store.Writes.refl s, hs, hs.bound g fr b hfr hb⟩

theorem Sound.leads_evalAll (hm : p.Sound m) (hp : p.Lawful) {f : FrameId} {es : List Value}
    (h : ∀ e ∈ es, p.Expr s e f) :
    p.Leads (m.evalAll f es) s fun s' vs => ∀ v ∈ vs, p.Good s' v := by
  induction es generalizing s with
  | nil => exact leads_pure (by simp)
  | cons e es ih =>
    refine (hm.eval (h e (by simp))).bind fun v s₁ hext₁ hv => ?_
    refine (ih fun e' he' => hp.expr_mono hext₁ (h e' (by simp [he']))).bind fun vs s₂ hext₂ hvs => ?_
    refine leads_pure fun w hw => ?_
    rcases List.mem_cons.1 hw with rfl | hw
    · exact hp.good_mono hext₂ hv
    · exact hvs w hw

theorem leads_quote {operands : List Value} {f : FrameId} (h : p.Operands s f .quote operands) :
    p.Leads (Machine.quote operands) s p.Good :=
  match operands, h with
  | [], h => leads_fail h
  | [_], h => leads_pure h
  | _ :: _ :: _, h => leads_fail h

theorem Sound.leads_conditional (hm : p.Sound m) (hp : p.Lawful) {operands : List Value}
    {f : FrameId} (h : p.Operands s f .conditional operands) :
    p.Leads (m.conditional operands f) s p.Good := by
  match operands, h with
  | [], h | [_], h | [_, _], h | _ :: _ :: _ :: _ :: _, h => exact leads_fail h
  | [test, consequent, alternative], ⟨htest, hthen, helse⟩ =>
    refine (hm.eval htest).bind fun v s' hext _ => ?_
    split
    · exact hm.eval (hp.expr_mono hext helse)
    · exact hm.eval (hp.expr_mono hext hthen)

theorem Lawful.leads_insert (hp : p.Lawful) (f : FrameId) (x : String) {v : Value}
    (hv : p.Good s v) :
    p.Leads (modify fun s => s.insert f (.symbol x) v) s fun _ _ => True :=
  fun hs => ⟨Store.writes_insert trivial v, hp.holds_insert hs f x hv, trivial⟩

theorem Sound.leads_define (hm : p.Sound m) (hp : p.Lawful) {operands : List Value}
    {f : FrameId} (h : p.Operands s f .define operands) :
    p.Leads (m.define operands f) s p.Good := by
  match operands, h with
  | [], h => exact leads_fail h
  | [_], h | _ :: _ :: _ :: _, h =>
    simp only [Operands] at h
    simp only [Machine.define]
    exact leads_fail h
  | [name, e], h =>
    cases name with
    | symbol x =>
      refine (hm.eval h).bind fun v s₁ _ hv => ?_
      exact (hp.leads_insert f x hv).bind fun _ _ _ _ => leads_pure trivial
    | _ => exact hp.leads_fail_text h

theorem Lawful.leads_lambda (hp : p.Lawful) (m : Machine) {operands : List Value} {f : FrameId}
    (h : p.Operands s f .lambda operands) : p.Leads (m.lambda operands f) s p.Good := by
  match operands, h with
  | [], h | [_], h | _ :: _ :: _ :: _, h => exact leads_fail h
  | [params, body], h =>
    simp only [Operands] at h
    simp only [Machine.lambda]
    cases hnames : Machine.parameters? params with
    | none =>
      rw [hnames] at h
      exact hp.leads_fail_text h
    | some names =>
      rw [hnames] at h
      dsimp only at h ⊢
      split
      · next hdistinct =>
        rw [if_pos hdistinct] at h
        intro hs
        have hf : ({ s with nextMark := s.nextMark + 1 } : Store).frames = s.frames := rfl
        have hext := Store.Writes.of_frames_eq (W := fun _ _ => True) hf
        exact ⟨hext, hp.holds_eq hf hs, hp.good_mono hext (h _)⟩
      · next hrepeated =>
        rw [if_neg hrepeated] at h
        exact leads_fail h

theorem Sound.leads_combination (hm : p.Sound m) (hp : p.Lawful) {head : Value}
    {operands : List Value} {f : FrameId} (h : p.Combination s f head operands) :
    p.Leads (m.combination head operands f) s p.Good := by
  unfold Combination at h
  unfold Machine.combination
  cases hform : SpecialForm.ofHead? head with
  | some form =>
    rw [hform] at h
    cases form with
    | quote => exact leads_quote h
    | conditional => exact hm.leads_conditional hp h
    | define => exact hm.leads_define hp h
    | lambda => exact hp.leads_lambda m h
  | none =>
    rw [hform] at h
    obtain ⟨hhead, hoperands⟩ := h
    refine (hm.eval hhead).bind fun procedure s₁ hext₁ hproc => ?_
    refine (hm.leads_evalAll hp fun e he => hp.expr_mono hext₁ (hoperands e he)).bind ?_
    intro args s₂ hext₂ hargs
    exact hm.call (hp.good_mono hext₂ hproc) hargs

theorem Sound.leads_evalStep (hm : p.Sound m) (hp : p.Lawful) {e : Value} {f : FrameId}
    (h : p.Parts s f e) : p.Leads (m.evalStep e f) s p.Good := by
  match e, h with
  | .symbol x, h => exact leads_lookup h
  | .number x, _ => exact leads_pure trivial
  | .list _ [], h | .tuple _ [], h => exact leads_fail h
  | .list _ (_ :: _), h | .tuple _ (_ :: _), h => exact hm.leads_combination hp h
  | .bool _, h | .unspecified, h | .primitive _ _, h | .closure _ _ _ _, h | .text _, h
  | .nothing, h => exact hp.leads_fail_text h

/-! ## Calls of one level -/

theorem Sound.leads_callAll (hm : p.Sound m) (hp : p.Lawful) {procedure : Value}
    {rows : List (List Value)} (hproc : p.Good s procedure)
    (hrows : ∀ args ∈ rows, ∀ v ∈ args, p.Good s v) :
    p.Leads (m.callAll procedure rows) s fun s' vs => ∀ v ∈ vs, p.Good s' v := by
  induction rows generalizing s with
  | nil => exact leads_pure (by simp)
  | cons args rows ih =>
    refine (hm.call hproc (hrows args (by simp))).bind fun v s₁ hext₁ hv => ?_
    have hrest : ∀ args' ∈ rows, ∀ w ∈ args', p.Good s₁ w := fun args' ha w hw =>
      hp.good_mono hext₁ (hrows args' (by simp [ha]) w hw)
    refine (ih (hp.good_mono hext₁ hproc) hrest).bind fun vs s₂ hext₂ hvs => ?_
    refine leads_pure fun w hw => ?_
    rcases List.mem_cons.1 hw with rfl | hw
    · exact hp.good_mono hext₂ hv
    · exact hvs w hw

theorem exists_of_mem_heads {vss : List (List Value)} {heads : List Value} {v : Value}
    (h : vss.mapM List.head? = some heads) (hv : v ∈ heads) : ∃ vs ∈ vss, v ∈ vs := by
  induction vss generalizing heads with
  | nil => cases h; cases hv
  | cons vs vss ih =>
    rw [List.mapM_cons] at h
    obtain ⟨w, hw, h⟩ := Option.bind_eq_some_iff.1 h
    obtain ⟨ws, hws, h⟩ := Option.bind_eq_some_iff.1 h
    cases h
    rcases List.mem_cons.1 hv with rfl | hv
    · exact ⟨vs, by simp, List.mem_of_mem_head? hw⟩
    · obtain ⟨us, hus, hv⟩ := ih hws hv
      exact ⟨us, by simp [hus], hv⟩

theorem mem_rows {first : List Value} {others : List (List Value)} {row : List Value} {v : Value}
    (hrow : row ∈ Machine.rows first others) (hv : v ∈ row) : v ∈ first ∨ ∃ vs ∈ others, v ∈ vs := by
  induction first generalizing others with
  | nil => cases hrow
  | cons x xs ih =>
    unfold Machine.rows at hrow
    split at hrow
    · next ys hys =>
      rcases List.mem_cons.1 hrow with rfl | hrow
      · rcases List.mem_cons.1 hv with rfl | hv
        · exact Or.inl (by simp)
        · exact Or.inr (exists_of_mem_heads hys hv)
      · rcases ih hrow with h | ⟨vs, hvs, h⟩
        · exact Or.inl (List.mem_cons_of_mem _ h)
        · obtain ⟨ws, hws, rfl⟩ := List.mem_map.1 hvs
          exact Or.inr ⟨ws, hws, List.mem_of_mem_tail h⟩
    · cases hrow

theorem forall_rows {P : Value → Prop} {first : List Value} {others : List (List Value)}
    (hfirst : ∀ v ∈ first, P v) (hothers : ∀ vs ∈ others, ∀ v ∈ vs, P v) :
    ∀ row ∈ Machine.rows first others, ∀ v ∈ row, P v := by
  intro row hrow v hv
  rcases mem_rows hrow hv with h | ⟨vs, hvs, h⟩
  · exact hfirst v h
  · exact hothers vs hvs v h

theorem gives_items_good {name : String} {list : Value} (h : p.Good s list) :
    (Argument.items m.depth name list).Gives fun vs => ∀ v ∈ vs, p.Good s v :=
  Argument.gives_items h

theorem gives_mapM_items_good {name : String} {lists : List Value}
    (h : ∀ list ∈ lists, p.Good s list) :
    (lists.mapM (Argument.items m.depth name)).Gives fun vss => ∀ vs ∈ vss, ∀ v ∈ vs, p.Good s v :=
  Attempt.gives_mapM fun list hlist => gives_items_good (h list hlist)

theorem Sound.leads_callMap (hm : p.Sound m) (hp : p.Lawful) {args : List Value}
    (hargs : ∀ v ∈ args, p.Good s v) : p.Leads (m.callMap args) s p.Good := by
  match args, hargs with
  | [], _ => exact hp.leads_misuse _ _
  | [_], _ => exact leads_fail (hp.ordinary trivial)
  | procedure :: first :: others, hargs =>
    have hfirst : p.Good s first := hargs first (by simp)
    have hothers : ∀ list ∈ others, p.Good s list := fun list h => hargs list (by simp [h])
    refine (hp.leads_attempt "map" (gives_items_good hfirst)).bind fun vs s₁ hext₁ hvs => ?_
    refine (hp.leads_attempt "map" (gives_mapM_items_good hothers)).bind fun vss s₂ hext₂ hvss => ?_
    have hext := Store.Writes.trans hext₁ hext₂
    have hrows : ∀ row ∈ Machine.rows vs vss, ∀ v ∈ row, p.Good s₂ v :=
      forall_rows (fun v hv => hp.good_mono hext (hvs v hv))
        fun ws hws v hv => hp.good_mono hext (hvss ws hws v hv)
    have hproc : p.Good s₂ procedure := hp.good_mono hext (hargs procedure (by simp))
    exact (hm.leads_callAll hp hproc hrows).bind fun items _ _ hitems => hp.leads_makeList hitems

theorem Sound.leads_callApply (hm : p.Sound m) (hp : p.Lawful) {args : List Value}
    (hargs : ∀ v ∈ args, p.Good s v) : p.Leads (m.callApply args) s p.Good := by
  unfold Machine.callApply
  split
  · next procedure list =>
    have hlist : p.Good s list := hargs list (by simp)
    refine (hp.leads_attempt "apply" (gives_items_good hlist)).bind fun vs s₁ hext hvs => ?_
    exact hm.call (hp.good_mono hext (hargs procedure (by simp)))
      fun v hv => hp.good_mono hext (hvs v hv)
  · exact hp.leads_misuse _ _

theorem Lawful.leads_showBinding (hp : p.Lawful) (m : Machine) (b : Value × Value) (s : Store) :
    p.Leads (m.showBinding b) s fun _ _ => True :=
  (hp.leads_text _).bind fun _ _ _ _ => (hp.leads_text _).bind fun _ _ _ _ => hp.leads_modify rfl

theorem leads_forM {f : α → Eval Unit} {xs : List α}
    (h : ∀ a ∈ xs, ∀ s', s.Extends s' → p.Leads (f a) s' fun _ _ => True) :
    p.Leads (xs.forM f) s fun _ _ => True := by
  induction xs generalizing s with
  | nil => exact leads_pure trivial
  | cons a xs ih =>
    refine (h a (by simp) s (Store.Writes.refl s)).bind fun _ s₁ hext₁ _ => ?_
    exact ih fun b hb s' hext => h b (by simp [hb]) s' (Store.Writes.trans hext₁ hext)

theorem Lawful.leads_showFrames (hp : p.Lawful) (m : Machine) (level : Nat) (fs : List FrameId)
    (s : Store) : p.Leads (m.showFrames level fs) s fun _ _ => True := by
  induction fs generalizing level s with
  | nil => exact leads_pure trivial
  | cons f fs ih =>
    refine Leads.bind (hp.leads_modify rfl) fun _ s₁ _ _ => ?_
    refine leads_get.bind fun found s₂ _ _ => ?_
    exact (leads_forM fun b _ s' _ => hp.leads_showBinding m b s').bind fun _ s₃ _ _ => ih (level + 1) s₃

theorem Sound.leads_callBuiltin (hm : p.Sound m) (hp : p.Lawful) {b : Builtin} {args : List Value}
    (hargs : ∀ v ∈ args, p.Good s v) : p.Leads (m.callBuiltin b args) s p.Good := by
  cases b with
  | operation op => exact hp.leads_settle _ (Operation.gives_call _ op hargs)
  | map => exact hp.leads_within _ (hm.leads_callMap hp hargs)
  | apply => exact hp.leads_within _ (hm.leads_callApply hp hargs)
  | showFrames f =>
    simp only [Machine.callBuiltin]
    split
    · refine hp.leads_within _ (leads_get.bind fun found s₁ _ _ => ?_)
      exact (hp.leads_showFrames m 0 _ s₁).bind fun _ _ _ _ => leads_pure trivial
    · exact hp.leads_misuse _ _
  | record =>
    simp only [Machine.callBuiltin]
    split
    · next v =>
      refine hp.leads_within _ ((hp.leads_text _).bind fun _ s₁ hext₁ _ => ?_)
      refine Leads.bind (hp.leads_modify rfl) fun _ s₂ hext₂ _ => leads_pure ?_
      exact hp.good_mono (Store.Writes.trans hext₁ hext₂) (hargs v (by simp))
    · exact hp.leads_misuse _ _

theorem Sound.leads_callClosure (hm : p.Sound m) (hp : p.Lawful) {mark : Mark}
    {params : List String} {body : Value} {f : FrameId} {args : List Value}
    (hproc : p.Good s (.closure mark params body f)) (hargs : ∀ v ∈ args, p.Good s v) :
    p.Leads (m.callStep (.closure mark params body f) args) s p.Good := by
  intro hs
  unfold Eval.Ends
  by_cases hlen : params.length = args.length
  · have hext : s.Extends (Machine.entered s params args f) :=
      (Machine.keeps_entered s params args f).mono fun _ _ h => h.elim
    have hbody := hm.eval (hp.enter hs hproc hlen).2 (hp.holds_entered hs hproc hlen hargs)
    rw [Machine.callStep_closure m hlen]
    refine hbody.mono (fun v s' h => ?_) fun fault s' h => ?_
    · exact ⟨Store.Writes.trans hext h.1, h.2⟩
    · exact ⟨Store.Writes.trans hext h.1, h.2⟩
  · have hf : (s.note (.applied params args.length)).frames = s.frames := rfl
    rw [Machine.callStep_closure_arity m hlen]
    exact ⟨Store.Writes.of_frames_eq hf, hp.holds_eq hf hs, hp.ordinary trivial⟩

theorem Sound.leads_callStep (hm : p.Sound m) (hp : p.Lawful) {procedure : Value}
    {args : List Value} (hproc : p.Good s procedure) (hargs : ∀ v ∈ args, p.Good s v) :
    p.Leads (m.callStep procedure args) s p.Good := by
  cases procedure with
  | closure mark params body f => exact hm.leads_callClosure hp hproc hargs
  | primitive mark b => exact hm.leads_callBuiltin hp hargs
  | _ => exact hp.leads_fail_text fun _ => hp.ordinary trivial

/-! ## Evaluation and calls at every depth -/

theorem Lawful.sound_level (hp : p.Lawful) (d : Nat) : p.Sound (Machine.level d) := by
  induction d with
  | zero => exact ⟨fun _ => leads_throw (hp.ordinary trivial),
      fun _ _ => leads_throw (hp.ordinary trivial)⟩
  | succ d ih => exact ⟨fun h => ih.leads_evalStep hp (hp.parts h), ih.leads_callStep hp⟩

theorem Lawful.evaluate (hp : p.Lawful) (d : Nat) {e : Value} {f : FrameId}
    (h : p.Expr s e f) : p.Leads (SmallLisp.evaluate d e f) s p.Good :=
  (hp.sound_level d).eval h

theorem Lawful.call (hp : p.Lawful) (d : Nat) {procedure : Value} {args : List Value}
    (hproc : p.Good s procedure) (hargs : ∀ v ∈ args, p.Good s v) :
    p.Leads (SmallLisp.call d procedure args) s p.Good :=
  (hp.sound_level d).call hproc hargs

/-! ## No restriction -/

/-- Everything is allowed. -/
def any : Policy := ⟨fun _ _ _ => True, fun _ _ => True, fun _ => True, fun _ => True⟩

theorem any_good (s : Store) (v : Value) : any.Good s v :=
  Value.procedures_of_forall (fun _ => trivial) v

theorem any_holds (s : Store) : any.Holds s :=
  ⟨trivial, fun _ _ b _ _ => any_good s b.2⟩

theorem any_lawful : any.Lawful where
  expr_mono _ _ := trivial
  proc_mono _ _ := trivial
  inv_eq _ _ := trivial
  inv_insert _ := trivial
  ordinary _ := trivial
  parts {s e _} _ := parts_of_good (fun _ => trivial) (fun _ _ => trivial) (fun v _ => any_good s v)
    (fun _ _ _ _ => trivial) (any_good s e)
  enter _ _ _ := ⟨trivial, trivial⟩

end Policy

end SmallLisp
