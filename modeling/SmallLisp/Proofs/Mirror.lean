import SmallLisp.Proofs.Growth
import SmallLisp.Proofs.Programs
import SmallLisp.Proofs.Renaming.Operations

/-!
Runs that mirror each other.

A `Mirror` compares a run with a second one, of the same expression with frames and marks renamed: it
says how their stores are related, and which stores are out of its sight.  It is lawful if each step
that touches the store keeps the stores related, or leads out of sight (`Mirror.Lawful`).  Then whole
evaluations, calls and programs come to the same end, with the value renamed, unless they are out of
sight by then:

    c.Lawful p → p.Lawful → p.Expr s e f → p.Holds s → c.Rel s t →
      c.Lost (…) (…) ∨ Alike c.Rel ((Value.rename r <$> evaluate d e f) s)
        (evaluate d (e.rename r) (r.frame f) t)                              (Mirror.Lawful.evaluate)
-/

namespace SmallLisp

open Eval (Alike)

/-! ## Parts of stores -/

namespace Store

/-- Give out some marks. -/
def spend (s : Store) (n : Nat) : Store := { s with nextMark := s.nextMark + n }

def addFrame (s : Store) (fr : Frame) : Store := { s with frames := s.frames.push fr }

end Store

theorem Eval.intern_eq (d : Datum) :
    Eval.intern d = modifyGet fun s => ((d.intern s.nextMark).1, s.spend d.marks) := by
  unfold Eval.intern Store.spend
  simp only [Datum.intern_snd]

theorem Interpreter.evalData_cons (limit : Nat) (root : FrameId) (last : Value) (d : Datum)
    (ds : List Datum) (s : Store) :
    evalData limit root last (d :: ds) s =
      (evaluate limit (d.intern s.nextMark).1 root >>= fun v => evalData limit root v ds)
        (s.spend d.marks) := by
  rw [evalData, Eval.intern_eq]
  rfl

namespace Machine

theorem define_of_length_ne (m : Machine) {operands : List Value} (h : operands.length ≠ 2)
    (f : FrameId) : m.define operands f = Eval.fail (.form .defineOperands) := by
  match operands, h with
  | [], _ => rfl
  | [_], _ | _ :: _ :: _ :: _, _ => simp only [define]
  | [_, _], h => exact absurd rfl h

/-! ## Showing bindings -/

theorem heading_ne (level : Nat) : heading level ≠ "" := by
  unfold heading
  generalize Text.decimal level = number
  intro h
  exact absurd (String.append_eq_empty_iff.1 h).2 (by decide)

/-- Show the bindings of frames one after another, numbered from `level` on. -/
def showAll (m : Machine) (level : Nat) : List (List (Value × Value)) → Eval Unit
  | [] => pure ()
  | bindings :: rest => do
    modify fun s => s.display (heading level)
    bindings.forM m.showBinding
    m.showAll (level + 1) rest

theorem frames_showBindings (m : Machine) (bindings : List (Value × Value)) :
    (bindings.forM m.showBinding).Moves fun s s' => s'.frames = s.frames := by
  have : IsPreorder Store fun s s' => s'.frames = s.frames :=
    { refl := fun _ => rfl, trans := fun _ _ _ h h' => h'.trans h }
  refine Eval.moves_forM (fun b => ?_) bindings
  exact (Eval.moves_text _).bind fun _ => (Eval.moves_text _).bind fun _ =>
    Eval.moves_modify fun _ => rfl

/-- Nothing that is shown changes a frame, so the bindings can be had beforehand. -/
theorem showFrames_eq (m : Machine) (level : Nat) (ids : List FrameId) (s : Store) :
    m.showFrames level ids s = m.showAll level (ids.map s.bindings) s := by
  induction ids generalizing level s with
  | nil => rfl
  | cons g ids ih =>
    have hshow : m.showFrames level (g :: ids) s =
        ((s.bindings g).forM m.showBinding >>= fun _ => m.showFrames (level + 1) ids)
          (s.display (heading level)) := rfl
    have hshow' : m.showAll level ((g :: ids).map s.bindings) s =
        ((s.bindings g).forM m.showBinding >>= fun _ =>
          m.showAll (level + 1) (ids.map s.bindings))
          (s.display (heading level)) := rfl
    have hframes := m.frames_showBindings (s.bindings g)
      (s.display (heading level))
    rw [hshow, hshow']
    cases hx : (s.bindings g).forM m.showBinding
        (s.display (heading level)) with
    | error fault s' => rw [Eval.bind_error hx, Eval.bind_error hx]
    | ok u s' =>
      rw [Eval.after_ok hx] at hframes
      have hbindings : s'.bindings = s.bindings := by
        funext g'
        unfold Store.bindings
        rw [hframes]
        rfl
      rw [Eval.bind_ok hx, Eval.bind_ok hx, ih, hbindings]

/-- What `env?` does, with the bindings had beforehand. -/
theorem showFrames_run (m : Machine) (f : FrameId) (s : Store) :
    (do m.showFrames 0 ((← get).chain f); return Value.unspecified : Eval Value) s =
      (do m.showAll 0 ((s.chain f).map s.bindings); return Value.unspecified : Eval Value) s := by
  have hshow := m.showFrames_eq 0 (s.chain f) s
  have hget : (do m.showFrames 0 ((← get).chain f); return Value.unspecified : Eval Value) s =
      (m.showFrames 0 (s.chain f) >>= fun _ => pure Value.unspecified) s := rfl
  rw [hget]
  cases hx : m.showAll 0 ((s.chain f).map s.bindings) s with
  | ok u s' => rw [Eval.bind_ok (hshow.trans hx), Eval.bind_ok hx]
  | error fault s' => rw [Eval.bind_error (hshow.trans hx), Eval.bind_error hx]

instance adds_showAll (m : Machine) (level : Nat) (shown : List (List (Value × Value))) :
    (m.showAll level shown).Adds := by
  induction shown generalizing level with
  | nil => exact Eval.adds_pure _
  | cons bindings shown ih =>
    unfold showAll
    infer_instance

theorem later_showAll (m : Machine) (level : Nat) {shown : List (List (Value × Value))}
    (h : shown ≠ []) (s : Store) :
    (s.display (heading level)).Later ((m.showAll level shown).after s) := by
  cases shown with
  | nil => exact absurd rfl h
  | cons bindings shown =>
    exact Eval.later_bind (modify fun s => s.display (heading level))
      (fun _ => do bindings.forM m.showBinding; m.showAll (level + 1) shown) s

theorem leads_showAll (m : Machine) {p : Policy} (hp : p.Lawful) (level : Nat)
    (shown : List (List (Value × Value))) (s : Store) :
    p.Leads (m.showAll level shown) s fun _ _ => True := by
  induction shown generalizing level s with
  | nil => exact Policy.leads_pure trivial
  | cons bindings shown ih =>
    refine Policy.Leads.bind (hp.leads_modify rfl) fun _ s₁ _ _ => ?_
    exact (Policy.leads_forM fun b _ s' _ => hp.leads_showBinding m b s').bind fun _ s₂ _ _ =>
      ih (level + 1) s₂

theorem showBinding_rename (m : Machine) (r : Renaming) (b : Value × Value) :
    m.showBinding (b.1, b.2.rename r) = m.showBinding b := by
  simp only [showBinding, Value.print_rename]

theorem showAll_rename (m : Machine) (r : Renaming) (level : Nat)
    (shown : List (List (Value × Value))) :
    m.showAll level (shown.map (Frame.renameBindings r)) = m.showAll level shown := by
  induction shown generalizing level with
  | nil => rfl
  | cons bindings shown ih =>
    have hforM : (Frame.renameBindings r bindings).forM m.showBinding =
        bindings.forM m.showBinding := by
      induction bindings with
      | nil => rfl
      | cons b bindings ihb =>
        have hcons : (Frame.renameBindings r (b :: bindings)).forM m.showBinding =
            (m.showBinding (b.1, b.2.rename r) >>= fun _ =>
              (Frame.renameBindings r bindings).forM m.showBinding) := rfl
        rw [hcons, showBinding_rename, ihb]
        rfl
    simp only [List.map_cons, showAll, hforM, ih]

end Machine

theorem Interpreter.map_reportExhaustion {α β : Type} (h : α → β) (source : String) (x : Eval α)
    (s : Store) :
    (h <$> reportExhaustion source x) s = reportExhaustion source (h <$> x) s := by
  show EStateM.map h (reportExhaustion source x) s = reportExhaustion source (EStateM.map h x) s
  unfold EStateM.map reportExhaustion
  dsimp only
  cases x s with
  | ok a s' => rfl
  | error fault s' => cases fault <;> rfl

/-! ## Mirrors -/

/-- A comparison of two runs, in the second of which frames and marks are renamed. -/
structure Mirror (r : Renaming) where
  /-- How the stores of the two runs are related. -/
  Rel : Store → Store → Prop
  /-- The stores that are out of sight. -/
  Lost : Store → Store → Prop

namespace Mirror

variable {r : Renaming} {α β γ δ : Type}

/-- What touches the store keeps stores related or leads out of sight. -/
structure Lawful (c : Mirror r) (p : Policy) : Prop where
  lost : ∀ {s s' t t'}, s.Later s' → t.Later t' → c.Lost s t → c.Lost s' t'
  note : ∀ {s t}, c.Rel s t → ∀ n, c.Rel (s.note n) (t.note n)
  display : ∀ {s t}, c.Rel s t → ∀ text, c.Rel (s.display text) (t.display text)
  record : ∀ {s t}, c.Rel s t → ∀ text,
    c.Rel { s with recorded := s.recorded.push text } { t with recorded := t.recorded.push text }
  spend : ∀ {s t}, c.Rel s t → ∀ n, c.Lost (s.spend n) (t.spend n) ∨
    c.Rel (s.spend n) (t.spend n) ∧ ∀ i < n, r.mark (s.nextMark + i) = t.nextMark + i
  addFrame : ∀ {s t}, c.Rel s t → ∀ fr, c.Lost (s.addFrame fr) (t.addFrame (fr.rename r)) ∨
    c.Rel (s.addFrame fr) (t.addFrame (fr.rename r)) ∧ r.frame s.frames.size = t.frames.size
  insert : ∀ {s t}, c.Rel s t → ∀ (f : FrameId) (x : String) (v : Value),
    c.Rel (s.insert f (.symbol x) v) (t.insert (r.frame f) (.symbol x) (v.rename r))
  lookup : ∀ {s t x f}, p.Holds s → p.Expr s (.symbol x) f → c.Rel s t →
    t.lookup? (r.frame f) (.symbol x) = (s.lookup? f (.symbol x)).map (Value.rename r)
  shown : ∀ {s t mark f}, p.Holds s → p.Good s (.primitive mark (.showFrames f)) → c.Rel s t →
    (t.chain (r.frame f)).map t.bindings =
        (s.chain f).map (fun g => Frame.renameBindings r (s.bindings g)) ∨
      s.chain f ≠ [] ∧ t.chain (r.frame f) ≠ [] ∧
        ∀ text ≠ "", c.Lost (s.display text) (t.display text)

/-- From a store that keeps to the policy and from one that is related to it, the computations come to
the same end, the value of the first changed by `h`, unless that end is out of sight. -/
def Follows (c : Mirror r) (p : Policy) (h : α → β) (x : Eval α) (y : Eval β) (s : Store) : Prop :=
  p.Holds s → ∀ t, c.Rel s t → c.Lost (x.after s) (y.after t) ∨ Alike c.Rel ((h <$> x) s) (y t)

section Follows

variable {c : Mirror r} {p : Policy} {h : α → β} {k : γ → δ} {s : Store}

theorem follows_pure (a : α) : c.Follows p h (pure a) (pure (h a)) s :=
  fun _ _ ht => Or.inr (.ok ht)

theorem follows_throw (fault : Fault) : c.Follows p h (throw fault) (throw fault) s :=
  fun _ _ ht => Or.inr (.error ht)

theorem follows_fail (e : LispError) : c.Follows p h (Eval.fail e) (Eval.fail e) s :=
  follows_throw _

theorem Follows.bind (hc : c.Lawful p) {x : Eval α} {y : Eval β} {f : α → Eval γ} {g : β → Eval δ}
    [∀ a, (f a).Adds] [∀ b, (g b).Adds] {Q : Store → α → Prop} (hx : c.Follows p h x y s)
    (hleads : p.Leads x s Q)
    (hf : ∀ a s', s.Extends s' → Q s' a → c.Follows p k (f a) (g (h a)) s') :
    c.Follows p k (x >>= f) (y >>= g) s := by
  intro hs t ht
  cases hxs : x s with
  | ok a s' =>
    obtain ⟨hext, hs', ha⟩ := (hleads hs).of_ok hxs
    rcases hx hs t ht with hlost | halike
    · exact Or.inl (hc.lost (Eval.later_bind x f s) (Eval.later_bind y g t) hlost)
    · rw [Eval.map_ok hxs] at halike
      generalize hyt : y t = end₂ at halike
      cases halike with
      | @ok _ _ t' hrel =>
        have hmap : (k <$> (x >>= f)) s = (k <$> f a) s' := by
          rw [map_bind, Eval.bind_ok hxs]
        rw [Eval.after_bind_ok hxs, Eval.after_bind_ok hyt, hmap, Eval.bind_ok hyt]
        exact hf a s' hext ha hs' t' hrel
  | error fault s' =>
    rcases hx hs t ht with hlost | halike
    · exact Or.inl (hc.lost (Eval.later_bind x f s) (Eval.later_bind y g t) hlost)
    · rw [Eval.map_error hxs] at halike
      generalize hyt : y t = end₂ at halike
      cases halike with
      | error hrel =>
        rw [Eval.map_error (Eval.bind_error hxs), Eval.bind_error hyt]
        exact Or.inr (.error hrel)

/-- Runs that go on as others do come to an end as those do. -/
theorem Follows.of_eq {x x' : Eval α} {y y' : Eval β} {s' t t' : Store} (hx : x s = x' s')
    (hy : y t = y' t')
    (hend : c.Lost (x'.after s') (y'.after t') ∨ Alike c.Rel ((h <$> x') s') (y' t')) :
    c.Lost (x.after s) (y.after t) ∨ Alike c.Rel ((h <$> x) s) (y t) := by
  have hmap : (h <$> x) s = (h <$> x') s' := by
    show EStateM.map h x s = EStateM.map h x' s'
    rw [EStateM.map, EStateM.map, hx]
  rw [Eval.after, Eval.after, hx, hy, hmap]
  exact hend

theorem Follows.within {x : Eval α} {y : Eval β} (hx : c.Follows p h x y s) (name : String) :
    c.Follows p h (Machine.within name x) (Machine.within name y) s := by
  intro hs t ht
  unfold Machine.within
  rw [Eval.after_mapFault, Eval.after_mapFault, Eval.map_mapFault]
  exact (hx hs t ht).imp id fun halike => halike.mapFault _

theorem follows_text (text : Except TextFault String) :
    c.Follows p id (Eval.text text) (Eval.text text) s := by
  cases text with
  | ok t => exact follows_pure t
  | error fault => exact follows_throw _

/-- A failure whose message shows a value. -/
theorem follows_fail_text (v : Value) (depth : Nat) (e : String → LispError) :
    c.Follows p h (do Eval.fail (e (← Eval.text (v.describe depth))))
      (do Eval.fail (e (← Eval.text ((v.rename r).describe depth)))) s := by
  rw [Value.describe_rename]
  cases v.describe depth with
  | ok text => exact follows_fail (e text)
  | error fault => exact follows_throw _

theorem follows_attempt (name : String) (x : Attempt α) :
    c.Follows p h (Machine.attempt name x) (Machine.attempt name (h <$> x)) s := by
  cases x with
  | ok a => exact follows_pure a
  | error refusal => exact follows_throw _

theorem follows_misuse (name : String) (m : Misuse) :
    c.Follows p h (Machine.attempt name (Attempt.misuse m)) (Machine.attempt name (Attempt.misuse m))
      s :=
  follows_throw _

/-- A change of both stores that keeps them related. -/
theorem follows_modify {f g : Store → Store} (hfg : ∀ t, c.Rel s t → c.Rel (f s) (g t)) :
    c.Follows p id (modify f) (modify g) s :=
  fun _ t ht => Or.inr (.ok (hfg t ht))

/-! ### Marks and frames -/

/-- Values made with new marks. -/
theorem Lawful.follows_spend (hc : c.Lawful p) (n : Nat) {v w : Mark → Value}
    (hvw : ∀ next next', (∀ i < n, r.mark (next + i) = next' + i) → (v next).rename r = w next') :
    c.Follows p (Value.rename r) (modifyGet fun s => (v s.nextMark, s.spend n))
      (modifyGet fun s => (w s.nextMark, s.spend n)) s := by
  intro _ t ht
  rcases hc.spend ht n with hlost | ⟨hrel, hmarks⟩
  · exact Or.inl hlost
  · have hend : Alike c.Rel (.ok ((v s.nextMark).rename r) (s.spend n))
        (.ok (w t.nextMark) (t.spend n)) := by
      rw [hvw _ _ hmarks]
      exact .ok hrel
    exact Or.inr hend

theorem Lawful.follows_makeList (hc : c.Lawful p) (items : List Value) :
    c.Follows p (Value.rename r) (Eval.makeList items)
      (Eval.makeList (items.map (Value.rename r))) s := by
  refine hc.follows_spend 1 (v := fun next => .list next items)
    (w := fun next => .list next (items.map (Value.rename r))) fun next next' hmarks => ?_
  have hmark : r.mark next = next' := hmarks 0 Nat.one_pos
  rw [Value.rename, Value.renameAll_eq, hmark]

theorem Lawful.follows_makeTuple (hc : c.Lawful p) (items : List Value) :
    c.Follows p (Value.rename r) (Eval.makeTuple items)
      (Eval.makeTuple (items.map (Value.rename r))) s := by
  unfold Eval.makeTuple
  rw [List.length_map]
  refine hc.follows_spend items.length
    (v := fun next => .tuple ((List.range items.length).map (next + ·)) items)
    (w := fun next => .tuple ((List.range items.length).map (next + ·)) (items.map (Value.rename r)))
    fun next next' hmarks => ?_
  have hall : ((List.range items.length).map (next + ·)).map r.mark =
      (List.range items.length).map (next' + ·) := by
    rw [List.map_map]
    exact List.map_congr_left fun i hi => hmarks i (List.mem_range.1 hi)
  rw [Value.rename, Value.renameAll_eq, hall]

theorem Lawful.follows_settle (hc : c.Lawful p) (name : String) (x : Attempt Answer) :
    c.Follows p (Value.rename r) (Machine.settle name x)
      (Machine.settle name (Answer.rename r <$> x)) s := by
  match x with
  | .ok (.value v) => exact follows_pure v
  | .ok (.list items) => exact hc.follows_makeList items
  | .ok (.tuple items) => exact hc.follows_makeTuple items
  | .error refusal => exact follows_throw _

theorem Lawful.follows_lookup (hc : c.Lawful p) {depth : Nat} {f : FrameId} {x : String}
    (hx : p.Expr s (.symbol x) f) :
    c.Follows p (Value.rename r) (Eval.lookup depth f (.symbol x))
      (Eval.lookup depth (r.frame f) (.symbol x)) s := by
  intro hs t ht
  have hlookup := hc.lookup hs hx ht
  cases hl : s.lookup? f (.symbol x) with
  | none =>
    rw [hl] at hlookup
    have hrun : Eval.lookup depth f (.symbol x) s = (Eval.fail (.unbound x) : Eval Value) s := by
      rw [Eval.lookup_symbol, hl]
      rfl
    have hrun' : Eval.lookup depth (r.frame f) (.symbol x) t =
        (Eval.fail (.unbound x) : Eval Value) t := by
      rw [Eval.lookup_symbol, hlookup]
      rfl
    exact Follows.of_eq hrun hrun' (follows_fail _ hs t ht)
  | some v =>
    rw [hl] at hlookup
    have hrun : Eval.lookup depth f (.symbol x) s = (pure v : Eval Value) s := by
      rw [Eval.lookup_symbol, hl]
      rfl
    have hrun' : Eval.lookup depth (r.frame f) (.symbol x) t =
        (pure (v.rename r) : Eval Value) t := by
      rw [Eval.lookup_symbol, hlookup]
      rfl
    exact Follows.of_eq hrun hrun' (follows_pure v hs t ht)

/-! ## Levels -/

/-- A level at which a mirror keeps its sight. -/
structure Mirrored (c : Mirror r) (p : Policy) (m : Machine) : Prop where
  eval : ∀ {s e f}, p.Expr s e f →
    c.Follows p (Value.rename r) (m.eval e f) (m.eval (e.rename r) (r.frame f)) s
  call : ∀ {s procedure} {args : List Value}, p.Good s procedure → (∀ v ∈ args, p.Good s v) →
    c.Follows p (Value.rename r) (m.call procedure args)
      (m.call (procedure.rename r) (args.map (Value.rename r))) s

section Level

variable {m : Machine} [m.Adds] (hp : p.Lawful) (hc : c.Lawful p) (hm : p.Sound m)
  (hb : c.Mirrored p m)

omit [m.Adds] in
theorem follows_quote (operands : List Value) :
    c.Follows p (Value.rename r) (Machine.quote operands)
      (Machine.quote (operands.map (Value.rename r))) s := by
  match operands with
  | [] | _ :: _ :: _ => exact follows_fail _
  | [v] => exact follows_pure v

omit [m.Adds] in
include hc in
theorem follows_lambda (operands : List Value) (f : FrameId) :
    c.Follows p (Value.rename r) (m.lambda operands f)
      (m.lambda (operands.map (Value.rename r)) (r.frame f)) s := by
  match operands with
  | [] | [_] | _ :: _ :: _ :: _ => exact follows_fail _
  | [params, body] =>
    simp only [List.map_cons, List.map_nil, Machine.lambda, Value.parameters?_rename]
    cases Machine.parameters? params with
    | none => exact follows_fail_text params m.depth _
    | some names =>
      dsimp only
      split
      · refine hc.follows_spend 1 (v := fun next => .closure next names body f)
          (w := fun next => .closure next names (body.rename r) (r.frame f)) fun next next' hmarks => ?_
        have hmark : r.mark next = next' := hmarks 0 Nat.one_pos
        rw [Value.rename, hmark]
      · exact follows_fail _

include hp hc hm hb

theorem follows_evalAll {f : FrameId} {es : List Value} (h : ∀ e ∈ es, p.Expr s e f) :
    c.Follows p (List.map (Value.rename r)) (m.evalAll f es)
      (m.evalAll (r.frame f) (es.map (Value.rename r))) s := by
  induction es generalizing s with
  | nil => exact follows_pure []
  | cons e es ih =>
    have he := h e (by simp)
    refine (hb.eval he).bind hc (hm.eval he) fun v s₁ hext _ => ?_
    have hes : ∀ e' ∈ es, p.Expr s₁ e' f := fun e' he' => hp.expr_mono hext (h e' (by simp [he']))
    exact (ih hes).bind hc (hm.leads_evalAll hp hes) fun vs _ _ _ => follows_pure (v :: vs)

theorem follows_conditional {operands : List Value} {f : FrameId}
    (h : p.Operands s f .conditional operands) :
    c.Follows p (Value.rename r) (m.conditional operands f)
      (m.conditional (operands.map (Value.rename r)) (r.frame f)) s := by
  match operands, h with
  | [], _ | [_], _ | [_, _], _ | _ :: _ :: _ :: _ :: _, _ => exact follows_fail _
  | [test, consequent, alternative], ⟨htest, hthen, helse⟩ =>
    refine (hb.eval htest).bind hc (hm.eval htest) fun v s' hext _ => ?_
    rw [Value.isFalse_rename]
    split
    · exact hb.eval (hp.expr_mono hext helse)
    · exact hb.eval (hp.expr_mono hext hthen)

omit [m.Adds] in
theorem follows_define {operands : List Value} {f : FrameId} (h : p.Operands s f .define operands) :
    c.Follows p (Value.rename r) (m.define operands f)
      (m.define (operands.map (Value.rename r)) (r.frame f)) s := by
  match operands, h with
  | [], _ | [_], _ | _ :: _ :: _ :: _, _ =>
    rw [Machine.define_of_length_ne m (by simp), Machine.define_of_length_ne m (by simp)]
    exact follows_fail _
  | [name, e], h =>
    cases name with
    | symbol x =>
      refine (hb.eval h).bind hc (hm.eval h) fun v s₁ _ hv => ?_
      refine (follows_modify fun t ht => hc.insert ht f x v).bind hc (hp.leads_insert f x hv) ?_
      exact fun _ _ _ _ => follows_pure Value.unspecified
    | _ => exact follows_fail_text _ m.depth _

theorem follows_combination {head : Value} {operands : List Value} {f : FrameId}
    (h : p.Combination s f head operands) :
    c.Follows p (Value.rename r) (m.combination head operands f)
      (m.combination (head.rename r) (operands.map (Value.rename r)) (r.frame f)) s := by
  unfold Policy.Combination at h
  unfold Machine.combination
  rw [Value.ofHead?_rename]
  cases hform : SpecialForm.ofHead? head with
  | some form =>
    rw [hform] at h
    cases form with
    | quote => exact follows_quote operands
    | conditional => exact follows_conditional hp hc hm hb h
    | define => exact follows_define hp hc hm hb h
    | lambda => exact follows_lambda hc operands f
  | none =>
    rw [hform] at h
    obtain ⟨hhead, hoperands⟩ := h
    refine (hb.eval hhead).bind hc (hm.eval hhead) fun procedure s₁ hext₁ hproc => ?_
    have hes : ∀ e ∈ operands, p.Expr s₁ e f := fun e he => hp.expr_mono hext₁ (hoperands e he)
    refine (follows_evalAll hp hc hm hb hes).bind hc (hm.leads_evalAll hp hes) ?_
    exact fun args s₂ hext₂ hargs => hb.call (hp.good_mono hext₂ hproc) hargs

theorem follows_evalStep {e : Value} {f : FrameId} (h : p.Expr s e f) :
    c.Follows p (Value.rename r) (m.evalStep e f) (m.evalStep (e.rename r) (r.frame f)) s := by
  have hparts := hp.parts h
  match e, h, hparts with
  | .symbol x, h, _ => exact hc.follows_lookup h
  | .number x, _, _ => exact follows_pure (Value.number x)
  | .list _ [], _, _ | .tuple _ [], _, _ => exact follows_fail _
  | .list _ (_ :: _), _, hparts | .tuple _ (_ :: _), _, hparts =>
    have hcomb := follows_combination hp hc hm hb hparts
    rw [← Value.renameAll_eq] at hcomb
    exact hcomb
  | .bool _, _, _ | .unspecified, _, _ | .primitive _ _, _, _ | .closure _ _ _ _, _, _
  | .text _, _, _ | .nothing, _, _ => exact follows_fail_text _ m.depth _

/-! ### Calls -/

theorem follows_callAll {procedure : Value} {rows : List (List Value)} (hproc : p.Good s procedure)
    (hrows : ∀ args ∈ rows, ∀ v ∈ args, p.Good s v) :
    c.Follows p (List.map (Value.rename r)) (m.callAll procedure rows)
      (m.callAll (procedure.rename r) (rows.map (List.map (Value.rename r)))) s := by
  induction rows generalizing s with
  | nil => exact follows_pure []
  | cons args rows ih =>
    have hargs := hrows args (by simp)
    refine (hb.call hproc hargs).bind hc (hm.call hproc hargs) fun v s₁ hext _ => ?_
    have hproc₁ := hp.good_mono hext hproc
    have hrows₁ : ∀ args' ∈ rows, ∀ w ∈ args', p.Good s₁ w := fun args' ha w hw =>
      hp.good_mono hext (hrows args' (by simp [ha]) w hw)
    exact (ih hproc₁ hrows₁).bind hc (hm.leads_callAll hp hproc₁ hrows₁) fun vs _ _ _ =>
      follows_pure (v :: vs)

theorem follows_callMap {args : List Value} (hargs : ∀ v ∈ args, p.Good s v) :
    c.Follows p (Value.rename r) (m.callMap args) (m.callMap (args.map (Value.rename r))) s := by
  match args, hargs with
  | [], _ => exact follows_misuse "map" (Machine.mapSignature.wrongCount 0)
  | [_], _ => exact follows_fail _
  | procedure :: first :: others, hargs =>
    have hfirst : p.Good s first := hargs first (by simp)
    have hothers : ∀ list ∈ others, p.Good s list := fun list h => hargs list (by simp [h])
    simp only [List.map_cons, Machine.callMap, Argument.items_rename,
      Argument.mapM_rename r (Argument.items_rename r m.depth "map")]
    refine (follows_attempt "map" _).bind hc (hp.leads_attempt "map" (Policy.gives_items_good hfirst))
      fun vs s₁ hext₁ hvs => ?_
    refine (follows_attempt "map" _).bind hc
      (hp.leads_attempt "map" (Policy.gives_mapM_items_good hothers)) fun vss s₂ hext₂ hvss => ?_
    have hext := Store.Writes.trans hext₁ hext₂
    have hrows : ∀ row ∈ Machine.rows vs vss, ∀ v ∈ row, p.Good s₂ v :=
      Policy.forall_rows (fun v hv => hp.good_mono hext (hvs v hv))
        fun ws hws v hv => hp.good_mono hext (hvss ws hws v hv)
    have hproc : p.Good s₂ procedure := hp.good_mono hext (hargs procedure (by simp))
    rw [Machine.rows_rename]
    exact (follows_callAll hp hc hm hb hproc hrows).bind hc (hm.leads_callAll hp hproc hrows)
      fun items _ _ _ => hc.follows_makeList items

omit hm in
theorem follows_callApply {args : List Value} (hargs : ∀ v ∈ args, p.Good s v) :
    c.Follows p (Value.rename r) (m.callApply args) (m.callApply (args.map (Value.rename r))) s := by
  match args, hargs with
  | [procedure, list], hargs =>
    have hlist : p.Good s list := hargs list (by simp)
    simp only [List.map_cons, List.map_nil, Machine.callApply, Argument.items_rename]
    refine (follows_attempt "apply" _).bind hc
      (hp.leads_attempt "apply" (Policy.gives_items_good hlist)) fun vs s₁ hext hvs => ?_
    exact hb.call (hp.good_mono hext (hargs procedure (by simp)))
      fun v hv => hp.good_mono hext (hvs v hv)
  | [], _ | [_], _ => exact follows_misuse "apply" _
  | _ :: _ :: _ :: _, _ =>
    simp only [List.map_cons, Machine.callApply, List.length_cons, List.length_map]
    exact follows_misuse "apply" _

include hp hc in
omit [m.Adds] hm hb in
theorem follows_showAll (level : Nat) (shown : List (List (Value × Value))) :
    c.Follows p id (m.showAll level shown) (m.showAll level shown) s := by
  have hbinding : ∀ (b : Value × Value) (s : Store),
      c.Follows p id (m.showBinding b) (m.showBinding b) s := by
    intro b s
    refine (follows_text _).bind hc (hp.leads_text _) fun name s₁ _ _ => ?_
    refine (follows_text _).bind hc (hp.leads_text _) fun value s₂ _ _ => ?_
    exact follows_modify fun t ht => hc.display ht _
  have hbindings : ∀ (bs : List (Value × Value)) (s : Store),
      c.Follows p id (bs.forM m.showBinding) (bs.forM m.showBinding) s := by
    intro bs
    induction bs with
    | nil => exact fun _ => follows_pure ()
    | cons b bs ih =>
      exact fun s => (hbinding b s).bind hc (hp.leads_showBinding m b s) fun _ s₁ _ _ => ih s₁
  induction shown generalizing level s with
  | nil => exact follows_pure ()
  | cons bs shown ih =>
    refine (follows_modify fun t ht => hc.display ht _).bind hc (hp.leads_modify rfl)
      fun _ s₁ _ _ => ?_
    exact (hbindings bs s₁).bind hc
      (Policy.leads_forM fun b _ s' _ => hp.leads_showBinding m b s') fun _ s₂ _ _ => ih (level + 1)

include hp hc in
omit [m.Adds] hm hb in
theorem follows_showFrames {mark : Mark} {f : FrameId}
    (h : p.Good s (.primitive mark (.showFrames f))) :
    c.Follows p (Value.rename r) (do m.showFrames 0 ((← get).chain f); return Value.unspecified)
      (do m.showFrames 0 ((← get).chain (r.frame f)); return Value.unspecified) s := by
  intro hs t ht
  refine Follows.of_eq (m.showFrames_run f s) (m.showFrames_run (r.frame f) t) ?_
  rcases hc.shown hs h ht with hsame | ⟨hchain, hchain', hlost⟩
  · have hall := m.showAll_rename r 0 ((s.chain f).map s.bindings)
    rw [List.map_map, Function.comp_def, ← hsame] at hall
    rw [hall]
    have hfollows : c.Follows p (Value.rename r)
        (do m.showAll 0 ((s.chain f).map s.bindings); return Value.unspecified)
        (do m.showAll 0 ((s.chain f).map s.bindings); return Value.unspecified) s :=
      (follows_showAll hp hc 0 _).bind hc (m.leads_showAll hp 0 _ s)
        fun _ _ _ _ => follows_pure Value.unspecified
    exact hfollows hs t ht
  · have hlater : ∀ (u : Store) (g : FrameId), u.chain g ≠ [] →
        (u.display (Machine.heading 0)).Later
          ((do m.showAll 0 ((u.chain g).map u.bindings); return Value.unspecified :
            Eval Value).after u) := by
      intro u g hg
      refine trans_of Store.Later (m.later_showAll 0 (by simpa using hg) u) (Eval.later_bind _ _ u)
    exact Or.inl (hc.lost (hlater s f hchain) (hlater t _ hchain') (hlost _ (Machine.heading_ne 0)))

theorem follows_callBuiltin {mark : Mark} {b : Builtin} {args : List Value}
    (hproc : p.Good s (.primitive mark b)) (hargs : ∀ v ∈ args, p.Good s v) :
    c.Follows p (Value.rename r) (m.callBuiltin b args)
      (m.callBuiltin (b.rename r) (args.map (Value.rename r))) s := by
  cases b with
  | operation op =>
    simp only [Builtin.rename, Machine.callBuiltin, Operation.call_rename]
    exact hc.follows_settle op.name _
  | map => exact (follows_callMap hp hc hm hb hargs).within _
  | apply => exact (follows_callApply hp hc hb hargs).within _
  | showFrames f =>
    cases args with
    | nil => exact (follows_showFrames hp hc hproc).within _
    | cons v args =>
      simp only [Builtin.rename, Machine.callBuiltin, List.map_cons, List.length_cons,
        List.length_map]
      exact follows_misuse _ _
  | record =>
    cases args with
    | nil => exact follows_misuse _ _
    | cons v rest =>
      cases rest with
      | nil =>
        simp only [Builtin.rename, Machine.callBuiltin, List.map_cons, List.map_nil,
          Value.print_rename]
        refine Follows.within ?_ _
        refine (follows_text _).bind hc (hp.leads_text _) fun text s₁ _ _ => ?_
        exact (follows_modify fun t ht => hc.record ht text).bind hc (hp.leads_modify rfl)
          fun _ _ _ _ => follows_pure v
      | cons w rest =>
        simp only [Builtin.rename, Machine.callBuiltin, List.map_cons, List.length_cons,
          List.length_map]
        exact follows_misuse _ _

omit hm in
/-- The frame of a call gets the number that the renaming gives to its counterpart. -/
theorem follows_callClosure {mark : Mark} {params : List String} {body : Value} {f : FrameId}
    {args : List Value} (hproc : p.Good s (.closure mark params body f))
    (hargs : ∀ v ∈ args, p.Good s v) :
    c.Follows p (Value.rename r) (m.callStep (.closure mark params body f) args)
      (m.callStep (.closure (r.mark mark) params (body.rename r) (r.frame f))
        (args.map (Value.rename r))) s := by
  intro hs t ht
  have hlen' : (args.map (Value.rename r)).length = args.length := List.length_map _
  have hnote := hc.note ht (.applied params args.length)
  by_cases hlen : params.length = args.length
  · refine Follows.of_eq (Machine.callStep_closure m hlen mark body f s)
      (Machine.callStep_closure m (hlen.trans hlen'.symm) _ _ _ t) ?_
    have hentered : Machine.entered t params (args.map (Value.rename r)) (r.frame f) =
        (t.note (.applied params args.length)).addFrame
          (Frame.rename r ⟨((params.map Value.symbol).zip args).foldl
            (fun bs b => Frame.bind b.1 b.2 bs) [], some f⟩) := by
      have hbindings := Frame.foldl_bind_rename r (params.map Value.symbol) args []
      unfold Machine.entered Store.push Store.addFrame Frame.rename
      rw [hlen', ← hbindings]
      rfl
    rw [hentered]
    rcases hc.addFrame hnote _ with hlost | ⟨hrel, hframe⟩
    · exact Or.inl (hc.lost (Eval.Adds.later _) (Eval.Adds.later _) hlost)
    · have hbody := hb.eval (hp.enter hs hproc hlen).2 (hp.holds_entered hs hproc hlen hargs) _ hrel
      have hsize : r.frame s.frames.size = t.frames.size := hframe
      rw [hsize] at hbody
      exact hbody
  · have hrun := Machine.callStep_closure_arity m hlen mark body f s
    have hrun' := Machine.callStep_closure_arity m (fun h => hlen (h.trans hlen')) (r.mark mark)
      (body.rename r) (r.frame f) t
    rw [hlen'] at hrun'
    rw [Eval.map_error hrun, hrun']
    exact Or.inr (.error hnote)

theorem follows_callStep {procedure : Value} {args : List Value} (hproc : p.Good s procedure)
    (hargs : ∀ v ∈ args, p.Good s v) :
    c.Follows p (Value.rename r) (m.callStep procedure args)
      (m.callStep (procedure.rename r) (args.map (Value.rename r))) s := by
  cases procedure with
  | closure mark params body f => exact follows_callClosure hp hc hb hproc hargs
  | primitive mark b => exact follows_callBuiltin hp hc hm hb hproc hargs
  | _ => exact follows_fail_text _ m.depth _

end Level

/-! ## Evaluation and calls at every depth -/

theorem Lawful.mirrored_level (hc : c.Lawful p) (hp : p.Lawful) (d : Nat) :
    c.Mirrored p (Machine.level d) := by
  induction d with
  | zero => exact ⟨fun _ => follows_throw _, fun _ _ => follows_throw _⟩
  | succ d ih =>
    have hm := hp.sound_level d
    exact ⟨fun h => follows_evalStep hp hc hm ih h, fun h h' => follows_callStep hp hc hm ih h h'⟩

theorem Lawful.evaluate (hc : c.Lawful p) (hp : p.Lawful) (d : Nat) {e : Value} {f : FrameId}
    (h : p.Expr s e f) :
    c.Follows p (Value.rename r) (SmallLisp.evaluate d e f)
      (SmallLisp.evaluate d (e.rename r) (r.frame f)) s :=
  (hc.mirrored_level hp d).eval h

theorem Lawful.call (hc : c.Lawful p) (hp : p.Lawful) (d : Nat) {procedure : Value}
    {args : List Value} (hproc : p.Good s procedure) (hargs : ∀ v ∈ args, p.Good s v) :
    c.Follows p (Value.rename r) (SmallLisp.call d procedure args)
      (SmallLisp.call d (procedure.rename r) (args.map (Value.rename r))) s :=
  (hc.mirrored_level hp d).call hproc hargs

/-! ## Program texts -/

theorem Lawful.follows_intern (hc : c.Lawful p) (d : Datum) :
    c.Follows p (Value.rename r) (Eval.intern d) (Eval.intern d) s := by
  rw [Eval.intern_eq]
  exact hc.follows_spend d.marks (Datum.intern_rename r d)

theorem Lawful.follows_evalData (hc : c.Lawful p) (hp : p.Lawful) (limit : Nat) {root : FrameId}
    {last : Value} {data : List Datum} (hlast : p.Good s last)
    (hexpr : ∀ d ∈ data, ∀ e s', s.Extends s' → e.datum? = some d → p.Expr s' e root) :
    c.Follows p (Value.rename r) (Interpreter.evalData limit root last data)
      (Interpreter.evalData limit (r.frame root) (last.rename r) data) s := by
  induction data generalizing s last with
  | nil => exact follows_pure last
  | cons d data ih =>
    refine (hc.follows_intern d).bind hc (hp.leads_intern d) fun e s₁ hext₁ he => ?_
    have hexpr₁ := hexpr d (by simp) e s₁ hext₁ he
    refine (hc.evaluate hp limit hexpr₁).bind hc (hp.evaluate limit hexpr₁) fun v s₂ hext₂ hv => ?_
    refine ih hv fun d' hd' e' s' hext he' => ?_
    have hext' : s.Extends s' := Store.Writes.trans hext₁ (Store.Writes.trans hext₂ hext)
    exact hexpr d' (by simp [hd']) e' s' hext' he'

theorem Follows.reportExhaustion (hc : c.Lawful p) {x : Eval α} {y : Eval β}
    (hx : c.Follows p h x y s) (source : String) :
    c.Follows p h (Interpreter.reportExhaustion source x) (Interpreter.reportExhaustion source y)
      s := by
  intro hs t ht
  rcases hx hs t ht with hlost | halike
  · exact Or.inl (hc.lost (Interpreter.later_reportExhaustion source x s)
      (Interpreter.later_reportExhaustion source y t) hlost)
  · refine Or.inr ?_
    rw [Interpreter.map_reportExhaustion]
    unfold Interpreter.reportExhaustion
    generalize (h <$> x) s = end₁, y t = end₂ at halike
    cases halike with
    | ok hrel => exact .ok hrel
    | @error fault _ _ hrel =>
      cases fault with
      | depth => exact .error (hc.note hrel _)
      | error e => exact .error hrel
      | integerText => exact .error hrel

/-- The same text evaluated in the root frame of either run. -/
theorem Lawful.eval (hc : c.Lawful p) (hp : p.Lawful) {limit : Nat} {root : FrameId}
    {source : String}
    (hexpr : ∀ d ∈ (parseAll limit source).1, ∀ e s', s.Extends s' → e.datum? = some d →
      p.Expr s' e root) :
    c.Follows p (Value.rename r) (Interpreter.eval limit root source)
      (Interpreter.eval limit (r.frame root) source) s := by
  unfold Interpreter.eval
  split
  · exact follows_fail _
  · next data hread =>
    rw [hread] at hexpr
    have hlast : p.Good s .unspecified := trivial
    exact (hc.follows_evalData hp limit hlast hexpr).reportExhaustion hc source

end Follows

end Mirror

end SmallLisp
