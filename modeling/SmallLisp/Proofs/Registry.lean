import SmallLisp.Proofs.Turns

/-!
Registries of what marks were given to.

A list is told from others by its mark and not by what it holds, and the items of a tuple by theirs.
That one mark never stands for two things is no property of a store, since what was given up long ago
counts as well.  So a `Registry` is kept beside a run: it has what each mark was given to, and only
grows.  A value is recorded if all in it is what the registry has under its marks
(`Registry.Records`).

`r.Leads x s S Q` says that `r` can be kept up with the computation `x`, and that the registry at its
end records all that satisfies `S`.  Computations that make no objects leave a registry as it is; a
list or a tuple is entered as it is made (`Registry.leads_makeList`, `Registry.leads_makeTuple`).
-/

namespace SmallLisp

/-! ## Registries -/

/-- What has a mark: a list, or an item of a tuple. -/
abbrev Registry := Mark → Option Value

namespace Registry

def Grows (r r' : Registry) : Prop := ∀ mark v, r mark = some v → r' mark = some v

mutual

/-- Lists and the items of tuples are what the registry has under their marks. -/
def Records (r : Registry) : Value → Prop
  | .list mark items => r mark = some (.list mark items) ∧ RecordsAll r items
  | .tuple marks items => marks.map r = items.map some ∧ ∀ v ∈ items, ∃ x, v = .number x
  | .closure _ _ body _ => Records r body
  | _ => True

def RecordsAll (r : Registry) : List Value → Prop
  | [] => True
  | v :: rest => Records r v ∧ RecordsAll r rest

end

variable {r r' r'' : Registry}

theorem Grows.refl (r : Registry) : r.Grows r := fun _ _ h => h

theorem Grows.trans (h : r.Grows r') (h' : r'.Grows r'') : r.Grows r'' :=
  fun mark v hv => h' mark v (h mark v hv)

theorem recordsAll_iff {vs : List Value} : r.RecordsAll vs ↔ ∀ v ∈ vs, r.Records v := by
  induction vs with
  | nil => simp [RecordsAll]
  | cons v vs ih => simp [RecordsAll, ih]

theorem Grows.map_eq (h : r.Grows r') {marks : List Mark} {items : List Value}
    (hitems : marks.map r = items.map some) : marks.map r' = items.map some := by
  induction marks generalizing items with
  | nil => exact hitems
  | cons mark marks ih =>
    cases items with
    | nil => cases hitems
    | cons v items =>
      obtain ⟨hv, hitems⟩ := List.cons.inj hitems
      rw [List.map_cons, h mark v hv, ih hitems, List.map_cons]

mutual

theorem Records.mono (h : r.Grows r') : ∀ {v : Value}, r.Records v → r'.Records v
  | .list mark _, hv => ⟨h mark _ hv.1, RecordsAll.mono h hv.2⟩
  | .tuple _ _, hv => ⟨h.map_eq hv.1, hv.2⟩
  | .closure _ _ body _, hv => Records.mono h (v := body) hv
  | .number _, _ | .symbol _, _ | .bool _, _ | .unspecified, _ | .primitive _ _, _ | .text _, _
  | .nothing, _ => trivial

theorem RecordsAll.mono (h : r.Grows r') : ∀ {vs : List Value}, r.RecordsAll vs → r'.RecordsAll vs
  | [], _ => trivial
  | _ :: _, hv => ⟨Records.mono h hv.1, RecordsAll.mono h hv.2⟩

end

instance (r : Registry) : Value.Hereditary r.Records where
  number _ := trivial
  bool _ := trivial
  unspecified := trivial
  text _ := trivial
  items h := recordsAll_iff.1 h.2
  parts h v hv := by
    obtain ⟨x, rfl⟩ := h.2 v hv
    trivial
  copies n h := by
    refine ⟨?_, fun v hv => h.2 v (Math.Product.mem_copies hv)⟩
    rw [Math.Product.map_copies, Math.Product.map_copies, h.1]

end Registry

/-- A value is bound in some frame. -/
def Store.Contains (s : Store) (v : Value) : Prop :=
  ∃ (g : FrameId) (fr : Frame) (b : Value × Value), s.frames[g]? = some fr ∧ b ∈ fr.bindings ∧ b.2 = v

/-- The frames and the next mark are as they were. -/
def Store.Unmoved (s s' : Store) : Prop := s'.frames = s.frames ∧ s'.nextMark = s.nextMark

instance : IsPreorder Store Store.Unmoved where
  refl _ := ⟨rfl, rfl⟩
  trans _ _ _ h h' := ⟨h'.1.trans h.1, h'.2.trans h.2⟩

namespace Registry

/-- All that is bound is recorded, and nothing under marks still to be given out. -/
structure Knows (r : Registry) (s : Store) : Prop where
  fresh : ∀ mark, s.nextMark ≤ mark → r mark = none
  bound : ∀ v, s.Contains v → r.Records v

variable {r r' : Registry} {s s' : Store}

theorem Knows.unmoved (hr : r.Knows s) (h : s.Unmoved s') : r.Knows s' where
  fresh mark hmark := hr.fresh mark (by rwa [h.2] at hmark)
  bound v hv := hr.bound v (by unfold Store.Contains at hv ⊢; rwa [h.1] at hv)

theorem Knows.insert (hr : r.Knows s) (f : FrameId) (x : String) {v : Value} (hv : r.Records v) :
    r.Knows (s.insert f (.symbol x) v) where
  fresh := hr.fresh
  bound w hw := by
    obtain ⟨g, fr, b, hfr, hb, rfl⟩ := hw
    obtain ⟨fr₀, hfr₀, -, hvalues⟩ := Store.exists_frame_of_insert hfr
    rcases hvalues b hb with hb | hb
    · exact hr.bound b.2 ⟨g, fr₀, b, hfr₀, hb, rfl⟩
    · rw [hb]
      exact hv

theorem Knows.entered (hr : r.Knows s) (params : List String) {args : List Value} (f : FrameId)
    (hargs : ∀ v ∈ args, r.Records v) : r.Knows (Machine.entered s params args f) where
  fresh := hr.fresh
  bound w hw := by
    obtain ⟨g, fr, b, hfr, hb, rfl⟩ := hw
    rw [Store.entered_frames, Array.getElem?_push] at hfr
    split at hfr
    · cases hfr
      rcases Policy.mem_foldl_bind hb with hb | ⟨c, hc, hbc⟩
      · cases hb
      · rw [hbc]
        exact hargs c.2 (List.of_mem_zip hc).2
    · exact hr.bound b.2 ⟨g, fr, b, hfr, hb, rfl⟩

/-! ## New marks -/

/-- An object is entered under a new mark. -/
def enter (r : Registry) (mark : Mark) (v : Value) : Registry :=
  fun other => if other = mark then some v else r other

theorem grows_enter {mark : Mark} (h : r mark = none) (v : Value) : r.Grows (r.enter mark v) := by
  intro other w hw
  rw [enter, if_neg]
  · exact hw
  · rintro rfl
    rw [h] at hw
    cases hw

theorem enter_self (r : Registry) (mark : Mark) (v : Value) : r.enter mark v mark = some v :=
  if_pos rfl

theorem enter_of_lt {mark other : Mark} (h : mark < other) (hr : r other = none) (v : Value) :
    r.enter mark v other = none := by
  rw [enter, if_neg (Nat.ne_of_gt h)]
  exact hr

/-! ## Computations -/

variable {α β : Type}

/-- The registry can be kept up with a computation: it then has all that satisfies `S`, and a result
satisfies `Q`. -/
def Leads (r : Registry) (x : Eval α) (s : Store) (S : Value → Prop) (Q : Registry → α → Prop) : Prop :=
  r.Knows s → ∃ r', r.Grows r' ∧ r'.Knows (x.after s) ∧ (∀ v, S v → r'.Records v) ∧
    ∀ a s', x s = .ok a s' → Q r' a

variable {S S' : Value → Prop} {Q : Registry → α → Prop}

theorem Leads.mono {x : Eval α} (h : r.Leads x s S Q) (hS : ∀ v, S' v → S v) : r.Leads x s S' Q := by
  intro hr
  obtain ⟨r', hgrows, hr', hrecords, hQ⟩ := h hr
  exact ⟨r', hgrows, hr', fun v hv => hrecords v (hS v hv), hQ⟩

theorem leads_unmoved {x : Eval α} (hx : x.Moves Store.Unmoved)
    (hQ : ∀ a s', x s = .ok a s' → Q r a) : r.Leads x s (fun _ => False) Q :=
  fun hr => ⟨r, .refl r, hr.unmoved (hx s), fun _ h => h.elim, hQ⟩

theorem leads_pure {a : α} (h : Q r a) : r.Leads (pure a) s (fun _ => False) Q :=
  leads_unmoved (Eval.moves_pure a) fun _ _ heq => by
    cases heq
    exact h

theorem leads_fail (e : LispError) : r.Leads (Eval.fail e : Eval α) s (fun _ => False) Q :=
  leads_unmoved (Eval.moves_fail e) nofun

theorem leads_throw (fault : Fault) : r.Leads (throw fault : Eval α) s (fun _ => False) Q :=
  leads_unmoved (Eval.moves_throw fault) nofun

/-- What comes after a computation goes on with the registry that it leaves. -/
theorem Leads.bind {x : Eval α} {f : α → Eval β} {T : α → Store → Value → Prop}
    {Q' : Registry → β → Prop} (hx : r.Leads x s S Q)
    (hf : ∀ {r' a s'}, r.Grows r' → x s = .ok a s' → Q r' a → r'.Leads (f a) s' (T a s') Q') :
    r.Leads (x >>= f) s (fun v => S v ∨ ∃ a s', x s = .ok a s' ∧ T a s' v) Q' := by
  intro hr
  obtain ⟨r₁, hgrows, hr₁, hS, hQ⟩ := hx hr
  cases hxs : x s with
  | error fault s₁ =>
    rw [Eval.after_error hxs] at hr₁
    rw [Eval.after_error (Eval.bind_error hxs)]
    refine ⟨r₁, hgrows, hr₁, ?_, ?_⟩
    · rintro v (hv | ⟨a, s', ha, -⟩)
      · exact hS v hv
      · cases ha
    · intro b s' hb
      rw [Eval.bind_error hxs] at hb
      cases hb
  | ok a s₁ =>
    rw [Eval.after_ok hxs] at hr₁
    obtain ⟨r₂, hgrows', hr₂, hT, hQ'⟩ := hf hgrows hxs (hQ a s₁ hxs) hr₁
    rw [Eval.after_bind_ok hxs]
    refine ⟨r₂, hgrows.trans hgrows', hr₂, ?_, ?_⟩
    · rintro v (hv | ⟨a', s', ha, hv⟩)
      · exact (hS v hv).mono hgrows'
      · cases ha
        exact hT v hv
    · intro b s' hb
      rw [Eval.bind_ok hxs] at hb
      exact hQ' b s' hb

/-- A result is made into another, and nothing more is done. -/
theorem Leads.bind_pure {x : Eval α} {k : α → β} {Q' : Registry → β → Prop} (hx : r.Leads x s S Q)
    (hk : ∀ {r' a}, r.Grows r' → Q r' a → Q' r' (k a)) :
    r.Leads (x >>= fun a => pure (k a)) s S Q' := by
  have hbind := hx.bind (T := fun _ _ _ => False) fun hgrows _ ha => leads_pure (hk hgrows ha)
  exact hbind.mono fun v hv => Or.inl hv

theorem Leads.within {x : Eval α} (hx : r.Leads x s S Q) (name : String) :
    r.Leads (Machine.within name x) s S Q := by
  intro hr
  obtain ⟨r', hgrows, hr', hS, hQ⟩ := hx hr
  refine ⟨r', hgrows, ?_, hS, fun a s' ha => ?_⟩
  · rw [Machine.within, Eval.after_mapFault]
    exact hr'
  · refine hQ a s' ?_
    unfold Machine.within Eval.mapFault at ha
    cases hxs : x s with
    | ok b s₁ =>
      rw [hxs] at ha
      exact ha
    | error fault s₁ =>
      rw [hxs] at ha
      cases ha

/-- What is met by computations in turn, each in the store that those before it have left. -/
def InTurn (g : α → Eval β) (T : α → Store → Value → Prop) (xs : List α) (s : Store) (v : Value) :
    Prop :=
  ∃ before a after bs s₁, xs = before ++ a :: after ∧ before.mapM g s = .ok bs s₁ ∧ T a s₁ v

theorem InTurn.of_cons {g : α → Eval β} {T : α → Store → Value → Prop} {a : α} {xs : List α}
    {v : Value} (h : InTurn g T (a :: xs) s v) :
    T a s v ∨ ∃ b s', g a s = .ok b s' ∧ InTurn g T xs s' v := by
  obtain ⟨before, a', after, bs, s₁, hsplit, hbefore, hv⟩ := h
  cases before with
  | nil =>
    cases hsplit
    cases hbefore
    exact Or.inl hv
  | cons a'' before =>
    cases hsplit
    rw [List.mapM_cons] at hbefore
    obtain ⟨b, s', hb, hrest⟩ := Eval.bind_eq_ok hbefore
    obtain ⟨bs', s'', hbs', hpure⟩ := Eval.bind_eq_ok hrest
    cases hpure
    exact Or.inr ⟨b, s', hb, before, a', after, bs', s₁, rfl, hbs', hv⟩

theorem leads_mapM {g : α → Eval β} {T : α → Store → Value → Prop} {Q : Registry → β → Prop}
    (hQ : ∀ {r r' : Registry} {b}, r.Grows r' → Q r b → Q r' b) {xs : List α}
    (h : ∀ a ∈ xs, ∀ {s' r'}, r.Grows r' → r'.Leads (g a) s' (T a s') Q) :
    r.Leads (xs.mapM g) s (InTurn g T xs s) fun r bs => ∀ b ∈ bs, Q r b := by
  induction xs generalizing s r with
  | nil =>
    refine (leads_pure (by simp)).mono ?_
    rintro v ⟨before, a, after, bs, s₁, hsplit, -⟩
    simp at hsplit
  | cons a xs ih =>
    rw [List.mapM_cons]
    have hfirst : r.Leads (g a) s (T a s) Q := h a (by simp) (.refl r)
    refine (hfirst.bind (T := fun _ => InTurn g T xs) ?_).mono fun v hv => hv.of_cons
    intro r' b s' hgrows _ hb
    have hrest := ih (s := s') fun a' ha' _ _ hgrows' => h a' (by simp [ha']) (hgrows.trans hgrows')
    refine hrest.bind_pure fun hgrows' hbs => ?_
    exact List.forall_mem_cons.2 ⟨hQ hgrows' hb, hbs⟩

/-! ## Making objects -/

theorem leads_makeList {items : List Value} (h : ∀ v ∈ items, r.Records v) :
    r.Leads (Eval.makeList items) s (fun _ => False) Records := by
  intro hr
  let made : Value := .list s.nextMark items
  have hgrows := grows_enter (hr.fresh s.nextMark (Nat.le_refl _)) made
  refine ⟨r.enter s.nextMark made, hgrows, ⟨?_, ?_⟩, fun _ hv => hv.elim, ?_⟩
  · intro mark hmark
    exact enter_of_lt hmark (hr.fresh mark (Nat.le_of_succ_le hmark)) made
  · exact fun v hv => (hr.bound v hv).mono hgrows
  · intro v s' hv
    cases hv
    refine ⟨enter_self r s.nextMark made, recordsAll_iff.2 fun w hw => ?_⟩
    exact (h w hw).mono hgrows

/-- The items of a tuple are entered one after another. -/
theorem exists_enter_items (items : List Value) {n : Nat}
    (hr : ∀ mark : Nat, n ≤ mark → r mark = none) :
    ∃ r' : Registry, r.Grows r' ∧ (∀ mark : Nat, n + items.length ≤ mark → r' mark = none) ∧
      ((List.range items.length).map (n + ·)).map r' = items.map some := by
  induction items generalizing n r with
  | nil => exact ⟨r, .refl r, hr, rfl⟩
  | cons v items ih =>
    have hgrows := grows_enter (hr n (Nat.le_refl n)) v
    have hnext : ∀ mark : Nat, n + 1 ≤ mark → r.enter n v mark = none := fun mark hmark =>
      enter_of_lt hmark (hr mark (Nat.le_of_succ_le hmark)) v
    obtain ⟨r', hgrows', hfresh, hitems⟩ := ih hnext
    refine ⟨r', hgrows.trans hgrows', fun mark hmark => hfresh mark ?_, ?_⟩
    · rw [List.length_cons] at hmark
      omega
    · have hmarks : (List.range (items.length + 1)).map (n + ·) =
          n :: (List.range items.length).map (n + 1 + ·) := by
        rw [List.range_succ_eq_map, List.map_cons, List.map_map]
        refine congrArg (List.cons n) (List.map_congr_left fun i _ => ?_)
        simp only [Function.comp_apply]
        omega
      rw [List.length_cons, hmarks, List.map_cons, hitems, hgrows' n v (enter_self r n v),
        List.map_cons]

theorem leads_makeTuple {items : List Value} (h : ∀ v ∈ items, ∃ x, v = .number x) :
    r.Leads (Eval.makeTuple items) s (fun _ => False) Records := by
  intro hr
  obtain ⟨r', hgrows, hfresh, hitems⟩ := exists_enter_items items hr.fresh
  refine ⟨r', hgrows, ⟨hfresh, fun v hv => (hr.bound v hv).mono hgrows⟩, fun _ hv => hv.elim, ?_⟩
  intro v s' hv
  cases hv
  exact ⟨hitems, h⟩

/-- A mark that nothing is entered under: procedures are told apart by theirs alone. -/
theorem leads_freshMark {k : Mark → Value} (h : ∀ mark, r.Records (k mark)) :
    r.Leads (do return k (← Eval.freshMark)) s (fun _ => False) Records := by
  intro hr
  refine ⟨r, .refl r, ⟨fun mark hmark => hr.fresh mark (Nat.le_of_succ_le hmark), hr.bound⟩,
    fun _ hv => hv.elim, ?_⟩
  intro v s' hv
  cases hv
  exact h _

theorem leads_settle (name : String) {a : Attempt Answer} (h : a.Gives (Answer.Satisfies r.Records)) :
    r.Leads (Machine.settle name a) s (fun _ => False) Records := by
  match a with
  | .ok (.value v) => exact leads_pure h
  | .ok (.list items) => exact leads_makeList h
  | .ok (.tuple items) => exact leads_makeTuple h
  | .error refusal => exact leads_throw _

/-- What comes after an attempt is done only if it succeeds. -/
theorem leads_attempt (name : String) {a : Attempt α} {f : α → Eval β} {T : α → Value → Prop}
    {Q : Registry → β → Prop} (h : ∀ b, a = .ok b → r.Leads (f b) s (T b) Q) :
    r.Leads (Machine.attempt name a >>= f) s (fun v => ∃ b, a = .ok b ∧ T b v) Q := by
  cases a with
  | error refusal =>
    refine (leads_throw (refusal.toFault name)).mono ?_
    rintro v ⟨b, hb, -⟩
    cases hb
  | ok b =>
    refine (h b rfl).mono ?_
    rintro v ⟨_, hb, hv⟩
    cases hb
    exact hv

theorem leads_lookup {depth : Nat} {f : FrameId} {x : String} :
    r.Leads (Eval.lookup depth f (.symbol x)) s (fun _ => False) Records := by
  intro hr
  refine ⟨r, .refl r, ?_, fun _ hv => hv.elim, ?_⟩
  · unfold Eval.after
    rw [Eval.lookup_symbol]
    cases s.lookup? f (.symbol x) <;> exact hr
  · intro v s' hv
    rw [Eval.lookup_symbol] at hv
    cases hl : s.lookup? f (.symbol x) with
    | none =>
      rw [hl] at hv
      cases hv
    | some w =>
      rw [hl] at hv
      cases hv
      exact hr.bound v (Policy.exists_mem_of_lookup? hl)

theorem leads_insert (f : FrameId) (x : String) {v : Value} (hv : r.Records v) :
    r.Leads (modify fun s => s.insert f (.symbol x) v) s (fun _ => False) fun _ _ => True :=
  fun hr => ⟨r, .refl r, hr.insert f x hv, fun _ h => h.elim, fun _ _ _ => trivial⟩

/-- A message that shows a value. -/
theorem moves_fail_text {R : Store → Store → Prop} [IsPreorder Store R] (t : Except TextFault String)
    (e : String → LispError) : (do Eval.fail (e (← Eval.text t)) : Eval α).Moves R :=
  (Eval.moves_text t).bind fun _ => Eval.moves_fail _

theorem leads_fail_text (t : Except TextFault String) (e : String → LispError) :
    r.Leads (do Eval.fail (e (← Eval.text t)) : Eval α) s (fun _ => False) Q := by
  refine leads_unmoved (moves_fail_text t e) fun a s' ha => ?_
  obtain ⟨_, _, -, hfail⟩ := Eval.bind_eq_ok ha
  cases hfail

/-- A computation that ends as another one does, in a store that a larger registry knows. -/
theorem Leads.of_eq {x y : Eval α} (hxy : x s = y s')
    (h : r.Knows s → ∃ r₁ : Registry, r.Grows r₁ ∧ r₁.Knows s' ∧ r₁.Leads y s' S Q) :
    r.Leads x s S Q := by
  intro hr
  obtain ⟨r₁, hgrows, hr₁, hy⟩ := h hr
  obtain ⟨r', hgrows', hr', hS, hQ⟩ := hy hr₁
  refine ⟨r', hgrows.trans hgrows', ?_, hS, fun a s'' ha => hQ a s'' (hxy.symm.trans ha)⟩
  rw [Eval.after_of_eq hxy]
  exact hr'

end Registry

end SmallLisp
