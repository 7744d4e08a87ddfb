import Mathlib.Order.Defs.Unbundled
import SmallLisp.Store

/-!
Reasoning about computations on a store.

A computation ends with a value or with a fault, and leaves a store either way (`Eval.after`).
`x.Moves R` says that the store left is related to the store found, whatever the end; for a relation
that is reflexive and transitive this passes through `bind`.  `x.Ends s ok err` says what holds at
the end that `x` comes to from `s`, by the kind of end.  `Alike R` compares the ends of two runs: the
same value or the same fault, and stores related by `R`.
-/

namespace SmallLisp.Eval

variable {α β : Type}

/-- The store that a computation leaves, also when it ends in a fault. -/
def after (x : Eval α) (s : Store) : Store :=
  match x s with
  | .ok _ s' => s'
  | .error _ s' => s'

theorem after_ok {x : Eval α} {s s' : Store} {a : α} (h : x s = .ok a s') : x.after s = s' := by
  rw [after, h]

theorem after_error {x : Eval α} {s s' : Store} {e : Fault} (h : x s = .error e s') :
    x.after s = s' := by
  rw [after, h]

theorem bind_ok {x : Eval α} {f : α → Eval β} {s s' : Store} {a : α} (h : x s = .ok a s') :
    (x >>= f) s = f a s' := by
  show EStateM.bind x f s = _
  rw [EStateM.bind, h]

theorem bind_error {x : Eval α} {f : α → Eval β} {s s' : Store} {e : Fault}
    (h : x s = .error e s') : (x >>= f) s = .error e s' := by
  show EStateM.bind x f s = _
  rw [EStateM.bind, h]

theorem after_bind_ok {x : Eval α} {f : α → Eval β} {s s' : Store} {a : α} (h : x s = .ok a s') :
    (x >>= f).after s = (f a).after s' := by
  rw [after, bind_ok h, after]

theorem map_ok {g : α → β} {x : Eval α} {s s' : Store} {a : α} (h : x s = .ok a s') :
    (g <$> x) s = .ok (g a) s' := by
  show EStateM.map g x s = _
  rw [EStateM.map, h]

theorem map_error {g : α → β} {x : Eval α} {s s' : Store} {e : Fault} (h : x s = .error e s') :
    (g <$> x) s = .error e s' := by
  show EStateM.map g x s = _
  rw [EStateM.map, h]

theorem after_map (g : α → β) (x : Eval α) (s : Store) : (g <$> x).after s = x.after s := by
  cases h : x s with
  | ok a s' => rw [after_ok h, after_ok (map_ok h)]
  | error e s' => rw [after_error h, after_error (map_error h)]

theorem bind_eq_ok {x : Eval α} {f : α → Eval β} {s s' : Store} {b : β}
    (h : (x >>= f) s = .ok b s') : ∃ a s₁, x s = .ok a s₁ ∧ f a s₁ = .ok b s' := by
  cases hx : x s with
  | ok a s₁ =>
    rw [bind_ok hx] at h
    exact ⟨a, s₁, rfl, h⟩
  | error e s₁ =>
    rw [bind_error hx] at h
    cases h

theorem bind_eq_error {x : Eval α} {f : α → Eval β} {s s' : Store} {e : Fault}
    (h : (x >>= f) s = .error e s') :
    x s = .error e s' ∨ ∃ a s₁, x s = .ok a s₁ ∧ f a s₁ = .error e s' := by
  cases hx : x s with
  | ok a s₁ =>
    rw [bind_ok hx] at h
    exact Or.inr ⟨a, s₁, rfl, h⟩
  | error e' s₁ =>
    rw [bind_error hx] at h
    cases h
    exact Or.inl rfl

theorem after_mapFault (g : Fault → Fault) (x : Eval α) (s : Store) :
    (x.mapFault g).after s = x.after s := by
  simp only [after, Eval.mapFault]
  cases x s <;> rfl

theorem map_mapFault (h : α → β) (g : Fault → Fault) (x : Eval α) (s : Store) :
    (h <$> x.mapFault g) s = (h <$> x).mapFault g s := by
  cases hx : x s with
  | ok a s' =>
    have hg : x.mapFault g s = .ok a s' := by rw [Eval.mapFault, hx]
    rw [map_ok hg, Eval.mapFault, map_ok hx]
  | error e s' =>
    have hg : x.mapFault g s = .error (g e) s' := by rw [Eval.mapFault, hx]
    rw [map_error hg, Eval.mapFault, map_error hx]

/-! ## Relations between the store found and the store left -/

def Moves (R : Store → Store → Prop) (x : Eval α) : Prop := ∀ s, R s (x.after s)

theorem Moves.mono {R R' : Store → Store → Prop} (h : ∀ s s', R s s' → R' s s') {x : Eval α}
    (hx : x.Moves R) : x.Moves R' :=
  fun s => h _ _ (hx s)

section Moves

variable {R : Store → Store → Prop} [IsPreorder Store R]

theorem moves_pure (a : α) : (pure a : Eval α).Moves R := fun s => refl_of R s

theorem moves_throw (e : Fault) : (throw e : Eval α).Moves R := fun s => refl_of R s

theorem moves_fail (e : LispError) : (fail e : Eval α).Moves R := moves_throw _

theorem moves_get : (get : Eval Store).Moves R := fun s => refl_of R s

theorem moves_modify {R : Store → Store → Prop} {g : Store → Store} (h : ∀ s, R s (g s)) :
    (modify g : Eval Unit).Moves R :=
  fun s => h s

theorem Moves.bind {x : Eval α} {f : α → Eval β} (hx : x.Moves R) (hf : ∀ a, (f a).Moves R) :
    (x >>= f).Moves R := by
  intro s
  have h := hx s
  cases hxs : x s with
  | ok a s' =>
    rw [after_ok hxs] at h
    rw [after_bind_ok hxs]
    exact trans_of R h (hf a s')
  | error e s' =>
    rw [after_error hxs] at h
    rw [after_error (bind_error hxs)]
    exact h

theorem moves_text (t : Except TextFault String) : (text t).Moves R := by
  cases t with
  | ok a => exact moves_pure a
  | error f => exact moves_throw _

theorem moves_forM {f : α → Eval Unit} (h : ∀ a, (f a).Moves R) (xs : List α) :
    (xs.forM f).Moves R := by
  induction xs with
  | nil => exact moves_pure ()
  | cons a xs ih => exact (h a).bind fun _ => ih

theorem Moves.mapFault {R : Store → Store → Prop} {g : Fault → Fault} {x : Eval α}
    (hx : x.Moves R) : (x.mapFault g).Moves R := by
  intro s
  rw [after_mapFault]
  exact hx s

end Moves

/-! ## Ends -/

def Ends (x : Eval α) (s : Store) (ok : α → Store → Prop) (err : Fault → Store → Prop) : Prop :=
  match x s with
  | .ok a s' => ok a s'
  | .error e s' => err e s'

section Ends

variable {ok ok' : α → Store → Prop} {err err' : Fault → Store → Prop} {x : Eval α} {s s' : Store}

theorem Ends.of_ok {a : α} (h : x.Ends s ok err) (hx : x s = .ok a s') : ok a s' := by
  rwa [Ends, hx] at h

theorem Ends.of_error {e : Fault} (h : x.Ends s ok err) (hx : x s = .error e s') : err e s' := by
  rwa [Ends, hx] at h

theorem Ends.mono (h : x.Ends s ok err) (hok : ∀ a s', ok a s' → ok' a s')
    (herr : ∀ e s', err e s' → err' e s') : x.Ends s ok' err' := by
  unfold Ends at h ⊢
  cases hx : x s with
  | ok a s' => rw [hx] at h; exact hok a s' h
  | error e s' => rw [hx] at h; exact herr e s' h

theorem Ends.after {P : Store → Prop} (h : x.Ends s ok err) (hok : ∀ a s', ok a s' → P s')
    (herr : ∀ e s', err e s' → P s') : P (x.after s) := by
  cases hx : x s with
  | ok a s' =>
    rw [after_ok hx]
    exact hok a s' (h.of_ok hx)
  | error e s' =>
    rw [after_error hx]
    exact herr e s' (h.of_error hx)

theorem Ends.bind {f : α → Eval β} {okb : β → Store → Prop} (h : x.Ends s ok err)
    (hf : ∀ a s', ok a s' → (f a).Ends s' okb err') (herr : ∀ e s', err e s' → err' e s') :
    (x >>= f).Ends s okb err' := by
  cases hx : x s with
  | ok a s' =>
    have h' := hf a s' (h.of_ok hx)
    rwa [Ends, bind_ok hx]
  | error e s' =>
    rw [Ends, bind_error hx]
    exact herr e s' (h.of_error hx)

end Ends

/-! ## Ends of two runs -/

/-- The same value or the same fault, and stores that are related. -/
inductive Alike (R : Store → Store → Prop) :
    EStateM.Result Fault Store α → EStateM.Result Fault Store α → Prop
  | ok {a : α} {s t : Store} : R s t → Alike R (.ok a s) (.ok a t)
  | error {e : Fault} {s t : Store} : R s t → Alike R (.error e s) (.error e t)

section Alike

variable {R R' : Store → Store → Prop}

theorem Alike.mono {r r' : EStateM.Result Fault Store α} (h : Alike R r r')
    (hR : ∀ s t, R s t → R' s t) : Alike R' r r' := by
  cases h with
  | ok hs => exact .ok (hR _ _ hs)
  | error hs => exact .error (hR _ _ hs)

/-- Two runs that end like a third end alike. -/
theorem Alike.join {r r₁ r₂ : EStateM.Result Fault Store α} (h₁ : Alike R r r₁) (h₂ : Alike R r r₂)
    (hR : ∀ s t u, R s t → R s u → R' t u) : Alike R' r₁ r₂ := by
  cases h₁ with
  | ok hs =>
    cases h₂ with
    | ok ht => exact .ok (hR _ _ _ hs ht)
  | error hs =>
    cases h₂ with
    | error ht => exact .error (hR _ _ _ hs ht)

theorem Alike.rel {x : Eval α} {y : Eval α} {s t : Store} (h : Alike R (x s) (y t)) :
    R (x.after s) (y.after t) := by
  unfold Eval.after
  generalize x s = r, y t = r' at h
  cases h with
  | ok hs => exact hs
  | error hs => exact hs

/-- The stores left are the ones that the runs leave. -/
theorem Alike.after {x y : Eval α} {s t : Store} (h : Alike R (x s) (y t))
    (hR : R (x.after s) (y.after t) → R' (x.after s) (y.after t)) : Alike R' (x s) (y t) := by
  unfold Eval.after at hR
  generalize x s = r, y t = r' at h hR
  cases h with
  | ok hs => exact .ok (hR hs)
  | error hs => exact .error (hR hs)

theorem Alike.mapFault {x y : Eval α} {s t : Store} (h : Alike R (x s) (y t)) (g : Fault → Fault) :
    Alike R (x.mapFault g s) (y.mapFault g t) := by
  unfold Eval.mapFault
  generalize x s = r, y t = r' at h
  cases h with
  | ok hs => exact .ok hs
  | error hs => exact .error hs

end Alike

end SmallLisp.Eval
