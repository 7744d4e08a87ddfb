import Mathlib.Order.Defs.Unbundled
import SmallLisp.Store

/-!
Frames under definition, and the stores that come later.

A frame grows by definitions: `Frame.Grows W fr fr'` says that `fr'` comes from `fr` by binding names
of `W`, one after another, so other names keep their values, bound names stay bound and the outer
link stays (`Frame.Grows.get?_eq`, `Frame.Grows.isSome`, `Frame.Grows.outer_eq`).  A store is changed
within `W`, `Store.Writes W s s'`, when each frame of `s` has grown by the names that `W` allows for
it; frames may have been added.  `Store.Extends` puts no limit on the names.
-/

namespace SmallLisp

/-! ## Names -/

namespace Value

theorem same_symbol (v : Value) (x : String) : v.same (.symbol x) = true ↔ v = .symbol x := by
  cases v <;> simp [same, numeric?]

theorem symbol_same (x : String) (v : Value) : (Value.symbol x).same v = true ↔ v = .symbol x := by
  cases v with
  | symbol y => simpa [same] using eq_comm
  | _ => simp [same]

end Value

theorem eraseDups_sublist (names : List String) : names.eraseDups.Sublist names := by
  induction hn : names.length using Nat.strongRecOn generalizing names with
  | ind n ih =>
    cases names with
    | nil => exact List.Sublist.refl _
    | cons x names =>
      have hfilter := List.filter_sublist (p := fun y => !y == x) (l := names)
      have hlt : (names.filter fun y => !y == x).length < n := by
        have := hfilter.length_le
        simp only [List.length_cons] at hn
        omega
      rw [List.eraseDups_cons]
      exact ((ih _ hlt _ rfl).trans hfilter).cons_cons x

theorem nodup_eraseDups (names : List String) : names.eraseDups.Nodup := by
  induction hn : names.length using Nat.strongRecOn generalizing names with
  | ind n ih =>
    cases names with
    | nil => exact List.nodup_nil
    | cons x names =>
      have hlt : (names.filter fun y => !y == x).length < n := by
        have := List.length_filter_le (fun y => !y == x) names
        simp only [List.length_cons] at hn
        omega
      rw [List.eraseDups_cons, List.nodup_cons]
      exact ⟨by simp [List.mem_eraseDups], ih _ hlt _ rfl⟩

theorem nodup_of_length_eraseDups {names : List String}
    (h : names.eraseDups.length = names.length) : names.Nodup := by
  rw [← (eraseDups_sublist names).eq_of_length h]
  exact nodup_eraseDups names

/-! ## Bindings of one frame -/

namespace Frame

theorem find?_bind_self (x : String) (v : Value) (bs : List (Value × Value)) :
    ((bind (.symbol x) v bs).find? fun b => b.1.same (.symbol x)).map Prod.snd = some v := by
  induction bs with
  | nil => simp [bind, Value.same_symbol]
  | cons b bs ih =>
    obtain ⟨key, old⟩ := b
    unfold bind
    by_cases h : key.same (.symbol x) = true
    · simp [h]
    · simpa [h] using ih

theorem find?_bind_of_ne {x : String} {y : Value} (h : y ≠ .symbol x) (v : Value)
    (bs : List (Value × Value)) :
    ((bind (.symbol x) v bs).find? fun b => b.1.same y).map Prod.snd =
      (bs.find? fun b => b.1.same y).map Prod.snd := by
  have hx : (Value.symbol x).same y = false := by
    rw [Bool.eq_false_iff, ne_eq, Value.symbol_same]
    exact h
  induction bs with
  | nil => simp [bind, hx]
  | cons b bs ih =>
    obtain ⟨key, old⟩ := b
    unfold bind
    by_cases hk : key.same (.symbol x) = true
    · have hkey : key = .symbol x := (Value.same_symbol key x).1 hk
      subst hkey
      simp [hk, hx]
    · by_cases hy : key.same y = true
      · simp [hk, hy]
      · simpa [hk, hy] using ih

@[simp] theorem insert_outer (fr : Frame) (name v : Value) : (fr.insert name v).outer = fr.outer :=
  rfl

theorem get?_insert_self (fr : Frame) (x : String) (v : Value) :
    (fr.insert (.symbol x) v).get? (.symbol x) = some v :=
  find?_bind_self x v fr.bindings

theorem get?_insert_of_ne (fr : Frame) {x : String} {y : Value} (h : y ≠ .symbol x) (v : Value) :
    (fr.insert (.symbol x) v).get? y = fr.get? y :=
  find?_bind_of_ne h v fr.bindings

/-- A value bound after a definition was bound before or is the one defined. -/
theorem mem_bind {name v : Value} {bs : List (Value × Value)} {b : Value × Value}
    (h : b ∈ bind name v bs) : b ∈ bs ∨ b.2 = v := by
  induction bs with
  | nil => simp_all [bind]
  | cons c bs ih =>
    obtain ⟨key, old⟩ := c
    unfold bind at h
    split at h
    · rcases List.mem_cons.1 h with rfl | h
      · exact Or.inr rfl
      · exact Or.inl (List.mem_cons_of_mem _ h)
    · rcases List.mem_cons.1 h with rfl | h
      · exact Or.inl List.mem_cons_self
      · rcases ih h with h | h
        · exact Or.inl (List.mem_cons_of_mem _ h)
        · exact Or.inr h

/-! ## Growth -/

/-- One frame comes from another by definitions of names that `W` allows. -/
inductive Grows (W : String → Prop) (fr : Frame) : Frame → Prop
  | refl : Grows W fr fr
  | insert {fr' : Frame} {x : String} (v : Value) :
      W x → Grows W fr fr' → Grows W fr (fr'.insert (.symbol x) v)

namespace Grows

variable {W : String → Prop} {fr fr' fr'' : Frame}

theorem trans (h : Grows W fr fr') (h' : Grows W fr' fr'') : Grows W fr fr'' := by
  induction h' with
  | refl => exact h
  | insert v hx _ ih => exact .insert v hx ih

theorem mono {W' : String → Prop} (hW : ∀ x, W x → W' x) (h : Grows W fr fr') :
    Grows W' fr fr' := by
  induction h with
  | refl => exact .refl
  | insert v hx _ ih => exact .insert v (hW _ hx) ih

theorem outer_eq (h : Grows W fr fr') : fr'.outer = fr.outer := by
  induction h with
  | refl => rfl
  | insert v hx _ ih => exact ih

theorem get?_eq (h : Grows W fr fr') {y : Value} (hy : ∀ x, W x → y ≠ .symbol x) :
    fr'.get? y = fr.get? y := by
  induction h with
  | refl => rfl
  | insert v hx _ ih => rw [get?_insert_of_ne _ (hy _ hx), ih]

theorem isSome (h : Grows W fr fr') {y : Value} (hy : (fr.get? y).isSome) : (fr'.get? y).isSome := by
  induction h with
  | refl => exact hy
  | @insert fr' x v hx _ ih =>
    by_cases hyx : y = .symbol x
    · rw [hyx, get?_insert_self]; rfl
    · rw [get?_insert_of_ne _ hyx]; exact ih

theorem eq_of_forall_not (h : Grows W fr fr') (hW : ∀ x, ¬ W x) : fr' = fr := by
  cases h with
  | refl => rfl
  | insert v hx _ => exact absurd hx (hW _)

end Grows

end Frame

/-! ## Stores -/

namespace Store

/-- Each frame of the first store is there in the second, changed by definitions that `W` allows. -/
def Writes (W : FrameId → String → Prop) (s s' : Store) : Prop :=
  ∀ g fr, s.frames[g]? = some fr → ∃ fr', s'.frames[g]? = some fr' ∧ Frame.Grows (W g) fr fr'

def Extends (s s' : Store) : Prop := Writes (fun _ _ => True) s s'

section Writes

variable {W : FrameId → String → Prop} {s s' s'' : Store}

theorem Writes.of_frames_eq (h : s'.frames = s.frames) : Writes W s s' :=
  fun _ fr hg => ⟨fr, by rw [h]; exact hg, .refl⟩

theorem Writes.refl (s : Store) : Writes W s s := .of_frames_eq rfl

theorem Writes.trans (h : Writes W s s') (h' : Writes W s' s'') : Writes W s s'' := by
  intro g fr hg
  obtain ⟨fr', hg', hfr⟩ := h g fr hg
  obtain ⟨fr'', hg'', hfr'⟩ := h' g fr' hg'
  exact ⟨fr'', hg'', hfr.trans hfr'⟩

instance : IsPreorder Store (Writes W) where
  refl := Writes.refl
  trans _ _ _ := Writes.trans

theorem Writes.mono {W' : FrameId → String → Prop} (hW : ∀ g x, W g x → W' g x)
    (h : Writes W s s') : Writes W' s s' := by
  intro g fr hg
  obtain ⟨fr', hg', hfr⟩ := h g fr hg
  exact ⟨fr', hg', hfr.mono (hW g)⟩

/-- Names that `W` allows for a frame outside the store do not matter. -/
theorem Writes.restrict {W' : FrameId → String → Prop}
    (hW : ∀ g x, g < s.frames.size → W g x → W' g x) (h : Writes W s s') : Writes W' s s' := by
  intro g fr hg
  obtain ⟨fr', hg', hfr⟩ := h g fr hg
  exact ⟨fr', hg', hfr.mono fun x => hW g x (Array.getElem?_eq_some_iff.1 hg).1⟩

theorem Writes.frame_eq (h : Writes W s s') {g : FrameId} {fr : Frame}
    (hg : s.frames[g]? = some fr) (hW : ∀ x, ¬ W g x) : s'.frames[g]? = some fr := by
  obtain ⟨fr', hg', hfr⟩ := h g fr hg
  rw [hg', hfr.eq_of_forall_not hW]

theorem Writes.size_le (h : Writes W s s') : s.frames.size ≤ s'.frames.size := by
  by_cases h0 : s.frames.size = 0
  · omega
  · have hlt : s.frames.size - 1 < s.frames.size := by omega
    obtain ⟨fr', hg', -⟩ := h _ _ (Array.getElem?_eq_getElem hlt)
    have := (Array.getElem?_eq_some_iff.1 hg').1
    omega

theorem writes_insert {f : FrameId} {x : String} (hW : W f x) (v : Value) :
    Writes W s (s.insert f (.symbol x) v) := by
  intro g fr hg
  simp only [insert, Array.getElem?_modify]
  by_cases h : f = g
  · subst h
    exact ⟨fr.insert (.symbol x) v, by simp [hg], .insert v hW .refl⟩
  · exact ⟨fr, by simp [h, hg], .refl⟩

/-- A frame after a definition: its link was there before, and so were its values but for one. -/
theorem exists_frame_of_insert {f g : FrameId} {name v : Value} {fr : Frame}
    (h : (s.insert f name v).frames[g]? = some fr) :
    ∃ fr₀, s.frames[g]? = some fr₀ ∧ fr.outer = fr₀.outer ∧
      ∀ b ∈ fr.bindings, b ∈ fr₀.bindings ∨ b.2 = v := by
  simp only [insert, Array.getElem?_modify] at h
  split at h
  · obtain ⟨fr₀, hfr₀, rfl⟩ := Option.map_eq_some_iff.1 h
    exact ⟨fr₀, hfr₀, rfl, fun b => Frame.mem_bind⟩
  · exact ⟨fr, h, rfl, fun b hb => Or.inl hb⟩

theorem writes_push (names values : List Value) (outer : Option FrameId) :
    Writes W s (s.push names values outer).2 := by
  intro g fr hg
  refine ⟨fr, ?_, .refl⟩
  have hlt := (Array.getElem?_eq_some_iff.1 hg).1
  simp only [push, Array.getElem?_push, if_neg (Nat.ne_of_lt hlt), hg]

end Writes

end Store

end SmallLisp
