import SmallLisp.Proofs.Footprint

/-!
Chains of frames and the names bound along them.

A chain depends on the outer links alone, so it does not change as the store grows
(`Store.Extends.chain_eq`), and a name bound along it stays bound (`Store.Binds.mono`).  The frame of
a call binds the parameters, and past them all that the frame of the closure does
(`Store.binds_entered_param`, `Store.binds_entered_outer`).
-/

namespace SmallLisp

namespace Store

variable {s s' : Store}

/-! ## Chains -/

theorem chain_of_none {f : FrameId} (h : s.frames[f]? = none) : s.chain f = [] := by
  rw [chain, h]

theorem chain_of_root {f : FrameId} {fr : Frame} (h : s.frames[f]? = some fr)
    (ho : fr.outer = none) : s.chain f = [f] := by
  rw [chain, h]
  simp [ho]

theorem chain_of_outer {f g : FrameId} {fr : Frame} (h : s.frames[f]? = some fr)
    (ho : fr.outer = some g) (hg : g < f) : s.chain f = f :: s.chain g := by
  rw [chain, h]
  simp [ho, hg]

theorem chain_of_not_lt {f g : FrameId} {fr : Frame} (h : s.frames[f]? = some fr)
    (ho : fr.outer = some g) (hg : ¬ g < f) : s.chain f = [f] := by
  rw [chain, h]
  simp [ho, hg]

theorem lt_size_of_mem_chain {f g : FrameId} (h : g ∈ s.chain f) : f < s.frames.size := by
  cases hf : s.frames[f]? with
  | none => rw [chain_of_none hf] at h; cases h
  | some fr => exact (Array.getElem?_eq_some_iff.1 hf).1

/-- A chain depends on the outer links of the frames up to its first. -/
theorem chain_congr {f : FrameId}
    (h : ∀ g ≤ f, s'.frames[g]?.map Frame.outer = s.frames[g]?.map Frame.outer) :
    s'.chain f = s.chain f := by
  induction f using Nat.strongRecOn with
  | ind f ih =>
    have hf := h f (Nat.le_refl f)
    cases hfr : s.frames[f]? with
    | none =>
      rw [hfr, Option.map_none, Option.map_eq_none_iff] at hf
      rw [chain_of_none hfr, chain_of_none hf]
    | some fr =>
      rw [hfr] at hf
      obtain ⟨fr', hfr', ho'⟩ := Option.map_eq_some_iff.1 hf
      cases ho : fr.outer with
      | none => rw [chain_of_root hfr ho, chain_of_root hfr' (ho'.trans ho)]
      | some g =>
        by_cases hg : g < f
        · have hchain := ih g hg fun g' hg' => h g' (Nat.le_trans hg' (Nat.le_of_lt hg))
          rw [chain_of_outer hfr ho hg, chain_of_outer hfr' (ho'.trans ho) hg, hchain]
        · rw [chain_of_not_lt hfr ho hg, chain_of_not_lt hfr' (ho'.trans ho) hg]

theorem Extends.chain_eq (h : s.Extends s') {f : FrameId} (hf : f < s.frames.size) :
    s'.chain f = s.chain f := by
  refine chain_congr fun g hg => ?_
  have hfr := Array.getElem?_eq_getElem (Nat.lt_of_le_of_lt hg hf)
  obtain ⟨fr', hfr', hgrow⟩ := h g _ hfr
  rw [hfr, hfr', Option.map_some, Option.map_some, hgrow.outer_eq]

/-! ## Bound names -/

/-- A name is bound in a frame or in one outside it. -/
def Binds (s : Store) (f : FrameId) (x : String) : Prop := (s.find? f (.symbol x)).isSome

theorem binds_iff {f : FrameId} {x : String} :
    s.Binds f x ↔ ∃ g ∈ s.chain f, (s.get? g (.symbol x)).isSome := by
  rw [Binds, find?, List.find?_isSome]

theorem lookup?_eq_none_iff {f : FrameId} {x : String} :
    s.lookup? f (.symbol x) = none ↔ ¬ s.Binds f x := by
  rw [binds_iff, lookup?, List.findSome?_eq_none_iff]
  constructor
  · rintro h ⟨g, hg, hx⟩
    rw [h g hg] at hx
    cases hx
  · intro h g hg
    cases hx : s.get? g (.symbol x) with
    | none => rfl
    | some v => exact absurd ⟨g, hg, by rw [hx]; rfl⟩ h

/-- What a frame binds itself is found there. -/
theorem lookup?_of_get? {f : FrameId} {name v : Value} (h : s.get? f name = some v) :
    s.lookup? f name = some v := by
  obtain ⟨fr, hfr, -⟩ := Option.bind_eq_some_iff.1 h
  obtain ⟨rest, hchain⟩ : ∃ rest, s.chain f = f :: rest := by
    cases ho : fr.outer with
    | none => exact ⟨[], chain_of_root hfr ho⟩
    | some g =>
      by_cases hg : g < f
      · exact ⟨s.chain g, chain_of_outer hfr ho hg⟩
      · exact ⟨[], chain_of_not_lt hfr ho hg⟩
  rw [lookup?, hchain, List.findSome?_cons, h]

theorem Extends.isSome_get? (h : s.Extends s') {g : FrameId} {name : Value}
    (hx : (s.get? g name).isSome) : (s'.get? g name).isSome := by
  cases hg : s.frames[g]? with
  | none => rw [get?, hg] at hx; cases hx
  | some fr =>
    obtain ⟨fr', hg', hgrow⟩ := h g fr hg
    rw [get?, hg] at hx
    rw [get?, hg']
    exact hgrow.isSome hx

theorem Binds.mono {f : FrameId} {x : String} (hb : s.Binds f x) (h : s.Extends s') :
    s'.Binds f x := by
  rw [binds_iff] at hb ⊢
  obtain ⟨g, hg, hx⟩ := hb
  exact ⟨g, by rw [h.chain_eq (lt_size_of_mem_chain hg)]; exact hg, h.isSome_get? hx⟩

end Store

/-! ## The frame of a call -/

namespace Frame

theorem isSome_foldl_bind {outer : Option FrameId} {y : Value} :
    ∀ (params : List String) (args : List Value) (bs : List (Value × Value)),
      ((⟨bs, outer⟩ : Frame).get? y).isSome →
      ((⟨((params.map Value.symbol).zip args).foldl (fun bs b => bind b.1 b.2 bs) bs, outer⟩ :
        Frame).get? y).isSome
  | [], _, _, h => h
  | _ :: _, [], _, h => h
  | x :: params, v :: args, bs, h => by
    have hgrow : Grows (fun _ => True) ⟨bs, outer⟩ (insert ⟨bs, outer⟩ (.symbol x) v) :=
      .insert v trivial .refl
    exact isSome_foldl_bind params args (bind (.symbol x) v bs) (hgrow.isSome h)

theorem isSome_foldl_bind_param {outer : Option FrameId} {y : String} :
    ∀ (params : List String) (args : List Value) (bs : List (Value × Value)),
      params.length = args.length → y ∈ params →
      ((⟨((params.map Value.symbol).zip args).foldl (fun bs b => bind b.1 b.2 bs) bs, outer⟩ :
        Frame).get? (.symbol y)).isSome
  | [], _, _, _, h => absurd h List.not_mem_nil
  | x :: params, v :: args, bs, hlen, h => by
    rcases List.mem_cons.1 h with rfl | h
    · refine isSome_foldl_bind params args (bind (.symbol y) v bs) ?_
      have := get?_insert_self ⟨bs, outer⟩ y v
      exact Option.isSome_of_eq_some this
    · exact isSome_foldl_bind_param params args _ (by simpa using hlen) h

end Frame

namespace Store

open Machine

variable {s : Store} {params : List String} {args : List Value} {f : FrameId}

theorem entered_frames (s : Store) (params : List String) (args : List Value) (f : FrameId) :
    (entered s params args f).frames =
      s.frames.push ⟨((params.map Value.symbol).zip args).foldl
        (fun bs b => Frame.bind b.1 b.2 bs) [], some f⟩ :=
  rfl

theorem extends_entered (s : Store) (params : List String) (args : List Value) (f : FrameId) :
    s.Extends (entered s params args f) :=
  (keeps_entered s params args f).mono fun _ _ h => h.elim

/-- A frame in the store of a call is the new one or was there before. -/
theorem frame_of_entered {params : List String} {args : List Value} {f g : FrameId} {fr : Frame}
    (h : (Machine.entered s params args f).frames[g]? = some fr) :
    (g = s.frames.size ∧ fr.outer = some f) ∨ s.frames[g]? = some fr := by
  rw [entered_frames, Array.getElem?_push] at h
  split at h
  · next hg =>
    cases h
    exact Or.inl ⟨hg, rfl⟩
  · exact Or.inr h

theorem entered_frame_new (s : Store) (params : List String) (args : List Value) (f : FrameId) :
    (entered s params args f).frames[s.frames.size]? =
      some ⟨((params.map Value.symbol).zip args).foldl
        (fun bs b => Frame.bind b.1 b.2 bs) [], some f⟩ := by
  rw [entered_frames, Array.getElem?_push_size]

theorem chain_entered (hf : f < s.frames.size) :
    (entered s params args f).chain s.frames.size = s.frames.size :: s.chain f := by
  rw [chain_of_outer (entered_frame_new s params args f) rfl hf,
    (extends_entered s params args f).chain_eq hf]

theorem binds_entered_param (hlen : params.length = args.length) {x : String} (hx : x ∈ params) :
    (entered s params args f).Binds s.frames.size x := by
  have hframe := entered_frame_new s params args f
  rw [binds_iff]
  refine ⟨s.frames.size, ?_, ?_⟩
  · by_cases hf : f < s.frames.size
    · rw [chain_entered hf]
      exact List.mem_cons_self
    · rw [chain_of_not_lt hframe rfl hf]
      exact List.mem_cons_self
  · rw [get?, hframe]
    exact Frame.isSome_foldl_bind_param params args [] hlen hx

theorem binds_entered_outer {x : String} (hx : s.Binds f x) :
    (entered s params args f).Binds s.frames.size x := by
  have hx' := hx.mono (extends_entered s params args f)
  rw [binds_iff] at hx hx' ⊢
  obtain ⟨g, hg, -⟩ := hx
  have hf := lt_size_of_mem_chain hg
  obtain ⟨g, hg, hgx⟩ := hx'
  rw [(extends_entered s params args f).chain_eq hf] at hg
  exact ⟨g, by rw [chain_entered hf]; exact List.mem_cons_of_mem _ hg, hgx⟩

end Store

end SmallLisp
