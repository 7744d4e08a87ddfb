import SmallLisp.Proofs.Chains
import SmallLisp.Proofs.Mirror

/-!
Runs from two stores that differ in their frames alone.

`s.Twin R t` says that `t` is `s` with other frames, which `R` relates to those of `s`.  A policy masks
`R` if nothing that may be evaluated can tell the two stores apart: definitions and calls keep frames
related, names are looked up with the same result, and the frames that may be shown are the same
(`Policy.Masks`).  Then what keeps to the policy in `s` ends in the same way in `t`, and the stores
left are twins again:

    p.Lawful → p.Masks R → p.Holds s → p.Expr s e f → s.Twin R t →
      Alike (Store.Twin R) (evaluate d e f s) (evaluate d e f t)           (Policy.Masks.evaluate)

Twins are a mirror in which nothing is renamed (`Store.twins`).  Where the frames that may be shown are
not the same, it loses sight of runs that show some (`Policy.Hides.lawful`).
-/

namespace SmallLisp

open Eval (Alike)

namespace Store

def Twin (R : Array Frame → Array Frame → Prop) (s t : Store) : Prop :=
  ∃ frames, t = { s with frames } ∧ R s.frames frames

/-- The same outer link for every frame. -/
def SameLinks (fs gs : Array Frame) : Prop :=
  ∀ g : FrameId, gs[g]?.map Frame.outer = fs[g]?.map Frame.outer

theorem SameLinks.size_eq {fs gs : Array Frame} (h : SameLinks fs gs) : gs.size = fs.size := by
  have hnone : ∀ g : FrameId, gs[g]? = none ↔ fs[g]? = none := by
    intro g
    rw [← Option.map_eq_none_iff (f := Frame.outer), h g, Option.map_eq_none_iff]
  have hle := Array.getElem?_eq_none_iff.1 ((hnone fs.size).2 (by simp))
  have hge := Array.getElem?_eq_none_iff.1 ((hnone gs.size).1 (by simp))
  omega

theorem SameLinks.symm {fs gs : Array Frame} (h : SameLinks fs gs) : SameLinks gs fs :=
  fun g => (h g).symm

theorem SameLinks.trans {fs gs hs : Array Frame} (h : SameLinks fs gs) (h' : SameLinks gs hs) :
    SameLinks fs hs :=
  fun g => (h' g).trans (h g)

theorem SameLinks.push {fs gs : Array Frame} (h : SameLinks fs gs) (fr : Frame) :
    SameLinks (fs.push fr) (gs.push fr) := by
  intro g
  rw [Array.getElem?_push, Array.getElem?_push, h.size_eq]
  split
  · rfl
  · exact h g

theorem sameLinks_modify (fs : Array Frame) (f : FrameId) {c : Frame → Frame}
    (hc : ∀ fr, (c fr).outer = fr.outer) : SameLinks fs (fs.modify f c) := by
  intro g
  have hcomp : Frame.outer ∘ c = Frame.outer := funext hc
  rw [Array.getElem?_modify]
  split
  · rw [Option.map_map, hcomp]
  · rfl

theorem SameLinks.modify {fs gs : Array Frame} (h : SameLinks fs gs) (f : FrameId)
    {c : Frame → Frame} (hc : ∀ fr, (c fr).outer = fr.outer) :
    SameLinks (fs.modify f c) (gs.modify f c) :=
  ((sameLinks_modify fs f hc).symm.trans h).trans (sameLinks_modify gs f hc)

theorem SameLinks.chain_eq {s : Store} {frames : Array Frame} (h : SameLinks s.frames frames)
    (f : FrameId) : ({ s with frames } : Store).chain f = s.chain f :=
  chain_congr fun g _ => h g

/-- Twins, seen while `Seen` holds of how much was shown, and lost once `Gone` does for both. -/
def twins (R : Array Frame → Array Frame → Prop) (Seen Gone : Nat → Prop) : Mirror .none where
  Rel s t := s.Twin R t ∧ Seen s.output.length
  Lost s t := Gone s.output.length ∧ Gone t.output.length

end Store

namespace Policy

/-- Definitions and calls keep frames related by `R`, and names that may be looked up in one store
have the same value in the other. -/
structure Hides (p : Policy) (R : Array Frame → Array Frame → Prop) : Prop where
  links : ∀ {fs gs}, R fs gs → Store.SameLinks fs gs
  push : ∀ {fs gs}, R fs gs → ∀ fr, R (fs.push fr) (gs.push fr)
  insert : ∀ {fs gs}, R fs gs → ∀ (f : FrameId) (x : String) (v : Value),
    R (fs.modify f (·.insert (.symbol x) v)) (gs.modify f (·.insert (.symbol x) v))
  lookup : ∀ {s : Store} {x : String} {f : FrameId} {frames}, p.Holds s → p.Expr s (.symbol x) f →
    R s.frames frames →
    ({ s with frames } : Store).lookup? f (.symbol x) = s.lookup? f (.symbol x)

/-- Frames related by `R` look the same to all that a policy allows. -/
structure Masks (p : Policy) (R : Array Frame → Array Frame → Prop) : Prop extends p.Hides R where
  shown : ∀ {s : Store} {mark : Mark} {f : FrameId} {frames}, p.Holds s →
    p.Good s (.primitive mark (.showFrames f)) → R s.frames frames →
    ∀ g ∈ s.chain f, ({ s with frames } : Store).bindings g = s.bindings g

section Twins

variable {p : Policy} {R : Array Frame → Array Frame → Prop} {Seen Gone : Nat → Prop} {s : Store}

/-- Twins look the same but to what shows frames: either there is no difference in these, or whatever
is shown leads out of sight. -/
theorem Hides.lawful (hR : p.Hides R) (hseen : ∀ {m n}, m ≤ n → Seen m → Seen n)
    (hgone : ∀ {m n}, m ≤ n → Gone m → Gone n)
    (hshown : ∀ {s : Store} {mark : Mark} {f : FrameId} {frames}, p.Holds s →
      p.Good s (.primitive mark (.showFrames f)) → R s.frames frames → Seen s.output.length →
      (∀ g ∈ s.chain f, ({ s with frames } : Store).bindings g = s.bindings g) ∨
        ∀ n, s.output.length < n → Gone n) :
    (Store.twins R Seen Gone).Lawful p where
  lost hs ht h := ⟨hgone hs.output h.1, hgone ht.output h.2⟩
  note := by
    rintro s _ ⟨⟨frames, rfl, hrel⟩, hs⟩ n
    exact ⟨⟨frames, rfl, hrel⟩, hs⟩
  display := by
    rintro s _ ⟨⟨frames, rfl, hrel⟩, hs⟩ text
    exact ⟨⟨frames, rfl, hrel⟩, hseen ((Eval.adds_display text).later s).output hs⟩
  record := by
    rintro s _ ⟨⟨frames, rfl, hrel⟩, hs⟩ text
    exact ⟨⟨frames, rfl, hrel⟩, hs⟩
  spend := by
    rintro s _ ⟨⟨frames, rfl, hrel⟩, hs⟩ n
    exact Or.inr ⟨⟨⟨frames, rfl, hrel⟩, hs⟩, fun _ _ => rfl⟩
  addFrame := by
    rintro s _ ⟨⟨frames, rfl, hrel⟩, hs⟩ fr
    rw [Frame.rename_none]
    exact Or.inr ⟨⟨⟨_, rfl, hR.push hrel fr⟩, hs⟩, (hR.links hrel).size_eq.symm⟩
  insert := by
    rintro s _ ⟨⟨frames, rfl, hrel⟩, hs⟩ f x v
    rw [Value.rename_none]
    exact ⟨⟨_, rfl, hR.insert hrel f x v⟩, hs⟩
  lookup := by
    rintro s _ x f hs hx ⟨⟨frames, rfl, hrel⟩, -⟩
    rw [Value.rename_none_eq_id, Option.map_id]
    exact hR.lookup hs hx hrel
  shown := by
    rintro s _ mark f hs hgood ⟨⟨frames, rfl, hrel⟩, hsees⟩
    have hchain : ({ s with frames } : Store).chain f = s.chain f := (hR.links hrel).chain_eq f
    simp only [Frame.renameBindings_none]
    show (({ s with frames } : Store).chain f).map _ = _ ∨ s.chain f ≠ [] ∧
      ({ s with frames } : Store).chain f ≠ [] ∧ _
    rw [hchain]
    rcases hshown hs hgood hrel hsees with hsame | hlost
    · exact Or.inl (List.map_congr_left hsame)
    · by_cases hnil : s.chain f = []
      · exact Or.inl (by rw [hnil]; rfl)
      · refine Or.inr ⟨hnil, hnil, fun text htext => ?_⟩
        have hlonger : s.output.length < (s.output ++ text).length := by
          rw [String.length_append]
          have hpos : text.length ≠ 0 := fun h => htext (String.length_eq_zero_iff.1 h)
          omega
        exact ⟨hlost _ hlonger, hlost _ hlonger⟩

/-- From a store that keeps to the policy and from a twin of it, `x` comes to the same end. -/
def Blind (p : Policy) (R : Array Frame → Array Frame → Prop) {α : Type} (x : Eval α) (s : Store) :
    Prop :=
  p.Holds s → ∀ t, s.Twin R t → Alike (Store.Twin R) (x s) (x t)

theorem Masks.lawful (hR : p.Masks R) :
    (Store.twins R (fun _ => True) fun _ => False).Lawful p :=
  hR.toHides.lawful (fun _ => id) (fun _ => id) fun hs hgood hrel _ => Or.inl (hR.shown hs hgood hrel)

/-- Where nothing is renamed, a run that is not lost ends like its twin. -/
theorem alike_of_follows {x : Eval Value} {t : Store}
    (h : (Store.twins R Seen Gone).Follows p (Value.rename .none) x x s) (hs : p.Holds s)
    (ht : s.Twin R t) (hsees : Seen s.output.length)
    (hkeeps : ¬ (Store.twins R Seen Gone).Lost (x.after s) (x.after t)) :
    Alike (Store.Twin R) (x s) (x t) := by
  have hend := (h hs t ⟨ht, hsees⟩).resolve_left hkeeps
  rw [Value.rename_none_eq_id, id_map] at hend
  exact hend.mono fun _ _ h' => h'.1

theorem Masks.evaluate (hR : p.Masks R) (hp : p.Lawful) (d : Nat) {e : Value} {f : FrameId}
    (h : p.Expr s e f) : p.Blind R (SmallLisp.evaluate d e f) s := by
  intro hs t ht
  have hfollows := hR.lawful.evaluate hp d h
  rw [Value.rename_none] at hfollows
  exact alike_of_follows hfollows hs ht trivial fun h => h.1

theorem Masks.call (hR : p.Masks R) (hp : p.Lawful) (d : Nat) {procedure : Value}
    {args : List Value} (hproc : p.Good s procedure) (hargs : ∀ v ∈ args, p.Good s v) :
    p.Blind R (SmallLisp.call d procedure args) s := by
  intro hs t ht
  have hfollows := hR.lawful.call hp d hproc hargs
  rw [Value.rename_none, Value.map_rename_none] at hfollows
  exact alike_of_follows hfollows hs ht trivial fun h => h.1

end Twins

end Policy

end SmallLisp
