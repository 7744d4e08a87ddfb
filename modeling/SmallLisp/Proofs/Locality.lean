import SmallLisp.Proofs.Data
import SmallLisp.Proofs.Twins

/-!
Frames out of reach do not matter.

From a frame one reaches its outer frame and the frames that the bound values refer to
(`Store.Reachable`).  Evaluation in a frame sees what is reached from it and the frames that it makes
itself, and gets hold of no other: this is the policy `Policy.visible`.  So two stores that differ in
the bindings of frames out of reach lead to the same value or fault, and to stores that differ in the
same frames (`evaluate_local`).

The policy speaks of all bindings of a store, and frames out of reach may bind anything.  The two runs
are therefore compared with a third one, from the store in which frames out of reach bind nothing
(`Store.exists_cleared`).
-/

namespace SmallLisp

open Eval (Alike)

namespace Value

mutual

/-- The frames that the procedures in a value refer to. -/
def refers : Value → List FrameId
  | .list _ items => refersAll items
  | .tuple _ items => refersAll items
  | .primitive _ (.showFrames f) => [f]
  | .closure _ _ body f => f :: refers body
  | _ => []

def refersAll : List Value → List FrameId
  | [] => []
  | v :: rest => refers v ++ refersAll rest

end

/-- The frame that a procedure itself refers to satisfies `V`. -/
def RefersIn (V : FrameId → Prop) : Value → Prop
  | .closure _ _ _ f => V f
  | .primitive _ (.showFrames f) => V f
  | _ => True

mutual

theorem procedures_refersIn {V : FrameId → Prop} :
    ∀ {v : Value}, (∀ f ∈ v.refers, V f) → v.Procedures (RefersIn V)
  | .list _ items, h => proceduresAll_refersIn h
  | .tuple _ items, h => proceduresAll_refersIn h
  | .primitive _ (.showFrames f), h => h f (by simp [refers])
  | .closure _ _ body f, h =>
    ⟨h f (by simp [refers]), procedures_refersIn fun g hg => h g (by simp [refers, hg])⟩
  | .primitive _ (.operation _), _ | .primitive _ .map, _ | .primitive _ .apply, _
  | .primitive _ .record, _ => trivial
  | .number _, _ | .symbol _, _ | .bool _, _ | .unspecified, _ | .text _, _ | .nothing, _ => trivial

theorem proceduresAll_refersIn {V : FrameId → Prop} :
    ∀ {vs : List Value}, (∀ f ∈ refersAll vs, V f) → ProceduresAll (RefersIn V) vs
  | [], _ => trivial
  | _ :: _, h =>
    ⟨procedures_refersIn fun f hf => h f (by simp [refersAll, hf]),
      proceduresAll_refersIn fun f hf => h f (by simp [refersAll, hf])⟩

end

end Value

namespace Store

/-- The frames reached from some frames by outer links and through bound values. -/
inductive Reachable (s : Store) (roots : List FrameId) : FrameId → Prop
  | root {f : FrameId} : f ∈ roots → Reachable s roots f
  | outer {f g : FrameId} {fr : Frame} : Reachable s roots f → s.frames[f]? = some fr →
      fr.outer = some g → Reachable s roots g
  | bound {f g : FrameId} {fr : Frame} {b : Value × Value} : Reachable s roots f →
      s.frames[f]? = some fr → b ∈ fr.bindings → g ∈ b.2.refers → Reachable s roots g

/-- The same outer links, and the same frames where `V` holds. -/
structure AgreeOn (V : FrameId → Prop) (fs gs : Array Frame) : Prop where
  links : SameLinks fs gs
  frames : ∀ g, V g → gs[g]? = fs[g]?

/-- Two stores with the same frames that differ only in bindings of frames for which `D` holds. -/
def DiffersIn (D : FrameId → Prop) (s t : Store) : Prop := s.Twin (AgreeOn fun g => ¬ D g) t

/-! ## Frames that agree -/

namespace AgreeOn

variable {V : FrameId → Prop} {fs gs hs : Array Frame}

theorem symm (h : AgreeOn V fs gs) : AgreeOn V gs fs where
  links := h.links.symm
  frames g hg := (h.frames g hg).symm

theorem trans (h : AgreeOn V fs gs) (h' : AgreeOn V gs hs) : AgreeOn V fs hs where
  links := h.links.trans h'.links
  frames g hg := (h'.frames g hg).trans (h.frames g hg)

theorem push (h : AgreeOn V fs gs) (fr : Frame) : AgreeOn V (fs.push fr) (gs.push fr) where
  links := h.links.push fr
  frames g hg := by
    rw [Array.getElem?_push, Array.getElem?_push, h.links.size_eq]
    split
    · rfl
    · exact h.frames g hg

theorem modify (h : AgreeOn V fs gs) (f : FrameId) {c : Frame → Frame}
    (hc : ∀ fr, (c fr).outer = fr.outer) : AgreeOn V (fs.modify f c) (gs.modify f c) where
  links := h.links.modify f hc
  frames g hg := by
    rw [Array.getElem?_modify, Array.getElem?_modify, h.frames g hg]

end AgreeOn

/-- Some frames can be made to bind nothing. -/
theorem exists_cleared (V : FrameId → Prop) (frames : Array Frame) :
    ∃ cleared, AgreeOn V frames cleared ∧
      ∀ (g : FrameId) fr, cleared[g]? = some fr → ¬ V g → fr.bindings = [] := by
  classical
  refine ⟨frames.mapIdx fun g fr => if V g then fr else { fr with bindings := [] }, ⟨?_, ?_⟩, ?_⟩
  · intro g
    rw [Array.getElem?_mapIdx, Option.map_map]
    congr 1
    funext fr
    simp only [Function.comp_apply]
    split <;> rfl
  · intro g hg
    simp [Array.getElem?_mapIdx, hg]
  · intro g fr hfr hg
    rw [Array.getElem?_mapIdx] at hfr
    obtain ⟨fr₀, -, rfl⟩ := Option.map_eq_some_iff.1 hfr
    rw [if_neg hg]

/-! ## Visible frames -/

/-- What is reached from some frames, and all frames yet to be made. -/
def Visible (s : Store) (roots : List FrameId) (g : FrameId) : Prop :=
  s.frames.size ≤ g ∨ s.Reachable roots g

/-- Nothing leads out of the visible frames, and new frames will be visible. -/
structure Closed (V : FrameId → Prop) (s : Store) : Prop where
  new : ∀ g, s.frames.size ≤ g → V g
  outer : ∀ (g h : FrameId) (fr : Frame), V g → s.frames[g]? = some fr → fr.outer = some h → V h

theorem Closed.chain {V : FrameId → Prop} {s : Store} (hs : s.Closed V) {f : FrameId} (hf : V f) :
    ∀ g ∈ s.chain f, V g := by
  induction f using Nat.strongRecOn with
  | ind f ih =>
    intro g hg
    cases hfr : s.frames[f]? with
    | none =>
      rw [chain_of_none hfr] at hg
      cases hg
    | some fr =>
      cases ho : fr.outer with
      | none =>
        rw [chain_of_root hfr ho] at hg
        rw [List.mem_singleton.1 hg]
        exact hf
      | some h =>
        by_cases hlt : h < f
        · rw [chain_of_outer hfr ho hlt] at hg
          rcases List.mem_cons.1 hg with rfl | hg
          · exact hf
          · exact ih h hlt (hs.outer f h fr hf hfr ho) g hg
        · rw [chain_of_not_lt hfr ho hlt] at hg
          rw [List.mem_singleton.1 hg]
          exact hf

theorem AgreeOn.lookup?_eq {V : FrameId → Prop} {s : Store} {frames : Array Frame}
    (h : AgreeOn V s.frames frames) (hs : s.Closed V) {f : FrameId} (hf : V f) (name : Value) :
    ({ s with frames } : Store).lookup? f name = s.lookup? f name := by
  have hget : ∀ l : List FrameId, (∀ g ∈ l, V g) →
      l.findSome? (fun g => ({ s with frames } : Store).get? g name) =
        l.findSome? fun g => s.get? g name := by
    intro l hl
    induction l with
    | nil => rfl
    | cons g l ih =>
      have hg : ({ s with frames } : Store).get? g name = s.get? g name := by
        unfold Store.get?
        rw [h.frames g (hl g (by simp))]
      rw [List.findSome?_cons, List.findSome?_cons, hg, ih fun g' hg' => hl g' (by simp [hg'])]
  unfold lookup?
  rw [h.links.chain_eq f]
  exact hget _ (hs.chain hf)

end Store

namespace Policy

open Store

/-- Evaluation in visible frames, of procedures that refer to visible frames; faults are free. -/
def visible (V : FrameId → Prop) : Policy where
  Expr _ e f := V f ∧ e.Procedures (Value.RefersIn V)
  Proc _ v := v.RefersIn V
  Inv s := s.Closed V
  Allowed _ := True

variable {V : FrameId → Prop}

theorem visible_lawful (V : FrameId → Prop) : (visible V).Lawful where
  expr_mono _ he := he
  proc_mono _ hv := hv
  inv_eq h hs := ⟨by rw [h]; exact hs.new, by rw [h]; exact hs.outer⟩
  inv_insert {s f x v} hs := by
    refine ⟨fun g hg => hs.new g (by simpa [Store.insert] using hg), fun g h fr hg hfr ho => ?_⟩
    obtain ⟨fr₀, hfr₀, houter, -⟩ := exists_frame_of_insert hfr
    exact hs.outer g h fr₀ hg hfr₀ (houter.symm.trans ho)
  ordinary _ := trivial
  parts {s e f} he := by
    have hexpr : ∀ v, (visible V).Good s v → (visible V).Expr s v f := fun v hv => ⟨he.1, hv⟩
    exact parts_of_good (fun _ => trivial) hexpr (fun _ h => h.2) (fun _ _ _ _ => he.1) he.2
  enter {s mark params body f args} hs hc hlen := by
    refine ⟨⟨fun g hg => hs.inv.new g ?_, fun g h fr hg hfr ho => ?_⟩, hs.inv.new _ (Nat.le_refl _), hc.2⟩
    · rw [entered_frames, Array.size_push] at hg
      omega
    · rcases frame_of_entered hfr with ⟨-, houter⟩ | hfr
      · cases houter.symm.trans ho
        exact hc.1
      · exact hs.inv.outer g h fr hg hfr ho

theorem visible_masks (V : FrameId → Prop) : (visible V).Masks (AgreeOn V) where
  links h := h.links
  push h fr := h.push fr
  insert h f x v := h.modify f fun _ => rfl
  lookup hs he h := h.lookup?_eq hs.inv he.1 _
  shown hs hproc h g hg := by
    unfold Store.bindings
    rw [h.frames g (hs.inv.chain hproc g hg)]

/-- With frames out of reach cleared, a store shows what is visible only. -/
theorem visible_holds {s : Store} {roots : List FrameId} {cleared : Array Frame}
    (hagree : AgreeOn (s.Visible roots) s.frames cleared)
    (hcleared : ∀ (g : FrameId) fr, cleared[g]? = some fr → ¬ s.Visible roots g → fr.bindings = []) :
    (visible (s.Visible roots)).Holds { s with frames := cleared } := by
  have hreach : ∀ {g : FrameId} {fr : Frame}, s.Visible roots g → cleared[g]? = some fr →
      s.frames[g]? = some fr ∧ s.Reachable roots g := by
    intro g fr hg hfr
    rw [hagree.frames g hg] at hfr
    refine ⟨hfr, hg.resolve_left fun hle => ?_⟩
    have hlt := (Array.getElem?_eq_some_iff.1 hfr).1
    omega
  refine ⟨⟨fun g hg => Or.inl ?_, fun g h fr hg hfr ho => ?_⟩, fun g fr b hfr hb => ?_⟩
  · rw [← hagree.links.size_eq]
    exact hg
  · obtain ⟨hfr, hg⟩ := hreach hg hfr
    exact Or.inr (.outer hg hfr ho)
  · by_cases hg : s.Visible roots g
    · obtain ⟨hfr, hg⟩ := hreach hg hfr
      exact Value.procedures_refersIn fun f hf => Or.inr (.bound hg hfr hb hf)
    · rw [hcleared g fr hfr hg] at hb
      cases hb

end Policy

/-! ## Two runs -/

namespace Store

variable {D : FrameId → Prop} {s t : Store} {roots : List FrameId}

/-- Frames that differ out of reach agree where they are visible. -/
theorem AgreeOn.visible {frames : Array Frame} (h : AgreeOn (fun g => ¬ D g) s.frames frames)
    (hD : ∀ g, D g → ¬ s.Reachable roots g) : AgreeOn (s.Visible roots) s.frames frames := by
  refine ⟨h.links, fun g hg => ?_⟩
  rcases hg with hle | hg
  · have hsize := h.links.size_eq
    rw [Array.getElem?_eq_none_iff.2 hle, Array.getElem?_eq_none_iff.2 (by omega)]
  · exact h.frames g fun hg' => hD g hg' hg

/-- A computation that sees what is in reach of `roots` only, and that writes there and in new frames
only, is not influenced by frames out of reach. -/
theorem DiffersIn.alike {x : Eval Value} (h : s.DiffersIn D t)
    (hD : ∀ g, D g → ¬ s.Reachable roots g)
    (hblind : ∀ V u, (∀ g ∈ roots, V g) → (Policy.visible V).Blind (AgreeOn V) x u)
    (hkeep : ∀ u (g : FrameId) fr, g ∉ roots → u.frames[g]? = some fr →
      (x.after u).frames[g]? = some fr) :
    Alike (DiffersIn D) (x s) (x t) := by
  obtain ⟨frames, rfl, hframes⟩ := h
  obtain ⟨cleared, hagree, hcleared⟩ := exists_cleared (s.Visible roots) s.frames
  have hrun := hblind (s.Visible roots) { s with frames := cleared }
    (fun g hg => Or.inr (.root hg)) (Policy.visible_holds hagree hcleared)
  have hrun₁ := hrun s ⟨s.frames, rfl, hagree.symm⟩
  have hrun₂ := hrun { s with frames } ⟨frames, rfl, hagree.symm.trans (hframes.visible hD)⟩
  have hboth : Alike (Twin (AgreeOn (s.Visible roots))) (x s) (x { s with frames }) := by
    refine hrun₁.join hrun₂ ?_
    rintro u - - ⟨fs, rfl, hfs⟩ ⟨gs, rfl, hgs⟩
    exact ⟨gs, rfl, hfs.symm.trans hgs⟩
  -- frames that are out of reach and not in `D` were the same and were not written
  refine hboth.after ?_
  rintro ⟨frames', heq, hagree'⟩
  refine ⟨frames', heq, hagree'.links, fun g hg => ?_⟩
  by_cases hvis : s.Visible roots g
  · exact hagree'.frames g hvis
  · obtain ⟨hlt, hreach⟩ := not_or.1 hvis
    have hroot : g ∉ roots := fun hg' => hreach (.root hg')
    have hfr := Array.getElem?_eq_getElem (Nat.lt_of_not_le hlt)
    have hafter := hkeep { s with frames } g _ hroot ((hframes.frames g hg).trans hfr)
    rw [heq] at hafter
    rw [hkeep s g _ hroot hfr]
    exact hafter

/-- Give a frame other bindings. -/
def rebind (s : Store) (f : FrameId) (bindings : List (Value × Value)) : Store :=
  { s with frames := s.frames.modify f fun fr => { fr with bindings } }

theorem differsIn_rebind (s : Store) (f : FrameId) (bindings : List (Value × Value)) :
    s.DiffersIn (· = f) (s.rebind f bindings) := by
  refine ⟨_, rfl, sameLinks_modify s.frames f fun _ => rfl, fun g hg => ?_⟩
  rw [Array.getElem?_modify, if_neg fun hf => hg hf.symm]

end Store

theorem alike_evaluate (d : Nat) {D : FrameId → Prop} {s t : Store} (h : s.DiffersIn D t)
    {e : Value} {u : Datum} {f : FrameId} (he : e.datum? = some u)
    (hD : ∀ g, D g → ¬ s.Reachable [f] g) :
    Alike (Store.DiffersIn D) (evaluate d e f s) (evaluate d e f t) := by
  refine h.alike hD (fun V u hV => ?_) fun u g fr hg hfr => ?_
  · exact (Policy.visible_masks V).evaluate (Policy.visible_lawful V) d
      ⟨hV f (by simp), Value.procedures_of_datum? he⟩
  · exact (evaluate_writesIn d e f u).frame_eq hfr fun x hx => hg (by simp [hx.1])

theorem alike_call (d : Nat) {D : FrameId → Prop} {s t : Store} (h : s.DiffersIn D t)
    {procedure : Value} {args : List Value}
    (hD : ∀ g, D g → ¬ s.Reachable (Value.refersAll (procedure :: args)) g) :
    Alike (Store.DiffersIn D) (call d procedure args s) (call d procedure args t) := by
  refine h.alike hD (fun V u hV => ?_) fun u g fr _ hfr => ?_
  · have hgood := Value.proceduresAll_refersIn hV
    exact (Policy.visible_masks V).call (Policy.visible_lawful V) d hgood.1
      (Value.proceduresAll_iff.1 hgood.2)
  · exact (call_keeps d procedure args u).frame_eq hfr fun x hx => hx

/-- Stores that differ only in bindings of frames out of reach lead to the same value or fault, the
same output, and stores that differ only in those frames: the frames of an evaluation are those in
reach of its own frame, and of a call those in reach of the procedure and the arguments.  So the frame
of a caller does not matter to a call unless the procedure or the arguments lead to it. -/
theorem evaluate_local (d : Nat) (s : Store) :
    (∀ (D : FrameId → Prop) (t : Store), s.DiffersIn D t →
      (∀ e u f, Value.datum? e = some u → (∀ g, D g → ¬ s.Reachable [f] g) →
        Alike (Store.DiffersIn D) (evaluate d e f s) (evaluate d e f t)) ∧
      ∀ procedure args, (∀ g, D g → ¬ s.Reachable (Value.refersAll (procedure :: args)) g) →
        Alike (Store.DiffersIn D) (call d procedure args s) (call d procedure args t)) ∧
    ∀ procedure args caller bindings,
      ¬ s.Reachable (Value.refersAll (procedure :: args)) caller →
      Alike (Store.DiffersIn (· = caller)) (call d procedure args s)
        (call d procedure args (s.rebind caller bindings)) := by
  refine ⟨fun D t h => ⟨?_, ?_⟩, ?_⟩
  · intro e u f he hD
    exact alike_evaluate d h he hD
  · intro procedure args hD
    exact alike_call d h hD
  · intro procedure args caller bindings hcaller
    refine alike_call d (s.differsIn_rebind caller bindings) ?_
    rintro g rfl
    exact hcaller

/-- A procedure made in the root frame, called from a frame that binds the name it looks up: the
binding of the caller has no influence. -/
theorem evaluate_local_caller :
    let procedure : Value := .closure 0 [] (.symbol "x") 0
    let root : Frame := ⟨[(.symbol "x", .bool true), (.symbol "f", procedure)], none⟩
    let caller : Frame := ⟨[(.symbol "x", .bool false)], some 0⟩
    let s : Store := { Store.empty with frames := #[root, caller] }
    let t : Store := s.rebind 1 [(.symbol "x", .unspecified)]
    s.DiffersIn (· = 1) t ∧ ¬ s.Reachable [0] 1 ∧
      Alike (Store.DiffersIn (· = 1)) (evaluate 5 (.list 1 [.symbol "f"]) 0 s)
        (evaluate 5 (.list 1 [.symbol "f"]) 0 t) ∧
      Alike (Store.DiffersIn (· = 1)) (call 5 procedure [] s) (call 5 procedure [] t) ∧
      ∃ s', call 5 procedure [] s = .ok (.bool true) s' := by
  intro procedure root caller s t
  have hreach : ∀ g, s.Reachable [0] g → g = 0 := by
    intro g h
    induction h with
    | root hf => exact List.mem_singleton.1 hf
    | outer _ hfr ho ih =>
      subst ih
      cases hfr
      cases ho
    | bound _ hfr hb hg ih =>
      subst ih
      cases hfr
      rcases List.mem_cons.1 hb with rfl | hb
      · cases hg
      · cases List.mem_singleton.1 hb
        exact List.mem_singleton.1 hg
  have hout : ¬ s.Reachable [0] 1 := fun h => absurd (hreach 1 h) (by decide)
  have hdiffers : s.DiffersIn (· = 1) t := s.differsIn_rebind 1 _
  obtain ⟨htwo, hcaller⟩ := evaluate_local 5 s
  refine ⟨hdiffers, hout, ?_, hcaller procedure [] 1 _ hout, _, by with_unfolding_all rfl⟩
  refine (htwo _ t hdiffers).1 _ (.list [.symbol "f"]) 0 rfl ?_
  rintro g rfl
  exact hout

end SmallLisp
