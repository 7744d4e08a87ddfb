import SmallLisp.Proofs.Chains
import SmallLisp.Proofs.Programs

/-!
Well-formed stores.

In a well-formed store every frame but the root has an outer frame made earlier, and every frame that
a procedure refers to is there.  Following outer links from any frame then ends in the root, and
`Store.chain` is the path taken (`Store.WellFormed.path_chain`).  A fresh interpreter starts with such
a store and all its runs keep it so, also runs that are cut short by a fault
(`reaches_wellFormed`).
-/

namespace SmallLisp

namespace Store

/-- The frame that a procedure refers to is there. -/
def Has (s : Store) : Value → Prop
  | .closure _ _ _ f => f < s.frames.size
  | .primitive _ (.showFrames f) => f < s.frames.size
  | _ => True

/-- A frame is the root, which has no outer frame, or has an outer frame made before it. -/
def Linked (s : Store) (root : FrameId) : Prop :=
  ∀ (g : FrameId) (fr : Frame), s.frames[g]? = some fr →
    (g = root ∧ fr.outer = none) ∨ ∃ h, fr.outer = some h ∧ h < g

structure WellFormed (s : Store) (root : FrameId) : Prop where
  root_outer : ∃ fr, s.frames[root]? = some fr ∧ fr.outer = none
  linked : s.Linked root
  held : ∀ (g : FrameId) (fr : Frame) (b : Value × Value),
    s.frames[g]? = some fr → b ∈ fr.bindings → b.2.Procedures s.Has

/-- The frames met from a frame on by following outer links until there is none. -/
inductive Path (s : Store) : FrameId → List FrameId → Prop
  | last {f : FrameId} {fr : Frame} : s.frames[f]? = some fr → fr.outer = none → Path s f [f]
  | outer {f g : FrameId} {fr : Frame} {path : List FrameId} :
      s.frames[f]? = some fr → fr.outer = some g → Path s g path → Path s f (f :: path)

theorem WellFormed.path_chain {s : Store} {root : FrameId} (h : s.WellFormed root) {f : FrameId}
    (hf : f < s.frames.size) : s.Path f (s.chain f) ∧ (s.chain f).getLast? = some root := by
  induction f using Nat.strongRecOn with
  | ind f ih =>
    have hfr := Array.getElem?_eq_getElem hf
    rcases h.linked f _ hfr with ⟨rfl, ho⟩ | ⟨g, ho, hg⟩
    · rw [chain_of_root hfr ho]
      exact ⟨.last hfr ho, rfl⟩
    · obtain ⟨hpath, hlast⟩ := ih g hg (Nat.lt_trans hg hf)
      rw [chain_of_outer hfr ho hg]
      refine ⟨.outer hfr ho hpath, ?_⟩
      rw [List.getLast?_cons, hlast]
      rfl

/-! ## What keeps links and references -/

theorem Has.mono {s s' : Store} (h : s.Extends s') {v : Value} (hv : s.Has v) : s'.Has v := by
  match v, hv with
  | .closure _ _ _ f, hv => exact Nat.lt_of_lt_of_le hv h.size_le
  | .primitive _ (.showFrames f), hv => exact Nat.lt_of_lt_of_le hv h.size_le
  | .primitive _ (.operation _), _ | .primitive _ .map, _ | .primitive _ .apply, _
  | .primitive _ .record, _ => trivial
  | .number _, _ | .symbol _, _ | .bool _, _ | .unspecified, _ | .list _ _, _ | .tuple _ _, _
  | .text _, _ | .nothing, _ => trivial

theorem Linked.insert {s : Store} {root : FrameId} (h : s.Linked root) (f : FrameId)
    (name v : Value) : (s.insert f name v).Linked root := by
  intro g fr hfr
  obtain ⟨fr₀, hfr₀, houter, -⟩ := exists_frame_of_insert hfr
  rw [houter]
  exact h g fr₀ hfr₀

theorem Linked.entered {s : Store} {root : FrameId} (h : s.Linked root) {f : FrameId}
    (hf : f < s.frames.size) (params : List String) (args : List Value) :
    (Machine.entered s params args f).Linked root := by
  intro g fr hfr
  rcases frame_of_entered hfr with ⟨rfl, houter⟩ | hfr
  · exact Or.inr ⟨f, houter, hf⟩
  · exact h g fr hfr

end Store

namespace Policy

/-- Evaluation in frames that are there, of procedures whose frames are there; faults are free. -/
def frames (root : FrameId) : Policy where
  Expr s e f := f < s.frames.size ∧ e.Procedures s.Has
  Proc s v := s.Has v
  Inv s := s.Linked root
  Allowed _ := True

theorem frames_lawful (root : FrameId) : (frames root).Lawful where
  expr_mono h he :=
    ⟨Nat.lt_of_lt_of_le he.1 h.size_le, Value.Procedures.mono (fun _ => .mono h) _ he.2⟩
  proc_mono h hv := hv.mono h
  inv_eq h hs g fr hfr := hs g fr (by rw [← h]; exact hfr)
  inv_insert hs := hs.insert _ _ _
  ordinary _ := trivial
  parts {s e f} he := by
    have hexpr : ∀ v, (frames root).Good s v → (frames root).Expr s v f := fun v hv => ⟨he.1, hv⟩
    exact parts_of_good (fun _ => trivial) hexpr (fun _ h => h.2) (fun _ _ _ _ => he.1) he.2
  enter {s mark params body f args} hs hc hlen := by
    have hext := Store.extends_entered s params args f
    refine ⟨hs.inv.entered hc.1 params args, ?_, Value.Procedures.mono (fun _ => .mono hext) _ hc.2⟩
    rw [Store.entered_frames, Array.size_push]
    exact Nat.lt_succ_self _

theorem frames_expr_of_datum? {root : FrameId} {s : Store} (hroot : root < s.frames.size) (d : Datum)
    (e : Value) (s' : Store) (h : s.Extends s') (he : e.datum? = some d) :
    (frames root).Expr s' e root :=
  ⟨Nat.lt_of_lt_of_le hroot h.size_le, Value.procedures_of_datum? he⟩

theorem frames_has_standard {root : FrameId} {s s' : Store} (hroot : root < s.frames.size)
    (mark : Mark) (b : Builtin) (h : s.Extends s') (hb : ∀ g, b = .showFrames g → g = root) :
    (frames root).Proc s' (.primitive mark b) := by
  cases b with
  | showFrames g =>
    rw [hb g rfl]
    exact Nat.lt_of_lt_of_le hroot h.size_le
  | _ => trivial

end Policy

/-! ## Runs of a fresh interpreter -/

/-- The store with nothing in it but a root frame without bindings. -/
def Store.bare (notices : Array Notice) : Store :=
  { Store.empty with notices, frames := #[⟨[], none⟩] }

theorem Store.bare_size (notices : Array Notice) : 0 < (Store.bare notices).frames.size :=
  Nat.one_pos

theorem Store.bare_frame {notices : Array Notice} {g : FrameId} {fr : Frame}
    (h : (Store.bare notices).frames[g]? = some fr) : g = 0 ∧ fr = ⟨[], none⟩ := by
  have hlt : g < 1 := (Array.getElem?_eq_some_iff.1 h).1
  have hg : g = 0 := Nat.lt_one_iff.1 hlt
  subst hg
  exact ⟨rfl, (Option.some.inj h).symm⟩

theorem Policy.holds_bare {p : Policy} {notices : Array Notice} (h : p.Inv (Store.bare notices)) :
    p.Holds (Store.bare notices) where
  inv := h
  bound g fr b hfr hb := by
    obtain ⟨rfl, rfl⟩ := Store.bare_frame hfr
    cases hb

theorem Store.linked_bare (notices : Array Notice) : (Store.bare notices).Linked 0 := by
  intro g fr hfr
  obtain ⟨rfl, rfl⟩ := Store.bare_frame hfr
  exact Or.inl ⟨rfl, rfl⟩

/-- A fresh store grows out of the bare one by the standard bindings. -/
theorem CommandLine.fresh_eq (notices : Array Notice) :
    CommandLine.fresh notices = (0, (Eval.register 0).after (Store.bare notices)) := by
  have hbare : Eval.newFrame [] [] none { Store.empty with notices } =
      .ok 0 (Store.bare notices) := rfl
  unfold CommandLine.fresh Eval.standardFrame
  rw [Eval.bind_ok hbare]
  cases hreg : Eval.register 0 (Store.bare notices) with
  | ok u s => rw [Eval.bind_ok hreg, Eval.after_ok hreg]; rfl
  | error e s => rw [Eval.bind_error hreg, Eval.after_error hreg]

/-- A policy that holds of the bare store and allows the standard builtins holds of a fresh store. -/
theorem Policy.Lawful.fresh {p : Policy} (hp : p.Lawful) (notices : Array Notice)
    (hinv : p.Inv (Store.bare notices))
    (hprim : ∀ s' mark b, (Store.bare notices).Extends s' → (∀ g, b = .showFrames g → g = 0) →
      p.Proc s' (.primitive mark b)) :
    (Store.bare notices).Extends (CommandLine.fresh notices).2 ∧
      p.Holds (CommandLine.fresh notices).2 := by
  have h := hp.register (f := 0) (Policy.holds_bare hinv) hprim
  rw [CommandLine.fresh_eq]
  dsimp only
  exact h

theorem fresh_extends_holds (notices : Array Notice) :
    (Store.bare notices).Extends (CommandLine.fresh notices).2 ∧
      (Policy.frames 0).Holds (CommandLine.fresh notices).2 :=
  (Policy.frames_lawful 0).fresh notices (Store.linked_bare notices) fun _ =>
    Policy.frames_has_standard (Store.bare_size notices)

/-- What every run from a store that keeps to the policy of frames does. -/
theorem Interpreter.Reaches.extends_holds {root : FrameId} {s s' : Store}
    (hroot : root < s.frames.size) (hs : (Policy.frames root).Holds s)
    (h : Interpreter.Reaches root s s') : s.Extends s' ∧ (Policy.frames root).Holds s' :=
  (Policy.frames_lawful root).reaches trivial (fun _ => trivial)
    (Policy.frames_expr_of_datum? hroot) hs h

theorem Store.WellFormed.of_holds {notices : Array Notice} {s : Store}
    (hext : (Store.bare notices).Extends s) (hs : (Policy.frames 0).Holds s) : s.WellFormed 0 where
  root_outer := by
    obtain ⟨fr, hfr, hgrows⟩ := hext 0 ⟨[], none⟩ rfl
    exact ⟨fr, hfr, hgrows.outer_eq⟩
  linked := hs.inv
  held := hs.bound

theorem Store.WellFormed.root_lt {s : Store} {root : FrameId} (h : s.WellFormed root) :
    root < s.frames.size := by
  obtain ⟨fr, hfr, -⟩ := h.root_outer
  exact (Array.getElem?_eq_some_iff.1 hfr).1

theorem Store.WellFormed.holds {s : Store} {root : FrameId} (h : s.WellFormed root) :
    (Policy.frames root).Holds s :=
  ⟨h.linked, h.held⟩

/-- Runs of a fresh interpreter lead to well-formed stores only. -/
theorem wellFormed_of_reaches {notices : Array Notice} {root : FrameId} {s₀ s : Store}
    (hfresh : CommandLine.fresh notices = (root, s₀)) (h : Interpreter.Reaches root s₀ s) :
    s.WellFormed root := by
  have hroot : root = 0 := by rw [CommandLine.fresh_eq] at hfresh; exact (Prod.mk.inj hfresh).1.symm
  obtain ⟨hext₀, hs₀⟩ := fresh_extends_holds notices
  rw [hfresh] at hext₀ hs₀
  subst hroot
  have hlt : 0 < s₀.frames.size := Nat.lt_of_lt_of_le (Store.bare_size notices) hext₀.size_le
  obtain ⟨hext, hs⟩ := h.extends_holds hlt hs₀
  exact .of_holds (hext₀.trans hext) hs

theorem Interpreter.procedures_has_of_eval {root : FrameId} {s s' : Store} (h : s.WellFormed root)
    {limit : Nat} {source : String} {v : Value}
    (heval : Interpreter.eval limit root source s = .ok v s') : v.Procedures s'.Has := by
  have hleads : (Policy.frames root).Leads (Interpreter.eval limit root source) s
      (Policy.frames root).Good :=
    (Policy.frames_lawful root).leads_eval trivial (fun _ _ => trivial) fun d _ =>
      Policy.frames_expr_of_datum? h.root_lt d
  exact (Eval.Ends.of_ok (hleads h.holds) heval).2.2

/-- A call of a closure runs in a frame that was not there before, and whose number no frame made
later has. -/
theorem call_frame_new (d : Nat) (mark : Mark) {params : List String} (body : Value) (f : FrameId)
    {args : List Value} (hlen : params.length = args.length) (t : Store) :
    call (d + 1) (.closure mark params body f) args t =
        evaluate d body t.frames.size (Machine.entered t params args f) ∧
      t.frames[t.frames.size]? = none ∧
      ∀ t', (Machine.entered t params args f).Extends t' → t.frames.size < t'.frames.size := by
  refine ⟨Machine.callStep_closure (Machine.level d) hlen mark body f t, by simp, ?_⟩
  intro t' hext
  have hsize : (Machine.entered t params args f).frames.size = t.frames.size + 1 := by
    rw [Store.entered_frames, Array.size_push]
  have hle := hext.size_le
  omega

/-- Whatever a fresh interpreter is given to evaluate, its store stays well-formed, outer links lead
to the root, values refer to frames that are there, links and bound names last, and calls run in
frames of their own. -/
theorem reaches_wellFormed (notices : Array Notice) {root : FrameId} {s₀ s : Store}
    (hfresh : CommandLine.fresh notices = (root, s₀)) (hs : Interpreter.Reaches root s₀ s) :
    s.WellFormed root ∧
      (∀ f, f < s.frames.size → s.Path f (s.chain f) ∧ (s.chain f).getLast? = some root) ∧
      (∀ limit source v s', Interpreter.eval limit root source s = .ok v s' →
        v.Procedures s'.Has) ∧
      (∀ s', Interpreter.Reaches root s s' → ∀ (g : FrameId) fr, s.frames[g]? = some fr →
        ∃ fr', s'.frames[g]? = some fr' ∧ fr'.outer = fr.outer ∧
          ∀ name, (fr.get? name).isSome → (fr'.get? name).isSome) ∧
      ∀ t d mark params body f args, params.length = args.length →
        call (d + 1) (.closure mark params body f) args t =
            evaluate d body t.frames.size (Machine.entered t params args f) ∧
          t.frames[t.frames.size]? = none ∧
          ∀ t', (Machine.entered t params args f).Extends t' →
            t.frames.size < t'.frames.size := by
  have hwf := wellFormed_of_reaches hfresh hs
  refine ⟨hwf, fun f hf => hwf.path_chain hf, ?_, ?_, ?_⟩
  · intro limit source v s' heval
    exact Interpreter.procedures_has_of_eval hwf heval
  · intro s' hreach g fr hfr
    obtain ⟨hext, -⟩ := hreach.extends_holds hwf.root_lt hwf.holds
    obtain ⟨fr', hfr', hgrows⟩ := hext g fr hfr
    exact ⟨fr', hfr', hgrows.outer_eq, fun _ => hgrows.isSome⟩
  · intro t d mark params body f args hlen
    exact call_frame_new d mark body f hlen t

/-- Whether a computation ends with a closure. -/
def Eval.givesClosure (x : Eval Value) (s : Store) : Bool :=
  match x s with
  | .ok (.closure _ _ _ _) _ => true
  | _ => false

theorem Eval.exists_of_givesClosure {x : Eval Value} {s : Store} (h : x.givesClosure s = true) :
    ∃ mark params body f s', x s = .ok (.closure mark params body f) s' := by
  unfold Eval.givesClosure at h
  split at h
  · next mark params body f s' hx => exact ⟨mark, params, body, f, s', hx⟩
  · cases h

/-- A text that defines a procedure, then one that returns it. -/
theorem reaches_wellFormed_returned_closure :
    ∃ s₀ s s' mark params body f, CommandLine.fresh #[] = (0, s₀) ∧ Interpreter.Reaches 0 s₀ s ∧
      Interpreter.eval 40 0 "f" s = .ok (.closure mark params body f) s' ∧
      s.WellFormed 0 ∧ s.Path 0 (s.chain 0) ∧
      (Value.closure mark params body f).Procedures s'.Has ∧
      (∃ fr fr', s.frames[0]? = some fr ∧ s'.frames[0]? = some fr' ∧ fr'.outer = fr.outer) ∧
      call 1 (.closure mark [] (.symbol "car") 0) [] s =
        evaluate 0 (.symbol "car") s.frames.size (Machine.entered s [] [] 0) := by
  obtain ⟨s₀, s, hfresh, hs, hclosure⟩ : ∃ s₀ s, CommandLine.fresh #[] = (0, s₀) ∧
      Interpreter.Reaches 0 s₀ s ∧ (Interpreter.eval 40 0 "f").givesClosure s = true :=
    ⟨_, _, CommandLine.fresh_eq #[], .eval 40 "(define f (lambda (x) x))" .refl,
      by decide +kernel⟩
  obtain ⟨hwf, hpath, hvalue, hkeep, hcall⟩ := reaches_wellFormed #[] hfresh hs
  obtain ⟨mark, params, body, f, s', heval⟩ := Eval.exists_of_givesClosure hclosure
  obtain ⟨fr, hfr, -⟩ := hwf.root_outer
  have hs' : Interpreter.Reaches 0 s s' := by
    rw [← Eval.after_ok heval]
    exact .eval 40 "f" .refl
  obtain ⟨fr', hfr', houter, -⟩ := hkeep s' hs' 0 fr hfr
  exact ⟨s₀, s, s', mark, params, body, f, hfresh, hs, heval, hwf, (hpath 0 hwf.root_lt).1,
    hvalue _ _ _ _ heval, ⟨fr, fr', hfr, hfr', houter⟩, (hcall s 0 mark [] _ 0 [] rfl).1⟩

end SmallLisp
