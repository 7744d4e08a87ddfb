import SmallLisp.Proofs.Mirror
import SmallLisp.Proofs.WellFormed

/-!
Programs without definitions leave no trace.

Such a program changes no frame that was there: it leaves frames that nothing refers to, and marks
that are spent.  What runs after it makes its frames and marks with higher numbers than it would make
otherwise, and is the same but for these numbers.  So it prints the same, fails in the same way, shows
the same and leaves the same bindings (`Interpreter.answer_transparent`).

`s.Shifted r F M a b t` relates the stores of the two runs: `t` is `s` with frames and marks renamed,
and new ones will get the numbers that `r` gives them, up to the bounds `F` and `M`; what is shown comes
after `a` in one and after `b` in the other.  The renaming must leave alone what is there at the start.
That it does is itself shown by a comparison, of a run with itself (`Store.Settled.eval`).
-/

namespace SmallLisp

open Eval (Alike)

/-! ## Shifts -/

namespace Renaming

/-- Numbers from `n` on are raised by `k`. -/
def raise (n k i : Nat) : Nat := if i < n then i else i + k

theorem raise_strictMono (n k : Nat) : StrictMono (raise n k) := by
  intro i j hij
  unfold raise
  split <;> split <;> omega

theorem raise_of_lt {n i : Nat} (k : Nat) (h : i < n) : raise n k i = i := if_pos h

theorem raise_of_le {n i : Nat} (k : Nat) (h : n ≤ i) : raise n k i = i + k :=
  if_neg (Nat.not_lt_of_le h)

/-- Frames from `n` on are raised by `k`, and marks from `m` on by `l`. -/
def shift (n k m l : Nat) : Renaming where
  frame := raise n k
  mark := raise m l
  frame_strictMono := raise_strictMono n k
  mark_injective := (raise_strictMono m l).injective

end Renaming

namespace Store

/-- One store is the other with frames and marks renamed, and so it will be with what is made next. -/
structure Shifted (r : Renaming) (F M : Nat) (a b : String) (s t : Store) : Prop where
  frames : ∀ g : FrameId, t.frames[r.frame g]? = s.frames[g]?.map (Frame.rename r)
  size : ∀ i, s.frames.size + i < F → r.frame (s.frames.size + i) = t.frames.size + i
  marks : ∀ i, s.nextMark + i < M → r.mark (s.nextMark + i) = t.nextMark + i
  size_le : s.frames.size ≤ F
  marks_le : s.nextMark ≤ M
  output : ∃ shown, s.output = a ++ shown ∧ t.output = b ++ shown

/-- Shifted stores, seen up to the bounds. -/
def shifted (r : Renaming) (F M : Nat) (a b : String) : Mirror r where
  Rel s t := s.Shifted r F M a b t
  Lost s _ := F < s.frames.size ∨ M < s.nextMark

namespace Shifted

variable {r : Renaming} {F M : Nat} {a b : String} {s t : Store}

theorem chain_eq (h : s.Shifted r F M a b t) (f : FrameId) :
    t.chain (r.frame f) = (s.chain f).map r.frame := by
  induction f using Nat.strongRecOn with
  | ind f ih =>
    have hframe := h.frames f
    cases hfr : s.frames[f]? with
    | none =>
      rw [hfr] at hframe
      rw [chain_of_none hfr, chain_of_none hframe]
      rfl
    | some fr =>
      rw [hfr] at hframe
      cases ho : fr.outer with
      | none =>
        have ho' : (fr.rename r).outer = none := by rw [Frame.rename, ho]; rfl
        rw [chain_of_root hfr ho, chain_of_root hframe ho']
        rfl
      | some g =>
        have ho' : (fr.rename r).outer = some (r.frame g) := by rw [Frame.rename, ho]; rfl
        by_cases hlt : g < f
        · rw [chain_of_outer hfr ho hlt, chain_of_outer hframe ho' (r.frame_strictMono hlt), ih g hlt]
          rfl
        · have hlt' : ¬ r.frame g < r.frame f := fun h => hlt (r.frame_strictMono.lt_iff_lt.1 h)
          rw [chain_of_not_lt hfr ho hlt, chain_of_not_lt hframe ho' hlt']
          rfl

theorem get?_eq (h : s.Shifted r F M a b t) (g : FrameId) (name : Value) :
    t.get? (r.frame g) name = (s.get? g name).map (Value.rename r) := by
  unfold get?
  rw [h.frames g]
  cases s.frames[g]? with
  | none => rfl
  | some fr => exact fr.get?_rename r name

theorem bindings_eq (h : s.Shifted r F M a b t) (g : FrameId) :
    t.bindings (r.frame g) = Frame.renameBindings r (s.bindings g) := by
  unfold bindings
  rw [h.frames g]
  cases s.frames[g]? <;> rfl

theorem lookup?_eq (h : s.Shifted r F M a b t) (f : FrameId) (name : Value) :
    t.lookup? (r.frame f) name = (s.lookup? f name).map (Value.rename r) := by
  unfold lookup?
  rw [h.chain_eq f, List.findSome?_map, List.map_findSome?]
  congr 1
  funext g
  exact h.get?_eq g name

theorem spend (h : s.Shifted r F M a b t) {n : Nat} (hn : s.nextMark + n ≤ M) :
    (s.spend n).Shifted r F M a b (t.spend n) where
  frames := h.frames
  size := h.size
  marks i hi := by
    show r.mark (s.nextMark + n + i) = t.nextMark + n + i
    rw [Nat.add_assoc, Nat.add_assoc]
    exact h.marks (n + i) (by rw [← Nat.add_assoc]; exact hi)
  size_le := h.size_le
  marks_le := hn
  output := h.output

theorem addFrame (h : s.Shifted r F M a b t) (hlt : s.frames.size < F) (fr : Frame) :
    (s.addFrame fr).Shifted r F M a b (t.addFrame (fr.rename r)) := by
  have hframe : r.frame s.frames.size = t.frames.size := h.size 0 hlt
  have hsize : (s.addFrame fr).frames.size = s.frames.size + 1 := Array.size_push _
  have hsize' : (t.addFrame (fr.rename r)).frames.size = t.frames.size + 1 := Array.size_push _
  refine ⟨fun g => ?_, fun i hi => ?_, h.marks, by omega, h.marks_le, h.output⟩
  · show (t.frames.push (fr.rename r))[r.frame g]? = (s.frames.push fr)[g]?.map (Frame.rename r)
    rw [Array.getElem?_push, Array.getElem?_push, ← hframe]
    by_cases hg : g = s.frames.size
    · rw [if_pos (congrArg r.frame hg), if_pos hg]
      rfl
    · rw [if_neg fun heq => hg (r.frame_strictMono.injective heq), if_neg hg]
      exact h.frames g
  · rw [hsize] at hi ⊢
    rw [hsize', Nat.add_assoc, Nat.add_assoc]
    exact h.size (1 + i) (by omega)

theorem insert (h : s.Shifted r F M a b t) (f : FrameId) (name v : Value) :
    (s.insert f name v).Shifted r F M a b (t.insert (r.frame f) name (v.rename r)) := by
  have hsize : (s.insert f name v).frames.size = s.frames.size := Array.size_modify
  have hsize' : (t.insert (r.frame f) name (v.rename r)).frames.size = t.frames.size :=
    Array.size_modify
  refine ⟨fun g => ?_, ?_, h.marks, ?_, h.marks_le, h.output⟩
  · show (t.frames.modify (r.frame f) _)[r.frame g]? = (s.frames.modify f _)[g]?.map _
    rw [Array.getElem?_modify, Array.getElem?_modify, h.frames g]
    by_cases hg : f = g
    · rw [if_pos (congrArg r.frame hg), if_pos hg]
      cases s.frames[g]? with
      | none => rfl
      | some fr => exact congrArg some (fr.insert_rename r name v)
    · rw [if_neg fun heq => hg (r.frame_strictMono.injective heq), if_neg hg]
  · rw [hsize, hsize']
    exact h.size
  · rw [hsize]
    exact h.size_le

end Shifted

end Store

theorem Store.shifted_lawful (r : Renaming) (F M : Nat) (a b : String) :
    (Store.shifted r F M a b).Lawful Policy.any where
  lost hs _ h := h.imp (Nat.lt_of_lt_of_le · hs.frames) (Nat.lt_of_lt_of_le · hs.marks)
  note h _ := ⟨h.frames, h.size, h.marks, h.size_le, h.marks_le, h.output⟩
  display {s t} h text := by
    obtain ⟨shown, hs, ht⟩ := h.output
    refine ⟨h.frames, h.size, h.marks, h.size_le, h.marks_le, shown ++ text, ?_, ?_⟩
    · rw [Store.display, hs, String.append_assoc]
    · rw [Store.display, ht, String.append_assoc]
  record h _ := ⟨h.frames, h.size, h.marks, h.size_le, h.marks_le, h.output⟩
  spend {s t} h n := by
    by_cases hn : s.nextMark + n ≤ M
    · refine Or.inr ⟨h.spend hn, fun i hi => h.marks i ?_⟩
      exact Nat.lt_of_lt_of_le (Nat.add_lt_add_left hi _) hn
    · exact Or.inl (Or.inr (Nat.lt_of_not_le hn))
  addFrame {s t} h fr := by
    by_cases hlt : s.frames.size < F
    · exact Or.inr ⟨h.addFrame hlt fr, h.size 0 hlt⟩
    · refine Or.inl (Or.inl ?_)
      show F < (s.frames.push fr).size
      rw [Array.size_push]
      omega
  insert h f x v := h.insert f (.symbol x) v
  lookup _ _ h := h.lookup?_eq _ _
  shown {s t mark f} _ _ h := by
    refine Or.inl ?_
    rw [h.chain_eq f, List.map_map]
    exact List.map_congr_left fun g _ => h.bindings_eq g

theorem Store.Shifted.eval {r : Renaming} {F M : Nat} {a b : String} {s t : Store}
    (h : s.Shifted r F M a b t) {limit : Nat} {root : FrameId} {source : String}
    (hframes : ((Interpreter.eval limit root source).after s).frames.size ≤ F)
    (hmarks : ((Interpreter.eval limit root source).after s).nextMark ≤ M) :
    Alike (Store.Shifted r F M a b) ((Value.rename r <$> Interpreter.eval limit root source) s)
      (Interpreter.eval limit (r.frame root) source t) := by
  have hfollows : (Store.shifted r F M a b).Follows Policy.any (Value.rename r)
      (Interpreter.eval limit root source) (Interpreter.eval limit (r.frame root) source) s :=
    (Store.shifted_lawful r F M a b).eval Policy.any_lawful fun _ _ _ _ _ _ => trivial
  refine (hfollows (Policy.any_holds s) t h).resolve_left fun hlost => ?_
  rcases hlost with hlost | hlost
  · exact Nat.not_lt_of_le hframes hlost
  · exact Nat.not_lt_of_le hmarks hlost

/-! ## Stores that refer to nothing but their own -/

/-- What has been made so far is left alone. -/
structure Renaming.Fixes (r : Renaming) (s : Store) : Prop where
  frame_eq : ∀ g < s.frames.size, r.frame g = g
  mark_eq : ∀ m < s.nextMark, r.mark m = m

theorem Renaming.Fixes.of_later {r : Renaming} {s s' : Store} (h : r.Fixes s') (hs : s.Later s') :
    r.Fixes s :=
  ⟨fun g hg => h.frame_eq g (Nat.lt_of_lt_of_le hg hs.frames),
    fun m hm => h.mark_eq m (Nat.lt_of_lt_of_le hm hs.marks)⟩

namespace Store

/-- Frames hold nothing that is yet to be made: they stay what they are when it is renamed. -/
def Settled (s : Store) : Prop :=
  ∀ (r : Renaming), r.Fixes s → ∀ (g : FrameId) (fr : Frame),
    s.frames[g]? = some fr → fr.rename r = fr

theorem Settled.map_rename {s : Store} (hs : s.Settled) {r : Renaming} (hr : r.Fixes s) (g : FrameId) :
    s.frames[g]?.map (Frame.rename r) = s.frames[g]? := by
  cases hg : s.frames[g]? with
  | none => rfl
  | some fr => exact congrArg some (hs r hr g fr hg)

/-- A store in which all frames were kept is shifted, if the renaming takes frames that are yet to be
made past its own. -/
theorem Settled.shifted {s t : Store} (hs : s.Settled) {r : Renaming} (hr : r.Fixes s)
    (hkeeps : s.Keeps t) (hbeyond : ∀ g, s.frames.size ≤ g → t.frames.size ≤ r.frame g) {F M : Nat}
    (hsize : ∀ i, s.frames.size + i < F → r.frame (s.frames.size + i) = t.frames.size + i)
    (hmarks : ∀ i, s.nextMark + i < M → r.mark (s.nextMark + i) = t.nextMark + i)
    (hF : s.frames.size ≤ F) (hM : s.nextMark ≤ M) : s.Shifted r F M s.output t.output t := by
  refine ⟨fun g => ?_, hsize, hmarks, hF, hM, "", String.append_empty.symm, String.append_empty.symm⟩
  rw [hs.map_rename hr]
  by_cases hg : g < s.frames.size
  · rw [hr.frame_eq g hg, Array.getElem?_eq_getElem hg]
    exact hkeeps.frame_eq (Array.getElem?_eq_getElem hg) fun _ h => h
  · have hle : s.frames.size ≤ g := Nat.le_of_not_lt hg
    rw [Array.getElem?_eq_none (hbeyond g hle), Array.getElem?_eq_none hle]

theorem settled_bare (notices : Array Notice) : (bare notices).Settled := by
  intro r _ g fr hfr
  obtain ⟨rfl, rfl⟩ := bare_frame hfr
  rfl

theorem Settled.spend {s : Store} (hs : s.Settled) (n : Nat) : (s.spend n).Settled :=
  fun r hr => hs r (hr.of_later ⟨Nat.le_refl _, Nat.le_add_right _ _, Nat.le_refl _⟩)

theorem Settled.insert {s : Store} (hs : s.Settled) {f : FrameId} {name v : Value}
    (hv : ∀ r : Renaming, r.Fixes s → v.rename r = v) : (s.insert f name v).Settled := by
  intro r hr g fr hfr
  have hr : r.Fixes s := hr.of_later ((Eval.adds_insert f name v).later s)
  have hfr : (s.frames.modify f (·.insert name v))[g]? = some fr := hfr
  rw [Array.getElem?_modify] at hfr
  split at hfr
  · obtain ⟨fr₀, hfr₀, rfl⟩ := Option.map_eq_some_iff.1 hfr
    have hinsert := fr₀.insert_rename r name v
    rw [hv r hr, hs r hr g fr₀ hfr₀] at hinsert
    exact hinsert.symm
  · exact hs r hr g fr hfr

/-- A program leaves frames that hold nothing but what was made: this is what comparing its run with
itself says, under a renaming of what is made later. -/
theorem Settled.eval {s : Store} (hs : s.Settled) {root : FrameId} (hroot : root < s.frames.size)
    (limit : Nat) (source : String) : ((Interpreter.eval limit root source).after s).Settled := by
  have hlater := (Interpreter.adds_eval limit root source).later s
  intro r hr g fr hfr
  have hr₀ := hr.of_later hlater
  have hbeyond : ∀ g, s.frames.size ≤ g → s.frames.size ≤ r.frame g := by
    intro g hg
    by_contra hlt
    have hfixed : r.frame (r.frame g) = r.frame g := hr₀.frame_eq _ (Nat.lt_of_not_le hlt)
    have hsame : r.frame g = g := r.frame_strictMono.injective hfixed
    exact hlt (Nat.le_trans hg (Nat.le_of_eq hsame.symm))
  have hself := hs.shifted hr₀ (Writes.refl s) hbeyond (fun i hi => hr.frame_eq _ hi)
    (fun i hi => hr.mark_eq _ hi) hlater.frames hlater.marks
  have halike := hself.eval (Nat.le_refl _) (Nat.le_refl _)
  rw [hr₀.frame_eq root hroot] at halike
  have hframe := halike.rel.frames g
  rw [Eval.after_map, hr.frame_eq g (Array.getElem?_eq_some_iff.1 hfr).1, hfr] at hframe
  exact (Option.some.inj hframe).symm

/-- A standard name is bound to nothing but what was made, if its builtin shows the frame itself. -/
theorem Settled.bindEntry {s : Store} (hs : s.Settled) {f : FrameId} (hf : f < s.frames.size)
    {entry : Standard.Entry} (hentry : ∀ g, entry = .builtin (.showFrames g) → g = f)
    (name : String) :
    ∃ s', (Eval.makeEntry entry >>= fun v => modify fun s => s.insert f (.symbol name) v : Eval Unit) s
        = .ok () s' ∧ s'.Settled ∧ f < s'.frames.size := by
  have hsize : ∀ v, f < (s.insert f (.symbol name) v).frames.size := fun v =>
    Nat.lt_of_lt_of_le hf ((Eval.adds_insert f (.symbol name) v).later s).frames
  cases entry with
  | number x => exact ⟨_, rfl, hs.insert fun _ _ => rfl, hsize _⟩
  | truth b => exact ⟨_, rfl, hs.insert fun _ _ => rfl, hsize _⟩
  | builtin b =>
    refine ⟨_, rfl, (hs.spend 1).insert fun r hr => ?_, hsize (.primitive s.nextMark b)⟩
    have hmark : r.mark s.nextMark = s.nextMark := hr.mark_eq _ (Nat.lt_succ_self _)
    have hb : b.rename r = b := by
      cases b with
      | showFrames g =>
        rw [hentry g rfl]
        exact congrArg Builtin.showFrames (hr.frame_eq f hf)
      | _ => rfl
    rw [Value.rename, hmark, hb]

theorem Settled.register {s : Store} (hs : s.Settled) {f : FrameId} (hf : f < s.frames.size) :
    ((Eval.register f).after s).Settled := by
  have hframe : ∀ name g, (name, .builtin (.showFrames g)) ∈ Standard.entries f → g = f :=
    fun _ _ => Policy.frame_of_mem_entries
  unfold Eval.register
  -- there are many entries: nothing below may unfold them
  generalize Standard.entries f = entries at hframe ⊢
  induction entries generalizing s with
  | nil => exact hs
  | cons entry entries ih =>
    obtain ⟨name, entry⟩ := entry
    have hentry : ∀ g, entry = .builtin (.showFrames g) → g = f := by
      rintro g rfl
      exact hframe name g (by simp)
    obtain ⟨s', hrun, hs', hf'⟩ := hs.bindEntry hf hentry name
    rw [List.forM, Eval.after_bind_ok hrun]
    exact ih hs' hf' fun name g h => hframe name g (List.mem_cons_of_mem _ h)

theorem settled_of_reaches {notices : Array Notice} {root : FrameId} {s₀ s : Store}
    (hfresh : CommandLine.fresh notices = (root, s₀)) (h : Interpreter.Reaches root s₀ s) :
    s.Settled := by
  induction h with
  | refl =>
    rw [CommandLine.fresh_eq] at hfresh
    rw [← (Prod.mk.inj hfresh).2]
    exact (settled_bare notices).register (bare_size notices)
  | eval limit source h ih => exact ih.eval (wellFormed_of_reaches hfresh h).root_lt limit source

end Store

/-! ## Definitions in programs -/

namespace Value

theorem definedName_map_rename (r : Renaming) (vs : List Value) :
    definedName (vs.map (rename r)) = definedName vs := by
  rcases vs with _ | ⟨v, _ | ⟨_, _ | _⟩⟩
  · rfl
  · cases v <;> rfl
  · cases v <;> rfl
  · cases v <;> rfl

mutual

theorem defines_rename (r : Renaming) : ∀ v : Value, (v.rename r).defines = v.defines
  | .list _ items => definesForm_rename r items
  | .tuple _ items => definesForm_rename r items
  | .number _ | .symbol _ | .bool _ | .unspecified | .text _ | .nothing | .primitive _ _
  | .closure _ _ _ _ => rfl

theorem definesForm_rename (r : Renaming) :
    ∀ vs : List Value, definesForm (renameAll r vs) = definesForm vs
  | [] => rfl
  | head :: operands => by
    have hhead := defines_rename r head
    have hname := definedName_map_rename r operands
    have hall := definesAll_rename r operands
    simp only [renameAll_eq] at hall
    simp only [renameAll, renameAll_eq, definesForm, ofHead?_rename, hhead, hname, hall]

theorem definesAll_rename (r : Renaming) :
    ∀ vs : List Value, definesAll (renameAll r vs) = definesAll vs
  | [] => rfl
  | v :: vs => by rw [renameAll, definesAll, definesAll, defines_rename r v, definesAll_rename r vs]

end

end Value

/-- The names of the definitions in a datum, those in quoted text and in procedures left out. -/
def Datum.defines (d : Datum) : List String := (d.intern 0).1.defines

theorem Datum.defines_intern (d : Datum) (next : Mark) : (d.intern next).1.defines = d.defines := by
  have hmarks : ∀ i < d.marks, (Renaming.shift 0 0 0 next).mark (0 + i) = next + i := by
    intro i _
    rw [Nat.zero_add, Nat.add_comm]
    exact Renaming.raise_of_le next (Nat.zero_le i)
  rw [← d.intern_rename _ 0 next hmarks, Value.defines_rename]
  rfl

namespace Interpreter

open Store (WritesIn)

theorem evalData_writesIn (limit : Nat) (root : FrameId) {data : List Datum} {xs : List String}
    (h : ∀ d ∈ data, ∀ x ∈ d.defines, x ∈ xs) (last : Value) :
    (evalData limit root last data).Moves (WritesIn root xs) := by
  induction data generalizing last with
  | nil => exact Eval.moves_pure last
  | cons d data ih =>
    intro s
    have hintern : Eval.intern d s =
        .ok (d.intern s.nextMark).1 { s with nextMark := (d.intern s.nextMark).2 } := rfl
    have hd : ∀ x ∈ (d.intern s.nextMark).1.defines, x ∈ xs := by
      rw [d.defines_intern]
      exact h d (by simp)
    have hrest : (evaluate limit (d.intern s.nextMark).1 root >>= fun v =>
        evalData limit root v data).Moves (WritesIn root xs) :=
      ((evaluate_writesIn limit _ root).mono fun _ _ => WritesIn.mono hd).bind
        (ih fun d' hd' => h d' (by simp [hd']))
    have hmarks : WritesIn root xs s { s with nextMark := (d.intern s.nextMark).2 } :=
      Store.Writes.of_frames_eq rfl
    rw [evalData, Eval.after_bind_ok hintern]
    exact hmarks.trans (hrest _)

/-- A program writes the names that it defines in the root frame, and nothing else. -/
theorem eval_writesIn (limit : Nat) (root : FrameId) {source : String} {xs : List String}
    (h : ∀ d ∈ (parseAll limit source).1, ∀ x ∈ d.defines, x ∈ xs) :
    (eval limit root source).Moves (WritesIn root xs) := by
  unfold eval
  split
  · exact Eval.moves_fail _
  · next data hread =>
    rw [hread] at h
    intro s
    have hdata := evalData_writesIn limit root h .unspecified s
    rcases after_reportExhaustion source (evalData limit root .unspecified data) s with heq | heq
    · rw [heq]
      exact hdata
    · rw [heq]
      exact Store.Writes.trans hdata (Store.Writes.of_frames_eq rfl)

theorem eval_keeps (limit : Nat) (root : FrameId) {source : String}
    (h : ∀ d ∈ (parseAll limit source).1, d.defines = []) :
    (eval limit root source).Moves Store.Keeps := by
  have hwrites : (eval limit root source).Moves (WritesIn root []) :=
    eval_writesIn limit root fun d hd x hx => by rwa [h d hd] at hx
  exact hwrites.mono fun _ _ => Store.Writes.mono fun _ x hx => by cases hx.2

end Interpreter

/-! ## Programs after programs without definitions -/

/-- The bindings of a frame in order: names and printed values. -/
def Store.listing (s : Store) (depth : Nat) (f : FrameId) :
    List (Value × Except TextFault String) :=
  (s.bindings f).map fun b => (b.1, b.2.print depth)

theorem Store.Shifted.listing_eq {r : Renaming} {F M : Nat} {a b : String} {s t : Store}
    (h : s.Shifted r F M a b t) (depth : Nat) (f : FrameId) :
    t.listing depth (r.frame f) = s.listing depth f := by
  unfold Store.listing
  rw [h.bindings_eq f, Frame.renameBindings, List.map_map]
  refine List.map_congr_left fun b _ => ?_
  simp only [Function.comp_apply, Value.print_rename]

/-- What is yet to be made after `s` is raised past what was made up to `s'`. -/
def Store.raising (s s' : Store) : Renaming :=
  .shift s.frames.size (s'.frames.size - s.frames.size) s.nextMark (s'.nextMark - s.nextMark)

theorem Store.raising_fixes (s s' : Store) : (s.raising s').Fixes s :=
  ⟨fun _ => Renaming.raise_of_lt _, fun _ => Renaming.raise_of_lt _⟩

theorem Store.Settled.shifted_raising {s s' : Store} (hs : s.Settled) (hlater : s.Later s')
    (hkeeps : s.Keeps s') {F M : Nat} (hF : s.frames.size ≤ F) (hM : s.nextMark ≤ M) :
    s.Shifted (s.raising s') F M s.output s'.output s' := by
  have hraise : ∀ {m n : Nat}, m ≤ n → ∀ i, Renaming.raise m (n - m) (m + i) = n + i := by
    intro m n h i
    rw [Renaming.raise_of_le _ (Nat.le_add_right m i)]
    omega
  refine hs.shifted (s.raising_fixes s') hkeeps (fun g hg => ?_)
    (fun i _ => hraise hlater.frames i) (fun i _ => hraise hlater.marks i) hF hM
  obtain ⟨i, rfl⟩ := Nat.exists_eq_add_of_le hg
  exact Nat.le_trans (Nat.le_add_right _ i) (Nat.le_of_eq (hraise hlater.frames i).symm)

namespace Interpreter

theorem answer_snd (limit : Nat) (root : FrameId) (source : String) (s : Store) :
    (answer limit root source s).2 = (eval limit root source).after s := by
  unfold answer Eval.after
  cases eval limit root source s with
  | ok v s' =>
    dsimp only
    cases v.print limit <;> rfl
  | error fault s' => cases fault <;> rfl

/-- Ends that are alike but for a renaming are reported in the same way. -/
theorem answer_fst_of_alike {R : Store → Store → Prop} {r : Renaming} {limit : Nat}
    {root root' : FrameId} {source : String} {s t : Store}
    (h : Alike R ((Value.rename r <$> eval limit root source) s) (eval limit root' source t)) :
    (answer limit root' source t).1 = (answer limit root source s).1 := by
  unfold answer
  cases heval : eval limit root source s with
  | ok v s' =>
    rw [Eval.map_ok heval] at h
    generalize eval limit root' source t = result at h
    cases h with
    | ok _ =>
      dsimp only
      rw [Value.print_rename]
      cases v.print limit <;> rfl
  | error fault s' =>
    rw [Eval.map_error heval] at h
    generalize eval limit root' source t = result at h
    cases h with
    | error _ => cases fault <;> rfl

/-- A program without definitions, in any state that a fresh interpreter gets to and however it ends,
makes no difference to what is run after it: the answer, what is shown and the bindings left in the
root frame are those of a run without it.  Run twice, such a program gives the same answer twice. -/
theorem answer_transparent {notices : Array Notice} {root : FrameId} {s₀ s : Store}
    (hfresh : CommandLine.fresh notices = (root, s₀)) (hs : Reaches root s₀ s) {limit : Nat}
    {p : String} (hp : ∀ d ∈ (parseAll limit p).1, d.defines = []) :
    let s₁ := (answer limit root p s).2
    ∀ (limit' : Nat) (q : String),
      let alone := answer limit' root q s
      let next := answer limit' root q s₁
      next.1 = alone.1 ∧
        (∃ shown, alone.2.output = s.output ++ shown ∧ next.2.output = s₁.output ++ shown) ∧
        ∀ depth, next.2.listing depth root = alone.2.listing depth root := by
  intro s₁ limit' q alone next
  have hsettled := Store.settled_of_reaches hfresh hs
  have hs₁ : s₁ = (eval limit root p).after s := answer_snd limit root p s
  have hlater : s.Later s₁ := hs₁ ▸ (adds_eval limit root p).later s
  have hkeeps : s.Keeps s₁ := hs₁ ▸ eval_keeps limit root hp s
  -- the bounds are what the run of `q` alone makes
  have hend := (adds_eval limit' root q).later s
  have hshifted := hsettled.shifted_raising hlater hkeeps hend.frames hend.marks
  have hroot : (s.raising s₁).frame root = root :=
    (s.raising_fixes s₁).frame_eq root (wellFormed_of_reaches hfresh hs).root_lt
  have halike := hshifted.eval (Nat.le_refl _) (Nat.le_refl _)
  rw [hroot] at halike
  have hleft := halike.rel
  rw [Eval.after_map, ← answer_snd, ← answer_snd] at hleft
  refine ⟨answer_fst_of_alike halike, hleft.output, fun depth => ?_⟩
  have hlisting := hleft.listing_eq depth root
  rwa [hroot] at hlisting

/-- Calls that leave frames and marks behind and are cut short, before comparisons of new lists. -/
theorem answer_transparent_cut_short :
    let s := (eval 50 0 "(define f (lambda (n) (begin (define m (list n)) (eq? m m))))").after
      (CommandLine.fresh #[]).2
    let p := "(f 1) g"
    let q := "(define k (list 1)) (list (eq? k k) (eq? k (list 1)) (f 3))"
    let s₁ := (answer 50 0 p s).2
    (∀ d ∈ (parseAll 50 p).1, d.defines = []) ∧
      s₁.frames.size = 2 ∧
      (answer 50 0 p s₁).1 = (answer 50 0 p s).1 ∧
      (answer 50 0 q s₁).1 = (answer 50 0 q s).1 ∧
      ∀ depth, (answer 50 0 q s₁).2.listing depth 0 = (answer 50 0 q s).2.listing depth 0 := by
  intro s p q s₁
  have hfree : ∀ d ∈ (parseAll 50 p).1, d.defines = [] := by decide +kernel
  have hsize : s₁.frames.size = 2 := by decide +kernel
  have hfresh : CommandLine.fresh #[] = (0, (CommandLine.fresh #[]).2) := by
    rw [CommandLine.fresh_eq]
  have hreached : Reaches 0 (CommandLine.fresh #[]).2 s := .eval 50 _ .refl
  have hsame := answer_transparent hfresh hreached hfree 50
  exact ⟨hfree, hsize, (hsame p).1, (hsame q).1, (hsame q).2.2⟩

end Interpreter

end SmallLisp
