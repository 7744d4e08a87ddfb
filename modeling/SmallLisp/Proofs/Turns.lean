import Mathlib.Data.List.Pairwise
import SmallLisp.Proofs.Mirror
import SmallLisp.Proofs.Output

/-!
The course of a sequence of programs.

Programs are run one after another, and the expressions of each have their turns in order, up to the
first that fails (`Interpreter.turns`).  All that is evaluated or called on the way is a part of the run
of one of them (`Interpreter.Performs`).

Two things hold along such a course.  A policy that the expressions keep to at their turns holds
throughout (`Interpreter.turns_keep`).  And nothing is lost: the store of each part grows into the store
at the end (`Interpreter.Performs.extends`).  Marks are given out in order, so what is read at one turn
has none in common with what is read at another (`Interpreter.turns_apart`).
-/

namespace SmallLisp

open Store (Extends)

/-! ## Parts of a run -/

instance : IsPreorder Store Extends := inferInstanceAs (IsPreorder Store (Store.Writes _))

namespace Eval

variable {α β : Type} {s s₁ : Store}

theorem after_of_eq {x y : Eval α} (h : x s = y s₁) : x.after s = y.after s₁ := by
  rw [after, after, h]

theorem extends_bind (x : Eval α) {f : α → Eval β} (hf : ∀ a, (f a).Moves Extends) (s : Store) :
    (x.after s).Extends ((x >>= f).after s) := by
  cases hx : x s with
  | ok a s' =>
    rw [after_ok hx, after_bind_ok hx]
    exact hf a s'
  | error fault s' =>
    rw [after_error hx, after_error (bind_error hx)]
    exact refl_of Extends s'

theorem moves_mapM {g : α → Eval β} (hg : ∀ a, (g a).Moves Extends) (xs : List α) :
    (xs.mapM g).Moves Extends := by
  induction xs with
  | nil => exact moves_pure []
  | cons a xs ih =>
    rw [List.mapM_cons]
    exact (hg a).bind fun _ => ih.bind fun _ => moves_pure _

/-- One computation among several. -/
theorem extends_mapM {g : α → Eval β} (hg : ∀ a, (g a).Moves Extends) {before : List α} {bs : List β}
    (hbefore : before.mapM g s = .ok bs s₁) (a : α) (after : List α) :
    ((g a).after s₁).Extends (((before ++ a :: after).mapM g).after s) := by
  rw [List.mapM_append, after_bind_ok hbefore, List.mapM_cons]
  refine trans_of Extends (extends_bind (g a) (fun b => ?_) s₁) (extends_bind _ (fun cs => ?_) s₁)
  · exact (moves_mapM hg after).bind fun _ => moves_pure _
  · exact moves_pure _

end Eval

theorem evaluate_extends (d : Nat) (e : Value) (f : FrameId) : (evaluate d e f).Moves Extends :=
  fun s => ((Policy.any_lawful.evaluate d trivial).after (Policy.any_holds s)).1

theorem call_extends (d : Nat) (procedure : Value) (args : List Value) :
    (call d procedure args).Moves Extends :=
  fun s => ((Policy.any_lawful.call d (Policy.any_good s procedure)
    fun v _ => Policy.any_good s v).after (Policy.any_holds s)).1

namespace Task

variable {d : Nat} {t t' : Task} {s s' : Store}

theorem run_extends (d : Nat) (t : Task) : (t.run d).Moves Extends := by
  cases t with
  | eval e f => exact evaluate_extends d e f
  | call procedure args => exact call_extends d procedure args

/-- What a task leaves grows into what the task leaves that came to it. -/
theorem Passes.extends (h : Passes d t s t' s') :
    ((t'.run d).after s').Extends ((t.run (d + 1)).after s) := by
  cases h with
  | @test _ test consequent alternative f =>
    refine Eval.extends_bind (evaluate d test f) (fun v => ?_) s
    split
    · exact evaluate_extends d alternative f
    · exact evaluate_extends d consequent f
  | @branch _ _ _ _ v _ _ _ hv =>
    refine Store.Writes.of_frames_eq (congrArg Store.frames (Eval.after_of_eq ?_))
    refine (Eval.bind_ok hv).trans ?_
    cases v.isFalse <;> rfl
  | @definition _ x e f =>
    refine Eval.extends_bind (evaluate d e f) (fun v => ?_) s
    exact (Eval.moves_modify fun s₁ => Store.writes_insert trivial v).bind fun _ => Eval.moves_pure _
  | @part _ head e operands before after _ f _ _ hhead hsplit hbefore =>
    show Extends _ (((Machine.level d).combination head operands f).after s)
    rw [Machine.evalAll_eq_mapM] at hbefore
    rw [Machine.combination_eq hhead, hsplit, Machine.evalAll_eq_mapM]
    have hpart := Eval.extends_mapM (fun e => evaluate_extends d e f) hbefore e after
    refine trans_of Extends hpart (Eval.extends_bind _ (fun vs => ?_) s)
    cases vs with
    | nil => exact Eval.moves_pure _
    | cons procedure args => exact call_extends d procedure args
  | @application _ head _ operands _ f _ _ hhead hall =>
    show Extends _ (((Machine.level d).combination head operands f).after s)
    rw [Machine.combination_eq hhead, Eval.after_bind_ok hall]
    exact refl_of Extends _
  | @body mark _ _ _ _ _ hlen =>
    refine Store.Writes.of_frames_eq (congrArg Store.frames (Eval.after_of_eq ?_))
    exact Machine.callStep_closure (Machine.level d) hlen mark _ _ s

theorem Starts.extends (h : Starts d t s t' s') :
    ((t'.run d).after s').Extends ((t.run (d + 1)).after s) := by
  cases h with
  | passes h => exact h.extends
  | tuple h =>
    obtain ⟨mark, head, operands, heq⟩ := h.exists_items
    cases heq
    exact h.extends
  | @mapped _ procedure first others vs ws args vss before after _ _ hfirst hothers hsplit hbefore =>
    show Extends _ ((Machine.within "map"
      ((Machine.level d).callMap (procedure :: first :: others))).after s)
    rw [Machine.callAll_eq_mapM] at hbefore
    rw [Machine.within, Eval.after_mapFault, (Machine.level d).callMap_eq hfirst hothers, hsplit,
      Machine.callAll_eq_mapM]
    have hrow := Eval.extends_mapM (call_extends d procedure) hbefore args after
    refine trans_of Extends hrow (Eval.extends_bind _ (fun vs => ?_) s)
    exact (Eval.keeps_makeList vs).mono fun _ _ => Store.Writes.mono fun _ _ h => h.elim
  | @applied _ procedure list args _ hargs =>
    show Extends _ ((Machine.within "apply"
      ((Machine.level d).callApply [procedure, list])).after s)
    rw [Machine.within, Eval.after_mapFault, (Machine.level d).callApply_eq hargs]
    exact refl_of Extends _

theorem Runs.extends {d' : Nat} (h : Runs d t s d' t' s') :
    ((t'.run d').after s').Extends ((t.run d).after s) := by
  induction h with
  | refl => exact refl_of Extends _
  | step hstart _ ih => exact trans_of Extends ih hstart.extends

theorem Runs.next {d' : Nat} {t'' : Task} {s'' : Store} (h : Runs d t s (d' + 1) t' s')
    (hstart : Starts d' t' s' t'' s'') : Runs d t s d' t'' s'' := by
  generalize hk : d' + 1 = k at h
  induction h with
  | refl =>
    subst hk
    exact .step hstart .refl
  | step hfirst _ ih => exact .step hfirst (ih hstart hk)

end Task

/-! ## Turns -/

namespace Interpreter

/-- An expression that is read and evaluated in the root frame. -/
structure Turn where
  limit : Nat
  datum : Datum
  /-- The store before the expression is read. -/
  found : Store

namespace Turn

def expr (a : Turn) : Value := (a.datum.intern a.found.nextMark).1

/-- The store in which its evaluation begins. -/
def store (a : Turn) : Store := a.found.spend a.datum.marks

end Turn

/-- The turns that data come to: all up to the first that fails. -/
def turnsOf (limit : Nat) (root : FrameId) : List Datum → Store → List Turn
  | [], _ => []
  | d :: ds, s =>
    let a : Turn := ⟨limit, d, s⟩
    a :: match evaluate limit a.expr root a.store with
      | .ok _ s' => turnsOf limit root ds s'
      | .error _ _ => []

/-- The turns that the expressions of one text come to; a text that does not read has none. -/
def turnsIn (limit : Nat) (root : FrameId) (source : String) (s : Store) : List Turn :=
  match parseAll limit source with
  | (ds, none) => turnsOf limit root ds s
  | (_, some _) => []

/-- The store after texts that are run one after another, each with a limit of its own. -/
def runAll (root : FrameId) : List (Nat × String) → Store → Store
  | [], s => s
  | p :: ps, s => runAll root ps ((eval p.1 root p.2).after s)

/-- All turns in the course of texts. -/
def turns (root : FrameId) : List (Nat × String) → Store → List Turn
  | [], _ => []
  | p :: ps, s => turnsIn p.1 root p.2 s ++ turns root ps ((eval p.1 root p.2).after s)

/-- A task is part of the run of an expression that has its turn. -/
def Performs (root : FrameId) (ps : List (Nat × String)) (s₀ : Store) (d : Nat) (t : Task)
    (s : Store) : Prop :=
  ∃ a ∈ turns root ps s₀, Task.Runs a.limit (.eval a.expr root) a.store d t s

theorem Performs.next {root : FrameId} {ps : List (Nat × String)} {s₀ s s' : Store} {d : Nat}
    {t t' : Task} (h : Performs root ps s₀ (d + 1) t s) (hstart : t.Starts d s t' s') :
    Performs root ps s₀ d t' s' := by
  obtain ⟨a, ha, hruns⟩ := h
  exact ⟨a, ha, hruns.next hstart⟩

theorem mem_turnsOf_cons {limit : Nat} {root : FrameId} {d : Datum} {ds : List Datum} {s : Store}
    {a : Turn} :
    a ∈ turnsOf limit root (d :: ds) s ↔ a = ⟨limit, d, s⟩ ∨
      ∃ v s', evaluate limit (d.intern s.nextMark).1 root (s.spend d.marks) = .ok v s' ∧
        a ∈ turnsOf limit root ds s' := by
  simp only [turnsOf, Turn.expr, Turn.store, List.mem_cons]
  cases evaluate limit (d.intern s.nextMark).1 root (s.spend d.marks) with
  | ok v s' => simp [and_assoc]
  | error fault s' => simp

theorem datum_of_mem_turnsOf {limit : Nat} {root : FrameId} {ds : List Datum} {s : Store} {a : Turn}
    (ha : a ∈ turnsOf limit root ds s) : a.datum ∈ ds := by
  induction ds generalizing s with
  | nil => cases ha
  | cons d ds ih =>
    rcases mem_turnsOf_cons.1 ha with rfl | ⟨v, s', -, ha⟩
    · exact List.mem_cons_self
    · exact List.mem_cons_of_mem d (ih ha)

/-- The turns of a text are those of the data that it reads as. -/
theorem mem_turnsIn {limit : Nat} {root : FrameId} {source : String} {s : Store} {a : Turn} :
    a ∈ turnsIn limit root source s ↔
      ∃ ds, parseAll limit source = (ds, none) ∧ a ∈ turnsOf limit root ds s := by
  unfold turnsIn
  rcases parseAll limit source with ⟨ds, _ | fault⟩ <;> simp

/-- What has its turn was read in one of the texts, and that text reads to its end. -/
theorem datum_of_mem_turns {root : FrameId} {ps : List (Nat × String)} {s : Store} {a : Turn}
    (ha : a ∈ turns root ps s) :
    ∃ p ∈ ps, ∃ ds, parseAll p.1 p.2 = (ds, none) ∧ a.datum ∈ ds := by
  induction ps generalizing s with
  | nil => cases ha
  | cons program ps ih =>
    rcases List.mem_append.1 ha with ha | ha
    · obtain ⟨ds, hread, ha⟩ := mem_turnsIn.1 ha
      exact ⟨program, List.mem_cons_self, ds, hread, datum_of_mem_turnsOf ha⟩
    · obtain ⟨p, hp, hdatum⟩ := ih ha
      exact ⟨p, List.mem_cons_of_mem program hp, hdatum⟩

theorem frames_reportExhaustion {α : Type} (source : String) (x : Eval α) (s : Store) :
    ((reportExhaustion source x).after s).frames = (x.after s).frames := by
  rcases after_reportExhaustion source x s with heq | heq
  · rw [heq]
  · rw [heq]
    rfl

/-! ### Policies along turns -/

section Policies

variable {p : Policy} (hp : p.Lawful) {limit : Nat} {root : FrameId}
include hp

theorem turnsOf_keep {ds : List Datum} {s : Store} (last : Value) (hs : p.Holds s)
    (hexpr : ∀ a ∈ turnsOf limit root ds s, ∀ s', s.Extends s' → p.Expr s' a.expr root) :
    (∀ a ∈ turnsOf limit root ds s, s.Extends a.store ∧ p.Holds a.store) ∧
      s.Extends ((evalData limit root last ds).after s) ∧
      p.Holds ((evalData limit root last ds).after s) := by
  induction ds generalizing s last with
  | nil => exact ⟨by simp [turnsOf], refl_of Extends s, hs⟩
  | cons d ds ih =>
    have hframes : (s.spend d.marks).frames = s.frames := rfl
    have hspent : s.Extends (s.spend d.marks) := Store.Writes.of_frames_eq hframes
    have hholds := hp.holds_eq hframes hs
    have he := hexpr ⟨limit, d, s⟩ (mem_turnsOf_cons.2 (Or.inl rfl)) _ hspent
    have hend := hp.evaluate limit he hholds
    rw [Eval.after_of_eq (evalData_cons limit root last d ds s)]
    cases heval : evaluate limit (d.intern s.nextMark).1 root (s.spend d.marks) with
    | error fault s' =>
      obtain ⟨hext, hs', -⟩ := hend.of_error heval
      rw [Eval.after_error (Eval.bind_error heval)]
      refine ⟨fun a ha => ?_, trans_of Extends hspent hext, hs'⟩
      rcases mem_turnsOf_cons.1 ha with rfl | ⟨v, s₁, hok, -⟩
      · exact ⟨hspent, hholds⟩
      · rw [heval] at hok
        cases hok
    | ok v s' =>
      obtain ⟨hext, hs', -⟩ := hend.of_ok heval
      have hext := trans_of Extends hspent hext
      obtain ⟨hturns, hafter⟩ := ih v hs' fun a ha s'' hs'' =>
        hexpr a (mem_turnsOf_cons.2 (Or.inr ⟨v, s', heval, ha⟩)) s'' (trans_of Extends hext hs'')
      rw [Eval.after_bind_ok heval]
      refine ⟨fun a ha => ?_, trans_of Extends hext hafter.1, hafter.2⟩
      rcases mem_turnsOf_cons.1 ha with rfl | ⟨v, s₁, hok, ha⟩
      · exact ⟨hspent, hholds⟩
      · rw [heval] at hok
        cases hok
        exact ⟨trans_of Extends hext (hturns a ha).1, (hturns a ha).2⟩

theorem turnsIn_keep {source : String} {s : Store} (hs : p.Holds s)
    (hexpr : ∀ a ∈ turnsIn limit root source s, ∀ s', s.Extends s' → p.Expr s' a.expr root) :
    (∀ a ∈ turnsIn limit root source s, s.Extends a.store ∧ p.Holds a.store) ∧
      s.Extends ((eval limit root source).after s) ∧ p.Holds ((eval limit root source).after s) := by
  unfold turnsIn at hexpr ⊢
  cases hread : parseAll limit source with
  | mk ds fault =>
    rw [hread] at hexpr
    cases fault with
    | some fault =>
      rw [Eval.after_error (eval_of_not_reads hread root s)]
      exact ⟨by simp, refl_of Extends s, hs⟩
    | none =>
      obtain ⟨hturns, hext, hholds⟩ := turnsOf_keep hp .unspecified hs hexpr
      refine ⟨hturns, ?_⟩
      have hframes := frames_reportExhaustion source (evalData limit root .unspecified ds) s
      rw [eval_of_reads hread]
      exact ⟨trans_of Extends hext (Store.Writes.of_frames_eq hframes), hp.holds_eq hframes hholds⟩

/-- A policy that the expressions keep to when their turns come holds at every turn and at the end. -/
theorem turns_keep {ps : List (Nat × String)} {s : Store} (hs : p.Holds s)
    (hexpr : ∀ a ∈ turns root ps s, ∀ s', s.Extends s' → p.Expr s' a.expr root) :
    (∀ a ∈ turns root ps s, s.Extends a.store ∧ p.Holds a.store) ∧
      s.Extends (runAll root ps s) ∧ p.Holds (runAll root ps s) := by
  induction ps generalizing s with
  | nil => exact ⟨by simp [turns], refl_of Extends s, hs⟩
  | cons program ps ih =>
    have hmem : ∀ {a}, a ∈ turns root (program :: ps) s ↔
        a ∈ turnsIn program.1 root program.2 s ∨
          a ∈ turns root ps ((eval program.1 root program.2).after s) := List.mem_append
    obtain ⟨hfirst, hext, hholds⟩ := turnsIn_keep hp hs fun a ha => hexpr a (hmem.2 (Or.inl ha))
    obtain ⟨hrest, hend⟩ := ih hholds fun a ha s' hs' =>
      hexpr a (hmem.2 (Or.inr ha)) s' (trans_of Extends hext hs')
    refine ⟨fun a ha => ?_, trans_of Extends hext hend.1, hend.2⟩
    rcases hmem.1 ha with ha | ha
    · exact hfirst a ha
    · exact ⟨trans_of Extends hext (hrest a ha).1, (hrest a ha).2⟩

theorem Performs.keeps {ps : List (Nat × String)} {s₀ s : Store} {d : Nat} {t : Task}
    (hs₀ : p.Holds s₀)
    (hexpr : ∀ a ∈ turns root ps s₀, ∀ s', s₀.Extends s' → p.Expr s' a.expr root)
    (h : Performs root ps s₀ d t s) : p.Holds s ∧ t.Keeps p s := by
  obtain ⟨a, ha, hruns⟩ := h
  obtain ⟨hext, hstore⟩ := (turns_keep hp hs₀ hexpr).1 a ha
  have hkeeps : (Task.eval a.expr root).Keeps p a.store := hexpr a ha a.store hext
  exact hruns.keeps hp hstore hkeeps

end Policies

/-! ### Stores along turns -/

variable {limit : Nat} {root : FrameId}

theorem evalData_extends (last : Value) (ds : List Datum) :
    (evalData limit root last ds).Moves Extends :=
  fun s => (turnsOf_keep Policy.any_lawful last (Policy.any_holds s) fun _ _ _ _ => trivial).2.1

theorem runAll_extends (ps : List (Nat × String)) (s : Store) : s.Extends (runAll root ps s) :=
  (turns_keep Policy.any_lawful (Policy.any_holds s) fun _ _ _ _ => trivial).2.1

theorem turnsOf_extends {ds : List Datum} {s : Store} (last : Value) {a : Turn}
    (ha : a ∈ turnsOf limit root ds s) :
    ((evaluate a.limit a.expr root).after a.store).Extends
      ((evalData limit root last ds).after s) := by
  induction ds generalizing s last with
  | nil => cases ha
  | cons d ds ih =>
    rw [Eval.after_of_eq (evalData_cons limit root last d ds s)]
    rcases mem_turnsOf_cons.1 ha with rfl | ⟨v, s', heval, ha⟩
    · exact Eval.extends_bind _ (fun v => evalData_extends v ds) _
    · rw [Eval.after_bind_ok heval]
      exact ih v ha

theorem turns_extends {ps : List (Nat × String)} {s : Store} {a : Turn} (ha : a ∈ turns root ps s) :
    ((evaluate a.limit a.expr root).after a.store).Extends (runAll root ps s) := by
  induction ps generalizing s with
  | nil => cases ha
  | cons program ps ih =>
    rcases List.mem_append.1 ha with ha | ha
    · refine trans_of Extends ?_ (runAll_extends ps ((eval program.1 root program.2).after s))
      obtain ⟨ds, hread, ha⟩ := mem_turnsIn.1 ha
      have hframes := frames_reportExhaustion program.2 (evalData program.1 root .unspecified ds) s
      rw [eval_of_reads hread]
      exact trans_of Extends (turnsOf_extends .unspecified ha) (Store.Writes.of_frames_eq hframes)
    · exact ih ha

/-- The store of each part of a course grows into the store at its end. -/
theorem Performs.extends {ps : List (Nat × String)} {s₀ s : Store} {d : Nat} {t : Task}
    (h : Performs root ps s₀ d t s) : s.Extends (runAll root ps s₀) := by
  obtain ⟨a, ha, hruns⟩ := h
  exact trans_of Extends (t.run_extends d s) (trans_of Extends hruns.extends (turns_extends ha))

/-! ### Marks along turns -/

theorem nextMark_turnsOf {ds : List Datum} {s : Store} (last : Value) {a : Turn}
    (ha : a ∈ turnsOf limit root ds s) :
    s.nextMark ≤ a.found.nextMark ∧
      a.store.nextMark ≤ ((evalData limit root last ds).after s).nextMark := by
  induction ds generalizing s last with
  | nil => cases ha
  | cons d ds ih =>
    rw [Eval.after_of_eq (evalData_cons limit root last d ds s)]
    rcases mem_turnsOf_cons.1 ha with rfl | ⟨v, s', heval, ha⟩
    · have hlater := Eval.Adds.later (x := evaluate limit (d.intern s.nextMark).1 root >>= fun v =>
        evalData limit root v ds) (s.spend d.marks)
      exact ⟨Nat.le_refl _, hlater.marks⟩
    · have hlater := Eval.Adds.later (x := evaluate limit (d.intern s.nextMark).1 root)
        (s.spend d.marks)
      rw [Eval.after_ok heval] at hlater
      rw [Eval.after_bind_ok heval]
      have hspent : s.nextMark ≤ s'.nextMark := Nat.le_trans (Nat.le_add_right _ _) hlater.marks
      exact ⟨Nat.le_trans hspent (ih v ha).1, (ih v ha).2⟩

theorem nextMark_turnsIn {source : String} {s : Store} {a : Turn}
    (ha : a ∈ turnsIn limit root source s) :
    s.nextMark ≤ a.found.nextMark ∧
      a.store.nextMark ≤ ((eval limit root source).after s).nextMark := by
  obtain ⟨ds, hread, ha⟩ := mem_turnsIn.1 ha
  obtain ⟨hfound, hstore⟩ := nextMark_turnsOf .unspecified ha
  refine ⟨hfound, Nat.le_trans hstore ?_⟩
  rw [eval_of_reads hread]
  exact (later_reportExhaustion source _ s).marks

theorem nextMark_turns {ps : List (Nat × String)} {s : Store} {a : Turn}
    (ha : a ∈ turns root ps s) : s.nextMark ≤ a.found.nextMark := by
  induction ps generalizing s with
  | nil => cases ha
  | cons program ps ih =>
    rcases List.mem_append.1 ha with ha | ha
    · exact (nextMark_turnsIn ha).1
    · have hlater := (adds_eval program.1 root program.2).later s
      exact Nat.le_trans hlater.marks (ih ha)

/-- Marks are given out in order: one turn has all its marks before the next begins. -/
theorem pairwise_turnsOf (ds : List Datum) (s : Store) :
    (turnsOf limit root ds s).Pairwise fun a b => a.store.nextMark ≤ b.found.nextMark := by
  induction ds generalizing s with
  | nil => exact .nil
  | cons d ds ih =>
    have hlater := Eval.Adds.later (x := evaluate limit (d.intern s.nextMark).1 root)
      (s.spend d.marks)
    simp only [turnsOf, Turn.expr, Turn.store]
    cases heval : evaluate limit (d.intern s.nextMark).1 root (s.spend d.marks) with
    | error fault s' => exact List.pairwise_singleton _ _
    | ok v s' =>
      rw [Eval.after_ok heval] at hlater
      refine List.pairwise_cons.2 ⟨fun b hb => ?_, ih s'⟩
      exact Nat.le_trans hlater.marks (nextMark_turnsOf .unspecified hb).1

theorem pairwise_turns (ps : List (Nat × String)) (s : Store) :
    (turns root ps s).Pairwise fun a b => a.store.nextMark ≤ b.found.nextMark := by
  induction ps generalizing s with
  | nil => exact .nil
  | cons program ps ih =>
    refine List.pairwise_append.2 ⟨?_, ih _, fun a ha b hb => ?_⟩
    · unfold turnsIn
      split
      · exact pairwise_turnsOf _ s
      · exact .nil
    · exact Nat.le_trans (nextMark_turnsIn ha).2 (nextMark_turns hb)

/-- Turns that are the same or have no mark in common. -/
def Turn.Apart (a b : Turn) : Prop :=
  a = b ∨ a.store.nextMark ≤ b.found.nextMark ∨ b.store.nextMark ≤ a.found.nextMark

instance : Std.Symm Turn.Apart where
  symm _ _ h := h.imp Eq.symm Or.symm

theorem turns_apart {ps : List (Nat × String)} {s : Store} {a b : Turn} (ha : a ∈ turns root ps s)
    (hb : b ∈ turns root ps s) : a.Apart b := by
  have hapart : (turns root ps s).Pairwise Turn.Apart :=
    (pairwise_turns ps s).imp fun h => Or.inr (Or.inl h)
  have hself : ∀ a ∈ turns root ps s, a.Apart a := fun _ _ => Or.inl rfl
  exact List.Pairwise.forall_of_forall hself hapart ha hb

end Interpreter

end SmallLisp
