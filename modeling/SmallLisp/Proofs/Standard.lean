import SmallLisp.Proofs.WellFormed

/-!
The standard names and the builtins that they are bound to.

The standard bindings are made one after another in one frame.  A definition leaves the other names of
the frame alone (`Store.get?_insert_of_ne`) and no standard name is there twice, so each is bound to its
own builtin in the end (`Standard.lookup?_fresh`).  A fresh interpreter therefore knows every operation
among them by its name (`Standard.offers_procedure`, `Standard.offers_math`).
-/

namespace SmallLisp

namespace Store

variable {s : Store} {f : FrameId}

theorem get?_insert_self (hf : f < s.frames.size) (x : String) (v : Value) :
    (s.insert f (.symbol x) v).get? f (.symbol x) = some v := by
  simp [get?, insert, Array.getElem?_modify, Array.getElem?_eq_getElem hf, Frame.get?_insert_self]

theorem get?_insert_of_ne (s : Store) (f : FrameId) {x y : String} (h : y ≠ x) (v : Value) :
    (s.insert f (.symbol x) v).get? f (.symbol y) = s.get? f (.symbol y) := by
  have hne : Value.symbol y ≠ .symbol x := fun heq => h (Value.symbol.inj heq)
  simp only [get?, insert, Array.getElem?_modify, if_true]
  cases s.frames[f]? with
  | none => rfl
  | some fr => exact fr.get?_insert_of_ne hne v

/-- In a frame the name of an operation leads to it. -/
def Offers (s : Store) (f : FrameId) (op : Operation) : Prop :=
  ∃ mark, s.lookup? f (.symbol op.name) = some (.primitive mark (.operation op))

end Store

namespace Standard

open Eval (makeEntry)

variable {s : Store} {f : FrameId}

/-- One of the definitions of which registration consists. -/
def bindEntry (f : FrameId) (entry : String × Entry) : Eval Unit := do
  let v ← makeEntry entry.2
  modify fun s => s.insert f (.symbol entry.1) v

theorem bindEntry_run (hf : f < s.frames.size) (name : String) (entry : Entry) :
    ∃ v s', bindEntry f (name, entry) s = .ok () s' ∧ f < s'.frames.size ∧
      s'.get? f (.symbol name) = some v ∧ (∀ b, entry = .builtin b → ∃ mark, v = .primitive mark b) ∧
      ∀ y, y ≠ name → s'.get? f (.symbol y) = s.get? f (.symbol y) := by
  have hbound : ∀ (t : Store) v, t.frames = s.frames → f < (t.insert f (.symbol name) v).frames.size ∧
      (t.insert f (.symbol name) v).get? f (.symbol name) = some v ∧
      ∀ y, y ≠ name → (t.insert f (.symbol name) v).get? f (.symbol y) = s.get? f (.symbol y) := by
    intro t v ht
    have hf' : f < t.frames.size := by rw [ht]; exact hf
    refine ⟨by simpa [Store.insert] using hf', Store.get?_insert_self hf' name v, fun y hy => ?_⟩
    rw [Store.get?_insert_of_ne t f hy v, Store.get?, ht, Store.get?]
  cases entry with
  | number x =>
    obtain ⟨hsize, hself, hother⟩ := hbound s (.float x) rfl
    exact ⟨_, _, rfl, hsize, hself, fun _ h => (by cases h), hother⟩
  | truth b =>
    obtain ⟨hsize, hself, hother⟩ := hbound s (.bool b) rfl
    exact ⟨_, _, rfl, hsize, hself, fun _ h => (by cases h), hother⟩
  | builtin b =>
    obtain ⟨hsize, hself, hother⟩ :=
      hbound { s with nextMark := s.nextMark + 1 } (.primitive s.nextMark b) rfl
    refine ⟨_, _, rfl, hsize, hself, ?_, hother⟩
    rintro b' heq
    cases heq
    exact ⟨_, rfl⟩

/-- Definitions of other names keep what a name is bound to. -/
theorem get?_forM_of_not_mem {entries : List (String × Entry)} (hf : f < s.frames.size) {y : String}
    (hy : y ∉ entries.map Prod.fst) :
    ((entries.forM (bindEntry f)).after s).get? f (.symbol y) = s.get? f (.symbol y) := by
  induction entries generalizing s with
  | nil => rfl
  | cons entry entries ih =>
    obtain ⟨hne, hy⟩ := not_or.1 (fun h => hy (List.mem_cons.2 h))
    obtain ⟨v, s', hrun, hf', -, -, hother⟩ := bindEntry_run hf entry.1 entry.2
    rw [List.forM, Eval.after_bind_ok hrun, ih hf' hy, hother y hne]

theorem get?_forM_of_mem {entries : List (String × Entry)} (hf : f < s.frames.size)
    (hnodup : (entries.map Prod.fst).Nodup) {name : String} {b : Builtin}
    (h : (name, .builtin b) ∈ entries) :
    ∃ mark, ((entries.forM (bindEntry f)).after s).get? f (.symbol name) =
      some (.primitive mark b) := by
  induction entries generalizing s with
  | nil => cases h
  | cons entry entries ih =>
    obtain ⟨hnot, hnodup⟩ := List.nodup_cons.1 hnodup
    obtain ⟨v, s', hrun, hf', hself, hmade, -⟩ := bindEntry_run hf entry.1 entry.2
    rw [List.forM, Eval.after_bind_ok hrun]
    rcases List.mem_cons.1 h with rfl | h
    · obtain ⟨mark, rfl⟩ := hmade b rfl
      exact ⟨mark, (get?_forM_of_not_mem hf' hnot).trans hself⟩
    · exact ih hf' hnodup h

theorem nodup_names (f : FrameId) : ((entries f).map Prod.fst).Nodup := by
  -- the frame is no part of the names
  show ((entries 0).map Prod.fst).Nodup
  decide +kernel

/-- In a fresh interpreter each standard name is bound to its builtin. -/
theorem lookup?_fresh {notices : Array Notice} {root : FrameId} {s : Store}
    (hfresh : CommandLine.fresh notices = (root, s)) {name : String} {b : Builtin}
    (h : (name, .builtin b) ∈ entries root) :
    ∃ mark, s.lookup? root (.symbol name) = some (.primitive mark b) := by
  rw [CommandLine.fresh_eq] at hfresh
  obtain ⟨rfl, rfl⟩ := Prod.mk.inj hfresh
  obtain ⟨mark, hmark⟩ := get?_forM_of_mem (Store.bare_size notices) (nodup_names 0) h
  exact ⟨mark, Store.lookup?_of_get? hmark⟩

section Fresh

variable {notices : Array Notice} {root : FrameId} (hfresh : CommandLine.fresh notices = (root, s))
include hfresh

theorem offers_procedure {op : Operation} (h : .operation op ∈ procedures root) : s.Offers root op := by
  apply lookup?_fresh hfresh
  have hmem := List.mem_map_of_mem (f := fun b : Builtin => (b.name, Entry.builtin b)) h
  exact List.mem_append_left _ (List.mem_append_right _ hmem)

theorem offers_math {f : MathFunction} (h : mathEntries.fn f ∈ mathEntries) :
    s.Offers root (.math f) :=
  lookup?_fresh hfresh (List.mem_append_left _ (List.mem_append_left _ h))

end Fresh

end Standard

end SmallLisp
