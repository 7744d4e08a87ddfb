import Mathlib.Data.List.Forall2
import SmallLisp.Proofs.Output

/-!
Calls through `map` and `apply`.

Both builtins call a procedure that they are given.  `apply` makes one call, with the items of a list as
arguments; `map` makes a call for each place that all its lists have, and the arguments are the items
there (`Machine.column`).  Each of these calls begins in the store that the one before has left
(`Machine.InTurn`), and the first that fails is the last.  What the calls come to passes unchanged
through the builtin (`call_map_apply`): value, fault and store are those of the direct calls, with the
depth that there is inside the builtin.  The one fault that does not pass is an integer without a text,
which is no error of the language but becomes one under the name of the builtin.
-/

namespace SmallLisp

/-- A value is a list of the given items. -/
def Value.IsList (v : Value) (items : List Value) : Prop := ∃ mark, v = .list mark items

namespace Machine

/-! ## Columns -/

/-- The items at one place of lists that are all longer. -/
def column (lists : List (List Value)) (j : Nat) : List Value :=
  lists.map fun xs => xs.getD j .unspecified

theorem mapM_head?_of_forall {lists : List (List Value)} (h : ∀ xs ∈ lists, xs ≠ []) :
    lists.mapM List.head? = some (column lists 0) := by
  induction lists with
  | nil => rfl
  | cons xs lists ih =>
    cases xs with
    | nil => exact absurd rfl (h [] (by simp))
    | cons x xs =>
      rw [List.mapM_cons, ih fun ys hys => h ys (by simp [hys])]
      rfl

theorem mapM_head?_of_mem {lists : List (List Value)} (h : [] ∈ lists) :
    lists.mapM List.head? = none := by
  induction lists with
  | nil => cases h
  | cons xs lists ih =>
    rw [List.mapM_cons]
    cases xs with
    | nil => rfl
    | cons x xs =>
      rw [ih (by simpa using h)]
      rfl

theorem column_succ (lists : List (List Value)) (j : Nat) :
    column (lists.map List.tail) j = column lists (j + 1) := by
  unfold column
  rw [List.map_map]
  refine List.map_congr_left fun xs _ => ?_
  cases xs with
  | nil => rfl
  | cons x xs => rfl

/-- The rows of `map` are the columns below the length of the shortest list. -/
theorem rows_eq {first : List Value} {others : List (List Value)} {n : Nat}
    (hn : ((first :: others).map List.length).min? = some n) :
    rows first others = (List.range n).map (column (first :: others)) := by
  induction first generalizing others n with
  | nil =>
    have hle := (List.min?_eq_some_iff.1 hn).2 0 (by simp)
    rw [Nat.le_zero.1 hle]
    rfl
  | cons x xs ih =>
    obtain ⟨hmem, hle⟩ := List.min?_eq_some_iff.1 hn
    simp only [List.mem_map, forall_exists_index, and_imp, forall_apply_eq_imp_iff₂] at hmem hle
    by_cases hempty : [] ∈ others
    · have hzero : n = 0 := Nat.le_zero.1 (hle [] (List.mem_cons_of_mem _ hempty))
      rw [rows, mapM_head?_of_mem hempty, hzero]
      rfl
    · have hne : ∀ ys ∈ others, ys ≠ [] := fun ys hys h => hempty (h ▸ hys)
      have hpos : ∀ ys ∈ (x :: xs) :: others, 0 < ys.length := by
        intro ys hys
        rcases List.mem_cons.1 hys with rfl | hys
        · exact Nat.succ_pos _
        · exact List.length_pos_iff.2 (hne ys hys)
      obtain ⟨ys, hys, rfl⟩ := hmem
      obtain ⟨k, hk⟩ := Nat.exists_eq_add_of_lt (hpos ys hys)
      -- all lists lose their first item, the shortest one too
      have htails : ((xs :: others.map List.tail).map List.length).min? = some k := by
        have hcons : xs :: others.map List.tail = ((x :: xs) :: others).map List.tail := rfl
        rw [List.min?_eq_some_iff, hcons, List.map_map]
        refine ⟨List.mem_map.2 ⟨ys, hys, ?_⟩, fun b hb => ?_⟩
        · simp only [Function.comp_apply, List.length_tail]
          omega
        · obtain ⟨zs, hzs, rfl⟩ := List.mem_map.1 hb
          have := hle zs hzs
          simp only [Function.comp_apply, List.length_tail]
          omega
      have hcolumns : column (xs :: others.map List.tail) = column ((x :: xs) :: others) ∘ Nat.succ :=
        funext (column_succ ((x :: xs) :: others))
      have hlen : ys.length = k + 1 := by omega
      rw [rows, mapM_head?_of_forall hne, hlen, List.range_succ_eq_map, List.map_cons, List.map_map,
        ← hcolumns, ← ih htails]
      rfl

/-! ## Calls in turn -/

/-- The first `j` calls of a procedure, one for each place and each in the store that the one before has
left: their values in order, and the store after them. -/
inductive InTurn (d : Nat) (procedure : Value) (args : Nat → List Value) (s : Store) :
    Nat → List Value → Store → Prop
  | start : InTurn d procedure args s 0 [] s
  | next {j : Nat} {vs : List Value} {v : Value} {s₁ s₂ : Store} :
      InTurn d procedure args s j vs s₁ → SmallLisp.call d procedure (args j) s₁ = .ok v s₂ →
      InTurn d procedure args s (j + 1) (vs ++ [v]) s₂

/-- Calls for all of `n` places give the values of all, or the fault of the first that fails. -/
theorem ends_inTurn (d : Nat) (procedure : Value) (args : Nat → List Value) (s : Store) (n : Nat) :
    (((List.range n).map args).mapM (SmallLisp.call d procedure)).Ends s
      (fun vs s' => InTurn d procedure args s n vs s')
      (fun fault s' => ∃ j < n, ∃ vs s₁, InTurn d procedure args s j vs s₁ ∧
        SmallLisp.call d procedure (args j) s₁ = .error fault s') := by
  induction n with
  | zero => exact .start
  | succ n ih =>
    have hlast : ((List.range (n + 1)).map args).mapM (SmallLisp.call d procedure) =
        ((List.range n).map args).mapM (SmallLisp.call d procedure) >>= fun vs =>
          SmallLisp.call d procedure (args n) >>= fun v => pure (vs ++ [v]) := by
      simp [List.range_succ]
    rw [hlast]
    refine ih.bind (fun vs s₁ hvs => ?_) fun fault s' h => ?_
    · cases hcall : SmallLisp.call d procedure (args n) s₁ with
      | ok v s₂ =>
        rw [Eval.Ends, Eval.bind_ok hcall]
        exact .next hvs hcall
      | error fault s₂ =>
        rw [Eval.Ends, Eval.bind_error hcall]
        exact ⟨n, Nat.lt_succ_self n, vs, s₁, hvs, hcall⟩
    · obtain ⟨j, hj, hrest⟩ := h
      exact ⟨j, Nat.lt_succ_of_lt hj, hrest⟩

/-! ## The builtins -/

variable {α : Type}

/-- All that a builtin changes in a fault is that an integer without a text gets its name. -/
theorem within_eq {x : Eval α} {s : Store} (h : x.fault? s ≠ some .integerText) (name : String) :
    within name x s = x s := by
  unfold Eval.fault? at h
  unfold within Eval.mapFault
  cases hx : x s with
  | ok a s' => rfl
  | error fault s' =>
    rw [hx] at h
    cases fault with
    | integerText => exact absurd rfl h
    | error e => rfl
    | depth => rfl

theorem mapM_items {args : List Value} {lists : List (List Value)}
    (h : List.Forall₂ Value.IsList args lists) (depth : Nat) :
    args.mapM (Argument.items depth "map") = .ok lists := by
  induction h with
  | nil => rfl
  | cons hv _ ih =>
    obtain ⟨mark, rfl⟩ := hv
    rw [List.mapM_cons, ih]
    rfl

theorem callMap_lists (m : Machine) (procedure : Value) {args : List Value}
    {lists : List (List Value)} (h : List.Forall₂ Value.IsList args lists) {n : Nat}
    (hn : (lists.map List.length).min? = some n) :
    m.callMap (procedure :: args) =
      ((List.range n).map (column lists)).mapM (m.call procedure) >>= Eval.makeList := by
  cases h with
  | nil => cases hn
  | cons hv hothers =>
    obtain ⟨mark, rfl⟩ := hv
    rw [callMap, mapM_items hothers, ← rows_eq hn, ← callAll_eq_mapM]
    rfl

/-- What comes of an argument of `map` that is not a list: an error, or exhausted depth if that is how
its text comes out. -/
def Declined (d : Nat) (args : List Value) (fault : Fault) : Prop :=
  (∃ e, fault = .error e) ∨ fault = .depth ∧ ∃ v ∈ args, v.print d = .error .tooDeep

theorem items_eq_error {d : Nat} {v : Value} (hv : ∀ items, ¬ v.IsList items) :
    ∃ r : Refusal, Argument.items d "map" v = .error r ∧ Declined d [v] (r.toFault "map") := by
  have hitems : Argument.items d "map" v =
      (do Attempt.fail (.type (.notList "map" (← Attempt.ofText (v.print d))))) := by
    cases v with
    | list mark xs => exact absurd ⟨mark, rfl⟩ (hv xs)
    | _ => rfl
  rw [hitems]
  cases htext : v.print d with
  | ok text => exact ⟨_, rfl, Or.inl ⟨_, rfl⟩⟩
  | error fault =>
    cases fault with
    | tooDeep => exact ⟨_, rfl, Or.inr ⟨rfl, v, by simp, htext⟩⟩
    | integerTooLong => exact ⟨_, rfl, Or.inl ⟨_, rfl⟩⟩

theorem mapM_items_eq_error {d : Nat} {args : List Value} {v : Value} (hmem : v ∈ args)
    (hv : ∀ items, ¬ v.IsList items) :
    ∃ r : Refusal, args.mapM (Argument.items d "map") = .error r ∧
      Declined d args (r.toFault "map") := by
  induction args with
  | nil => cases hmem
  | cons w args ih =>
    rw [List.mapM_cons]
    by_cases hw : ∃ items, w.IsList items
    · obtain ⟨items, hitems⟩ := hw
      have hlater : v ∈ args := (List.mem_cons.1 hmem).resolve_left fun h => hv items (h ▸ hitems)
      obtain ⟨mark, rfl⟩ := hitems
      obtain ⟨r, hr, hdeclined⟩ := ih hlater
      rw [hr]
      refine ⟨r, rfl, hdeclined.imp id fun ⟨hdepth, u, hu, hprint⟩ => ?_⟩
      exact ⟨hdepth, u, List.mem_cons_of_mem _ hu, hprint⟩
    · obtain ⟨r, hr, hdeclined⟩ := items_eq_error (d := d) fun items h => hw ⟨items, h⟩
      rw [hr]
      refine ⟨r, rfl, hdeclined.imp id fun ⟨hdepth, u, hu, hprint⟩ => ?_⟩
      exact ⟨hdepth, u, by simpa using Or.inl hu, hprint⟩

theorem callMap_not_list (m : Machine) {args : List Value} {v : Value} (hmem : v ∈ args)
    (hv : ∀ items, ¬ v.IsList items) :
    ∃ fault, Declined m.depth args fault ∧ ∀ procedure s,
      within "map" (m.callMap (procedure :: args)) s = .error fault s := by
  cases args with
  | nil => cases hmem
  | cons first others =>
    obtain ⟨r, hr, hdeclined⟩ := mapM_items_eq_error (d := m.depth) hmem hv
    have hname : ∀ s : Store, within "map" (throw (r.toFault "map") : Eval Value) s =
        .error (r.toFault "map") s := by
      intro s
      cases r <;> rfl
    refine ⟨r.toFault "map", hdeclined, fun procedure s => ?_⟩
    rw [← hname s]
    refine congrArg (within "map" · s) ?_
    -- the first list is looked at before the others, but no call comes between
    rw [List.mapM_cons] at hr
    cases hfirst : Argument.items m.depth "map" first with
    | error r' =>
      rw [hfirst] at hr
      cases hr
      rw [callMap, hfirst]
      rfl
    | ok xs =>
      rw [hfirst] at hr
      cases hothers : others.mapM (Argument.items m.depth "map") with
      | error r' =>
        rw [hothers] at hr
        cases hr
        rw [callMap, hfirst, hothers]
        rfl
      | ok xss =>
        rw [hothers] at hr
        cases hr

end Machine

/-! ## Top theorem -/

open Machine

section Direct

variable {d : Nat} {procedure : Value} {args : List Value} {lists : List (List Value)} {n : Nat}
  {s : Store}

theorem call_apply (h : (call d procedure args).fault? s ≠ some .integerText) (mark : Mark)
    {list : Value} (hlist : list.IsList args) :
    call (d + 1) (.primitive mark .apply) [procedure, list] s = call d procedure args s := by
  obtain ⟨m, rfl⟩ := hlist
  exact within_eq h "apply"

theorem call_map (hlists : List.Forall₂ Value.IsList args lists)
    (hn : (lists.map List.length).min? = some n)
    (h : ∀ j < n, ∀ vs s₁, InTurn d procedure (column lists) s j vs s₁ →
      (call d procedure (column lists j)).fault? s₁ ≠ some .integerText) (mark : Mark) :
    (call (d + 1) (.primitive mark .map) (procedure :: args)).Ends s
      (fun v s' => ∃ vs s₁, InTurn d procedure (column lists) s n vs s₁ ∧
        Eval.makeList vs s₁ = .ok v s')
      (fun fault s' => ∃ j < n, ∃ vs s₁, InTurn d procedure (column lists) s j vs s₁ ∧
        call d procedure (column lists j) s₁ = .error fault s') := by
  have hruns := (level d).callMap_lists procedure hlists hn
  have hends := (ends_inTurn d procedure (column lists) s n).bind
    (fun vs s₁ hvs => show (Eval.makeList vs).Ends s₁ (fun v s' => ∃ vs s₁,
      InTurn d procedure (column lists) s n vs s₁ ∧ Eval.makeList vs s₁ = .ok v s') _
      from ⟨vs, s₁, hvs, rfl⟩) fun _ _ hfault => hfault
  have hpasses : ((level d).callMap (procedure :: args)).fault? s ≠ some .integerText := by
    intro hfault
    obtain ⟨s', hs'⟩ := Eval.exists_of_fault? hfault
    rw [hruns] at hs'
    obtain ⟨j, hj, vs, s₁, hvs, hcall⟩ := hends.of_error hs'
    refine h j hj vs s₁ hvs ?_
    rw [Eval.fault?, hcall]
  have hsame : call (d + 1) (.primitive mark .map) (procedure :: args) s =
      (((List.range n).map (column lists)).mapM (call d procedure) >>= Eval.makeList) s :=
    (within_eq hpasses "map").trans (congrFun hruns s)
  rw [Eval.Ends, hsame]
  exact hends

end Direct

/-- Let direct calls of a procedure, with the depth that there is inside a builtin, end with a value,
an error of the language or exhausted depth.  Then `apply` with a list ends as the direct call with the
items of the list does, in the same store.  `map` with lists makes the calls for the places below the
shortest length in turn: it ends with a new list of all their values, or with the fault of the first
that fails and the store that this call leaves.  An argument that is not a list, wherever it stands,
is declined whatever the procedure is and whatever the store holds, so without any call. -/
theorem call_map_apply (d : Nat) (mark : Mark) :
    (∀ procedure list items s, list.IsList items →
      (call d procedure items).fault? s ≠ some .integerText →
      call (d + 1) (.primitive mark .apply) [procedure, list] s = call d procedure items s) ∧
    (∀ procedure args lists n s, List.Forall₂ Value.IsList args lists →
      (lists.map List.length).min? = some n →
      (∀ j < n, ∀ vs s₁, InTurn d procedure (column lists) s j vs s₁ →
        (call d procedure (column lists j)).fault? s₁ ≠ some .integerText) →
      (call (d + 1) (.primitive mark .map) (procedure :: args)).Ends s
        (fun v s' => ∃ vs s₁, InTurn d procedure (column lists) s n vs s₁ ∧
          Eval.makeList vs s₁ = .ok v s')
        (fun fault s' => ∃ j < n, ∃ vs s₁, InTurn d procedure (column lists) s j vs s₁ ∧
          call d procedure (column lists j) s₁ = .error fault s')) ∧
    (∀ args v, v ∈ args → (∀ items, ¬ v.IsList items) →
      ∃ fault, Declined d args fault ∧ ∀ procedure s,
        call (d + 1) (.primitive mark .map) (procedure :: args) s = .error fault s) :=
  ⟨fun _ _ _ _ hlist h => call_apply h mark hlist, fun _ _ _ _ _ hlists hn h => call_map hlists hn h mark,
    fun _ _ hmem hv => (level d).callMap_not_list hmem hv⟩

/-- `car` of each item of a list, the second of which is not a list; and one argument that is not. -/
theorem call_map_apply_car :
    let car : Value := .primitive 0 (.operation .car)
    let items : List Value := [.list 1 [.bool true], .bool false, .list 2 []]
    let fault : Fault := .error (.type (.notList "car" "#f"))
    call 3 (.primitive 3 .apply) [car, .list 4 [.bool false]] Store.empty =
        call 2 car [.bool false] Store.empty ∧
      (call 3 (.primitive 3 .map) [car, .list 4 items]).fault? Store.empty = some fault ∧
      (∃ j < 3, ∃ vs s₁ s', InTurn 2 car (column [items]) Store.empty j vs s₁ ∧
        call 2 car (column [items] j) s₁ = .error fault s') ∧
      ∃ fault, ∀ procedure s,
        call 3 (.primitive 3 .map) [procedure, .list 4 items, .bool true] s = .error fault s := by
  intro car items fault
  have hcar : ∀ args s, (call 2 car args).fault? s ≠ some .integerText := by
    intro args s hfault
    obtain ⟨s', hs'⟩ := Eval.exists_of_fault? hfault
    exact (level 1).callBuiltin_ne_integerText (.operation .car) args hs'
  obtain ⟨happly, hmap, hdeclines⟩ := call_map_apply 2 3
  have hends := hmap car [.list 4 items] [items] 3 Store.empty (.cons ⟨4, rfl⟩ .nil) rfl
    fun _ _ _ _ _ => hcar _ _
  have hfault : (call 3 (.primitive 3 .map) [car, .list 4 items]).fault? Store.empty = some fault := by
    decide +kernel
  obtain ⟨s', hs'⟩ := Eval.exists_of_fault? hfault
  obtain ⟨j, hj, vs, s₁, hvs, hcall⟩ := hends.of_error hs'
  obtain ⟨fault', -, hdeclined⟩ := hdeclines [.list 4 items, .bool true] (.bool true) (by simp) nofun
  exact ⟨happly car (.list 4 [.bool false]) [.bool false] Store.empty ⟨4, rfl⟩ (hcar _ _), hfault,
    ⟨j, hj, vs, s₁, s', hvs, hcall⟩, fault', hdeclined⟩

end SmallLisp
