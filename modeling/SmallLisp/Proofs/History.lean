import SmallLisp.Proofs.Chains

/-!
Frames and the history of what was done to them.

A history keeps the links of the frames in the order in which the frames were made, and every binding
of a name in a frame in the order of time.  It knows nothing of tables: the value of a name in a frame
is the last that was bound to it there (`History.latest`), and the names of a frame are those bound in
it, in the order of their first binding (`History.names`).

Making frames, definitions and updates keep a store and its history together
(`History.Implements.perform`), so after any sequence of them the store answers as the history says:

    f < s.frames.size → h.Outward f (s.chain f)
    s.find? f x = (s.chain f).find? (h.Bound · x)              (frames_implement_history)
-/

namespace SmallLisp

/-- What may be done to frames, with symbols as names. -/
inductive FrameChange where
  | new (params : List String) (args : List Value) (outer : Option FrameId)
  | define (f : FrameId) (x : String) (v : Value)
  | update (f : FrameId) (items : List (String × Value))

namespace FrameChange

def perform (depth : Nat) : FrameChange → Eval Unit
  | .new params args outer => discard (Eval.newFrame (params.map .symbol) args outer)
  | .define f x v => Eval.define depth f (.symbol x) v
  | .update f items => Eval.update depth f (items.map fun b => (.symbol b.1, b.2))

/-- The store after some changes, of which each meets what the one before has left. -/
def performAll (depth : Nat) (changes : List FrameChange) (s : Store) : Store :=
  changes.foldl (fun s c => (c.perform depth).after s) s

/-- The frame that is made or changed. -/
def frame (s : Store) : FrameChange → FrameId
  | .new _ _ _ => s.frames.size
  | .define f _ _ => f
  | .update f _ => f

end FrameChange

/-- A name bound to a value in a frame. -/
structure Assignment where
  frame : FrameId
  name : String
  value : Value

structure History where
  /-- The link of each frame. -/
  outers : List (Option FrameId)
  /-- All that was bound, the oldest first. -/
  assignments : List Assignment

namespace History

def empty : History := ⟨[], []⟩

/-- The name was bound in the frame at some time. -/
def Bound (h : History) (f : FrameId) (x : String) : Prop :=
  ∃ a ∈ h.assignments, a.frame = f ∧ a.name = x

instance (h : History) (f : FrameId) (x : String) : Decidable (h.Bound f x) :=
  inferInstanceAs (Decidable (∃ a ∈ h.assignments, a.frame = f ∧ a.name = x))

/-- The value bound last. -/
def latest (h : History) (f : FrameId) (x : String) : Option Value :=
  (h.assignments.reverse.find? fun a => a.frame = f ∧ a.name = x).map (·.value)

/-- The names bound in a frame, each where it was bound first. -/
def names (h : History) (f : FrameId) : List String :=
  ((h.assignments.filter fun a => a.frame = f).map (·.name)).eraseDups

/-- A frame and those outside it, up to one with no link. -/
inductive Outward (h : History) : FrameId → List FrameId → Prop
  | root {f : FrameId} : h.outers[f]? = some none → Outward h f [f]
  | outer {f g : FrameId} {path : List FrameId} :
      h.outers[f]? = some (some g) → Outward h g path → Outward h f (f :: path)

/-! ## Histories of changes -/

def assign (h : History) (f : FrameId) (items : List (String × Value)) : History :=
  { h with assignments := h.assignments ++ items.map fun b => ⟨f, b.1, b.2⟩ }

/-- A frame is made only with as many values as names. -/
def record (h : History) : FrameChange → History
  | .new params args outer =>
    if params.length = args.length then
      assign { h with outers := h.outers ++ [outer] } h.outers.length (params.zip args)
    else h
  | .define f x v => h.assign f [(x, v)]
  | .update f items => h.assign f items

def recordAll (h : History) (changes : List FrameChange) : History := changes.foldl record h

/-- The frames that a change names are there. -/
def Admits (h : History) : FrameChange → Prop
  | .new _ _ outer => ∀ g ∈ outer, g < h.outers.length
  | .define f _ _ => f < h.outers.length
  | .update f _ => f < h.outers.length

instance (h : History) : (c : FrameChange) → Decidable (h.Admits c)
  | .new _ _ outer => inferInstanceAs (Decidable (∀ g ∈ outer, g < h.outers.length))
  | .define f _ _ => inferInstanceAs (Decidable (f < h.outers.length))
  | .update f _ => inferInstanceAs (Decidable (f < h.outers.length))

def AdmitsAll (h : History) : List FrameChange → Prop
  | [] => True
  | c :: changes => h.Admits c ∧ (h.record c).AdmitsAll changes

variable {h : History}

theorem assign_cons (h : History) (f : FrameId) (b : String × Value) (items : List (String × Value)) :
    h.assign f (b :: items) = (h.assign f [b]).assign f items := by
  simp [assign]

theorem latest_assign (h : History) (f g : FrameId) (x y : String) (v : Value) :
    (h.assign f [(x, v)]).latest g y = if f = g ∧ x = y then some v else h.latest g y := by
  have hrev : (h.assign f [(x, v)]).assignments.reverse = ⟨f, x, v⟩ :: h.assignments.reverse := by
    simp [assign]
  rw [latest, hrev, List.find?_cons]
  by_cases hfx : f = g ∧ x = y
  · simp [hfx]
  · simp [hfx, latest]

theorem names_assign (h : History) (f g : FrameId) (x : String) (v : Value) :
    (h.assign f [(x, v)]).names g =
      if f = g ∧ x ∉ h.names g then h.names g ++ [x] else h.names g := by
  have hfilter : (h.assign f [(x, v)]).assignments.filter (fun a => a.frame = g) =
      h.assignments.filter (fun a => a.frame = g) ++ if f = g then [⟨f, x, v⟩] else [] := by
    rw [assign, List.filter_append]
    by_cases hfg : f = g <;> simp [hfg]
  rw [names, hfilter]
  by_cases hfg : f = g
  · rw [if_pos hfg, List.map_append, List.eraseDups_append]
    simp only [names, List.mem_eraseDups]
    by_cases hx : x ∈ (h.assignments.filter fun a => a.frame = g).map (·.name)
    · rw [if_neg fun hc => hc.2 hx]
      simp [List.removeAll, hx]
    · rw [if_pos ⟨hfg, hx⟩]
      simp [List.removeAll, hx, List.eraseDups_cons]
  · rw [if_neg hfg, if_neg fun hc => hfg hc.1, List.append_nil, names]

theorem mem_names_iff {f : FrameId} {x : String} : x ∈ h.names f ↔ h.Bound f x := by
  simp only [names, Bound, List.mem_eraseDups, List.mem_map, List.mem_filter, decide_eq_true_eq]
  constructor
  · rintro ⟨a, ⟨ha, hf⟩, hx⟩
    exact ⟨a, ha, hf, hx⟩
  · rintro ⟨a, ha, hf, hx⟩
    exact ⟨a, ⟨ha, hf⟩, hx⟩

theorem isSome_latest_iff {f : FrameId} {x : String} : (h.latest f x).isSome ↔ h.Bound f x := by
  simp [latest, Bound, List.find?_isSome]

/-! ## Tables of names -/

/-- The names of a list of bindings with their values are given by a table. -/
def Lists (bs : List (Value × Value)) (names : List String) (value : String → Option Value) : Prop :=
  bs.map (fun b => (b.1, some b.2)) = names.map fun x => (.symbol x, value x)

theorem Lists.bind {bs : List (Value × Value)} {names : List String} {value : String → Option Value}
    (hbs : Lists bs names value) (hnames : names.Nodup) (x : String) (v : Value) :
    Lists (Frame.bind (.symbol x) v bs) (if x ∉ names then names ++ [x] else names)
      fun y => if x = y then some v else value y := by
  induction names generalizing bs with
  | nil =>
    cases List.map_eq_nil_iff.1 hbs
    simp [Lists, Frame.bind]
  | cons y names ih =>
    obtain ⟨b, bs, rfl, hb, hrest⟩ := List.map_eq_cons_iff.1 hbs
    obtain ⟨key, old⟩ := b
    obtain ⟨rfl, hold⟩ := Prod.mk.injEq .. ▸ hb
    obtain ⟨hy, hnames⟩ := List.nodup_cons.1 hnames
    rw [Frame.bind]
    by_cases hxy : x = y
    · subst hxy
      have hkept : names.map (fun z => (Value.symbol z, if x = z then some v else value z)) =
          names.map fun z => (Value.symbol z, value z) := by
        apply List.map_congr_left
        intro z hz
        rw [if_neg]
        rintro rfl
        exact hy hz
      rw [if_pos ((Value.same_symbol _ x).2 rfl), if_neg (by simp), Lists, List.map_cons,
        List.map_cons, hkept, hrest, if_pos rfl]
    · have hkey : ¬ (Value.symbol y).same (.symbol x) = true := by
        rw [Value.same_symbol, Value.symbol.injEq]
        exact fun h => hxy h.symm
      have hnext := ih hrest hnames
      have hif : (if x ∉ y :: names then y :: names ++ [x] else y :: names) =
          y :: if x ∉ names then names ++ [x] else names := by
        by_cases hx : x ∈ names <;> simp [hx, hxy]
      rw [if_neg hkey, hif, Lists, List.map_cons, List.map_cons, hnext, if_neg hxy, ← hold]

theorem Lists.find? {bs : List (Value × Value)} {names : List String} {value : String → Option Value}
    (hbs : Lists bs names value) (x : String) :
    (bs.find? fun b => b.1.same (.symbol x)).map Prod.snd =
      if x ∈ names then value x else none := by
  induction names generalizing bs with
  | nil =>
    cases List.map_eq_nil_iff.1 hbs
    rfl
  | cons y names ih =>
    obtain ⟨b, bs, rfl, hb, hrest⟩ := List.map_eq_cons_iff.1 hbs
    obtain ⟨key, old⟩ := b
    obtain ⟨rfl, hold⟩ := Prod.mk.injEq .. ▸ hb
    rw [List.find?_cons]
    by_cases hxy : x = y
    · subst hxy
      simp [(Value.same_symbol _ x).2 rfl, hold]
    · have hkey : (Value.symbol y).same (.symbol x) = false := by
        rw [Bool.eq_false_iff, ne_eq, Value.same_symbol, Value.symbol.injEq]
        exact fun h => hxy h.symm
      simp [hkey, hxy, ih hrest]

end History

/-! ## Stores under changes -/

namespace Store

/-- Definitions in one frame, one after another. -/
def insertAll (s : Store) (f : FrameId) (items : List (String × Value)) : Store :=
  items.foldl (fun s b => s.insert f (.symbol b.1) b.2) s

def pushFrame (s : Store) (fr : Frame) : Store := { s with frames := s.frames.push fr }

theorem insert_pushFrame (s : Store) (fr : Frame) (name v : Value) :
    (s.pushFrame fr).insert s.frames.size name v = s.pushFrame (fr.insert name v) := by
  have hframes : (s.frames.push fr).modify s.frames.size (·.insert name v) =
      s.frames.push (fr.insert name v) := by
    apply Array.ext_getElem?
    intro i
    rw [Array.getElem?_modify, Array.getElem?_push, Array.getElem?_push]
    by_cases hi : i = s.frames.size
    · simp [hi]
    · simp [hi, Ne.symm hi]
  rw [insert, pushFrame, hframes]
  rfl

theorem pushFrame_insertAll (s : Store) (outer : Option FrameId) (items : List (String × Value))
    (bs : List (Value × Value)) :
    (s.pushFrame ⟨bs, outer⟩).insertAll s.frames.size items =
      s.pushFrame ⟨items.foldl (fun bs b => Frame.bind (.symbol b.1) b.2 bs) bs, outer⟩ := by
  induction items generalizing bs with
  | nil => rfl
  | cons b items ih =>
    rw [insertAll, List.foldl_cons, insert_pushFrame]
    exact ih (Frame.bind (.symbol b.1) b.2 bs)

/-- A new frame is made empty and then filled by definitions. -/
theorem push_eq_insertAll (s : Store) (params : List String) (args : List Value)
    (outer : Option FrameId) :
    (s.push (params.map .symbol) args outer).2 =
      (s.pushFrame ⟨[], outer⟩).insertAll s.frames.size (params.zip args) := by
  rw [pushFrame_insertAll, push, List.zip_map_left, List.foldl_map]
  rfl

theorem insertAll_frame_of_ne {f g : FrameId} (hfg : g ≠ f) (s : Store)
    (items : List (String × Value)) : (s.insertAll f items).frames[g]? = s.frames[g]? := by
  induction items generalizing s with
  | nil => rfl
  | cons b items ih =>
    have hone : (s.insert f (.symbol b.1) b.2).frames[g]? = s.frames[g]? := by
      rw [insert, Array.getElem?_modify, if_neg (Ne.symm hfg)]
    rw [← hone]
    exact ih _

theorem bindings_insert (s : Store) (f g : FrameId) (name v : Value) :
    (s.insert f name v).bindings g =
      if f = g ∧ g < s.frames.size then Frame.bind name v (s.bindings g) else s.bindings g := by
  unfold bindings insert
  rw [Array.getElem?_modify]
  by_cases hfg : f = g
  · cases hfr : s.frames[g]? with
    | none =>
      have hsize := Array.getElem?_eq_none_iff.1 hfr
      simp [hfg, Nat.not_lt.2 hsize]
    | some fr =>
      have hsize := (Array.getElem?_eq_some_iff.1 hfr).1
      simp [hfg, hsize, Frame.insert]
  · simp [hfg]

end Store

namespace FrameChange

theorem after_new {params : List String} {args : List Value} (h : params.length = args.length)
    (depth : Nat) (outer : Option FrameId) (s : Store) :
    ((new params args outer).perform depth).after s = (s.push (params.map .symbol) args outer).2 := by
  have hrun := Eval.newFrame_of_length_eq (params.map .symbol) args (by simpa using h) outer s
  exact Eval.after_ok (Eval.map_ok hrun)

theorem after_new_of_ne {params : List String} {args : List Value} (h : params.length ≠ args.length)
    (depth : Nat) (outer : Option FrameId) (s : Store) :
    ((new params args outer).perform depth).after s = s := by
  have hrun := Eval.newFrame_of_length_ne (params.map .symbol) args (by simpa using h) outer s
  exact Eval.after_error (Eval.map_error hrun)

theorem after_update (depth : Nat) (f : FrameId) (items : List (String × Value)) (s : Store) :
    ((update f items).perform depth).after s = s.insertAll f items := by
  induction items generalizing s with
  | nil => rfl
  | cons b items ih => exact ih (s.insert f (.symbol b.1) b.2)

theorem perform_frame_of_ne (depth : Nat) (c : FrameChange) {s : Store} {g : FrameId}
    (hg : g ≠ c.frame s) : ((c.perform depth).after s).frames[g]? = s.frames[g]? := by
  cases c with
  | new params args outer =>
    by_cases h : params.length = args.length
    · rw [after_new h]
      exact Array.getElem?_push.trans (if_neg hg)
    · rw [after_new_of_ne h]
  | define f x v => exact s.insertAll_frame_of_ne hg [(x, v)]
  | update f items =>
    rw [after_update]
    exact s.insertAll_frame_of_ne hg items

end FrameChange

/-! ## Stores that agree with a history -/

namespace History

structure Implements (h : History) (s : Store) : Prop where
  outer : ∀ f : FrameId, s.frames[f]?.map Frame.outer = h.outers[f]?
  /-- Links lead to frames made earlier. -/
  link : ∀ {f g : FrameId}, h.outers[f]? = some (some g) → g < f
  known : ∀ a ∈ h.assignments, a.frame < h.outers.length
  lists : ∀ f, Lists (s.bindings f) (h.names f) (h.latest f)

namespace Implements

variable {h : History} {s : Store}

theorem size_eq (hs : h.Implements s) : s.frames.size = h.outers.length := by
  have hiff : ∀ f, s.frames.size ≤ f ↔ h.outers.length ≤ f := by
    intro f
    rw [← Array.getElem?_eq_none_iff, ← List.getElem?_eq_none_iff, ← hs.outer, Option.map_eq_none_iff]
  have hle := (hiff h.outers.length).2 (Nat.le_refl _)
  have hge := (hiff s.frames.size).1 (Nat.le_refl _)
  omega

theorem empty : History.empty.Implements Store.empty where
  outer _ := rfl
  link h := by cases h
  known _ ha := by cases ha
  lists _ := rfl

theorem insert (hs : h.Implements s) {f : FrameId} (hf : f < h.outers.length) (x : String)
    (v : Value) : (h.assign f [(x, v)]).Implements (s.insert f (.symbol x) v) where
  outer g := by
    rw [← show h.outers[g]? = (h.assign f [(x, v)]).outers[g]? from rfl, ← hs.outer g, Store.insert,
      Array.getElem?_modify]
    split
    · cases s.frames[g]? <;> rfl
    · rfl
  link := hs.link
  known a ha := by
    rcases List.mem_append.1 ha with ha | ha
    · exact hs.known a ha
    · cases List.mem_singleton.1 ha
      exact hf
  lists g := by
    have hlatest : (h.assign f [(x, v)]).latest g =
        fun y => if f = g ∧ x = y then some v else h.latest g y :=
      funext fun y => latest_assign h f g x y v
    rw [hlatest, names_assign, Store.bindings_insert]
    by_cases hfg : f = g
    · subst hfg
      have hbind := (hs.lists f).bind (nodup_eraseDups _) x v
      simpa [hs.size_eq, hf] using hbind
    · simpa [hfg] using hs.lists g

theorem insertAll (hs : h.Implements s) {f : FrameId} (hf : f < h.outers.length)
    (items : List (String × Value)) : (h.assign f items).Implements (s.insertAll f items) := by
  induction items generalizing h s with
  | nil =>
    have hnil : h.assign f [] = h := by simp [assign]
    rw [hnil]
    exact hs
  | cons b items ih =>
    rw [assign_cons]
    exact ih (hs.insert hf b.1 b.2) hf

theorem push (hs : h.Implements s) {outer : Option FrameId} (ho : ∀ g ∈ outer, g < h.outers.length) :
    Implements { h with outers := h.outers ++ [outer] } (s.pushFrame ⟨[], outer⟩) where
  outer f := by
    rw [Store.pushFrame, Array.getElem?_push, List.getElem?_append, hs.size_eq, ← hs.outer f]
    rcases Nat.lt_trichotomy f h.outers.length with hlt | rfl | hgt
    · rw [if_neg (Nat.ne_of_lt hlt), if_pos hlt]
    · rw [if_pos rfl, if_neg (Nat.lt_irrefl _), Nat.sub_self]
      rfl
    · have hnone : s.frames[f]? = none := by
        rw [Array.getElem?_eq_none_iff, hs.size_eq]
        exact Nat.le_of_lt hgt
      rw [if_neg (Nat.ne_of_gt hgt), if_neg (Nat.lt_asymm hgt), hnone,
        List.getElem?_eq_none (Nat.sub_pos_of_lt hgt)]
      rfl
  link {f g} hfg := by
    rw [List.getElem?_append] at hfg
    rcases Nat.lt_trichotomy f h.outers.length with hlt | rfl | hgt
    · rw [if_pos hlt] at hfg
      exact hs.link hfg
    · rw [if_neg (Nat.lt_irrefl _), Nat.sub_self] at hfg
      exact ho g (Option.some.inj hfg)
    · rw [if_neg (Nat.lt_asymm hgt), List.getElem?_eq_none (Nat.sub_pos_of_lt hgt)] at hfg
      cases hfg
  known a ha := by
    rw [List.length_append]
    exact Nat.lt_add_right 1 (hs.known a ha)
  lists f := by
    by_cases hf : f = s.frames.size
    · -- Nothing has been bound in a frame that was not there.
      have hnames : h.names f = [] := by
        rw [List.eq_nil_iff_forall_not_mem]
        intro x hx
        obtain ⟨a, ha, haf, -⟩ := mem_names_iff.1 hx
        have hlt := hs.known a ha
        rw [haf, hf, hs.size_eq] at hlt
        exact Nat.lt_irrefl _ hlt
      have hbindings : (s.pushFrame ⟨[], outer⟩).bindings f = [] := by
        rw [Store.bindings, Store.pushFrame, hf, Array.getElem?_push_size]
      show Lists _ (h.names f) _
      rw [hnames, hbindings]
      rfl
    · have hbindings : (s.pushFrame ⟨[], outer⟩).bindings f = s.bindings f := by
        rw [Store.bindings, Store.pushFrame, Array.getElem?_push, if_neg hf]
        rfl
      rw [hbindings]
      exact hs.lists f

/-- One change keeps the store and its history together. -/
theorem perform (hs : h.Implements s) (depth : Nat) {c : FrameChange} (hc : h.Admits c) :
    (h.record c).Implements ((c.perform depth).after s) := by
  cases c with
  | new params args outer =>
    rw [record]
    split
    · next hlen =>
      rw [FrameChange.after_new hlen, Store.push_eq_insertAll, hs.size_eq]
      exact (hs.push hc).insertAll (by simp) _
    · next hlen =>
      rw [FrameChange.after_new_of_ne hlen]
      exact hs
  | define f x v => exact hs.insert hc x v
  | update f items =>
    rw [FrameChange.after_update]
    exact hs.insertAll hc items

theorem performAll (hs : h.Implements s) (depth : Nat) {changes : List FrameChange}
    (hc : h.AdmitsAll changes) :
    (h.recordAll changes).Implements (FrameChange.performAll depth changes s) := by
  induction changes generalizing h s with
  | nil => exact hs
  | cons c changes ih => exact ih (hs.perform depth hc.1) hc.2

/-! ## What the store answers -/

theorem outward_chain (hs : h.Implements s) {f : FrameId} (hf : f < s.frames.size) :
    h.Outward f (s.chain f) := by
  induction f using Nat.strongRecOn with
  | ind f ih =>
    have hfr := Array.getElem?_eq_getElem hf
    have houter := hs.outer f
    rw [hfr, Option.map_some] at houter
    cases ho : s.frames[f].outer with
    | none =>
      rw [Store.chain_of_root hfr ho]
      exact .root (by rw [← houter, ho])
    | some g =>
      have hlink : h.outers[f]? = some (some g) := by rw [← houter, ho]
      have hg := hs.link hlink
      rw [Store.chain_of_outer hfr ho hg]
      exact .outer hlink (ih g hg (Nat.lt_trans hg hf))

theorem get?_eq (hs : h.Implements s) (f : FrameId) (x : String) :
    s.get? f (.symbol x) = h.latest f x := by
  have hfind := (hs.lists f).find? x
  have hget : s.get? f (.symbol x) =
      ((s.bindings f).find? fun b => b.1.same (.symbol x)).map Prod.snd := by
    unfold Store.get? Store.bindings
    cases s.frames[f]? <;> rfl
  rw [hget, hfind]
  by_cases hx : x ∈ h.names f
  · rw [if_pos hx]
  · rw [mem_names_iff, ← isSome_latest_iff, Option.not_isSome_iff_eq_none] at hx
    rw [hx, ite_self]

theorem find?_eq (hs : h.Implements s) (f : FrameId) (x : String) :
    s.find? f (.symbol x) = (s.chain f).find? fun g => h.Bound g x := by
  have hpred : (fun g => (s.get? g (.symbol x)).isSome) = fun g => decide (h.Bound g x) := by
    funext g
    rw [hs.get?_eq, Bool.eq_iff_iff, isSome_latest_iff, decide_eq_true_iff]
  rw [Store.find?, hpred]

theorem lookup?_eq (hs : h.Implements s) (f : FrameId) (x : String) :
    s.lookup? f (.symbol x) = (s.find? f (.symbol x)).bind fun g => h.latest g x := by
  rw [Store.lookup?, Store.find?]
  induction s.chain f with
  | nil => rfl
  | cons g path ih =>
    rw [List.findSome?_cons, List.find?_cons, ih]
    cases hget : s.get? g (.symbol x) with
    | none => rfl
    | some v => exact hget.symm.trans (hs.get?_eq g x)

end Implements

end History

open History in
/-- After any making of frames and binding of names, look-up follows the links and answers with what
was bound last, each frame lists what was bound in it, and a further change touches one frame. -/
theorem frames_implement_history (depth : Nat) (changes : List FrameChange)
    (hchanges : empty.AdmitsAll changes) :
    let h := empty.recordAll changes
    let s := FrameChange.performAll depth changes Store.empty
    s.frames.size = h.outers.length ∧
    (∀ f < s.frames.size,
      h.Outward f (s.chain f) ∧
      (s.bindings f).map (fun b => (b.1, some b.2)) =
        (h.names f).map (fun x => (.symbol x, h.latest f x)) ∧
      (h.names f).Nodup ∧
      ∀ x,
        s.find? f (.symbol x) = (s.chain f).find? (fun g => h.Bound g x) ∧
        s.isBound f (.symbol x) = (s.find? f (.symbol x)).isSome ∧
        match s.find? f (.symbol x) with
        | some g => ∃ v, h.latest g x = some v ∧ Eval.lookup depth f (.symbol x) s = .ok v s
        | none => Eval.lookup depth f (.symbol x) s = .error (.error (.unbound x)) s) ∧
    ∀ (c : FrameChange) (g : FrameId), g ≠ c.frame s →
      ((c.perform depth).after s).frames[g]? = s.frames[g]? := by
  intro h s
  have hs : h.Implements s := Implements.empty.performAll depth hchanges
  refine ⟨hs.size_eq, ?_, fun c g hg => c.perform_frame_of_ne depth hg⟩
  intro f hf
  refine ⟨hs.outward_chain hf, hs.lists f, nodup_eraseDups _, ?_⟩
  intro x
  refine ⟨hs.find?_eq f x, rfl, ?_⟩
  rw [Eval.lookup_symbol, hs.lookup?_eq]
  cases hfind : s.find? f (.symbol x) with
  | none => rfl
  | some g =>
    have hbound : h.Bound g x := by
      rw [hs.find?_eq] at hfind
      simpa using List.find?_some hfind
    obtain ⟨v, hv⟩ := Option.isSome_iff_exists.1 (isSome_latest_iff.2 hbound)
    refine ⟨v, hv, ?_⟩
    rw [Option.bind_some, hv]

open History in
/-- A name of the root is hidden by a definition made later in a frame between. -/
theorem frames_implement_history_shadowed :
    let changes : List FrameChange :=
      [.new ["x", "y", "x"] [.unspecified, .unspecified, .bool true] none, .new [] [] (some 0),
        .new ["z"] [] (some 0), .new ["z"] [.unspecified] (some 1), .define 1 "x" (.bool false),
        .update 0 [("w", .bool true), ("y", .bool true)]]
    let s := FrameChange.performAll 0 changes Store.empty
    empty.AdmitsAll changes ∧ s.frames.size = 3 ∧ s.find? 2 (.symbol "x") = some 1 ∧
      Eval.lookup 0 2 (.symbol "x") s = .ok (.bool false) s ∧
      Eval.lookup 0 2 (.symbol "v") s = .error (.error (.unbound "v")) s ∧
      (s.bindings 0).map (fun b => (b.1, some b.2)) =
        [(.symbol "x", some (.bool true)), (.symbol "y", some (.bool true)),
          (.symbol "w", some (.bool true))] := by
  intro changes s
  have hadmits : empty.AdmitsAll changes :=
    ⟨by decide, by decide, by decide, by decide, by decide, by decide, trivial⟩
  obtain ⟨hsize, hframes, -⟩ := frames_implement_history 0 changes hadmits
  obtain ⟨-, -, -, hnames⟩ := hframes 2 (by decide)
  obtain ⟨-, hroot, -⟩ := hframes 0 (by decide)
  have hshadow := (hnames "x").2.2
  have hfree := (hnames "v").2.2
  have hx : s.find? 2 (.symbol "x") = some 1 := by decide +kernel
  have hv : s.find? 2 (.symbol "v") = none := by decide +kernel
  rw [hx] at hshadow
  rw [hv] at hfree
  obtain ⟨v, hlatest, hlookup⟩ := hshadow
  cases hlatest
  exact ⟨hadmits, hsize, hx, hlookup, hfree, hroot⟩

end SmallLisp
