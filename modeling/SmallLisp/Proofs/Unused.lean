import SmallLisp.Proofs.Output
import SmallLisp.Proofs.Twins

/-!
Bindings of a name that is not used do not matter.

`Datum.uses d` lists the symbols of `d` that stand where they are evaluated, the bodies of lambdas
included; quoted text, the targets of definitions, parameters and the keywords of special forms are no
uses.  If a name is used neither in a program nor in the body of a closure that some other name holds,
then its bindings have no influence: stores that agree on all other names lead to the same value or
fault, and to stores that agree on all other names, as long as no frame is shown (`eval_unused`).

The policy speaks of all bindings of a store, and the name itself may be bound to anything.  Two runs
are therefore compared with a third one, from the store without bindings of the name
(`Store.exists_without`).
-/

namespace SmallLisp

open Eval (Alike)

/-! ## Symbols that are used -/

namespace Datum

/-- The special form that an operator announces. -/
def form? : Datum → Option SpecialForm
  | .symbol name => SpecialForm.ofName? name
  | _ => none

mutual

/-- The symbols that stand in a datum where they are evaluated. -/
def uses : Datum → List String
  | .number _ => []
  | .symbol name => [name]
  | .list items => usesForm items

def usesForm : List Datum → List String
  | [] => []
  | head :: operands =>
    match head.form? with
    | some .quote => []
    | some .conditional => usesAll operands
    | some .define => usesAfter operands
    | some .lambda => usesAfter operands
    | none => uses head ++ usesAll operands

/-- The target of a definition and the parameters of a lambda are not evaluated. -/
def usesAfter : List Datum → List String
  | [] => []
  | _ :: rest => usesAll rest

def usesAll : List Datum → List String
  | [] => []
  | d :: rest => uses d ++ usesAll rest

end

example : (list [symbol "if", symbol "x", list [symbol "quote", symbol "y"],
    list [symbol "lambda", list [symbol "z"], list [symbol "f", symbol "z"]]]).uses =
      ["x", "f", "z"] := by decide

theorem mem_usesAll {x : String} {ds : List Datum} : x ∈ usesAll ds ↔ ∃ d ∈ ds, x ∈ d.uses := by
  induction ds with
  | nil => simp [usesAll]
  | cons d ds ih => simp [usesAll, ih]

/-- The datum does not use a name. -/
def Avoids (z : String) (d : Datum) : Prop := z ∉ d.uses

end Datum

theorem SpecialForm.ofHead?_of_datum? {v : Value} {d : Datum} (h : v.datum? = some d) :
    SpecialForm.ofHead? v = d.form? := by
  cases d with
  | number x => rw [Value.datum?_eq_number h]; rfl
  | symbol name => rw [Value.datum?_eq_symbol h]; rfl
  | list ds =>
    obtain ⟨mark, items, rfl, -⟩ := Value.datum?_eq_list h
    rfl

namespace Policy

/-- Evaluation of data that do not use a name; faults are free. -/
def avoiding (z : String) : Policy := .source (Datum.Avoids z) fun _ => True

variable {z : String} {s : Store} {f : FrameId}

theorem reads_of_not_mem_usesAll {vs : List Value} {ds : List Datum} (h : Value.data? vs = some ds)
    (hz : z ∉ Datum.usesAll ds) : ∀ v ∈ vs, v.Reads (Datum.Avoids z) := by
  intro v hv
  obtain ⟨d, hd, hvd⟩ := Value.exists_of_mem_data? h hv
  exact ⟨d, hvd, fun hmem => hz (Datum.mem_usesAll.2 ⟨d, hd, hmem⟩)⟩

theorem reads_of_not_mem_usesAfter {v w : Value} {ds : List Datum}
    (h : Value.data? [v, w] = some ds) (hz : z ∉ Datum.usesAfter ds) :
    w.Reads (Datum.Avoids z) := by
  obtain ⟨d, ds', -, hds', rfl⟩ := Value.data?_cons.1 h
  exact reads_of_not_mem_usesAll hds' hz w (by simp)

theorem avoiding_combination {head : Value} {operands : List Value} {d : Datum} {ds : List Datum}
    (hhead : head.datum? = some d) (hoperands : Value.data? operands = some ds)
    (hz : z ∉ Datum.usesForm (d :: ds)) : (avoiding z).Combination s f head operands := by
  have hform : ∀ fault, (avoiding z).Allowed (.error (.form fault)) := fun _ => trivial
  unfold Combination
  rw [SpecialForm.ofHead?_of_datum? hhead]
  unfold Datum.usesForm at hz
  cases hd : d.form? with
  | none =>
    simp only [hd, List.mem_append, not_or] at hz
    exact ⟨⟨d, hhead, hz.1⟩, reads_of_not_mem_usesAll hoperands hz.2⟩
  | some form =>
    simp only [hd] at hz
    cases form with
    | quote =>
      refine operands_quote hform fun v hv => ?_
      obtain ⟨d', -, hvd⟩ := Value.exists_of_mem_data? hoperands hv
      exact Value.procedures_of_datum? hvd
    | conditional => exact operands_conditional hform (reads_of_not_mem_usesAll hoperands hz)
    | define =>
      refine operands_define hform fun x e he => ?_
      subst he
      exact reads_of_not_mem_usesAfter hoperands hz
    | lambda =>
      refine operands_lambda hform fun params body names he _ _ mark => ?_
      subst he
      exact source_good_closure (reads_of_not_mem_usesAfter hoperands hz) mark names f

theorem avoiding_lawful (z : String) : (avoiding z).Lawful := by
  refine source_lawful (fun _ => trivial) ?_
  rintro s e f ⟨d, hd, hz⟩
  cases d with
  | number x =>
    cases Value.datum?_eq_number hd
    trivial
  | symbol name =>
    cases Value.datum?_eq_symbol hd
    exact fun _ => trivial
  | list ds =>
    obtain ⟨mark, items, rfl, hitems⟩ := Value.datum?_eq_list hd
    cases items with
    | nil => trivial
    | cons head operands =>
      obtain ⟨d, ds', hhead, hoperands, rfl⟩ := Value.data?_cons.1 hitems
      exact avoiding_combination hhead hoperands hz

end Policy

/-! ## Stores that agree on all names but one -/

namespace Store

/-- The same outer links, and the same values for every name but `z`. -/
structure AgreeExcept (z : String) (fs gs : Array Frame) : Prop where
  links : SameLinks fs gs
  values : ∀ (g : FrameId) (x : String), x ≠ z →
    gs[g]?.bind (·.get? (.symbol x)) = fs[g]?.bind (·.get? (.symbol x))

/-- No closure that is held under a name other than `z` uses `z`. -/
def Unused (z : String) (s : Store) : Prop :=
  ∀ (g : FrameId) (x : String) (v : Value), x ≠ z → s.get? g (.symbol x) = some v →
    v.Procedures (Value.BodyReads (Datum.Avoids z))

/-- Two stores that differ only in bindings of a name that is not used. -/
def DiffersAt (z : String) (s t : Store) : Prop := s.Twin (AgreeExcept z) t ∧ s.Unused z

namespace AgreeExcept

variable {z : String} {fs gs hs : Array Frame}

theorem symm (h : AgreeExcept z fs gs) : AgreeExcept z gs fs where
  links := h.links.symm
  values g x hx := (h.values g x hx).symm

theorem trans (h : AgreeExcept z fs gs) (h' : AgreeExcept z gs hs) : AgreeExcept z fs hs where
  links := h.links.trans h'.links
  values g x hx := (h'.values g x hx).trans (h.values g x hx)

theorem push (h : AgreeExcept z fs gs) (fr : Frame) : AgreeExcept z (fs.push fr) (gs.push fr) where
  links := h.links.push fr
  values g x hx := by
    rw [Array.getElem?_push, Array.getElem?_push, h.links.size_eq]
    split
    · rfl
    · exact h.values g x hx

/-- The value of a name after a definition, in one frame. -/
theorem values_modify (fs : Array Frame) (f g : FrameId) (x y : String) (v : Value) :
    (fs.modify f (·.insert (.symbol x) v))[g]?.bind (·.get? (.symbol y)) =
      if f = g ∧ x = y then fs[g]?.map fun _ => v else fs[g]?.bind (·.get? (.symbol y)) := by
  rw [Array.getElem?_modify]
  by_cases hf : f = g
  · rw [if_pos hf, Option.bind_map]
    by_cases hx : x = y
    · subst hx
      rw [if_pos ⟨hf, rfl⟩]
      cases fs[g]? with
      | none => rfl
      | some fr => exact Frame.get?_insert_self fr x v
    · rw [if_neg fun h => hx h.2]
      cases fs[g]? with
      | none => rfl
      | some fr => exact Frame.get?_insert_of_ne fr (fun h => hx (Value.symbol.inj h).symm) v
  · rw [if_neg hf, if_neg fun h => hf h.1]

theorem insert (h : AgreeExcept z fs gs) (f : FrameId) (x : String) (v : Value) :
    AgreeExcept z (fs.modify f (·.insert (.symbol x) v)) (gs.modify f (·.insert (.symbol x) v)) where
  links := h.links.modify f fun _ => rfl
  values g y hy := by
    rw [values_modify, values_modify]
    split
    · have hsame : gs[g]?.isSome = fs[g]?.isSome := by
        rw [← Option.isSome_map (f := Frame.outer), h.links g, Option.isSome_map]
      cases hfs : fs[g]? <;> cases hgs : gs[g]? <;> simp_all
    · exact h.values g y hy

theorem lookup?_eq {s : Store} {frames : Array Frame} (h : AgreeExcept z s.frames frames)
    (f : FrameId) {x : String} (hx : x ≠ z) :
    ({ s with frames } : Store).lookup? f (.symbol x) = s.lookup? f (.symbol x) := by
  unfold lookup?
  rw [h.links.chain_eq f]
  congr 1
  funext g
  exact h.values g x hx

end AgreeExcept

/-- A definition of `z` changes nothing but `z`. -/
theorem agreeExcept_insert (s : Store) (z : String) (f : FrameId) (v : Value) :
    AgreeExcept z s.frames (s.insert f (.symbol z) v).frames where
  links := sameLinks_modify s.frames f fun _ => rfl
  values g x hx := by
    have hvalue := AgreeExcept.values_modify s.frames f g z x v
    rw [if_neg fun h => hx h.2.symm] at hvalue
    exact hvalue

end Store

/-! ## Stores without a name -/

namespace Frame

/-- A binding of a name other than `z`, with the value that the name has. -/
def kept (z : String) (value : String → Option Value) : Value × Value → Option (Value × Value)
  | (.symbol x, _) => if x = z then none else (value x).map (Prod.mk (.symbol x))
  | _ => none

theorem exists_of_kept {z : String} {value : String → Option Value} {b c : Value × Value}
    (h : kept z value b = some c) :
    ∃ x, x ≠ z ∧ b.1 = .symbol x ∧ c.1 = .symbol x ∧ value x = some c.2 := by
  unfold kept at h
  split at h
  · next x _ =>
    split at h
    · cases h
    · next hx =>
      obtain ⟨v, hv, rfl⟩ := Option.map_eq_some_iff.1 h
      exact ⟨x, hx, rfl, rfl, hv⟩
  · cases h

theorem find?_kept {z x : String} (hx : x ≠ z) (value : String → Option Value)
    (bs : List (Value × Value)) :
    ((bs.filterMap (kept z value)).find? fun b => b.1.same (.symbol x)).map Prod.snd =
      (bs.find? fun b => b.1.same (.symbol x)).bind fun _ => value x := by
  induction bs with
  | nil => rfl
  | cons b bs ih =>
    obtain ⟨key, old⟩ := b
    by_cases hkey : key = .symbol x
    · subst hkey
      have hsame : (Value.symbol x).same (.symbol x) = true := (Value.same_symbol _ x).2 rfl
      cases hv : value x with
      | none =>
        rw [List.filterMap_cons_none (by simp [kept, hx, hv]), ih, hv]
        simp
      | some v =>
        have hkept : kept z value (.symbol x, old) = some (.symbol x, v) := by simp [kept, hx, hv]
        rw [List.filterMap_cons_some hkept]
        simp [hsame]
    · have hsame : ¬ key.same (.symbol x) = true := fun h => hkey ((Value.same_symbol key x).1 h)
      rw [List.find?_cons_of_neg (a := (key, old)) hsame, ← ih]
      cases hkept : kept z value (key, old) with
      | none => rw [List.filterMap_cons_none hkept]
      | some c =>
        obtain ⟨y, -, rfl, hc, -⟩ := exists_of_kept hkept
        rw [List.filterMap_cons_some hkept, List.find?_cons_of_neg (by rw [hc]; exact hsame)]

/-- The frame without bindings of `z`. -/
def without (fr : Frame) (z : String) : Frame :=
  { fr with bindings := fr.bindings.filterMap (kept z fun x => fr.get? (.symbol x)) }

theorem get?_without (fr : Frame) {z x : String} (hx : x ≠ z) :
    (fr.without z).get? (.symbol x) = fr.get? (.symbol x) := by
  have hfind := find?_kept hx (fun x => fr.get? (.symbol x)) fr.bindings
  unfold without
  rw [get?, hfind, get?]
  cases fr.bindings.find? fun b => b.1.same (.symbol x) <;> rfl

/-- What is bound in it is the value of a name other than `z`. -/
theorem exists_of_mem_without {fr : Frame} {z : String} {b : Value × Value}
    (h : b ∈ (fr.without z).bindings) : ∃ x, x ≠ z ∧ fr.get? (.symbol x) = some b.2 := by
  obtain ⟨c, -, hkept⟩ := List.mem_filterMap.1 h
  obtain ⟨x, hx, -, -, hv⟩ := exists_of_kept hkept
  exact ⟨x, hx, hv⟩

end Frame

namespace Store

theorem exists_without (z : String) (s : Store) :
    ∃ frames, AgreeExcept z s.frames frames ∧
      (s.Unused z → (Policy.avoiding z).Holds { s with frames }) := by
  refine ⟨s.frames.map (·.without z), ⟨fun g => ?_, fun g x hx => ?_⟩, fun hs => ⟨trivial, ?_⟩⟩
  · rw [Array.getElem?_map, Option.map_map]
    rfl
  · rw [Array.getElem?_map, Option.bind_map]
    cases s.frames[g]? with
    | none => rfl
    | some fr => exact fr.get?_without hx
  · intro g fr b hfr hb
    rw [Array.getElem?_map] at hfr
    obtain ⟨fr₀, hfr₀, rfl⟩ := Option.map_eq_some_iff.1 hfr
    obtain ⟨x, hx, hvalue⟩ := Frame.exists_of_mem_without hb
    refine hs g x b.2 hx ?_
    rw [get?, hfr₀]
    exact hvalue

end Store

/-! ## Two runs -/

theorem Policy.avoiding_hides (z : String) : (Policy.avoiding z).Hides (Store.AgreeExcept z) where
  links h := h.links
  push h fr := h.push fr
  insert h f x v := h.insert f x v
  lookup {s x f frames} _ hx h := by
    obtain ⟨d, hd, hz⟩ := hx
    cases hd
    exact h.lookup?_eq f fun hxz => hz (by simp [Datum.uses, hxz])

/-- Twins that are lost sight of when more than `n` characters were shown. -/
theorem Policy.avoiding_mirror (z : String) (n : Nat) :
    (Store.twins (Store.AgreeExcept z) (n ≤ ·) (n < ·)).Lawful (Policy.avoiding z) :=
  (Policy.avoiding_hides z).lawful (fun hle h => Nat.le_trans h hle)
    (fun hle h => Nat.lt_of_lt_of_le h hle)
    fun _ _ _ hn => Or.inr fun _ hlt => Nat.lt_of_le_of_lt hn hlt

namespace Store

variable {z : String} {s t : Store}

/-- Where all names but `z` have the same values, nothing that uses `z` is held in either store. -/
theorem Twin.unused {u : Store} (h : u.Twin (AgreeExcept z) s) (hu : (Policy.avoiding z).Holds u) :
    s.Unused z := by
  obtain ⟨frames, rfl, hagree⟩ := h
  intro g x v hx hv
  have hv' : u.frames[g]?.bind (·.get? (.symbol x)) = some v := (hagree.values g x hx).symm.trans hv
  obtain ⟨fr, hfr, hget⟩ := Option.bind_eq_some_iff.1 hv'
  obtain ⟨b, hb, rfl⟩ := Option.map_eq_some_iff.1 hget
  exact hu.bound g fr b hfr (List.mem_of_find?_eq_some hb)

/-- A quiet computation over data that do not use `z` is not influenced by bindings of `z`. -/
theorem DiffersAt.alike {x : Eval Value} (h : s.DiffersAt z t) (hquiet : x.Quiet s)
    (hleads : ∀ u, (Policy.avoiding z).Leads x u (Policy.avoiding z).Good)
    (hfollows : ∀ n u, (twins (AgreeExcept z) (n ≤ ·) (n < ·)).Follows (Policy.avoiding z)
      (Value.rename .none) x x u) :
    Alike (DiffersAt z) (x s) (x t) := by
  obtain ⟨⟨frames, rfl, hframes⟩, hs⟩ := h
  obtain ⟨without, hwithout, hholds⟩ := s.exists_without z
  have hu := hholds hs
  -- the run from `s` is quiet, so the third run is compared with it to its end and is quiet as well
  have hrun₁ : Alike (Twin (AgreeExcept z)) (x { s with frames := without }) (x s) := by
    refine Policy.alike_of_follows (hfollows s.output.length _) hu ⟨s.frames, rfl, hwithout.symm⟩
      (Nat.le_refl _) fun hlost => ?_
    have hlt : s.output.length < (x.after s).output.length := hlost.2
    rw [hquiet] at hlt
    exact Nat.lt_irrefl _ hlt
  have hquiet' : (x.after { s with frames := without }).output = s.output := by
    obtain ⟨fs, heq, -⟩ := hrun₁.rel
    exact (congrArg Store.output heq).symm.trans hquiet
  have hrun₂ : Alike (Twin (AgreeExcept z)) (x { s with frames := without })
      (x { s with frames }) := by
    refine Policy.alike_of_follows (hfollows s.output.length _) hu
      ⟨frames, rfl, hwithout.symm.trans hframes⟩ (Nat.le_refl _) fun hlost => ?_
    have hlt : s.output.length < (x.after { s with frames := without }).output.length := hlost.1
    rw [hquiet'] at hlt
    exact Nat.lt_irrefl _ hlt
  have hboth : Alike (Twin (AgreeExcept z)) (x s) (x { s with frames }) := by
    refine hrun₁.join hrun₂ ?_
    rintro u - - ⟨fs, rfl, hfs⟩ ⟨gs, rfl, hgs⟩
    exact ⟨gs, rfl, hfs.symm.trans hgs⟩
  exact hboth.after fun htwin => ⟨htwin, hrun₁.rel.unused ((hleads _).after hu).2⟩

end Store

theorem evaluate_differsAt {z : String} {s t : Store} (h : s.DiffersAt z t) {d : Nat} {e : Value}
    {u : Datum} {f : FrameId} (he : e.datum? = some u) (hz : z ∉ u.uses)
    (hshows : ¬ (Task.eval e f).ShowsFrames d s) :
    Alike (Store.DiffersAt z) (evaluate d e f s) (evaluate d e f t) := by
  have hp := Policy.avoiding_lawful z
  have hexpr : e.Reads (Datum.Avoids z) := ⟨u, he, hz⟩
  refine h.alike (Task.quiet_of_not_showsFrames hshows) (fun _ => hp.evaluate d hexpr) fun n u' => ?_
  have hfollows := (Policy.avoiding_mirror z n).evaluate hp d (s := u') (f := f) hexpr
  rw [Value.rename_none] at hfollows
  exact hfollows

theorem eval_differsAt {z : String} {s t : Store} (h : s.DiffersAt z t) {limit : Nat}
    {root : FrameId} {source : String} (hz : ∀ u ∈ (parseAll limit source).1, z ∉ u.uses)
    (hshows : ¬ Interpreter.ShowsFrames limit root (parseAll limit source).1 s) :
    Alike (Store.DiffersAt z) (Interpreter.eval limit root source s)
      (Interpreter.eval limit root source t) := by
  have hp := Policy.avoiding_lawful z
  have hexpr : ∀ u ∈ (parseAll limit source).1, ∀ e (s' : Store), e.datum? = some u →
      (Policy.avoiding z).Expr s' e root := fun u hu e _ he => ⟨u, he, hz u hu⟩
  refine h.alike (Interpreter.quiet_of_not_showsFrames hshows) (fun u => ?_) fun n u => ?_
  · exact hp.leads_eval trivial (fun _ _ => trivial) fun d hd e s' _ => hexpr d hd e s'
  · exact (Policy.avoiding_mirror z n).eval hp fun d hd e s' _ => hexpr d hd e s'

/-- Bindings of a name that is used neither in an expression nor in the body of a closure under
another name do not matter, if no frame is shown: stores that agree on all other names lead to the same
value or fault and to stores that agree on all other names, with no use of the name in either.  So a
program that uses a name only as the keyword of special forms is not changed by a definition of it. -/
theorem eval_unused (z : String) (s : Store) (hs : s.Unused z) :
    (∀ (t : Store) (d : Nat) (e : Value) (u : Datum) (f : FrameId),
      s.Twin (Store.AgreeExcept z) t → e.datum? = some u → z ∉ u.uses →
      ¬ (Task.eval e f).ShowsFrames d s →
      Alike (Store.DiffersAt z) (evaluate d e f s) (evaluate d e f t)) ∧
    ∀ (g : FrameId) (v : Value) (limit : Nat) (root : FrameId) (source : String),
      (∀ u ∈ (parseAll limit source).1, z ∉ u.uses) →
      ¬ Interpreter.ShowsFrames limit root (parseAll limit source).1 s →
      Alike (Store.DiffersAt z) (Interpreter.eval limit root source s)
        (Interpreter.eval limit root source (s.insert g (.symbol z) v)) := by
  constructor
  · intro t d e u f ht he hz hshows
    exact evaluate_differsAt ⟨ht, hs⟩ he hz hshows
  · intro g v limit root source hz hshows
    have htwin : s.Twin (Store.AgreeExcept z) (s.insert g (.symbol z) v) :=
      ⟨_, rfl, s.agreeExcept_insert z g v⟩
    exact eval_differsAt ⟨htwin, hs⟩ hz hshows

/-- The keyword of a conditional in the body of a procedure, bound as a variable. -/
theorem eval_unused_keyword :
    let body : Value := .list 0 [.symbol "if", .symbol "x", .symbol "x",
      .list 1 [.symbol "quote", .symbol "if"]]
    let s : Store := ⟨#[⟨[(.symbol "f", .closure 2 ["x"] body 0)], none⟩], 3, "", #[], #[]⟩
    let t : Store := s.insert 0 (.symbol "if") (.bool false)
    s.Unused "if" ∧ s.Twin (Store.AgreeExcept "if") t ∧
      ¬ (Task.eval (.list 3 [.symbol "f", .symbol "f"]) 0).ShowsFrames 5 s ∧
      Alike (Store.DiffersAt "if") (evaluate 5 (.list 3 [.symbol "f", .symbol "f"]) 0 s)
        (evaluate 5 (.list 3 [.symbol "f", .symbol "f"]) 0 t) ∧
      ¬ Interpreter.ShowsFrames 9 0 (parseAll 9 "(f f)").1 s ∧
      Alike (Store.DiffersAt "if") (Interpreter.eval 9 0 "(f f)" s)
        (Interpreter.eval 9 0 "(f f)" t) ∧
      ∃ s', evaluate 5 (.list 3 [.symbol "f", .symbol "f"]) 0 t =
        .ok (.closure 2 ["x"] body 0) s' := by
  intro body s t
  have hframe : ∀ (g : FrameId) (fr : Frame) (b : Value × Value), s.frames[g]? = some fr →
      b ∈ fr.bindings → b.2 = .closure 2 ["x"] body 0 := by
    intro g fr b hfr hb
    have hlt : g < 1 := (Array.getElem?_eq_some_iff.1 hfr).1
    cases Nat.lt_one_iff.1 hlt
    cases hfr
    cases List.mem_singleton.1 hb
    rfl
  have hunused : s.Unused "if" := by
    intro g x v _ hv
    obtain ⟨fr, hfr, hget⟩ := Option.bind_eq_some_iff.1 hv
    obtain ⟨b, hb, rfl⟩ := Option.map_eq_some_iff.1 hget
    rw [hframe g fr b hfr (List.mem_of_find?_eq_some hb)]
    have hread : body.Reads (Datum.Avoids "if") := ⟨_, rfl, by unfold Datum.Avoids; decide⟩
    exact ⟨hread, Value.procedures_of_datum? (v := body) rfl⟩
  have hheld : Policy.unshown.Holds s := by
    refine ⟨trivial, fun g fr b hfr hb => ?_⟩
    rw [hframe g fr b hfr hb]
    exact ⟨trivial, Value.procedures_of_datum? (v := body) rfl⟩
  have hread : parseAll 9 "(f f)" = ([.list [.symbol "f", .symbol "f"]], none) := by
    with_unfolding_all rfl
  have htwin : s.Twin (Store.AgreeExcept "if") t := ⟨_, rfl, s.agreeExcept_insert "if" 0 _⟩
  have hcall : ¬ (Task.eval (.list 3 [.symbol "f", .symbol "f"]) 0).ShowsFrames 5 s :=
    Task.not_showsFrames hheld (Value.procedures_of_datum? (v := .list 3 _) rfl)
  have hprogram : ¬ Interpreter.ShowsFrames 9 0 (parseAll 9 "(f f)").1 s :=
    Interpreter.not_showsFrames hheld
  obtain ⟨hexpression, hdefinition⟩ := eval_unused "if" s hunused
  refine ⟨hunused, htwin, hcall, ?_, hprogram, ?_, _, by with_unfolding_all rfl⟩
  · exact hexpression t 5 _ (.list [.symbol "f", .symbol "f"]) 0 htwin rfl (by decide) hcall
  · refine hdefinition 0 (.bool false) 9 0 "(f f)" ?_ hprogram
    rw [hread]
    intro u hu
    cases List.mem_singleton.1 hu
    decide

end SmallLisp
