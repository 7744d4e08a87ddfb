import SmallLisp.Proofs.Turns

/-!
Chains of frames mirror the nesting of the text.

A closure keeps the frame in which its lambda form was evaluated, and the frame of a call is put inside
that one, whoever calls.  So the chain of a frame tells how many lambda forms stand around the text that
is evaluated in it, and nothing about the calls that led there (`Interpreter.length_chain_eq_nesting`).
However deep a recursion goes, no chain gets longer than the text is nested.

`e.Inside d w` is the place of an expression in a text.  Lists that are read have marks of their own, so
a lambda form has one place in all that was read (`Interpreter.inside_unique`).  That frames fit the
places of what is evaluated in them is a policy (`Policy.nested`).
-/

namespace SmallLisp

/-! ## Places in a text -/

namespace Value

/-- An expression stands in a text, inside `d` lambda forms of it and outside quoted text. -/
inductive Inside (e : Value) : Nat → Value → Prop
  | here : Inside e 0 e
  | item {d : Nat} {mark : Mark} {head w : Value} {operands : List Value} :
      head ≠ .symbol "quote" → head ≠ .symbol "lambda" → w ∈ head :: operands → Inside e d w →
      Inside e d (.list mark (head :: operands))
  | body {d : Nat} {mark : Mark} {params w : Value} {bodies : List Value} : w ∈ bodies → Inside e d w →
      Inside e (d + 1) (.list mark (.symbol "lambda" :: params :: bodies))

variable {e w u : Value} {d d' : Nat} {mark : Mark} {head params : Value}
  {operands bodies items : List Value}

theorem Inside.trans (h : e.Inside d w) (h' : w.Inside d' u) : e.Inside (d + d') u := by
  induction h' with
  | here => exact h
  | item hquote hlambda hmem _ ih => exact .item hquote hlambda hmem ih
  | body hmem _ ih => exact .body hmem ih

theorem Inside.part (h : (Value.list mark (head :: operands)).Inside d w)
    (hquote : head ≠ .symbol "quote") (hlambda : head ≠ .symbol "lambda")
    (he : e ∈ head :: operands) : e.Inside d w := by
  have hinside := (Inside.item hquote hlambda he .here).trans h
  rwa [Nat.zero_add] at hinside

theorem Inside.of_body (h : (Value.list mark (.symbol "lambda" :: params :: bodies)).Inside d w)
    (he : e ∈ bodies) : e.Inside (d + 1) w := by
  have hinside := (Inside.body he .here).trans h
  rwa [Nat.zero_add, Nat.add_comm] at hinside

/-- What stands in a list is the list or stands in an item of it, and how many lambda forms more that
makes depends on the list alone. -/
theorem Inside.of_list (h : e.Inside d (.list mark items)) :
    (d = 0 ∧ e = .list mark items) ∨ ∃ w ∈ items, ∃ d', e.Inside d' w ∧
      (items.head? = some (.symbol "lambda") ∧ d = d' + 1 ∨
        items.head? ≠ some (.symbol "lambda") ∧ d = d') := by
  cases h with
  | here => exact Or.inl ⟨rfl, rfl⟩
  | @item _ _ head w operands _ hlambda hmem hw =>
    refine Or.inr ⟨w, hmem, d, hw, Or.inr ⟨?_, rfl⟩⟩
    rw [List.head?_cons]
    exact fun heq => hlambda (Option.some.inj heq)
  | @body d' _ params w bodies hmem hw =>
    have hmem : w ∈ .symbol "lambda" :: params :: bodies := by simp [hmem]
    exact Or.inr ⟨w, hmem, d', hw, Or.inl ⟨rfl, rfl⟩⟩

end Value

/-! ## Texts that were read -/

namespace Datum

mutual

/-- How many lambda forms stand inside one another in a datum; those in quoted text do not count, nor
does a list of parameters, whatever their names. -/
def lambdas : Datum → Nat
  | .number _ => 0
  | .symbol _ => 0
  | .list items => lambdasForm items

def lambdasForm : List Datum → Nat
  | [] => 0
  | .symbol "quote" :: _ => 0
  | .symbol "lambda" :: _ :: bodies => lambdasAll bodies + 1
  | head :: operands => max (lambdas head) (lambdasAll operands)

def lambdasAll : List Datum → Nat
  | [] => 0
  | d :: ds => max (lambdas d) (lambdasAll ds)

end

theorem lambdas_le_lambdasAll {d : Datum} {ds : List Datum} (h : d ∈ ds) :
    d.lambdas ≤ lambdasAll ds := by
  induction ds with
  | nil => cases h
  | cons d' ds ih =>
    rw [lambdasAll]
    rcases List.mem_cons.1 h with rfl | h
    · exact Nat.le_max_left _ _
    · exact Nat.le_trans (ih h) (Nat.le_max_right _ _)

theorem lambdasForm_of_ne {head : Datum} (hquote : head ≠ .symbol "quote")
    (hlambda : head ≠ .symbol "lambda") (operands : List Datum) :
    lambdasForm (head :: operands) = lambdasAll (head :: operands) := by
  rw [lambdasForm, lambdasAll]
  · exact hquote
  · exact fun _ _ hhead _ => hlambda hhead

end Datum

namespace Value

variable {e w : Value} {d : Nat}

/-- What stands in a datum is a datum, inside no more lambda forms than there are. -/
theorem Inside.of_datum? (h : e.Inside d w) {x : Datum} (hw : w.datum? = some x) :
    (∃ y, e.datum? = some y) ∧ d ≤ x.lambdas := by
  induction h generalizing x with
  | here => exact ⟨⟨x, hw⟩, Nat.zero_le _⟩
  | @item _ _ head w operands hquote hlambda hmem _ ih =>
    obtain ⟨ds, hds, rfl⟩ := Option.map_eq_some_iff.1 hw
    obtain ⟨y, hy, hdatum⟩ := exists_of_mem_data? hds hmem
    obtain ⟨hread, hle⟩ := ih hdatum
    refine ⟨hread, Nat.le_trans hle (Nat.le_trans (Datum.lambdas_le_lambdasAll hy) ?_)⟩
    obtain ⟨z, zs, hz, -, rfl⟩ := data?_cons.1 hds
    have hne : ∀ {name}, head ≠ .symbol name → z ≠ .symbol name := by
      rintro name hhead rfl
      exact hhead (datum?_eq_symbol hz)
    exact Nat.le_of_eq (Datum.lambdasForm_of_ne (hne hquote) (hne hlambda) zs).symm
  | @body _ _ params w bodies hmem _ ih =>
    obtain ⟨ds, hds, rfl⟩ := Option.map_eq_some_iff.1 hw
    obtain ⟨z, zs, hz, hzs, rfl⟩ := data?_cons.1 hds
    obtain ⟨z', ds, -, hbodies, rfl⟩ := data?_cons.1 hzs
    obtain ⟨y, hy, hdatum⟩ := exists_of_mem_data? hbodies hmem
    obtain ⟨hread, hle⟩ := ih hdatum
    cases hz
    exact ⟨hread, Nat.succ_le_succ (Nat.le_trans hle (Datum.lambdas_le_lambdasAll hy))⟩

mutual

/-- A list in a text that was read has one of the marks that the text took. -/
theorem mark_of_inside {mark : Mark} {items : List Value} : ∀ {x : Datum} {next : Mark} {d : Nat},
    (Value.list mark items).Inside d (x.intern next).1 → next ≤ mark ∧ mark < next + x.marks
  | .list ds, next, d, h => by
    have h : (Value.list mark items).Inside d (.list next (Datum.internAll (next + 1) ds).1) := h
    rcases h.of_list with ⟨-, heq⟩ | ⟨w, hw, d', hinside, -⟩
    · cases heq
      exact ⟨Nat.le_refl _, Nat.lt_add_of_pos_right (Nat.succ_pos _)⟩
    · obtain ⟨hle, hlt⟩ := mark_of_insideAll hw hinside
      rw [Nat.add_right_comm] at hlt
      exact ⟨Nat.le_of_succ_le hle, hlt⟩

theorem mark_of_insideAll {mark : Mark} {items : List Value} :
    ∀ {ds : List Datum} {next : Mark} {w : Value} {d : Nat}, w ∈ (Datum.internAll next ds).1 →
      (Value.list mark items).Inside d w → next ≤ mark ∧ mark < next + Datum.marksAll ds
  | x :: ds, next, w, d, hw, h => by
    rw [Datum.internAll_cons] at hw
    rw [Datum.marksAll, ← Nat.add_assoc]
    rcases List.mem_cons.1 hw with rfl | hw
    · obtain ⟨hle, hlt⟩ := mark_of_inside h
      exact ⟨hle, Nat.lt_of_lt_of_le hlt (Nat.le_add_right _ _)⟩
    · obtain ⟨hle, hlt⟩ := mark_of_insideAll hw h
      exact ⟨Nat.le_trans (Nat.le_add_right _ _) hle, hlt⟩

end

mutual

/-- Marks tell lists apart, so a list has one place in a text. -/
theorem inside_unique {mark : Mark} {items : List Value} : ∀ {x : Datum} {next : Mark} {d d' : Nat},
    (Value.list mark items).Inside d (x.intern next).1 →
    (Value.list mark items).Inside d' (x.intern next).1 → d = d'
  | .list ds, next, d, d', h, h' => by
    have h : (Value.list mark items).Inside d (.list next (Datum.internAll (next + 1) ds).1) := h
    have h' : (Value.list mark items).Inside d' (.list next (Datum.internAll (next + 1) ds).1) := h'
    have hlater : ∀ {w d}, w ∈ (Datum.internAll (next + 1) ds).1 →
        (Value.list mark items).Inside d w → mark ≠ next := fun hw hinside heq =>
      Nat.not_succ_le_self next (heq ▸ (mark_of_insideAll hw hinside).1)
    rcases h.of_list with ⟨rfl, heq⟩ | ⟨w, hw, c, hinside, hd⟩
    · rcases h'.of_list with ⟨rfl, -⟩ | ⟨w', hw', c', hinside', -⟩
      · rfl
      · cases heq
        exact absurd rfl (hlater hw' hinside')
    · rcases h'.of_list with ⟨-, heq⟩ | ⟨w', hw', c', hinside', hd'⟩
      · cases heq
        exact absurd rfl (hlater hw hinside)
      · have hc := insideAll_unique hw hw' hinside hinside'
        rcases hd with ⟨hhead, rfl⟩ | ⟨hhead, rfl⟩
        · rcases hd' with ⟨-, rfl⟩ | ⟨hhead', -⟩
          · rw [hc]
          · exact absurd hhead hhead'
        · rcases hd' with ⟨hhead', -⟩ | ⟨-, rfl⟩
          · exact absurd hhead' hhead
          · exact hc

theorem insideAll_unique {mark : Mark} {items : List Value} :
    ∀ {ds : List Datum} {next : Mark} {w w' : Value} {d d' : Nat},
      w ∈ (Datum.internAll next ds).1 → w' ∈ (Datum.internAll next ds).1 →
      (Value.list mark items).Inside d w → (Value.list mark items).Inside d' w' → d = d'
  | x :: ds, next, w, w', d, d', hw, hw', h, h' => by
    rw [Datum.internAll_cons] at hw hw'
    rcases List.mem_cons.1 hw with rfl | hw
    · rcases List.mem_cons.1 hw' with rfl | hw'
      · exact inside_unique h h'
      · exact absurd (mark_of_inside h).2 (Nat.not_lt_of_le (mark_of_insideAll hw' h').1)
    · rcases List.mem_cons.1 hw' with rfl | hw'
      · exact absurd (mark_of_inside h').2 (Nat.not_lt_of_le (mark_of_insideAll hw h).1)
      · exact insideAll_unique hw hw' h h'

end

end Value

namespace Interpreter

/-- What is read in the course of texts, as far as it has its turn. -/
def textsRead (root : FrameId) (ps : List (Nat × String)) (s : Store) : List Value :=
  (turns root ps s).map Turn.expr

variable {root : FrameId} {ps : List (Nat × String)} {s : Store} {w w' : Value}

theorem datum_of_mem_textsRead (hw : w ∈ textsRead root ps s) :
    ∃ x, w.datum? = some x ∧ ∃ p ∈ ps, ∃ ds, parseAll p.1 p.2 = (ds, none) ∧ x ∈ ds := by
  obtain ⟨a, ha, rfl⟩ := List.mem_map.1 hw
  exact ⟨a.datum, Value.datum?_intern a.datum a.found.nextMark, datum_of_mem_turns ha⟩

/-- A list has one place in all that is read. -/
theorem inside_unique {mark : Mark} {items : List Value} {d d' : Nat} (hw : w ∈ textsRead root ps s)
    (hw' : w' ∈ textsRead root ps s) (h : (Value.list mark items).Inside d w)
    (h' : (Value.list mark items).Inside d' w') : d = d' := by
  obtain ⟨a, ha, rfl⟩ := List.mem_map.1 hw
  obtain ⟨b, hb, rfl⟩ := List.mem_map.1 hw'
  obtain ⟨hle, hlt⟩ := Value.mark_of_inside h
  obtain ⟨hle', hlt'⟩ := Value.mark_of_inside h'
  rcases turns_apart ha hb with rfl | hbefore | hafter
  · exact Value.inside_unique h h'
  · exact absurd (Nat.lt_of_lt_of_le hlt hbefore) (Nat.not_lt_of_le hle')
  · exact absurd (Nat.lt_of_lt_of_le hlt' hafter) (Nat.not_lt_of_le hle)

end Interpreter

/-! ## Frames that fit -/

namespace Store

/-- A frame fits an expression at one of its places in texts: its chain has as many frames as there are
lambda forms around the expression, and one more for the root. -/
def Fits (s : Store) (texts : List Value) (e : Value) (f : FrameId) : Prop :=
  ∃ w ∈ texts, ∃ d, e.Inside d w ∧ (s.chain f).length = d + 1

/-- A closure is one of a lambda form in the texts that its frame fits. -/
def FitsClosure (s : Store) (texts : List Value) : Value → Prop
  | .closure _ names body f => ∃ mark params, Machine.parameters? params = some names ∧
      s.Fits texts (.list mark [.symbol "lambda", params, body]) f
  | _ => True

/-- The root and every frame made since there were `first` stand alone or fit some expression. -/
def FitsAll (s : Store) (texts : List Value) (root first : FrameId) : Prop :=
  ∀ g < s.frames.size, g = root ∨ first ≤ g → (s.chain g).length = 1 ∨ ∃ e, s.Fits texts e g

variable {s s' : Store} {texts : List Value} {e : Value} {f root first : FrameId}

theorem Fits.lt_size (h : s.Fits texts e f) : f < s.frames.size := by
  obtain ⟨w, -, d, -, hlen⟩ := h
  have hpos : 0 < (s.chain f).length := by
    rw [hlen]
    exact Nat.succ_pos d
  obtain ⟨g, hg⟩ := List.exists_mem_of_length_pos hpos
  exact lt_size_of_mem_chain hg

theorem Fits.mono (h : s.Fits texts e f) (hext : s.Extends s') : s'.Fits texts e f := by
  have hchain := hext.chain_eq h.lt_size
  obtain ⟨w, hw, d, hinside, hlen⟩ := h
  rw [← hchain] at hlen
  exact ⟨w, hw, d, hinside, hlen⟩

theorem FitsClosure.mono {v : Value} (h : s.FitsClosure texts v) (hext : s.Extends s') :
    s'.FitsClosure texts v := by
  cases v with
  | closure own names body f =>
    obtain ⟨mark, params, hnames, hfits⟩ := h
    exact ⟨mark, params, hnames, hfits.mono hext⟩
  | _ => trivial

theorem FitsAll.of_lt (h : s.FitsAll texts root first) (hext : s.Extends s') {g : FrameId}
    (hg : g < s.frames.size) (hnew : g = root ∨ first ≤ g) :
    (s'.chain g).length = 1 ∨ ∃ e, s'.Fits texts e g := by
  rcases h g hg hnew with hlen | ⟨e, he⟩
  · rw [hext.chain_eq hg]
    exact Or.inl hlen
  · exact Or.inr ⟨e, he.mono hext⟩

theorem FitsAll.mono (h : s.FitsAll texts root first) (hext : s.Extends s')
    (hsize : s'.frames.size = s.frames.size) : s'.FitsAll texts root first := by
  intro g hg hnew
  rw [hsize] at hg
  exact h.of_lt hext hg hnew

/-- The frame of a call fits what is called. -/
theorem Fits.entered {mark : Mark} {params body : Value}
    (h : s.Fits texts (.list mark [.symbol "lambda", params, body]) f) (names : List String)
    (args : List Value) : (Machine.entered s names args f).Fits texts body s.frames.size := by
  have hf := h.lt_size
  obtain ⟨w, hw, d, hinside, hlen⟩ := h
  refine ⟨w, hw, d + 1, hinside.of_body (by simp), ?_⟩
  rw [chain_entered hf, List.length_cons, hlen]

theorem FitsAll.entered (h : s.FitsAll texts root first) {names : List String} {args : List Value}
    (hfits : (Machine.entered s names args f).Fits texts e s.frames.size) :
    (Machine.entered s names args f).FitsAll texts root first := by
  intro g hg hnew
  rw [entered_frames, Array.size_push] at hg
  rcases Nat.lt_succ_iff_lt_or_eq.1 hg with hg | rfl
  · exact h.of_lt (extends_entered s names args f) hg hnew
  · exact Or.inr ⟨e, hfits⟩

end Store

namespace Policy

/-- Evaluation of parts of texts in frames that fit them; faults are free. -/
def nested (texts : List Value) (root first : FrameId) : Policy where
  Expr s e f := s.Fits texts e f
  Proc s v := s.FitsClosure texts v
  Inv s := s.FitsAll texts root first
  Allowed _ := True

variable {texts : List Value} {root first : FrameId}

theorem nested_combination {s : Store} {mark : Mark} {head : Value} {operands : List Value}
    {f : FrameId} (he : s.Fits texts (.list mark (head :: operands)) f)
    (hdata : ∀ v ∈ operands, (nested texts root first).Good s v) :
    (nested texts root first).Combination s f head operands := by
  have hpart : head ≠ .symbol "quote" → head ≠ .symbol "lambda" →
      ∀ v ∈ head :: operands, s.Fits texts v f := by
    intro hquote hlambda v hv
    obtain ⟨w, hw, d, hinside, hlen⟩ := he
    exact ⟨w, hw, d, hinside.part hquote hlambda hv, hlen⟩
  have hfree : ∀ fault, (nested texts root first).Allowed (.error (.form fault)) := fun _ => trivial
  unfold Combination
  cases hhead : SpecialForm.ofHead? head with
  | none =>
    have hparts := hpart (by rintro rfl; cases hhead) (by rintro rfl; cases hhead)
    exact ⟨hparts head (by simp), fun v hv => hparts v (by simp [hv])⟩
  | some form =>
    cases SpecialForm.ofHead?_eq_some hhead
    cases form with
    | quote => exact operands_quote hfree hdata
    | conditional =>
      have hparts := hpart (by simp [SpecialForm.keyword]) (by simp [SpecialForm.keyword])
      exact operands_conditional hfree fun v hv => hparts v (by simp [hv])
    | define =>
      have hparts := hpart (by simp [SpecialForm.keyword]) (by simp [SpecialForm.keyword])
      exact operands_define hfree fun x e he => hparts e (by simp [he])
    | lambda =>
      -- The body is not evaluated here: a closure keeps it together with this frame.
      refine operands_lambda hfree fun params body names hoperands hnames _ own => ?_
      subst hoperands
      exact ⟨⟨mark, params, hnames, he⟩, hdata body (by simp)⟩

variable (hread : ∀ w ∈ texts, ∃ x, w.datum? = some x)
include hread

theorem nested_parts {s : Store} {e : Value} {f : FrameId} (he : s.Fits texts e f) :
    (nested texts root first).Parts s f e := by
  have hplace := he
  obtain ⟨w, hw, d, hinside, -⟩ := hplace
  obtain ⟨x, hx⟩ := hread w hw
  obtain ⟨⟨y, hy⟩, -⟩ := hinside.of_datum? hx
  cases y with
  | number q =>
    cases Value.datum?_eq_number hy
    trivial
  | symbol name =>
    cases Value.datum?_eq_symbol hy
    exact fun _ => trivial
  | list ds =>
    obtain ⟨mark, items, rfl, hitems⟩ := Value.datum?_eq_list hy
    cases items with
    | nil => trivial
    | cons head operands =>
      refine nested_combination he fun v hv => ?_
      obtain ⟨z, -, hz⟩ := Value.exists_of_mem_data? hitems (List.mem_cons_of_mem head hv)
      exact Value.procedures_of_datum? hz

theorem nested_lawful : (nested texts root first).Lawful where
  expr_mono hext he := he.mono hext
  proc_mono hext hv := hv.mono hext
  inv_eq hframes hs := hs.mono (Store.Writes.of_frames_eq hframes) (congrArg Array.size hframes)
  inv_insert hs := hs.mono (Store.writes_insert trivial _) (by simp [Store.insert])
  ordinary _ := trivial
  parts he := nested_parts hread he
  enter {s _ names body f args} hs hc _ := by
    obtain ⟨⟨mark, params, -, hfits⟩, -⟩ := hc
    have hbody := hfits.entered names args
    exact ⟨hs.inv.entered hbody, hbody⟩

end Policy

/-! ## Lambda forms and their calls -/

theorem Machine.ends_lambda (m : Machine) (operands : List Value) (f : FrameId) (s : Store) :
    (m.lambda operands f).Ends s
      (fun v _ => ∃ own names params body, operands = [params, body] ∧ v = .closure own names body f)
      fun _ _ => True := by
  unfold lambda
  split
  · next params body =>
    split
    · cases params.describe m.depth <;> trivial
    · next names _ =>
      split
      · exact ⟨s.nextMark, names, params, body, rfl, rfl⟩
      · trivial
  · trivial

/-- A store whose root frame has no frame outside it, and in which no closure is held. -/
structure Store.Rooted (s : Store) (root : FrameId) : Prop where
  outer : ∃ fr, s.frames[root]? = some fr ∧ fr.outer = none
  unclosed : ∀ (g : FrameId) (fr : Frame) (b : Value × Value), s.frames[g]? = some fr →
    b ∈ fr.bindings → b.2.Procedures fun v => ∀ own names body f, v ≠ .closure own names body f

namespace Store.Rooted

variable {s s' : Store} {root : FrameId}

theorem length_chain (h : s.Rooted root) (hext : s.Extends s') : (s'.chain root).length = 1 := by
  obtain ⟨fr, hfr, houter⟩ := h.outer
  rw [hext.chain_eq (Array.getElem?_eq_some_iff.1 hfr).1, chain_of_root hfr houter]
  rfl

theorem holds (h : s.Rooted root) (texts : List Value) :
    (Policy.nested texts root s.frames.size).Holds s where
  inv g hg hnew := by
    rcases hnew with rfl | hnew
    · exact Or.inl (h.length_chain (refl_of Extends s))
    · exact absurd hg (Nat.not_lt_of_le hnew)
  bound g fr b hfr hb := by
    refine Value.Procedures.mono (fun v hv => ?_) b.2 (h.unclosed g fr b hfr hb)
    cases v with
    | closure own names body f => exact absurd rfl (hv own names body f)
    | _ => trivial

end Store.Rooted

namespace Interpreter

/-- A store that texts come through: that of a part of their course, or the last. -/
def Visits (root : FrameId) (ps : List (Nat × String)) (s₀ s : Store) : Prop :=
  (∃ k t, Performs root ps s₀ k t s) ∨ s = runAll root ps s₀

section Rooted

variable {root : FrameId} {s₀ s : Store} {ps : List (Nat × String)}

theorem nested_lawful_of_read : (Policy.nested (textsRead root ps s₀) root s₀.frames.size).Lawful :=
  Policy.nested_lawful fun w hw => by
    obtain ⟨x, hx, -⟩ := datum_of_mem_textsRead hw
    exact ⟨x, hx⟩

variable (hroot : s₀.Rooted root)
include hroot

theorem fits_turn {a : Turn} (ha : a ∈ turns root ps s₀) (s' : Store) (hext : s₀.Extends s') :
    s'.Fits (textsRead root ps s₀) a.expr root :=
  ⟨a.expr, List.mem_map_of_mem ha, 0, .here, hroot.length_chain hext⟩

theorem Performs.fits {k : Nat} {t : Task} (h : Performs root ps s₀ k t s) :
    (Policy.nested (textsRead root ps s₀) root s₀.frames.size).Holds s ∧
      t.Keeps (.nested (textsRead root ps s₀) root s₀.frames.size) s :=
  h.keeps nested_lawful_of_read (hroot.holds _) fun _ ha => fits_turn hroot ha

theorem Visits.fits (h : Visits root ps s₀ s) :
    (Policy.nested (textsRead root ps s₀) root s₀.frames.size).Holds s ∧
      s.Extends (runAll root ps s₀) := by
  rcases h with ⟨k, t, h⟩ | rfl
  · exact ⟨(h.fits hroot).1, h.extends⟩
  · have hend := turns_keep nested_lawful_of_read (hroot.holds (textsRead root ps s₀))
      fun _ ha => fits_turn hroot ha
    exact ⟨hend.2.2, refl_of Store.Extends _⟩

/-- A list that is evaluated has one place in what is read, and its frame fits it there. -/
theorem Performs.length_chain {k : Nat} {mark : Mark} {items : List Value} {f : FrameId}
    (h : Performs root ps s₀ k (.eval (.list mark items) f) s) :
    ∃ d, (∀ d', (∃ w ∈ textsRead root ps s₀, (Value.list mark items).Inside d' w) ↔ d' = d) ∧
      ((runAll root ps s₀).chain f).length = d + 1 := by
  obtain ⟨-, hkeeps⟩ := h.fits hroot
  have hfits : s.Fits (textsRead root ps s₀) (.list mark items) f := hkeeps
  obtain ⟨w, hw, d, hinside, hlen⟩ := hfits.mono h.extends
  refine ⟨d, fun d' => ⟨?_, ?_⟩, hlen⟩
  · rintro ⟨w', hw', hinside'⟩
    exact inside_unique hw' hw hinside' hinside
  · rintro rfl
    exact ⟨w, hw, hinside⟩

/-- The frame of a call is put inside the frame of the closure. -/
theorem Performs.chain_call {k : Nat} {own : Mark} {names : List String} {body : Value} {f g : FrameId}
    {args : List Value} {s' : Store} {e : Value}
    (h : Performs root ps s₀ (k + 1) (.call (.closure own names body f) args) s)
    (hstart : Task.Starts k (.call (.closure own names body f) args) s (.eval e g) s') :
    (runAll root ps s₀).chain g = g :: (runAll root ps s₀).chain f := by
  have hext' := (h.next hstart).extends
  obtain ⟨-, ⟨⟨mark, params, -, hfits⟩, -⟩, -⟩ := h.fits hroot
  have hf := hfits.lt_size
  rw [h.extends.chain_eq hf]
  cases hstart with
  | passes hpasses =>
    cases hpasses with
    | body hlen =>
      have hnew : s.frames.size < (Machine.entered s names args f).frames.size := by
        rw [Store.entered_frames, Array.size_push]
        exact Nat.lt_succ_self _
      rw [hext'.chain_eq hnew, Store.chain_entered hf]

theorem length_chain_le {n : Nat}
    (hn : ∀ p ∈ ps, ∀ ds, parseAll p.1 p.2 = (ds, none) → ∀ x ∈ ds, x.lambdas ≤ n)
    (hs : Visits root ps s₀ s) {g : FrameId} (hg : g < s.frames.size)
    (hnew : g = root ∨ s₀.frames.size ≤ g) : (s.chain g).length ≤ n + 1 := by
  rcases (hs.fits hroot).1.inv g hg hnew with hlen | ⟨e, w, hw, d, hinside, hlen⟩
  · rw [hlen]
    exact Nat.succ_le_succ (Nat.zero_le n)
  · obtain ⟨x, hx, p, hp, ds, hds, hmem⟩ := datum_of_mem_textsRead hw
    obtain ⟨-, hle⟩ := hinside.of_datum? hx
    rw [hlen]
    exact Nat.succ_le_succ (Nat.le_trans hle (hn p hp ds hds x hmem))

end Rooted

/-- A closure's frame has as many frames around it as its lambda form has lambda forms around it in
the text, and the frame of each of its calls has one more.  This holds of all closures that are bound
in the course of the texts, and the chains never change.  So no chain is longer than one frame more
than lambda forms stand inside one another. -/
theorem length_chain_eq_nesting {root : FrameId} {s₀ : Store} (hroot : s₀.Rooted root)
    (ps : List (Nat × String)) :
    (∀ k mark operands f s v s',
      Performs root ps s₀ k (.eval (.list mark (.symbol "lambda" :: operands)) f) s →
      evaluate k (.list mark (.symbol "lambda" :: operands)) f s = .ok v s' →
      ∃ own names params body d, operands = [params, body] ∧ v = .closure own names body f ∧
        (∀ d', (∃ w ∈ textsRead root ps s₀,
          (Value.list mark (.symbol "lambda" :: operands)).Inside d' w) ↔ d' = d) ∧
        ((runAll root ps s₀).chain f).length = d + 1 ∧
        ∀ k' args s₁ g s₂, Performs root ps s₀ (k' + 1) (.call v args) s₁ →
          Task.Starts k' (.call v args) s₁ (.eval body g) s₂ →
          ((runAll root ps s₀).chain g).length = d + 2) ∧
    (∀ s, Visits root ps s₀ s →
      (∀ (g : FrameId) (fr : Frame) (b : Value × Value), s.frames[g]? = some fr → b ∈ fr.bindings →
        b.2.Procedures (s.FitsClosure (textsRead root ps s₀))) ∧
      (∀ g < s.frames.size, (runAll root ps s₀).chain g = s.chain g) ∧
      ∀ n, (∀ p ∈ ps, ∀ ds, parseAll p.1 p.2 = (ds, none) → ∀ x ∈ ds, x.lambdas ≤ n) →
        ∀ g < s.frames.size, g = root ∨ s₀.frames.size ≤ g → (s.chain g).length ≤ n + 1) := by
  refine ⟨fun k mark operands f s v s' h hv => ?_, fun s hs => ⟨?_, fun g hg => ?_, ?_⟩⟩
  · obtain ⟨d, hplace, hlen⟩ := h.length_chain hroot
    cases k with
    | zero => cases hv
    | succ k =>
      have hmade := (Machine.level k).ends_lambda operands f s
      obtain ⟨own, names, params, body, hoperands, rfl⟩ := hmade.of_ok hv
      refine ⟨own, names, params, body, d, hoperands, rfl, hplace, hlen, ?_⟩
      intro k' args s₁ g s₂ hcall hstart
      rw [hcall.chain_call hroot hstart, List.length_cons, hlen]
  · exact (hs.fits hroot).1.bound
  · exact (hs.fits hroot).2.chain_eq hg
  · intro n hn g hg hnew
    exact length_chain_le hroot hn hs hg hnew

/-- One closure is called from the body of another that stands beside it in the text, so the frame of
the call has one frame around it and not two. -/
theorem length_chain_eq_nesting_beside :
    let s₀ : Store := { Store.empty with frames := #[⟨[], none⟩] }
    let ps := [(9, "((lambda (g) (g g)) (lambda (x) (lambda (y) x)))")]
    s₀.Rooted 0 ∧ ((runAll 0 ps s₀).chain 2).length = 2 ∧
      ∀ g < (runAll 0 ps s₀).frames.size, ((runAll 0 ps s₀).chain g).length ≤ 3 := by
  intro s₀ ps
  have hroot : s₀.Rooted 0 := by
    refine ⟨⟨_, rfl, rfl⟩, fun g fr b hfr hb => ?_⟩
    obtain rfl : g = 0 := Nat.lt_one_iff.1 (Array.getElem?_eq_some_iff.1 hfr).1
    cases hfr
    cases hb
  let x : Datum := .list [
    .list [.symbol "lambda", .list [.symbol "g"], .list [.symbol "g", .symbol "g"]],
    .list [.symbol "lambda", .list [.symbol "x"],
      .list [.symbol "lambda", .list [.symbol "y"], .symbol "x"]]]
  have hread : parseAll 9 "((lambda (g) (g g)) (lambda (x) (lambda (y) x)))" = ([x], none) := by
    with_unfolding_all rfl
  have hturn : (⟨9, x, s₀⟩ : Turn) ∈ turns 0 ps s₀ := by
    have hfirst : (⟨9, x, s₀⟩ : Turn) ∈ turnsOf 9 0 [x] s₀ := mem_turnsOf_cons.2 (Or.inl rfl)
    exact List.mem_append_left _ (mem_turnsIn.2 ⟨[x], hread, hfirst⟩)
  let inner : Value := .list 6 [.symbol "lambda", .list 7 [.symbol "y"], .symbol "x"]
  let first : Value := .closure 8 ["g"] (.list 3 [.symbol "g", .symbol "g"]) 0
  let second : Value := .closure 9 ["x"] inner 0
  let s₁ : Store := s₀.spend 10
  let s₂ := Machine.entered s₁ ["g"] [second] 0
  let s₃ := Machine.entered s₂ ["x"] [second] 0
  have hperforms : Performs 0 ps s₀ 5 (.eval inner 2) s₃ := by
    have hfirst : Task.Starts 8 (.eval (x.intern 0).1 0) (s₀.spend x.marks) (.call first [second])
        s₁ := .passes (.application rfl rfl)
    have hbody : Task.Starts 7 (.call first [second]) s₁
        (.eval (.list 3 [.symbol "g", .symbol "g"]) 1) s₂ := .passes (.body rfl)
    have hsecond : Task.Starts 6 (.eval (.list 3 [.symbol "g", .symbol "g"]) 1) s₂
        (.call second [second]) s₂ := .passes (.application rfl (by with_unfolding_all rfl))
    have hinner : Task.Starts 5 (.call second [second]) s₂ (.eval inner 2) s₃ := .passes (.body rfl)
    exact ⟨_, hturn, .step hfirst (.step hbody (.step hsecond (.step hinner .refl)))⟩
  have hinside : inner.Inside 1 (x.intern 0).1 :=
    .item (by simp) (by simp) (.tail _ (.head _)) (.body (.head _) .here)
  obtain ⟨hlambda, hvisits⟩ := length_chain_eq_nesting hroot ps
  obtain ⟨own, names, params, body, d, -, -, hplace, hlen, -⟩ :=
    hlambda 5 6 _ 2 s₃ _ _ hperforms rfl
  obtain rfl : 1 = d := (hplace 1).1 ⟨_, List.mem_map_of_mem hturn, hinside⟩
  have hnesting : ∀ p ∈ ps, ∀ ds, parseAll p.1 p.2 = (ds, none) → ∀ y ∈ ds, y.lambdas ≤ 2 := by
    intro p hp ds hds y hy
    obtain rfl := List.mem_singleton.1 hp
    rw [hread] at hds
    cases hds
    obtain rfl := List.mem_singleton.1 hy
    decide
  refine ⟨hroot, hlen, fun g hg => ?_⟩
  exact (hvisits _ (Or.inr rfl)).2.2 2 hnesting g hg (Nat.eq_zero_or_pos g)

end Interpreter

end SmallLisp
