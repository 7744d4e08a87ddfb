import SmallLisp.Proofs.Limits
import SmallLisp.Proofs.Transparency

/-!
A program inside `begin` is the program.

`begin` is a procedure like any other: its operands are evaluated from left to right in the frame of
the call, and it returns the last of them.  So a program that stands as its operands has the same end
and the same effects as the program alone, also if it binds `begin` to something else on the way
(`Interpreter.eval_begin`).

What differs is the order in which marks are given out.  Inside `begin` all lists of the text are
marked before anything is evaluated; alone, those of each expression only when its turn comes.  The
renaming between the two runs is built along the run of the program (`Interpreter.exists_spread`), from
one expression to the next (`Renaming.interleave`).
-/

namespace SmallLisp

open Eval (Alike)

/-! ## Texts inside `begin` -/

theorem Token.tokenize_begin (p : String) :
    tokenize ("(begin " ++ p ++ ")") = opening :: (("begin" :: tokenize p) ++ [closing]) := by
  have hchars : ("(begin " ++ p ++ ")").toList =
      '(' :: ("begin".toList ++ ' ' :: (p.toList ++ [')'])) := by simp
  have hplain : "begin".toList.all isPlain = true := by decide
  have hword : Word "begin".toList := ⟨by decide, List.all_eq_true.1 hplain⟩
  have hboundary : Boundary (' ' :: (p.toList ++ [')'])) := by
    intro c rest h
    cases h
    exact Or.inl rfl
  rw [tokenize_eq, hchars, ofChars_parenthesis (Or.inl rfl), ofChars_word hword hboundary,
    ofChars_blank, ofChars_append_parenthesis (Or.inr rfl), tokenize_eq]
  simp [opening_eq, closing_eq]

/-- A text that reads, inside `begin`, is one list, or is nested too deeply. -/
theorem parseAll_begin {limit : Nat} {p : String} {ds : List Datum}
    (hread : parseAll limit p = (ds, none)) :
    (parseAll limit ("(begin " ++ p ++ ")")).2 = some .tooDeep ∨
      parseAll limit ("(begin " ++ p ++ ")") = ([.list (.symbol "begin" :: ds)], none) := by
  obtain ⟨hall, -⟩ := parseAll_eq_iff.1 hread
  have hbegin : Grammar.Derives ["begin"] (.symbol "begin") :=
    @Grammar.Derives.atom "begin" (by decide) (by decide)
  have hlist := Grammar.Derives.list (.cons hbegin hall)
  -- with a limit that is large enough it reads as the list
  obtain ⟨limit', hle, hlimit'⟩ : ∃ limit', limit ≤ limit' ∧
      Datum.nestingAll [.list (.symbol "begin" :: ds)] ≤ limit' :=
    ⟨_, Nat.le_max_left _ _, Nat.le_max_right _ _⟩
  have hdeep : parseAll limit' ("(begin " ++ p ++ ")") =
      ([.list (.symbol "begin" :: ds)], none) := by
    rw [parseAll_eq_iff, Token.tokenize_begin]
    exact ⟨hlist.single, hlimit'⟩
  exact (parseAll_upto hle _).imp id fun hsame => hsame.symm.trans hdeep

/-! ## Marks given out in another order -/

namespace Renaming

/-- The first `m` numbers go to `c` and on, the next `l` to `b` and on, the others where `g` takes
them. -/
def interleave (c m b l : Nat) (g : Nat → Nat) (i : Nat) : Nat :=
  if i < m then c + i else if i < m + l then b + (i - m) else g (i - (m + l))

/-- Numbers go to different places, which are among the `k` from `c` on, or from `b` on. -/
structure Spread (c k b : Nat) (g : Nat → Nat) : Prop where
  injective : Function.Injective g
  range : ∀ i, c ≤ g i ∧ g i < c + k ∨ b ≤ g i

theorem spread_add (c k b : Nat) : Spread c k b (b + ·) :=
  ⟨fun _ _ => Nat.add_left_cancel, fun i => Or.inr (Nat.le_add_right b i)⟩

theorem interleave_fst {c m b l : Nat} {g : Nat → Nat} {i : Nat} (hi : i < m) :
    interleave c m b l g i = c + i := if_pos hi

theorem interleave_snd {c m b l : Nat} {g : Nat → Nat} {i : Nat} (hi : i < l) :
    interleave c m b l g (m + i) = b + i := by
  unfold interleave
  rw [if_neg (by omega), if_pos (by omega), Nat.add_sub_cancel_left]

theorem interleave_rest (c m b l : Nat) (g : Nat → Nat) (i : Nat) :
    interleave c m b l g (m + l + i) = g i := by
  unfold interleave
  rw [if_neg (by omega), if_neg (by omega), Nat.add_sub_cancel_left]

theorem Spread.interleave {c m k b l : Nat} {g : Nat → Nat} (h : Spread (c + m) k (b + l) g)
    (hle : c + (m + k) ≤ b) : Spread c (m + k) b (interleave c m b l g) := by
  refine ⟨fun i j hij => ?_, fun i => ?_⟩
  · have hi := h.range (i - (m + l))
    have hj := h.range (j - (m + l))
    have hrest : g (i - (m + l)) = g (j - (m + l)) → i - (m + l) = j - (m + l) :=
      fun heq => h.injective heq
    unfold Renaming.interleave at hij
    split at hij <;> split at hij <;> (try split at hij) <;> (try split at hij) <;> omega
  · have hi := h.range (i - (m + l))
    unfold Renaming.interleave
    split
    · omega
    · split <;> omega

/-- Numbers from `n` on go where `g` takes them. -/
def spreadFrom (n : Nat) (g : Nat → Nat) (i : Nat) : Nat := if i < n then i else g (i - n)

theorem Spread.injective_from {n k b : Nat} {g : Nat → Nat} (h : Spread (n + 1) k b g) (hb : n < b) :
    Function.Injective (spreadFrom n g) := by
  intro i j hij
  have hi := h.range (i - n)
  have hj := h.range (j - n)
  have hrest : g (i - n) = g (j - n) → i - n = j - n := fun heq => h.injective heq
  unfold spreadFrom at hij
  split at hij <;> split at hij <;> omega

/-- Marks from `n` on go where `g` takes them, and frames keep their numbers. -/
def spread {n k b : Nat} {g : Nat → Nat} (h : Spread (n + 1) k b g) (hb : n < b) : Renaming :=
  ⟨id, spreadFrom n g, strictMono_id, h.injective_from hb⟩

end Renaming

/-! ## Stores in step -/

namespace Store

/-- The same store with marks renamed, but for the next mark. -/
structure Renamed (r : Renaming) (s t : Store) : Prop where
  frames : t.frames = s.frames.map (Frame.rename r)
  output : t.output = s.output
  recorded : t.recorded = s.recorded
  notices : t.notices = s.notices

/-- Stores of two runs that are shifted, show, record and note the same, and make as many frames and
marks: `m` and `n` are where their marks began. -/
structure InStep (r : Renaming) (F M m n : Nat) (s t : Store) : Prop extends
    Shifted r F M "" "" s t where
  size_eq : t.frames.size = s.frames.size
  marks_eq : m + t.nextMark = n + s.nextMark
  recorded : t.recorded = s.recorded
  notices : t.notices = s.notices

def inStep (r : Renaming) (F M m n : Nat) : Mirror r where
  Rel s t := s.InStep r F M m n t
  Lost := (shifted r F M "" "").Lost

theorem inStep_lawful (r : Renaming) (F M m n : Nat) :
    (inStep r F M m n).Lawful Policy.any := by
  have hlaw := shifted_lawful r F M "" ""
  refine ⟨hlaw.lost, fun {s t} h notice => ?_, fun {s t} h text => ?_, fun {s t} h text => ?_,
    fun {s t} h k => ?_, fun {s t} h fr => ?_, fun {s t} h f x v => ?_,
    fun hs he h => hlaw.lookup hs he h.toShifted, fun hs hv h => hlaw.shown hs hv h.toShifted⟩
  · exact ⟨hlaw.note h.toShifted notice, h.size_eq, h.marks_eq, h.recorded,
      congrArg (·.push notice) h.notices⟩
  · exact ⟨hlaw.display h.toShifted text, h.size_eq, h.marks_eq, h.recorded, h.notices⟩
  · exact ⟨hlaw.record h.toShifted text, h.size_eq, h.marks_eq, congrArg (·.push text) h.recorded,
      h.notices⟩
  · refine (hlaw.spend h.toShifted k).imp id fun ⟨hrel, hmarks⟩ => ⟨⟨hrel, h.size_eq, ?_, h.recorded,
      h.notices⟩, hmarks⟩
    have heq := h.marks_eq
    show m + (t.nextMark + k) = n + (s.nextMark + k)
    omega
  · refine (hlaw.addFrame h.toShifted fr).imp id fun ⟨hrel, hframe⟩ => ⟨⟨hrel, ?_, h.marks_eq,
      h.recorded, h.notices⟩, hframe⟩
    show (t.frames.push (fr.rename r)).size = (s.frames.push fr).size
    rw [Array.size_push, Array.size_push, h.size_eq]
  · refine ⟨hlaw.insert h.toShifted f x v, ?_, h.marks_eq, h.recorded, h.notices⟩
    show (t.frames.modify (r.frame f) _).size = (s.frames.modify f _).size
    rw [Array.size_modify, Array.size_modify, h.size_eq]

theorem Settled.renamed {s : Store} (hs : s.Settled) {r : Renaming} (hr : r.Fixes s) (k : Nat) :
    s.Renamed r (s.spend k) := by
  refine ⟨Array.ext_getElem? fun g => ?_, rfl, rfl, rfl⟩
  rw [Array.getElem?_map, hs.map_rename hr]
  rfl

section Frames

variable {r : Renaming} {s t : Store} (hframe : r.frame = id)
include hframe

theorem Renamed.inStep (h : s.Renamed r t) {F M : Nat} (hF : s.frames.size ≤ F)
    (hM : s.nextMark ≤ M)
    (hmarks : ∀ i, s.nextMark + i < M → r.mark (s.nextMark + i) = t.nextMark + i) :
    s.InStep r F M s.nextMark t.nextMark t := by
  have hsize : t.frames.size = s.frames.size := by rw [h.frames, Array.size_map]
  refine ⟨⟨fun g => ?_, fun i _ => ?_, hmarks, hF, hM, s.output, String.empty_append.symm, ?_⟩, hsize,
    Nat.add_comm _ _, h.recorded, h.notices⟩
  · rw [hframe, h.frames]
    exact Array.getElem?_map
  · rw [hframe, hsize]
    rfl
  · rw [h.output, String.empty_append]

theorem InStep.renamed {F M m n : Nat} (h : s.InStep r F M m n t) : s.Renamed r t := by
  refine ⟨Array.ext_getElem? fun g => ?_, ?_, h.recorded, h.notices⟩
  · rw [Array.getElem?_map, ← h.frames g, hframe]
    rfl
  · obtain ⟨shown, hs, ht⟩ := h.output
    rw [hs, ht]

/-- An expression evaluated in either run, where the marks that it takes are renamed in order. -/
theorem Renamed.evaluate (h : s.Renamed r t) (d : Nat) (e : Value) (f : FrameId)
    (hmarks : ∀ i, s.nextMark + i < ((evaluate d e f).after s).nextMark →
      r.mark (s.nextMark + i) = t.nextMark + i) :
    Alike (fun s' t' => s'.Renamed r t' ∧ s.nextMark + t'.nextMark = t.nextMark + s'.nextMark)
      ((Value.rename r <$> SmallLisp.evaluate d e f) s)
      (SmallLisp.evaluate d (e.rename r) f t) := by
  have hlater := (Eval.Adds.later (x := SmallLisp.evaluate d e f)) s
  have hstep := h.inStep hframe hlater.frames hlater.marks hmarks
  have hfollows := (inStep_lawful r _ _ s.nextMark t.nextMark).evaluate Policy.any_lawful d
    (e := e) (f := f) (s := s) trivial (Policy.any_holds s) t hstep
  rw [hframe] at hfollows
  refine (hfollows.resolve_left fun hlost => ?_).mono fun s' t' h' => ⟨h'.renamed hframe, h'.marks_eq⟩
  rcases hlost with hlost | hlost
  · exact Nat.lt_irrefl _ hlost
  · exact Nat.lt_irrefl _ hlost

end Frames

end Store

/-! ## One expression after another -/

theorem Eval.map_of_eq {α β : Type} {g : α → β} {x y : Eval α} {s t : Store} (h : x s = y t) :
    (g <$> x) s = (g <$> y) t := by
  show EStateM.map g x s = EStateM.map g y t
  rw [EStateM.map, EStateM.map, h]

namespace Interpreter

open Renaming (interleave interleave_fst interleave_snd interleave_rest Spread spread_add)
open Store

variable {limit : Nat} {root : FrameId}

/-- An expression that is marked when its turn comes, and one that was marked before.  Of the marks
from then on, the first are those of the expression and the next those that evaluating it takes. -/
theorem alike_datum {r : Renaming} (hframe : r.frame = id) {s t : Store} (h : s.Renamed r t) {d : Datum}
    {c l : Nat} {g : Nat → Nat}
    (hl : ((evaluate limit (d.intern s.nextMark).1 root).after (s.spend d.marks)).nextMark ≤
      s.nextMark + d.marks + l)
    (hmarks : ∀ i, r.mark (s.nextMark + i) = interleave c d.marks t.nextMark l g i) :
    Alike (fun s' t' => s'.Renamed r t' ∧
        (s.spend d.marks).nextMark + t'.nextMark = t.nextMark + s'.nextMark)
      ((Value.rename r <$> evaluate limit (d.intern s.nextMark).1 root) (s.spend d.marks))
      (evaluate limit (d.intern c).1 root t) := by
  have hdatum : (d.intern s.nextMark).1.rename r = (d.intern c).1 :=
    d.intern_rename r _ _ fun i hi => (hmarks i).trans (interleave_fst hi)
  have hspent : (s.spend d.marks).Renamed r t := ⟨h.frames, h.output, h.recorded, h.notices⟩
  have halike := hspent.evaluate hframe limit (d.intern s.nextMark).1 root fun i hi => by
    have hi : i < l := Nat.lt_of_add_lt_add_left (Nat.lt_of_lt_of_le hi hl)
    show r.mark (s.nextMark + d.marks + i) = t.nextMark + i
    rw [Nat.add_assoc, hmarks, interleave_snd hi]
  rwa [hdatum] at halike

/-- The last of the values, or `last` if there is none. -/
def lastOr (last : Value) (vs : List Value) : Value := vs.getLast?.getD last

/-- The last value of all is the last of the others, or the first. -/
theorem lastOr_evalAll_cons {m : Machine} {e v : Value} {s s' : Store} (h : m.eval e root s = .ok v s')
    (last : Value) (es : List Value) :
    (lastOr last <$> m.evalAll root (e :: es)) s = (lastOr v <$> m.evalAll root es) s' := by
  have hrun : m.evalAll root (e :: es) s = (do return v :: (← m.evalAll root es)) s' := Eval.bind_ok h
  rw [Eval.map_of_eq hrun]
  simp only [map_bind, map_pure, lastOr, List.getLast?_cons, Option.getD_some]
  rfl

/-- Data that are marked and evaluated in turn, and the values that they are when all of them are
marked beforehand, from `c` on. -/
theorem exists_spread (limit : Nat) (root : FrameId) (ds : List Datum) (s : Store) {c b : Nat}
    (hb : c + Datum.marksAll ds ≤ b) :
    ∃ g, Spread c (Datum.marksAll ds) b g ∧
      ∀ (r : Renaming) (t : Store) (last : Value), r.frame = id → s.Renamed r t → t.nextMark = b →
        (∀ i, r.mark (s.nextMark + i) = g i) →
        Alike (Store.Renamed r) ((Value.rename r <$> evalData limit root last ds) s)
          ((lastOr (last.rename r) <$>
            (Machine.level limit).evalAll root (Datum.internAll c ds).1) t) := by
  induction ds generalizing s c b with
  | nil => exact ⟨(b + ·), spread_add c _ b, fun r t last _ h _ _ => .ok h⟩
  | cons d ds ih =>
    have hb : c + (d.marks + Datum.marksAll ds) ≤ b := hb
    rw [Datum.internAll_cons]
    obtain ⟨l, hl⟩ := Nat.exists_eq_add_of_le
      ((Eval.Adds.later (x := evaluate limit (d.intern s.nextMark).1 root)) (s.spend d.marks)).marks
    cases heval : evaluate limit (d.intern s.nextMark).1 root (s.spend d.marks) with
    | error fault s' =>
      refine ⟨interleave c d.marks b l (b + l + ·), (spread_add _ _ _).interleave hb, ?_⟩
      rintro r t last hframe h rfl hmarks
      have halike := alike_datum hframe h (Nat.le_of_eq hl) hmarks
      rw [Eval.map_error heval] at halike
      generalize hend : evaluate limit (d.intern c).1 root t = result at halike
      cases halike with
      | error hrel =>
        have hall : (Machine.level limit).evalAll root
            ((d.intern c).1 :: (Datum.internAll (c + d.marks) ds).1) t = .error fault _ :=
          Eval.bind_error hend
        rw [Eval.map_of_eq (evalData_cons limit root last d ds s),
          Eval.map_error (Eval.bind_error heval), Eval.map_error hall]
        exact .error hrel.1
    | ok v s' =>
      rw [Eval.after_ok heval] at hl
      obtain ⟨g, hg, hrest⟩ := ih s' (c := c + d.marks) (b := b + l) (by omega)
      refine ⟨interleave c d.marks b l g, hg.interleave hb, ?_⟩
      rintro r t last hframe h rfl hmarks
      have halike := alike_datum hframe h
        (by rw [Eval.after_ok heval]; exact Nat.le_of_eq hl) hmarks
      rw [Eval.map_ok heval] at halike
      generalize hend : evaluate limit (d.intern c).1 root t = result at halike
      cases halike with
      | @ok _ _ t' hrel =>
        obtain ⟨hrenamed, hlag⟩ := hrel
        rw [hl] at hlag
        have hnext : t'.nextMark = t.nextMark + l :=
          Nat.add_left_cancel (hlag.trans (Nat.add_left_comm _ _ _))
        have htail := hrest r t' v hframe hrenamed hnext fun i => by
          have hi : s'.nextMark + i = s.nextMark + (d.marks + l + i) := by
            rw [hl]
            show s.nextMark + d.marks + l + i = _
            simp only [Nat.add_assoc]
          rw [hi, hmarks, interleave_rest]
        have hrun := (evalData_cons limit root last d ds s).trans (Eval.bind_ok heval)
        rw [Eval.map_of_eq hrun, lastOr_evalAll_cons hend]
        exact htail

/-! ## Expressions inside `begin` -/

/-- With nothing left for what it consists of, the form exhausts the depth. -/
theorem evaluate_begin_depth {d : Nat} (hd : d < 2) (mark : Mark) (es : List Value) (t : Store) :
    evaluate d (.list mark (.symbol "begin" :: es)) root t = .error .depth t := by
  match d, hd with
  | 0, _ => rfl
  | 1, _ => rfl

/-- Where the name is bound to the builtin, the form gives the last of what it evaluates. -/
theorem evaluate_begin (d : Nat) {t : Store} {own : Mark}
    (hbegin : t.get? root (.symbol "begin") = some (.primitive own (.operation .begin)))
    (mark : Mark) (es : List Value) :
    evaluate (d + 2) (.list mark (.symbol "begin" :: es)) root t =
      (lastOr .unspecified <$> (Machine.level (d + 1)).evalAll root es) t := by
  have hlookup : evaluate (d + 1) (.symbol "begin") root t =
      .ok (.primitive own (.operation .begin)) t := by
    show Eval.lookup d root (.symbol "begin") t = _
    rw [Eval.lookup_symbol, lookup?_of_get? hbegin]
  have hcall : ∀ args, call (d + 1) (.primitive own (.operation .begin)) args =
      pure (lastOr .unspecified args) := fun _ => rfl
  have hform : evaluate (d + 2) (.list mark (.symbol "begin" :: es)) root t =
      ((Machine.level (d + 1)).evalAll root es >>= fun args =>
        call (d + 1) (.primitive own (.operation .begin)) args) t :=
    Eval.bind_ok hlookup
  rw [hform]
  simp only [hcall, bind_pure_comp]

theorem evalData_begin (last : Value) (ds : List Datum) (s : Store) :
    evalData limit root last [.list (.symbol "begin" :: ds)] s =
      evaluate limit (.list s.nextMark (.symbol "begin" :: (Datum.internAll (s.nextMark + 1) ds).1))
        root (s.spend (1 + Datum.marksAll ds)) := by
  have hmarks : (Datum.list (.symbol "begin" :: ds)).marks = 1 + Datum.marksAll ds := by
    simp only [Datum.marks, Datum.marksAll]
    omega
  have hlist : ((Datum.list (.symbol "begin" :: ds)).intern s.nextMark).1 =
      .list s.nextMark (.symbol "begin" :: (Datum.internAll (s.nextMark + 1) ds).1) := by
    simp only [Datum.intern, Datum.internAll]
  have hnil : ∀ v, evalData limit root v [] = pure v := fun _ => rfl
  rw [evalData_cons, hlist, hmarks]
  simp only [hnil, bind_pure]

/-- Data evaluated in turn, and inside `begin`, which takes one more level. -/
theorem exists_alike_begin (d : Nat) {s : Store} (hs : s.Settled) {own : Mark}
    (hbegin : s.get? root (.symbol "begin") = some (.primitive own (.operation .begin)))
    (ds : List Datum) :
    ∃ r : Renaming, r.Fixes s ∧ r.frame = id ∧
      Alike (Store.Renamed r) ((Value.rename r <$> evalData (d + 1) root .unspecified ds) s)
        (evalData (d + 2) root .unspecified [.list (.symbol "begin" :: ds)] s) := by
  obtain ⟨g, hg, halike⟩ := exists_spread (d + 1) root ds s
    (Nat.le_refl (s.nextMark + 1 + Datum.marksAll ds))
  have hpast : s.nextMark < s.nextMark + 1 + Datum.marksAll ds :=
    Nat.lt_of_lt_of_le (Nat.lt_succ_self _) (Nat.le_add_right _ _)
  have hfixes : (Renaming.spread hg hpast).Fixes s := ⟨fun _ _ => rfl, fun _ hm => if_pos hm⟩
  have hmarks : ∀ i, (Renaming.spread hg hpast).mark (s.nextMark + i) = g i := by
    intro i
    show Renaming.spreadFrom s.nextMark g (s.nextMark + i) = g i
    rw [Renaming.spreadFrom, if_neg (Nat.not_lt_of_le (Nat.le_add_right _ _)),
      Nat.add_sub_cancel_left]
  have hform := evaluate_begin d (t := s.spend (1 + Datum.marksAll ds)) hbegin s.nextMark
    (Datum.internAll (s.nextMark + 1) ds).1
  refine ⟨Renaming.spread hg hpast, hfixes, rfl, ?_⟩
  rw [evalData_begin, hform]
  exact halike _ _ .unspecified rfl (hs.renamed hfixes _) (Nat.add_assoc _ _ _).symm hmarks

/-- Depth that is not exhausted in the second of two runs is not exhausted in the first. -/
theorem alike_reportExhaustion {R : Store → Store → Prop} {α : Type} {x y : Eval α} {s t : Store}
    (h : Alike R (x s) (y t)) (p q : String)
    (henough : (reportExhaustion q y).fault? t ≠ some (.error .exhausted)) :
    Alike R (reportExhaustion p x s) (reportExhaustion q y t) := by
  unfold Eval.fault? at henough
  unfold reportExhaustion at henough ⊢
  generalize x s = end₁, y t = end₂ at h henough
  cases h with
  | ok hrel => exact .ok hrel
  | @error fault _ _ hrel =>
    cases fault with
    | depth => exact absurd rfl henough
    | error e => exact .error hrel
    | integerText => exact .error hrel

/-- A program inside `begin`, in a state whose root frame binds the name to the builtin, comes to the
same end as the program alone, if the limit is enough: the same value or the same fault, up to a
renaming of the marks given out on the way, the same frames with the same bindings, and the same
output.  Nothing inside `begin` is unspecified. -/
theorem eval_begin {limit : Nat} {root : FrameId} {s : Store} (hs : s.Settled) {own : Mark}
    (hbegin : s.get? root (.symbol "begin") = some (.primitive own (.operation .begin)))
    {p : String} {ds : List Datum} (hread : parseAll limit p = (ds, none))
    (henough : ¬ Exhausts limit root ("(begin " ++ p ++ ")") s) :
    (∃ r : Renaming, r.Fixes s ∧ r.frame = id ∧
      Alike (Store.Renamed r) ((Value.rename r <$> eval limit root p) s)
        (eval limit root ("(begin " ++ p ++ ")") s)) ∧
      (ds = [] → ∃ s', eval limit root ("(begin " ++ p ++ ")") s = .ok .unspecified s') := by
  have hwrapped : parseAll limit ("(begin " ++ p ++ ")") =
      ([.list (.symbol "begin" :: ds)], none) := by
    refine (parseAll_begin hread).resolve_left fun hdeep => henough (Or.inl ?_)
    exact Eval.fault?_error (eval_of_not_reads (Prod.ext rfl hdeep) root s)
  have hruns := eval_of_reads hwrapped root
  have hexhausted : (reportExhaustion ("(begin " ++ p ++ ")") (evalData limit root .unspecified
      [.list (.symbol "begin" :: ds)])).fault? s ≠ some (.error .exhausted) := by
    rw [← hruns]
    exact fun h => henough (Or.inr h)
  -- the form takes two levels more than nothing, and its operands one less than the form
  obtain ⟨d, rfl⟩ : ∃ d, limit = d + 2 := by
    refine ⟨limit - 2, (Nat.sub_add_cancel (Nat.le_of_not_lt fun hlt => hexhausted ?_)).symm⟩
    apply Eval.fault?_error
    rw [reportExhaustion, evalData_begin, evaluate_begin_depth hlt]
  obtain ⟨r, hfixes, hframe, halike⟩ := exists_alike_begin d hs hbegin ds
  have hsame : evalData (d + 2) root .unspecified ds s = evalData (d + 1) root .unspecified ds s := by
    refine (evalData_upto (Nat.le_succ (d + 1)) .unspecified ds s).resolve_left ?_
    rintro ⟨s', hdepth⟩
    rw [Eval.map_error hdepth] at halike
    generalize hend : evalData (d + 2) root .unspecified _ s = result at halike
    cases halike with
    | error _ =>
      apply hexhausted
      apply Eval.fault?_error
      rw [reportExhaustion, hend]
  rw [← Eval.map_of_eq hsame] at halike
  have hends := alike_reportExhaustion halike p ("(begin " ++ p ++ ")") hexhausted
  rw [← map_reportExhaustion, ← eval_of_reads hread, ← hruns] at hends
  refine ⟨⟨r, hfixes, hframe, hends⟩, ?_⟩
  rintro rfl
  have halone : eval (d + 2) root p s = .ok .unspecified s := by
    rw [eval_of_reads hread]
    rfl
  rw [Eval.map_ok halone] at hends
  generalize eval (d + 2) root ("(begin " ++ p ++ ")") s = result at hends ⊢
  cases hends with
  | @ok _ _ s' _ => exact ⟨s', rfl⟩

/-- A program that binds `begin` to another procedure, calls that, shows the frame and fails. -/
theorem eval_begin_rebound :
    let s : Store := { Store.empty with
      frames := #[⟨[(.symbol "begin", .primitive 0 (.operation .begin)),
        (.symbol "list", .primitive 1 (.operation .list)),
        (.symbol "env?", .primitive 2 (.showFrames 0))], none⟩], nextMark := 3 }
    let p := "(define begin list) (define y (begin 1 (begin 2))) (y (env?))"
    (eval 9 0 ("(begin " ++ p ++ ")")).fault? s =
        some (.error (.type (.notProcedure "[1.0, [2.0]]"))) ∧
      ((eval 9 0 ("(begin " ++ p ++ ")")).after s).output ≠ "" ∧
      ∃ r : Renaming, r.Fixes s ∧ r.frame = id ∧
        Alike (Store.Renamed r) ((Value.rename r <$> eval 9 0 p) s)
          (eval 9 0 ("(begin " ++ p ++ ")") s) := by
  intro s p
  have hfault : (eval 9 0 ("(begin " ++ p ++ ")")).fault? s =
      some (.error (.type (.notProcedure "[1.0, [2.0]]"))) := by
    decide +kernel
  have henough : ¬ Exhausts 9 0 ("(begin " ++ p ++ ")") s := by
    unfold Exhausts
    rw [hfault]
    decide
  have hreads : (parseAll 9 p).2 = none := by decide +kernel
  have hsettled : s.Settled := by
    intro r hr g fr hfr
    have hframe : r.frame 0 = 0 := hr.frame_eq 0 (by decide)
    have hmark : ∀ m < 3, r.mark m = m := hr.mark_eq
    obtain rfl : g = 0 := Nat.lt_one_iff.1 (Array.getElem?_eq_some_iff.1 hfr).1
    obtain rfl : fr = ⟨[(.symbol "begin", .primitive 0 (.operation .begin)),
        (.symbol "list", .primitive 1 (.operation .list)),
        (.symbol "env?", .primitive 2 (.showFrames 0))], none⟩ := (Option.some.inj hfr).symm
    simp [Frame.rename, Frame.renameBindings, Value.rename, Builtin.rename, hframe, hmark]
  exact ⟨hfault, by decide +kernel,
    (eval_begin hsettled rfl (Prod.ext rfl hreads) henough).1⟩

end Interpreter

end SmallLisp
