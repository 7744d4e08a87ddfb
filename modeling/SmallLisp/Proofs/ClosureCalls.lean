import SmallLisp.Proofs.Nesting

/-!
Calls of closures bind by position.

The parameters of a closure are distinct: that is checked where closures are made, and all that is held
later was made there (`Policy.callable`).  So the frame of a call holds the parameters with the
arguments, pair by pair, and nothing else (`Frame.foldl_bind_of_nodup`).  A call with another number of
arguments fails before anything is evaluated.  `Store.Positional` says both of one closure, and
`Interpreter.closures_positional` says it of all closures in the course of programs.
-/

namespace SmallLisp

/-! ## The frame of a call -/

namespace Frame

theorem bind_of_not_mem {x : String} {bs : List (Value × Value)} (hx : ∀ b ∈ bs, b.1 ≠ .symbol x)
    (v : Value) : bind (.symbol x) v bs = bs ++ [(.symbol x, v)] := by
  induction bs with
  | nil => rfl
  | cons b bs ih =>
    obtain ⟨hb, hbs⟩ := List.forall_mem_cons.1 hx
    have hsame : ¬ b.1.same (.symbol x) = true := fun h => hb ((Value.same_symbol b.1 x).1 h)
    rw [bind, if_neg hsame, ih hbs]
    rfl

/-- Distinct names are bound in order. -/
theorem foldl_bind_of_nodup {params : List String} (hparams : params.Nodup) (args : List Value)
    {bs : List (Value × Value)} (hbs : ∀ x ∈ params, ∀ b ∈ bs, b.1 ≠ .symbol x) :
    ((params.map Value.symbol).zip args).foldl (fun bs b => bind b.1 b.2 bs) bs =
      bs ++ (params.map Value.symbol).zip args := by
  induction params generalizing args bs with
  | nil => simp
  | cons x params ih =>
    cases args with
    | nil => simp
    | cons v args =>
      obtain ⟨hx, hparams⟩ := List.nodup_cons.1 hparams
      obtain ⟨hfresh, hbs⟩ := List.forall_mem_cons.1 hbs
      rw [List.map_cons, List.zip_cons_cons, List.foldl_cons, bind_of_not_mem hfresh, ih hparams]
      · simp
      · intro y hy b hb
        rcases List.mem_append.1 hb with hb | hb
        · exact hbs y hy b hb
        · rw [List.mem_singleton.1 hb]
          rintro heq
          cases heq
          exact hx hy

theorem find?_zip_param {params : List String} (hparams : params.Nodup) {args : List Value} {i : Nat}
    {x : String} {v : Value} (hx : params[i]? = some x) (hv : args[i]? = some v) :
    ((params.map Value.symbol).zip args).find? (fun b => b.1.same (.symbol x)) =
      some (.symbol x, v) := by
  induction params generalizing args i with
  | nil => cases hx
  | cons y params ih =>
    obtain ⟨hy, hparams⟩ := List.nodup_cons.1 hparams
    cases args with
    | nil => cases hv
    | cons w args =>
      rw [List.map_cons, List.zip_cons_cons, List.find?_cons]
      cases i with
      | zero =>
        cases hx
        cases hv
        rw [(Value.same_symbol _ x).2 rfl]
      | succ i =>
        have hne : (Value.symbol y).same (.symbol x) = false := by
          rw [Bool.eq_false_iff, ne_eq, Value.same_symbol]
          rintro heq
          cases heq
          exact hy (List.mem_of_getElem? hx)
        rw [hne]
        exact ih hparams hx hv

theorem find?_zip_of_not_mem {params : List String} (args : List Value) {x : String}
    (hx : x ∉ params) :
    ((params.map Value.symbol).zip args).find? (fun b => b.1.same (.symbol x)) = none := by
  rw [List.find?_eq_none]
  intro b hb hsame
  obtain ⟨y, hy, heq⟩ := List.mem_map.1 (List.of_mem_zip hb).1
  rw [(Value.same_symbol b.1 x).1 hsame] at heq
  cases heq
  exact hx hy

end Frame

namespace Store

open Machine

variable {s : Store} {params : List String} {args : List Value} {f : FrameId}

theorem entered_frames_of_nodup (hparams : params.Nodup) :
    (entered s params args f).frames =
      s.frames.push ⟨(params.map .symbol).zip args, some f⟩ := by
  rw [entered_frames, Frame.foldl_bind_of_nodup hparams args (by simp), List.nil_append]

theorem lookup?_entered (hparams : params.Nodup) (hf : f < s.frames.size) (x : String) :
    (entered s params args f).lookup? s.frames.size (.symbol x) =
      match ((params.map Value.symbol).zip args).find? (fun b => b.1.same (.symbol x)) with
      | some b => some b.2
      | none => (entered s params args f).lookup? f (.symbol x) := by
  have hget : (entered s params args f).get? s.frames.size (.symbol x) =
      (((params.map Value.symbol).zip args).find? fun b => b.1.same (.symbol x)).map Prod.snd := by
    rw [get?, entered_frames_of_nodup hparams, Array.getElem?_push_size]
    rfl
  rw [lookup?, chain_entered hf, List.findSome?_cons, hget, lookup?,
    (extends_entered s params args f).chain_eq hf]
  cases ((params.map Value.symbol).zip args).find? fun b => b.1.same (.symbol x) <;> rfl

/-- How a closure answers calls that are made in a store. -/
structure Positional (s : Store) (mark : Mark) (params : List String) (body : Value) (f : FrameId) :
    Prop where
  distinct : params.Nodup
  frame : f < s.frames.size
  /-- Other numbers of arguments are declined before anything is evaluated, and no others. -/
  declines : ∀ (d : Nat) (args : List Value),
    (∃ a s', call (d + 1) (.closure mark params body f) args s = .error (.error (.arity a)) s' ∧
      s'.frames = s.frames ∧
      ∀ t u, ¬ Task.Starts d (.call (.closure mark params body f) args) s t u) ↔
        params.length ≠ args.length
  /-- Otherwise the body is evaluated in a new frame. -/
  enters : ∀ (d : Nat) (args : List Value), params.length = args.length → ∃ t : Store,
    call (d + 1) (.closure mark params body f) args s = evaluate d body s.frames.size t ∧
      t.frames = s.frames.push ⟨(params.map .symbol).zip args, some f⟩ ∧
      (∀ (i : Nat) x v, params[i]? = some x → args[i]? = some v →
        ∀ depth, Eval.lookup depth s.frames.size (.symbol x) t = .ok v t) ∧
      ∀ x ∉ params, ∀ depth,
        Eval.lookup depth s.frames.size (.symbol x) t = Eval.lookup depth f (.symbol x) t

/-- Closures with distinct parameters and a frame that is there. -/
def Callable (s : Store) : Value → Prop
  | .closure _ params _ f => params.Nodup ∧ f < s.frames.size
  | _ => True

theorem Callable.mono {s' : Store} (h : s.Extends s') {v : Value} (hv : s.Callable v) :
    s'.Callable v := by
  cases v with
  | closure mark params body f => exact ⟨hv.1, Nat.lt_of_lt_of_le hv.2 h.size_le⟩
  | _ => trivial

theorem Callable.positional {mark : Mark} {body : Value}
    (h : s.Callable (.closure mark params body f)) : s.Positional mark params body f where
  distinct := h.1
  frame := h.2
  declines d args := by
    constructor
    · rintro ⟨a, s', -, -, hquiet⟩ hlen
      exact hquiet _ _ (.passes (.body hlen))
    · intro hlen
      refine ⟨_, _, callStep_closure_arity (level d) hlen mark body f s, rfl, ?_⟩
      intro t u hstart
      cases hstart with
      | passes hpasses =>
        cases hpasses with
        | body h => exact hlen h
  enters d args hlen := by
    refine ⟨entered s params args f, callStep_closure (level d) hlen mark body f s,
      entered_frames_of_nodup h.1, ?_, ?_⟩
    · intro i x v hx hv depth
      rw [Eval.lookup_symbol, lookup?_entered h.1 h.2, Frame.find?_zip_param h.1 hx hv]
    · intro x hx depth
      rw [Eval.lookup_symbol, Eval.lookup_symbol, lookup?_entered h.1 h.2,
        Frame.find?_zip_of_not_mem args hx]

end Store

theorem Machine.within_error {α : Type} {x : Eval α} {s s' : Store} {e : LispError}
    (h : x s = .error (.error e) s') (name : String) : within name x s = .error (.error e) s' := by
  unfold within Eval.mapFault
  rw [h]

/-- An error of the language leaves each task that comes to it, also `map` and `apply`. -/
theorem Task.Starts.error {d : Nat} {t t' : Task} {s s' s'' : Store} {e : LispError}
    (h : Starts d t s t' s') (ht' : t'.run d s' = .error (.error e) s'') :
    t.run (d + 1) s = .error (.error e) s'' := by
  cases h with
  | passes h => exact h.error ht'
  | tuple h =>
    obtain ⟨mark, head, operands, heq⟩ := h.exists_items
    cases heq
    exact h.error ht'
  | @mapped _ procedure first others vs ws args vss before after _ _ hfirst hothers hsplit hbefore =>
    have hcalls : (Machine.level d).callAll procedure (Machine.rows vs vss) s =
        .error (.error e) s'' := by
      rw [Machine.callAll_eq_mapM] at hbefore
      rw [hsplit, Machine.callAll_eq_mapM, List.mapM_append, Eval.bind_ok hbefore, List.mapM_cons]
      exact Eval.bind_error (Eval.bind_error ht')
    have hmap : (Machine.level d).callMap (procedure :: first :: others) =
        (Machine.level d).callAll procedure (Machine.rows vs vss) >>= Eval.makeList :=
      Machine.callMap_eq _ hfirst hothers
    exact Machine.within_error ((congrFun hmap s).trans (Eval.bind_error hcalls)) "map"
  | @applied _ procedure list args _ hargs =>
    have happly : (Machine.level d).callApply [procedure, list] =
        (Machine.level d).call procedure args := Machine.callApply_eq _ hargs
    exact Machine.within_error ((congrFun happly s).trans ht') "apply"

/-! ## Programs -/

namespace Policy

/-- Closures are callable; faults are free. -/
def callable : Policy where
  Expr s e f := f < s.frames.size ∧ e.Procedures s.Callable
  Proc s v := s.Callable v
  Inv _ := True
  Allowed _ := True

theorem callable_lawful : callable.Lawful where
  expr_mono h he :=
    ⟨Nat.lt_of_lt_of_le he.1 h.size_le, Value.Procedures.mono (fun _ => .mono h) _ he.2⟩
  proc_mono h hv := hv.mono h
  inv_eq _ _ := trivial
  inv_insert _ := trivial
  ordinary _ := trivial
  parts {s e f} he := by
    have hexpr : ∀ v, callable.Good s v → callable.Expr s v f := fun v hv => ⟨he.1, hv⟩
    exact parts_of_good (fun _ => trivial) hexpr (fun _ h => h.2)
      (fun _ _ _ hnodup => ⟨hnodup, he.1⟩) he.2
  enter {s mark params body f args} _ hc _ := by
    have hext := Store.extends_entered s params args f
    refine ⟨trivial, ?_, Value.Procedures.mono (fun _ => .mono hext) _ hc.2⟩
    rw [Store.entered_frames, Array.size_push]
    exact Nat.lt_succ_self _

end Policy

namespace Interpreter

section Fresh

variable {notices : Array Notice} {root : FrameId} {s₀ : Store}
  (hfresh : CommandLine.fresh notices = (root, s₀))
include hfresh

theorem callable_fresh : root < s₀.frames.size ∧ Policy.callable.Holds s₀ := by
  obtain ⟨-, hs₀⟩ := Policy.callable_lawful.fresh notices trivial fun _ _ _ _ _ => trivial
  rw [hfresh] at hs₀
  exact ⟨(wellFormed_of_reaches hfresh .refl).root_lt, hs₀⟩

theorem callable_turn {ps : List (Nat × String)} {a : Turn} (_ : a ∈ turns root ps s₀) (s' : Store)
    (hext : s₀.Extends s') : Policy.callable.Expr s' a.expr root :=
  ⟨Nat.lt_of_lt_of_le (callable_fresh hfresh).1 hext.size_le,
    Value.procedures_of_datum? (Value.datum?_intern a.datum _)⟩

theorem Performs.callable {ps : List (Nat × String)} {d : Nat} {t : Task} {s : Store}
    (h : Performs root ps s₀ d t s) : Policy.callable.Holds s ∧ t.Keeps .callable s :=
  h.keeps Policy.callable_lawful (callable_fresh hfresh).2 fun _ ha => callable_turn hfresh ha

theorem Visits.callable {ps : List (Nat × String)} {s : Store} (h : Visits root ps s₀ s) :
    Policy.callable.Holds s := by
  rcases h with ⟨d, t, h⟩ | rfl
  · exact (h.callable hfresh).1
  · exact (turns_keep Policy.callable_lawful (callable_fresh hfresh).2
      fun _ ha => callable_turn hfresh ha).2.2

end Fresh

end Interpreter

end SmallLisp
