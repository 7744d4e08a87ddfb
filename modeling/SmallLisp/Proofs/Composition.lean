import SmallLisp.Interpreter
import SmallLisp.Proofs.Grammar
import SmallLisp.Proofs.Outcome
import SmallLisp.Proofs.Tokens

/-!
Programs one after another.

A text on the line after another has its own tokens (`Token.tokenize_append_newline`), so it reads as
it does alone, after what the first text reads as (`parseAll_append_newline`).  Evaluating the data of
both is evaluating those of the first, then those of the second (`Interpreter.evalData_append`), and
so the two texts in one do what they do one after the other (`eval_append_newline`).  Only the log can
tell the difference: it names the text in which the depth was exhausted.
-/

namespace SmallLisp

/-! ## Reading -/

theorem parseAll_append_newline {limit : Nat} {p : String} {ds : List Datum}
    (hp : parseAll limit p = (ds, none)) (q : String) :
    parseAll limit (p ++ "\n" ++ q) = (ds ++ (parseAll limit q).1, (parseAll limit q).2) := by
  obtain ⟨hall, hn⟩ := parseAll_eq_iff.1 hp
  have hread : Reader.readMany limit [] [] (tokenize (p ++ "\n" ++ q)) =
      Reader.readMany limit [] ds.reverse (tokenize q) := by
    rw [Token.tokenize_append_newline, Reader.readMany_derivesAll [] _ hall hn, List.append_nil]
  show ((Reader.readMany limit [] [] (tokenize (p ++ "\n" ++ q))).data,
    (Reader.readMany limit [] [] (tokenize (p ++ "\n" ++ q))).fault) = _
  rw [hread, Reader.readMany_done, List.reverse_reverse]
  rfl

/-! ## Evaluating -/

/-- Stores that hold the same, their logs apart. -/
def Store.LogsApart (s t : Store) : Prop := { s with notices := t.notices } = t

theorem Store.logsApart_note (s : Store) (n n' : Notice) : (s.note n).LogsApart (s.note n') := rfl

namespace Interpreter

open Eval Store

variable {α β : Type}

theorem eval_of_reads {limit : Nat} {source : String} {ds : List Datum}
    (h : parseAll limit source = (ds, none)) (root : FrameId) :
    eval limit root source = reportExhaustion source (evalData limit root .unspecified ds) := by
  rw [eval, h]

theorem eval_of_not_reads {limit : Nat} {source : String} {ds : List Datum} {fault : ReadFault}
    (h : parseAll limit source = (ds, some fault)) (root : FrameId) (s : Store) :
    eval limit root source s = .error (.error (.unreadable fault)) s := by
  rw [eval, h]
  rfl

theorem evalData_append (limit : Nat) (root : FrameId) (last : Value) (ds es : List Datum) :
    evalData limit root last (ds ++ es) =
      evalData limit root last ds >>= fun v => evalData limit root v es := by
  induction ds generalizing last with
  | nil => rfl
  | cons d ds ih =>
    simp only [List.cons_append, evalData, ih, bind_assoc]

/-- Exhausted depth is reported by whichever of two parts it happens in. -/
theorem alike_reportExhaustion_bind {source source' : String} {x : Eval α} {f g : α → Eval β}
    {s : Store} (h : ∀ a s', Alike LogsApart (reportExhaustion source (f a) s') (g a s')) :
    Alike LogsApart (reportExhaustion source (x >>= f) s)
      ((reportExhaustion source' x >>= g) s) := by
  cases hx : x s with
  | ok a s' =>
    have hleft : reportExhaustion source (x >>= f) s = reportExhaustion source (f a) s' := by
      rw [reportExhaustion, reportExhaustion, bind_ok hx]
    have hright : reportExhaustion source' x s = .ok a s' := by rw [reportExhaustion, hx]
    rw [hleft, bind_ok hright]
    exact h a s'
  | error e s' =>
    have hleft : (x >>= f) s = .error e s' := bind_error hx
    cases e with
    | depth =>
      have hright : reportExhaustion source' x s =
          .error (.error .exhausted) (s'.note (.exhausted source')) := by
        rw [reportExhaustion, hx]
      rw [reportExhaustion, hleft, bind_error hright]
      exact .error (logsApart_note s' _ _)
    | error _ | integerText =>
      have hright : reportExhaustion source' x s = x s := by rw [reportExhaustion, hx]
      rw [reportExhaustion, hleft, bind_error (hright.trans hx)]
      exact .error rfl

end Interpreter

/-! ## Top theorem -/

open Interpreter in
/-- Let `p` be a text that reads.  If `q` reads, then `p` and `q` on the line after it end like `p`
and, unless that fails, `q` after it; the value is that of `q`, or of `p` if there is nothing in `q`.
If `q` does not read, nothing is evaluated, and the fault is that of `q`. -/
theorem eval_append_newline (limit : Nat) (root : FrameId) {p : String} {ds : List Datum}
    (hp : parseAll limit p = (ds, none)) (q : String) (s : Store) :
    (∀ es, parseAll limit q = (es, none) →
      Eval.Alike Store.LogsApart (eval limit root (p ++ "\n" ++ q) s)
        ((do
          let v ← eval limit root p
          let w ← eval limit root q
          return if es.isEmpty then v else w) s)) ∧
    (ds = [] → eval limit root p s = .ok .unspecified s) ∧
    (∀ es fault, parseAll limit q = (es, some fault) →
      eval limit root (p ++ "\n" ++ q) s = .error (.error (.unreadable fault)) s ∧
      eval limit root q s = .error (.error (.unreadable fault)) s) := by
  have hboth := parseAll_append_newline hp q
  refine ⟨fun es hq => ?_, fun hnil => ?_, fun es fault hq => ?_⟩
  · rw [hq] at hboth
    rw [eval_of_reads hboth, eval_of_reads hp, eval_of_reads hq, evalData_append]
    refine alike_reportExhaustion_bind fun v s' => ?_
    cases es with
    | nil => exact .ok rfl
    | cons e es =>
      -- the value of `p` is not looked at: the second text gives its own
      have hlast : evalData limit root v (e :: es) =
          evalData limit root .unspecified (e :: es) >>= pure := (bind_pure _).symm
      rw [hlast]
      exact alike_reportExhaustion_bind fun w s'' => .ok rfl
  · rw [eval_of_reads hp, hnil]
    rfl
  · rw [hq] at hboth
    exact ⟨eval_of_not_reads hboth root s, eval_of_not_reads hq root s⟩

open Interpreter in
/-- `(define x t)`, then a call of `x`, which is no procedure: the call fails alike, with `x` defined;
and a `)` on the line after leaves `x` undefined. -/
theorem eval_append_newline_failed_call :
    let s : Store := { Store.empty with frames := #[⟨[(.symbol "t", .bool true)], none⟩] }
    Eval.Alike Store.LogsApart (eval 9 0 ("(define x t)" ++ "\n" ++ "(x)") s)
        ((do
          let v ← eval 9 0 "(define x t)"
          let w ← eval 9 0 "(x)"
          return if [Datum.list [.symbol "x"]].isEmpty then v else w) s) ∧
      (((eval 9 0 "(define x t)\n(x)").after s).get? 0 (.symbol "x")).isSome = true ∧
      eval 9 0 ("(define x t)" ++ "\n" ++ ")") s = .error (.error (.unreadable .unmatchedClose)) s := by
  have hdefined : (((eval 9 0 "(define x t)\n(x)").after { Store.empty with
      frames := #[⟨[(.symbol "t", .bool true)], none⟩] }).get? 0 (.symbol "x")).isSome = true := by
    decide +kernel
  intro s
  have hp : parseAll 9 "(define x t)" =
      ([.list [.symbol "define", .symbol "x", .symbol "t"]], none) := by with_unfolding_all rfl
  have hq : parseAll 9 "(x)" = ([.list [.symbol "x"]], none) := by with_unfolding_all rfl
  have hclose : parseAll 9 ")" = ([], some .unmatchedClose) := by with_unfolding_all rfl
  obtain ⟨hreads, -, -⟩ := eval_append_newline 9 0 hp "(x)" s
  obtain ⟨-, -, hfails⟩ := eval_append_newline 9 0 hp ")" s
  exact ⟨hreads _ hq, hdefined, (hfails _ _ hclose).1⟩

end SmallLisp
