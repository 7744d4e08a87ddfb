import SmallLisp.Evaluator

/-!
Running the text of a program.

The whole text is read before anything is evaluated.  Exhausted depth is an error of the language.
-/

namespace SmallLisp.Interpreter

/-- The depth that is available unless it is set, in levels: one `evaluate` or `call` inside another.
A host that runs these as functions on its stack may need several frames for one level, so its limit of
1000 frames is not this limit of 1000 levels. -/
def standardLimit : Nat := 1000

/-- Evaluate data in order; the value is that of the last one, or `last` if there is none. -/
def evalData (limit : Nat) (root : FrameId) (last : Value) : List Datum → Eval Value
  | [] => pure last
  | d :: rest => do
    let e ← Eval.intern d
    let v ← evaluate limit e root
    evalData limit root v rest

/-- Turn exhausted depth into the error that it is to a program. -/
def reportExhaustion {α : Type} (source : String) (x : Eval α) : Eval α := fun s =>
  match x s with
  | .error .depth s => .error (.error .exhausted) (s.note (.exhausted source))
  | r => r

def eval (limit : Nat) (root : FrameId) (source : String) : Eval Value :=
  match parseAll limit source with
  | (_, some fault) => Eval.fail (.unreadable fault)
  | (data, none) => reportExhaustion source (evalData limit root .unspecified data)

/-! ## Answers -/

/-- What the run of a text comes to: the printed value, an error of the language, or a fault that is
none. -/
inductive Report where
  | printed (text : String)
  | failed (e : LispError)
  | broken (fault : Fault)

def answer (limit : Nat) (root : FrameId) (source : String) (s : Store) : Report × Store :=
  match eval limit root source s with
  | .ok v s =>
    match v.print limit with
    | .ok text => (.printed text, s)
    | .error fault => (.broken (.ofText fault), s)
  | .error (.error e) s => (.failed e, s)
  | .error fault s => (.broken fault, s)

end SmallLisp.Interpreter
