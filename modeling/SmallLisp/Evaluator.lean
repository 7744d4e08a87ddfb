import SmallLisp.Builtin.Standard

/-!
Evaluation of expressions and calls of procedures.

Depth is the only thing that recursion uses up: `evaluate (d + 1)` runs one step of evaluation with
the level `d` as the machine for all that it needs, so a computation that finishes at one depth
finishes in the same way at every greater depth.
-/

namespace SmallLisp

/-- One level of evaluation, for use by the level above it. -/
structure Machine where
  depth : Nat
  eval : Value → FrameId → Eval Value
  call : Value → List Value → Eval Value

inductive SpecialForm where
  | quote | conditional | define | lambda
  deriving Repr, DecidableEq

def SpecialForm.ofName? : String → Option SpecialForm
  | "quote" => some .quote
  | "if" => some .conditional
  | "define" => some .define
  | "lambda" => some .lambda
  | _ => none

/-- The special form that an operator announces, whatever its name is bound to. -/
def SpecialForm.ofHead? : Value → Option SpecialForm
  | .symbol name => ofName? name
  | _ => none

namespace Machine

/-! ## Special forms -/

def quote (operands : List Value) : Eval Value :=
  match operands with
  | [v] => pure v
  | _ => Eval.fail (.form .quoteOperands)

def conditional (m : Machine) (operands : List Value) (f : FrameId) : Eval Value :=
  match operands with
  | [test, consequent, alternative] => do
    if (← m.eval test f).isFalse then m.eval alternative f else m.eval consequent f
  | _ => Eval.fail (.form .ifOperands)

def define (m : Machine) (operands : List Value) (f : FrameId) : Eval Value :=
  match operands with
  | [.symbol name, e] => do
    let v ← m.eval e f
    modify fun s => s.insert f (.symbol name) v
    return .unspecified
  | [v, _] => do Eval.fail (.form (.defineName (← Eval.text (v.describe m.depth))))
  | _ => Eval.fail (.form .defineOperands)

/-- The names in a parameter list. -/
def parameters? : Value → Option (List String)
  | .list _ items => items.mapM Value.symbolName?
  | _ => none

def lambda (m : Machine) (operands : List Value) (f : FrameId) : Eval Value :=
  match operands with
  | [params, body] => do
    match parameters? params with
    | none => Eval.fail (.form (.lambdaParameters (← Eval.text (params.describe m.depth))))
    | some names =>
      if names.eraseDups.length = names.length then
        return .closure (← Eval.freshMark) names body f
      else Eval.fail (.form .lambdaRepeated)
  | _ => Eval.fail (.form .lambdaOperands)

def form (m : Machine) : SpecialForm → List Value → FrameId → Eval Value
  | .quote, operands, _ => quote operands
  | .conditional, operands, f => m.conditional operands f
  | .define, operands, f => m.define operands f
  | .lambda, operands, f => m.lambda operands f

/-! ## Expressions -/

def evalAll (m : Machine) (f : FrameId) : List Value → Eval (List Value)
  | [] => pure []
  | e :: rest => do
    let v ← m.eval e f
    return v :: (← m.evalAll f rest)

/-- A special form, or a procedure and its arguments evaluated from left to right. -/
def combination (m : Machine) (head : Value) (operands : List Value) (f : FrameId) : Eval Value :=
  match SpecialForm.ofHead? head with
  | some form => m.form form operands f
  | none => do
    let procedure ← m.eval head f
    let args ← m.evalAll f operands
    m.call procedure args

def evalStep (m : Machine) (e : Value) (f : FrameId) : Eval Value :=
  match e with
  | .symbol _ => Eval.lookup m.depth f e
  | .number _ => pure e
  | .list _ [] => Eval.fail (.type .emptyCombination)
  | .tuple _ [] => Eval.fail (.type .emptyCombination)
  | .list _ (head :: operands) => m.combination head operands f
  | .tuple _ (head :: operands) => m.combination head operands f
  | e => do Eval.fail (.type (.unknownExpression (← Eval.text (e.describe m.depth))))

/-! ## Calls -/

/-- Give an operation's answer its identity. -/
def settle (name : String) : Attempt Answer → Eval Value
  | .ok (.value v) => pure v
  | .ok (.list items) => Eval.makeList items
  | .ok (.tuple items) => Eval.makeTuple items
  | .error r => throw (r.toFault name)

def attempt {α : Type} (name : String) : Attempt α → Eval α
  | .ok a => pure a
  | .error r => throw (r.toFault name)

/-- An integer without a text is, inside a builtin, an error under its name. -/
def within {α : Type} (name : String) (x : Eval α) : Eval α :=
  x.mapFault fun
    | .integerText => .error (.noResult name .integerTextTooLong)
    | fault => fault

/-- The rows of items at the same place, up to the shortest list. -/
def rows : List Value → List (List Value) → List (List Value)
  | [], _ => []
  | x :: xs, others =>
    match others.mapM List.head? with
    | some ys => (x :: ys) :: rows xs (others.map List.tail)
    | none => []

def callAll (m : Machine) (procedure : Value) : List (List Value) → Eval (List Value)
  | [] => pure []
  | args :: rest => do
    let v ← m.call procedure args
    return v :: (← m.callAll procedure rest)

def mapSignature : Signature := ⟨"map_builtin", ["fn"]⟩

def callMap (m : Machine) (args : List Value) : Eval Value :=
  match args with
  | [] => attempt "map" (Attempt.misuse (mapSignature.wrongCount 0))
  | [_] => Eval.fail (.arity .noLists)
  | procedure :: first :: others => do
    let first ← attempt "map" (Argument.items m.depth "map" first)
    let others ← attempt "map" (others.mapM (Argument.items m.depth "map"))
    Eval.makeList (← m.callAll procedure (rows first others))

def applySignature : Signature := ⟨"apply_builtin", ["fn", "args"]⟩

def callApply (m : Machine) (args : List Value) : Eval Value :=
  match args with
  | [procedure, list] => do
    m.call procedure (← attempt "apply" (Argument.items m.depth "apply" list))
  | args => attempt "apply" (Attempt.misuse (applySignature.wrongCount args.length))

def showBinding (m : Machine) (b : Value × Value) : Eval Unit := do
  let name ← Eval.text (b.1.plain m.depth)
  let value ← Eval.text (b.2.print m.depth)
  modify fun s => s.display ("  " ++ name ++ ": " ++ value ++ "\n")

/-- The line above the bindings of a frame. -/
def heading (level : Nat) : String := "Environment level " ++ Text.decimal level ++ ":\n"

/-- Show frames one after another, numbered from `level` on. -/
def showFrames (m : Machine) (level : Nat) : List FrameId → Eval Unit
  | [] => pure ()
  | f :: rest => do
    modify fun s => s.display (heading level)
    ((← get).bindings f).forM m.showBinding
    m.showFrames (level + 1) rest

def showSignature : Signature := ⟨"display_env.<locals>.show", []⟩

def recordSignature : Signature := ⟨"trace", ["x"]⟩

def callBuiltin (m : Machine) (b : Builtin) (args : List Value) : Eval Value :=
  match b with
  | .operation op => settle op.name (op.call m.depth args)
  | .map => within b.name (m.callMap args)
  | .apply => within b.name (m.callApply args)
  | .showFrames f =>
    match args with
    | [] => within b.name do
      m.showFrames 0 ((← get).chain f)
      return .unspecified
    | args => attempt b.name (Attempt.misuse (showSignature.wrongCount args.length))
  | .record =>
    match args with
    | [v] => within b.name do
      let printed ← Eval.text (v.print m.depth)
      modify fun s => { s with recorded := s.recorded.push printed }
      return v
    | args => attempt b.name (Attempt.misuse (recordSignature.wrongCount args.length))

def callStep (m : Machine) (procedure : Value) (args : List Value) : Eval Value :=
  match procedure with
  | .closure _ params body f => do
    modify fun s => s.note (.applied params args.length)
    let frame ← Eval.newFrame (params.map .symbol) args (some f)
    m.eval body frame
  | .primitive _ b => m.callBuiltin b args
  | v => do Eval.fail (.type (.notProcedure (← Eval.text (v.describe m.depth))))

end Machine

mutual

/-- The value of an expression in a frame. -/
def evaluate : Nat → Value → FrameId → Eval Value
  | 0, _, _ => throw .depth
  | d + 1, e, f => Machine.evalStep ⟨d, evaluate d, call d⟩ e f

/-- What a procedure makes of its arguments. -/
def call : Nat → Value → List Value → Eval Value
  | 0, _, _ => throw .depth
  | d + 1, procedure, args => Machine.callStep ⟨d, evaluate d, call d⟩ procedure args

end

end SmallLisp
