import SmallLisp.Fault
import SmallLisp.Value.Equality

/-!
The store: frames of bindings, and what a run leaves behind.

A frame keeps its bindings in the order of their first definition and may have an outer frame, always
one made earlier.  The chain of a frame is followed for look-up; definitions change one frame only.
The store also counts marks and keeps what was shown, recorded and noted.
-/

namespace SmallLisp

structure Frame where
  bindings : List (Value × Value)
  outer : Option FrameId

namespace Frame

def get? (fr : Frame) (name : Value) : Option Value :=
  (fr.bindings.find? fun b => b.1.same name).map Prod.snd

/-- Bind a name: a name bound before keeps its place. -/
def bind (name value : Value) : List (Value × Value) → List (Value × Value)
  | [] => [(name, value)]
  | (key, old) :: rest =>
    if key.same name then (key, value) :: rest else (key, old) :: bind name value rest

def insert (fr : Frame) (name value : Value) : Frame :=
  { fr with bindings := bind name value fr.bindings }

end Frame

/-- What a run notes for its log. -/
inductive Notice where
  | applied (params : List String) (count : Nat)
  | exhausted (source : String)
  | failed (kind : ErrorKind)
  | settingLimit (limit : Int)

structure Store where
  frames : Array Frame
  nextMark : Mark
  /-- What programs showed. -/
  output : String
  /-- The printed forms of what programs recorded. -/
  recorded : Array String
  notices : Array Notice

namespace Store

def empty : Store := ⟨#[], 0, "", #[], #[]⟩

/-! ## Looking up -/

/-- A frame and those outside it, innermost first. -/
def chain (s : Store) (f : FrameId) : List FrameId :=
  match s.frames[f]? with
  | none => []
  | some fr =>
    match fr.outer with
    | none => [f]
    | some g => if g < f then f :: s.chain g else [f]
termination_by f

def get? (s : Store) (f : FrameId) (name : Value) : Option Value :=
  s.frames[f]?.bind (·.get? name)

/-- The innermost frame of a chain that binds a name. -/
def find? (s : Store) (f : FrameId) (name : Value) : Option FrameId :=
  (s.chain f).find? fun g => (s.get? g name).isSome

def isBound (s : Store) (f : FrameId) (name : Value) : Bool := (s.find? f name).isSome

def lookup? (s : Store) (f : FrameId) (name : Value) : Option Value :=
  (s.chain f).findSome? fun g => s.get? g name

def bindings (s : Store) (f : FrameId) : List (Value × Value) :=
  match s.frames[f]? with
  | none => []
  | some fr => fr.bindings

/-- The text that sums a frame up. -/
def describeFrame (s : Store) (f : FrameId) : String :=
  "<Environment " ++ Text.decimal (s.bindings f).length ++ " binding(s), depth " ++
    Text.decimal (s.chain f).length ++ ">"

/-! ## Changing -/

def insert (s : Store) (f : FrameId) (name value : Value) : Store :=
  { s with frames := s.frames.modify f (·.insert name value) }

/-- A new frame that binds names to values, pair by pair. -/
def push (s : Store) (names values : List Value) (outer : Option FrameId) : FrameId × Store :=
  let bindings := (names.zip values).foldl (fun bs b => Frame.bind b.1 b.2 bs) []
  (s.frames.size, { s with frames := s.frames.push ⟨bindings, outer⟩ })

def note (s : Store) (n : Notice) : Store := { s with notices := s.notices.push n }

def display (s : Store) (text : String) : Store := { s with output := s.output ++ text }

end Store

/-- Computations on a store that may end in a fault, with the store as it was then. -/
abbrev Eval := EStateM Fault Store

namespace Eval

def fail {α : Type} (e : LispError) : Eval α := throw (.error e)

/-- A text, or the fault that there is none. -/
def text (t : Except TextFault String) : Eval String :=
  match t with
  | .ok s => pure s
  | .error f => throw (.ofText f)

/-- Change the fault in which a computation ends. -/
def mapFault {α : Type} (g : Fault → Fault) (x : Eval α) : Eval α := fun s =>
  match x s with
  | .ok a s => .ok a s
  | .error e s => .error (g e) s

def freshMark : Eval Mark := modifyGet fun s => (s.nextMark, { s with nextMark := s.nextMark + 1 })

def makeList (items : List Value) : Eval Value := return .list (← freshMark) items

/-- A tuple whose items are new objects. -/
def makeTuple (items : List Value) : Eval Value := modifyGet fun s =>
  (.tuple ((List.range items.length).map (s.nextMark + ·)) items,
    { s with nextMark := s.nextMark + items.length })

def intern (d : Datum) : Eval Value := modifyGet fun s =>
  let (v, next) := d.intern s.nextMark
  (v, { s with nextMark := next })

/-! ## Frames -/

/-- A new frame; there must be as many values as names. -/
def newFrame (names values : List Value) (outer : Option FrameId) : Eval FrameId := do
  if names.length = values.length then modifyGet fun s => s.push names values outer
  else fail (.arity (.closure names.length values.length))

/-- Bind a name, which must be a symbol, in one frame. -/
def define (depth : Nat) (f : FrameId) (name value : Value) : Eval Unit := do
  match name with
  | .symbol _ => modify fun s => s.insert f name value
  | name => fail (.form (.notSymbol (← text (name.describe depth))))

/-- Bind many names in order, up to the first that is not a symbol. -/
def update (depth : Nat) (f : FrameId) (items : List (Value × Value)) : Eval Unit :=
  items.forM fun b => define depth f b.1 b.2

def lookup (depth : Nat) (f : FrameId) (name : Value) : Eval Value := do
  match (← get).lookup? f name with
  | some v => return v
  | none => fail (.unbound (← text (name.plain depth)))

end Eval

end SmallLisp
