import SmallLisp.Interpreter

/-!
Interactive sessions: lines in, answers out.

A session is told as the list of its events in order.  It ends at the end of input, at the line
`(exit)`, or at a fault that is not an error of the language.
-/

namespace SmallLisp.Session

inductive Event where
  | prompted
  /-- Text shown by a program. -/
  | shown (text : String)
  /-- Text written by the session itself. -/
  | wrote (text : String)

/-- What a line leads to; the session may be over with it. -/
structure Turn where
  events : List Event
  store : Store
  fault : Option Fault
  ended : Bool

/-- What a session comes to; the unread lines are those after its end. -/
structure Transcript where
  events : List Event
  store : Store
  unread : List String
  fault : Option Fault

def exitCommand : String := "(exit)"

/-- A text on a line of its own; an empty text takes none. -/
def line (text : String) : List Event := if text.isEmpty then [] else [.wrote (text ++ "\n")]

def errorLine (e : LispError) : Event := .wrote ("error: " ++ e.message ++ "\n")

/-- Take what programs have shown out of the store. -/
def takeShown (s : Store) : List Event × Store :=
  (if s.output.isEmpty then [] else [.shown s.output], { s with output := "" })

/-- Answer a line that is neither blank nor the exit command. -/
def respond (limit : Nat) (root : FrameId) (source : String) (s : Store) : Turn :=
  let (report, s) := Interpreter.answer limit root source s
  let (shown, s) := takeShown s
  match report with
  | .printed text => ⟨shown ++ line text, s, none, false⟩
  | .failed e => ⟨shown ++ [errorLine e], s.note (.failed e.kind), none, false⟩
  | .broken fault => ⟨shown, s, some fault, true⟩

def turn (limit : Nat) (root : FrameId) (source : String) (s : Store) : Turn :=
  let stripped := Text.strip source
  if stripped = exitCommand then ⟨[], s, none, true⟩
  else if stripped.isEmpty then ⟨[], s, none, false⟩
  else respond limit root source s

/-- What is written at the end of input. -/
def farewell : Event := .wrote "\n"

def run (limit : Nat) (root : FrameId) (s : Store) : List String → Transcript
  | [] => ⟨[.prompted, farewell], s, [], none⟩
  | source :: rest =>
    let t := turn limit root source s
    if t.ended then ⟨.prompted :: t.events, t.store, rest, t.fault⟩
    else
      let r := run limit root t.store rest
      { r with events := .prompted :: t.events ++ r.events }

/-! ## Views of the events -/

/-- How often input was asked for. -/
def prompts (events : List Event) : Nat :=
  (events.filter fun
    | .prompted => true
    | _ => false).length

/-- What the session wrote. -/
def written (events : List Event) : String :=
  "".intercalate (events.filterMap fun
    | .wrote text => some text
    | _ => none)

/-- What programs showed. -/
def displayed (events : List Event) : String :=
  "".intercalate (events.filterMap fun
    | .shown text => some text
    | _ => none)

/-- All that appears on one screen, with the prompt. -/
def screen (prompt : String) (events : List Event) : String :=
  "".intercalate (events.map fun
    | .prompted => prompt
    | .shown text => text
    | .wrote text => text)

end SmallLisp.Session
