import SmallLisp.Text.Blank
import SmallLisp.Text.Digit
import SmallLisp.Text.Quoted

/-!
Settings, taken from named variables: the prompt, the log level and the recursion limit.

An empty variable counts as one that is not set.
-/

namespace SmallLisp.Settings

/-- Values of variables by name. -/
abbrev Variables := String → Option String

def defaultPrompt : String := "lispy> "

def promptVariable : String := "LISPY_PROMPT"

def logLevelVariable : String := "LISPY_LOG_LEVEL"

def recursionLimitVariable : String := "LISPY_RECURSION_LIMIT"

def valueOr (vars : Variables) (name default : String) : String :=
  match vars name with
  | some value => if value.isEmpty then default else value
  | none => default

def prompt (vars : Variables) : String := valueOr vars promptVariable defaultPrompt

/-! ## Log level -/

/-- The capital of a letter, as far as it is a Latin letter without marks; two letters outside that
alphabet have such capitals. -/
def capital (c : Char) : Char :=
  if c = 'ı' then 'I' else if c = 'ſ' then 'S' else c.toUpper

def levelOfName? : String → Option Nat
  | "CRITICAL" => some 50
  | "FATAL" => some 50
  | "ERROR" => some 40
  | "WARNING" => some 30
  | "WARN" => some 30
  | "INFO" => some 20
  | "DEBUG" => some 10
  | "NOTSET" => some 0
  | _ => none

def defaultLevel : Nat := 30

/-- The least level that is logged; an unknown name is the default. -/
def logLevel (vars : Variables) : Nat :=
  match vars logLevelVariable with
  | some name => (levelOfName? (String.ofList (name.toList.map capital))).getD defaultLevel
  | none => defaultLevel

/-! ## Recursion limit -/

/-- More digits than this are not read as an integer. -/
def digitLimit : Nat := 4300

/-- Groups of digits with a single mark `_` between them, as one run of digits. -/
def joinGroups : List Char → Option (List Char)
  | [] => none
  | [c] => if Text.isDigit c then some [c] else none
  | c :: '_' :: rest => if Text.isDigit c then (joinGroups rest).map (c :: ·) else none
  | c :: rest => if Text.isDigit c then (joinGroups rest).map (c :: ·) else none

def natural? (cs : List Char) : Option Nat :=
  match joinGroups cs with
  | some digits => if digits.length ≤ digitLimit then some (Text.digitsValue digits) else none
  | none => none

/-- An integer with an optional sign. -/
def integer? : List Char → Option Int
  | '-' :: cs => (natural? cs).map fun n => -(n : Int)
  | '+' :: cs => (natural? cs).map Int.ofNat
  | cs => (natural? cs).map Int.ofNat

/-- A recursion limit that is not an integer. -/
structure LimitFault where
  text : String

def LimitFault.message (f : LimitFault) : String :=
  recursionLimitVariable ++ " must be an integer, got " ++ Text.quoted f.text

def recursionLimit (vars : Variables) : Except LimitFault (Option Int) :=
  let text := Text.strip ((vars recursionLimitVariable).getD "")
  if text.isEmpty then .ok none
  else
    match integer? text.toList with
    | some n => .ok (some n)
    | none => .error ⟨text⟩

end SmallLisp.Settings
