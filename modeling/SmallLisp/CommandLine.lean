import SmallLisp.Session
import SmallLisp.Settings

/-!
The command line: arguments, settings, files and standard input to what is printed and how the
program ends.
-/

namespace SmallLisp.CommandLine

/-! ## Arguments -/

def longHelp : String := "--help"

/-- What an argument is, taken alone. -/
inductive Argument where
  /-- `--`, after which all arguments are operands. -/
  | separator
  | operand
  /-- The help option, with the text that is attached to it. -/
  | help (long : Bool) (attached : Option String)
  | unknown

/-- Whether a text is a negative number in positional form; a line break may follow. -/
def isNegativeNumber (cs : List Char) : Bool :=
  match cs with
  | '-' :: cs =>
    let cs := if cs.getLast? = some '\n' then cs.dropLast else cs
    match cs.span (· ≠ '.') with
    | (whole, []) => !whole.isEmpty && whole.all Text.isDigit
    | (whole, _ :: fraction) =>
      whole.all Text.isDigit && !fraction.isEmpty && fraction.all Text.isDigit
  | _ => false

/-- A text up to the first `=`, and what follows it. -/
def splitAttached (cs : List Char) : List Char × Option (List Char) :=
  match cs.span (· ≠ '=') with
  | (name, []) => (name, none)
  | (name, _ :: attached) => (name, some attached)

/-- An argument that is neither a known option nor like one. -/
def otherwise (cs : List Char) : Argument :=
  if isNegativeNumber cs || cs.contains ' ' then .operand else .unknown

/-- Classify an argument: options may be shortened while they stay recognisable. -/
def classify (arg : String) : Argument :=
  let cs := arg.toList
  match cs with
  | '-' :: '-' :: _ =>
    let (name, attached) := splitAttached cs
    if name.isPrefixOf longHelp.toList then .help true (attached.map String.ofList)
    else otherwise cs
  | ['-'] => .operand
  | '-' :: 'h' :: rest =>
    match rest with
    | [] => .help false none
    | '=' :: attached => .help false (some (String.ofList attached))
    | attached => .help false (some (String.ofList attached))
  | '-' :: _ => otherwise cs
  | _ => .operand

/-- Arguments with what they are. -/
def classifyAll : List String → List (String × Argument)
  | [] => []
  | arg :: rest =>
    if arg = "--" then (arg, .separator) :: rest.map fun arg => (arg, .operand)
    else (arg, classify arg) :: classifyAll rest

/-- What the help option with an attached text leads to: letters that repeat the short option are
accepted, the first other text is ignored with a complaint. -/
def ignored? (long : Bool) : Option (List Char) → Option (List Char)
  | none => none
  | some [] => some []
  | some (c :: rest) =>
    if !long && c = 'h' then (if rest.isEmpty then none else ignored? false (some rest))
    else some (c :: rest)

/-- What the arguments ask for. -/
inductive Request where
  | help
  | complaint (message : String)
  | run (file : Option String)

/-- Go through arguments in order.  The first operand is the file; options that are not known and
further operands are left over. -/
def scan (file : Option String) (extra : List String) : List (String × Argument) → Request
  | [] =>
    match extra with
    | [] => .run file
    | extra => .complaint ("unrecognized arguments: " ++ " ".intercalate extra.reverse)
  | (arg, kind) :: rest =>
    match kind with
    | .help long attached =>
      match ignored? long (attached.map String.toList) with
      | none => .help
      | some text =>
        .complaint ("argument -h/--help: ignored explicit argument " ++
          Text.quoted (String.ofList text))
    | .unknown => scan file (arg :: extra) rest
    | .separator =>
      match file with
      | none => scan none extra rest
      | some _ => scan file (arg :: extra) rest
    | .operand =>
      match file with
      | none =>
        match rest with
        | (_, .separator) :: rest => scan (some arg) extra rest
        | rest => scan (some arg) extra rest
      | some _ => scan file (arg :: extra) rest

def request (argv : List String) : Request := scan none [] (classifyAll argv)

def usage : String := "usage: lispy [-h] [file]\n"

def helpText : String :=
  usage ++ "\nA minimal Lisp interpreter\n\npositional arguments:\n" ++
    "  file        Program to evaluate; starts an interactive session when omitted\n\n" ++
    "options:\n  -h, --help  show this help message and exit\n"

def complaintText (message : String) : String := usage ++ "lispy: error: " ++ message ++ "\n"

/-! ## Recursion limit -/

/-- The greatest limit that can be set. -/
def greatestLimit : Int := 2147483647

/-- Why an integer cannot be a recursion limit. -/
def limitComplaint? (n : Int) : Option String :=
  if n < -greatestLimit - 1 || greatestLimit < n then
    some "Python int too large to convert to C int"
  else if n < 1 then some "recursion limit must be greater or equal than 1"
  else none

/-! ## Files -/

/-- What stands at a path. -/
inductive Entry where
  | file (text : String)
  | directory
  | missing

/-- A path as the program writes it: without empty and `.` components. -/
def normalPath (path : String) : String :=
  let cs := path.toList
  let leading := (cs.takeWhile (· = '/')).length
  let root := if leading = 2 then "//" else if leading = 0 then "" else "/"
  let parts := ((cs.splitOn '/').map String.ofList).filter fun part => part ≠ "" && part ≠ "."
  let text := root ++ "/".intercalate parts
  if text.isEmpty then "." else text

/-- Line breaks of all three kinds as line feeds. -/
def unifyBreaks : List Char → List Char
  | [] => []
  | '\r' :: '\n' :: rest => '\n' :: unifyBreaks rest
  | '\r' :: rest => '\n' :: unifyBreaks rest
  | c :: rest => c :: unifyBreaks rest

/-- Why a file cannot be read. -/
inductive FileFault where
  | missing (path : String)
  | directory (path : String)
  | nullCharacter

def FileFault.message : FileFault → String
  | .missing path => "[Errno 2] No such file or directory: " ++ Text.quoted path
  | .directory path => "[Errno 21] Is a directory: " ++ Text.quoted path
  | .nullCharacter => "embedded null byte"

def readProgram (entryAt : String → Entry) (path : String) : Except FileFault String :=
  let path := normalPath path
  if path.toList.contains (Char.ofNat 0) then .error .nullCharacter
  else
    match entryAt path with
    | .file text => .ok (String.ofList (unifyBreaks text.toList))
    | .directory => .error (.directory path)
    | .missing => .error (.missing path)

/-! ## Log -/

def noticeLevel : Notice → Nat
  | .settingLimit _ => 20
  | _ => 10

def noticeText : Notice → String
  | .applied params count =>
    "DEBUG:lispy.evaluation.apply:apply <Lambda (" ++ " ".intercalate params ++ ")> to " ++
      Text.decimal count ++ " argument(s)\n"
  | .exhausted source =>
    "DEBUG:lispy.interpreter:host stack exhausted while evaluating " ++ Text.quoted source ++ "\n"
  | .failed kind => "DEBUG:lispy.repl:evaluation failed: " ++ kind.name ++ "\n"
  | .settingLimit n =>
    "INFO:lispy.repl:setting recursion limit to " ++ (if n < 0 then "-" else "") ++
      Text.decimal n.natAbs ++ "\n"

/-- The log lines of a run, from the given level on. -/
def logText (level : Nat) (notices : List Notice) : String :=
  "".intercalate ((notices.filter fun n => level ≤ noticeLevel n).map noticeText)

/-! ## Running -/

/-- How the program ends. -/
inductive Ending where
  | exit (code : Nat)
  | broken (fault : Fault)
  | unreadable (fault : FileFault)

structure Outcome where
  stdout : String
  stderr : String
  ending : Ending

/-- What a run is set up with. -/
structure Setup where
  limit : Nat
  logLevel : Nat
  prompt : String
  notices : Array Notice

/-- What arguments and settings lead to: an outcome at once, a program in a file, or a session. -/
inductive Plan where
  | finished (o : Outcome)
  | program (setup : Setup) (path : String)
  | session (setup : Setup)

/-- Carry a request out under a limit, or under the standard one. -/
def planRequest (vars : Settings.Variables) (limit : Option Nat) (notices : Array Notice)
    (file : Option String) : Plan :=
  let setup : Setup := ⟨limit.getD Interpreter.standardLimit, Settings.logLevel vars,
    Settings.prompt vars, notices⟩
  match file with
  | some path => .program setup path
  | none => .session setup

def plan (argv : List String) (vars : Settings.Variables) : Plan :=
  match request argv with
  | .help => .finished ⟨helpText, "", .exit 0⟩
  | .complaint message => .finished ⟨"", complaintText message, .exit 2⟩
  | .run file =>
    let invalid := "invalid " ++ Settings.recursionLimitVariable ++ ": "
    match Settings.recursionLimit vars with
    | .error fault => .finished ⟨"", complaintText (invalid ++ fault.message), .exit 2⟩
    | .ok none => planRequest vars none #[] file
    | .ok (some n) =>
      let notices := #[Notice.settingLimit n]
      match limitComplaint? n with
      | some message =>
        let log := logText (Settings.logLevel vars) notices.toList
        .finished ⟨"", log ++ complaintText (invalid ++ message), .exit 2⟩
      | none => planRequest vars (some n.toNat) notices file

/-- A fresh interpreter: a standard frame in an otherwise empty store. -/
def fresh (notices : Array Notice) : FrameId × Store :=
  match Eval.standardFrame { Store.empty with notices } with
  | .ok f s => (f, s)
  | .error _ s => (0, s)

def endingOf : Option Fault → Ending
  | none => .exit 0
  | some fault => .broken fault

/-- Lines of a text; a line break at the end ends the last line. -/
def lines (text : String) : List String :=
  let parts := (text.toList.splitOn '\n').map String.ofList
  if parts.getLast? = some "" then parts.dropLast else parts

def runSession (setup : Setup) (stdin : String) : Outcome :=
  let (root, s) := fresh setup.notices
  let t := Session.run setup.limit root s (lines stdin)
  ⟨Session.screen setup.prompt t.events, logText setup.logLevel t.store.notices.toList,
    endingOf t.fault⟩

def runText (setup : Setup) (source : String) : Outcome :=
  let (root, s) := fresh setup.notices
  let (report, s) := Interpreter.answer setup.limit root source s
  let log := logText setup.logLevel s.notices.toList
  match report with
  | .printed text => ⟨s.output ++ Session.written (Session.line text), log, .exit 0⟩
  | .failed e => ⟨s.output ++ Session.written [Session.errorLine e], log, .exit 1⟩
  | .broken fault => ⟨s.output, log, .broken fault⟩

def runProgram (setup : Setup) (entryAt : String → Entry) (path : String) : Outcome :=
  match readProgram entryAt path with
  | .ok source => runText setup source
  | .error fault => ⟨"", logText setup.logLevel setup.notices.toList, .unreadable fault⟩

def run (argv : List String) (vars : Settings.Variables) (entryAt : String → Entry)
    (stdin : String) : Outcome :=
  match plan argv vars with
  | .finished o => o
  | .program setup path => runProgram setup entryAt path
  | .session setup => runSession setup stdin

end SmallLisp.CommandLine
