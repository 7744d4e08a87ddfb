import SmallLisp.Datum.Basic
import SmallLisp.Datum.Token
import SmallLisp.Text.Quoted

/-!
The reader: from tokens to data.

One pass over the tokens keeps the lists that are still open, innermost first and each in reverse
(`Reader.step`).  `Reader.readOne` stops at the first complete expression and returns the tokens
after it; `Reader.readMany` goes on to the end.  A `TokenStream` offers the same with one token of
look-ahead, and `parse` and `parseAll` read a source text.  Lists may be nested up to a limit.
-/

namespace SmallLisp

/-- Why tokens are not what the reader was asked for. -/
inductive ReadFault where
  | unexpectedEnd
  | unmatchedClose
  | tooDeep
  | trailing (token : String)
  deriving Repr, DecidableEq

def ReadFault.message : ReadFault → String
  | .unexpectedEnd => "unexpected end of input"
  | .unmatchedClose => "unmatched close"
  | .tooDeep => "expression nested too deeply"
  | .trailing token => "unexpected token after expression: " ++ Text.quoted token

namespace Reader

/-- What one token leads to. -/
inductive Progress where
  | more (pending : List (List Datum))
  | done (d : Datum)
  | fail (f : ReadFault)

/-- A complete datum takes its place in the innermost open list, or is the result. -/
def place (d : Datum) : List (List Datum) → Progress
  | [] => .done d
  | items :: outer => .more ((d :: items) :: outer)

def step (limit : Nat) (pending : List (List Datum)) (token : String) : Progress :=
  if token = Token.opening then
    if pending.length < limit then .more ([] :: pending) else .fail .tooDeep
  else if token = Token.closing then
    match pending with
    | [] => .fail .unmatchedClose
    | items :: outer => place (.list items.reverse) outer
  else place (Datum.atom token) pending

/-- The first expression and the tokens after it. -/
def readOne (limit : Nat) (pending : List (List Datum)) :
    List String → Except ReadFault Datum × List String
  | [] => (.error .unexpectedEnd, [])
  | token :: rest =>
    match step limit pending token with
    | .more pending => readOne limit pending rest
    | .done d => (.ok d, rest)
    | .fail f => (.error f, rest)

/-- What reading to the end gives: the expressions before the end or the first fault, and the tokens
that were not looked at. -/
structure Reading where
  data : List Datum
  fault : Option ReadFault
  rest : List String

def readMany (limit : Nat) (pending : List (List Datum)) (done : List Datum) :
    List String → Reading
  | [] => ⟨done.reverse, if pending.isEmpty then none else some .unexpectedEnd, []⟩
  | token :: rest =>
    match step limit pending token with
    | .more pending => readMany limit pending done rest
    | .done d => readMany limit [] (d :: done) rest
    | .fail f => ⟨done.reverse, some f, rest⟩

end Reader

/-- Tokens still to be read, the first of them perhaps in a look-ahead buffer. -/
structure TokenStream where
  buffer : List String
  rest : List String

namespace TokenStream

def ofTokens (tokens : List String) : TokenStream := ⟨[], tokens⟩

/-- The tokens not read yet. -/
def unread (s : TokenStream) : List String := s.buffer ++ s.rest

/-- The next token, which stays unread. -/
def peek (s : TokenStream) : Option String × TokenStream :=
  match s.buffer with
  | token :: _ => (some token, s)
  | [] =>
    match s.rest with
    | [] => (none, s)
    | token :: rest => (some token, ⟨[token], rest⟩)

/-- The next token, which is then read. -/
def advance (s : TokenStream) : Option String × TokenStream :=
  match s.buffer with
  | token :: buffer => (some token, ⟨buffer, s.rest⟩)
  | [] =>
    match s.rest with
    | [] => (none, s)
    | token :: rest => (some token, ⟨[], rest⟩)

/-- The next expression; tokens read before a fault stay read. -/
def readExpr (limit : Nat) (s : TokenStream) : Except ReadFault Datum × TokenStream :=
  let (result, rest) := Reader.readOne limit [] s.unread
  (result, ofTokens rest)

/-- All expressions up to the end or the first fault. -/
def readAll (limit : Nat) (s : TokenStream) : List Datum × Option ReadFault × TokenStream :=
  let r := Reader.readMany limit [] [] s.unread
  (r.data, r.fault, ofTokens r.rest)

end TokenStream

/-- The one expression that a source text consists of. -/
def parse (limit : Nat) (source : String) : Except ReadFault Datum := do
  let (result, stream) := (TokenStream.ofTokens (tokenize source)).readExpr limit
  let d ← result
  match stream.peek.1 with
  | none => .ok d
  | some token =>
    if token = Token.closing then .error .unmatchedClose else .error (.trailing token)

/-- The expressions of a source text up to its end or the first fault. -/
def parseAll (limit : Nat) (source : String) : List Datum × Option ReadFault :=
  let (data, fault, _) := (TokenStream.ofTokens (tokenize source)).readAll limit
  (data, fault)

end SmallLisp
