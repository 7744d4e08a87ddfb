import SmallLisp.Text.Printable

/-!
Quoted text.

A text is shown between single quotes, or between double quotes when it holds a single quote and no
double one.  The quote, the backslash and the characters that are not printable are escaped, the
latter by the shortest of `\n`, `\r`, `\t`, `\xhh`, `\uhhhh` and `\Uhhhhhhhh` that fits.
-/

namespace SmallLisp.Text

/-- Hexadecimal digits of `n`, at least `width` of them. -/
def hex (width n : Nat) : String :=
  let ds := Nat.toDigits 16 n
  String.ofList (List.replicate (width - ds.length) '0' ++ ds)

def escapeCode (n : Nat) : String :=
  if n ≤ 0xFF then "\\x" ++ hex 2 n
  else if n ≤ 0xFFFF then "\\u" ++ hex 4 n
  else "\\U" ++ hex 8 n

def escape (quote c : Char) : String :=
  if c = quote || c = '\\' then "\\" ++ c.toString
  else if c = '\n' then "\\n"
  else if c = '\r' then "\\r"
  else if c = '\t' then "\\t"
  else if isPrintable c then c.toString
  else escapeCode c.toNat

/-- The quote that encloses a text. -/
def quoteFor (s : String) : Char :=
  if s.contains '\'' && !s.contains '"' then '"' else '\''

def quoted (s : String) : String :=
  let q := quoteFor s
  q.toString ++ s.toList.foldl (fun t c => t ++ escape q c) "" ++ q.toString

end SmallLisp.Text
