import SmallLisp.Text.Blank

/-!
Tokens of a source text: each parenthesis is one, and so is each maximal run of characters that are
neither parentheses nor blank.
-/

namespace SmallLisp

namespace Token

def opening : String := "("

def closing : String := ")"

/-- A text with blanks around its parentheses. -/
def spaced (cs : List Char) : List Char :=
  cs.flatMap fun c => if c = '(' || c = ')' then [' ', c, ' '] else [c]

end Token

def tokenize (source : String) : List String :=
  (Text.words (Token.spaced source.toList)).map String.ofList

end SmallLisp
