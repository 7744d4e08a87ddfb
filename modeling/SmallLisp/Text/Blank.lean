/-!
Blank characters and the words between them.

`isBlank` is the Unicode notion of white space together with the four information separators
U+001C to U+001F.  `words` gives the maximal runs of other characters, in order; `strip` drops the
blanks at both ends of a text.
-/

namespace SmallLisp.Text

def isBlank (c : Char) : Bool :=
  let n := c.toNat
  (0x09 ≤ n && n ≤ 0x0D) || (0x1C ≤ n && n ≤ 0x20) || n == 0x85 || n == 0xA0 || n == 0x1680 ||
    (0x2000 ≤ n && n ≤ 0x200A) || n == 0x2028 || n == 0x2029 || n == 0x202F || n == 0x205F ||
    n == 0x3000

/-- A word in front of others; an empty word is dropped. -/
def pushWord (w : List Char) (ws : List (List Char)) : List (List Char) :=
  if w.isEmpty then ws else w :: ws

/-- One character in front of a text whose first word is `p.1` (empty when the text starts with a
blank) and whose other words are `p.2`. -/
def addChar (c : Char) (p : List Char × List (List Char)) : List Char × List (List Char) :=
  if isBlank c then ([], pushWord p.1 p.2) else (c :: p.1, p.2)

/-- The maximal runs of characters that are not blank. -/
def words (cs : List Char) : List (List Char) :=
  let p := cs.foldr addChar ([], [])
  pushWord p.1 p.2

def stripChars (cs : List Char) : List Char :=
  ((cs.dropWhile isBlank).reverse.dropWhile isBlank).reverse

def strip (s : String) : String :=
  String.ofList (stripChars s.toList)

end SmallLisp.Text
