/-!
# Blanks

The characters that count as white space at the ends of a text, `isBlank`, and `trim`, which cuts
them off both ends.
-/

namespace Custody.Text

def isBlank (c : Char) : Bool :=
  let n := c.toNat
  (0x9 ≤ n && n ≤ 0xD) || n == 0x20 || n == 0x85 || n == 0xA0 || n == 0x1680 ||
    (0x2000 ≤ n && n ≤ 0x200A) || n == 0x2028 || n == 0x2029 || n == 0x202F || n == 0x205F ||
    n == 0x3000

/-- The text from its first character that is not blank. -/
def trimLeft (cs : List Char) : List Char := cs.dropWhile isBlank

/-- The text up to its last character that is not blank. -/
def trimRight (cs : List Char) : List Char := (cs.reverse.dropWhile isBlank).reverse

def trim (cs : List Char) : List Char := trimRight (trimLeft cs)

def trimString (s : String) : String := String.ofList (trim s.toList)

def isBlankText (cs : List Char) : Bool := cs.all isBlank

end Custody.Text
