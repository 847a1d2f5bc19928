import Custody.Text.CaseTable

/-!
# Upper and lower case

`upper` and `lower` map a text character by character, one to one or one to several.  The only
mapping that looks around is that of a capital sigma: it becomes a final sigma at the end of a word
(`endsWord`), and a plain one elsewhere.
-/

namespace Custody.Text

/-- Where a range sends the character `n`, if it holds it. -/
def CaseRange.shifted? (r : CaseRange) (n : Nat) : Option Char :=
  if r.first ≤ n && n ≤ r.last && (n - r.first) % r.step == 0 then
    some (Char.ofNat (n + r.shift).toNat)
  else none

def upperChar (c : Char) : List Char :=
  if c.toNat < 0x80 then [c.toUpper]
  else
    match upperFull.lookup c.toNat with
    | some ns => ns.map Char.ofNat
    | none => [(upperRanges.findSome? (·.shifted? c.toNat)).getD c]

/-- Lower case of one character, a capital sigma taken to be inside a word. -/
def lowerChar (c : Char) : List Char :=
  if c.toNat < 0x80 then [c.toLower]
  else if c.toNat = 0x130 then ['i', Char.ofNat 0x307]
  else [(lowerRanges.findSome? (·.shifted? c.toNat)).getD c]

def inRanges (rs : List (Nat × Nat)) (c : Char) : Bool :=
  rs.any fun r => r.1 ≤ c.toNat && c.toNat ≤ r.2

/-- Whether the next character that casing does not ignore is a cased one. -/
def meetsCased (cs : List Char) : Bool :=
  match cs.dropWhile (inRanges ignorableRanges) with
  | [] => false
  | c :: _ => inRanges casedRanges c

/-- Whether a letter between two texts, the one before it reversed, ends a word. -/
def endsWord (before after : List Char) : Bool := meetsCased before && !meetsCased after

def upper (cs : List Char) : List Char := cs.flatMap upperChar

/-- Lower case of the text `cs` that follows the reverse of `before`. -/
def lowerAfter (before : List Char) : List Char → List Char
  | [] => []
  | c :: cs =>
    (if c = 'Σ' then [if endsWord before cs then 'ς' else 'σ'] else lowerChar c) ++
      lowerAfter (c :: before) cs

def lower (cs : List Char) : List Char := lowerAfter [] cs

def upperString (s : String) : String := String.ofList (upper s.toList)

def lowerString (s : String) : String := String.ofList (lower s.toList)

end Custody.Text
