import Custody.Ownership.Session

/-!
# Texts for handles and counters

How counters, slots and handles are written out for a reader.  Addresses mean nothing to a reader,
so a set handle shows the word `PTR` in place of one.
-/

namespace Custody

def boolText (b : Bool) : String := if b then "true" else "false"

def optionText (t : Option String) : String :=
  match t with
  | none => "None"
  | some t => "Some(" ++ t ++ ")"

def recordText (name : String) (fields : List (String × String)) : String :=
  name ++ " \x7b " ++ String.intercalate ", " (fields.map fun f => f.1 ++ ": " ++ f.2) ++ " \x7d"

def Counter.text (k : Counter) : String :=
  recordText "ReferenceCounter"
    [("strong", k.strong.repr), ("weak", k.weak.repr), ("deleted", boolText k.deleted)]

def slotText (attached : Bool) : String :=
  recordText "CounterSlot" [("attached", boolText attached)]

/-- A strong handle: whether it is set, and its object's counter. -/
def StrongInfo.text (i : StrongInfo) : String :=
  recordText "Ref"
    [("ptr", if i.set then "PTR" else "0x0"), ("counter", optionText (i.counter.map Counter.text))]

def WeakInfo.text (i : WeakInfo) : String :=
  recordText "WeakRef" [("counter", optionText (i.counter.map Counter.text))]

end Custody
