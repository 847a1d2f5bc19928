/-!
# Writers and sinks

A `Writer` is anything that the text of a report can be given to: it may take a text or refuse it,
depending on all that it was given before.

A `Sink` is a place that keeps what it takes.  One with a bound takes that many bytes in all and
refuses the rest: a write that does not fit leaves the bytes that do, and fails.  `Sink.text` is
what a sink took, as text; a character that was cut off shows as a replacement character.
-/

namespace Custody

/-- What a text can be written to, with states in `σ`: the state after a text was given to it, and
why the text was refused, if it was. -/
structure Writer (σ : Type) where
  write : σ → String → σ × Option String

def utf8Bytes (s : String) : List UInt8 := s.toUTF8.toList

/-- Where the text of a report goes. -/
structure Sink where
  /-- How many further bytes are taken; any number if there is no bound. -/
  room : Option Nat := none
  taken : List UInt8 := []

namespace Sink

def write (s : Sink) (t : String) : Sink × Bool :=
  let bytes := utf8Bytes t
  match s.room with
  | none => ({ s with taken := s.taken ++ bytes }, true)
  | some n =>
    if bytes.length ≤ n then (⟨some (n - bytes.length), s.taken ++ bytes⟩, true)
    else (⟨some 0, s.taken ++ bytes.take n⟩, false)

/-- Writes texts up to the first that does not fit. -/
def writeAll (s : Sink) : List String → Sink × Bool
  | [] => (s, true)
  | t :: ts =>
    match s.write t with
    | (s, true) => s.writeAll ts
    | (s, false) => (s, false)

def outOfRoom : String := "out of room"

/-- A sink as a writer. -/
def writer : Writer Sink where
  write s t :=
    let (s, taken) := s.write t
    (s, if taken then none else some outOfRoom)

/-- The text of some bytes, with a replacement character for what is left over at the end when the
last `cut` bytes or fewer are no character. -/
def decode (bytes : List UInt8) : Nat → Option String
  | 0 => String.fromUTF8? ⟨bytes.toArray⟩
  | cut + 1 =>
    match decode bytes cut with
    | some t => some t
    | none =>
      (String.fromUTF8? ⟨(bytes.take (bytes.length - (cut + 1))).toArray⟩).map
        (· ++ String.ofList [Char.ofNat 0xFFFD])

def text (s : Sink) : String := (decode s.taken 3).getD ""

end Sink

end Custody
