import Custody.Market.Cache
import Custody.Ownership.Describe
import Custody.Report.Sink
import Custody.Text.Fixed

/-!
# A walk through one object's life

`Scenario.run` takes one series through two strong handles and a weak one and writes the counts
after every step.
-/

namespace Custody.Scenario

def counts : Option Counter → String
  | none => "none"
  | some k =>
    "(" ++ k.strong.repr ++ ", " ++ k.weak.repr ++ ")" ++ if k.deleted then " deleted" else ""

def line (number : Nat) (action observed : String) : String :=
  number.repr ++ ". " ++ Text.padRight 14 action ++ " " ++ observed ++ "\n"

def lines (h : Heap Series) : Except Fault (Heap Series × List String) := do
  let before := h.live
  let (h, r₁) ← h.manage (SeriesId.fresh ⟨"X", .d1, .closing⟩)
  let l₁ := line 1 "r1 = new X" ("counter " ++ counts (← h.counterOf r₁))
  let (h, r₂) ← h.clone r₁
  let l₂ := line 2 "r2 = r1" ("counter " ++ counts (← h.counterOf r₁))
  let (h, w) ← h.downgrade r₁
  let l₃ := line 3 "w = weak(r1)" ("counter " ++ counts (← h.counterOf r₁))
  let (h, _) ← h.release [.strong r₁]
  let l₄ := line 4 "release r1"
    ("counter " ++ counts (← h.counterOf r₂) ++ " exists " ++ boolText (← h.objectExists w))
  let (h, _) ← h.release [.strong r₂]
  let l₅ := line 5 "release r2" ("counter " ++ counts (← h.boundTo w))
  let l₆ := line 6 "observe w"
    ("exists " ++ boolText (← h.objectExists w) ++ " ptr null " ++
      boolText (← h.visible w).isNone)
  let (h, _) ← h.release [.weak w]
  let l₇ := line 7 "release w"
    ("counter " ++ counts (← h.boundTo ⟨none⟩) ++ " live counters " ++ (h.live - before).repr)
  .ok (h, [l₁, l₂, l₃, l₄, l₅, l₆, l₇])

/-- What a walk leaves: the heap, the sink and whether everything could be written. -/
structure Outcome where
  heap : Heap Series
  sink : Sink
  written : Bool

def run (h : Heap Series) (sink : Sink) : Except Fault Outcome := do
  let (h, ls) ← lines h
  let (sink, written) := sink.writeAll ls
  .ok ⟨h, sink, written⟩

end Custody.Scenario
