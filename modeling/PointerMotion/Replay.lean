/-
Replaying a trace through a tracker, and the report of what it knows at the end.
-/
import PointerMotion.Trace
import PointerMotion.Tracker

namespace PointerMotion

namespace Replay

def addSample (s : Trace.Sample) (t : Tracker Float) :
    Outcome (Tracker Float) :=
  t.addSet (.whole s.time) s.ids (s.positions.map Point.ofPosition)

def replay (samples : List Trace.Sample) (t : Tracker Float) :
    Outcome (Tracker Float) :=
  Outcome.runAll (samples.map addSample) t

def pointers (samples : List Trace.Sample) : PointerSet :=
  samples.foldl (fun ids s => ids ∪ s.ids) ∅

def reportLine (t : Tracker Float) (id : PointerId) : String :=
  let estimate := t.estimate id
  let e := estimate.getD .cleared
  let v := (Tracker.velocityOf estimate).getD ⟨0.0, 0.0⟩
  "\t".intercalate
    [t.strategyId.name.toLower, Decimal.natText id.val,
      if estimate.isSome then "ok" else "none",
      "vx=" ++ Decimal.tableText v.x,
      "vy=" ++ Decimal.tableText v.y,
      "degree=" ++ Decimal.intText e.degree,
      "confidence=" ++ Decimal.tableText e.confidence]

def report (samples : List Trace.Sample) (t : Tracker Float) : List String :=
  (pointers samples).toList.map (reportLine t)

end Replay

end PointerMotion
