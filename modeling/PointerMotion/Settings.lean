/-
Settings of a tracker.
-/
import PointerMotion.Scalar
import PointerMotion.Selector

namespace PointerMotion

/-- The strategy used when none is named, and how long a pause means a stop. -/
structure Settings (α : Type) where
  fallback : Selector
  stoppedMillis : α
  deriving Repr, DecidableEq

namespace Settings

variable {α : Type} [Scalar α]

def standardStrategy : StrategyId :=
  .lsq2

/-- The settings in force when nothing else is said: a pause of 40 ms is a
stop. -/
def standard : Settings α :=
  { fallback := .concrete standardStrategy, stoppedMillis := 40.0 }

/-- The pause after which pointers count as stopped, in whole nanoseconds. -/
def stoppedTime (s : Settings α) : Except ConversionError Int :=
  Scalar.truncate (s.stoppedMillis * 1000000.0)

omit [Scalar α] in
/-- The selector that a selector stands for. -/
def resolve (s : Settings α) : Selector → Selector
  | .configured => s.fallback
  | .concrete id => .concrete id

end Settings

end PointerMotion
