/-
What an operation leaves behind: a state, also when it fails half way, with
the error and the warnings.
-/
import PointerMotion.InputError

namespace PointerMotion

/-- Events worth a warning while movements are added or a tracker is built. -/
inductive Warning where
  /-- a movement before the newest one -/
  | outOfOrder (time newest : Int)
  /-- a filtered pointer whose time does not advance -/
  | notAdvancing (id : PointerId) (time last : Int)
  /-- two samples of one time, and no others, in an impulse estimate -/
  | noInterval (time : Int)
  /-- two neighbours of one time in an impulse estimate -/
  | skippedInterval (time : Int)
  /-- a request for a strategy that does not exist; `shown` is its text -/
  | unknownStrategy (shown fallback : String)
  /-- a default strategy in the settings that does not exist -/
  | unknownDefault (shown fallback : String)
  /-- a default strategy in the settings that refers to the settings -/
  | circularDefault (fallback : String)
  deriving Repr, DecidableEq

def Warning.message : Warning → String
  | .outOfOrder time newest =>
      "Out-of-order movement at " ++ Decimal.intText time ++ " (newest "
        ++ Decimal.intText newest ++ "), starting a fresh sequence"
  | .notAdvancing id time last =>
      "Pointer " ++ Decimal.natText id.val ++ ": non-monotonic time "
        ++ Decimal.intText time ++ " after " ++ Decimal.intText last
        ++ ", reinitializing"
  | .noInterval time =>
      "Events have identical time stamps t=" ++ Decimal.intText time
        ++ ", setting velocity = 0"
  | .skippedInterval time =>
      "Events have identical time stamps t=" ++ Decimal.intText time
        ++ ", skipping sample"
  | .unknownStrategy shown fallback =>
      "Unrecognized velocity tracker strategy " ++ shown ++
        ", using " ++ fallback
  | .unknownDefault shown fallback =>
      "Unknown default strategy " ++ shown ++ " in settings, using " ++ fallback
  | .circularDefault fallback =>
      "Default strategy cannot be DEFAULT, using " ++ fallback

/-- A state, the warnings on the way to it, and the error that ended the way. -/
structure Outcome (σ : Type) where
  state : σ
  warnings : List Warning
  error : Option InputError

namespace Outcome

variable {σ τ : Type}

def done (state : σ) : Outcome σ :=
  ⟨state, [], none⟩

/-- An operation that fails and leaves `state`. -/
def failed (state : σ) (e : InputError) : Outcome σ :=
  ⟨state, [], some e⟩

/-- An outcome seen in a larger state. -/
def map (f : σ → τ) (o : Outcome σ) : Outcome τ :=
  ⟨f o.state, o.warnings, o.error⟩

def warn (w : Warning) (o : Outcome σ) : Outcome σ :=
  { o with warnings := w :: o.warnings }

/-- The next operation, unless this one failed. -/
def andThen (o : Outcome σ) (next : σ → Outcome σ) : Outcome σ :=
  match o.error with
  | some _ => o
  | none =>
      let after := next o.state
      ⟨after.state, o.warnings ++ after.warnings, after.error⟩

/-- A value if there is one, else a failure that leaves `state`. -/
def orFail {β : Type} (value : Except InputError β) (state : σ)
    (next : β → Outcome σ) : Outcome σ :=
  match value with
  | .ok b => next b
  | .error e => failed state e

def runAll (ops : List (σ → Outcome σ)) (state : σ) : Outcome σ :=
  ops.foldl andThen (done state)

end Outcome

end PointerMotion
