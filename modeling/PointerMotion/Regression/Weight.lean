/-
Weights of the samples of a regression, youngest first and with ages in
milliseconds.  A weight lies between a half and one.
-/
import PointerMotion.Scalar

namespace PointerMotion

/-- What the weight of a sample depends on. -/
inductive Weighting where
  /-- nothing: every sample counts fully -/
  | none
  /-- the gap to the next younger sample -/
  | delta
  /-- the age: the middle ages count fully -/
  | central
  /-- the age: the young count fully -/
  | recent
  deriving Repr, DecidableEq

namespace Weighting

def all : List Weighting :=
  [none, delta, central, recent]

def name : Weighting → String
  | none => "none"
  | delta => "delta"
  | central => "central"
  | recent => "recent"

def ofName? (name : String) : Option Weighting :=
  all.find? fun w => w.name == name

variable {α : Type} [Scalar α]

/-- Full weight from a gap of ten milliseconds on, a half at no gap. -/
def ofGap (gap : α) : α :=
  if Scalar.less gap 0.0 then 0.5
  else if Scalar.less gap 10.0 then 0.5 + gap * 0.05
  else 1.0

/-- Full weight from ten to fifty milliseconds, a half at none and from sixty
on. -/
def ofCentralAge (age : α) : α :=
  if Scalar.less age 0.0 then 0.5
  else if Scalar.less age 10.0 then 0.5 + age * 0.05
  else if Scalar.less age 50.0 then 1.0
  else if Scalar.less age 60.0 then 0.5 + (60.0 - age) * 0.05
  else 0.5

/-- Full weight up to fifty milliseconds, a half from a hundred on. -/
def ofRecentAge (age : α) : α :=
  if Scalar.less age 50.0 then 1.0
  else if Scalar.less age 100.0 then 0.5 + (100.0 - age) * 0.01
  else 0.5

/-- The weight of a sample of some age, given the age of the next younger
one. -/
def weight (w : Weighting) (younger? : Option α) (age : α) : α :=
  match w with
  | none => 1.0
  | delta =>
      match younger? with
      | .none => 1.0
      | .some younger => ofGap (age - younger)
  | central => ofCentralAge age
  | recent => ofRecentAge age

/-- The weights of samples behind one of some age. -/
def weightsBehind (w : Weighting) (younger? : Option α) : List α → List α
  | [] => []
  | age :: rest => w.weight younger? age :: weightsBehind w (some age) rest

/-- The weights of samples, youngest first. -/
def weights (w : Weighting) (ages : List α) : List α :=
  w.weightsBehind .none ages

end Weighting

end PointerMotion
