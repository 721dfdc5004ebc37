/-
Weighted least squares with polynomials.  The weighted monomials are made
orthonormal one after another, and there is no fit where what is left of one is
shorter than a tolerance.
-/
import PointerMotion.Scalar

namespace PointerMotion

namespace Fit

variable {α : Type} [Scalar α]

/-- A polynomial by its coefficients, with its weighted values at the
samples. -/
structure Column (α : Type) where
  values : List α
  coefficients : List α
  deriving Repr

def sum (xs : List α) : α :=
  xs.foldl (· + ·) 0.0

def dot (xs ys : List α) : α :=
  sum (List.zipWith (· * ·) xs ys)

/-- One list plus a multiple of another. -/
def addMultiple (xs : List α) (factor : α) (ys : List α) : List α :=
  List.zipWith (fun x y => x + factor * y) xs ys

def norm (xs : List α) : α :=
  Scalar.sqrt (dot xs xs)

namespace Column

/-- A column without its part along another one of length one. -/
def reject (c along : Column α) : Column α :=
  let part := -dot along.values c.values
  { values := addMultiple c.values part along.values
    coefficients := addMultiple c.coefficients part along.coefficients }

def scaleDown (c : Column α) (divisor : α) : Column α :=
  { values := c.values.map (· / divisor)
    coefficients := c.coefficients.map (· / divisor) }

end Column

/-- Powers of a number, multiplied up from the zeroth. -/
def power (t : α) : Nat → α
  | 0 => 1.0
  | k + 1 => power t k * t

/-- The polynomial `t ^ k` among those with `count` coefficients. -/
def monomial (times weights : List α) (count k : Nat) : Column α :=
  { values := List.zipWith (fun w t => w * power t k) weights times
    coefficients := (List.range count).map fun j => if j = k then 1.0 else 0.0 }

/-- Below this length a column counts as dependent on those before it. -/
def tolerance : α :=
  1e-6

/-- Adds columns to an orthonormal basis, unless one depends on those before
it. -/
def extend (basis : List (Column α)) :
    List (Column α) → Option (List (Column α))
  | [] => some basis
  | column :: rest =>
      let left := basis.foldl Column.reject column
      let length := norm left.values
      if Scalar.less length tolerance then none
      else extend (basis ++ [left.scaleDown length]) rest

/-- An orthonormal basis of the polynomials with `count` coefficients. -/
def basis? (times weights : List α) (count : Nat) : Option (List (Column α)) :=
  if times.length < count then none
  else extend [] ((List.range count).map (monomial times weights count))

/-- The data still to be explained and the polynomial found so far. -/
structure Progress (α : Type) where
  left : List α
  coefficients : List α

/-- The projection of the data on one more column of length one. -/
def Progress.project (p : Progress α) (c : Column α) : Progress α :=
  let part := dot c.values p.left
  { left := addMultiple p.left (-part) c.values
    coefficients := addMultiple p.coefficients part c.coefficients }

/-- The best polynomial for weighted data over an orthonormal basis. -/
def project (basis : List (Column α)) (data : List α) (count : Nat) : List α :=
  (basis.foldl Progress.project ⟨data, List.replicate count 0.0⟩).coefficients

def evaluate (coefficients : List α) (t : α) : α :=
  sum (List.zipWith (fun c k => c * power t k) coefficients
      (List.range coefficients.length))

def mean (xs : List α) : α :=
  sum xs / Scalar.ofInt xs.length

/-- The weighted sum of squares of differences. -/
def squares (weights xs ys : List α) : α :=
  dot (weights.map fun w => w * w)
    (List.zipWith (fun x y => (x - y) * (x - y)) xs ys)

/-- A number moved into the unit interval; what is no number goes to zero. -/
def clamp (x : α) : α :=
  let above := if Scalar.less 0.0 x then x else 0.0
  if Scalar.less above 1.0 then above else 1.0

/-- The share of the weighted spread around the mean that fitted values explain.
Data without spread count as explained. -/
def determination (weights data fitted : List α) : α :=
  let unexplained := squares weights data fitted
  let total := squares weights data (List.replicate data.length (mean data))
  clamp (if Scalar.less tolerance total then 1.0 - unexplained / total else 1.0)

/-- A fitted polynomial and how much of the data it explains. -/
structure Solution (α : Type) where
  coefficients : List α
  determination : α
  deriving Repr

/-- The polynomial with `count` coefficients that minimises the weighted squared
error, if the times and weights determine one. -/
def solve? (times data weights : List α) (count : Nat) : Option (Solution α) :=
  (basis? times weights count).map fun basis =>
    let coefficients := project basis (List.zipWith (· * ·) weights data) count
    { coefficients := coefficients
      determination :=
        determination weights data (times.map (evaluate coefficients)) }

inductive ShapeError where
  /-- the lists differ in length, and stretching single entries does not help -/
  | lengths
  /-- a fit needs at least one coefficient -/
  | noCoefficients
  deriving Repr, DecidableEq

/-- A list of one entry repeated to a length; any other must have that
length. -/
def stretch (xs : List α) (length : Nat) : Except ShapeError (List α) :=
  if xs.length = length then .ok xs
  else
    match xs with
    | [x] => .ok (List.replicate length x)
    | _ => .error .lengths

/-- The length to which two lists are stretched. -/
def commonLength (m n : Nat) : Except ShapeError Nat :=
  if m = n then .ok m
  else if m = 1 then .ok n
  else if n = 1 then .ok m
  else .error .lengths

/-- A fit of lists whose single entries stand for as many as are needed.
Whether the times and weights determine a polynomial is settled before the data
are looked at. -/
def solveStretched? (times data weights : List α) (count : Int) :
    Except ShapeError (Option (Solution α)) := do
  let length ← commonLength weights.length times.length
  if count ≤ 0 then .error .noCoefficients
  else
    let times ← stretch times length
    let stretched ← stretch weights length
    match basis? times stretched count.toNat with
    | none => return none
    | some _ =>
        let common ← commonLength weights.length data.length
        if common = length then
          let data ← stretch data length
          return solve? times data stretched count.toNat
        else .error .lengths

end Fit

end PointerMotion
