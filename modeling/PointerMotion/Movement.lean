/-
Movements: the positions of a set of pointers at one time, packed by ascending
id.  Coordinates and times arrive as readings, which are converted only where a
movement is made.
-/
import PointerMotion.InputError
import PointerMotion.PointerSet.Lemmas

namespace PointerMotion

/-- A position in input units. -/
structure Position (α : Type) where
  x : α
  y : α
  deriving Repr, DecidableEq

/-- A number as it is delivered. -/
inductive Reading (α : Type) where
  | whole (n : Int)
  | scalar (a : α)
  deriving Repr, DecidableEq

/-- A position as it is delivered: coordinates, of which the first two count. -/
abbrev Point (α : Type) := List (Reading α)

section Readings

variable {α : Type} [Scalar α]

namespace Reading

def toScalar : Reading α → Except InputError α
  | .whole n => (Scalar.ofInt? n).mapError .conversion
  | .scalar a => .ok a

/-- The whole number that a reading denotes; a scalar loses its fraction. -/
def toInt : Reading α → Except InputError Int
  | .whole n => .ok n
  | .scalar a => (Scalar.truncate a).mapError .conversion

end Reading

namespace Point

def toPosition : Point α → Except InputError (Position α)
  | x :: y :: _ => do
      let x ← x.toScalar
      let y ← y.toScalar
      return ⟨x, y⟩
  | [x] => x.toScalar.bind fun _ => .error .missingCoordinate
  | [] => .error .missingCoordinate

/-- A position delivered again. -/
def ofPosition (p : Position α) : Point α :=
  [.scalar p.x, .scalar p.y]

@[simp] theorem toPosition_ofPosition (p : Position α) :
    toPosition (ofPosition p) = .ok p :=
  rfl

end Point

end Readings

/-- One sample: a time, the pointers present and their positions by ascending
id. -/
structure Movement (α : Type) where
  time : Int
  ids : PointerSet
  positions : List (Position α)
  sized : positions.length = ids.card
  deriving DecidableEq

namespace Movement

variable {α : Type}

def position (m : Movement α) (id : PointerId) (h : id ∈ m.ids) : Position α :=
  m.positions.get ⟨m.ids.rank id, m.sized ▸ PointerSet.rank_lt_card h⟩

def position? (m : Movement α) (id : PointerId) : Option (Position α) :=
  if h : id ∈ m.ids then some (m.position id h) else none

def without (m : Movement α) (gone : PointerSet) : Movement α :=
  let left := m.ids \ gone
  { time := m.time
    ids := left
    positions := left.toList.attach.map fun id =>
      m.position id.val
        (PointerSet.mem_sdiff.mp (PointerSet.mem_toList.mp id.property)).1
    sized := by simp [PointerSet.card_eq_length_toList] }

/-- The movement of delivered positions.  The count is checked first, then the
time is read, then the positions from the smallest id up. -/
def make? [Scalar α] (time : Reading α) (ids : PointerSet)
    (points : List (Point α)) :
    Except InputError (Movement α) :=
  if points.length = ids.card then do
    let time ← time.toInt
    let positions ← points.mapM Point.toPosition
    if h : positions.length = ids.card then return ⟨time, ids, positions, h⟩
    else .error (.positionCount ids positions.length)
  else .error (.positionCount ids points.length)

end Movement

end PointerMotion
