/-
Sets of pointer ids, as words of thirty-two bits.  The rank of an id is the
number of members below it, which is its place in a packed list.
-/

namespace PointerMotion

/-- The id of a pointer. -/
abbrev PointerId := Fin 32

/-- Ids can be written as numbers. -/
instance neZero_ids : @NeZero Nat Zero.ofOfNat0 32 :=
  ⟨by decide⟩

/-- A set of pointer ids, the bit of an id being set when the id is present. -/
structure PointerSet where
  bits : BitVec 32
  deriving Repr, DecidableEq

inductive PointerError where
  | idOutOfRange (id : Int)
  | maskTooWide (mask : Int)
  deriving Repr, DecidableEq

namespace PointerId

def ofInt? (n : Int) : Except PointerError PointerId :=
  if h : 0 ≤ n ∧ n < 32 then .ok ⟨n.toNat, by omega⟩
  else .error (.idOutOfRange n)

end PointerId

namespace PointerSet

instance : Membership PointerId PointerSet where
  mem s id := s.bits.getLsbD id = true

instance (id : PointerId) (s : PointerSet) : Decidable (id ∈ s) :=
  inferInstanceAs (Decidable (s.bits.getLsbD id = true))

instance : EmptyCollection PointerSet where
  emptyCollection := ⟨0⟩

instance : Union PointerSet where
  union s t := ⟨s.bits ||| t.bits⟩

instance : Inter PointerSet where
  inter s t := ⟨s.bits &&& t.bits⟩

instance : SDiff PointerSet where
  sdiff s t := ⟨s.bits &&& ~~~t.bits⟩

instance : Singleton PointerId PointerSet where
  singleton id := ⟨BitVec.twoPow 32 id⟩

def insert (s : PointerSet) (id : PointerId) : PointerSet :=
  s ∪ {id}

def ofList (ids : List PointerId) : PointerSet :=
  ids.foldl insert ∅

/-- The set of a list of numbers, or the first number that is no pointer id. -/
def ofInts? (ids : List Int) : Except PointerError PointerSet :=
  (ids.mapM PointerId.ofInt?).map ofList

/-- The set whose bits are those of a number. -/
def ofMask? (mask : Int) : Except PointerError PointerSet :=
  if 0 ≤ mask ∧ mask < 4294967296 then .ok ⟨BitVec.ofInt 32 mask⟩
  else .error (.maskTooWide mask)

/-- The number whose binary digits are the bits of the set. -/
def mask (s : PointerSet) : Nat :=
  s.bits.toNat

def toList (s : PointerSet) : List PointerId :=
  (List.finRange 32).filter (· ∈ s)

/-- The number of ones among the lowest `width` binary digits of a number. -/
def onesCount : Nat → Nat → Nat
  | 0, _ => 0
  | width + 1, n => n % 2 + onesCount width (n / 2)

def card (s : PointerSet) : Nat :=
  onesCount 32 s.mask

def rank (s : PointerSet) (id : PointerId) : Nat :=
  onesCount id.val s.mask

def isEmpty (s : PointerSet) : Bool :=
  s.bits == 0

def lowest (count : Nat) (s : PointerSet) : PointerSet :=
  ofList (s.toList.take count)

end PointerSet

end PointerMotion
