/-
The mask of a set of pointers: arithmetic on unbounded numbers reads the same
members in several ways.
-/
import Mathlib.Data.Int.Bitwise
import Mathlib.Data.Nat.BitIndices
import Mathlib.Data.Nat.Factorization.Basic
import Mathlib.Tactic.Ring
import PointerMotion.Proofs.IdList

namespace PointerMotion

namespace PointerSet

section Ones

/-- The lowest one of a number, by itself: the one that the number shares with
its negative. -/
def lowestOne (n : Nat) : Nat :=
  (Int.land n (-n)).toNat

/-- Every number but zero has a lowest one, with nothing below it. -/
theorem exists_eq_two_pow_mul_add {n : Nat} (hn : n ≠ 0) :
    ∃ k high, n = 2 ^ (k + 1) * high + 2 ^ k := by
  obtain ⟨k, _, ⟨high, rfl⟩, rfl⟩ := Nat.exists_eq_two_pow_mul_odd hn
  exact ⟨k, high, by ring⟩

variable (k high : Nat)

/-- The digits above the lowest one are turned over by the negative, and that
one is not. -/
theorem lowestOne_eq : lowestOne (2 ^ (k + 1) * high + 2 ^ k) = 2 ^ k := by
  have hone : 0 < 2 ^ k := Nat.two_pow_pos k
  obtain ⟨below, hbelow⟩ : ∃ below, 2 ^ (k + 1) * high + 2 ^ k = below + 1 :=
    Nat.exists_eq_add_one_of_ne_zero (by omega)
  -- the negative of a number is the complement of the one before it
  have hland : lowestOne (below + 1) = Nat.ldiff (below + 1) below := rfl
  have hlow : below = 2 ^ (k + 1) * high + (2 ^ k - 1) := by omega
  rw [hbelow, hland, ← hbelow, hlow]
  apply Nat.eq_of_testBit_eq
  intro i
  rw [Nat.testBit_ldiff,
    Nat.testBit_two_pow_mul_add _ (Nat.pow_lt_pow_succ Nat.one_lt_two),
    Nat.testBit_two_pow_mul_add _ (by omega), Nat.testBit_two_pow,
    Nat.testBit_two_pow_sub_one]
  by_cases hi : i < k + 1
  · by_cases hk : k = i <;> simp [hi, hk]
  · have hne : k ≠ i := by omega
    simp [hi, hne]

theorem xor_lowestOne :
    (2 ^ (k + 1) * high + 2 ^ k) ^^^ lowestOne (2 ^ (k + 1) * high + 2 ^ k) =
      2 ^ (k + 1) * high := by
  rw [lowestOne_eq]
  apply Nat.eq_of_testBit_eq
  intro i
  rw [Nat.testBit_xor,
    Nat.testBit_two_pow_mul_add _ (Nat.pow_lt_pow_succ Nat.one_lt_two),
    Nat.testBit_two_pow, Nat.testBit_two_pow_mul]
  by_cases hi : i < k + 1
  · have hlow : ¬ i ≥ k + 1 := by omega
    simp [hi, hlow]
  · have hne : k ≠ i := by omega
    have hhigh : i ≥ k + 1 := by omega
    simp [hi, hne, hhigh]

theorem xor_lowestOne_lt {n : Nat} (hn : n ≠ 0) : n ^^^ lowestOne n < n := by
  obtain ⟨k, high, rfl⟩ := exists_eq_two_pow_mul_add hn
  rw [xor_lowestOne]
  exact Nat.lt_add_of_pos_right (Nat.two_pow_pos k)

/-- The places of the ones of a number, the lowest one taken off first. -/
def peel (n : Nat) : List Nat :=
  if n = 0 then [] else (lowestOne n).log2 :: peel (n ^^^ lowestOne n)
termination_by n
decreasing_by exact xor_lowestOne_lt ‹_›

theorem peel_two_pow_mul_add :
    peel (2 ^ (k + 1) * high + 2 ^ k) = k :: peel (2 ^ (k + 1) * high) := by
  have hne : 2 ^ (k + 1) * high + 2 ^ k ≠ 0 := by
    have := Nat.two_pow_pos k
    omega
  rw [peel, if_neg hne, xor_lowestOne, lowestOne_eq, Nat.log2_two_pow]

/-- The places come out in ascending order, each once. -/
theorem peel_eq_bitIndices (n : Nat) : peel n = n.bitIndices := by
  induction n using Nat.strong_induction_on with
  | _ n ih =>
      by_cases hn : n = 0
      · rw [hn, peel, if_pos rfl, Nat.bitIndices_zero]
      · obtain ⟨k, high, rfl⟩ := exists_eq_two_pow_mul_add hn
        have hodd : 2 ^ (k + 1) * high + 2 ^ k = 2 ^ k * (2 * high + 1) := by
          ring
        have hsmaller : 2 ^ (k + 1) * high < 2 ^ (k + 1) * high + 2 ^ k :=
          Nat.lt_add_of_pos_right (Nat.two_pow_pos k)
        rw [peel_two_pow_mul_add, ih _ hsmaller, hodd,
          Nat.bitIndices_two_pow_mul, Nat.bitIndices_two_pow_mul,
          Nat.bitIndices_two_mul_add_one]
        simp [Nat.add_comm 1 k]

/-- The binary text of a number has as many ones as the number has places of
ones. -/
theorem count_toDigits (n : Nat) :
    (Nat.toDigits 2 n).count '1' = n.bitIndices.length := by
  induction n using Nat.strong_induction_on with
  | _ n ih =>
      rw [Nat.toDigits_eq_if Nat.one_lt_two]
      split
      next hsmall =>
        obtain rfl | rfl : n = 0 ∨ n = 1 := by omega
        · simp [Nat.digitChar]
        · simp [Nat.digitChar]
      next hlarge =>
        rw [List.count_append, ih (n / 2) (by omega)]
        rcases Nat.even_or_odd' n with ⟨half, rfl | rfl⟩
        · simp [Nat.digitChar]
        · have hhalf : (2 * half + 1) / 2 = half := by omega
          simp [hhalf, Nat.digitChar, Nat.add_mod]

/-- The ones among the lowest digits stand at the places below a bound. -/
theorem bitIndices_and_two_pow_sub_one (n k : Nat) :
    (n &&& (2 ^ k - 1)).bitIndices = n.bitIndices.filter (· < k) := by
  refine (Nat.bitIndices_sorted.pairwise).eq_of_mem_iff
    (Nat.bitIndices_sorted.pairwise.filter _) fun i => ?_
  simp [and_comm]

/-- A number has nothing but its lowest digits when it is small. -/
theorem ldiff_two_pow_sub_one_eq_zero_iff (n k : Nat) :
    n.ldiff (2 ^ k - 1) = 0 ↔ n < 2 ^ k := by
  have hbit : ∀ i,
      (n.ldiff (2 ^ k - 1)).testBit i = (n.testBit i && decide (k ≤ i)) := by
    intro i
    rw [Nat.testBit_ldiff, Nat.testBit_two_pow_sub_one, ← decide_not]
    simp only [Nat.not_lt]
  constructor
  · intro h
    apply Nat.lt_pow_two_of_testBit
    intro i hi
    simpa [h, hi] using (hbit i).symm
  · intro h
    apply Nat.zero_of_testBit_eq_false
    intro i
    rw [hbit, Bool.and_eq_false_imp, decide_eq_false_iff_not]
    intro hone hi
    have hfar : n < 2 ^ i := h.trans_le (Nat.pow_le_pow_right Nat.two_pos hi)
    rw [Nat.testBit_lt_two_pow hfar] at hone
    cases hone

end Ones

theorem mask_lt (s : PointerSet) : s.mask < 2 ^ 32 :=
  s.bits.isLt

theorem mem_iff_testBit {id : PointerId} {s : PointerSet} :
    id ∈ s ↔ s.mask.testBit id = true :=
  Iff.rfl

theorem eq_of_mask {s t : PointerSet} (h : s.mask = t.mask) : s = t :=
  ext_of_mem fun id => by rw [mem_iff_testBit, mem_iff_testBit, h]

/-- A number from zero up to the largest word of 32 digits is the mask of one
set. -/
theorem ofMask?_eq_ok_iff {n : Int} {s : PointerSet} :
    ofMask? n = .ok s ↔ n = s.mask := by
  have hmask := s.mask_lt
  constructor
  · intro h
    rw [ofMask?] at h
    split at h
    next hrange =>
      rw [← Except.ok.inj h, mask, BitVec.toNat_ofInt]
      omega
    next => cases h
  · rintro rfl
    rw [ofMask?, if_pos (by omega)]
    exact congrArg Except.ok (eq_of_mask (by simp [mask]))

theorem exists_ofMask?_iff {n : Int} :
    (∃ s, ofMask? n = .ok s) ↔ 0 ≤ n ∧ n < 2 ^ 32 := by
  simp only [ofMask?_eq_ok_iff]
  constructor
  · rintro ⟨s, rfl⟩
    have hmask := s.mask_lt
    omega
  · rintro ⟨hlow, hhigh⟩
    refine ⟨⟨BitVec.ofInt 32 n⟩, ?_⟩
    rw [mask, BitVec.toNat_ofInt]
    omega

/-- A mask has nothing in common with the complement of the largest one, which
is negative. -/
theorem land_lnot_eq_zero_iff {n : Int} :
    Int.land n (Int.lnot (2 ^ 32 - 1)) = 0 ↔ 0 ≤ n ∧ n < 2 ^ 32 := by
  rcases n with n | n
  · have hland : Int.land (.ofNat n) (Int.lnot (2 ^ 32 - 1)) =
        (n.ldiff (2 ^ 32 - 1) : Nat) := rfl
    rw [hland, Int.natCast_eq_zero, ldiff_two_pow_sub_one_eq_zero_iff,
      Int.ofNat_eq_natCast]
    omega
  · have hland :
        Int.land (.negSucc n) (Int.lnot (2 ^ 32 - 1)) =
          .negSucc (n ||| (2 ^ 32 - 1)) := rfl
    rw [hland]
    omega

/-- The members in ascending order are the places of the ones of the mask. -/
theorem map_val_toList (s : PointerSet) :
    s.toList.map Fin.val = s.mask.bitIndices := by
  have hascending : (s.toList.map Fin.val).Pairwise (· < ·) :=
    List.pairwise_map.mpr (s.pairwise_toList.imp Fin.lt_def.mp)
  refine hascending.eq_of_mem_iff Nat.bitIndices_sorted.pairwise fun i => ?_
  rw [List.mem_map, Nat.mem_bitIndices]
  constructor
  · rintro ⟨id, hid, rfl⟩
    exact mem_iff_testBit.mp (mem_toList.mp hid)
  · intro hbit
    have hi : i < 32 := by
      by_contra! hfar
      have hlarge : s.mask < 2 ^ i :=
        s.mask_lt.trans_le (Nat.pow_le_pow_right Nat.two_pos hfar)
      rw [Nat.testBit_lt_two_pow hlarge] at hbit
      cases hbit
    exact ⟨⟨i, hi⟩, mem_toList.mpr (mem_iff_testBit.mpr hbit), rfl⟩

theorem card_eq_count_toDigits (s : PointerSet) :
    s.card = (Nat.toDigits 2 s.mask).count '1' := by
  rw [count_toDigits, ← map_val_toList, List.length_map, card_eq_length_toList]

theorem rank_eq_count_toDigits (s : PointerSet) (id : PointerId) :
    s.rank id = (Nat.toDigits 2 (s.mask &&& (2 ^ id.val - 1))).count '1' := by
  rw [count_toDigits, bitIndices_and_two_pow_sub_one, ← map_val_toList,
    List.filter_map, List.length_map, rank_eq_countP_toList,
    List.countP_eq_length_filter]
  rfl

theorem mask_union (s t : PointerSet) : (s ∪ t).mask = s.mask ||| t.mask :=
  BitVec.toNat_or s.bits t.bits

theorem mask_inter (s t : PointerSet) : (s ∩ t).mask = s.mask &&& t.mask :=
  BitVec.toNat_and s.bits t.bits

theorem mask_sdiff (s t : PointerSet) : (s \ t).mask = s.mask.ldiff t.mask := by
  have hbits : (s \ t).bits = s.bits &&& ~~~t.bits := rfl
  apply Nat.eq_of_testBit_eq
  intro i
  rw [Nat.testBit_ldiff, mask, mask, mask, hbits, BitVec.testBit_toNat,
    BitVec.testBit_toNat, BitVec.testBit_toNat, BitVec.getLsbD_and,
    BitVec.getLsbD_not]
  by_cases hi : i < 32
  · simp [hi]
  · have hfar : s.bits.getLsbD i = false :=
      BitVec.getLsbD_of_ge _ _ (Nat.not_lt.mp hi)
    simp [hfar]

/-- A set of which every view tells the members. -/
structure Agrees (s : PointerSet) : Prop where
  mem_iff_and_ne_zero : ∀ id : PointerId, id ∈ s ↔ s.mask &&& 2 ^ id.val ≠ 0
  mem_iff_mem_toList : ∀ id : PointerId, id ∈ s ↔ id ∈ s.toList
  ascending : s.toList.Pairwise (· < ·)
  peeled : peel s.mask = s.toList.map Fin.val
  card_eq : s.card = s.toList.length
  card_text : s.card = (Nat.toDigits 2 s.mask).count '1'
  rank_eq : ∀ id : PointerId, s.rank id = (s.toList.filter (· < id)).length
  rank_text : ∀ id : PointerId,
    s.rank id = (Nat.toDigits 2 (s.mask &&& (2 ^ id.val - 1))).count '1'
  place : ∀ id ∈ s, s.toList[s.rank id]? = some id
  /-- the numbers of the members, in any order and however often -/
  rebuilt : ∀ ids : List Int,
    (∀ n, n ∈ ids ↔ n ∈ s.toList.map fun id => (id.val : Int)) →
    ofInts? ids = .ok s

theorem agrees (s : PointerSet) : s.Agrees where
  mem_iff_and_ne_zero id := by
    rw [mem_iff_testBit, Nat.and_two_pow]
    cases s.mask.testBit id.val <;> simp
  mem_iff_mem_toList _ := mem_toList.symm
  ascending := s.pairwise_toList
  peeled := by rw [peel_eq_bitIndices, map_val_toList]
  card_eq := s.card_eq_length_toList
  card_text := s.card_eq_count_toDigits
  rank_eq id := by rw [rank_eq_countP_toList, List.countP_eq_length_filter]
  rank_text := s.rank_eq_count_toDigits
  place _ hmem := getElem?_toList_rank hmem
  rebuilt _ hnumbers := ofInts?_of_mem_iff hnumbers

/-- A set is faithful to its mask.  The numbers that are masks are those from
zero to the largest word, just the ones without a digit beyond it; each is the
mask of one set, every view of which tells its members.  A list of numbers makes
the set of those numbers, and is refused at the first number that is no
pointer's.  The digits of two masks, combined one by one, make the mask of the
combined set. -/
theorem ofMask?_faithful (n : Int) (ids : List Int) (s t : PointerSet) :
    ((∃ set, ofMask? n = .ok set) ↔ 0 ≤ n ∧ n < 2 ^ 32) ∧
      ((∃ set, ofMask? n = .ok set) ↔ Int.land n (Int.lnot (2 ^ 32 - 1)) = 0) ∧
      (ofMask? n = .ok s ↔ n = s.mask) ∧ s.Agrees ∧
      ((∃ set, ofInts? ids = .ok set) ↔ ∀ m ∈ ids, 0 ≤ m ∧ m ≤ 31) ∧
      (ofInts? ids = .ok s → ∀ id : PointerId, id ∈ s ↔ (id.val : Int) ∈ ids) ∧
      (∀ e, ofInts? ids = .error e ↔ ∃ before m after,
        ids = before ++ m :: after ∧
        (∀ k ∈ before, 0 ≤ k ∧ k ≤ 31) ∧ ¬ (0 ≤ m ∧ m ≤ 31) ∧
        e = .idOutOfRange m) ∧
      (∀ id, (id ∈ s ∪ t ↔ id ∈ s ∨ id ∈ t) ∧ (id ∈ s ∩ t ↔ id ∈ s ∧ id ∈ t) ∧
        (id ∈ s \ t ↔ id ∈ s ∧ id ∉ t)) ∧
      ofMask? (Int.lor s.mask t.mask) = .ok (s ∪ t) ∧
      ofMask? (Int.land s.mask t.mask) = .ok (s ∩ t) ∧
      ofMask? (Int.land s.mask (Int.lnot t.mask)) = .ok (s \ t) := by
  refine ⟨exists_ofMask?_iff,
    exists_ofMask?_iff.trans land_lnot_eq_zero_iff.symm,
    ofMask?_eq_ok_iff, s.agrees, exists_ofInts?_iff, ?_,
    fun e => ofInts?_eq_error_iff, ?_,
    ?_, ?_, ?_⟩
  · exact fun hread => (ofInts?_eq_ok_iff.mp hread).2
  · exact fun id => ⟨mem_union, mem_inter, mem_sdiff⟩
  · rw [ofMask?_eq_ok_iff, mask_union]
    rfl
  · rw [ofMask?_eq_ok_iff, mask_inter]
    rfl
  · rw [ofMask?_eq_ok_iff, mask_sdiff]
    rfl

/-- The first, the third and the last pointer, given by a mask and by a list. -/
theorem ofMask?_faithful_lastBit :
    let s : PointerSet := .ofList [0, 2, 31]
    ofMask? 0x80000005 = .ok s ∧ peel 0x80000005 = [0, 2, 31] ∧
      ofInts? [31, 0, 2, 0] = .ok s ∧
      ofMask? (Int.land 0x80000005 (Int.lnot 0x84)) =
        .ok (.ofList [0, 31]) := by
  intro s
  obtain ⟨-, -, hmask, hagrees, -, -, -, -, -, -, hsdiff⟩ :=
    ofMask?_faithful 0x80000005 [31, 0, 2, 0] s (.ofList [2, 7])
  have hnumber : s.mask = 0x80000005 := by decide
  have hother : (ofList [2, 7]).mask = 0x84 := by decide
  have hleft : s \ ofList [2, 7] = ofList [0, 31] := by decide
  have hmembers : s.toList = [0, 2, 31] := by decide
  rw [hnumber, hother, hleft] at hsdiff
  refine ⟨hmask.mpr (by rw [hnumber]; rfl), ?_, hagrees.rebuilt _ ?_, hsdiff⟩
  · rw [← hnumber, hagrees.peeled, hmembers]
    rfl
  · intro n
    rw [hmembers]
    simp
    omega

end PointerSet

end PointerMotion
