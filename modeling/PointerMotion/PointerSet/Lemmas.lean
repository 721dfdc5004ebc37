/-
Laws of pointer sets.  Membership decides equality, and the counts read off
the binary digits agree with the list of members.
-/
import PointerMotion.PointerSet

namespace PointerMotion

/-- An id is the id of its number. -/
theorem PointerId.ofInt?_val (id : PointerId) : ofInt? id.val = .ok id := by
  rw [ofInt?, dif_pos ⟨Int.natCast_nonneg _, Int.ofNat_lt.mpr id.isLt⟩]
  rfl

theorem PointerId.exists_val_eq {n : Int} (h : 0 ≤ n ∧ n ≤ 31) :
    ∃ id : PointerId, (id.val : Int) = n :=
  ⟨⟨n.toNat, by omega⟩, Int.toNat_of_nonneg h.1⟩

namespace PointerSet

theorem mem_iff {id : PointerId} {s : PointerSet} :
    id ∈ s ↔ s.bits.getLsbD id = true :=
  Iff.rfl

theorem ext_of_mem {s t : PointerSet} (h : ∀ id : PointerId, id ∈ s ↔ id ∈ t) :
    s = t := by
  obtain ⟨a⟩ := s
  obtain ⟨b⟩ := t
  congr 1
  apply BitVec.eq_of_getLsbD_eq
  intro i hi
  exact Bool.eq_iff_iff.mpr (h ⟨i, hi⟩)

@[simp] theorem not_mem_empty (id : PointerId) : ¬ id ∈ (∅ : PointerSet) := by
  simp [mem_iff, EmptyCollection.emptyCollection]

@[simp] theorem mem_union {id : PointerId} {s t : PointerSet} :
    id ∈ s ∪ t ↔ id ∈ s ∨ id ∈ t := by
  simp [mem_iff, Union.union]

@[simp] theorem mem_inter {id : PointerId} {s t : PointerSet} :
    id ∈ s ∩ t ↔ id ∈ s ∧ id ∈ t := by
  simp [mem_iff, Inter.inter]

@[simp] theorem mem_sdiff {id : PointerId} {s t : PointerSet} :
    id ∈ s \ t ↔ id ∈ s ∧ ¬ id ∈ t := by
  simp [mem_iff, SDiff.sdiff]

@[simp] theorem mem_singleton {id a : PointerId} :
    id ∈ ({a} : PointerSet) ↔ id = a := by
  simp [mem_iff, Singleton.singleton, Fin.ext_iff, eq_comm]

@[simp] theorem mem_insert {id a : PointerId} {s : PointerSet} :
    id ∈ s.insert a ↔ id ∈ s ∨ id = a := by
  simp [insert]

theorem mem_foldl_insert {id : PointerId} (ids : List PointerId)
    (s : PointerSet) :
    id ∈ ids.foldl insert s ↔ id ∈ s ∨ id ∈ ids := by
  induction ids generalizing s with
  | nil => simp
  | cons a rest ih => simp [ih, or_assoc]

@[simp] theorem mem_ofList {id : PointerId} {ids : List PointerId} :
    id ∈ ofList ids ↔ id ∈ ids := by
  simp [ofList, mem_foldl_insert]

@[simp] theorem mem_toList {id : PointerId} {s : PointerSet} :
    id ∈ s.toList ↔ id ∈ s := by
  simp [toList, List.mem_finRange]

@[simp] theorem ofList_toList (s : PointerSet) : ofList s.toList = s :=
  ext_of_mem fun _ => by simp

theorem pairwise_toList (s : PointerSet) : s.toList.Pairwise (· < ·) :=
  (List.pairwise_lt_finRange 32).filter _

theorem isEmpty_iff {s : PointerSet} : s.isEmpty = true ↔ s = ∅ := by
  obtain ⟨bits⟩ := s
  simp [isEmpty, EmptyCollection.emptyCollection]

theorem isEmpty_eq_false_iff {s : PointerSet} :
    s.isEmpty = false ↔ ∃ id, id ∈ s := by
  rw [← Bool.not_eq_true, isEmpty_iff]
  constructor
  · intro hne
    apply Classical.byContradiction
    intro hnone
    apply hne
    apply ext_of_mem
    intro id
    simp only [not_mem_empty, iff_false]
    exact fun hmem => hnone ⟨id, hmem⟩
  · rintro ⟨id, hmem⟩ rfl
    exact not_mem_empty id hmem

/-- The ones among the lowest digits, counted over their places. -/
theorem onesCount_eq_countP (width n : Nat) :
    onesCount width n = (List.range width).countP fun i => n.testBit i := by
  induction width generalizing n with
  | zero => rfl
  | succ width ih =>
      have hlow : (if n.testBit 0 = true then 1 else 0) = n % 2 := by
        rw [Nat.testBit_zero]
        rcases Nat.mod_two_eq_zero_or_one n with h | h <;> simp [h]
      have hhigh : ((fun i => n.testBit i) ∘ Nat.succ) = fun i =>
          (n / 2).testBit i := by
        funext i
        simp [Nat.testBit_succ]
      rw [List.range_succ_eq_map, List.countP_cons, List.countP_map, hhigh,
        ← ih, hlow, onesCount, Nat.add_comm]

/-- Counting ids is counting the numbers below thirty-two. -/
theorem countP_finRange (p : Nat → Bool) :
    (List.finRange 32).countP (fun id : PointerId => p id.val) =
      (List.range 32).countP p := by
  have h : (List.finRange 32).map Fin.val = List.range 32 := by decide
  rw [← h, List.countP_map]
  rfl

theorem card_eq_countP (s : PointerSet) :
    s.card = (List.finRange 32).countP (· ∈ s) := by
  rw [card, onesCount_eq_countP, ← countP_finRange]
  apply List.countP_congr
  intro id _
  simp only [mask, BitVec.testBit_toNat, decide_eq_true_eq, mem_iff]

theorem card_eq_length_toList (s : PointerSet) : s.card = s.toList.length := by
  rw [card_eq_countP, toList, List.countP_eq_length_filter]

@[simp] theorem card_empty : (∅ : PointerSet).card = 0 := by
  simp [card_eq_countP]

theorem range_eq_filter_lt {k n : Nat} (h : k ≤ n) :
    List.range k = (List.range n).filter (· < k) := by
  induction n with
  | zero =>
      have : k = 0 := by omega
      subst this
      rfl
  | succ n ih =>
      rw [List.range_succ, List.filter_append]
      by_cases hk : k = n + 1
      · subst hk
        rw [List.range_succ, List.filter_eq_self.mpr]
        · simp
        · intro i hi
          simp only [List.mem_range] at hi
          simp only [decide_eq_true_eq]
          omega
      · rw [← ih (by omega)]
        simp
        omega

theorem rank_eq_countP (s : PointerSet) (id : PointerId) :
    s.rank id = (List.finRange 32).countP fun j =>
      decide (j < id) && decide (j ∈ s) := by
  have hrange := range_eq_filter_lt (Nat.le_of_lt id.isLt)
  rw [rank, onesCount_eq_countP, hrange, List.countP_filter, ← countP_finRange]
  apply List.countP_congr
  intro j _
  simp only [mask, BitVec.testBit_toNat, Bool.and_eq_true, decide_eq_true_eq,
    mem_iff, Fin.lt_def, and_comm]

theorem rank_eq_countP_toList (s : PointerSet) (id : PointerId) :
    s.rank id = s.toList.countP (· < id) := by
  rw [rank_eq_countP, toList, List.countP_filter]

/-- A member's rank is a place among the members. -/
theorem rank_lt_card {s : PointerSet} {id : PointerId} (h : id ∈ s) :
    s.rank id < s.card := by
  rw [rank_eq_countP_toList, card_eq_length_toList]
  apply Nat.lt_of_le_of_ne List.countP_le_length
  intro hall
  have := List.countP_eq_length.mp hall id (mem_toList.mpr h)
  simp at this

/-- In an ascending list an entry stands behind exactly the smaller ones. -/
theorem getElem?_countP_lt {ids : List PointerId}
    (hascending : ids.Pairwise (· < ·)) {id : PointerId} (h : id ∈ ids) :
    ids[ids.countP (· < id)]? = some id := by
  induction ids with
  | nil => simp at h
  | cons a rest ih =>
      simp only [List.pairwise_cons] at hascending
      rcases List.mem_cons.mp h with rfl | hrest
      · have hnone : rest.countP (· < id) = 0 := by
          rw [List.countP_eq_zero]
          intro b hb
          simpa using Fin.le_of_lt (hascending.1 b hb)
        simp [hnone]
      · have hlt := hascending.1 id hrest
        simp [hlt, ih hascending.2 hrest]

/-- A member stands at its rank among the members. -/
theorem getElem?_toList_rank {s : PointerSet} {id : PointerId} (h : id ∈ s) :
    s.toList[s.rank id]? = some id := by
  rw [rank_eq_countP_toList]
  exact getElem?_countP_lt s.pairwise_toList (mem_toList.mpr h)

theorem nodup_toList (s : PointerSet) : s.toList.Nodup :=
  s.pairwise_toList.imp Fin.ne_of_lt

theorem rank_eq_of_getElem? {s : PointerSet} {id : PointerId} {i : Nat}
    (h : s.toList[i]? = some id) : s.rank id = i := by
  have hmem : id ∈ s := mem_toList.mp (List.mem_of_getElem? h)
  apply (List.getElem?_inj (card_eq_length_toList s ▸ rank_lt_card hmem)
      s.nodup_toList).mp
  rw [getElem?_toList_rank hmem, h]

/-- An ascending list is the list of members of its set. -/
theorem toList_ofList {ids : List PointerId}
    (hascending : ids.Pairwise (· < ·)) :
    (ofList ids).toList = ids := by
  have hperm : (ofList ids).toList.Perm ids := by
    rw [List.perm_ext_iff_of_nodup (nodup_toList _)
      (hascending.imp Fin.ne_of_lt)]
    intro id
    simp
  apply hperm.eq_of_pairwise _ (pairwise_toList _) hascending
  intro a b _ _ hab hba
  exact absurd hab (Fin.lt_asymm hba)

@[simp] theorem toList_lowest (count : Nat) (s : PointerSet) :
    (s.lowest count).toList = s.toList.take count :=
  toList_ofList (s.pairwise_toList.sublist (List.take_sublist _ _))

theorem card_lowest (count : Nat) (s : PointerSet) :
    (s.lowest count).card = min count s.card := by
  simp [card_eq_length_toList]

theorem lowest_of_card_le {count : Nat} {s : PointerSet} (h : s.card ≤ count) :
    s.lowest count = s := by
  rw [card_eq_length_toList] at h
  rw [lowest, List.take_of_length_le h, ofList_toList]

@[simp] theorem toList_singleton (id : PointerId) :
    ({id} : PointerSet).toList = [id] := by
  have h : ofList [id] = {id} := ext_of_mem fun _ => by simp
  rw [← h, toList_ofList (List.pairwise_singleton _ _)]

@[simp] theorem card_singleton (id : PointerId) :
    ({id} : PointerSet).card = 1 := by
  rw [card_eq_length_toList, toList_singleton]
  rfl

theorem inter_singleton_of_mem {s : PointerSet} {id : PointerId} (h : id ∈ s) :
    s ∩ {id} = {id} := by
  apply ext_of_mem
  intro other
  simp only [mem_inter, mem_singleton, and_iff_right_iff_imp]
  rintro rfl
  exact h

theorem inter_singleton_of_not_mem {s : PointerSet} {id : PointerId}
    (h : id ∉ s) :
    s ∩ {id} = ∅ := by
  apply ext_of_mem
  intro other
  simp only [mem_inter, mem_singleton, not_mem_empty, iff_false, not_and]
  rintro hother rfl
  exact h hother

end PointerSet

end PointerMotion
