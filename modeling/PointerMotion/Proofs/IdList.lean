/-
Lists read entry by entry, and lists of numbers read as sets of pointers, in
which order and repetition leave no trace.
-/
import Mathlib.Data.List.Forall2
import Mathlib.Data.List.Nodup
import PointerMotion.PointerSet.Lemmas

namespace PointerMotion

/-- A list is read as another one when its entries are, one after another. -/
theorem mapM_eq_ok_iff {ε β γ : Type} {f : β → Except ε γ} {given : List β}
    {read : List γ} :
    given.mapM f = .ok read ↔
      List.Forall₂ (fun b c => f b = .ok c) given read := by
  induction given generalizing read with
  | nil =>
      rw [List.mapM_nil, List.forall₂_nil_left_iff]
      exact ⟨fun h => (Except.ok.inj h).symm, fun h => h ▸ rfl⟩
  | cons b rest ih =>
      rw [List.mapM_cons, List.forall₂_cons_left_iff]
      constructor
      · intro h
        cases hb : f b with
        | error e => rw [hb] at h; cases h
        | ok c =>
            cases hrest : rest.mapM f with
            | error e => rw [hb, hrest] at h; cases h
            | ok tail =>
                rw [hb, hrest] at h
                exact ⟨c, tail, rfl, ih.mp hrest, (Except.ok.inj h).symm⟩
      · rintro ⟨c, tail, hb, htail, rfl⟩
        rw [hb, ih.mpr htail]
        rfl

/-- Reading a list fails at its first entry that cannot be read. -/
theorem mapM_eq_error_iff {ε β γ : Type} {f : β → Except ε γ}
    {given : List β} {e : ε} :
    given.mapM f = .error e ↔ ∃ before b after, given = before ++ b :: after ∧
      (∀ other ∈ before, ∃ c, f other = .ok c) ∧ f b = .error e := by
  induction given with
  | nil => simp [pure, Except.pure]
  | cons first rest ih =>
      rw [List.mapM_cons]
      constructor
      · intro h
        cases hfirst : f first with
        | error e' =>
            rw [hfirst] at h
            refine ⟨[], first, rest, rfl, List.forall_mem_nil _, ?_⟩
            exact hfirst.trans (congrArg Except.error (Except.error.inj h))
        | ok c =>
            cases hrest : rest.mapM f with
            | ok tail => rw [hfirst, hrest] at h; cases h
            | error e' =>
                rw [hfirst, hrest] at h
                obtain ⟨before, b, after, rfl, hbefore, hb⟩ :=
                  ih.mp (hrest.trans
                      (congrArg Except.error (Except.error.inj h)))
                exact ⟨first :: before, b, after, rfl,
                  List.forall_mem_cons.mpr ⟨⟨c, hfirst⟩, hbefore⟩, hb⟩
      · rintro ⟨before, b, after, hsplit, hbefore, hb⟩
        cases before with
        | nil =>
            obtain ⟨rfl, rfl⟩ := List.cons.inj hsplit
            rw [hb]
            rfl
        | cons other before =>
            obtain ⟨rfl, rfl⟩ := List.cons.inj hsplit
            obtain ⟨⟨c, hc⟩, hmore⟩ := List.forall_mem_cons.mp hbefore
            rw [hc, ih.mpr ⟨before, b, after, rfl, hmore, hb⟩]
            rfl

/-- A list can be read when each of its entries can. -/
theorem exists_mapM_eq_ok {ε β γ : Type} {f : β → Except ε γ} {given : List β}
    (h : ∀ b ∈ given, ∃ c, f b = .ok c) : ∃ read, given.mapM f = .ok read := by
  simp only [mapM_eq_ok_iff]
  induction given with
  | nil => exact ⟨[], .nil⟩
  | cons b rest ih =>
      obtain ⟨c, hc⟩ := h b List.mem_cons_self
      obtain ⟨read, hread⟩ := ih fun b hb => h b (List.mem_cons_of_mem _ hb)
      exact ⟨c :: read, .cons hc hread⟩

theorem PointerId.ofInt?_eq_ok_iff {n : Int} {id : PointerId} :
    ofInt? n = .ok id ↔ n = id.val := by
  constructor
  · intro h
    rw [ofInt?] at h
    split at h
    next hrange =>
      rw [← Except.ok.inj h]
      exact (Int.toNat_of_nonneg hrange.1).symm
    next => cases h
  · rintro rfl
    exact ofInt?_val id

theorem PointerId.exists_ofInt?_iff {n : Int} :
    (∃ id, ofInt? n = .ok id) ↔ 0 ≤ n ∧ n ≤ 31 := by
  simp only [ofInt?_eq_ok_iff]
  constructor
  · rintro ⟨id, rfl⟩
    omega
  · intro hrange
    obtain ⟨id, hid⟩ := exists_val_eq hrange
    exact ⟨id, hid.symm⟩

theorem PointerId.ofInt?_eq_error_iff {n : Int} {e : PointerError} :
    ofInt? n = .error e ↔ ¬ (0 ≤ n ∧ n ≤ 31) ∧ e = .idOutOfRange n := by
  rw [ofInt?]
  split
  next hrange => simp; omega
  next hrange => simp [eq_comm]; omega

theorem PointerId.val_injective :
    Function.Injective fun id : PointerId => (id.val : Int) :=
  fun _ _ hval => Fin.ext (Int.ofNat.inj hval)

namespace PointerSet

theorem card_ofList {ids : List PointerId} (h : ids.Nodup) :
    (ofList ids).card = ids.length := by
  have hperm : (ofList ids).toList.Perm ids := by
    rw [List.perm_ext_iff_of_nodup (nodup_toList _) h]
    intro id
    rw [mem_toList, mem_ofList]
  rw [card_eq_length_toList, hperm.length_eq]

theorem mapM_ofInt?_eq_ok_iff {ids : List Int} {pointers : List PointerId} :
    ids.mapM PointerId.ofInt? = .ok pointers ↔ ids = pointers.map fun id =>
      (id.val : Int) := by
  rw [mapM_eq_ok_iff, ← List.forall₂_eq_eq_eq, List.forall₂_map_right_iff]
  simp only [PointerId.ofInt?_eq_ok_iff]

/-- Numbers from 0 to 31 are the numbers of pointers. -/
theorem exists_eq_map_val {ids : List Int} (h : ∀ n ∈ ids, 0 ≤ n ∧ n ≤ 31) :
    ∃ pointers : List PointerId, ids = pointers.map fun id =>
      (id.val : Int) := by
  induction ids with
  | nil => exact ⟨[], rfl⟩
  | cons n rest ih =>
      obtain ⟨id, rfl⟩ := PointerId.exists_val_eq (h n List.mem_cons_self)
      obtain ⟨pointers, rfl⟩ := ih fun m hm => h m (List.mem_cons_of_mem _ hm)
      exact ⟨id :: pointers, rfl⟩

/-- The set of a list of numbers holds the pointers of those numbers, all of
which are in range. -/
theorem ofInts?_eq_ok_iff {ids : List Int} {set : PointerSet} :
    ofInts? ids = .ok set ↔
      (∀ n ∈ ids, 0 ≤ n ∧ n ≤ 31) ∧
      ∀ id : PointerId, id ∈ set ↔ (id.val : Int) ∈ ids := by
  have hmem : ∀ (pointers : List PointerId) (id : PointerId),
      id ∈ ofList pointers ↔
      (id.val : Int) ∈ pointers.map fun id => (id.val : Int) := by
    intro pointers id
    rw [mem_ofList]
    exact (List.mem_map_of_injective PointerId.val_injective).symm
  constructor
  · intro h
    rw [ofInts?] at h
    cases hread : ids.mapM PointerId.ofInt? with
    | error e => rw [hread] at h; cases h
    | ok pointers =>
        rw [hread] at h
        rw [← Except.ok.inj h, mapM_ofInt?_eq_ok_iff.mp hread]
        refine ⟨?_, hmem pointers⟩
        intro n hn
        obtain ⟨id, -, rfl⟩ := List.mem_map.mp hn
        omega
  · rintro ⟨hrange, hset⟩
    obtain ⟨pointers, rfl⟩ := exists_eq_map_val hrange
    have hsame : ofList pointers = set :=
      ext_of_mem fun id => (hmem pointers id).trans (hset id).symm
    rw [ofInts?, mapM_ofInt?_eq_ok_iff.mpr rfl, ← hsame]
    rfl

/-- A list of numbers is refused at the first one that is no pointer's. -/
theorem ofInts?_eq_error_iff {ids : List Int} {e : PointerError} :
    ofInts? ids = .error e ↔ ∃ before n after, ids = before ++ n :: after ∧
      (∀ m ∈ before, 0 ≤ m ∧ m ≤ 31) ∧ ¬ (0 ≤ n ∧ n ≤ 31) ∧
      e = .idOutOfRange n := by
  have hread : ofInts? ids = .error e ↔
      ids.mapM PointerId.ofInt? = .error e := by
    rw [ofInts?]
    cases ids.mapM PointerId.ofInt? <;> simp [Except.map]
  rw [hread, mapM_eq_error_iff]
  simp only [PointerId.exists_ofInt?_iff, PointerId.ofInt?_eq_error_iff]

theorem exists_ofInts?_iff {ids : List Int} :
    (∃ set, ofInts? ids = .ok set) ↔ ∀ n ∈ ids, 0 ≤ n ∧ n ≤ 31 := by
  constructor
  · rintro ⟨set, hset⟩
    exact (ofInts?_eq_ok_iff.mp hset).1
  · intro hrange
    obtain ⟨pointers, rfl⟩ := exists_eq_map_val hrange
    exact ⟨ofList pointers, by rw [ofInts?, mapM_ofInt?_eq_ok_iff.mpr rfl]; rfl⟩

/-- A set is read off any list of the numbers of its members. -/
theorem ofInts?_of_mem_iff {set : PointerSet} {ids : List Int}
    (h : ∀ n, n ∈ ids ↔ n ∈ set.toList.map fun id => (id.val : Int)) :
    ofInts? ids = .ok set := by
  rw [ofInts?_eq_ok_iff]
  constructor
  · intro n hn
    obtain ⟨id, -, rfl⟩ := List.mem_map.mp ((h n).mp hn)
    omega
  · intro id
    rw [h, List.mem_map_of_injective PointerId.val_injective, mem_toList]

/-- Distinct numbers from 0 to 31 make a set of as many pointers. -/
theorem exists_ofInts? {ids : List Int} (hnodup : ids.Nodup)
    (hrange : ∀ id ∈ ids, 0 ≤ id ∧ id ≤ 31) :
    ∃ set, ofInts? ids = .ok set ∧ set.card = ids.length := by
  obtain ⟨pointers, rfl⟩ := exists_eq_map_val hrange
  refine ⟨ofList pointers, by rw [ofInts?,
    mapM_ofInt?_eq_ok_iff.mpr rfl]; rfl, ?_⟩
  rw [card_ofList (List.Nodup.of_map _ hnodup), List.length_map]

end PointerSet

end PointerMotion
