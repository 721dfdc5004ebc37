/-
Neighbouring entries of one time.  Each run of them makes one sample, so
entries that come from samples lead back to them.
-/
import Mathlib.Data.List.SplitBy
import Mathlib.Order.Fin.Basic
import PointerMotion.Trace
import PointerMotion.Proofs.IdList

namespace PointerMotion

namespace Trace

/-- Whether an entry is the last one of its pointer. -/
def IsLatest (entries : List Entry) (e : Entry) : Prop :=
  ∃ earlier later, entries = earlier ++ e :: later ∧ ∀ other ∈ later,
    other.id ≠ e.id

section Latest

variable {entries : List Entry} {first e : Entry}

theorem IsLatest.mem (h : IsLatest entries e) : e ∈ entries := by
  obtain ⟨earlier, later, rfl, -⟩ := h
  exact List.mem_append_right _ List.mem_cons_self

theorem isLatest_cons :
    IsLatest (first :: entries) e ↔
      IsLatest entries e ∨ e = first ∧ ∀ other ∈ entries,
        other.id ≠ first.id := by
  constructor
  · rintro ⟨earlier, later, hsplit, hlater⟩
    cases earlier with
    | nil =>
        obtain ⟨rfl, rfl⟩ := List.cons.inj hsplit
        exact .inr ⟨rfl, hlater⟩
    | cons other earlier =>
        exact .inl ⟨earlier, later, (List.cons.inj hsplit).2, hlater⟩
  · rintro (⟨earlier, later, rfl, hlater⟩ | ⟨rfl, hothers⟩)
    · exact ⟨first :: earlier, later, rfl, hlater⟩
    · exact ⟨[], entries, rfl, hothers⟩

/-- Every pointer that has an entry has a last one. -/
theorem exists_isLatest (h : e ∈ entries) :
    ∃ last, IsLatest entries last ∧ last.id = e.id := by
  induction entries generalizing e with
  | nil => cases h
  | cons first rest ih =>
      simp only [isLatest_cons]
      by_cases hagain : ∃ other ∈ rest, other.id = e.id
      · obtain ⟨other, hother, hid⟩ := hagain
        obtain ⟨last, hlast, hsame⟩ := ih hother
        exact ⟨last, .inl hlast, hsame.trans hid⟩
      · have hothers : ∀ other ∈ rest, other.id ≠ e.id :=
          fun other hother hid => hagain ⟨other, hother, hid⟩
        rcases List.mem_cons.mp h with rfl | hrest
        · exact ⟨e, .inr ⟨rfl, hothers⟩, rfl⟩
        · exact absurd rfl (hothers e hrest)

end Latest

section Insertion

variable {entries : List (PointerId × Position Float)} {id : PointerId}
    {p : Position Float}

/-- A position is put in unless its pointer has a later one. -/
theorem mem_addEarlier (hsorted : entries.Pairwise fun a b => a.1 < b.1)
    {entry : PointerId × Position Float} :
    entry ∈ addEarlier id p entries ↔
      entry ∈ entries ∨ entry = (id, p) ∧ ∀ other ∈ entries, other.1 ≠ id := by
  induction entries with
  | nil => simp [addEarlier]
  | cons first rest ih =>
      obtain ⟨hfirst, hrest⟩ := List.pairwise_cons.mp hsorted
      rw [addEarlier]
      split
      next hlt =>
        have hothers : ∀ other ∈ first :: rest, other.1 ≠ id :=
          List.forall_mem_cons.mpr
            ⟨ne_of_gt hlt, fun other h => ne_of_gt (hlt.trans (hfirst other h))⟩
        rw [List.mem_cons, or_comm, and_iff_left hothers]
      next =>
        split
        next heq =>
          exact (or_iff_left
            fun h => h.2 first List.mem_cons_self heq.symm).symm
        next hne =>
          rw [List.mem_cons, ih hrest, List.mem_cons, List.forall_mem_cons,
            and_iff_right (Ne.symm hne), or_assoc]

theorem pairwise_addEarlier (hsorted : entries.Pairwise fun a b => a.1 < b.1) :
    (addEarlier id p entries).Pairwise fun a b => a.1 < b.1 := by
  induction entries with
  | nil => exact List.pairwise_singleton _ _
  | cons first rest ih =>
      obtain ⟨hfirst, hrest⟩ := List.pairwise_cons.mp hsorted
      rw [addEarlier]
      split
      next hlt =>
        refine List.pairwise_cons.mpr ⟨?_, hsorted⟩
        exact List.forall_mem_cons.mpr ⟨hlt,
          fun other h => hlt.trans (hfirst other h)⟩
      next hle =>
        split
        next heq => exact hsorted
        next hne =>
          refine List.pairwise_cons.mpr ⟨?_, ih hrest⟩
          intro entry hentry
          rcases (mem_addEarlier hrest).mp hentry with hold | ⟨rfl, -⟩
          · exact hfirst entry hold
          · exact lt_of_le_of_ne (not_lt.mp hle) (Ne.symm hne)

end Insertion

/-- The positions that are left of a run, by ascending id. -/
def gather (run : List Entry) : List (PointerId × Position Float) :=
  run.foldr (fun e => addEarlier e.id e.position) []

theorem pairwise_gather (run : List Entry) :
    (gather run).Pairwise fun a b => a.1 < b.1 := by
  induction run with
  | nil => exact .nil
  | cons e rest ih => exact pairwise_addEarlier ih

/-- What is left of a run is the last position of each pointer. -/
theorem mem_gather {run : List Entry} {id : PointerId} {p : Position Float} :
    (id, p) ∈ gather run ↔ ∃ e, IsLatest run e ∧ e.id = id ∧
      e.position = p := by
  induction run generalizing id p with
  | nil => simp [gather, IsLatest]
  | cons first rest ih =>
      have hothers : (∀ entry ∈ gather rest, entry.1 ≠ first.id) ↔
          ∀ other ∈ rest, other.id ≠ first.id := by
        constructor
        · intro h other hother hid
          obtain ⟨last, hlast, hsame⟩ := exists_isLatest hother
          exact h (first.id, last.position)
            (ih.mpr ⟨last, hlast, hsame.trans hid, rfl⟩) rfl
        · rintro h ⟨i, q⟩ hentry hid
          obtain ⟨e, he, hsame, -⟩ := ih.mp hentry
          exact h e he.mem (hsame.trans hid)
      have hgather : gather (first :: rest) =
          addEarlier first.id first.position (gather rest) := rfl
      rw [hgather, mem_addEarlier (pairwise_gather rest), ih, hothers]
      simp only [isLatest_cons, Prod.mk.injEq]
      constructor
      · rintro (⟨e, he, hid, hp⟩ | ⟨⟨rfl, rfl⟩, hfirst⟩)
        · exact ⟨e, .inl he, hid, hp⟩
        · exact ⟨first, .inr ⟨rfl, hfirst⟩, rfl, rfl⟩
      · rintro ⟨e, he | ⟨rfl, hfirst⟩, rfl, rfl⟩
        · exact .inl ⟨e, he, rfl, rfl⟩
        · exact .inr ⟨⟨rfl, rfl⟩, hfirst⟩

/-- A sample that holds, by ascending id, the last position of each pointer of a
run. -/
structure Sample.Gathers (s : Sample) (run : List Entry) : Prop where
  time : ∀ e ∈ run, e.time = s.time
  mem_ids : ∀ id, id ∈ s.ids ↔ ∃ e ∈ run, e.id = id
  sized : s.positions.length = s.ids.card
  position : ∀ e, IsLatest run e →
    s.positions[s.ids.rank e.id]? = some e.position

theorem Sample.Gathers.exists_mem {s : Sample} {run : List Entry}
    (h : s.Gathers run) (hne : s.ids ≠ ∅) : ∃ e, e ∈ run := by
  have hempty : s.ids.isEmpty = false := by
    rwa [← Bool.not_eq_true, PointerSet.isEmpty_iff]
  obtain ⟨id, hid⟩ := PointerSet.isEmpty_eq_false_iff.mp hempty
  obtain ⟨e, he, -⟩ := (h.mem_ids id).mp hid
  exact ⟨e, he⟩

theorem Sample.Gathers.ids_ne_empty {s : Sample} {run : List Entry}
    (h : s.Gathers run) (hne : run ≠ []) : s.ids ≠ ∅ := by
  obtain ⟨e, he⟩ := List.exists_mem_of_ne_nil run hne
  have hmember : e.id ∈ s.ids := (h.mem_ids e.id).mpr ⟨e, he, rfl⟩
  intro hempty
  exact PointerSet.not_mem_empty e.id (hempty ▸ hmember)

/-- A run leaves no choice of its sample. -/
theorem Sample.Gathers.unique {s other : Sample} {run : List Entry}
    (hne : run ≠ []) (h : s.Gathers run) (h' : other.Gathers run) :
    s = other := by
  obtain ⟨e, he⟩ := List.exists_mem_of_ne_nil run hne
  have htime : s.time = other.time := (h.time e he).symm.trans (h'.time e he)
  have hids : s.ids = other.ids :=
    PointerSet.ext_of_mem fun id => (h.mem_ids id).trans (h'.mem_ids id).symm
  have hpositions : s.positions = other.positions := by
    apply List.ext_getElem (h.sized.trans (hids ▸ h'.sized.symm))
    intro i hi hi'
    have hplace : i < s.ids.toList.length := by
      rwa [← PointerSet.card_eq_length_toList, ← h.sized]
    -- every place is the rank of a pointer, and that has a last entry
    have hrank := PointerSet.rank_eq_of_getElem?
      (List.getElem?_eq_getElem hplace)
    obtain ⟨seen, hseen, hid⟩ :=
      (h.mem_ids _).mp (PointerSet.mem_toList.mp (List.getElem_mem hplace))
    obtain ⟨last, hlast, hsame⟩ := exists_isLatest hseen
    have hleft := h.position last hlast
    have hright := h'.position last hlast
    rw [hsame, hid, hrank, List.getElem?_eq_getElem hi] at hleft
    rw [← hids, hsame, hid, hrank, List.getElem?_eq_getElem hi'] at hright
    exact Option.some.inj (hleft.trans hright.symm)
  rcases s with ⟨time, ids, positions⟩
  rcases other with ⟨time', ids', positions'⟩
  obtain rfl : time = time' := htime
  obtain rfl : ids = ids' := hids
  obtain rfl : positions = positions' := hpositions
  rfl

theorem gathers_sample {g : Group} {run : List Entry}
    (htime : ∀ e ∈ run, e.time = g.time) (hentries : g.entries = gather run) :
    g.sample.Gathers run := by
  have hmem : ∀ id p, (id, p) ∈ g.entries ↔ ∃ e, IsLatest run e ∧ e.id = id ∧
      e.position = p :=
    fun id p => hentries ▸ mem_gather
  have hascending : (g.entries.map (·.1)).Pairwise (· < ·) :=
    List.pairwise_map.mpr (hentries ▸ pairwise_gather run)
  have htoList : g.sample.ids.toList = g.entries.map (·.1) :=
    PointerSet.toList_ofList hascending
  refine ⟨htime, ?_, ?_, ?_⟩
  · intro id
    rw [← PointerSet.mem_toList, htoList, List.mem_map]
    constructor
    · rintro ⟨⟨i, p⟩, hentry, rfl⟩
      obtain ⟨e, he, hid, -⟩ := (hmem i p).mp hentry
      exact ⟨e, he.mem, hid⟩
    · rintro ⟨e, he, rfl⟩
      obtain ⟨last, hlast, hid⟩ := exists_isLatest he
      exact ⟨(e.id, last.position), (hmem _ _).mpr ⟨last, hlast, hid, rfl⟩, rfl⟩
  · rw [PointerSet.card_eq_length_toList, htoList, List.length_map]
    exact List.length_map _
  · intro e he
    obtain ⟨i, hi⟩ :=
      List.mem_iff_getElem?.mp ((hmem e.id e.position).mpr ⟨e, he, rfl, rfl⟩)
    have hid : g.sample.ids.toList[i]? = some e.id := by
      rw [htoList, List.getElem?_map, hi]
      rfl
    have hposition : g.sample.positions[i]? = some e.position := by
      rw [Group.sample, List.getElem?_map, hi]
      rfl
    rw [PointerSet.rank_eq_of_getElem? hid, hposition]

/-- Lists of entries of one time each, of which neighbours differ in their
times. -/
structure AreRuns (parts : List (List Entry)) : Prop where
  ne_nil : ∀ run ∈ parts, run ≠ []
  time_eq : ∀ run ∈ parts, ∀ a ∈ run, ∀ b ∈ run, a.time = b.time
  time_ne : parts.IsChain fun run next => ∃ a ∈ run, ∃ b ∈ next, a.time ≠ b.time

/-- The longest runs of neighbouring entries of one time. -/
def runs (entries : List Entry) : List (List Entry) :=
  entries.splitBy fun a b => a.time == b.time

theorem areRuns_runs (entries : List Entry) : AreRuns (runs entries) := by
  refine ⟨fun run hrun => List.ne_nil_of_mem_splitBy hrun, ?_, ?_⟩
  · intro run hrun a ha b hb
    have hchain : run.IsChain fun a b => a.time = b.time :=
      (List.isChain_of_mem_splitBy hrun).imp fun _ _ => eq_of_beq
    have htrans : IsTrans Entry fun a b => a.time = b.time :=
      ⟨fun _ _ _ => Eq.trans⟩
    have hsymm : Std.Symm fun a b : Entry => a.time = b.time :=
      ⟨fun _ _ => Eq.symm⟩
    exact List.Pairwise.forall_of_forall (R :=
        fun a b : Entry => a.time = b.time)
      (fun _ _ => rfl) (List.isChain_iff_pairwise.mp hchain) ha hb
  · refine (List.isChain_getLast_head_splitBy _ entries).imp ?_
    rintro run next ⟨hrun, hnext, hdiffer⟩
    exact ⟨_, List.getLast_mem hrun, _, List.head_mem hnext,
      ne_of_beq_false hdiffer⟩

theorem AreRuns.tail {run : List Entry} {parts : List (List Entry)}
    (h : AreRuns (run :: parts)) :
    AreRuns parts where
  ne_nil run hrun := h.ne_nil run (List.mem_cons_of_mem _ hrun)
  time_eq run hrun := h.time_eq run (List.mem_cons_of_mem _ hrun)
  time_ne := h.time_ne.tail

/-- A run in front of other entries makes a group of its own. -/
theorem groups_append {time : Int} {run rest : List Entry} (hne : run ≠ [])
    (htime : ∀ e ∈ run, e.time = time)
    (hrest : ∀ g ∈ (groups rest).head?, g.time ≠ time) :
    groups (run ++ rest) = ⟨time, gather run⟩ :: groups rest := by
  induction run with
  | nil => exact absurd rfl hne
  | cons e tail ih =>
      obtain ⟨rfl, htail⟩ := List.forall_mem_cons.mp htime
      rw [List.cons_append, groups]
      by_cases hnil : tail = []
      · subst hnil
        cases hgroups : groups rest with
        | nil => rw [List.nil_append, hgroups]; rfl
        | cons g later =>
            have hother : g.time ≠ e.time :=
              hrest g (by rw [hgroups]; exact rfl)
            rw [List.nil_append, hgroups]
            exact if_neg hother
      · rw [ih hnil htail]
        exact if_pos rfl

/-- Runs one after another make their groups. -/
theorem forall₂_groups_flatten {parts : List (List Entry)} (h : AreRuns parts) :
    List.Forall₂ (fun g run => (∀ e ∈ run, e.time = g.time) ∧
        g.entries = gather run) (groups parts.flatten) parts := by
  induction parts with
  | nil => exact .nil
  | cons run parts ih =>
      have hne := h.ne_nil run List.mem_cons_self
      obtain ⟨e, he⟩ := List.exists_mem_of_ne_nil run hne
      have htime : ∀ a ∈ run, a.time = e.time :=
        fun a ha => h.time_eq run List.mem_cons_self a ha e he
      have hparts := ih h.tail
      have hrest : ∀ g ∈ (groups parts.flatten).head?, g.time ≠ e.time := by
        cases parts with
        | nil => exact fun g hg => nomatch hg
        | cons next later =>
            obtain ⟨g, gs, ⟨hnext, -⟩, -, hgroups⟩ :=
              List.forall₂_cons_right_iff.mp hparts
            obtain ⟨a, ha, b, hb, hdiffer⟩ :=
              (List.isChain_cons_cons.mp h.time_ne).1
            rw [hgroups]
            rintro _ ⟨⟩ hsame
            exact hdiffer ((htime a ha).trans
                (hsame.symm.trans (hnext b hb).symm))
      rw [List.flatten_cons, groups_append hne htime hrest]
      exact .cons ⟨htime, rfl⟩ hparts

theorem isChain_groups (entries : List Entry) :
    (groups entries).IsChain fun g next => g.time ≠ next.time := by
  induction entries with
  | nil => exact .nil
  | cons e rest ih =>
      rw [groups]
      cases hgroups : groups rest with
      | nil => exact List.isChain_singleton _
      | cons g later =>
          rw [hgroups] at ih
          dsimp only
          split
          next => cases later with
            | nil => exact List.isChain_singleton _
            | cons next later =>
                exact List.isChain_cons_cons.mpr (List.isChain_cons_cons.mp ih)
          next hother => exact List.isChain_cons_cons.mpr ⟨Ne.symm hother, ih⟩

/-- The samples of runs, one after another, gather them. -/
theorem gathers_map_sample {parts : List (List Entry)} (h : AreRuns parts) :
    List.Forall₂ Sample.Gathers ((groups parts.flatten).map Group.sample)
      parts :=
  List.forall₂_map_left_iff.mpr
    ((forall₂_groups_flatten h).imp fun _ _ hgroup =>
      gathers_sample hgroup.1 hgroup.2)

/-- Every entry has the time of a sample. -/
theorem exists_time_eq_of_mem_flatten {parts : List (List Entry)}
    {samples : List Sample} (h : List.Forall₂ Sample.Gathers samples parts)
    {e : Entry} (he : e ∈ parts.flatten) :
    ∃ s ∈ samples, e.time = s.time := by
  induction h with
  | nil => cases he
  | cons hs _ ih =>
      rcases List.mem_append.mp he with hrun | hrest
      · exact ⟨_, List.mem_cons_self, hs.time e hrun⟩
      · obtain ⟨s, hmem, htime⟩ := ih hrest
        exact ⟨s, List.mem_cons_of_mem _ hmem, htime⟩

/-- Runs leave no choice of their samples. -/
theorem eq_of_forall₂_gathers {parts : List (List Entry)}
    {samples others : List Sample} (hne : ∀ run ∈ parts, run ≠ [])
    (h : List.Forall₂ Sample.Gathers samples parts)
    (h' : List.Forall₂ Sample.Gathers others parts) : samples = others := by
  induction h generalizing others with
  | nil => exact (List.forall₂_nil_right_iff.mp h').symm
  | cons hs _ ih =>
      obtain ⟨other, rest, hother, hrest, rfl⟩ :=
        List.forall₂_cons_right_iff.mp h'
      obtain ⟨hrun, hruns⟩ := List.forall_mem_cons.mp hne
      rw [hs.unique hrun hother, ih hruns hrest]

section Entries

/-- The positions of a sample as entries, by ascending id. -/
def Sample.entries (s : Sample) : List Entry :=
  (s.ids.toList.zip s.positions).map fun entry => ⟨s.time, entry.1, entry.2⟩

variable {s : Sample} {run : List Entry}

theorem mem_entries {e : Entry} :
    e ∈ s.entries ↔ e.time = s.time ∧
      ∃ i : Nat, s.ids.toList[i]? = some e.id ∧
        s.positions[i]? = some e.position := by
  rw [Sample.entries, List.mem_map]
  constructor
  · rintro ⟨⟨id, p⟩, hentry, rfl⟩
    obtain ⟨i, hi⟩ := List.mem_iff_getElem?.mp hentry
    exact ⟨rfl, i, List.getElem?_zip_eq_some.mp hi⟩
  · rintro ⟨htime, i, hi⟩
    have hentry :=
      List.mem_of_getElem?
        (List.getElem?_zip_eq_some (z := (e.id, e.position)).mpr hi)
    exact ⟨(e.id, e.position), hentry, by rw [← htime]⟩

/-- A sample gathers its own entries, in whatever order they come. -/
theorem gathers_of_perm (hsized : s.positions.length = s.ids.card)
    (hperm : run.Perm s.entries) :
    s.Gathers run where
  time e he := (mem_entries.mp (hperm.mem_iff.mp he)).1
  mem_ids id := by
    constructor
    · intro hid
      have hrank := PointerSet.getElem?_toList_rank hid
      have hlt : s.ids.rank id < s.positions.length :=
        hsized ▸ PointerSet.rank_lt_card hid
      refine ⟨⟨s.time, id, s.positions[s.ids.rank id]⟩, ?_, rfl⟩
      exact hperm.mem_iff.mpr
        (mem_entries.mpr ⟨rfl, _, hrank, List.getElem?_eq_getElem hlt⟩)
    · rintro ⟨e, he, rfl⟩
      obtain ⟨-, i, hid, -⟩ := mem_entries.mp (hperm.mem_iff.mp he)
      exact PointerSet.mem_toList.mp (List.mem_of_getElem? hid)
  sized := hsized
  position e he := by
    obtain ⟨-, i, hid, hposition⟩ := mem_entries.mp (hperm.mem_iff.mp he.mem)
    rw [PointerSet.rank_eq_of_getElem? hid, hposition]

/-- The entries of samples, in any order within each, are runs if neighbours
differ in time. -/
theorem areRuns_of_gathers {samples : List Sample} {parts : List (List Entry)}
    (hnonempty : ∀ s ∈ samples, s.ids ≠ ∅)
    (htimes : samples.IsChain fun s next => s.time ≠ next.time)
    (h : List.Forall₂ Sample.Gathers samples parts) : AreRuns parts := by
  induction h with
  | nil => exact ⟨nofun, nofun, .nil⟩
  | cons hs hrest ih =>
      obtain ⟨hfirst, hothers⟩ := List.forall_mem_cons.mp hnonempty
      have hruns := ih hothers htimes.tail
      obtain ⟨e, he⟩ := hs.exists_mem hfirst
      refine ⟨List.forall_mem_cons.mpr ⟨List.ne_nil_of_mem he, hruns.ne_nil⟩,
        ?_, ?_⟩
      · refine List.forall_mem_cons.mpr ⟨?_, hruns.time_eq⟩
        exact fun a ha b hb => (hs.time a ha).trans (hs.time b hb).symm
      · cases hrest with
        | nil => exact List.isChain_singleton _
        | cons hnext _ =>
            obtain ⟨b, hb⟩ := hnext.exists_mem (hothers _ List.mem_cons_self)
            refine List.isChain_cons_cons.mpr ⟨⟨e, he, b, hb, ?_⟩,
              hruns.time_ne⟩
            rw [hs.time e he, hnext.time b hb]
            exact (List.isChain_cons_cons.mp htimes).1

end Entries

end Trace

end PointerMotion
