/-
Files that hold no trace.  A malformed row is reported before bytes that are no
text, wherever it ended before them.
-/
import PointerMotion.Proofs.Recording

namespace PointerMotion

section Failure

variable {ε ε' β γ : Type} {x : Except ε β}

theorem mapError_eq_error_iff {f : ε → ε'} {e : ε'} :
    x.mapError f = .error e ↔ ∃ cause, x = .error cause ∧ f cause = e := by
  cases x <;> simp [Except.mapError]

theorem map_eq_error_iff {f : β → γ} {e : ε} :
    x.map f = .error e ↔ x = .error e := by
  cases x <;> simp [Except.map]

end Failure

namespace Trace

section Rows

variable {rows : List Csv.Row} {number i : Nat} {row : Csv.Row} {error : Error}

theorem mem_dataRows :
    (number, row) ∈ dataRows rows ↔
      ∃ i, number = i + 1 ∧ rows[i]? = some row ∧
        isSkipped (i + 1) row = false := by
  rw [dataRows, List.mem_filter, List.mem_mapIdx]
  constructor
  · rintro ⟨⟨i, hi, hnumbered⟩, hkept⟩
    obtain ⟨rfl, rfl⟩ := Prod.mk.inj hnumbered
    exact ⟨i, rfl, List.getElem?_eq_getElem hi, by simpa using hkept⟩
  · rintro ⟨i, rfl, hrow, hkept⟩
    obtain ⟨hi, rfl⟩ := List.getElem?_eq_some_iff.mp hrow
    exact ⟨⟨i, hi, rfl⟩, by simpa using hkept⟩

theorem pairwise_fst_dataRows (rows : List Csv.Row) :
    (dataRows rows).Pairwise fun a b => a.1 < b.1 := by
  apply List.Pairwise.filter
  rw [List.pairwise_iff_getElem]
  intro i j hi hj hlt
  simpa using hlt

/-- The first row, counted from zero, that holds data and is malformed. -/
structure IsFirstMalformed (rows : List Csv.Row) (i : Nat)
    (row : Csv.Row) : Prop where
  row_eq : rows[i]? = some row
  holdsData : isSkipped (i + 1) row = false
  malformed : ¬ ∃ e, ReadsAs row e
  first : ∀ j < i, ∀ other, rows[j]? = some other →
    isSkipped (j + 1) other = true ∨ ∃ e, ReadsAs other e

theorem readRow_eq_error_iff {cause : RowError}
    (h : readRow row = .error cause) :
    ¬ ∃ e, ReadsAs row e := by
  rintro ⟨e, he⟩
  cases h.symm.trans (readRow_eq_ok_iff.mpr he)

/-- Rows that cannot be read are reported by the first of them. -/
theorem exists_of_readRows_eq_error (h : readRows rows = .error error) :
    ∃ i row cause, IsFirstMalformed rows i row ∧ readRow row = .error cause ∧
      error = .badRow (i + 1) cause := by
  obtain ⟨before, ⟨number, row⟩, after, hsplit, hbefore, hbad⟩ :=
    mapM_eq_error_iff.mp h
  obtain ⟨cause, hcause, rfl⟩ := mapError_eq_error_iff.mp hbad
  have hmem : (number, row) ∈ dataRows rows :=
    hsplit ▸ List.mem_append_right _ List.mem_cons_self
  obtain ⟨i, rfl, hrow, hkept⟩ := mem_dataRows.mp hmem
  refine ⟨i, row, cause, ⟨hrow, hkept, readRow_eq_error_iff hcause, ?_⟩,
    hcause, rfl⟩
  intro j hj other hother
  rw [or_iff_not_imp_left, Bool.not_eq_true]
  intro hdata
  have hearlier : (j + 1, other) ∈ dataRows rows :=
    mem_dataRows.mpr ⟨j, rfl, hother, hdata⟩
  -- a row with a smaller number stands before the reported one
  have hpairwise := pairwise_fst_dataRows rows
  rw [hsplit, List.pairwise_append] at hpairwise
  rw [hsplit, List.mem_append, List.mem_cons] at hearlier
  rcases hearlier with hin | hsame | hlater
  · obtain ⟨e, he⟩ := hbefore _ hin
    exact ⟨e, readRow_eq_ok_iff.mp (mapError_eq_ok_iff.mp he)⟩
  · have hnumber : j + 1 = i + 1 := congrArg Prod.fst hsame
    omega
  · have hlt := (List.pairwise_cons.mp hpairwise.2.1).1 _ hlater
    omega

theorem exists_readRows_eq_error_iff :
    (∃ error, readRows rows = .error error) ↔
      ∃ numbered ∈ dataRows rows, ¬ ∃ e, ReadsAs numbered.2 e := by
  constructor
  · rintro ⟨error, herror⟩
    obtain ⟨i, row, cause, hfirst, -, -⟩ := exists_of_readRows_eq_error herror
    exact ⟨(i + 1, row),
      mem_dataRows.mpr ⟨i, rfl, hfirst.row_eq, hfirst.holdsData⟩,
      hfirst.malformed⟩
  · rintro ⟨numbered, hmem, hmalformed⟩
    cases hread : readRows rows with
    | error error => exact ⟨error, rfl⟩
    | ok entries =>
        have hall := forall_mem_of_forall₂ (readRows_eq_ok_iff.mp hread)
          fun _ e _ he => (⟨e, he⟩ : ∃ e, ReadsAs _ e)
        exact absurd (hall numbered hmem) hmalformed

end Rows

/-- The rows of a file that end before its bytes stop being text, and whether
they are all sound. -/
def tableOf (bytes : List UInt8) : Csv.Table :=
  let readout := Utf8.read bytes
  if readout.complete then Csv.read readout.text
  else Csv.readEnded (Csv.endedLines readout.text)

/-- What is wrong with a file behind these rows. -/
def trouble? (bytes : List UInt8) : Option Error :=
  if !(tableOf bytes).complete then some .fieldTooLong
  else if !(Utf8.read bytes).complete then some .notText
  else none

/-- The rows come first, then what is wrong behind them. -/
theorem ofBytes_eq (bytes : List UInt8) :
    ofBytes bytes = (ofRows (tableOf bytes).rows).bind fun samples =>
      match trouble? bytes with
      | none => .ok samples
      | some error => .error error := by
  rw [ofBytes, trouble?, tableOf]
  cases hcomplete : (Utf8.read bytes).complete with
  | true =>
      simp only [↓reduceIte, ofTable]
      cases ofRows (Csv.read (Utf8.read bytes).text).rows with
      | error e => rfl
      | ok samples => cases (Csv.read (Utf8.read bytes).text).complete <;> rfl
  | false =>
      simp only [Bool.false_eq_true, ↓reduceIte, ofTable]
      cases ofRows (Csv.readEnded
          (Csv.endedLines (Utf8.read bytes).text)).rows with
      | error e => rfl
      | ok samples =>
          cases (Csv.readEnded
              (Csv.endedLines (Utf8.read bytes).text)).complete <;> rfl

theorem tableOf_of_isTable {bytes : List UInt8} {rows : List Csv.Row}
    (h : IsTable bytes rows) :
    tableOf bytes = ⟨rows, true⟩ := by
  rw [tableOf, h.1, if_pos rfl, h.2]

theorem trouble?_eq_none_iff {bytes : List UInt8} :
    trouble? bytes = none ↔ ∃ rows, IsTable bytes rows := by
  constructor
  · intro h
    rw [trouble?] at h
    split at h
    · cases h
    next hsound =>
      split at h
      · cases h
      next htext =>
        rw [Bool.not_eq_true, Bool.not_eq_false'] at hsound htext
        rw [tableOf, htext, if_pos rfl] at hsound
        exact ⟨_, htext, by rw [← hsound]⟩
  · rintro ⟨rows, hrows⟩
    rw [trouble?, tableOf_of_isTable hrows, hrows.1]
    rfl

/-- Trouble behind the rows is never a malformed row. -/
theorem ne_badRow_of_trouble? {bytes : List UInt8} {error : Error}
    (h : trouble? bytes = some error) (number : Nat) (cause : RowError) :
    error ≠ .badRow number cause := by
  rw [trouble?] at h
  split at h
  · cases h
    exact Error.noConfusion
  · split at h
    · cases h
      exact Error.noConfusion
    · cases h

/-- A file is refused because of its rows, or because of what is wrong behind
them. -/
theorem ofBytes_eq_error_iff {bytes : List UInt8} {error : Error} :
    ofBytes bytes = .error error ↔
      readRows (tableOf bytes).rows = .error error ∨
      (∃ entries, readRows (tableOf bytes).rows = .ok entries) ∧
      trouble? bytes = some error := by
  rw [ofBytes_eq, ofRows]
  cases readRows (tableOf bytes).rows with
  | error e => simp [Except.map, Except.bind]
  | ok entries => cases trouble? bytes <;> simp [Except.map, Except.bind]

theorem exists_ofBytes_eq_ok_iff {bytes : List UInt8} :
    (∃ samples, ofBytes bytes = .ok samples) ↔
      trouble? bytes = none ∧ ¬ ∃ error,
        readRows (tableOf bytes).rows = .error error := by
  rw [ofBytes_eq, ofRows]
  cases readRows (tableOf bytes).rows with
  | error e => simp [Except.map, Except.bind]
  | ok entries => cases trouble? bytes <;> simp [Except.map, Except.bind]

theorem exists_ofBytes_eq_badRow_iff {bytes : List UInt8} :
    (∃ number cause, ofBytes bytes = .error (.badRow number cause)) ↔
      ∃ error, readRows (tableOf bytes).rows = .error error := by
  constructor
  · rintro ⟨number, cause, hbad⟩
    rcases ofBytes_eq_error_iff.mp hbad with hrows | ⟨-, htrouble⟩
    · exact ⟨_, hrows⟩
    · exact absurd rfl (ne_badRow_of_trouble? htrouble number cause)
  · rintro ⟨error, herror⟩
    obtain ⟨i, row, cause, -, -, rfl⟩ := exists_of_readRows_eq_error herror
    exact ⟨i + 1, cause, ofBytes_eq_error_iff.mpr (.inl herror)⟩

/-- What a file is refused for.  One whose bytes are the text of a table is
refused just when one of its rows with data is malformed, and the message names
the number of the first such row.  So is any other file in which a malformed row
ends before the bytes stop being text or a field gets too long; without one the
refusal is of another kind. -/
theorem ofBytes_refused (bytes : List UInt8) :
    (∀ rows, IsTable bytes rows →
      ((∃ error, ofBytes bytes = .error error) ↔
        ∃ numbered ∈ dataRows rows, ¬ ∃ e, ReadsAs numbered.2 e) ∧
      ∀ error, ofBytes bytes = .error error →
        ∃ i row cause, IsFirstMalformed rows i row ∧
          readRow row = .error cause ∧
          error = .badRow (i + 1) cause ∧ ∀ file, error.message file =
            file ++ ":" ++ Decimal.natText (i + 1) ++ ": " ++ cause.message) ∧
    ((∃ samples, ofBytes bytes = .ok samples) ∨
        (∃ number cause, ofBytes bytes = .error (.badRow number cause)) ↔
      (∃ rows, IsTable bytes rows) ∨
        ∃ numbered ∈ dataRows (tableOf bytes).rows, ¬ ∃ e,
          ReadsAs numbered.2 e) := by
  constructor
  · intro rows hrows
    have hrefused : ∀ error, ofBytes bytes = .error error ↔
        readRows rows = .error error := by
      intro error
      rw [ofBytes_eq_error_iff, trouble?_eq_none_iff.mpr ⟨rows, hrows⟩,
        tableOf_of_isTable hrows]
      simp
    constructor
    · simp only [hrefused, exists_readRows_eq_error_iff]
    · intro error herror
      obtain ⟨i, row, cause, hfirst, hcause, rfl⟩ :=
        exists_of_readRows_eq_error ((hrefused error).mp herror)
      exact ⟨i, row, cause, hfirst, hcause, rfl, fun _ => rfl⟩
  · rw [exists_ofBytes_eq_ok_iff, exists_ofBytes_eq_badRow_iff,
      ← trouble?_eq_none_iff, ← exists_readRows_eq_error_iff]
    by_cases hrows : ∃ error, readRows (tableOf bytes).rows = .error error
    · simp only [hrows, or_true]
    · simp only [hrows, not_false_eq_true, and_true, or_false]

/-- A heading, a remark, a sound row, a row without an id and a row for a
pointer too many. -/
def spoiledRows : List UInt8 :=
  "time,id,x,y\n# start\n10,3,1.5,2.5\n20,x,0,0\n30,32,0,0\n".toUTF8.toList

/-- Two of its rows are malformed, and the first of them is reported. -/
theorem ofBytes_refused_spoiledRows :
    ∃ i row cause,
      IsFirstMalformed [["time", "id", "x", "y"], ["# start"],
        ["10", "3", "1.5", "2.5"], ["20", "x", "0", "0"],
        ["30", "32", "0", "0"]] i row ∧
      ofBytes spoiledRows = .error (.badRow (i + 1) cause) := by
  have htable : IsTable spoiledRows [["time", "id", "x", "y"], ["# start"],
      ["10", "3", "1.5", "2.5"], ["20", "x", "0", "0"],
      ["30", "32", "0", "0"]] := by
    decide +kernel
  obtain ⟨hrefused, hfirst⟩ := (ofBytes_refused spoiledRows).1 _ htable
  obtain ⟨error, herror⟩ :=
    hrefused.mpr ⟨(5, ["30", "32", "0", "0"]), by decide +kernel, by
      decide +kernel⟩
  obtain ⟨i, row, cause, hrow, -, rfl, -⟩ := hfirst error herror
  exact ⟨i, row, cause, hrow, herror⟩

/-- A byte that no text contains is not reported as a malformed row. -/
theorem ofBytes_notText :
    ¬ ((∃ samples, ofBytes [0xFF] = .ok samples) ∨
      ∃ number cause, ofBytes [0xFF] = .error (.badRow number cause)) := by
  have hrefused : ofBytes [0xFF] = .error .notText := rfl
  rw [hrefused]
  rintro (⟨samples, hsamples⟩ | ⟨number, cause, hbad⟩)
  · cases hsamples
  · cases hbad

end Trace

end PointerMotion
