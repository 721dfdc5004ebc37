/-
The first row of a file, which is taken for a heading when it does not start
with a number, and what it would be on the second line.
-/
import PointerMotion.Proofs.Malformed
import PointerMotion.Proofs.Spelling

namespace PointerMotion

namespace Csv

namespace Reader

/-- A reader with rows that ended before those it knows of. -/
def onTop (base : List Row) (r : Reader) : Reader :=
  { r with rows := r.rows ++ base }

variable (base : List Row) (r : Reader)

theorem place_onTop : (r.onTop base).place = r.place :=
  rfl

theorem rows_onTop : (r.onTop base).rows = r.rows ++ base :=
  rfl

theorem endField_onTop : (r.onTop base).endField = r.endField.onTop base :=
  rfl

theorem endRow_onTop : (r.onTop base).endRow = r.endRow.onTop base :=
  rfl

theorem addChar_onTop (place : Place) (c : Char) :
    (r.onTop base).addChar place c = (r.addChar place c).map (onTop base) := by
  rw [addChar, addChar, apply_ite (Option.map (onTop base))]
  rfl

theorem beginField_onTop (c : Char) :
    (r.onTop base).beginField c = (r.beginField c).map (onTop base) := by
  rw [beginField, beginField, addChar_onTop, endField_onTop]
  simp only [apply_ite (Option.map (onTop base))]
  rfl

/-- No step looks at the rows. -/
theorem step_onTop (c : Char) :
    (r.onTop base).step c = (r.step c).map (onTop base) := by
  -- at every place both readers take the same branch, since none depends on the
  -- rows
  cases hplace : r.place <;>
    simp only [step, place_onTop, hplace, apply_ite (Option.map (onTop base)),
      Option.map_some, ← beginField_onTop, ← addChar_onTop] <;>
    rfl

theorem finish_onTop : (r.onTop base).finish = r.finish.onTop base := by
  rw [finish, finish, endField_onTop, endRow_onTop, apply_ite (onTop base)]
  rfl

end Reader

theorem scan_onTop (base : List Row) (r : Reader) (text : List Char) :
    scan (r.onTop base) text =
      ((scan r text).1.onTop base, (scan r text).2) := by
  induction text generalizing r with
  | nil => rfl
  | cons c rest ih =>
      rw [scan, scan, Reader.step_onTop]
      cases r.step c with
      | none => rfl
      | some next => exact ih next

/-- A line feed before a text is an empty row before its rows. -/
theorem read_lineFeed_cons (text : List Char) :
    read ('\n' :: text) = ⟨[] :: (read text).rows, (read text).complete⟩ := by
  have hscan : scan Reader.start ('\n' :: text) =
      scan (Reader.start.onTop [[]]) text := rfl
  rw [read, read, hscan, scan_onTop]
  obtain ⟨r, complete⟩ := scan Reader.start text
  cases complete with
  | true => simp [Reader.finish_onTop, Reader.rows_onTop]
  | false => simp [Reader.rows_onTop]

end Csv

namespace Utf8

/-- How far bytes can be read that stand behind others. -/
def Scan.behind (before : List Char) (length : Nat) (scan : Scan) : Scan :=
  { scan with chars := scan.chars ++ before, length := scan.length + length }

theorem scanFrom_behind (before chars : List Char) (beforeLength length : Nat)
    (inside : Option Partial) (bytes : List UInt8) :
    scanFrom (chars ++ before) (length + beforeLength) inside bytes =
      (scanFrom chars length inside bytes).behind before beforeLength := by
  induction bytes generalizing chars length inside with
  | nil => rfl
  | cons byte rest ih =>
      rw [scanFrom, scanFrom, Nat.add_right_comm length beforeLength 1]
      cases step? inside byte.toNat with
      | none => rfl
      | some step =>
          cases step with
          | char c => exact ih (c :: chars) (length + 1) none
          | more p => exact ih chars (length + 1) (some p)

theorem scan_lineFeed_cons (bytes : List UInt8) :
    scan (10 :: bytes) = (scan bytes).behind ['\n'] 1 :=
  scanFrom_behind ['\n'] [] 1 0 none bytes

theorem complete_read_iff {bytes : List UInt8} :
    (read bytes).complete = true ↔ (scan bytes).spoiled = false ∧
      (scan bytes).inside = false := by
  rw [read]
  cases (scan bytes).spoiled <;> simp

theorem text_read_of_complete {bytes : List UInt8}
    (h : (read bytes).complete = true) :
    (read bytes).text = (scan bytes).chars.reverse := by
  rw [read, (complete_read_iff.mp h).1]
  rfl

theorem complete_read_lineFeed_cons (bytes : List UInt8) :
    (read (10 :: bytes)).complete = (read bytes).complete := by
  rw [Bool.eq_iff_iff, complete_read_iff, complete_read_iff, scan_lineFeed_cons]
  rfl

theorem text_read_lineFeed_cons {bytes : List UInt8}
    (h : (read bytes).complete = true) :
    (read (10 :: bytes)).text = '\n' :: (read bytes).text := by
  have hlater : (read (10 :: bytes)).complete = true :=
    (complete_read_lineFeed_cons bytes).trans h
  rw [text_read_of_complete hlater, text_read_of_complete h, scan_lineFeed_cons]
  exact List.reverse_append

end Utf8

namespace Trace

/-- An error when there is one more row before those it counts. -/
def Error.oneRowLater : Error → Error
  | .badRow number cause => .badRow (number + 1) cause
  | .notText => .notText
  | .fieldTooLong => .fieldTooLong

section Rows

variable {number : Nat} {row : Csv.Row} {e : Entry}

/-- Only the first line is looked at for a heading. -/
theorem isSkipped_of_ne_one (h : number ≠ 1) (row : Csv.Row) :
    isSkipped number row = isSkipped 2 row := by
  cases row with
  | nil => rfl
  | cons lead fields => simp [isSkipped, h]

/-- The rows with data when the first of them is on this line. -/
def dataRowsFrom (first : Nat) (rows : List Csv.Row) : List (Nat × Csv.Row) :=
  (rows.mapIdx fun i row => (i + first, row)).filter fun (number, row) =>
    !isSkipped number row

theorem dataRowsFrom_cons (first : Nat) (row : Csv.Row) (rows : List Csv.Row) :
    dataRowsFrom first (row :: rows) =
      if isSkipped first row then dataRowsFrom (first + 1) rows
      else (first, row) :: dataRowsFrom (first + 1) rows := by
  simp only [dataRowsFrom, List.mapIdx_cons, List.filter_cons, Nat.zero_add,
    Nat.add_assoc, Nat.add_comm 1 first]
  cases isSkipped first row <;> rfl

/-- Behind the first line a row holds data or not wherever it stands. -/
theorem dataRowsFrom_succ {first : Nat} (h : 1 < first) (rows : List Csv.Row) :
    dataRowsFrom (first + 1) rows =
      (dataRowsFrom first rows).map fun (number, row) => (number + 1, row) := by
  induction rows generalizing first with
  | nil => rfl
  | cons row rest ih =>
      rw [dataRowsFrom_cons, dataRowsFrom_cons, ih (Nat.lt_succ_of_lt h),
        isSkipped_of_ne_one (by omega : first + 1 ≠ 1),
        isSkipped_of_ne_one (by omega : first ≠ 1)]
      cases isSkipped 2 row <;> rfl

/-- Reads a row with data that stands on a line. -/
def readNumbered (numbered : Nat × Csv.Row) : Except Error Entry :=
  (readRow numbered.2).mapError (.badRow numbered.1)

theorem readNumbered_succ (number : Nat) (row : Csv.Row) :
    readNumbered (number + 1, row) = (readNumbered (number, row)).mapError
      .oneRowLater := by
  rw [readNumbered, readNumbered]
  cases readRow row <;> rfl

/-- One line further down the same rows are read, or the same one is
malformed. -/
theorem mapM_readNumbered_succ (numbered : List (Nat × Csv.Row)) :
    (numbered.map fun (number, row) => (number + 1, row)).mapM readNumbered =
      (numbered.mapM readNumbered).mapError .oneRowLater := by
  induction numbered with
  | nil => rfl
  | cons head rest ih =>
      rw [List.map_cons, List.mapM_cons, List.mapM_cons, ih, readNumbered_succ]
      cases readNumbered head with
      | error error => rfl
      | ok e => cases rest.mapM readNumbered <;> rfl

theorem readRows_eq_mapM (rows : List Csv.Row) :
    readRows rows = (dataRowsFrom 1 rows).mapM readNumbered :=
  rfl

variable (he : ReadsAs row e)

include he

theorem readNumbered_of_readsAs (number : Nat) :
    readNumbered (number, row) = .ok e :=
  mapError_eq_ok_iff.mpr (readRow_eq_ok_iff.mpr he)

/-- A row that can be read is read on the second line. -/
theorem readRows_nil_cons (hkept : isSkipped 2 row = false)
    (rest : List Csv.Row) :
    readRows ([] :: row :: rest) =
      (((dataRowsFrom 2 rest).mapM readNumbered).map (e :: ·)).mapError
        .oneRowLater := by
  have hempty : dataRowsFrom 1 ([] :: row :: rest) =
      dataRowsFrom 2 (row :: rest) :=
    (dataRowsFrom_cons 1 [] _).trans (if_pos rfl)
  rw [readRows_eq_mapM, hempty, dataRowsFrom_cons, hkept,
    if_neg Bool.false_ne_true, dataRowsFrom_succ (by decide), List.mapM_cons,
    readNumbered_of_readsAs he, mapM_readNumbered_succ]
  cases (dataRowsFrom 2 rest).mapM readNumbered <;> rfl

/-- On the first line it may be taken for a heading. -/
theorem readRows_cons (rest : List Csv.Row) :
    readRows (row :: rest) =
      if isSkipped 1 row then (dataRowsFrom 2 rest).mapM readNumbered
      else ((dataRowsFrom 2 rest).mapM readNumbered).map (e :: ·) := by
  rw [readRows_eq_mapM, dataRowsFrom_cons]
  cases isSkipped 1 row with
  | true => rfl
  | false =>
      rw [if_neg Bool.false_ne_true, List.mapM_cons, readNumbered_of_readsAs he]
      cases (dataRowsFrom 2 rest).mapM readNumbered <;> rfl

end Rows

/-- A row with numbers is taken for a heading if a plus sign or an underscore is
in the first. -/
theorem isSkipped_of_readsAs {lead : String} {fields : List String} {e : Entry}
    (h : ReadsAs (lead :: fields) e) (number : Nat) :
    isSkipped number (lead :: fields) = true ↔
      number = 1 ∧ ('+' ∈ lead.toList ∨ '_' ∈ lead.toList) := by
  obtain ⟨text, hlead, hwhole⟩ := h.time
  obtain rfl := Option.some.inj hlead
  obtain ⟨sign, digits, hspells⟩ := Literal.exists_spells_of_whole? hwhole
  have hhash : lead.startsWith "#" = false := by
    rw [String.startsWith_string_eq_false_iff]
    intro hstart
    exact hspells.hash_notMem (hstart.mem (List.mem_singleton_self '#'))
  have hnumeric := looksNumeric_iff_of_whole? hwhole
  rw [isSkipped, hhash, Bool.false_or, Bool.and_eq_true, beq_iff_eq,
    Bool.not_eq_true', ← Bool.not_eq_true, hnumeric, not_and_or,
    not_not, not_not]

theorem tableOf_lineFeed_cons {bytes : List UInt8}
    (h : (Utf8.read bytes).complete = true) :
    tableOf (10 :: bytes) =
      ⟨[] :: (tableOf bytes).rows, (tableOf bytes).complete⟩ := by
  have hlater := (Utf8.complete_read_lineFeed_cons bytes).trans h
  rw [tableOf, tableOf, hlater, h, if_pos rfl, Utf8.text_read_lineFeed_cons h,
    Csv.read_lineFeed_cons]
  rfl

theorem ofBytes_lineFeed_cons {bytes : List UInt8}
    (h : (Utf8.read bytes).complete = true)
    (hrows : readRows ([] :: (tableOf bytes).rows) =
      (readRows (tableOf bytes).rows).mapError .oneRowLater) :
    ofBytes (10 :: bytes) = (ofBytes bytes).mapError .oneRowLater := by
  have hlater := (Utf8.complete_read_lineFeed_cons bytes).trans h
  rw [ofBytes_eq, ofBytes_eq, trouble?, trouble?, tableOf_lineFeed_cons h,
    hlater, h, ofRows, ofRows, hrows]
  cases readRows (tableOf bytes).rows with
  | error error => rfl
  | ok entries => cases (tableOf bytes).complete <;> rfl

theorem ofBytes_ne_ok_of_incomplete {bytes : List UInt8}
    (h : (Utf8.read bytes).complete = false) (samples : List Sample) :
    ofBytes bytes ≠ .ok samples := by
  intro hok
  obtain ⟨rows, htext, -⟩ :=
    trouble?_eq_none_iff.mp (exists_ofBytes_eq_ok_iff.mp ⟨samples, hok⟩).1
  cases htext.symm.trans h

/-- What becomes of a first row that can be read.  It is taken for a heading
just when a plus sign or an underscore is in its first field, and then its entry
is what is missing.  Otherwise an empty row before it changes nothing but the
numbers of the rows.  Bytes that are no text give no samples either way. -/
theorem ofBytes_firstRow (bytes : List UInt8) :
    ((Utf8.read bytes).complete = false →
      ∀ samples, ofBytes bytes ≠ .ok samples ∧
        ofBytes (10 :: bytes) ≠ .ok samples) ∧
    ∀ lead fields rest e, (Utf8.read bytes).complete = true →
      (tableOf bytes).rows = (lead :: fields) :: rest →
      ReadsAs (lead :: fields) e →
      (isSkipped 1 (lead :: fields) = true ↔ '+' ∈ lead.toList ∨
        '_' ∈ lead.toList) ∧
      (∀ number, number ≠ 1 → isSkipped number (lead :: fields) = false) ∧
      ('+' ∉ lead.toList → '_' ∉ lead.toList →
        ofBytes (10 :: bytes) = (ofBytes bytes).mapError .oneRowLater) ∧
      ('+' ∈ lead.toList ∨ '_' ∈ lead.toList →
        readRows (tableOf (10 :: bytes)).rows =
          ((readRows (tableOf bytes).rows).map (e :: ·)).mapError
            .oneRowLater) := by
  constructor
  · intro hspoiled samples
    have hlater := (Utf8.complete_read_lineFeed_cons bytes).trans hspoiled
    exact ⟨ofBytes_ne_ok_of_incomplete hspoiled samples,
      ofBytes_ne_ok_of_incomplete hlater samples⟩
  · intro lead fields rest e htext hrows he
    have hskipped := isSkipped_of_readsAs he
    have hkept : ∀ number, number ≠ 1 →
        isSkipped number (lead :: fields) = false := by
      intro number hnumber
      rw [← Bool.not_eq_true, hskipped]
      exact fun h => hnumber h.1
    -- with an empty row before it the first row is read, so only the first line
    -- decides
    have hsecond := readRows_nil_cons he (hkept 2 (by decide)) rest
    have hfirst := readRows_cons he rest
    refine ⟨(hskipped 1).trans (and_iff_right rfl), hkept, ?_, ?_⟩
    · intro hplus hscore
      have hdata : ¬ isSkipped 1 (lead :: fields) = true := fun h =>
        ((hskipped 1).mp h).2.elim hplus hscore
      rw [if_neg hdata] at hfirst
      apply ofBytes_lineFeed_cons htext
      rw [hrows, hsecond, hfirst]
    · intro hsign
      rw [if_pos ((hskipped 1).mpr ⟨rfl, hsign⟩)] at hfirst
      rw [tableOf_lineFeed_cons htext, hrows, hsecond, hfirst]

/-- A time with a dash, between blanks and in the digits of two scripts, and a
malformed row. -/
def dashedTime : List UInt8 :=
  " -٣4 ,0,1,1\n6,0,2\n".toUTF8.toList

/-- The first row is read, so an empty row before it only moves the error
down. -/
theorem ofBytes_firstRow_dashedTime :
    ofBytes dashedTime = .error (.badRow 2 .missingField) ∧
      ofBytes (10 :: dashedTime) = .error (.badRow 3 .missingField) := by
  have hrefused : ofBytes dashedTime = .error (.badRow 2 .missingField) := by
    rw [← map_eq_error_iff (f := List.length)]
    decide +kernel
  have he : ReadsAs [" -٣4 ", "0", "1", "1"] ⟨-34, 0, ⟨1.0, 1.0⟩⟩ :=
    ⟨⟨_, rfl, by decide +kernel⟩, ⟨_, rfl, by decide +kernel⟩,
      ⟨_, rfl, by decide +kernel⟩,
      ⟨_, rfl, by decide +kernel⟩⟩
  have hsame :=
    ((ofBytes_firstRow dashedTime).2 " -٣4 " ["0", "1", "1"] [["6", "0", "2"]] _
    (by decide +kernel) (by decide +kernel) he).2.2.1 (by decide) (by decide)
  exact ⟨hrefused, by rw [hsame, hrefused]; rfl⟩

/-- A time with a plus sign, and a later row. -/
def plusTime : List UInt8 :=
  "+5,0,1,1\n6,0,2,2\n".toUTF8.toList

/-- The first row can be read and does not start with a hash, and yet it is
dropped. -/
theorem ofBytes_plusTime :
    (∃ e, ReadsAs ["+5", "0", "1", "1"] e) ∧ "+5".startsWith "#" = false ∧
      IsTable plusTime [["+5", "0", "1", "1"], ["6", "0", "2", "2"]] ∧
      ofBytes (10 :: plusTime) ≠ (ofBytes plusTime).mapError .oneRowLater := by
  refine ⟨by decide +kernel, by decide +kernel, by decide +kernel, ?_⟩
  have hone : (ofBytes plusTime).map List.length = .ok 1 := by decide +kernel
  have htwo : (ofBytes (10 :: plusTime)).map List.length = .ok 2 := by
    decide +kernel
  intro hsame
  rw [hsame] at htwo
  cases hread : ofBytes plusTime with
  | error error => rw [hread] at hone; cases hone
  | ok samples =>
      rw [hread] at hone htwo
      cases (Except.ok.inj hone).symm.trans (Except.ok.inj htwo)

end Trace

end PointerMotion
