/-
Traces that are recorded and read back.  Rows fall into runs of one time and
samples become runs of rows, so nothing is lost on the way.
-/
import PointerMotion.Proofs.Grouping
import PointerMotion.Proofs.WrittenNumber

namespace PointerMotion

section Success

variable {ε ε' β γ : Type} {x : Except ε β}

theorem bind_eq_ok_iff {next : β → Except ε γ} {c : γ} :
    (x >>= next) = .ok c ↔ ∃ b, x = .ok b ∧ next b = .ok c := by
  cases x <;> simp [bind, Except.bind]

theorem mapError_eq_ok_iff {f : ε → ε'} {b : β} :
    x.mapError f = .ok b ↔ x = .ok b := by
  cases x <;> simp [Except.mapError]

end Success

/-- What follows from a match in the second list holds all through the first
one. -/
theorem forall_mem_of_forall₂ {β γ : Type} {R : β → γ → Prop} {p : β → Prop}
    {left : List β} {right : List γ} (h : List.Forall₂ R left right)
    (himp : ∀ b, ∀ c ∈ right, R b c → p b) :
    ∀ b ∈ left, p b := by
  induction h with
  | nil => exact List.forall_mem_nil _
  | cons hfirst _ ih =>
      refine List.forall_mem_cons.mpr
        ⟨himp _ _ List.mem_cons_self hfirst, ih ?_⟩
      exact fun b c hc => himp b c (List.mem_cons_of_mem _ hc)

namespace Trace

variable {row : Csv.Row} {e : Entry}

/-- A field holds what is read in it. -/
theorem field_bind_eq_ok_iff {β : Type} {read : String → Except RowError β}
    {i : Nat} {b : β} :
    (field row i).bind read = .ok b ↔ ∃ text, row[i]? = some text ∧
      read text = .ok b := by
  rw [field]
  cases row[i]? <;> simp [Except.bind]

theorem wholeField_eq_ok_iff {text : String} {n : Int} :
    wholeField text = .ok n ↔ Literal.whole? text = .ok n := by
  rw [wholeField]
  split <;> simp_all

theorem coordinateField_eq_ok_iff {text : String} {x : Float} :
    coordinateField text = .ok x ↔ Literal.double? text = some x := by
  rw [coordinateField]
  cases Literal.double? text <;> simp

/-- Whether the first four fields of a row hold an entry: its time, its id and
its coordinates. -/
structure ReadsAs (row : Csv.Row) (e : Entry) : Prop where
  time : ∃ text, row[0]? = some text ∧ Literal.whole? text = .ok e.time
  id : ∃ text, row[1]? = some text ∧ Literal.whole? text = .ok (e.id.val : Int)
  x : ∃ text, row[2]? = some text ∧ Literal.double? text = some e.position.x
  y : ∃ text, row[3]? = some text ∧ Literal.double? text = some e.position.y

theorem readRow_eq_ok_iff : readRow row = .ok e ↔ ReadsAs row e := by
  simp only [readRow, bind_eq_ok_iff, field_bind_eq_ok_iff,
    wholeField_eq_ok_iff, coordinateField_eq_ok_iff, mapError_eq_ok_iff,
    PointerId.ofInt?_eq_ok_iff]
  constructor
  · rintro ⟨time, htime, _, hid, x, hx, y, hy, id, rfl, he⟩
    obtain rfl := Except.ok.inj he
    exact ⟨htime, hid, hx, hy⟩
  · intro h
    exact ⟨_, h.time, _, h.id, _, h.x, _, h.y, e.id, rfl, rfl⟩

/-- Whether a row holds an entry can be found out by reading it. -/
theorem isSome_readRow_iff :
    (readRow row).toOption.isSome = true ↔ ∃ e, ReadsAs row e := by
  simp only [← readRow_eq_ok_iff]
  cases readRow row <;> simp [Except.toOption]

instance (row : Csv.Row) : Decidable (∃ e, ReadsAs row e) :=
  decidable_of_iff _ isSome_readRow_iff

theorem readRows_eq_ok_iff {rows : List Csv.Row} {entries : List Entry} :
    readRows rows = .ok entries ↔
      List.Forall₂ (fun numbered e => ReadsAs numbered.2 e)
        (dataRows rows) entries := by
  simp only [readRows, mapM_eq_ok_iff, mapError_eq_ok_iff, readRow_eq_ok_iff]

theorem exists_readRows {rows : List Csv.Row}
    (h : ∀ numbered ∈ dataRows rows, ∃ e, ReadsAs numbered.2 e) :
    ∃ entries, readRows rows = .ok entries := by
  apply exists_mapM_eq_ok
  intro numbered hnumbered
  obtain ⟨e, he⟩ := h numbered hnumbered
  exact ⟨e, mapError_eq_ok_iff.mpr (readRow_eq_ok_iff.mpr he)⟩

/-- Whether the bytes of a file are text that is a table of rows to its end. -/
def IsTable (bytes : List UInt8) (rows : List Csv.Row) : Prop :=
  (Utf8.read bytes).complete = true ∧
    Csv.read (Utf8.read bytes).text = ⟨rows, true⟩

instance (bytes : List UInt8) (rows : List Csv.Row) :
    Decidable (IsTable bytes rows) :=
  inferInstanceAs (Decidable (_ ∧ _))

theorem ofBytes_eq_ok {bytes : List UInt8} {rows : List Csv.Row}
    {entries : List Entry} (htable : IsTable bytes rows)
    (h : readRows rows = .ok entries) :
    ofBytes bytes = .ok ((groups entries).map Group.sample) := by
  rw [ofBytes, htable.1, htable.2]
  simp only [↓reduceIte, ofTable, ofRows, h]
  rfl

/-- Whether a row is written for an entry, the texts of the coordinates denoting
them. -/
def WrittenFor (row : Csv.Row) (e : Entry) : Prop :=
  ∃ x y, row = [Decimal.intText e.time, Decimal.natText e.id.val, x, y] ∧
    Literal.double? x = some e.position.x ∧
    Literal.double? y = some e.position.y

theorem WrittenFor.readsAs (h : WrittenFor row e)
    (hdigits : (Decimal.digitList e.time.natAbs).length ≤ Literal.maxDigits) :
    ReadsAs row e := by
  obtain ⟨x, y, rfl, hx, hy⟩ := h
  exact ⟨⟨_, rfl, Literal.whole?_intText hdigits⟩,
    ⟨_, rfl, Literal.whole?_natText_id e.id⟩,
    ⟨x, rfl, hx⟩, ⟨y, rfl, hy⟩⟩

/-- Rows that are written for entries hold data, all of them. -/
theorem map_snd_dataRows {rows : List Csv.Row} {entries : List Entry}
    (h : List.Forall₂ WrittenFor rows entries) :
    (dataRows rows).map Prod.snd = rows := by
  have hwritten : ∀ row ∈ rows, ∃ e, WrittenFor row e :=
    forall_mem_of_forall₂ h fun _ e _ hrow => ⟨e, hrow⟩
  have hkept : ∀ numbered ∈ rows.mapIdx fun i row => (i + 1, row),
      (!isSkipped numbered.1 numbered.2) = true := by
    intro numbered hnumbered
    obtain ⟨i, hi, rfl⟩ := List.mem_mapIdx.mp hnumbered
    obtain ⟨e, x, y, hrow, -⟩ := hwritten rows[i] (List.getElem_mem hi)
    rw [hrow, isSkipped_intText]
    rfl
  have hall : dataRows rows = rows.mapIdx fun i row => (i + 1, row) :=
    List.filter_eq_self.mpr hkept
  rw [hall]
  apply List.ext_getElem?
  intro i
  rw [List.getElem?_map, List.getElem?_mapIdx]
  cases rows[i]? <;> rfl

/-- What is written is read back. -/
theorem readRows_of_writtenFor {rows : List Csv.Row} {entries : List Entry}
    (h : List.Forall₂ WrittenFor rows entries)
    (hdigits : ∀ e ∈ entries, (Decimal.digitList e.time.natAbs).length ≤
      Literal.maxDigits) :
    readRows rows = .ok entries := by
  have hreads : List.Forall₂ (flip ReadsAs) entries rows :=
    ((List.forall₂_and_left _ _).mpr ⟨hdigits, List.Forall₂.flip h⟩).imp
      fun e row hrow => WrittenFor.readsAs hrow.2 hrow.1
  rw [readRows_eq_ok_iff]
  apply List.forall₂_map_left_iff.mp
  rw [map_snd_dataRows h]
  exact List.Forall₂.flip hreads

/-- Rows are grouped without loss.  A file whose rows with data can be read
gives a sample for each longest run of entries of one time, which gathers the
run; no sample is empty, and neighbouring ones differ in time.  Such samples,
written as rows in any order within each, are what the file gives back. -/
theorem ofBytes_gathers_and_restores {bytes : List UInt8} {rows : List Csv.Row}
    (htable : IsTable bytes rows) :
    ((∀ numbered ∈ dataRows rows, ∃ e, ReadsAs numbered.2 e) →
      ∃ entries samples,
        List.Forall₂ (fun numbered e => ReadsAs numbered.2 e)
          (dataRows rows) entries ∧
          ofBytes bytes = .ok samples ∧
          List.Forall₂ Sample.Gathers samples (runs entries) ∧
          (∀ s ∈ samples, s.ids ≠ ∅ ∧ s.positions.length = s.ids.card) ∧
          samples.IsChain fun s next => s.time ≠ next.time) ∧
      ∀ (samples : List Sample) (parts : List (List Entry)),
        (∀ s ∈ samples, s.ids ≠ ∅ ∧ s.positions.length = s.ids.card ∧
          (Decimal.digitList s.time.natAbs).length ≤ Literal.maxDigits) →
        (samples.IsChain fun s next => s.time ≠ next.time) →
        List.Forall₂ (fun s run => run.Perm s.entries) samples parts →
        List.Forall₂ WrittenFor rows parts.flatten →
        ofBytes bytes = .ok samples := by
  constructor
  · intro hreadable
    obtain ⟨entries, hentries⟩ := exists_readRows hreadable
    have hgathers := gathers_map_sample (areRuns_runs entries)
    rw [runs, List.flatten_splitBy, ← runs] at hgathers
    refine ⟨entries, (groups entries).map Group.sample,
      readRows_eq_ok_iff.mp hentries,
      ofBytes_eq_ok htable hentries, hgathers, ?_, ?_⟩
    · exact forall_mem_of_forall₂ hgathers fun s run hrun hs =>
        ⟨hs.ids_ne_empty ((areRuns_runs entries).ne_nil run hrun), hs.sized⟩
    · exact (List.isChain_map _).mpr (isChain_groups entries)
  · intro samples parts hsamples htimes hparts hrows
    have hgathers : List.Forall₂ Sample.Gathers samples parts :=
      ((List.forall₂_and_left _ _).mpr ⟨hsamples, hparts⟩).imp fun s run h =>
        gathers_of_perm h.1.2.1 h.2
    have hruns : AreRuns parts :=
      areRuns_of_gathers (fun s hs => (hsamples s hs).1) htimes hgathers
    have hdigits : ∀ e ∈ parts.flatten,
        (Decimal.digitList e.time.natAbs).length ≤ Literal.maxDigits := by
      intro e he
      obtain ⟨s, hs, htime⟩ := exists_time_eq_of_mem_flatten hgathers he
      rw [htime]
      exact (hsamples s hs).2.2
    rw [ofBytes_eq_ok htable (readRows_of_writtenFor hrows hdigits)]
    exact congrArg Except.ok
      (eq_of_forall₂_gathers hruns.ne_nil (gathers_map_sample hruns) hgathers)

/-- A trace with a heading and a remark, in which pointer 3 is seen twice at one
time. -/
def recorded : List UInt8 :=
  "time,id,x,y\n10,3,1.5,2.5\n# again\n10,1,0.5,0.25\n10,3,2.0,3.0\n20,1,1.0,0.5\n"
    |>.toUTF8 |>.toList

/-- Two samples, the positions of the first by descending id. -/
def written : List UInt8 :=
  "10,3,2.0,3.0\n10,1,0.5,0.25\n20,1,1.0,0.5\n".toUTF8.toList

/-- The one is grouped, the other restored. -/
theorem ofBytes_recorded_and_written :
    (∃ entries samples, ofBytes recorded = .ok samples ∧
      List.Forall₂ Sample.Gathers samples (runs entries) ∧
      samples.IsChain fun s next => s.time ≠ next.time) ∧
    ofBytes written = .ok
      [⟨10, .ofList [1, 3], [⟨0.5, 0.25⟩, ⟨2.0, 3.0⟩]⟩,
          ⟨20, {1}, [⟨1.0, 0.5⟩]⟩] := by
  constructor
  · have htable : IsTable recorded [["time", "id", "x", "y"],
        ["10", "3", "1.5", "2.5"], ["# again"], ["10", "1", "0.5", "0.25"],
        ["10", "3", "2.0", "3.0"], ["20", "1", "1.0", "0.5"]] := by
      decide +kernel
    obtain ⟨entries, samples, -, hread, hgathers, -, htimes⟩ :=
      (ofBytes_gathers_and_restores htable).1 (by decide +kernel)
    exact ⟨entries, samples, hread, hgathers, htimes⟩
  · have htable : IsTable written [["10", "3", "2.0", "3.0"],
        ["10", "1", "0.5", "0.25"], ["20", "1", "1.0", "0.5"]] := by
      decide +kernel
    refine (ofBytes_gathers_and_restores htable).2 _
      [[⟨10, 3, ⟨2.0, 3.0⟩⟩, ⟨10, 1, ⟨0.5, 0.25⟩⟩], [⟨20, 1, ⟨1.0, 0.5⟩⟩]]
      ?_ ?_ ?_ ?_
    · decide
    · decide
    · exact .cons (.swap _ _ _) (.cons (.refl _) .nil)
    · have hthird : WrittenFor ["10", "3", "2.0", "3.0"] ⟨10, 3, ⟨2.0, 3.0⟩⟩ :=
        ⟨"2.0", "3.0", by decide +kernel, by decide +kernel, by decide +kernel⟩
      have hfirst : WrittenFor ["10", "1", "0.5", "0.25"] ⟨10, 1,
          ⟨0.5, 0.25⟩⟩ :=
        ⟨"0.5", "0.25", by decide +kernel, by decide +kernel, by decide +kernel⟩
      have hlater : WrittenFor ["20", "1", "1.0", "0.5"] ⟨20, 1, ⟨1.0, 0.5⟩⟩ :=
        ⟨"1.0", "0.5", by decide +kernel, by decide +kernel, by decide +kernel⟩
      exact .cons hthird (.cons hfirst (.cons hlater .nil))

end Trace

end PointerMotion
