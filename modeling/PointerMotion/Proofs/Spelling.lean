/-
How a whole number that is read is spelled, and what of it the test for the
start of a number takes: the dash and the digits, not the plus sign.
-/
import PointerMotion.Proofs.WrittenNumber

namespace PointerMotion

open Literal

namespace Text

/-- A digit stands behind the zero of its script. -/
theorem exists_zero_of_digitValue? {c : Char} {value : Nat}
    (h : digitValue? c = some value) :
    ∃ start ∈ zeros, value < 10 ∧ c = Char.ofNat (start + value) := by
  rw [digitValue?, Option.map_eq_some_iff] at h
  obtain ⟨start, hstart, rfl⟩ := h
  have hbounds := List.find?_some hstart
  rw [Bool.and_eq_true, decide_eq_true_eq, decide_eq_true_eq] at hbounds
  refine ⟨start, List.mem_of_find?_eq_some hstart, by omega, ?_⟩
  rw [Nat.add_sub_cancel' hbounds.1, Char.ofNat_toNat]

theorem not_isBlank_of_isSome_digitValue? {c : Char}
    (h : (digitValue? c).isSome = true) :
    ¬ isBlank c = true := by
  have hdigits : ∀ start ∈ zeros, ∀ value < 10,
      isBlank (Char.ofNat (start + value)) = false := by
    decide +kernel
  obtain ⟨value, hvalue⟩ := Option.isSome_iff_exists.mp h
  obtain ⟨start, hstart, hlt, rfl⟩ := exists_zero_of_digitValue? hvalue
  rw [hdigits start hstart value hlt]
  exact Bool.false_ne_true

end Text

namespace Literal

/-- What a character becomes in a numeral in ASCII. -/
def asciiChar (c : Char) : Char :=
  if c.toNat < 127 then c
  else
    match Text.digitValue? c with
    | some value => Char.ofNat ('0'.toNat + value)
    | none => '?'

theorem asciiForm_eq_map (text : List Char) :
    asciiForm text = text.map asciiChar :=
  rfl

/-- A character stays, is a digit and becomes one, or fits in nowhere. -/
theorem asciiChar_cases (c : Char) :
    asciiChar c = c ∨
      ((Text.digitValue? c).isSome = true ∧ isAsciiDigit (asciiChar c) = true) ∨
        asciiChar c = '?' := by
  rw [asciiChar]
  split
  · exact .inl rfl
  · cases hvalue : Text.digitValue? c with
    | none => exact .inr (.inr rfl)
    | some value =>
        have hdigits : ∀ value < 10,
            isAsciiDigit (Char.ofNat ('0'.toNat + value)) = true := by
          decide
        obtain ⟨_, -, hlt, -⟩ := Text.exists_zero_of_digitValue? hvalue
        exact .inr (.inl ⟨rfl, hdigits value hlt⟩)

/-- What is neither a digit nor a question mark comes from itself. -/
theorem eq_of_asciiChar_eq {c sign : Char} (hplain : isAsciiDigit sign = false)
    (hknown : sign ≠ '?') (h : asciiChar c = sign) : c = sign := by
  subst h
  rcases asciiChar_cases c with hsame | ⟨-, hdigit⟩ | hunknown
  · exact hsame.symm
  · exact absurd (hplain.symm.trans hdigit) Bool.false_ne_true
  · exact absurd hunknown hknown

theorem isSome_digitValue?_of_asciiChar {c : Char}
    (h : isAsciiDigit (asciiChar c) = true) :
    (Text.digitValue? c).isSome = true := by
  rcases asciiChar_cases c with hsame | ⟨hdigit, -⟩ | hunknown
  · exact Text.isSome_digitValue?_of_isAsciiDigit (hsame ▸ h)
  · exact hdigit
  · rw [hunknown] at h
    exact absurd h (by decide)

/-- A numeral between blanks: a sign or none, and digits that may have
underscores among them. -/
structure Spells (text : String) (sign digits : List Char) : Prop where
  between : ∃ before after, text.toList = before ++ (sign ++ digits) ++ after ∧
    ∀ c ∈ before ++ after, Text.isBlank c = true
  sign_eq : sign = [] ∨ sign = ['-'] ∨ sign = ['+']
  digits_ne_nil : digits ≠ []
  mem_digits : ∀ c ∈ digits, c = '_' ∨ (Text.digitValue? c).isSome = true

theorem exists_append_takeSign (text : List Char) :
    ∃ sign, (sign = [] ∨ sign = ['-'] ∨ sign = ['+']) ∧
      text = sign ++ (takeSign text).2 := by
  unfold takeSign
  split
  · exact ⟨['-'], .inr (.inl rfl), rfl⟩
  · exact ⟨['+'], .inr (.inr rfl), rfl⟩
  · exact ⟨[], .inl rfl, rfl⟩

/-- Behind its sign a numeral that is read has digits and underscores, and
nothing else. -/
theorem unsigned_of_whole? {text : String} {n : Int} (h : whole? text = .ok n) :
    (takeSign (trimmed text)).2 ≠ [] ∧
      ∀ c ∈ (takeSign (trimmed text)).2, isAsciiDigit c = true ∨ c = '_' := by
  rw [whole?] at h
  generalize takeSign (trimmed text) = taken at h ⊢
  obtain ⟨negative, unsigned⟩ := taken
  dsimp only at h ⊢
  split at h
  · cases h
  next digits hdigits =>
    split at h
    · cases h
    split at h
    · cases h
    next hwhole =>
      simp only [Bool.or_eq_true, decide_eq_true_eq, not_or, not_not] at hwhole
      obtain ⟨hne, hlength⟩ := hwhole
      have hall : unsigned.takeWhile (fun c => isAsciiDigit c || c == '_') =
          unsigned :=
        (List.takeWhile_prefix _).eq_of_length hlength
      constructor
      · rintro rfl
        cases hdigits
        exact hne rfl
      · intro c hc
        have hchar := List.takeWhile_eq_self_iff.mp hall c hc
        rwa [Bool.or_eq_true, beq_iff_eq] at hchar

theorem exists_spells_of_whole? {text : String} {n : Int}
    (h : whole? text = .ok n) :
    ∃ sign digits, Spells text sign digits := by
  obtain ⟨hne, hunsigned⟩ := unsigned_of_whole? h
  obtain ⟨asciiSign, hsign, hsplit⟩ := exists_append_takeSign (trimmed text)
  rw [trimmed, asciiForm_eq_map, List.map_eq_append_iff, ← asciiForm_eq_map,
    ← trimmed] at hsplit
  obtain ⟨sign, digits, hcore, hsignMap, hdigitsMap⟩ := hsplit
  obtain ⟨before, after, htext, hblank⟩ :=
    Text.exists_append_stripWhere Text.isNumeralBlank text.toList
  refine ⟨sign, digits, ⟨before, after, hcore ▸ htext, ?_⟩, ?_, ?_, ?_⟩
  · intro c hc
    have hnumeral := hblank c hc
    rw [Text.isNumeralBlank, Bool.and_eq_true] at hnumeral
    exact hnumeral.1
  · rcases hsign with rfl | rfl | rfl
    · exact .inl (List.map_eq_nil_iff.mp hsignMap)
    · obtain ⟨c, rfl, hc⟩ := List.map_eq_singleton_iff.mp hsignMap
      exact .inr (.inl (by rw [eq_of_asciiChar_eq (by decide) (by decide) hc]))
    · obtain ⟨c, rfl, hc⟩ := List.map_eq_singleton_iff.mp hsignMap
      exact .inr (.inr (by rw [eq_of_asciiChar_eq (by decide) (by decide) hc]))
  · rintro rfl
    exact hne hdigitsMap.symm
  · intro c hc
    rcases hunsigned (asciiChar c) (hdigitsMap ▸ List.mem_map_of_mem hc) with
      hdigit | hscore
    · exact .inr (isSome_digitValue?_of_asciiChar hdigit)
    · exact .inl (eq_of_asciiChar_eq (by decide) (by decide) hscore)

namespace Spells

variable {text : String} {sign digits : List Char} {c : Char}
    (h : Spells text sign digits)

include h

theorem cases_of_mem (hc : c ∈ sign ++ digits) :
    c = '-' ∨ c = '+' ∨ c = '_' ∨ (Text.digitValue? c).isSome = true := by
  rcases List.mem_append.mp hc with hsign | hdigit
  · rcases h.sign_eq with rfl | rfl | rfl
    · cases hsign
    · exact .inl (List.mem_singleton.mp hsign)
    · exact .inr (.inl (List.mem_singleton.mp hsign))
  · exact .inr (.inr (h.mem_digits c hdigit))

theorem not_isBlank_of_mem (hc : c ∈ sign ++ digits) :
    ¬ Text.isBlank c = true := by
  rcases h.cases_of_mem hc with rfl | rfl | rfl | hdigit
  · decide
  · decide
  · decide
  · exact Text.not_isBlank_of_isSome_digitValue? hdigit

/-- Without the blanks the sign and the digits are left. -/
theorem stripWhere_isBlank :
    Text.stripWhere Text.isBlank text.toList = sign ++ digits := by
  obtain ⟨before, after, htext, hblank⟩ := h.between
  rw [htext,
    Text.stripWhere_append_append hblank fun c hc => h.not_isBlank_of_mem hc]

/-- What is no blank stands in the text just when it is of the sign or the
digits. -/
theorem mem_toList_iff (hc : Text.isBlank c = false) :
    c ∈ text.toList ↔ c ∈ sign ++ digits := by
  obtain ⟨before, after, htext, hblank⟩ := h.between
  have houtside : c ∉ before ++ after := fun hmem =>
    absurd (hc.symm.trans (hblank c hmem)) Bool.false_ne_true
  rw [List.mem_append, not_or] at houtside
  rw [htext, List.mem_append, List.mem_append (t := sign ++ digits)]
  simp only [houtside.1, houtside.2, false_or, or_false]

theorem hash_notMem : '#' ∉ text.toList := by
  rw [h.mem_toList_iff (by decide)]
  intro hmem
  rcases h.cases_of_mem hmem with hdash | hplus | hscore | hdigit
  · exact absurd hdash (by decide)
  · exact absurd hplus (by decide)
  · exact absurd hscore (by decide)
  · exact absurd hdigit (by decide +kernel)

theorem plus_mem_iff : '+' ∈ text.toList ↔ sign = ['+'] := by
  rw [h.mem_toList_iff (by decide), List.mem_append]
  have hdigits : '+' ∉ digits := fun hmem =>
    (h.mem_digits _ hmem).elim (by decide) (by decide +kernel)
  rcases h.sign_eq with rfl | rfl | rfl <;> simp [hdigits]

theorem underscore_mem_iff : '_' ∈ text.toList ↔ '_' ∈ digits := by
  rw [h.mem_toList_iff (by decide), List.mem_append]
  rcases h.sign_eq with rfl | rfl | rfl <;> simp

end Spells

end Literal

namespace Trace

open Literal

/-- Digits count as such when none of them is an underscore. -/
theorem all_isDigit_iff {digits : List Char}
    (h : ∀ c ∈ digits, c = '_' ∨ (Text.digitValue? c).isSome = true) :
    digits.all Text.isDigit = true ↔ '_' ∉ digits := by
  rw [List.all_eq_true]
  constructor
  · intro hall hscore
    exact absurd (hall '_' hscore) (by decide +kernel)
  · intro hscore c hc
    rcases h c hc with rfl | hdigit
    · exact absurd hc hscore
    · exact Text.isDigit_of_isSome_digitValue? hdigit

/-- The start of a number is told by its dash and its digits.  A number with a
plus sign or underscores is read all the same. -/
theorem looksNumeric_iff_of_whole? {text : String} {n : Int}
    (h : whole? text = .ok n) :
    looksNumeric text = true ↔ '+' ∉ text.toList ∧ '_' ∉ text.toList := by
  obtain ⟨sign, digits, hspells⟩ := exists_spells_of_whole? h
  have hdash : ∀ c ∈ digits, ¬ (c == '-') = true := by
    intro c hc hdash
    rw [beq_iff_eq] at hdash
    subst hdash
    exact (hspells.mem_digits _ hc).elim (by decide) (by decide +kernel)
  have hdigits : digits.isEmpty = false :=
    List.isEmpty_eq_false_iff.mpr hspells.digits_ne_nil
  rw [looksNumeric, hspells.stripWhere_isBlank, hspells.plus_mem_iff,
    hspells.underscore_mem_iff, ← all_isDigit_iff hspells.mem_digits]
  rcases hspells.sign_eq with rfl | rfl | rfl
  · rw [List.nil_append, Text.dropWhile_of_forall_not hdash, hdigits]
    simp
  · have hdrop : (['-'] ++ digits).dropWhile (· == '-') = digits := by
      rw [List.dropWhile_append_of_pos (by simp),
        Text.dropWhile_of_forall_not hdash]
    rw [hdrop, hdigits]
    simp
  · have hplus : Text.isDigit '+' = false := by decide +kernel
    simp [hplus]

end Trace

end PointerMotion
