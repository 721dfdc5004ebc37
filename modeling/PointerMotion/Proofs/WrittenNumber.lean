/-
Whole numbers as they are written are read back as they stand, unless they have
more digits than are read.
-/
import PointerMotion.Trace
import PointerMotion.Proofs.Selection

namespace PointerMotion

open Decimal Literal

theorem Literal.isAsciiDigit_iff {c : Char} :
    isAsciiDigit c = true ↔ 48 ≤ c.toNat ∧ c.toNat ≤ 57 := by
  rw [isAsciiDigit, Bool.and_eq_true, decide_eq_true_eq, decide_eq_true_eq]
  rfl

theorem Decimal.isAsciiDigit_of_mem_digitList {n : Nat} {c : Char}
    (h : c ∈ digitList n) :
    isAsciiDigit c = true := by
  have hdigit := Nat.isDigit_of_mem_toDigits (by decide) (by decide) h
  simp only [Char.isDigit, Bool.and_eq_true, decide_eq_true_eq] at hdigit
  exact isAsciiDigit_iff.mpr hdigit

theorem Literal.digitsValue_digitList (n : Nat) :
    digitsValue (digitList n) = n :=
  Nat.ofDigitChars_toDigits (by decide) (by decide)

theorem Text.isSome_digitValue?_of_isAsciiDigit {c : Char}
    (h : isAsciiDigit c = true) :
    (digitValue? c).isSome = true := by
  have hbounds := isAsciiDigit_iff.mp h
  rw [digitValue?, Option.isSome_map, List.find?_isSome]
  refine ⟨0x30, by decide, ?_⟩
  rw [Bool.and_eq_true, decide_eq_true_eq, decide_eq_true_eq]
  omega

theorem Text.isDigit_of_isSome_digitValue? {c : Char}
    (h : (digitValue? c).isSome = true) :
    isDigit c = true := by
  rw [isDigit, h, Bool.true_or]

/-- The digits of the first script count as digits. -/
theorem Text.isDigit_of_isAsciiDigit {c : Char} (h : isAsciiDigit c = true) :
    isDigit c = true :=
  isDigit_of_isSome_digitValue? (isSome_digitValue?_of_isAsciiDigit h)

/-- The sign that is written before the digits. -/
def Decimal.signChars (n : Int) : List Char :=
  if n < 0 then ['-'] else []

theorem Decimal.toList_intText (n : Int) :
    (intText n).toList = signChars n ++ digitList n.natAbs := by
  rw [intText, signChars]
  split <;> simp [natText]

theorem Decimal.intText_natCast (n : Nat) : intText n = natText n := by
  rw [intText, if_neg (by omega), Int.natAbs_natCast]

theorem Decimal.eq_dash_or_isAsciiDigit {n : Int} {c : Char}
    (h : c ∈ (intText n).toList) :
    c = '-' ∨ isAsciiDigit c = true := by
  rw [toList_intText, signChars, List.mem_append] at h
  rcases h with hsign | hdigit
  · split at hsign
    · exact .inl (List.mem_singleton.mp hsign)
    · cases hsign
  · exact .inr (isAsciiDigit_of_mem_digitList hdigit)

theorem Decimal.not_isBlank_of_mem_intText {n : Int} {c : Char}
    (h : c ∈ (intText n).toList) :
    ¬ Text.isBlank c = true := by
  rcases eq_dash_or_isAsciiDigit h with rfl | hdigit
  · decide
  · have hbounds := isAsciiDigit_iff.mp hdigit
    simp only [Text.isBlank, Bool.or_eq_true, Bool.and_eq_true,
      decide_eq_true_eq, beq_iff_eq]
    omega

/-- Text without blanks has nothing around it. -/
theorem Text.stripWhere_of_forall_not {p : Char → Bool} {text : List Char}
    (h : ∀ c ∈ text, ¬ p c = true) : stripWhere p text = text := by
  have hreverse : ∀ c ∈ text.reverse, ¬ p c = true :=
    fun c hc => h c (List.mem_reverse.mp hc)
  rw [stripWhere, dropWhile_of_forall_not h, dropWhile_of_forall_not hreverse,
    List.reverse_reverse]

namespace Literal

theorem asciiForm_of_forall_lt {text : List Char}
    (h : ∀ c ∈ text, c.toNat < 127) :
    asciiForm text = text := by
  have hsame : asciiForm text = text.map id :=
    List.map_congr_left fun c hc => if_pos (h c hc)
  rw [hsame, List.map_id]

theorem trimmed_intText (n : Int) :
    trimmed (intText n) = (intText n).toList := by
  have hblank : ∀ c ∈ (intText n).toList, ¬ Text.isNumeralBlank c = true := by
    intro c hc hblank
    rw [Text.isNumeralBlank, Bool.and_eq_true] at hblank
    exact not_isBlank_of_mem_intText hc hblank.1
  have hascii : ∀ c ∈ (intText n).toList, c.toNat < 127 := by
    intro c hc
    rcases eq_dash_or_isAsciiDigit hc with rfl | hdigit
    · decide
    · have hbounds := isAsciiDigit_iff.mp hdigit
      omega
  rw [trimmed, Text.stripWhere_of_forall_not hblank,
    asciiForm_of_forall_lt hascii]

section Digits

variable {digits : List Char} (h : ∀ c ∈ digits, isAsciiDigit c = true)

include h

theorem dropUnderscores_of_digits (afterDigit : Bool) :
    dropUnderscores afterDigit digits = some digits := by
  induction digits generalizing afterDigit with
  | nil => rfl
  | cons c rest ih =>
      have hplain : c ≠ '_' := by
        rintro rfl
        exact absurd (h '_' List.mem_cons_self) (by decide)
      rw [dropUnderscores, ih fun d hd => h d (List.mem_cons_of_mem _ hd)]
      · rfl
      · exact fun hc => absurd hc hplain
      · exact fun _ _ hc => absurd hc hplain

theorem takeSign_of_digits : takeSign digits = (false, digits) := by
  rw [takeSign]
  · rintro rest rfl
    exact absurd (h '-' List.mem_cons_self) (by decide)
  · rintro rest rfl
    exact absurd (h '+' List.mem_cons_self) (by decide)

end Digits

/-- A number that is written is read back, if it does not have too many
digits. -/
theorem whole?_intText {n : Int} (h : (digitList n.natAbs).length ≤ maxDigits) :
    whole? (intText n) = .ok n := by
  have hdigits : ∀ c ∈ digitList n.natAbs, isAsciiDigit c = true :=
    fun c hc => isAsciiDigit_of_mem_digitList hc
  have hsign : takeSign (intText n).toList =
      (decide (n < 0), digitList n.natAbs) := by
    rw [toList_intText, signChars]
    split
    next hneg => rw [decide_eq_true hneg]; rfl
    next hpos => rw [decide_eq_false hpos]; exact takeSign_of_digits hdigits
  have hnumeral :
      (digitList n.natAbs).takeWhile (fun c => isAsciiDigit c || c == '_') =
      digitList n.natAbs := by
    apply List.takeWhile_eq_self_iff.mpr
    intro c hc
    rw [hdigits c hc, Bool.true_or]
  have hne : (digitList n.natAbs).isEmpty = false :=
    List.isEmpty_eq_false_iff.mpr Nat.toDigits_ne_nil
  have hvalue :
      (if decide (n < 0) = true then -(n.natAbs : Int) else n.natAbs) = n := by
    split <;> simp only [decide_eq_true_eq] at * <;> omega
  rw [whole?, trimmed_intText, hsign]
  simp only [hnumeral, dropUnderscores_of_digits hdigits, not_lt.mpr h, hne,
    digitsValue_digitList, hvalue, ne_eq, not_true_eq_false, decide_false,
    Bool.or_self, Bool.false_eq_true, ↓reduceIte]

theorem whole?_natText_id (id : PointerId) :
    whole? (natText id.val) = .ok (id.val : Int) := by
  have hlength : (digitList id.val).length ≤ 2 :=
    (Nat.length_toDigits_le_iff (by decide) (by decide)).mpr (by omega)
  rw [← intText_natCast]
  apply whole?_intText
  rw [Int.natAbs_natCast]
  exact hlength.trans (by decide)

end Literal

namespace Trace

theorem looksNumeric_intText (n : Int) : looksNumeric (intText n) = true := by
  have hdigits : ∀ c ∈ digitList n.natAbs, isAsciiDigit c = true :=
    fun c hc => isAsciiDigit_of_mem_digitList hc
  have hdash : ∀ c ∈ digitList n.natAbs, ¬ (c == '-') = true := by
    intro c hc hdash
    rw [beq_iff_eq] at hdash
    subst hdash
    exact absurd (hdigits '-' hc) (by decide)
  have hsign : ∀ c ∈ signChars n, (c == '-') = true := by
    rw [signChars]
    split <;> simp
  have hblank : ∀ c ∈ (intText n).toList, ¬ Text.isBlank c = true :=
    fun c hc => not_isBlank_of_mem_intText hc
  rw [looksNumeric, Text.stripWhere_of_forall_not hblank, toList_intText,
    List.dropWhile_append_of_pos hsign, Text.dropWhile_of_forall_not hdash,
    Bool.and_eq_true]
  constructor
  · rw [Bool.not_eq_true', List.isEmpty_eq_false_iff]
    exact Nat.toDigits_ne_nil
  · rw [List.all_eq_true]
    exact fun c hc => Text.isDigit_of_isAsciiDigit (hdigits c hc)

/-- A row that begins with a number as it is written is not skipped. -/
theorem isSkipped_intText (number : Nat) (n : Int) (rest : Csv.Row) :
    isSkipped number (intText n :: rest) = false := by
  have hhash : (intText n).startsWith "#" = false := by
    rw [String.startsWith_string_eq_false_iff]
    intro hstart
    rcases eq_dash_or_isAsciiDigit
      (hstart.mem (List.mem_singleton_self '#')) with h | h
    · exact absurd h (by decide)
    · exact absurd h (by decide)
  rw [isSkipped, hhash, looksNumeric_intText]
  simp

end Trace

end PointerMotion
