/-
Text in bytes, read a block at a time.  A byte that no text can contain spoils
the whole block that it stands in.
-/

namespace PointerMotion

namespace Utf8

/-- A character that is being read: the code so far, the number of bytes that
are still to come, and the bounds of the next one. -/
structure Partial where
  code : Nat
  left : Nat
  low : Nat
  high : Nat
  deriving Repr, DecidableEq

/-- A later byte of a character, after `left` of them. -/
def continuing (code left : Nat) : Partial :=
  ⟨code, left, 0x80, 0xBF⟩

/-- What a byte does: it completes a character, or more bytes must come. -/
inductive Step where
  | char (c : Char)
  | more (p : Partial)
  deriving Repr, DecidableEq

def first? (byte : Nat) : Option Step :=
  if byte < 0x80 then some (.char (Char.ofNat byte))
  else if byte < 0xC2 then none
  else if byte < 0xE0 then some (.more (continuing (byte - 0xC0) 1))
  else if byte == 0xE0 then some (.more ⟨0, 2, 0xA0, 0xBF⟩)
  else if byte == 0xED then some (.more ⟨0xD, 2, 0x80, 0x9F⟩)
  else if byte < 0xF0 then some (.more (continuing (byte - 0xE0) 2))
  else if byte == 0xF0 then some (.more ⟨0, 3, 0x90, 0xBF⟩)
  else if byte < 0xF4 then some (.more (continuing (byte - 0xF0) 3))
  else if byte == 0xF4 then some (.more ⟨4, 3, 0x80, 0x8F⟩)
  else none

/-- The next byte of a text, inside a character or before one. -/
def step? (inside : Option Partial) (byte : Nat) : Option Step :=
  match inside with
  | none => first? byte
  | some p =>
      if p.low ≤ byte && byte ≤ p.high then
        let code := p.code * 0x40 + (byte - 0x80)
        if p.left ≤ 1 then some (.char (Char.ofNat code))
        else some (.more (continuing code (p.left - 1)))
      else none

/-- How far bytes can be read: their characters, and where and how they end. -/
structure Scan where
  /-- the characters read, the latest first -/
  chars : List Char
  /-- the number of bytes before the first one that spoils the text -/
  length : Nat
  spoiled : Bool
  /-- whether the bytes end inside a character -/
  inside : Bool

/-- Reads bytes behind those already read. -/
def scanFrom (chars : List Char) (length : Nat) (inside : Option Partial) :
    List UInt8 → Scan
  | [] => ⟨chars, length, false, inside.isSome⟩
  | byte :: rest =>
      match step? inside byte.toNat with
      | none => ⟨chars, length, true, inside.isSome⟩
      | some (.char c) => scanFrom (c :: chars) (length + 1) none rest
      | some (.more p) => scanFrom chars (length + 1) (some p) rest

/-- Reads bytes until they end or are spoiled. -/
def scan (bytes : List UInt8) : Scan :=
  scanFrom [] 0 none bytes

def blockSize : Nat :=
  8192

/-- The text that could be read, and whether it is all of it. -/
structure Readout where
  text : List Char
  complete : Bool
  deriving Repr, DecidableEq

/-- Reads bytes a block at a time. -/
def read (bytes : List UInt8) : Readout :=
  let all := scan bytes
  if all.spoiled then
    let sound := bytes.take (all.length / blockSize * blockSize)
    ⟨(scan sound).chars.reverse, false⟩
  else ⟨all.chars.reverse, !all.inside⟩

end Utf8

end PointerMotion
