/-
Capital letters of names.  Names are ASCII, so the only letters outside ASCII
that matter are those whose capitals are ASCII letters.
-/

namespace PointerMotion

namespace Text

/-- The characters outside ASCII whose capitals are ASCII letters. -/
def asciiCapitals : List (Char × String) :=
  [('ß', "SS"), ('ı', "I"), ('ſ', "S"), ('ﬀ', "FF"), ('ﬁ', "FI"), ('ﬂ', "FL"),
    ('ﬃ', "FFI"), ('ﬄ', "FFL"), ('ﬅ', "ST"), ('ﬆ', "ST")]

/-- The capitals of a character, as far as they are ASCII. -/
def capitals (c : Char) : List Char :=
  match asciiCapitals.lookup c with
  | some letters => letters.toList
  | none => [c.toUpper]

def capitalize (text : List Char) : List Char :=
  text.flatMap capitals

end Text

end PointerMotion
