/-!
# Texts

A text is a sequence of code points.  The characters are code points, and so are the surrogates,
the halves of a pair of sixteen-bit units: no character is one of them, but a document can name
one by an escape.  Every string is a text, and a text without surrogates is a string; `toString?`
gives back the string that a text was made of.
-/

namespace Saturation

/-! ## Code points -/

@[ext]
structure CodePoint where
  value : Nat
  valid : value < 0x110000
deriving DecidableEq

namespace CodePoint

def ofChar (c : Char) : CodePoint :=
  ⟨c.toNat, by
    have h : c.toNat < 0xD800 ∨ (0xDFFF < c.toNat ∧ c.toNat < 0x110000) := c.valid
    omega⟩

instance : Coe Char CodePoint := ⟨ofChar⟩

/-- The character of a code point; a surrogate has none. -/
def toChar? (p : CodePoint) : Option Char :=
  if p.value.isValidChar then some (Char.ofNat p.value) else none

/-- The code point of a number; a number that is too large has none. -/
def ofNat? (n : Nat) : Option CodePoint := if h : n < 0x110000 then some ⟨n, h⟩ else none

@[simp]
theorem toChar?_ofChar (c : Char) : (ofChar c).toChar? = some c := by
  have h : (ofChar c).value.isValidChar := c.valid
  have hc : Char.ofNat (ofChar c).value = c := Char.ofNat_toNat c
  simp [toChar?, h, hc]

/-- Code points are ordered by their numbers. -/
instance : Ord CodePoint := ⟨compareOn value⟩

instance : Std.TransOrd CodePoint := inferInstanceAs (Std.TransCmp (compareOn value))

instance : Std.LawfulEqOrd CodePoint where
  eq_of_compare {p q} h := by
    have h : compare p.value q.value = .eq := h
    exact CodePoint.ext (Std.LawfulEqCmp.eq_of_compare h)

end CodePoint

/-! ## Texts -/

abbrev Text := List CodePoint

namespace Text

def ofString (s : String) : Text := s.toList.map CodePoint.ofChar

instance : Coe String Text := ⟨ofString⟩

/-- The string of a text without surrogates. -/
def toString? (t : Text) : Option String := (t.mapM CodePoint.toChar?).map String.ofList

/-- The texts of a list with another text between each two. -/
def join (between : Text) (parts : List Text) : Text := between.intercalate parts

@[simp]
theorem toString?_ofString (s : String) : (ofString s).toString? = some s := by
  have h (cs : List Char) : (cs.map CodePoint.ofChar).mapM CodePoint.toChar? = some cs := by
    induction cs with
    | nil => rfl
    | cons c cs ih => simp [ih]
  simp [toString?, ofString, h]

/-- Different strings are different texts. -/
theorem ofString_inj {r s : String} : ofString r = ofString s ↔ r = s := by
  refine ⟨fun h => ?_, fun h => h ▸ rfl⟩
  have h := congrArg toString? h
  simpa using h

end Text

end Saturation
