import Saturation.Text.Blank

/-!
# Atoms and literals

An atom is a name that can stand as a word of its own in a line of clauses; a literal is an atom
or its negation.  Literals are ordered by atom, the positive one first.
-/

namespace Saturation

/-! ## Atoms -/

/-- A name is a word of a line, and it holds no tilde, which marks negation. -/
def isName (t : Text) : Bool := !t.isEmpty && t.all fun p => p != '~' && !Text.isBlank p

theorem isName_iff {t : Text} :
    isName t = true ↔ t ≠ [] ∧ ∀ p ∈ t, p ≠ '~' ∧ Text.isBlank p = false := by
  simp [isName]

@[ext]
structure Atom where
  name : Text
  valid : isName name = true
deriving DecidableEq

namespace Atom

instance : Ord Atom := ⟨compareOn Atom.name⟩

instance : Std.TransOrd Atom := inferInstanceAs (Std.TransCmp (compareOn Atom.name))

instance : Std.LawfulEqOrd Atom where
  eq_of_compare {a b} h := by
    have h : compare a.name b.name = .eq := h
    exact Atom.ext (Std.LawfulEqCmp.eq_of_compare h)

end Atom

/-! ## Literals -/

@[ext]
structure Literal where
  atom : Atom
  negated : Bool
deriving DecidableEq

namespace Literal

/-- The other literal of the same atom. -/
def complement (l : Literal) : Literal := { l with negated := !l.negated }

@[simp]
theorem complement_complement (l : Literal) : l.complement.complement = l := by
  simp [complement]

theorem complement_ne (l : Literal) : l.complement ≠ l := by
  intro h
  have h := congrArg Literal.negated h
  simp [complement] at h

/-- Literals are ordered by atom, and the positive literal of an atom comes first. -/
instance : Ord Literal := ⟨compareLex (compareOn atom) (compareOn negated)⟩

instance : Std.TransOrd Literal :=
  inferInstanceAs (Std.TransCmp (compareLex (compareOn atom) (compareOn negated)))

instance : Std.LawfulEqOrd Literal where
  eq_of_compare {k l} h := by
    have hatom : compare k.atom l.atom = .eq := (compareLex_eq_eq.1 h).1
    have hnegated : compare k.negated l.negated = .eq := (compareLex_eq_eq.1 h).2
    exact Literal.ext (Std.LawfulEqCmp.eq_of_compare hatom)
      (Std.LawfulEqCmp.eq_of_compare hnegated)

/-- A tilde in front marks negation. -/
def text (l : Literal) : Text := if l.negated then "~" ++ l.atom.name else l.atom.name

/-- The text with the kind of thing it names, for lists of mixed values. -/
def tagged (l : Literal) : Text := "Literal(" ++ l.text ++ ")"

end Literal

end Saturation
