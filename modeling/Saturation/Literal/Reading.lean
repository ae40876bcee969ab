import Saturation.Json.Display
import Saturation.Literal

/-!
# Reading literals

A literal is read from a word of text, or put together from an atom and a polarity that come
from a document and may be anything.  Each way of failing is a cause of its own; of two faults
the atom's is named first.
-/

namespace Saturation

inductive LiteralError
  /-- The atom is no string, or the empty one. -/
  | notAString (given : Json)
  /-- The atom holds a tilde or a blank. -/
  | notAName (name : Text)
  /-- The polarity is no truth value. -/
  | notAPolarity (given : Json)
  /-- The word is empty, or a tilde alone. -/
  | noAtom (word : Text)
  /-- The fault is on this line of a text. -/
  | onLine (number : Nat) (cause : LiteralError)

def LiteralError.message : LiteralError → String
  | notAString given => "atom must be a non-empty string, got " ++ given.display
  | notAName name => "atom " ++ Text.quoted name ++ " may not contain '~' or whitespace"
  | notAPolarity given => "polarity must be a bool, got " ++ given.display
  | noAtom word => "literal token " ++ Text.quoted word ++ " has no atom"
  | onLine number cause => "line " ++ toString number ++ ": " ++ cause.message

namespace Literal

/-- The literal of a name that is not empty. -/
def ofName (name : Text) (negated : Bool) : Except LiteralError Literal :=
  if h : isName name = true then .ok ⟨⟨name, h⟩, negated⟩ else .error (.notAName name)

theorem ofName_eq_ok_iff {name : Text} {b : Bool} {l : Literal} :
    ofName name b = .ok l ↔ name = l.atom.name ∧ b = l.negated := by
  rw [ofName]
  constructor
  · intro h
    split at h
    · obtain rfl := Except.ok.inj h
      exact ⟨rfl, rfl⟩
    · cases h
  · rintro ⟨rfl, rfl⟩
    exact dif_pos l.atom.valid

/-- The literal of an atom and a polarity as a document gives them. -/
def ofJson (atom negated : Json) : Except LiteralError Literal :=
  match atom with
  | .string name =>
    if name.isEmpty then .error (.notAString atom)
    else match negated with
      | .bool b => ofName name b
      | _ => (ofName name false).bind fun _ => .error (.notAPolarity negated)
  | _ => .error (.notAString atom)

/-- A word's polarity and the rest of it: one tilde in front marks negation. -/
def splitTilde : Text → Bool × Text
  | [] => (false, [])
  | p :: t => if p = '~' then (true, t) else (false, p :: t)

def parse (word : Text) : Except LiteralError Literal :=
  let (negated, name) := splitTilde word
  if name.isEmpty then .error (.noAtom word) else ofName name negated

end Literal

end Saturation
