import Saturation.Clause
import Saturation.Json.Display

/-!
# Clauses with their provenance

A search remembers of each clause in which round it was found and how it was called in the input.
Neither takes part in reasoning: they are shown and saved, and a saved search may hold any value
in their place, which is kept as it is.
-/

namespace Saturation

/-- Where a clause comes from: the round that found it, zero for a given one, and its label. -/
structure Provenance where
  step : Json := .int 0
  label : Json := .string ""
deriving Inhabited

namespace Provenance

def labelled (label : Text) : Provenance := { label := .string label }

def found (round : Json) : Provenance := { step := round }

end Provenance

structure Entry where
  clause : Clause
  source : Provenance := {}
deriving Inhabited

namespace Entry

/-- The text of the clause, after its label if it has one.  The empty clause is shown bare. -/
def name (e : Entry) : Text :=
  if e.clause.isEmpty || !e.source.label.isTruthy then e.clause.text
  else "[" ++ e.source.label.shown ++ "] " ++ e.clause.text

/-- The name with the kind of thing it names, for lists of mixed values. -/
def tagged (e : Entry) : Text := "Clause(" ++ e.name ++ ")"

/-- The entries in ascending order of their clauses; entries for one clause keep their order. -/
def sort (es : List Entry) : List Entry :=
  es.mergeSort fun d e => compare d.clause e.clause != .gt

end Entry

end Saturation
