import Saturation.Json.Writer
import Saturation.Search
import Saturation.Text.Lines

/-!
# Checkpoints

A search as a JSON document, so that it can be put down and taken up again.  Its clauses are
written in ascending order with their literals in order.  Reading is lenient: clauses and literals
may come in any order and more than once, and only the two sets, the history and the round must be
there.
-/

namespace Saturation

/-! ## Writing -/

def Literal.toJson (l : Literal) : Json := .array [.string l.atom.name, .bool l.negated]

def Entry.toJson (e : Entry) : Json :=
  .object
    [("literals", .array (e.clause.literals.map Literal.toJson)), ("step", e.source.step),
     ("label", e.source.label)]

def ClauseSet.toJson (K : ClauseSet) : Json := .array (K.entries.map Entry.toJson)

namespace Search

def toJson (s : Search) : Json :=
  .object
    [("frontier", s.frontier.toJson), ("seen", s.seen.toJson), ("history", s.journal.history),
     ("round", s.journal.round), ("halted", s.journal.halted), ("halt_reason", s.journal.reason),
     ("satisfiable", s.journal.answer)]

def save (s : Search) : String := s.toJson.indented

/-- What keeps the search from being saved in full: an integer of too many digits, before which
the text breaks off. -/
def saveFault? (s : Search) : Option Fault :=
  if s.toJson.isWritable then none else some .longInteger

end Search

/-! ## Reading -/

def Literal.ofPair (v : Json) : Except Fault Literal :=
  match v.each with
  | .error fault => .error fault
  | .ok [atom, negated] => (Literal.ofJson atom negated).mapError .literal
  | .ok (_ :: _ :: _ :: _) => .error .tooMany
  | .ok parts => .error (.tooFew parts.length)

/-- An entry needs its literals; step and label may be missing. -/
def Entry.ofJson (v : Json) : Except Fault Entry := do
  let literals ← (← v.field "literals").each
  let literals ← literals.mapM Literal.ofPair
  return {
    clause := .ofLiterals literals
    source := {
      step := (v.get? "step").getD (.int 0)
      label := (v.get? "label").getD (.string "") } }

def ClauseSet.ofJson (v : Json) : Except Fault ClauseSet := do
  let entries ← (← v.each).mapM Entry.ofJson
  return .ofEntries entries

namespace Search

def ofJson (v : Json) : Except Fault Search := do
  let frontier ← ClauseSet.ofJson (← v.field "frontier")
  let seen ← ClauseSet.ofJson (← v.field "seen")
  let history ← v.field "history"
  let round ← v.field "round"
  return {
    frontier
    seen
    journal := {
      history
      round
      halted := (v.get? "halted").getD (.bool false)
      reason := (v.get? "halt_reason").getD (.string "")
      answer := (v.get? "satisfiable").getD .null } }

/-- Reads the text of a saved search, whatever its line breaks. -/
def load (text : String) : Except Fault Search :=
  match Json.read (Text.unifyBreaks text) with
  | .ok v => ofJson v
  | .error e => .error (.unreadable e)

/-- Puts the search down and takes it up again. -/
def reload (s : Search) : Except Fault Search := ofJson s.toJson

end Search

end Saturation
