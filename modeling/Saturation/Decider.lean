import Saturation.Run

/-!
# Deciding satisfiability

A decider holds a search and the mode of its rounds.  Asked for the answer it runs the search to
the end, also one that was told to stop before; once there is an answer it repeats it.
-/

namespace Saturation

structure Decider where
  search : Search
  mode : Mode := .permissive
deriving Inhabited

namespace Decider

def ofEntries (m : Mode) (es : List Entry) : Decider := ⟨.start es, m⟩

/-- Runs the search to its answer, if it has none yet, and may tell the rounds as they go. -/
def ask (d : Decider) (aloud : Bool) : Run :=
  match d.search.verdict with
  | .undecided => { d.search with journal := d.search.journal.reopen }.run d.mode { aloud }
  | _ => { search := d.search, ending := .halted }

def decided (d : Decider) : Decider := { d with search := (d.ask false).search }

/-- Whether the clauses are satisfiable, as far as the search has found out. -/
def isSatisfiable (d : Decider) : Verdict := d.decided.search.verdict

end Decider

end Saturation
