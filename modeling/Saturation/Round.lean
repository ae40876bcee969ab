import Saturation.Covering
import Saturation.Resolution

/-!
# One round

A round resolves every clause of the frontier with those after it in the frontier and with all
that were seen before.  It ends at the first pair that gives the empty clause; otherwise it yields
the resolvents that no known clause covers.
-/

namespace Saturation

/-- What a round over a frontier and the clauses seen before comes to. -/
inductive Round
  /-- The frontier holds the empty clause; no pair was tried. -/
  | emptyGiven
  /-- The last of the pairs tried gave the empty clause. -/
  | emptyDerived (tried : Nat) (x y : Entry)
  /-- All pairs were tried and gave nothing new. -/
  | saturated (tried : Nat)
  /-- All pairs were tried and gave these clauses, none covered by what was known. -/
  | fresh (tried : Nat) (found : ClauseSet)

namespace Round

/-- The pairs of a round in the order of trying: each frontier entry with the later ones of the
frontier, then with the seen ones. -/
def pairs (frontier seen : ClauseSet) : List (Entry × Entry) :=
  frontier.entries.flatMap fun x => (frontier.above x.clause ++ seen.entries).map (x, ·)

def conclusions (m : Mode) (pair : Entry × Entry) : ClauseSet :=
  Clause.conclusions m pair.1.clause pair.2.clause

/-- The round over a frontier and the clauses seen before; what it finds gets the provenance. -/
def run (m : Mode) (source : Provenance) (frontier seen : ClauseSet) : Round :=
  if frontier.hasEmpty then emptyGiven
  else
    let pairs := pairs frontier seen
    match pairs.span fun pair => !(conclusions m pair).hasEmpty with
    | (tried, (x, y) :: _) => emptyDerived (tried.length + 1) x y
    | (_, []) =>
      let known := seen ∪ frontier
      let found := pairs.flatMap fun pair =>
        (conclusions m pair).clauses.filter (!known.covers ·)
      if found.isEmpty then saturated pairs.length
      else fresh pairs.length (.ofClauses source found)

end Round

end Saturation
