import Saturation.ClauseSet

/-!
# Resolution

Two clauses and a literal give their union with the literal and its complement struck out, or the
plain union if the complement is not there.  A plain union says no more than either clause; the
strict mode of search never makes one.
-/

namespace Saturation

/-- Which literals of the first clause are tried. -/
inductive Mode
  | permissive
  /-- Those whose complement is in the other clause. -/
  | strict
deriving DecidableEq, Inhabited

/-- Whether the mode tries the literal against the clause. -/
def Mode.tries (m : Mode) (l : Literal) (d : Clause) : Bool :=
  match m with
  | .permissive => true
  | .strict => l.complement ∈ d

namespace Clause

/-- The two clauses together, without the literal and its complement if both sides meet. -/
def resolvent (l : Literal) (c d : Clause) : Clause :=
  let union := c ∪ d
  if l.complement ∈ union then union.filter fun k => k ≠ l ∧ k ≠ l.complement else union

/-- A resolvent keeps the literals of both sides, less the two that were struck out. -/
theorem mem_resolvent {l k : Literal} {c d : Clause} :
    k ∈ resolvent l c d ↔
      (k ∈ c ∨ k ∈ d) ∧ (l.complement ∈ c ∪ d → k ≠ l ∧ k ≠ l.complement) := by
  simp only [resolvent]
  split <;> simp_all

/-- The resolvents on the literals of the first clause that the mode tries. -/
def conclusions (m : Mode) (c d : Clause) : ClauseSet :=
  .ofClauses {} ((c.literals.filter (m.tries · d)).map fun l => resolvent l c d)

theorem mem_conclusions {m : Mode} {c d r : Clause} :
    r ∈ conclusions m c d ↔ ∃ l ∈ c, m.tries l d = true ∧ resolvent l c d = r := by
  simp [conclusions, mem_def, and_assoc]

end Clause

end Saturation
