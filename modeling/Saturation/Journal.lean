import Saturation.Fault

/-!
# The journal of a search

What a search writes down besides its clauses: the number of the round, a record of each round,
whether and why it came to an end, and the answer.  A saved search may hold any values in these
places.  They are kept as they are and asked only for what is needed: an end or an answer counts
if its value does, a round is numbered on if the last number is one, and a record is added if the
history is a list.
-/

namespace Saturation

/-- How a round left the search. -/
inductive Verdict
  | undecided
  | satisfiable
  | unsatisfiable
deriving DecidableEq, Inhabited

def Verdict.word : Verdict → String
  | undecided => "continue"
  | satisfiable => "satisfiable"
  | unsatisfiable => "unsatisfiable"

theorem Verdict.word_inj {v w : Verdict} : v.word = w.word ↔ v = w := by
  cases v <;> cases w <;> decide

/-- What is recorded of a round: its number, the sizes of the two sets after it, how many pairs
were tried, the names of the new clauses, and the verdict. -/
structure RoundRecord where
  round : Json
  frontierSize : Nat
  seenSize : Nat
  pairs : Nat
  produced : List Text
  verdict : Verdict

def RoundRecord.toJson (r : RoundRecord) : Json :=
  .object
    [("round", r.round), ("frontier_size", .int r.frontierSize), ("seen_size", .int r.seenSize),
     ("pairs", .int r.pairs), ("produced", .array (r.produced.map .string)),
     ("outcome", .string r.verdict.word)]

/-- **What is written of a record tells all of it.** -/
theorem RoundRecord.toJson_inj {q r : RoundRecord} : q.toJson = r.toJson ↔ q = r := by
  refine ⟨fun h => ?_, fun h => h ▸ rfl⟩
  obtain ⟨round, frontierSize, seenSize, pairs, produced, verdict⟩ := q
  obtain ⟨round', frontierSize', seenSize', pairs', produced', verdict'⟩ := r
  simp only [toJson, Json.object.injEq, List.cons.injEq, Prod.mk.injEq, true_and, Json.int.injEq,
    Int.natCast_inj, Json.array.injEq, List.map_inj_right fun t u => Json.string.inj,
    Json.string.injEq, Text.ofString_inj, Verdict.word_inj, and_true] at h
  obtain ⟨rfl, rfl, rfl, rfl, rfl, rfl⟩ := h
  rfl

/-- So a history is the history of one list of records only. -/
theorem RoundRecord.history_inj {qs rs : List RoundRecord} :
    Json.array (qs.map toJson) = .array (rs.map toJson) ↔ qs = rs := by
  rw [Json.array.injEq, List.map_inj_right fun _ _ => toJson_inj.1]

structure Journal where
  history : Json := .array []
  round : Json := .int 0
  halted : Json := .bool false
  reason : Json := .string ""
  answer : Json := .null
deriving Inhabited

namespace Journal

def isHalted (j : Journal) : Bool := j.halted.isTruthy

/-- The answer, as far as there is one. -/
def verdict (j : Journal) : Verdict :=
  match j.answer with
  | .null => .undecided
  | v => if v.isTruthy then .satisfiable else .unsatisfiable

/-- The journal with the number of the next round, if the last number is one. -/
def nextRound? (j : Journal) : Option Journal :=
  j.round.succ?.map fun round => { j with round }

/-- The journal with one record more, if the history is a list. -/
def record? (j : Journal) (r : RoundRecord) : Option Journal :=
  match j.history with
  | .array records => some { j with history := .array (records ++ [r.toJson]) }
  | _ => none

/-- The journal of a search that has found its answer. -/
def finish (satisfiable : Bool) (reason : Text) (j : Journal) : Journal :=
  { j with halted := .bool true, reason := .string reason, answer := .bool satisfiable }

/-- The journal of a search that was told to stop; it has no answer. -/
def stop (j : Journal) : Journal :=
  { j with halted := .bool true, reason := .string "stop condition met" }

/-- The journal of a search that is taken up again. -/
def reopen (j : Journal) : Journal := { j with halted := .bool false }

@[simp]
theorem isHalted_finish (satisfiable : Bool) (reason : Text) (j : Journal) :
    (j.finish satisfiable reason).isHalted = true := rfl

@[simp]
theorem verdict_finish (satisfiable : Bool) (reason : Text) (j : Journal) :
    (j.finish satisfiable reason).verdict = if satisfiable then .satisfiable else .unsatisfiable :=
  rfl

@[simp]
theorem isHalted_stop (j : Journal) : j.stop.isHalted = true := rfl

@[simp]
theorem verdict_stop (j : Journal) : j.stop.verdict = j.verdict := rfl

@[simp]
theorem isHalted_reopen (j : Journal) : j.reopen.isHalted = false := rfl

end Journal

end Saturation
