import Saturation.Proofs.Modes
import Saturation.Proofs.Scalars
import Saturation.Proofs.Termination

/-!
# What a search has written down

A journal may hold values of any kind, because a saved search may have any values in its place.
What the rounds of a search write is of one kind only: a list of records, numbered from one, and
where the search stands.  `Log` is that, and `Log.journal` the journal it makes.

`next_logged` is the one thing to know about rounds here.  It says what a round makes of the two
sets and the log, by the outcome of the round, with no journal to be continued and nothing that can
fail.  A reachable search has a log (`Reachable.exists_logged`), so what is proved of logs holds of
every search that rounds lead to.

The number of the next round is the only thing a round that is told has to write out.  As long as
the number of all rounds has few enough digits, every round can be told (`tellable_start`).
-/

namespace Saturation

open ClauseSet

/-! ## Logs -/

/-- How a search comes to its answer. -/
inductive Finish
  | emptyGiven
  | emptyDerived
  | saturated
deriving DecidableEq

namespace Finish

def satisfiable : Finish → Bool
  | saturated => true
  | _ => false

def reason : Finish → Text
  | emptyGiven => "empty clause in frontier"
  | emptyDerived => "empty clause derived"
  | saturated => "saturated"

end Finish

/-- Where a search stands.  One that goes on keeps the reason of an earlier stop. -/
inductive Status
  | going (reason : Text)
  | stopped
  | finished (f : Finish)
deriving DecidableEq

namespace Status

def halted : Status → Bool
  | going _ => false
  | _ => true

def reason : Status → Text
  | going reason => reason
  | stopped => "stop condition met"
  | finished f => f.reason

def answer : Status → Json
  | finished f => .bool f.satisfiable
  | _ => .null

lemma exists_going {status : Status} (h : status.halted = false) :
    ∃ reason, status = .going reason := by
  cases status with
  | going reason => exact ⟨reason, rfl⟩
  | stopped => cases h
  | finished f => cases h

end Status

/-- The records of the rounds so far, and where the search stands. -/
structure Log where
  records : List RoundRecord := []
  status : Status := .going ""

namespace Log

def journal (g : Log) : Journal where
  history := .array (g.records.map RoundRecord.toJson)
  round := .int g.records.length
  halted := .bool g.status.halted
  reason := .string g.status.reason
  answer := g.status.answer

/-- The log with the record of one round more. -/
def add (g : Log) (frontier seen : ClauseSet) (pairs : ℕ) (produced : List Text)
    (verdict : Verdict) (status : Status) : Log where
  records := g.records ++
    [{ round := .int (g.records.length + 1), frontierSize := frontier.size,
       seenSize := seen.size, pairs, produced, verdict }]
  status := status

lemma journal_append (records : List RoundRecord) (r : RoundRecord) (status : Status) :
    journal ⟨records ++ [r], status⟩ =
      { history := .array (records.map RoundRecord.toJson ++ [r.toJson])
        round := .int (records.length + 1)
        halted := .bool status.halted
        reason := .string status.reason
        answer := status.answer } := by
  simp [journal]

lemma continuable (g : Log) : g.journal.Continuable := ⟨⟨_, rfl⟩, _, rfl⟩

end Log

namespace Search

/-! ## Searches with a log -/

/-- The search with these sets and this log. -/
def logged (frontier seen : ClauseSet) (g : Log) : Search where
  frontier := frontier
  seen := seen
  journal := g.journal

/-- What a round with the given outcome makes of a search. -/
def conclude (frontier seen : ClauseSet) (g : Log) : Round → Search
  | .emptyGiven =>
    logged frontier seen (g.add frontier seen 0 [] .unsatisfiable (.finished .emptyGiven))
  | .emptyDerived tried _ _ =>
    logged frontier seen
      (g.add frontier seen tried ["[]"] .unsatisfiable (.finished .emptyDerived))
  | .saturated tried =>
    logged frontier seen (g.add frontier seen tried [] .satisfiable (.finished .saturated))
  | .fresh tried found =>
    let kept := found.minimal
    let known := (seen ∪ frontier).minimal
    logged kept known (g.add kept known tried kept.names .undecided g.status)

variable {m : Mode} {frontier seen : ClauseSet} {g : Log} {s : Search} {es : List Entry}

@[simp]
lemma isHalted_logged : (logged frontier seen g).isHalted = g.status.halted := rfl

lemma next_logged_of_halted (m : Mode) (h : g.status.halted = true) :
    (logged frontier seen g).next m = logged frontier seen g :=
  next_of_isHalted m h

/-- The round that a search with this log takes next. -/
def roundOf (m : Mode) (frontier seen : ClauseSet) (g : Log) : Round :=
  .run m (.found (.int (g.records.length + 1))) frontier seen

/-- **A round, as the log has it.** -/
theorem next_logged {reason : Text} (hg : g.status = .going reason) :
    (logged frontier seen g).next m = conclude frontier seen g (roundOf m frontier seen g) := by
  obtain ⟨records, status⟩ := g
  subst hg
  have hgoes : (logged frontier seen ⟨records, .going reason⟩).isHalted = false := rfl
  rw [next, advance, if_neg (by rw [hgoes]; decide)]
  have hnext : (logged frontier seen ⟨records, .going reason⟩).journal.nextRound? =
      some { (Log.journal ⟨records, .going reason⟩) with round := .int (records.length + 1) } := rfl
  rw [hnext]
  dsimp only [logged]
  have hround : Round.run m (.found (.int (records.length + 1))) frontier seen =
      roundOf m frontier seen ⟨records, .going reason⟩ := rfl
  rw [hround]
  -- the record is appended to the list that the history is, so the journal closes as the log does
  cases roundOf m frontier seen ⟨records, .going reason⟩ with
  | emptyGiven =>
      rw [conclude, logged, Log.add, Log.journal_append]
      rfl
  | emptyDerived tried x y =>
      rw [conclude, logged, Log.add, Log.journal_append]
      rfl
  | saturated tried =>
      rw [conclude, logged, Log.add, Log.journal_append]
      rfl
  | fresh tried found =>
      rw [conclude, logged, Log.add, Log.journal_append]
      rfl

/-! ## Reachable searches -/

/-- A round writes one record, and the search goes on as before or has its answer. -/
lemma exists_logged_next (m : Mode) {reason : Text} (hg : g.status = .going reason) :
    ∃ frontier' seen' g', (logged frontier seen g).next m = logged frontier' seen' g' ∧
      g'.records.length = g.records.length + 1 ∧
      (g'.status = .going reason ∨ ∃ f, g'.status = .finished f) := by
  rw [next_logged hg]
  cases roundOf m frontier seen g with
  | emptyGiven => exact ⟨_, _, _, rfl, List.length_append, .inr ⟨_, rfl⟩⟩
  | emptyDerived tried x y => exact ⟨_, _, _, rfl, List.length_append, .inr ⟨_, rfl⟩⟩
  | saturated tried => exact ⟨_, _, _, rfl, List.length_append, .inr ⟨_, rfl⟩⟩
  | fresh tried found => exact ⟨_, _, _, rfl, List.length_append, .inl hg⟩

/-- **Every search in the row has a log**, and one that goes on has as many records as it has taken
rounds. -/
lemma exists_logged_iterate (m : Mode) (es : List Entry) (n : ℕ) :
    ∃ frontier seen g, (next m)^[n] (start es) = logged frontier seen g ∧
      (g.status = .going "" ∧ g.records.length = n ∨ ∃ f, g.status = .finished f) := by
  induction n with
  | zero => exact ⟨_, _, {}, rfl, .inl ⟨rfl, rfl⟩⟩
  | succ n ih =>
      obtain ⟨frontier, seen, g, hn, hg⟩ := ih
      rw [Function.iterate_succ_apply', hn]
      rcases hg with ⟨hgoes, hlength⟩ | ⟨f, hf⟩
      · obtain ⟨frontier', seen', g', hnext, hlength', hg'⟩ := exists_logged_next m hgoes
        refine ⟨frontier', seen', g', hnext, ?_⟩
        rw [hlength', hlength]
        exact hg'.imp_left fun h => ⟨h, rfl⟩
      · have hhalted : g.status.halted = true := hf ▸ rfl
        exact ⟨frontier, seen, g, next_logged_of_halted m hhalted, .inr ⟨f, hf⟩⟩

lemma Reachable.exists_logged (h : Reachable es s) :
    ∃ frontier seen g, s = logged frontier seen g ∧
      (g.status = .going "" ∨ ∃ f, g.status = .finished f) := by
  obtain ⟨n, hn⟩ := h.exists_iterate .permissive
  obtain ⟨frontier, seen, g, hg, hstatus⟩ := exists_logged_iterate .permissive es n
  exact ⟨frontier, seen, g, hn.trans hg, hstatus.imp_left And.left⟩

/-! ## Rounds that can all be told -/

lemma canTell_logged :
    (logged frontier seen g).canTell = Text.isWritable (g.records.length + 1) := by
  simp only [canTell, logged, Log.journal, Journal.nextRound?, Json.succ?, Json.int?,
    Option.map_some, Option.all_some, Json.isPlain]

/-- Every round up to the end can be told. -/
def Tellable (s : Search) : Prop :=
  ∀ m n, ((next m)^[n] s).isHalted = false → ((next m)^[n] s).canTell = true

lemma Tellable.iterate (h : s.Tellable) (hs : Reachable es s) (m : Mode) (n : ℕ) :
    ((Search.next m)^[n] s).Tellable := by
  intro m' k
  rw [hs.iterate_eq m m', ← Function.iterate_add_apply]
  exact h m' (k + n)

lemma Tellable.of_reachable (h : (start es).Tellable) (hs : Reachable es s) : s.Tellable := by
  obtain ⟨n, rfl⟩ := hs.exists_iterate .permissive
  exact h.iterate .start .permissive n

/-- Over `n` atoms there are at most `4 ^ n` rounds, so their numbers have few enough digits unless
there are thousands of atoms. -/
lemma tellable_start (hes : 4 ^ (start es).atoms.length < 10 ^ Text.maxDigits) :
    (start es).Tellable := by
  intro m n hgoes
  obtain ⟨k, hk, -, hend, -⟩ := exists_first_isHalted m (continuable_start es) (s := start es) rfl
  have hnk : n < k := lt_of_isHalted hgoes hend
  obtain ⟨frontier, seen, g, hn, hg⟩ := exists_logged_iterate m es n
  rw [hn] at hgoes ⊢
  rcases hg with ⟨_, hlength⟩ | ⟨f, hf⟩
  · rw [canTell_logged, Text.isWritable_iff, hlength]
    have hnumber : ((n : ℤ) + 1).natAbs ≤ 4 ^ (start es).atoms.length := by omega
    exact Nat.lt_of_le_of_lt hnumber hes
  · rw [isHalted_logged, hf] at hgoes
    cases hgoes

end Search

end Saturation
