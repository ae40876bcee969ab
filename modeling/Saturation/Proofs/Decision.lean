import Saturation.Decider
import Saturation.Proofs.Consequence
import Saturation.Proofs.Model
import Saturation.Proofs.Termination
import Saturation.Samples

/-!
# What the answer means

A decider asked about the clauses of a list comes to an answer (`exists_isSatisfiable_eq`), and the
two answers are worth different things.

**Satisfiable** is always right: the clauses at the end have a model, and they cover the given
ones (`satisfies_of_verdict`).  So an unsatisfiable list is always refuted.

**Unsatisfiable** is right as long as no strike went too far.  Tautologies are kept, and a resolvent
on their atom may say more than the two clauses do (`Overdrawn`); what is derived from it need not
follow.  An assignment under which the given clauses and these resolvents are true makes all
clauses true that are ever known (`holds_iterate`), and conversely a search that ends without the
empty clause covers these resolvents too.  Hence a list is refuted exactly if no assignment makes
true the clauses together with all that was overdrawn.
-/

namespace Saturation

open ClauseSet

variable {m : Mode} {es : List Entry} {v : Assignment}

namespace Search

/-! ## Resolvents that say too much -/

/-- A resolvent of a pair of some round, on a literal that the mode tries, by a strike that goes too
far.  All pairs of the round count, also those after the first that gives the empty clause. -/
def Overdrawn (m : Mode) (es : List Entry) (r : Clause) : Prop :=
  ∃ n, ((next m)^[n] (start es)).isHalted = false ∧
    ∃ pair ∈ Round.pairs ((next m)^[n] (start es)).frontier ((next m)^[n] (start es)).seen,
      ∃ l ∈ pair.1.clause, m.tries l pair.2.clause = true ∧
        Clause.Overstrikes l pair.1.clause pair.2.clause ∧
        Clause.resolvent l pair.1.clause pair.2.clause = r

/-! ## Refutations -/

/-- If what was overdrawn is true with the given clauses, all that is known is, and the empty clause
is not. -/
lemma verdict_ne_unsatisfiable_of_overdrawn (hv : Satisfies v es)
    (hover : ∀ r, Overdrawn m es r → r.Holds v) (n : ℕ) :
    ((next m)^[n] (start es)).verdict ≠ .unsatisfiable :=
  (holds_iterate hv fun k _ hs r hr => hover r ⟨k, hs, hr⟩).2

/-! ## Saturated searches -/

lemma verdict_ne_of_satisfiable {n k : ℕ}
    (hk : ((next m)^[k] (start es)).verdict = .satisfiable) (hnk : n ≤ k) :
    ((next m)^[n] (start es)).verdict ≠ .unsatisfiable := by
  intro hunsat
  have hdecided : ((next m)^[n] (start es)).verdict ≠ .undecided := by
    simp [hunsat]
  rw [iterate_eq_of_verdict hdecided hnk, hunsat] at hk
  cases hk

/-- **A search that ends satisfiable has a model of what it was given and of what it overdrew.** -/
lemma satisfies_of_verdict {k : ℕ} (hk : ((next m)^[k] (start es)).verdict = .satisfiable) :
    ∃ v : Assignment, Satisfies v es ∧ ∀ r, Overdrawn m es r → r.Holds v := by
  have hinv : Invariant es ((next m)^[k] (start es)) := (reachable_iterate m k).invariant
  obtain ⟨v, hv⟩ := hinv.exists_model hk
  refine ⟨v, fun e he => hv _ (hinv.given e he), ?_⟩
  rintro r ⟨n, hs, pair, hpair, l, hl, htries, _, rfl⟩
  have hnk : n + 1 ≤ k := by
    refine lt_of_isHalted hs (hinv.isHalted ?_)
    simp [hk]
  have hstep := step_next m hs (continuable_iterate m n (continuable_start es))
  rw [← Function.iterate_succ_apply' (next m)] at hstep
  have hcover := hstep.covers_conclusion (fun _ => verdict_ne_of_satisfiable hk hnk) hpair
    (Clause.mem_conclusions.2 ⟨l, hl, htries, rfl⟩)
  obtain ⟨i, rfl⟩ := Nat.exists_eq_add_of_le' hnk
  refine hv _ ?_
  rw [Function.iterate_add_apply]
  exact covers_iterate (continuable_iterate m (n + 1) (continuable_start es)) hcover i

end Search

namespace Decider

open Search

/-! ## Answers -/

/-- **Asked, a decider answers**, with the verdict of the first search in the row that has come to
an end. -/
lemma exists_isSatisfiable_eq (m : Mode) (es : List Entry) :
    ((ofEntries m es).ask false).ending = .halted ∧
      ∃ k, ((next m)^[k] (start es)).isHalted = true ∧
        (ofEntries m es).isSatisfiable = ((next m)^[k] (start es)).verdict ∧
        (ofEntries m es).isSatisfiable ≠ .undecided := by
  obtain ⟨k, hk, hrun, hend, b, hanswer⟩ :=
    exists_first_isHalted m (continuable_start es) (s := start es) rfl
  obtain ⟨hsearch, hending, _⟩ := runFor_of_isHalted (l := {}) (continuable_start es)
    (fun _ => rfl) hrun hend (by simp) hk
  have hsat : (ofEntries m es).isSatisfiable = ((next m)^[k] (start es)).verdict :=
    congrArg Search.verdict hsearch
  refine ⟨hending, k, hend, hsat, ?_⟩
  rw [hsat, Search.verdict, Journal.verdict_of_answer hanswer]
  cases b <;> simp

lemma isSatisfiable_eq_of_verdict {n : ℕ}
    (h : ((next m)^[n] (start es)).verdict ≠ .undecided) :
    (ofEntries m es).isSatisfiable = ((next m)^[n] (start es)).verdict := by
  obtain ⟨_, k, hend, hsat, _⟩ := exists_isSatisfiable_eq m es
  have hhalted : ((next m)^[n] (start es)).isHalted = true :=
    (reachable_iterate m n).invariant.isHalted h
  rcases Nat.le_total n k with hnk | hkn
  · rw [hsat, iterate_eq_of_isHalted hhalted hnk]
  · rw [hsat, iterate_eq_of_isHalted hend hkn]

/-- **A list is refuted exactly if nothing makes true its clauses and all that is overdrawn.** -/
lemma isSatisfiable_eq_unsatisfiable_iff (m : Mode) (es : List Entry) :
    (ofEntries m es).isSatisfiable = .unsatisfiable ↔
      ∀ v, Satisfies v es → ∃ r, Overdrawn m es r ∧ ¬ r.Holds v := by
  obtain ⟨_, k, _, hsat, hdecided⟩ := exists_isSatisfiable_eq m es
  constructor
  · intro hunsat v hv
    by_contra hno
    push Not at hno
    exact verdict_ne_unsatisfiable_of_overdrawn hv hno k (hsat ▸ hunsat)
  · intro hall
    cases hverdict : (ofEntries m es).isSatisfiable with
    | undecided => exact absurd hverdict hdecided
    | unsatisfiable => rfl
    | satisfiable =>
        obtain ⟨v, hv, hover⟩ := satisfies_of_verdict (hsat ▸ hverdict)
        obtain ⟨r, hr, hrv⟩ := hall v hv
        exact absurd (hover r hr) hrv

/-- **When a refutation is right.**  A decider refutes a list exactly if some search in its row
does, and exactly if every assignment that makes the clauses true makes a resolvent false that a
round overdrew.  So refutations of a list are right exactly if the list is unsatisfiable or has a
model in which all that is overdrawn is true. -/
theorem refutation_iff (m : Mode) (es : List Entry) :
    ((ofEntries m es).isSatisfiable = .unsatisfiable ↔
      ∃ n, ((next m)^[n] (start es)).verdict = .unsatisfiable) ∧
    ((ofEntries m es).isSatisfiable = .unsatisfiable ↔
      ∀ v, Satisfies v es → ∃ r, Overdrawn m es r ∧ ¬ r.Holds v) ∧
    (((ofEntries m es).isSatisfiable = .unsatisfiable → ¬ Satisfiable es) ↔
      (Satisfiable es → ∃ v, Satisfies v es ∧ ∀ r, Overdrawn m es r → r.Holds v)) := by
  have hiff := isSatisfiable_eq_unsatisfiable_iff m es
  refine ⟨⟨?_, ?_⟩, hiff, ?_, ?_⟩
  · intro hunsat
    obtain ⟨_, n, _, hsat, _⟩ := exists_isSatisfiable_eq m es
    exact ⟨n, hsat ▸ hunsat⟩
  · rintro ⟨n, hn⟩
    have hdecided : ((next m)^[n] (start es)).verdict ≠ .undecided := by
      simp [hn]
    rw [isSatisfiable_eq_of_verdict hdecided, hn]
  · intro hright hsat
    by_contra hno
    refine hright (hiff.2 fun v hv => ?_) hsat
    by_contra hall
    push Not at hall
    exact hno ⟨v, hv, hall⟩
  · rintro hmodel hunsat hsat
    obtain ⟨v, hv, hover⟩ := hmodel hsat
    obtain ⟨r, hr, hrv⟩ := hiff.1 hunsat v hv
    exact hrv (hover r hr)

def atomP : Atom := ⟨"P", by decide⟩

def atomQ : Atom := ⟨"Q", by decide⟩

open Sample (pos neg entry)

/-- One of the two atoms, but not both. -/
def exclusive : List Entry :=
  [entry "" [pos atomP, pos atomQ], entry "" [neg atomP, neg atomQ]]

/-- **A satisfiable list that is refuted.**  The two clauses resolve to a tautology on either atom,
and these strike both literals of the atom from the clauses they are resolved with. -/
theorem exclusive_refuted :
    Satisfiable exclusive ∧ ∀ m, (ofEntries m exclusive).isSatisfiable = .unsatisfiable := by
  constructor
  · refine ⟨fun a => a == atomP, fun e he => ?_⟩
    have hall : ∀ e ∈ exclusive, e.clause.Holds fun a => a == atomP := by decide +kernel
    exact hall e he
  · rintro (_ | _)
    · decide +kernel
    · decide +kernel

/-- **Refutation is complete.**  Asked about an unsatisfiable list, a decider comes to an end and
refutes it; and a search that ends satisfiable started from satisfiable clauses. -/
theorem refutation_complete (m : Mode) (es : List Entry) :
    (¬ Satisfiable es → ((ofEntries m es).ask false).ending = .halted ∧
      (ofEntries m es).isSatisfiable = .unsatisfiable) ∧
    ∀ n, ((next m)^[n] (start es)).verdict = .satisfiable → Satisfiable es := by
  constructor
  · intro hunsat
    refine ⟨(exists_isSatisfiable_eq m es).1, ?_⟩
    exact (isSatisfiable_eq_unsatisfiable_iff m es).2 fun v hv => absurd ⟨v, hv⟩ hunsat
  · intro n hn
    obtain ⟨v, hv, _⟩ := satisfies_of_verdict hn
    exact ⟨v, hv⟩

/-- Either value of one atom is refuted by both values of the other; a tautology is in between. -/
def contradictory : List Entry :=
  [entry "" [pos atomP, pos atomQ], entry "" [pos atomP, neg atomQ],
   entry "" [pos atomQ, neg atomQ], entry "" [neg atomP, pos atomQ],
   entry "" [neg atomP, neg atomQ]]

theorem contradictory_refuted :
    ¬ Satisfiable contradictory ∧
      ∀ m, (ofEntries m contradictory).isSatisfiable = .unsatisfiable := by
  have hunsat : ¬ Satisfiable contradictory := by
    rintro ⟨v, hv⟩
    simp only [Satisfies, contradictory, entry, List.forall_mem_cons, Clause.holds_iff,
      Clause.mem_ofLiterals, List.exists_mem_cons_iff, Literal.Holds, pos, neg] at hv
    cases hp : v atomP <;> cases hq : v atomQ <;> simp [hp, hq] at hv
  exact ⟨hunsat, fun m => ((refutation_complete m contradictory).1 hunsat).2⟩

end Decider

end Saturation
