import Saturation.Proofs.Arrangement
import Saturation.Proofs.Saturated
import Saturation.Proofs.Unordered
import Saturation.Samples

/-!
# What a round comes to

A round enumerates pairs in an order, resolves each on the literals of its first clause, stops early
at the empty clause, and sieves what it found twice.  What it comes to is said without any of this
(`next_effect`), from the clauses that two distinct known clauses resolve to, one of them of the
frontier (`Search.Resolves`), and from those of them that are new (`Search.New`): they decide how
the round ends, and the minimal ones among them are the next frontier, each with the number of the
round.

That the two clauses are distinct is no matter of pairs.  A frontier clause could meet itself only
as a seen clause, and the two sets are apart (`Arranged.apart`).
-/

namespace Saturation

open ClauseSet

namespace Search

variable {m : Mode} {s : Search} {es : List Entry} {n : ℕ} {r : Clause} {e : Entry}

/-! ## Resolvents -/

/-- Two distinct known clauses, one of them of the frontier, resolve to the clause: it is their
union without a literal of the one and its complement, which is in the other. -/
def Resolves (s : Search) (r : Clause) : Prop :=
  ∃ x ∈ s.frontier, ∃ y ∈ s.known, x ≠ y ∧
    ∃ l ∈ x, l.complement ∈ y ∧ (x ∪ y) \ .ofLiterals [l, l.complement] = r

/-- The clause is a resolvent, and no known clause is part of it. -/
structure New (s : Search) (r : Clause) : Prop where
  resolves : s.Resolves r
  uncovered : ∀ k ∈ s.known, ¬ k ⊆ r

/-- **What resolves are the pairs of a strict round**, because the two sets are apart. -/
lemma Arranged.exists_mem_conclusions_iff (h : Arranged es n s) :
    (∃ pair ∈ Round.pairs s.frontier s.seen, r ∈ Round.conclusions .strict pair) ↔
      s.Resolves r := by
  rw [Round.exists_mem_conclusions_iff]
  constructor
  · rintro ⟨x, hx, y, hy, l, hl, hl', rfl⟩
    have hne : x ≠ y := by
      rcases hy with hy | ⟨-, hne⟩
      · rintro rfl
        exact h.not_mem_frontier hy hx
      · exact hne.symm
    have hknown : y ∈ s.known := mem_known.2 (hy.imp_right And.left)
    exact ⟨x, hx, y, hknown, hne, l, hl, hl', (Clause.resolvent_eq_sdiff hl').symm⟩
  · rintro ⟨x, hx, y, hy, hne, l, hl, hl', rfl⟩
    have hmeets : y ∈ s.seen ∨ y ∈ s.frontier ∧ y ≠ x :=
      (mem_known.1 hy).imp_right fun hy => ⟨hy, hne.symm⟩
    exact ⟨x, hx, y, hmeets, l, hl, hl', Clause.resolvent_eq_sdiff hl'⟩

lemma uncovered_iff : s.known.covers r = false ↔ ∀ k ∈ s.known, ¬ k ⊆ r := by
  rw [← Bool.not_eq_true, covers_iff]
  push Not
  rfl

/-! ## The sets after a round -/

lemma ReachableIn.round_eq (h : ReachableIn es n s) (hs : s.isHalted = false) :
    s.journal.round = .int n := by
  obtain ⟨frontier, seen, records, rfl, rfl⟩ := h.exists_logged hs
  rfl

lemma ReachableIn.status_eq (h : ReachableIn es n s) (hs : s.isHalted = false) :
    s.journal.halted = .bool false ∧ s.journal.answer = .null := by
  obtain ⟨frontier, seen, records, rfl, -⟩ := h.exists_logged hs
  exact ⟨rfl, rfl⟩

/-- The minimal known clauses, each as it was known. -/
lemma Arranged.mem_entries_minimal_known (h : Arranged es n s) :
    e ∈ s.known.minimal.entries ↔
      (e ∈ s.seen.entries ∨ e ∈ s.frontier.entries) ∧ ∀ k ∈ s.known, ¬ k ⊂ e.clause := by
  rw [mem_entries_minimal, known, mem_entries_union]
  refine and_congr_left fun _ => or_congr_right ⟨And.left, fun he => ⟨he, fun hmem => ?_⟩⟩
  exact h.not_mem_frontier hmem (mem_of_mem_entries he)

/-- The minimal new clauses, each with the number of the round. -/
lemma ReachableIn.mem_frontier_next (h : ReachableIn es n s)
    (hgoes : (s.next m).isHalted = false) {found : ClauseSet} (hfound : ∀ r, r ∈ found ↔ s.New r)
    (hfrontier : (s.next m).frontier = found.minimal) :
    e ∈ (s.next m).frontier.entries ↔
      s.New e.clause ∧ (∀ r, s.New r → ¬ r ⊂ e.clause) ∧
        e.source = { step := .int (n + 1), label := .string "" } := by
  have hmem : e.clause ∈ (s.next m).frontier ↔
      s.New e.clause ∧ ∀ r, s.New r → ¬ r ⊂ e.clause := by
    simp only [hfrontier, mem_minimal, hfound]
  rw [mem_entries_iff_of_source fun e he => h.source_next hgoes he, hmem, and_assoc]
  rfl

/-! ## The effect -/

section

variable {t : Search}

lemma Arranged.not_refuted (h : Arranged es n s) (hgiven : ∅ ∉ s.frontier)
    (hempty : ¬ s.Resolves ∅) :
    ¬ (∅ ∈ s.frontier ∨
      ∃ pair ∈ Round.pairs s.frontier s.seen, ∅ ∈ Round.conclusions .strict pair) := by
  rintro (hmem | hmem)
  · exact hgiven hmem
  · exact hempty (h.exists_mem_conclusions_iff.1 hmem)

lemma Arranged.step_of_resolves_empty (h : Arranged es n s) (hstep : Step .strict s t)
    (hempty : s.Resolves ∅) :
    t.journal.halted = .bool true ∧ t.journal.answer = .bool false ∧
      t.frontier = s.frontier ∧ t.seen = s.seen := by
  obtain ⟨pair, hpair, hmem⟩ := h.exists_mem_conclusions_iff.2 hempty
  cases hstep with
  | refutes _ _ hhalted hanswer => exact ⟨hhalted, hanswer, rfl, rfl⟩
  | saturates _ hno => exact absurd hmem (hno pair hpair)
  | continues _ hno => exact absurd hmem (hno pair hpair)

lemma Arranged.step_of_covered (h : Arranged es n s) (hstep : Step .strict s t)
    (hgiven : ∅ ∉ s.frontier) (hempty : ¬ s.Resolves ∅)
    (hcovered : ∀ r, s.Resolves r → ∃ k ∈ s.known, k ⊆ r) :
    t.journal.halted = .bool true ∧ t.journal.answer = .bool true ∧
      t.frontier = s.frontier ∧ t.seen = s.seen := by
  cases hstep with
  | refutes hsome => exact absurd hsome (h.not_refuted hgiven hempty)
  | saturates _ _ _ _ hhalted hanswer => exact ⟨hhalted, hanswer, rfl, rfl⟩
  | continues _ _ hfound hsome =>
      obtain ⟨r, hr⟩ := hsome
      obtain ⟨pair, hpair, hconc, hcover⟩ := (hfound r).1 hr
      obtain ⟨k, hk, hkr⟩ := hcovered r (h.exists_mem_conclusions_iff.1 ⟨pair, hpair, hconc⟩)
      exact absurd hkr (uncovered_iff.1 hcover k hk)

lemma Arranged.step_of_new (h : Arranged es n s) (hs : s.isHalted = false)
    (hstep : Step .strict s t) (hgiven : ∅ ∉ s.frontier) (hempty : ¬ s.Resolves ∅)
    (hnew : s.New r) :
    t.isHalted = false ∧ t.seen = s.known.minimal ∧
      ∃ found : ClauseSet, (∀ r, r ∈ found ↔ s.New r) ∧ t.frontier = found.minimal := by
  cases hstep with
  | refutes hsome => exact absurd hsome (h.not_refuted hgiven hempty)
  | saturates _ _ hcovered =>
      obtain ⟨pair, hpair, hconc⟩ := h.exists_mem_conclusions_iff.2 hnew.resolves
      obtain ⟨k, hk, hkr⟩ := covers_iff.1 (hcovered pair hpair r hconc)
      exact absurd hkr (hnew.uncovered k hk)
  | continues _ _ hfound _ _ hhalted =>
      refine ⟨(Journal.isHalted_congr hhalted).trans hs, rfl, _, fun r => ?_, rfl⟩
      rw [hfound]
      constructor
      · rintro ⟨pair, hpair, hconc, hcover⟩
        exact ⟨h.exists_mem_conclusions_iff.1 ⟨pair, hpair, hconc⟩, uncovered_iff.1 hcover⟩
      · rintro ⟨hr, hcover⟩
        obtain ⟨pair, hpair, hconc⟩ := h.exists_mem_conclusions_iff.2 hr
        exact ⟨pair, hpair, hconc, uncovered_iff.2 hcover⟩

end

/-- **What a round comes to.**  From a reachable search that goes on and does not hold the empty
clause:

* if the empty clause is a resolvent, the round refutes and leaves the sets as they are;
* if it is not, and every resolvent has a part among the known clauses, the round saturates and
  leaves the sets as they are;
* otherwise the search goes on, with the minimal known clauses seen and the minimal new ones in the
  frontier. -/
theorem next_effect (m : Mode) (h : Reachable es s) (hs : s.isHalted = false)
    (hgiven : ∅ ∉ s.frontier) :
    (s.Resolves ∅ →
      (s.next m).journal.halted = .bool true ∧ (s.next m).journal.answer = .bool false ∧
        (s.next m).frontier = s.frontier ∧ (s.next m).seen = s.seen) ∧
    (¬ s.Resolves ∅ → (∀ r, s.Resolves r → ∃ k ∈ s.known, k ⊆ r) →
      (s.next m).journal.halted = .bool true ∧ (s.next m).journal.answer = .bool true ∧
        (s.next m).frontier = s.frontier ∧ (s.next m).seen = s.seen) ∧
    (¬ s.Resolves ∅ → (∃ r, s.New r) →
      (s.next m).journal.halted = .bool false ∧ (s.next m).journal.answer = .null ∧
        (∀ e, e ∈ (s.next m).seen.entries ↔
          (e ∈ s.seen.entries ∨ e ∈ s.frontier.entries) ∧ ∀ k ∈ s.known, ¬ k ⊂ e.clause) ∧
        ∃ n : ℕ, s.journal.round = .int n ∧ (s.next m).journal.round = .int (n + 1) ∧
          ∀ e, e ∈ (s.next m).frontier.entries ↔
            s.New e.clause ∧ (∀ r, s.New r → ¬ r ⊂ e.clause) ∧
              e.source = { step := .int (n + 1), label := .string "" }) := by
  obtain ⟨n, hn⟩ := h.exists_reachableIn
  have harr : Arranged es n s := hn.arranged
  -- the modes agree, and in the strict one the pairs give the resolvents and nothing else
  rw [next_eq m .strict h.invariant.nonempty]
  have hstep := step_next .strict hs h.invariant.continuable
  refine ⟨harr.step_of_resolves_empty hstep, harr.step_of_covered hstep hgiven, ?_⟩
  rintro hempty ⟨r, hnew⟩
  obtain ⟨hgoes, hseen, found, hfound, hfrontier⟩ :=
    harr.step_of_new hs hstep hgiven hempty hnew
  have hnext : ReachableIn es (n + 1) (s.next .strict) := .goesOn .strict hn hgoes
  obtain ⟨hhalted, hanswer⟩ := hnext.status_eq hgoes
  refine ⟨hhalted, hanswer, fun e => ?_, n, hn.round_eq hs, hnext.round_eq hgoes,
    fun e => hn.mem_frontier_next hgoes hfound hfrontier⟩
  rw [hseen]
  exact harr.mem_entries_minimal_known

/-- A round that goes on with what it found, and one that refutes. -/
theorem next_effect_modusPonens :
    let s := start Sample.modusPonens.entries
    let t := s.next .strict
    (Reachable Sample.modusPonens.entries s ∧ s.isHalted = false ∧ ∅ ∉ s.frontier ∧
      ¬ s.Resolves ∅ ∧ (∃ r, s.New r) ∧ t.journal.answer = .null ∧
      ∀ e ∈ t.frontier.entries, s.New e.clause) ∧
    Reachable Sample.modusPonens.entries t ∧ t.isHalted = false ∧ ∅ ∉ t.frontier ∧
      t.Resolves ∅ ∧ (t.next .permissive).journal.answer = .bool false ∧
      (t.next .permissive).frontier = t.frontier := by
  intro s t
  have hs : Reachable Sample.modusPonens.entries s := .start
  have ht : Reachable Sample.modusPonens.entries t := .next .strict hs
  have hgiven : ∅ ∉ s.frontier := by decide +kernel
  have hgiven' : ∅ ∉ t.frontier := by decide +kernel
  have hgoes : t.isHalted = false := by decide +kernel
  have hno : ∀ x ∈ s.frontier.clauses, ∀ y ∈ s.known.clauses, x ≠ y → ∀ l ∈ x.literals,
      l.complement ∈ y.literals → (x ∪ y) \ .ofLiterals [l, l.complement] ≠ ∅ := by
    decide +kernel
  have hempty : ¬ s.Resolves ∅ := by
    rintro ⟨x, hx, y, hy, hne, l, hl, hl', h⟩
    exact hno x hx y hy hne l hl hl' h
  have hnew : ∃ x ∈ s.frontier.clauses, ∃ y ∈ s.known.clauses, x ≠ y ∧ ∃ l ∈ x.literals,
      l.complement ∈ y.literals ∧
        ∀ k ∈ s.known.clauses, ¬ k ⊆ (x ∪ y) \ .ofLiterals [l, l.complement] := by
    decide +kernel
  have hnew : ∃ r, s.New r := by
    obtain ⟨x, hx, y, hy, hne, l, hl, hl', huncovered⟩ := hnew
    exact ⟨_, ⟨x, hx, y, hy, hne, l, hl, hl', rfl⟩, huncovered⟩
  have hempty' : ∃ x ∈ t.frontier.clauses, ∃ y ∈ t.known.clauses, x ≠ y ∧ ∃ l ∈ x.literals,
      l.complement ∈ y.literals ∧ (x ∪ y) \ .ofLiterals [l, l.complement] = ∅ := by
    decide +kernel
  obtain ⟨-, hanswer, -, n, -, -, hfrontier⟩ :=
    (next_effect .strict hs rfl hgiven).2.2 hempty hnew
  obtain ⟨-, hanswer', hfrontier', -⟩ := (next_effect .permissive ht hgoes hgiven').1 hempty'
  exact ⟨⟨hs, rfl, hgiven, hempty, hnew, hanswer, fun e he => ((hfrontier e).1 he).1⟩, ht, hgoes,
    hgiven', hempty', hanswer', hfrontier'⟩

end Search

end Saturation
