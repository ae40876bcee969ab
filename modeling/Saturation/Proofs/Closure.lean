import Saturation.Proofs.Step
import Saturation.Semantics

/-!
# What a search keeps

A round drops clauses, but never what they cover: whatever the known clauses cover they cover
after every later round (`Step.covers`), and what a round concludes is covered from then on
(`Step.covers_conclusion`).

So the known clauses stay closed under resolution as far as they have met.  `Invariant` says this
of the seen clauses, which have all met each other, and the rest follows when a round finds
nothing new: then the frontier has met everything as well, and the known clauses are closed
(`ClauseSet.Closed`).
-/

namespace Saturation

open ClauseSet

/-- Whatever two distinct members resolve to is covered. -/
def ClauseSet.Closed (K : ClauseSet) : Prop :=
  ∀ c ∈ K, ∀ d ∈ K, c ≠ d → ∀ l ∈ c, l.complement ∈ d → K.covers (Clause.resolvent l c d) = true

namespace Search

variable {m : Mode} {s t : Search} {es : List Entry}

/-! ## Covering over time -/

lemma mem_known {c : Clause} : c ∈ s.known ↔ c ∈ s.seen ∨ c ∈ s.frontier := mem_union

/-- **Nothing that is covered is ever uncovered.** -/
lemma Step.covers (h : Step m s t) {c : Clause} (hc : s.known.covers c = true) :
    t.known.covers c = true := by
  cases h with
  | refutes => exact hc
  | saturates => exact hc
  | continues =>
      refine covers_union_left ?_
      rwa [covers_minimal]

/-- **What a round concludes is covered after it**, unless the round refutes. -/
lemma Step.covers_conclusion (h : Step m s t) (ht : t.isHalted = true → t.verdict ≠ .unsatisfiable)
    {pair : Entry × Entry} (hpair : pair ∈ Round.pairs s.frontier s.seen) {r : Clause}
    (hr : r ∈ Round.conclusions m pair) : t.known.covers r = true := by
  cases hcover : s.known.covers r with
  | true => exact h.covers hcover
  | false =>
      cases h with
      | refutes _ _ hhalted hanswer =>
          exact absurd (Journal.verdict_of_answer hanswer) (ht (Journal.isHalted_of_halted hhalted))
      | saturates _ _ hcovered =>
          rw [hcovered pair hpair r hr] at hcover
          cases hcover
      | continues _ _ hfound =>
          refine covers_union_right ?_
          rw [covers_minimal]
          exact covers_of_mem ((hfound r).2 ⟨pair, hpair, hr, hcover⟩)

/-- Clauses that have met need not meet again. -/
def Met (s : Search) : Prop :=
  ∀ c ∈ s.seen, ∀ d ∈ s.seen, c ≠ d → ∀ l ∈ c, l.complement ∈ d →
    s.known.covers (Clause.resolvent l c d) = true

/-- After a round that does not refute, what any two known clauses resolve to is covered: the seen
ones have met before, and all others are pairs of the round. -/
lemma Step.covers_resolvent (h : Step m s t) (ht : t.isHalted = true → t.verdict ≠ .unsatisfiable)
    (hmet : s.Met) {c d : Clause} (hc : c ∈ s.known) (hd : d ∈ s.known) (hne : c ≠ d)
    {l : Literal} (hl : l ∈ c) (hl' : l.complement ∈ d) :
    t.known.covers (Clause.resolvent l c d) = true := by
  rcases mem_known.1 hc with hcs | hcf
  · rcases mem_known.1 hd with hds | hdf
    · exact h.covers (hmet c hcs d hds hne l hl hl')
    · obtain ⟨pair, hpair, hr⟩ := Round.exists_mem_conclusions (m := m) hdf hc (Ne.symm hne) hl'
        (by rwa [Literal.complement_complement])
      rw [Clause.resolvent_symm hl hl'] at hr
      exact h.covers_conclusion ht hpair hr
  · obtain ⟨pair, hpair, hr⟩ := Round.exists_mem_conclusions (m := m) hcf hd hne hl hl'
    exact h.covers_conclusion ht hpair hr

/-! ## One step -/

lemma Step.seen_subset_known (h : Step m s t) : ∀ c ∈ t.seen, c ∈ s.known := by
  intro c hc
  cases h with
  | refutes => exact mem_known.2 (.inl hc)
  | saturates => exact mem_known.2 (.inl hc)
  | continues => exact (mem_minimal.1 hc).1

lemma Step.nonempty (h : Step m s t) (hs : ∅ ∉ s.seen) : ∅ ∉ t.seen := by
  cases h with
  | refutes => exact hs
  | saturates => exact hs
  | continues hfrontier =>
      intro hmem
      rcases mem_known.1 (mem_minimal.1 hmem).1 with hmem | hmem
      · exact hs hmem
      · exact hfrontier hmem

lemma Step.undecided_iff (h : Step m s t) (hs : s.isHalted = false)
    (hverdict : s.verdict = .undecided) : t.verdict = .undecided ↔ t.isHalted = false := by
  cases h with
  | refutes _ _ hhalted hanswer =>
      simp [isHalted, verdict, Journal.isHalted_of_halted hhalted,
        Journal.verdict_of_answer hanswer]
  | saturates _ _ _ _ hhalted hanswer =>
      simp [isHalted, verdict, Journal.isHalted_of_halted hhalted,
        Journal.verdict_of_answer hanswer]
  | @continues j _ _ _ _ _ _ hhalted hanswer =>
      have hgoes : j.isHalted = false := (Journal.isHalted_congr hhalted).trans hs
      have hopen : j.verdict = .undecided := (Journal.verdict_congr hanswer).trans hverdict
      simp [isHalted, verdict, hgoes, hopen]

lemma Step.met (h : Step m s t) (hs : s.isHalted = false) (hmet : s.Met) : t.Met := by
  have hstep := h
  cases h with
  | refutes => exact hmet
  | saturates => exact hmet
  | @continues j _ _ _ _ _ _ hhalted =>
      have hgoes : j.isHalted = false := (Journal.isHalted_congr hhalted).trans hs
      intro c hc d hd hne l hl hl'
      refine hstep.covers_resolvent (fun ht => ?_) hmet (hstep.seen_subset_known c hc)
        (hstep.seen_subset_known d hd) hne hl hl'
      cases hgoes.symm.trans ht

/-- A round that saturates has met the frontier with everything, so nothing is left to meet. -/
lemma Step.saturated (h : Step m s t) (hverdict : s.verdict = .undecided) (hseen : ∅ ∉ s.seen)
    (hmet : s.Met) (ht : t.verdict = .satisfiable) : ∅ ∉ t.known ∧ t.known.Closed := by
  have hstep := h
  cases h with
  | refutes _ _ _ hanswer =>
      rw [verdict, Journal.verdict_of_answer hanswer] at ht
      cases ht
  | saturates hfrontier =>
      constructor
      · intro hmem
        rcases mem_known.1 hmem with hmem | hmem
        · exact hseen hmem
        · exact hfrontier hmem
      · intro c hc d hd hne l hl hl'
        refine hstep.covers_resolvent (fun _ => ?_) hmet hc hd hne hl hl'
        simp [ht]
  | @continues j _ _ _ _ _ _ _ hanswer =>
      have hopen : j.verdict = .undecided := (Journal.verdict_congr hanswer).trans hverdict
      cases hopen.symm.trans ht

/-! ## The invariant -/

/-- What is true of a search from its start on. -/
structure Invariant (es : List Entry) (s : Search) : Prop where
  continuable : s.journal.Continuable
  given : ∀ e ∈ es, s.known.covers e.clause = true
  nonempty : ∅ ∉ s.seen
  met : s.Met
  undecided : s.verdict = .undecided ↔ s.isHalted = false
  saturated : s.verdict = .satisfiable → ∅ ∉ s.known ∧ s.known.Closed

lemma invariant_start (es : List Entry) : Invariant es (start es) where
  continuable := continuable_start es
  given := by
    intro e he
    refine covers_union_right ?_
    rw [start, covers_minimal]
    exact covers_of_mem (mem_ofEntries.2 (List.mem_map_of_mem he))
  nonempty := not_mem_empty ∅
  met := fun c hc => absurd hc (not_mem_empty c)
  undecided := by simp
  saturated := by simp

lemma Invariant.next (h : Invariant es s) (hs : s.isHalted = false) (m : Mode) :
    Invariant es (s.next m) where
  continuable := continuable_next m h.continuable
  given := fun e he => (step_next m hs h.continuable).covers (h.given e he)
  nonempty := (step_next m hs h.continuable).nonempty h.nonempty
  met := (step_next m hs h.continuable).met hs h.met
  undecided := (step_next m hs h.continuable).undecided_iff hs (h.undecided.2 hs)
  saturated := (step_next m hs h.continuable).saturated (h.undecided.2 hs) h.nonempty h.met

/-- **The invariant holds of every reachable search.** -/
theorem Reachable.invariant (h : Reachable es s) : Invariant es s := by
  induction h with
  | start => exact invariant_start es
  | @next s m _ ih =>
      cases hs : s.isHalted with
      | true => rwa [next_of_isHalted m hs]
      | false => exact ih.next hs m

lemma Invariant.isHalted (h : Invariant es s) (hs : s.verdict ≠ .undecided) :
    s.isHalted = true := by
  by_contra hno
  exact hs (h.undecided.2 (Bool.eq_false_iff.2 hno))

/-- A search that has come to its end without a refutation has the positive answer. -/
lemma Invariant.satisfiable (h : Invariant es s) (hs : s.isHalted = true)
    (hverdict : s.verdict ≠ .unsatisfiable) : s.verdict = .satisfiable := by
  cases hv : s.verdict with
  | satisfiable => rfl
  | unsatisfiable => exact absurd hv hverdict
  | undecided => cases hs.symm.trans (h.undecided.1 hv)

/-- An answer is never taken back. -/
lemma iterate_eq_of_verdict {n k : ℕ} (h : ((next m)^[n] (start es)).verdict ≠ .undecided)
    (hnk : n ≤ k) : (next m)^[k] (start es) = (next m)^[n] (start es) :=
  iterate_eq_of_isHalted ((reachable_iterate m n).invariant.isHalted h) hnk

/-- Unless the search is refuted, what two known clauses resolve to is covered a round later, also
if it has come to its end before. -/
lemma Invariant.covers_resolvent (h : Invariant es s)
    (hverdict : (s.next m).verdict ≠ .unsatisfiable) {c d : Clause} (hc : c ∈ s.known)
    (hd : d ∈ s.known) (hne : c ≠ d) {l : Literal} (hl : l ∈ c) (hl' : l.complement ∈ d) :
    (s.next m).known.covers (Clause.resolvent l c d) = true := by
  cases hs : s.isHalted with
  | true =>
      rw [next_of_isHalted m hs] at hverdict ⊢
      exact (h.saturated (h.satisfiable hs hverdict)).2 c hc d hd hne l hl hl'
  | false =>
      have hstep := step_next m hs h.continuable
      exact hstep.covers_resolvent (fun _ => hverdict) h.met hc hd hne hl hl'

lemma covers_iterate (hj : s.journal.Continuable) {c : Clause} (hc : s.known.covers c = true)
    (n : ℕ) : ((next m)^[n] s).known.covers c = true :=
  iterate_induction hj hc (fun _ _ _ ih hstep => hstep.covers ih) n

end Search

end Saturation
