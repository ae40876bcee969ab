import Saturation.Proofs.Termination

/-!
# No work is done twice

Clauses leave a search in several ways.  A given clause may have a part among the others, a known
one may get a part among the new ones, and a conclusion may be covered by what is known or by
another conclusion (`Search.Dropped`).  In each case something is left that covers it, and what is
covered stays so (`covers_row_of_le`).

A round that goes on puts nothing into the frontier that was covered before
(`Step.not_covers_of_mem_frontier`), and that is the only way for a clause to become known
(`Step.mem_known_of_covers`).  So whatever has been known, or was dropped, is never worked on again,
nor is any clause of which it is part (`coverage_grows`).
-/

namespace Saturation

open ClauseSet

/-- The one member that is part of a minimal clause is that clause. -/
lemma ClauseSet.eq_of_subset_minimal {K : ClauseSet} {c d : Clause} (hc : c ∈ K)
    (hd : d ∈ K.minimal) (h : c ⊆ d) : c = d := by
  by_contra hne
  exact (mem_minimal.1 hd).2 c hc (Clause.ssubset_iff.2 ⟨h, hne⟩)

namespace Search

variable {m : Mode} {s t : Search} {es : List Entry} {modes : ℕ → Mode} {c d : Clause} {i j n : ℕ}

/-! ## One step -/

/-- What was covered, though not known, does not become known. -/
lemma Step.mem_known_of_covers (h : Step m s t) (hcover : s.known.covers d = true)
    (hd : d ∈ t.known) : d ∈ s.known := by
  cases h with
  | refutes => exact hd
  | saturates => exact hd
  | continues _ _ hfound =>
      rcases mem_known.1 hd with hd | hd
      · exact (mem_minimal.1 hd).1
      · obtain ⟨_, _, _, huncovered⟩ := (hfound d).1 (mem_minimal.1 hd).1
        cases huncovered.symm.trans hcover

/-! ## Many rounds -/

/-- The searches that rounds lead to one after the other, each round in the mode of its number. -/
def row (modes : ℕ → Mode) (es : List Entry) : ℕ → Search
  | 0 => start es
  | n + 1 => (row modes es n).next (modes n)

lemma reachable_row (modes : ℕ → Mode) (es : List Entry) (n : ℕ) :
    Reachable es (row modes es n) := by
  induction n with
  | zero => exact .start
  | succ n ih => exact ih.next (modes n)

lemma continuable_row (modes : ℕ → Mode) (es : List Entry) (n : ℕ) :
    (row modes es n).journal.Continuable :=
  (reachable_row modes es n).invariant.continuable

/-- A round that goes on, as a step. -/
lemma step_row (hgoes : (row modes es (n + 1)).isHalted = false) :
    Step (modes n) (row modes es n) (row modes es (n + 1)) :=
  step_next (modes n) (isHalted_of_next hgoes) (continuable_row modes es n)

/-- **Coverage only grows**, by induction on the rounds between. -/
lemma covers_row_of_le (hij : i ≤ j) (hc : (row modes es i).known.covers c = true) :
    (row modes es j).known.covers c = true := by
  induction hij with
  | refl => exact hc
  | @step j _ ih => exact covers_iterate (m := modes j) (continuable_row modes es j) ih 1

/-- What is covered does not get into the frontier later. -/
lemma not_mem_frontier_of_covers (hij : i < j) (hgoes : (row modes es j).isHalted = false)
    (hcover : (row modes es i).known.covers d = true) : d ∉ (row modes es j).frontier := by
  intro hd
  obtain ⟨j, rfl⟩ := Nat.exists_eq_add_of_le' (Nat.one_le_of_lt hij)
  have hbefore := covers_row_of_le (Nat.le_of_lt_succ hij) hcover
  cases hbefore.symm.trans ((step_row hgoes).not_covers_of_mem_frontier hgoes hd)

/-- What is covered, though not known, does not become known later. -/
lemma not_mem_known_of_covers (hij : i ≤ j) (hcover : (row modes es i).known.covers d = true)
    (hd : d ∉ (row modes es i).known) : d ∉ (row modes es j).known := by
  induction hij with
  | refl => exact hd
  | @step j hij ih =>
      cases hs : (row modes es j).isHalted with
      | true =>
          rw [row, next_of_isHalted _ hs]
          exact ih
      | false =>
          have hstep := step_next (modes j) hs (continuable_row modes es j)
          exact fun hmem => ih (hstep.mem_known_of_covers (covers_row_of_le hij hcover) hmem)

/-! ## What is dropped -/

/-- The clause was dropped on the way to the search after so many rounds: before the first round as
a given clause, or by the last round, as a clause known before or as one of its conclusions. -/
inductive Dropped (modes : ℕ → Mode) (es : List Entry) : ℕ → Clause → Prop
  | given {c : Clause} (hgiven : ∃ e ∈ es, e.clause = c)
      (hgone : c ∉ (row modes es 0).frontier) : Dropped modes es 0 c
  | known {n : ℕ} {c : Clause} (hknown : c ∈ (row modes es n).known)
      (hgone : c ∉ (row modes es (n + 1)).known) : Dropped modes es (n + 1) c
  | concluded {n : ℕ} {c : Clause} {pair : Entry × Entry}
      (hpair : pair ∈ Round.pairs (row modes es n).frontier (row modes es n).seen)
      (hc : c ∈ Round.conclusions (modes n) pair)
      (hgoes : (row modes es (n + 1)).isHalted = false)
      (hgone : c ∉ (row modes es (n + 1)).frontier) : Dropped modes es (n + 1) c

/-- **What is dropped is covered.** -/
lemma Dropped.covers (h : Dropped modes es n c) : (row modes es n).known.covers c = true := by
  cases h with
  | given hgiven =>
      obtain ⟨e, he, rfl⟩ := hgiven
      exact (invariant_start es).given e he
  | @known n _ hknown => exact covers_row_of_le (Nat.le_succ n) (covers_of_mem hknown)
  | concluded hpair hc hgoes =>
      refine (step_row hgoes).covers_conclusion (fun hhalted => ?_) hpair hc
      cases hgoes.symm.trans hhalted

/-- What is dropped is not part of a clause of the frontier that is left. -/
lemma Dropped.not_subset (h : Dropped modes es n c) (hgoes : (row modes es n).isHalted = false)
    (hd : d ∈ (row modes es n).frontier) : ¬ c ⊆ d := by
  intro hcd
  cases h with
  | given hgiven hgone =>
      have hmem : c ∈ ClauseSet.ofEntries es := mem_ofEntries.2 (List.mem_map.2 hgiven)
      exact hgone (eq_of_subset_minimal hmem hd hcd ▸ hd)
  | @known n _ hknown =>
      have hcover := covers_of_subset (covers_of_mem hknown) hcd
      exact not_mem_frontier_of_covers (Nat.lt_succ_self n) hgoes hcover hd
  | @concluded n _ pair hpair hc _ hgone =>
      obtain ⟨found, hfound, -, -, -, hfrontier⟩ := (step_row hgoes).exists_found hgoes
      cases hcover : (row modes es n).known.covers c with
      | true =>
          exact not_mem_frontier_of_covers (Nat.lt_succ_self n) hgoes (covers_of_subset hcover hcd)
            hd
      | false =>
          have hmem : c ∈ found := (hfound c).2 ⟨pair, hpair, hc, hcover⟩
          have hmin : d ∈ found.minimal := hfrontier ▸ hd
          exact hgone (eq_of_subset_minimal hmem hmin hcd ▸ hd)

/-- **Coverage only grows, and no work is done twice.**  Along any row of rounds:

* every clause that is known at one time has a part among the clauses known at any later time;
* as long as the search goes on, no clause of a later frontier contains a clause known before, so no
  clause is in the frontier twice;
* no clause of a later frontier contains a clause that was dropped; and a clause that contains it
  and is not known any more, or was not known, never becomes known. -/
theorem coverage_grows (modes : ℕ → Mode) (es : List Entry) :
    (∀ i j, i ≤ j → ∀ c ∈ (row modes es i).known, ∃ d ∈ (row modes es j).known, d ⊆ c) ∧
    (∀ i j, i < j → (row modes es j).isHalted = false →
      (∀ c ∈ (row modes es i).known, ∀ d ∈ (row modes es j).frontier, ¬ c ⊆ d) ∧
        ∀ c ∈ (row modes es i).frontier, c ∉ (row modes es j).frontier) ∧
    ∀ i c, Dropped modes es i c →
      (∀ j, i ≤ j → (row modes es j).isHalted = false →
        ∀ d ∈ (row modes es j).frontier, ¬ c ⊆ d) ∧
      ∀ j, i ≤ j → ∀ d, c ⊆ d → d ∉ (row modes es i).known → d ∉ (row modes es j).known := by
  refine ⟨fun i j hij c hc => ?_, fun i j hij hgoes => ⟨fun c hc d hd hcd => ?_, fun c hc => ?_⟩,
    fun i c hdropped => ⟨fun j hij hgoes d hd hcd => ?_, fun j hij d hcd hd => ?_⟩⟩
  · exact covers_iff.1 (covers_row_of_le hij (covers_of_mem hc))
  · exact not_mem_frontier_of_covers hij hgoes (covers_of_subset (covers_of_mem hc) hcd) hd
  · exact not_mem_frontier_of_covers hij hgoes (covers_of_mem (mem_known.2 (.inr hc)))
  · rcases Nat.eq_or_lt_of_le hij with rfl | hij
    · exact hdropped.not_subset hgoes hd hcd
    · exact not_mem_frontier_of_covers hij hgoes (covers_of_subset hdropped.covers hcd) hd
  · exact not_mem_known_of_covers hij (covers_of_subset hdropped.covers hcd) hd

/-- The second round on this chain of implications drops a clause, because the first one has found a
part of it. -/
theorem coverage_grows_chain :
    let modes : ℕ → Mode := fun n => if n = 0 then .strict else .permissive
    let s := row modes Sample.chain.entries
    (s 2).isHalted = false ∧ (∀ c ∈ (s 0).known, ∃ d ∈ (s 2).known, d ⊆ c) ∧
      (∀ c ∈ (s 1).frontier, c ∉ (s 2).frontier) ∧
      ∃ c, Dropped modes Sample.chain.entries 2 c ∧ (∀ d ∈ (s 2).frontier, ¬ c ⊆ d) ∧
        c ∉ (s 3).known := by
  intro modes s
  have hgoes : (s 2).isHalted = false := by decide +kernel
  have hdrop : ∃ c ∈ (s 1).known.clauses, c ∉ (s 2).known := by decide +kernel
  obtain ⟨c, hknown, hgone⟩ := hdrop
  have hdropped : Dropped modes Sample.chain.entries 2 c := .known hknown hgone
  obtain ⟨hcovered, hfresh, hnever⟩ := coverage_grows modes Sample.chain.entries
  obtain ⟨hfrontier, hback⟩ := hnever 2 c hdropped
  exact ⟨hgoes, hcovered 0 2 (by decide), (hfresh 1 2 (by decide) hgoes).2, c, hdropped,
    hfrontier 2 le_rfl hgoes, hback 3 (by decide) c (Clause.subset_refl c) hgone⟩

end Search

end Saturation
