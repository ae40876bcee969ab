import Mathlib.Data.Nat.Choose.Basic
import Saturation.Proofs.RoundOutcome

/-!
# A strict round without its order

A round tries its pairs in an order and resolves each on the literals of its first clause.  Apart
from where it stops at the empty clause, neither matters.  The pairs of a strict round give the
resolvents of the clauses that meet in it, whichever way round a pair is
(`exists_mem_conclusions_iff`), and how many pairs there are follows from the sizes of the two sets
(`length_pairs`).

So the outcome follows from the members of the sets, up to the pair of an early end: the lemmas of
the last section have one ending each, and one of them applies to any round.
-/

namespace Saturation

open ClauseSet

variable {frontier seen : ClauseSet} {source : Provenance} {r : Clause}

/-! ## The number of pairs -/

/-- The entries above an entry are the ones after it. -/
lemma ClauseSet.above_eq {K : ClauseSet} {before after : List Entry} {x : Entry}
    (h : K.entries = before ++ x :: after) : K.above x.clause = after := by
  have hsorted : Ascending.Sorted Entry.clause (before ++ x :: after) := h ▸ K.ascending
  obtain ⟨-, hrest, hlt⟩ := List.pairwise_append.1 hsorted
  have hbefore : ∀ e ∈ before, ¬ (compare e.clause x.clause == .gt) = true := by
    intro e he
    rw [hlt e he x List.mem_cons_self]
    decide
  have hx : ¬ (compare x.clause x.clause == .gt) = true := by
    have hself : compare x.clause x.clause = .eq := Std.ReflCmp.compare_self
    rw [hself]
    decide
  have hafter : ∀ e ∈ after, (compare e.clause x.clause == .gt) = true := by
    intro e he
    rw [Std.OrientedCmp.gt_of_lt ((List.pairwise_cons.1 hrest).1 e he)]
    rfl
  rw [above_eq_filter, h, List.filter_append, List.filter_cons, if_neg hx,
    List.filter_eq_nil_iff.2 hbefore, List.filter_eq_self.2 hafter, List.nil_append]

namespace Round

/-- The pairs of the entries from some place on, by induction on these entries. -/
lemma length_flatMap_pairs (before : List Entry) {es : List Entry}
    (h : frontier.entries = before ++ es) :
    (es.flatMap fun x => (frontier.above x.clause ++ seen.entries).map (x, ·)).length =
      es.length.choose 2 + es.length * seen.size := by
  induction es generalizing before with
  | nil => simp
  | cons x es ih =>
      have hes : frontier.entries = (before ++ [x]) ++ es := by simpa using h
      have hchoose : (es.length + 1).choose 2 = es.length + es.length.choose 2 := by
        rw [Nat.choose_succ_succ', Nat.choose_one_right]
      rw [List.flatMap_cons, List.length_append, ih _ hes, above_eq h, List.length_map,
        List.length_append, List.length_cons, hchoose, Nat.succ_mul, ClauseSet.size]
      omega

/-- **There is a pair for any two of the frontier and for any one of it with any one seen.** -/
theorem length_pairs : (pairs frontier seen).length =
    frontier.size.choose 2 + frontier.size * seen.size :=
  length_flatMap_pairs [] rfl

/-! ## The resolvents -/

/-- The clause is a resolvent of two clauses that meet in the round. -/
def Resolves (frontier seen : ClauseSet) (r : Clause) : Prop :=
  ∃ c ∈ frontier, ∃ d, (d ∈ seen ∨ d ∈ frontier ∧ d ≠ c) ∧
    ∃ l ∈ c, l.complement ∈ d ∧ Clause.resolvent l c d = r

/-- **The pairs of a strict round give the resolvents.** -/
theorem exists_mem_conclusions_iff :
    (∃ pair ∈ pairs frontier seen, r ∈ conclusions .strict pair) ↔ Resolves frontier seen r := by
  constructor
  · rintro ⟨⟨x, y⟩, hpair, hr⟩
    obtain ⟨hx, hy⟩ := mem_pairs.1 hpair
    refine ⟨x.clause, mem_iff.2 ⟨x, hx, rfl⟩, y.clause, ?_, Clause.mem_conclusions_strict.1 hr⟩
    rcases hy with hy | hy
    · obtain ⟨hmem, habove⟩ := mem_above.1 hy
      refine .inr ⟨mem_iff.2 ⟨y, hmem, rfl⟩, ?_⟩
      intro heq
      have hself : compare x.clause x.clause = .eq := Std.ReflCmp.compare_self
      rw [heq, hself] at habove
      cases habove
    · exact .inl (mem_iff.2 ⟨y, hy, rfl⟩)
  · rintro ⟨c, hc, d, hd | ⟨hd, hne⟩, l, hl, hl', rfl⟩
    · obtain ⟨x, hx, rfl⟩ := mem_iff.1 hc
      obtain ⟨y, hy, rfl⟩ := mem_iff.1 hd
      exact ⟨(x, y), mem_pairs.2 ⟨hx, .inr hy⟩, Clause.mem_conclusions_strict.2 ⟨l, hl, hl', rfl⟩⟩
    · exact exists_mem_conclusions hc (mem_union.2 (.inr hd)) hne.symm hl hl'

/-! ## Outcomes -/

lemma exists_run_of_resolves_empty (source : Provenance) (hgiven : ∅ ∉ frontier)
    (h : Resolves frontier seen ∅) :
    ∃ tried x y, run .strict source frontier seen = emptyDerived tried x y := by
  obtain ⟨pair, hpair, hempty⟩ := exists_mem_conclusions_iff.2 h
  obtain ⟨before, ⟨x, y⟩, after, hpairs, hbefore, hxy⟩ :=
    exists_first (p := (∅ ∉ conclusions .strict ·)) ⟨pair, hpair, not_not.2 hempty⟩
  exact ⟨_, x, y, run_of_append hgiven hpairs hbefore (not_not.1 hxy)⟩

/-- Without the empty clause the round tries all pairs. -/
lemma run_of_not_resolves_empty (hgiven : ∅ ∉ frontier) (hempty : ¬ Resolves frontier seen ∅) :
    run .strict source frontier seen =
      if (discoveries .strict frontier seen).isEmpty then
        saturated (frontier.size.choose 2 + frontier.size * seen.size)
      else fresh (frontier.size.choose 2 + frontier.size * seen.size)
        (.ofClauses source (discoveries .strict frontier seen)) := by
  have hpairs : ∀ pair ∈ pairs frontier seen, ∅ ∉ conclusions .strict pair :=
    fun pair hpair hmem => hempty (exists_mem_conclusions_iff.1 ⟨pair, hpair, hmem⟩)
  rw [run_of_forall_not_mem hgiven hpairs, length_pairs]

lemma mem_discoveries_strict : r ∈ discoveries .strict frontier seen ↔
    Resolves frontier seen r ∧ (seen ∪ frontier).covers r = false := by
  rw [mem_discoveries, ← exists_mem_conclusions_iff]
  constructor
  · rintro ⟨pair, hpair, hr, hcover⟩
    exact ⟨⟨pair, hpair, hr⟩, hcover⟩
  · rintro ⟨⟨pair, hpair, hr⟩, hcover⟩
    exact ⟨pair, hpair, hr, hcover⟩

lemma run_of_covered (hgiven : ∅ ∉ frontier) (hempty : ¬ Resolves frontier seen ∅)
    (h : ∀ r, Resolves frontier seen r → (seen ∪ frontier).covers r = true) :
    run .strict source frontier seen =
      saturated (frontier.size.choose 2 + frontier.size * seen.size) := by
  have hnone : discoveries .strict frontier seen = [] := by
    refine List.eq_nil_iff_forall_not_mem.2 fun r hr => ?_
    obtain ⟨hr, hcover⟩ := mem_discoveries_strict.1 hr
    rw [h r hr] at hcover
    cases hcover
  rw [run_of_not_resolves_empty hgiven hempty, hnone]
  rfl

lemma exists_run_of_not_covered (source : Provenance) (hgiven : ∅ ∉ frontier)
    (hempty : ¬ Resolves frontier seen ∅) (hr : Resolves frontier seen r)
    (hcover : (seen ∪ frontier).covers r = false) :
    ∃ found, run .strict source frontier seen =
        fresh (frontier.size.choose 2 + frontier.size * seen.size) found ∧
      ∀ r, r ∈ found ↔ Resolves frontier seen r ∧ (seen ∪ frontier).covers r = false := by
  have hsome : (discoveries .strict frontier seen).isEmpty = false := by
    rw [List.isEmpty_eq_false_iff]
    exact List.ne_nil_of_mem (mem_discoveries_strict.2 ⟨hr, hcover⟩)
  refine ⟨.ofClauses source (discoveries .strict frontier seen), ?_, fun r => ?_⟩
  · rw [run_of_not_resolves_empty hgiven hempty, if_neg (by rw [hsome]; decide)]
  · rw [mem_ofClauses, mem_discoveries_strict]

end Round

end Saturation
