import Mathlib.Data.List.TakeDrop
import Mathlib.Data.List.TakeWhile
import Saturation.Proofs.Cover
import Saturation.Proofs.Resolvent
import Saturation.Round

/-!
# What a round comes to

A round scans its pairs and stops at the first that gives the empty clause.  `Outcome` says
without a scan what each ending means, and `outcome_run` that the round ends so: everything that
is proved of rounds starts from the four cases.

`pair_or_pair` is the other thing to know of a round: whichever two distinct clauses of the
frontier are taken, or one of the frontier and one seen before, they are a pair of the round one
way round or the other.  The order does not matter to a true resolution
(`exists_mem_conclusions`).
-/

namespace Saturation.Round

open ClauseSet

variable {m : Mode} {source : Provenance} {frontier seen : ClauseSet}

/-! ## Pairs -/

lemma mem_pairs {x y : Entry} : (x, y) ∈ pairs frontier seen ↔
    x ∈ frontier.entries ∧ (y ∈ frontier.above x.clause ∨ y ∈ seen.entries) := by
  simp only [pairs, List.mem_flatMap, List.mem_map, List.mem_append, Prod.mk.injEq]
  constructor
  · rintro ⟨x, hx, y, hy, rfl, rfl⟩
    exact ⟨hx, hy⟩
  · rintro ⟨hx, hy⟩
    exact ⟨x, hx, y, hy, rfl, rfl⟩

lemma fst_mem_of_mem_pairs {pair : Entry × Entry} (h : pair ∈ pairs frontier seen) :
    pair.1.clause ∈ frontier :=
  mem_iff.2 ⟨pair.1, (mem_pairs.1 h).1, rfl⟩

lemma snd_mem_of_mem_pairs {pair : Entry × Entry} (h : pair ∈ pairs frontier seen) :
    pair.2.clause ∈ seen ∪ frontier := by
  rw [mem_union]
  rcases (mem_pairs.1 h).2 with hy | hy
  · exact .inr (mem_iff.2 ⟨pair.2, (mem_above.1 hy).1, rfl⟩)
  · exact .inl (mem_iff.2 ⟨pair.2, hy, rfl⟩)

def clausesOf (pair : Entry × Entry) : Clause × Clause := (pair.1.clause, pair.2.clause)

/-- The pairs of a round, without provenance. -/
lemma map_pairs : (pairs frontier seen).map clausesOf = frontier.clauses.flatMap fun c =>
    (frontier.clauses.filter (compare · c == .gt) ++ seen.clauses).map (c, ·) := by
  simp only [pairs, clauses, List.map_flatMap, List.flatMap_map, List.map_map, List.filter_map,
    above_eq_filter, List.map_append, Function.comp_def, clausesOf]

/-- **Every two distinct clauses meet**, if one of them is of the frontier and the other is
known. -/
lemma pair_or_pair {c d : Clause} (hc : c ∈ frontier) (hd : d ∈ seen ∪ frontier) (hne : c ≠ d) :
    ∃ x y : Entry, x.clause = c ∧ y.clause = d ∧
      ((x, y) ∈ pairs frontier seen ∨ (y, x) ∈ pairs frontier seen) := by
  obtain ⟨x, hx, rfl⟩ := mem_iff.1 hc
  rcases mem_union.1 hd with hd | hd
  · obtain ⟨y, hy, rfl⟩ := mem_iff.1 hd
    exact ⟨x, y, rfl, rfl, .inl (mem_pairs.2 ⟨hx, .inr hy⟩)⟩
  · obtain ⟨y, hy, rfl⟩ := mem_iff.1 hd
    rcases above_or_above hx hy hne with h | h
    · exact ⟨x, y, rfl, rfl, .inl (mem_pairs.2 ⟨hx, .inl h⟩)⟩
    · exact ⟨x, y, rfl, rfl, .inr (mem_pairs.2 ⟨hy, .inl h⟩)⟩

/-- The true resolvents of two clauses that meet are among the conclusions of the round, whichever
way round the pair is. -/
lemma exists_mem_conclusions {c d : Clause} {l : Literal} (hc : c ∈ frontier)
    (hd : d ∈ seen ∪ frontier) (hne : c ≠ d) (hl : l ∈ c) (hl' : l.complement ∈ d) :
    ∃ pair ∈ pairs frontier seen, Clause.resolvent l c d ∈ conclusions m pair := by
  have hr : Clause.resolvent l c d ∈ Clause.conclusions .strict c d :=
    Clause.mem_conclusions_strict.2 ⟨l, hl, hl', rfl⟩
  obtain ⟨x, y, rfl, rfl, h | h⟩ := pair_or_pair hc hd hne
  · exact ⟨(x, y), h, Clause.mem_of_mem_strict hr⟩
  · exact ⟨(y, x), h, Clause.mem_of_mem_strict (Clause.mem_conclusions_strict_comm.1 hr)⟩

/-! ## Outcomes -/

/-- What the endings of a round mean. -/
inductive Outcome (m : Mode) (source : Provenance) (frontier seen : ClauseSet) : Round → Prop
  | emptyGiven (hgiven : ∅ ∈ frontier) : Outcome m source frontier seen .emptyGiven
  /-- The pair is the first that gives the empty clause. -/
  | emptyDerived {before after : List (Entry × Entry)} {x y : Entry} (hgiven : ∅ ∉ frontier)
      (hpairs : pairs frontier seen = before ++ (x, y) :: after)
      (hbefore : ∀ pair ∈ before, ∅ ∉ conclusions m pair) (hempty : ∅ ∈ conclusions m (x, y)) :
      Outcome m source frontier seen (.emptyDerived (before.length + 1) x y)
  /-- What the pairs give was covered already. -/
  | saturated (hgiven : ∅ ∉ frontier)
      (hempty : ∀ pair ∈ pairs frontier seen, ∅ ∉ conclusions m pair)
      (hcovered : ∀ pair ∈ pairs frontier seen, ∀ r ∈ conclusions m pair,
        (seen ∪ frontier).covers r = true) :
      Outcome m source frontier seen (.saturated (pairs frontier seen).length)
  /-- Exactly what was not covered is found. -/
  | fresh {found : ClauseSet} (hgiven : ∅ ∉ frontier)
      (hempty : ∀ pair ∈ pairs frontier seen, ∅ ∉ conclusions m pair)
      (hfound : ∀ r, r ∈ found ↔ ∃ pair ∈ pairs frontier seen,
        r ∈ conclusions m pair ∧ (seen ∪ frontier).covers r = false)
      (hsome : ∃ r, r ∈ found) (hsource : ∀ e ∈ found.entries, e.source = source) :
      Outcome m source frontier seen (.fresh (pairs frontier seen).length found)

/-- What a round finds: the conclusions of its pairs that nothing known covers. -/
def discoveries (m : Mode) (frontier seen : ClauseSet) : List Clause :=
  (pairs frontier seen).flatMap fun pair =>
    (conclusions m pair).clauses.filter (!(seen ∪ frontier).covers ·)

lemma mem_discoveries {r : Clause} : r ∈ discoveries m frontier seen ↔
    ∃ pair ∈ pairs frontier seen,
      r ∈ conclusions m pair ∧ (seen ∪ frontier).covers r = false := by
  simp [discoveries, mem_def]

lemma run_of_empty_mem (h : ∅ ∈ frontier) : run m source frontier seen = emptyGiven :=
  if_pos (hasEmpty_iff.2 h)

lemma run_of_forall_not_mem (hgiven : ∅ ∉ frontier)
    (h : ∀ pair ∈ pairs frontier seen, ∅ ∉ conclusions m pair) :
    run m source frontier seen =
      if (discoveries m frontier seen).isEmpty then saturated (pairs frontier seen).length
      else fresh (pairs frontier seen).length
        (.ofClauses source (discoveries m frontier seen)) := by
  have hall : ∀ pair ∈ pairs frontier seen, (!(conclusions m pair).hasEmpty) = true := by
    intro pair hpair
    rw [hasEmpty_eq_false_iff.2 (h pair hpair)]
    rfl
  rw [run, if_neg (by rwa [hasEmpty_iff])]
  simp only [List.span_eq_takeWhile_dropWhile, List.dropWhile_eq_nil_iff.2 hall]
  rfl

lemma run_of_append {before after : List (Entry × Entry)} {x y : Entry} (hgiven : ∅ ∉ frontier)
    (hpairs : pairs frontier seen = before ++ (x, y) :: after)
    (hbefore : ∀ pair ∈ before, ∅ ∉ conclusions m pair) (hempty : ∅ ∈ conclusions m (x, y)) :
    run m source frontier seen = emptyDerived (before.length + 1) x y := by
  have hall : ∀ pair ∈ before, (!(conclusions m pair).hasEmpty) = true := by
    intro pair hpair
    rw [hasEmpty_eq_false_iff.2 (hbefore pair hpair)]
    rfl
  have hxy : (!(conclusions m (x, y)).hasEmpty) = false := by
    rw [hasEmpty_iff.2 hempty]
    rfl
  rw [run, if_neg (by rwa [hasEmpty_iff])]
  simp only [List.span_eq_takeWhile_dropWhile, hpairs, List.takeWhile_append_of_pos hall,
    List.dropWhile_append_of_pos hall, List.takeWhile_cons, List.dropWhile_cons, hxy]
  simp

lemma exists_first {α : Type} {p : α → Prop} {l : List α} (h : ∃ a ∈ l, ¬ p a) :
    ∃ before a after, l = before ++ a :: after ∧ (∀ b ∈ before, p b) ∧ ¬ p a := by
  induction l with
  | nil => simp at h
  | cons b l ih =>
      by_cases hb : p b
      · obtain ⟨a, ha, hpa⟩ := h
        rcases List.mem_cons.1 ha with rfl | ha
        · exact absurd hb hpa
        · obtain ⟨before, a, after, rfl, hbefore, hpa⟩ := ih ⟨a, ha, hpa⟩
          refine ⟨b :: before, a, after, rfl, ?_, hpa⟩
          intro c hc
          rcases List.mem_cons.1 hc with rfl | hc
          · exact hb
          · exact hbefore c hc
      · exact ⟨[], b, l, rfl, by simp, hb⟩

/-- **A round ends as its outcome says.** -/
theorem outcome_run (m : Mode) (source : Provenance) (frontier seen : ClauseSet) :
    Outcome m source frontier seen (run m source frontier seen) := by
  by_cases hgiven : ∅ ∈ frontier
  · rw [run_of_empty_mem hgiven]
    exact .emptyGiven hgiven
  by_cases h : ∃ pair ∈ pairs frontier seen, ¬ ∅ ∉ conclusions m pair
  · obtain ⟨before, ⟨x, y⟩, after, hpairs, hbefore, hempty⟩ := exists_first h
    rw [not_not] at hempty
    rw [run_of_append hgiven hpairs hbefore hempty]
    exact .emptyDerived hgiven hpairs hbefore hempty
  have hempty : ∀ pair ∈ pairs frontier seen, ∅ ∉ conclusions m pair :=
    fun pair hpair hmem => h ⟨pair, hpair, not_not.2 hmem⟩
  rw [run_of_forall_not_mem hgiven hempty]
  split
  · next hnone =>
    refine .saturated hgiven hempty fun pair hpair r hr => ?_
    by_contra hcover
    have hmem : r ∈ discoveries m frontier seen :=
      mem_discoveries.2 ⟨pair, hpair, hr, Bool.eq_false_iff.2 hcover⟩
    rw [List.isEmpty_iff.1 hnone] at hmem
    simp at hmem
  · next hsome =>
    refine .fresh hgiven hempty (fun r => ?_) ?_ (fun e he => ?_)
    · rw [mem_ofClauses, mem_discoveries]
    · obtain ⟨r, hr⟩ := List.exists_mem_of_ne_nil _ (mt List.isEmpty_iff.2 hsome)
      exact ⟨r, mem_ofClauses.2 hr⟩
    · obtain ⟨c, _, rfl⟩ := List.mem_map.1 (Ascending.mem_of_mem_ofList _ he)
      rfl

end Saturation.Round
