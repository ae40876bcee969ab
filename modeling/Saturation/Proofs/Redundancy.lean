import Saturation.Proofs.Provenance
import Saturation.Samples
import Saturation.Semantics

/-!
# What is redundant

Next to a part of itself a clause says nothing new.  Two scans look for such clauses, and both rest
on the order of the members, by size first.

**In a set.**  `minimal` strikes what lies behind a clause and contains it, and passes over what was
struck.  What it keeps are the members without a proper part among the members, each with its
provenance, and they say what the whole set says (`minimal_exact`).

**Before a set.**  `covers` stops at the first larger member.  It finds a part of the clause if
there is one, and it makes no difference whether the redundant members are there (`covers_exact`).
-/

namespace Saturation.ClauseSet

variable {K : ClauseSet} {c : Clause} {e : Entry} {v : Assignment}

/-! ## The minimal members -/

/-- Every member that is not kept contains one that is. -/
lemma exists_minimal_of_not_mem (hc : c ∈ K) (hgone : c ∉ K.minimal) :
    ∃ d ∈ K.minimal, d ⊆ c ∧ d ≠ c := by
  obtain ⟨d, hd, hdc⟩ := exists_minimal_subset hc
  refine ⟨d, hd, hdc, ?_⟩
  rintro rfl
  exact hgone hd

/-- **Nothing is lost**: what is kept implies the rest. -/
lemma satisfies_minimal_iff : Satisfies v K.minimal.entries ↔ Satisfies v K.entries := by
  constructor
  · intro h e he
    obtain ⟨d, hd, hde⟩ := exists_minimal_subset (mem_of_mem_entries he)
    obtain ⟨x, hx, rfl⟩ := mem_iff.1 hd
    exact (h x hx).of_subset hde
  · intro h e he
    exact h e (mem_entries_minimal.1 he).1

/-- Once the redundant clauses are gone there are none left. -/
lemma minimal_minimal (K : ClauseSet) : K.minimal.minimal = K.minimal := by
  refine ext_entries fun e => ?_
  rw [mem_entries_minimal (K := K.minimal), and_iff_left_iff_imp]
  intro he d hd
  exact (mem_entries_minimal.1 he).2 d (mem_minimal.1 hd).1

/-- **What is kept is exactly what is minimal.**

* The entries that are kept are those of the members without a proper part among the members, in
  ascending order, with step and label as they were.
* Every member that is dropped properly contains one that is kept.
* The same assignments make all members true and all that are kept.
* Doing it again changes nothing. -/
theorem minimal_exact (K : ClauseSet) :
    (∀ e, e ∈ K.minimal.entries ↔ e ∈ K.entries ∧ ¬ ∃ d ∈ K, d ⊆ e.clause ∧ d ≠ e.clause) ∧
    K.minimal.entries.Pairwise (fun d e => compare d.clause e.clause = .lt) ∧
    (∀ c ∈ K, c ∉ K.minimal → ∃ d ∈ K.minimal, d ⊆ c ∧ d ≠ c) ∧
    (∀ v, Satisfies v K.entries ↔ Satisfies v K.minimal.entries) ∧
    K.minimal.minimal = K.minimal := by
  refine ⟨fun e => ?_, K.minimal.ascending, fun c => exists_minimal_of_not_mem,
    fun v => satisfies_minimal_iff.symm, minimal_minimal K⟩
  rw [mem_entries_minimal]
  simp only [Clause.ssubset_iff, not_exists, not_and]

section

open Sample (pos neg entry)

def calm : Atom := ⟨"calm", by decide⟩

def gale : Atom := ⟨"gale", by decide⟩

/-- Three clauses that contain one another, the widest of them a tautology, and a fourth. -/
def nested : ClauseSet :=
  .ofEntries [entry "wide" [pos calm, neg calm, pos gale], entry "middle" [pos calm, pos gale],
    entry "narrow" [pos calm], entry "other" [neg gale]]

theorem minimal_exact_nested :
    let wide : Clause := .ofLiterals [pos calm, neg calm, pos gale]
    entry "narrow" [pos calm] ∈ nested.minimal.entries ∧
      (wide ∈ nested ∧ wide ∉ nested.minimal ∧ ∃ d ∈ nested.minimal, d ⊆ wide ∧ d ≠ wide) ∧
      (∀ v, Satisfies v nested.entries ↔ Satisfies v nested.minimal.entries) ∧
      nested.minimal.minimal = nested.minimal := by
  intro wide
  obtain ⟨hkept, -, hdropped, hmodels, hagain⟩ := minimal_exact nested
  have hentries : nested.entries = [entry "narrow" [pos calm], entry "other" [neg gale],
    entry "middle" [pos calm, pos gale], entry "wide" [pos calm, neg calm, pos gale]] := rfl
  have hminimal : ¬ ∃ d ∈ nested.clauses, d ⊆ .ofLiterals [pos calm] ∧
      d ≠ .ofLiterals [pos calm] := by
    decide +kernel
  have hmem : wide ∈ nested := by decide +kernel
  have hgone : wide ∉ nested.minimal := by decide +kernel
  exact ⟨(hkept _).2 ⟨hentries ▸ List.mem_cons_self, hminimal⟩,
    ⟨hmem, hgone, hdropped wide hmem hgone⟩, hmodels, hagain⟩

end

/-! ## Covered clauses -/

/-- In an ascending list the smaller entries form a front, so no smaller one is missed by stopping
at the first that is not smaller. -/
lemma takeWhile_size_eq_filter {n : ℕ} {es : List Entry}
    (h : Ascending.Sorted Entry.clause es) :
    (es.takeWhile fun e => e.clause.size < n) = es.filter fun e => e.clause.size < n := by
  induction es with
  | nil => rfl
  | cons e es ih =>
      by_cases he : e.clause.size < n
      · simp [he, ih (List.pairwise_cons.1 h).2]
      · have hlarge : ∀ d ∈ es, ¬ d.clause.size < n := by
          intro d hd
          have hsize := size_le_of_sorted_cons h hd
          omega
        simpa [he] using hlarge

/-- A part of a clause is the clause itself or smaller. -/
lemma covers_iff_mem_or_smaller :
    K.covers c = true ↔ c ∈ K ∨ ∃ e ∈ K.entries, e.clause.size < c.size ∧ e.clause ⊆ c := by
  rw [covers_iff]
  constructor
  · rintro ⟨k, hk, hkc⟩
    by_cases heq : k = c
    · exact .inl (heq ▸ hk)
    · obtain ⟨e, he, rfl⟩ := mem_iff.1 hk
      exact .inr ⟨e, he, Clause.ssubset_iff.2 ⟨hkc, heq⟩⟩
  · rintro (hc | ⟨e, he, -, hec⟩)
    · exact ⟨c, hc, Clause.subset_refl c⟩
    · exact ⟨e.clause, mem_of_mem_entries he, hec⟩

/-- **A clause is covered exactly if a member is part of it.**  The redundant members do not matter.
Looking the clause up, and then only among the members before the first one that is not smaller, is
enough. -/
theorem covers_exact (K : ClauseSet) (c : Clause) :
    (K.covers c = true ↔ ∃ k ∈ K, k ⊆ c) ∧
    K.covers c = K.minimal.covers c ∧
    K.covers c = (decide (c ∈ K) ||
      (K.entries.takeWhile fun e => e.clause.size < c.size).any fun e => e.clause ⊆ c) := by
  refine ⟨covers_iff, covers_minimal.symm, ?_⟩
  rw [Bool.eq_iff_iff, covers_iff_mem_or_smaller, takeWhile_size_eq_filter K.ascending]
  simp

end Saturation.ClauseSet
