import Saturation.Proofs.ClauseOrder
import Saturation.Resolution
import Saturation.Semantics

/-!
# What a resolvent says

Two questions about the resolvents of a pair, in two groups.

**Which modes find it.**  The permissive mode tries more literals than the strict one, but what
it finds beyond the strict resolvents contains one of the two clauses
(`mem_strict_or_subset`), so it says nothing new.

**When it follows.**  A resolvent strikes out both literals of an atom from the union of two
clauses.  That is sound as long as each clause loses a literal the other one contradicts.  If one
clause holds both literals and the other one holds either, both clauses can be true by the same
literal and the resolvent false: the strike goes too far (`Overstrikes`).  In all other cases the
resolvent follows from the pair (`holds_resolvent`).
-/

namespace Saturation.Clause

variable {l k : Literal} {c d r : Clause} {m : Mode}

/-! ## Members -/

/-- If the two sides meet, exactly the two literals of the atom are struck out. -/
lemma mem_resolvent_of_meet (h : l.complement ∈ c ∪ d) :
    k ∈ resolvent l c d ↔ (k ∈ c ∨ k ∈ d) ∧ k ≠ l ∧ k ≠ l.complement := by
  rw [mem_resolvent]
  exact and_congr_right fun _ => ⟨fun hk => hk h, fun hk _ => hk⟩

lemma mem_or_mem_of_mem_resolvent (h : k ∈ resolvent l c d) : k ∈ c ∨ k ∈ d :=
  (mem_resolvent.1 h).1

lemma left_subset_resolvent (h : l.complement ∉ c ∪ d) : c ⊆ resolvent l c d :=
  fun _ hk => mem_resolvent.2 ⟨.inl hk, fun hmeet => absurd hmeet h⟩

lemma right_subset_resolvent (h : l ∉ d) (h' : l.complement ∉ d) : d ⊆ resolvent l c d := by
  intro k hk
  refine mem_resolvent.2 ⟨.inr hk, fun _ => ⟨?_, ?_⟩⟩
  · rintro rfl
    exact h hk
  · rintro rfl
    exact h' hk

lemma resolvent_comm (l : Literal) (c d : Clause) : resolvent l c d = resolvent l d c := by
  have hunion : c ∪ d = d ∪ c := ext_mem fun k => by rw [mem_union, mem_union, or_comm]
  rw [resolvent, resolvent, hunion]

/-- Where both literals of the atom occur, either of them may be tried. -/
lemma resolvent_complement (hl : l ∈ c ∪ d) (hmeet : l.complement ∈ c ∪ d) :
    resolvent l.complement c d = resolvent l c d := by
  have hmeet' : l.complement.complement ∈ c ∪ d := by rwa [Literal.complement_complement]
  refine ext_mem fun k => ?_
  rw [mem_resolvent_of_meet hmeet, mem_resolvent_of_meet hmeet', Literal.complement_complement]
  exact and_congr_right fun _ => and_comm

/-- A true resolution may be read from either side. -/
lemma resolvent_symm (hl : l ∈ c) (hd : l.complement ∈ d) :
    resolvent l.complement d c = resolvent l c d := by
  rw [resolvent_comm, resolvent_complement (mem_union.2 (.inl hl)) (mem_union.2 (.inr hd))]

/-! ## Strict and permissive resolvents -/

lemma mem_conclusions_strict :
    r ∈ conclusions .strict c d ↔ ∃ l ∈ c, l.complement ∈ d ∧ resolvent l c d = r := by
  simp [mem_conclusions, Mode.tries]

/-- Which clause comes first makes no difference to the strict mode: a literal of the one that meets
its complement in the other is tried from either side. -/
lemma mem_conclusions_strict_comm : r ∈ conclusions .strict c d ↔ r ∈ conclusions .strict d c := by
  have hswap : ∀ {c d : Clause}, r ∈ conclusions .strict c d → r ∈ conclusions .strict d c := by
    intro c d hr
    obtain ⟨l, hl, hl', rfl⟩ := mem_conclusions_strict.1 hr
    refine mem_conclusions_strict.2 ⟨l.complement, hl', ?_, resolvent_symm hl hl'⟩
    rwa [Literal.complement_complement]
  exact ⟨hswap, hswap⟩

lemma mem_conclusions_permissive :
    r ∈ conclusions .permissive c d ↔ ∃ l ∈ c, resolvent l c d = r := by
  simp [mem_conclusions, Mode.tries]

lemma mem_permissive_of_mem (h : r ∈ conclusions m c d) : r ∈ conclusions .permissive c d := by
  obtain ⟨l, hl, _, hr⟩ := mem_conclusions.1 h
  exact mem_conclusions_permissive.2 ⟨l, hl, hr⟩

lemma mem_of_mem_strict (h : r ∈ conclusions .strict c d) : r ∈ conclusions m c d := by
  cases m with
  | permissive => exact mem_permissive_of_mem h
  | strict => exact h

/-- **What only the permissive mode finds contains one of the two clauses.**  A tautology on the
tried atom is the one case that is not a plain union: if the other clause holds the literal, the
strict mode finds the same resolvent from the complement; if not, the other clause is left
whole. -/
lemma mem_strict_or_subset (h : r ∈ conclusions .permissive c d) :
    r ∈ conclusions .strict c d ∨ c ⊆ r ∨ d ⊆ r := by
  obtain ⟨l, hl, rfl⟩ := mem_conclusions_permissive.1 h
  by_cases hd : l.complement ∈ d
  · exact .inl (mem_conclusions_strict.2 ⟨l, hl, hd, rfl⟩)
  · by_cases hc : l.complement ∈ c
    · by_cases hld : l ∈ d
      · refine .inl (mem_conclusions_strict.2 ⟨l.complement, hc, ?_, ?_⟩)
        · rwa [Literal.complement_complement]
        · exact resolvent_complement (mem_union.2 (.inl hl)) (mem_union.2 (.inl hc))
      · exact .inr (.inr (right_subset_resolvent hld hd))
    · have hmeet : l.complement ∉ c ∪ d := by
        rw [mem_union]
        rintro (h | h)
        · exact hc h
        · exact hd h
      exact .inr (.inl (left_subset_resolvent hmeet))

/-! ## Soundness -/

/-- The strike goes too far: of the two clauses one holds both literals of the atom while the
other one holds either, and the resolvent is not true for other reasons. -/
def Overstrikes (l : Literal) (c d : Clause) : Prop :=
  (l ∈ d ∧ l.complement ∈ d ∨ l.complement ∈ c ∧ (l ∈ d ∨ l.complement ∈ d)) ∧
    (resolvent l c d).isTautology = false

instance (l : Literal) (c d : Clause) : Decidable (Overstrikes l c d) :=
  inferInstanceAs (Decidable (_ ∧ _))

lemma eq_or_eq_of_not_holds {v : Assignment} (h : ¬ (resolvent l c d).Holds v)
    (hk : k ∈ c ∨ k ∈ d) (hv : k.Holds v) : k = l ∨ k = l.complement := by
  by_contra hne
  rw [not_or] at hne
  exact h ⟨k, mem_resolvent.2 ⟨hk, fun _ => hne⟩, hv⟩

/-- **Unless the strike goes too far, the resolvent follows from the two clauses.**  If it were
false, each clause would be true by a literal that was struck out, and by the same one; so that
one is in both, and its complement in either. -/
theorem holds_resolvent {v : Assignment} (hl : l ∈ c) (hc : c.Holds v) (hd : d.Holds v)
    (h : ¬ Overstrikes l c d) : (resolvent l c d).Holds v := by
  by_contra hr
  have htaut : (resolvent l c d).isTautology = false := by
    by_contra htaut
    exact hr (holds_of_isTautology (Bool.not_eq_false _ ▸ htaut) v)
  have hmeet : l.complement ∈ c ∪ d := by
    by_contra hmeet
    exact hr (hc.of_subset (left_subset_resolvent hmeet))
  obtain ⟨i, hi, hiv⟩ := hc
  obtain ⟨j, hj, hjv⟩ := hd
  refine h ⟨?_, htaut⟩
  rcases eq_or_eq_of_not_holds hr (.inr hj) hjv with rfl | rfl
  · rcases mem_union.1 hmeet with hlc | hld
    · exact .inr ⟨hlc, .inl hj⟩
    · exact .inl ⟨hj, hld⟩
  · rcases eq_or_eq_of_not_holds hr (.inl hi) hiv with rfl | rfl
    · exact absurd hiv (Literal.holds_complement.1 hjv)
    · exact .inr ⟨hi, .inr hj⟩

end Saturation.Clause
