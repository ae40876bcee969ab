import Saturation.Covering
import Saturation.Proofs.ClauseOrder

/-!
# Covered clauses and minimal members

`covers_iff` and `mem_minimal` free the two redundancy tests from the scans that carry them out:
a clause is covered if a member is part of it, and a member is minimal if no other member is part
of it.  Covering is upward closed, and it passes through sets: what a set covers is covered by any
set that covers its members (`covers_of_covers`).  The minimal members cover what the whole set
covers (`covers_minimal`), so dropping the others loses nothing.
-/

namespace Saturation.ClauseSet

/-! ## Covering -/

/-- The scan may stop at the first larger entry, because those after it are larger still. -/
lemma coversAmong_iff {c : Clause} {es : List Entry} (h : Ascending.Sorted Entry.clause es) :
    coversAmong c es = true ↔ ∃ e ∈ es, e.clause ⊆ c := by
  induction es with
  | nil => simp [coversAmong]
  | cons e es ih =>
      have ih := ih (List.pairwise_cons.1 h).2
      simp only [coversAmong, Bool.and_eq_true, Bool.or_eq_true, decide_eq_true_eq, ih]
      constructor
      · rintro ⟨_, he | ⟨d, hd, hdc⟩⟩
        · exact ⟨e, List.mem_cons_self, he⟩
        · exact ⟨d, List.mem_cons_of_mem e hd, hdc⟩
      · rintro ⟨d, hd, hdc⟩
        have hsize := Clause.size_le_of_subset hdc
        rcases List.mem_cons.1 hd with rfl | hd
        · exact ⟨hsize, .inl hdc⟩
        · exact ⟨Nat.le_trans (size_le_of_sorted_cons h hd) hsize, .inr ⟨d, hd, hdc⟩⟩

/-- **A clause is covered if a member is part of it.** -/
theorem covers_iff {K : ClauseSet} {c : Clause} : K.covers c = true ↔ ∃ k ∈ K, k ⊆ c := by
  rw [covers, coversAmong_iff K.ascending]
  constructor
  · rintro ⟨e, he, hec⟩
    exact ⟨e.clause, mem_iff.2 ⟨e, he, rfl⟩, hec⟩
  · rintro ⟨k, hk, hkc⟩
    obtain ⟨e, he, rfl⟩ := mem_iff.1 hk
    exact ⟨e, he, hkc⟩

variable {K L : ClauseSet} {c d : Clause}

lemma covers_of_mem (h : c ∈ K) : K.covers c = true :=
  covers_iff.2 ⟨c, h, Clause.subset_refl c⟩

lemma covers_of_subset (h : K.covers c = true) (hcd : c ⊆ d) : K.covers d = true := by
  obtain ⟨k, hk, hkc⟩ := covers_iff.1 h
  exact covers_iff.2 ⟨k, hk, Clause.subset_trans hkc hcd⟩

lemma covers_of_covers (hKL : ∀ k ∈ K, L.covers k = true) (h : K.covers c = true) :
    L.covers c = true := by
  obtain ⟨k, hk, hkc⟩ := covers_iff.1 h
  exact covers_of_subset (hKL k hk) hkc

lemma covers_union_left (h : K.covers c = true) : (K ∪ L).covers c = true :=
  covers_of_covers (fun _ hk => covers_of_mem (mem_union.2 (.inl hk))) h

lemma covers_union_right (h : L.covers c = true) : (K ∪ L).covers c = true :=
  covers_of_covers (fun _ hk => covers_of_mem (mem_union.2 (.inr hk))) h

lemma covers_empty_iff : K.covers ∅ = true ↔ ∅ ∈ K := by
  constructor
  · intro h
    obtain ⟨k, hk, hempty⟩ := covers_iff.1 h
    rwa [Clause.subset_empty_iff.1 hempty] at hk
  · exact covers_of_mem

/-! ## Minimal members -/

lemma sorted_strike {e : Entry} {es : List Entry}
    (h : Ascending.Sorted Entry.clause (e :: es)) :
    Ascending.Sorted Entry.clause (strike e.clause es) :=
  Ascending.Sorted.sublist _ (strike_sublist e.clause es) (List.pairwise_cons.1 h).2

lemma mem_strike {x : Entry} {es : List Entry} :
    x ∈ strike c es ↔ x ∈ es ∧ ¬ c ⊂ x.clause := by
  simp [strike]

/-- Entries that were struck need not be sieved with: a part of such an entry is a part of all
that the entry is part of. -/
lemma mem_sieve {x : Entry} {es : List Entry} (h : Ascending.Sorted Entry.clause es) :
    x ∈ sieve es ↔ x ∈ es ∧ ∀ d ∈ es, ¬ d.clause ⊂ x.clause := by
  fun_induction sieve es with
  | case1 => simp
  | case2 e rest ih =>
      have hrest := (List.pairwise_cons.1 h).1
      simp only [List.mem_cons, ih (sorted_strike h), mem_strike, forall_eq_or_imp]
      constructor
      · rintro (rfl | ⟨⟨hx, hex⟩, hmin⟩)
        · refine ⟨.inl rfl, Clause.ssubset_irrefl _, fun d hd hdx => ?_⟩
          have hgt := Std.OrientedCmp.gt_of_lt (hrest d hd)
          rw [Clause.compare_eq_lt_of_ssubset hdx] at hgt
          cases hgt
        · refine ⟨.inr hx, hex, fun d hd hdx => ?_⟩
          by_cases hed : e.clause ⊂ d.clause
          · exact hex (Clause.ssubset_trans hed hdx)
          · exact hmin d ⟨hd, hed⟩ hdx
      · rintro ⟨rfl | hx, hex, hmin⟩
        · exact .inl rfl
        · exact .inr ⟨⟨hx, hex⟩, fun d hd => hmin d hd.1⟩

lemma mem_entries_minimal {x : Entry} :
    x ∈ K.minimal.entries ↔ x ∈ K.entries ∧ ∀ d ∈ K, ¬ d ⊂ x.clause := by
  rw [minimal, mem_sieve K.ascending]
  refine and_congr_right fun _ => ⟨fun h d hd => ?_, fun h d hd => h d.clause ?_⟩
  · obtain ⟨e, he, rfl⟩ := mem_iff.1 hd
    exact h e he
  · exact mem_iff.2 ⟨d, hd, rfl⟩

/-- **The minimal members are those without a proper part among the members.** -/
theorem mem_minimal : c ∈ K.minimal ↔ c ∈ K ∧ ∀ d ∈ K, ¬ d ⊂ c := by
  simp only [mem_iff (K := K.minimal), mem_entries_minimal, mem_iff (K := K) (c := c)]
  constructor
  · rintro ⟨e, ⟨he, hmin⟩, rfl⟩
    exact ⟨⟨e, he, rfl⟩, hmin⟩
  · rintro ⟨⟨e, he, rfl⟩, hmin⟩
    exact ⟨e, ⟨he, hmin⟩, rfl⟩

/-- Below every member there is a minimal one, by induction on the size of the member. -/
lemma exists_minimal_subset {k : Clause} (hk : k ∈ K) : ∃ d ∈ K.minimal, d ⊆ k := by
  induction hn : k.size using Nat.strongRecOn generalizing k with
  | ind n ih =>
      by_cases hmin : ∃ d ∈ K, d ⊂ k
      · obtain ⟨d, hd, hdk⟩ := hmin
        obtain ⟨b, hb, hbd⟩ := ih d.size (hn ▸ hdk.1) hd rfl
        exact ⟨b, hb, Clause.subset_trans hbd hdk.2⟩
      · have hmin : ∀ d ∈ K, ¬ d ⊂ k := fun d hd hdk => hmin ⟨d, hd, hdk⟩
        exact ⟨k, mem_minimal.2 ⟨hk, hmin⟩, Clause.subset_refl k⟩

/-- **Dropping the clauses that are not minimal uncovers nothing.** -/
@[simp]
theorem covers_minimal : K.minimal.covers c = K.covers c := by
  rw [Bool.eq_iff_iff]
  constructor
  · exact covers_of_covers fun k hk => covers_of_mem (mem_minimal.1 hk).1
  · refine covers_of_covers fun k hk => ?_
    obtain ⟨d, hd, hdk⟩ := exists_minimal_subset hk
    exact covers_iff.2 ⟨d, hd, hdk⟩

end Saturation.ClauseSet
