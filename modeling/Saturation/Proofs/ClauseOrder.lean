import Mathlib.Data.List.Perm.Subperm
import Saturation.ClauseSet

/-!
# What the order of clauses gives

Clauses are ordered by size first, so the order extends inclusion: a proper part of a clause lies
below it (`compare_eq_lt_of_ssubset`).  Two shortcuts of clause sets rest on that.  The empty
clause is a member exactly if it is the first one (`hasEmpty_iff`), and the entries above a clause
are what is left once the entries up to it are dropped (`above_eq_filter`).
-/

namespace Saturation

namespace Clause

lemma nodup_literals (c : Clause) : c.literals.Nodup := c.ascending.nodup id

/-! ## Size and inclusion -/

lemma size_le_of_subset {c d : Clause} (h : c ⊆ d) : c.size ≤ d.size :=
  (c.nodup_literals.subperm h).length_le

lemma eq_of_subset_of_size_le {c d : Clause} (h : c ⊆ d) (hsize : d.size ≤ c.size) : c = d := by
  have hperm : c.literals.Perm d.literals :=
    (c.nodup_literals.subperm h).perm_of_length_le hsize
  exact ext_mem fun l => hperm.mem_iff

@[simp]
lemma size_empty : (∅ : Clause).size = 0 := rfl

lemma eq_empty_of_size_eq_zero {c : Clause} (h : c.size = 0) : c = ∅ :=
  Clause.ext (List.eq_nil_of_length_eq_zero h)

lemma empty_subset (c : Clause) : ∅ ⊆ c := by
  intro l hl
  exact absurd hl (not_mem_empty l)

lemma subset_empty_iff {c : Clause} : c ⊆ ∅ ↔ c = ∅ := by
  constructor
  · intro h
    exact subset_antisymm h (empty_subset c)
  · rintro rfl
    exact subset_refl ∅

/-- The size is only a quick test: a proper part is a part that is not the whole. -/
lemma ssubset_iff {c d : Clause} : c ⊂ d ↔ c ⊆ d ∧ c ≠ d := by
  constructor
  · rintro ⟨hsize, hsub⟩
    refine ⟨hsub, ?_⟩
    rintro rfl
    omega
  · rintro ⟨hsub, hne⟩
    refine ⟨?_, hsub⟩
    by_contra hsize
    exact hne (eq_of_subset_of_size_le hsub (by omega))

lemma ssubset_irrefl (c : Clause) : ¬ c ⊂ c := by
  rintro ⟨hsize, _⟩
  omega

lemma ssubset_trans {b c d : Clause} (h : b ⊂ c) (h' : c ⊂ d) : b ⊂ d :=
  ⟨Nat.lt_trans h.1 h'.1, subset_trans h.2 h'.2⟩

/-! ## Size and order -/

lemma compare_def (c d : Clause) :
    compare c d = (compare c.size d.size).then (compare c.literals d.literals) := rfl

lemma size_le_of_compare_eq_lt {c d : Clause} (h : compare c d = .lt) : c.size ≤ d.size := by
  rw [compare_def, Ordering.then_eq_lt] at h
  rcases h with h | ⟨h, _⟩
  · exact Nat.le_of_lt (Nat.compare_eq_lt.1 h)
  · exact Nat.le_of_eq (Nat.compare_eq_eq.1 h)

/-- **The order extends inclusion.** -/
lemma compare_eq_lt_of_ssubset {c d : Clause} (h : c ⊂ d) : compare c d = .lt := by
  rw [compare_def, Nat.compare_eq_lt.2 h.1]
  rfl

end Clause

namespace ClauseSet

lemma ascending_clauses (K : ClauseSet) : Ascending.Sorted id K.clauses :=
  List.pairwise_map.2 K.ascending

lemma nodup_clauses (K : ClauseSet) : K.clauses.Nodup := (ascending_clauses K).nodup id

/-- The members fix the clauses and their order. -/
lemma clauses_eq_of_mem_iff {K L : ClauseSet} (h : ∀ c, c ∈ K ↔ c ∈ L) : K.clauses = L.clauses :=
  (ascending_clauses K).eq_of_mem_iff id (ascending_clauses L) h

/-- The entries fix the set. -/
lemma ext_entries {K L : ClauseSet} (h : ∀ e, e ∈ K.entries ↔ e ∈ L.entries) : K = L :=
  ClauseSet.ext (K.ascending.eq_of_mem_iff Entry.clause L.ascending h)

lemma size_le_of_sorted_cons {e d : Entry} {es : List Entry}
    (h : Ascending.Sorted Entry.clause (e :: es)) (hd : d ∈ es) :
    e.clause.size ≤ d.clause.size :=
  Clause.size_le_of_compare_eq_lt ((List.pairwise_cons.1 h).1 d hd)

/-! ## The empty clause -/

/-- **Looking at the first entry is enough**: nothing comes before the empty clause. -/
lemma hasEmpty_iff {K : ClauseSet} : K.hasEmpty = true ↔ ∅ ∈ K := by
  obtain ⟨es, hes⟩ := K
  cases es with
  | nil => simp [hasEmpty, first?, mem_def, clauses]
  | cons e es =>
      have hfirst : hasEmpty ⟨e :: es, hes⟩ = e.clause.isEmpty := rfl
      rw [hfirst, Clause.isEmpty_iff, mem_iff]
      constructor
      · intro h
        exact ⟨e, List.mem_cons_self, h⟩
      · rintro ⟨d, hd, hempty⟩
        rcases List.mem_cons.1 hd with rfl | hd
        · exact hempty
        · have hsize := size_le_of_sorted_cons hes hd
          rw [hempty, Clause.size_empty] at hsize
          exact Clause.eq_empty_of_size_eq_zero (Nat.le_zero.1 hsize)

lemma hasEmpty_eq_false_iff {K : ClauseSet} : K.hasEmpty = false ↔ ∅ ∉ K := by
  rw [← hasEmpty_iff, Bool.not_eq_true]

/-! ## The entries above a clause -/

/-- In an ascending list the entries above a clause form a tail, so dropping the others from the
front loses none of them. -/
lemma dropWhile_eq_filter {c : Clause} {es : List Entry}
    (h : Ascending.Sorted Entry.clause es) :
    (es.dropWhile fun e => compare e.clause c != .gt) =
      es.filter fun e => compare e.clause c == .gt := by
  induction es with
  | nil => rfl
  | cons e es ih =>
      have hes := List.pairwise_cons.1 h
      by_cases he : compare e.clause c = .gt
      · have hall : ∀ d ∈ es, compare d.clause c = .gt := by
          intro d hd
          have hed : compare d.clause e.clause = .gt := Std.OrientedCmp.gt_of_lt (hes.1 d hd)
          exact Std.TransCmp.gt_trans hed he
        have htail : (es.filter fun d => compare d.clause c == .gt) = es :=
          List.filter_eq_self.2 fun d hd => by simp [hall d hd]
        simp [he, htail]
      · simp [he, ih hes.2]

lemma above_eq_filter (K : ClauseSet) (c : Clause) :
    K.above c = K.entries.filter fun e => compare e.clause c == .gt :=
  dropWhile_eq_filter K.ascending

lemma mem_above {K : ClauseSet} {c : Clause} {e : Entry} :
    e ∈ K.above c ↔ e ∈ K.entries ∧ compare e.clause c = .gt := by
  simp [above_eq_filter]

lemma above_or_above {K : ClauseSet} {d e : Entry} (hd : d ∈ K.entries) (he : e ∈ K.entries)
    (hne : d.clause ≠ e.clause) : e ∈ K.above d.clause ∨ d ∈ K.above e.clause := by
  cases h : compare d.clause e.clause with
  | lt => exact .inl (mem_above.2 ⟨he, Std.OrientedCmp.gt_of_lt h⟩)
  | eq => exact absurd (Std.LawfulEqCmp.eq_of_compare h) hne
  | gt => exact .inr (mem_above.2 ⟨hd, h⟩)

end ClauseSet

end Saturation
