import Saturation.Proofs.Provenance

/-!
# Sets of clauses in canonical form

A set of clauses is an ascending list of entries, so its entries fix it and its clauses fix their
order.  What an operation makes is therefore known from the entries that are in it: those of a set
that is built from a list are the first ones for their clauses (`mem_entries_ofEntries`), those of a
union come from the left side first (`mem_entries_union`).  The laws of the operations follow from
the laws of "or" and "and", for entries where provenance counts (`union_assoc`), and for clauses
where it does not (`clauses_union_comm`).

Sets are compared by their members, one way and the other, and that comes to the same as comparing
their clauses in order (`sameClauses_iff_clauses_eq`).
-/

namespace Saturation.ClauseSet

variable {K L M : ClauseSet} {c : Clause} {e : Entry} {es : List Entry}

/-! ## Sets built from lists -/

/-- A clause that is given any number of times is in the set once. -/
lemma count_clauses_ofEntries :
    (ofEntries es).clauses.count c = if ∃ e ∈ es, e.clause = c then 1 else 0 := by
  rw [(nodup_clauses _).count]
  simp only [← mem_def, mem_ofEntries, List.mem_map]

/-! ## Equality -/

lemma sameClauses_iff : K.sameClauses L = true ↔ ∀ c, c ∈ K ↔ c ∈ L := by
  simp only [sameClauses, Bool.and_eq_true, List.all_eq_true, decide_eq_true_eq, ← mem_def]
  constructor
  · rintro ⟨hKL, hLK⟩ c
    exact ⟨hKL c, hLK c⟩
  · intro h
    exact ⟨fun c => (h c).1, fun c => (h c).2⟩

/-- **Sets with the same members have them in the same order.** -/
lemma sameClauses_iff_clauses_eq : K.sameClauses L = true ↔ K.clauses = L.clauses := by
  rw [sameClauses_iff]
  constructor
  · exact clauses_eq_of_mem_iff
  · intro h c
    rw [mem_def, mem_def, h]

/-! ## The empty clause -/

lemma hasEmpty_iff_exists_isEmpty :
    K.hasEmpty = true ↔ ∃ e ∈ K.entries, e.clause.isEmpty = true := by
  simp only [hasEmpty_iff, mem_iff, Clause.isEmpty_iff]

/-! ## Unions and differences -/

/-- **Unions may be bracketed in any way**, also for the provenance: the leftmost set that holds a
clause has its say. -/
lemma union_assoc (K L M : ClauseSet) : K ∪ L ∪ M = K ∪ (L ∪ M) := by
  refine ext_entries fun e => ?_
  simp only [mem_entries_union, mem_union]
  tauto

/-- Exchanging the sides may change the provenance and nothing else. -/
lemma clauses_union_comm (K L : ClauseSet) : (K ∪ L).clauses = (L ∪ K).clauses :=
  clauses_eq_of_mem_iff fun c => by rw [mem_union, mem_union, or_comm]

lemma mem_entries_sdiff : e ∈ (K \ L).entries ↔ e ∈ K.entries ∧ e.clause ∉ L := by
  rw [show K \ L = K.filter (·.clause ∉ L) from rfl]
  simp [filter]

/-- **Collections of clauses are canonical ordered sets.**

* A collection that is built from a list ascends strictly.  It holds every clause of the list once,
  and no others, each with the step and the label of its first occurrence.
* Two collections are equal exactly if they have the same clauses in the same order.
* A collection says that it holds the empty clause exactly if one of its clauses is empty.
* A union holds the clauses of both sides, with the metadata of the left side where both have the
  clause.  Unions are associative, metadata included, and commutative up to metadata.
* A difference holds the entries of its left side whose clauses are not in the right one. -/
theorem canonical_exact :
    (∀ es : List Entry,
      (ofEntries es).entries.Pairwise (fun d e => compare d.clause e.clause = .lt) ∧
      (∀ c, (ofEntries es).clauses.count c = if ∃ e ∈ es, e.clause = c then 1 else 0) ∧
      ∀ e, e ∈ (ofEntries es).entries ↔ es.find? (·.clause = e.clause) = some e) ∧
    (∀ K L : ClauseSet, K.sameClauses L = true ↔ K.clauses = L.clauses) ∧
    (∀ K : ClauseSet, K.hasEmpty = true ↔ ∃ e ∈ K.entries, e.clause.isEmpty = true) ∧
    (∀ K L : ClauseSet, (∀ c, c ∈ K ∪ L ↔ c ∈ K ∨ c ∈ L) ∧
      ∀ e, e ∈ (K ∪ L).entries ↔ e ∈ K.entries ∨ e ∈ L.entries ∧ e.clause ∉ K) ∧
    (∀ K L M : ClauseSet, K ∪ L ∪ M = K ∪ (L ∪ M)) ∧
    (∀ K L : ClauseSet, (K ∪ L).clauses = (L ∪ K).clauses ∧
      (K ∪ L).sameClauses (L ∪ K) = true) ∧
    ∀ K L : ClauseSet, (∀ c, c ∈ K \ L ↔ c ∈ K ∧ c ∉ L) ∧
      ∀ e, e ∈ (K \ L).entries ↔ e ∈ K.entries ∧ e.clause ∉ L := by
  refine ⟨fun es => ⟨(ofEntries es).ascending, fun c => count_clauses_ofEntries,
      fun e => mem_entries_ofEntries⟩,
    fun K L => sameClauses_iff_clauses_eq, fun K => hasEmpty_iff_exists_isEmpty,
    fun K L => ⟨fun c => mem_union, fun e => mem_entries_union⟩, union_assoc, fun K L => ?_,
    fun K L => ⟨fun c => mem_sdiff, fun e => mem_entries_sdiff⟩⟩
  have hcomm := clauses_union_comm K L
  exact ⟨hcomm, sameClauses_iff_clauses_eq.2 hcomm⟩

end Saturation.ClauseSet
