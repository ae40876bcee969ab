import Saturation.Proofs.Cover

/-!
# Which provenance is kept

Of several entries for one clause the first one stays.  `mem_entries_ofEntries` says this of the
sets that are built from lists: an entry is in the set if the search for its clause in the list
finds this entry.  For unions it means that the left side is asked first what is known of a clause
(`mem_entries_union`).
-/

namespace Saturation

/-! ## Ascending lists -/

namespace Ascending

variable {α κ : Type} [Ord κ] [Std.TransOrd κ] [Std.LawfulEqOrd κ] {key : α → κ} {a x : α}
  {l : List α}

/-- An element is put in unless its key is there.  The list must ascend: the search for the place
stops at the first key that is not smaller. -/
lemma mem_insert_iff (h : Sorted key l) :
    x ∈ insert key a l ↔ x ∈ l ∨ x = a ∧ key a ∉ l.map key := by
  induction l with
  | nil => simp [insert]
  | cons b l ih =>
      have hb := List.pairwise_cons.1 h
      simp only [insert]
      split
      · next hab =>
        have hne : key a ∉ (b :: l).map key := by
          rw [List.mem_map]
          rintro ⟨c, hc, hca⟩
          have hlt : compare (key a) (key c) = .lt := by
            rcases List.mem_cons.1 hc with rfl | hc
            · exact hab
            · exact Std.TransCmp.lt_trans hab (hb.1 c hc)
          exact ne_of_compare_lt hlt hca.symm
        simp only [hne, not_false_eq_true, and_true, List.mem_cons (a := x) (b := a), or_comm]
      · next hab =>
        have heq : key a = key b := Std.LawfulEqCmp.eq_of_compare hab
        simp [heq]
      · next hab =>
        have hne : key a ≠ key b := by
          intro heq
          have hself : compare (key b) (key b) = .eq := Std.ReflCmp.compare_self
          rw [heq, hself] at hab
          cases hab
        rw [List.mem_cons, ih hb.2, List.mem_cons, List.map_cons, List.mem_cons, not_or, or_assoc]
        simp only [hne, not_false_eq_true, true_and]

variable [DecidableEq κ]

/-- What is inserted after others stays if it is the first with its key, by induction on what is
inserted. -/
lemma mem_foldl_insert_iff {sorted : List α} (h : Sorted key sorted) :
    x ∈ l.foldl (fun sorted a => insert key a sorted) sorted ↔
      x ∈ sorted ∨ key x ∉ sorted.map key ∧ l.find? (key · = key x) = some x := by
  induction l generalizing sorted with
  | nil => simp
  | cons a l ih =>
      rw [List.foldl_cons, ih (sorted_insert key h), mem_insert_iff h, mem_map_insert,
        List.find?_cons]
      by_cases hax : key a = key x
      · simp only [hax, true_or, not_true_eq_false, false_and, or_false, decide_true,
          Option.some.injEq, eq_comm (a := x), and_comm]
      · have hxa : ¬ x = a := fun heq => hax (heq ▸ rfl)
        have hkey : ¬ key x = key a := fun heq => hax heq.symm
        simp [hax, hxa, hkey]

/-- **The first one stays.** -/
theorem mem_ofList_iff : x ∈ ofList key l ↔ l.find? (key · = key x) = some x := by
  rw [ofList, mem_foldl_insert_iff (sorted_nil key)]
  simp

end Ascending

/-! ## Clause sets -/

namespace ClauseSet

variable {K L : ClauseSet} {e d : Entry}

/-- An entry is in the set of a list if it is the first one there for its clause. -/
theorem mem_entries_ofEntries {es : List Entry} :
    e ∈ (ofEntries es).entries ↔ es.find? (·.clause = e.clause) = some e :=
  Ascending.mem_ofList_iff

lemma mem_of_mem_entries (h : e ∈ K.entries) : e.clause ∈ K := mem_iff.2 ⟨e, h, rfl⟩

/-- A set has one entry for each of its clauses. -/
lemma eq_of_clause_eq (he : e ∈ K.entries) (hd : d ∈ K.entries) (h : e.clause = d.clause) :
    e = d :=
  K.ascending.eq_of_key_eq Entry.clause he hd h

/-- Where all entries have the same provenance, the clauses say it all. -/
lemma mem_entries_iff_of_source {source : Provenance}
    (hsource : ∀ e ∈ K.entries, e.source = source) :
    e ∈ K.entries ↔ e.clause ∈ K ∧ e.source = source := by
  constructor
  · exact fun he => ⟨mem_of_mem_entries he, hsource e he⟩
  · rintro ⟨hclause, hsame⟩
    obtain ⟨⟨c, source'⟩, hd, rfl⟩ := mem_iff.1 hclause
    obtain rfl : source' = e.source := (hsource _ hd).trans hsame.symm
    exact hd

lemma find?_clause_iff : K.entries.find? (·.clause = e.clause) = some e ↔ e ∈ K.entries := by
  constructor
  · exact List.mem_of_find?_eq_some
  · intro he
    cases hfind : K.entries.find? (·.clause = e.clause) with
    | none =>
        have hno := List.find?_eq_none.1 hfind e he
        simp at hno
    | some d =>
        have hd : d.clause = e.clause := by simpa using List.find?_some hfind
        rw [eq_of_clause_eq (List.mem_of_find?_eq_some hfind) he hd]

/-- **A union keeps the provenance of its left side.** -/
theorem mem_entries_union :
    e ∈ (K ∪ L).entries ↔ e ∈ K.entries ∨ e ∈ L.entries ∧ e.clause ∉ K := by
  rw [show K ∪ L = ofEntries (K.entries ++ L.entries) from rfl, mem_entries_ofEntries,
    List.find?_append, Option.or_eq_some_iff, find?_clause_iff, find?_clause_iff,
    List.find?_eq_none, and_comm]
  have hnone : (∀ d ∈ K.entries, ¬ decide (d.clause = e.clause) = true) ↔ e.clause ∉ K := by
    simp [mem_iff]
  rw [hnone]

end ClauseSet

end Saturation
