import Saturation.Proofs.Log

/-!
# Only the minimal given clauses count

What is given is a list, with labels, in some order, with repetitions and clauses that others are
part of.  None of this reaches the search but the clauses without a part among the others
(`iterate_eq_of_coveredBy`).

The reason is that provenance is carried along and never looked at.  Sets with the same clauses
have the same clauses after every operation, and the pairs of a round over such sets are made of
the same clauses in the same order (`map_pairs_congr`).  So the round comes to the same outcome up
to the provenance of the pair that it names (`run_alike`), and the journal, which has no provenance
in it, is the same.
-/

namespace Saturation

open ClauseSet

/-! ## Sets with the same clauses -/

namespace ClauseSet

variable {K L K' L' : ClauseSet} {c : Clause}

lemma mem_congr (h : K.clauses = L.clauses) : c ∈ K ↔ c ∈ L := by
  rw [mem_def, mem_def, h]

lemma size_congr (h : K.clauses = L.clauses) : K.size = L.size := by
  have hlength : K.clauses.length = L.clauses.length := congrArg List.length h
  rwa [clauses, clauses, List.length_map, List.length_map] at hlength

lemma covers_congr (h : K.clauses = L.clauses) : K.covers c = L.covers c := by
  rw [Bool.eq_iff_iff, covers_iff, covers_iff]
  simp only [mem_congr h]

lemma union_congr (h : K.clauses = L.clauses) (h' : K'.clauses = L'.clauses) :
    (K ∪ K').clauses = (L ∪ L').clauses :=
  clauses_eq_of_mem_iff fun c => by rw [mem_union, mem_union, mem_congr h, mem_congr h']

/-- **Sets that cover each other have the same minimal clauses.**  What covers a minimal clause in
the other set is covered by something in the first one, which can only be that clause again. -/
lemma minimal_congr (h : ∀ c ∈ K, L.covers c = true) (h' : ∀ c ∈ L, K.covers c = true) :
    K.minimal.clauses = L.minimal.clauses := by
  have hsub : ∀ {K L : ClauseSet}, (∀ c ∈ K, L.covers c = true) → (∀ c ∈ L, K.covers c = true) →
      ∀ c ∈ K.minimal, c ∈ L.minimal := by
    intro K L h h' c hc
    obtain ⟨hcK, hmin⟩ := mem_minimal.1 hc
    have heq : ∀ d ∈ L, d ⊆ c → d = c := by
      intro d hd hdc
      obtain ⟨k, hk, hkd⟩ := covers_iff.1 (h' d hd)
      have hkc : k = c := by
        by_contra hne
        exact hmin k hk (Clause.ssubset_iff.2 ⟨Clause.subset_trans hkd hdc, hne⟩)
      exact Clause.subset_antisymm hdc (hkc ▸ hkd)
    obtain ⟨d, hd, hdc⟩ := covers_iff.1 (h c hcK)
    refine mem_minimal.2 ⟨heq d hd hdc ▸ hd, fun e he hec => ?_⟩
    exact (Clause.ssubset_iff.1 hec).2 (heq e he hec.2)
  exact clauses_eq_of_mem_iff fun c => ⟨hsub h h' c, hsub h' h c⟩

end ClauseSet

/-! ## Rounds over the same clauses -/

namespace Round

variable {m : Mode} {source : Provenance} {F F' S S' : ClauseSet}

lemma map_pairs_congr (hF : F.clauses = F'.clauses) (hS : S.clauses = S'.clauses) :
    (pairs F S).map clausesOf = (pairs F' S').map clausesOf := by
  rw [map_pairs, map_pairs, hF, hS]

lemma length_pairs_congr (hF : F.clauses = F'.clauses) (hS : S.clauses = S'.clauses) :
    (pairs F S).length = (pairs F' S').length := by
  have hlength := congrArg List.length (map_pairs_congr hF hS)
  rwa [List.length_map, List.length_map] at hlength

lemma conclusions_congr {pair pair' : Entry × Entry} (h : clausesOf pair = clausesOf pair') :
    conclusions m pair = conclusions m pair' := by
  obtain ⟨hfst, hsnd⟩ := Prod.mk.inj h
  rw [conclusions, conclusions, hfst, hsnd]

lemma discoveries_congr (hF : F.clauses = F'.clauses) (hS : S.clauses = S'.clauses) :
    discoveries m F S = discoveries m F' S' := by
  have hmap : ∀ F S : ClauseSet, discoveries m F S =
      ((pairs F S).map clausesOf).flatMap fun p =>
        (Clause.conclusions m p.1 p.2).clauses.filter (!(S ∪ F).covers ·) := by
    intro F S
    rw [List.flatMap_map]
    rfl
  have hcovers : ∀ r, (S ∪ F).covers r = (S' ∪ F').covers r :=
    fun r => covers_congr (union_congr hS hF)
  rw [hmap, hmap, map_pairs_congr hF hS]
  simp only [hcovers]

/-- Two rounds that came to the same, up to the provenance of the last pair. -/
inductive Alike : Round → Round → Prop
  | emptyGiven : Alike .emptyGiven .emptyGiven
  | emptyDerived (tried : ℕ) (x y x' y' : Entry) :
      Alike (.emptyDerived tried x y) (.emptyDerived tried x' y')
  | saturated (tried : ℕ) : Alike (.saturated tried) (.saturated tried)
  | fresh (tried : ℕ) (found : ClauseSet) : Alike (.fresh tried found) (.fresh tried found)

lemma forall_not_mem_congr {ps qs : List (Entry × Entry)}
    (h : ps.map clausesOf = qs.map clausesOf) (hp : ∀ p ∈ ps, ∅ ∉ conclusions m p) :
    ∀ q ∈ qs, ∅ ∉ conclusions m q := by
  intro q hq
  have hmem : clausesOf q ∈ ps.map clausesOf := h ▸ List.mem_map_of_mem hq
  obtain ⟨p, hmem, hpq⟩ := List.mem_map.1 hmem
  rw [← conclusions_congr hpq]
  exact hp p hmem

/-- **A round looks at clauses only.** -/
theorem run_alike (m : Mode) (source : Provenance) (hF : F.clauses = F'.clauses)
    (hS : S.clauses = S'.clauses) : Alike (run m source F S) (run m source F' S') := by
  by_cases hgiven : ∅ ∈ F
  · rw [run_of_empty_mem hgiven, run_of_empty_mem ((mem_congr hF).1 hgiven)]
    exact .emptyGiven
  have hgiven' : ∅ ∉ F' := mt (mem_congr hF).2 hgiven
  have hpairs := map_pairs_congr hF hS
  by_cases h : ∃ pair ∈ pairs F S, ¬ ∅ ∉ conclusions m pair
  · obtain ⟨before, pair, after, hsplit, hbefore, hempty⟩ := exists_first h
    rw [not_not] at hempty
    -- the other round is split at the same place
    rw [hsplit, List.map_append, List.map_cons] at hpairs
    obtain ⟨before', rest', hsplit', hmap, hrest⟩ := List.map_eq_append_iff.1 hpairs.symm
    obtain ⟨pair', after', rfl, hpair, -⟩ := List.map_eq_cons_iff.1 hrest
    have hbefore' := forall_not_mem_congr hmap.symm hbefore
    have hempty' : ∅ ∈ conclusions m pair' := by rwa [conclusions_congr hpair]
    have hlength : before'.length = before.length := by
      simpa only [List.length_map] using congrArg List.length hmap
    rw [run_of_append hgiven hsplit hbefore hempty,
      run_of_append hgiven' hsplit' hbefore' hempty', hlength]
    exact .emptyDerived _ _ _ _ _
  · have hempty : ∀ pair ∈ pairs F S, ∅ ∉ conclusions m pair :=
      fun pair hpair hmem => h ⟨pair, hpair, not_not.2 hmem⟩
    rw [run_of_forall_not_mem hgiven hempty,
      run_of_forall_not_mem hgiven' (forall_not_mem_congr hpairs hempty),
      discoveries_congr hF hS, length_pairs_congr hF hS]
    split
    · exact .saturated _
    · exact .fresh _ _

end Round

/-! ## Searches over the same clauses -/

namespace Search

/-- Two searches with one log and the same clauses. -/
inductive Alike : Search → Search → Prop
  | logged {F F' S S' : ClauseSet} (g : Log) (hF : F.clauses = F'.clauses)
      (hS : S.clauses = S'.clauses) : Alike (logged F S g) (logged F' S' g)

variable {s t : Search} {F F' S S' : ClauseSet} {es es' : List Entry}

lemma conclude_alike (g : Log) (hF : F.clauses = F'.clauses) (hS : S.clauses = S'.clauses)
    {out out' : Round} (h : Round.Alike out out') :
    Alike (conclude F S g out) (conclude F' S' g out') := by
  -- the records hold the sizes of the sets, and the names of what both rounds found
  have hsizeF : F.size = F'.size := size_congr hF
  have hsizeS : S.size = S'.size := size_congr hS
  cases h with
  | emptyGiven =>
      rw [conclude, conclude, Log.add, Log.add, hsizeF, hsizeS]
      exact .logged _ hF hS
  | emptyDerived tried x y x' y' =>
      rw [conclude, conclude, Log.add, Log.add, hsizeF, hsizeS]
      exact .logged _ hF hS
  | saturated tried =>
      rw [conclude, conclude, Log.add, Log.add, hsizeF, hsizeS]
      exact .logged _ hF hS
  | fresh tried found =>
      have hunion : (S ∪ F).clauses = (S' ∪ F').clauses := union_congr hS hF
      have hknown : (S ∪ F).minimal.clauses = (S' ∪ F').minimal.clauses :=
        minimal_congr (fun c hc => covers_of_mem ((mem_congr hunion).1 hc))
          (fun c hc => covers_of_mem ((mem_congr hunion).2 hc))
      rw [conclude, conclude, Log.add, Log.add, size_congr hknown]
      exact .logged _ rfl hknown

lemma Alike.next (h : Alike s t) (m : Mode) : Alike (s.next m) (t.next m) := by
  obtain ⟨g, hF, hS⟩ := h
  cases hhalted : g.status.halted with
  | false =>
      obtain ⟨reason, hgoes⟩ := Status.exists_going hhalted
      rw [next_logged hgoes, next_logged hgoes]
      exact conclude_alike g hF hS (Round.run_alike m _ hF hS)
  | true =>
      rw [next_logged_of_halted m hhalted, next_logged_of_halted m hhalted]
      exact .logged g hF hS

lemma Alike.iterate (h : Alike s t) (m : Mode) (n : ℕ) :
    Alike ((Search.next m)^[n] s) ((Search.next m)^[n] t) :=
  iterate_related (fun h => h.next m) h n

lemma Alike.eq (h : Alike s t) : s.frontier.clauses = t.frontier.clauses ∧
    s.seen.clauses = t.seen.clauses ∧ s.journal = t.journal := by
  obtain ⟨g, hF, hS⟩ := h
  exact ⟨hF, hS, rfl⟩

/-! ## What is given -/

/-- Every clause of the first list has a part in the second one. -/
def CoveredBy (es es' : List Entry) : Prop := ∀ e ∈ es, ∃ d ∈ es', d.clause ⊆ e.clause

instance (es es' : List Entry) : Decidable (CoveredBy es es') :=
  inferInstanceAs (Decidable (∀ e ∈ es, _))

lemma CoveredBy.covers (h : CoveredBy es es') :
    ∀ c ∈ ofEntries es, (ofEntries es').covers c = true := by
  intro c hc
  obtain ⟨e, he, rfl⟩ := List.mem_map.1 (mem_ofEntries.1 hc)
  obtain ⟨d, hd, hde⟩ := h e he
  exact covers_iff.2 ⟨d.clause, mem_ofEntries.2 (List.mem_map_of_mem hd), hde⟩

lemma start_alike (h : CoveredBy es es') (h' : CoveredBy es' es) : Alike (start es) (start es') :=
  .logged {} (minimal_congr h.covers h'.covers) rfl

/-- **The search is fixed by the minimal ones of the given clauses.**  If two lists cover each
other, then after any number of rounds, in either mode each, the two searches have the same clauses
in the same order in either set, and the same journal. -/
theorem iterate_eq_of_coveredBy (h : CoveredBy es es') (h' : CoveredBy es' es) (m m' : Mode)
    (n : ℕ) :
    ((next m)^[n] (start es)).frontier.clauses = ((next m')^[n] (start es')).frontier.clauses ∧
      ((next m)^[n] (start es)).seen.clauses = ((next m')^[n] (start es')).seen.clauses ∧
      ((next m)^[n] (start es)).journal = ((next m')^[n] (start es')).journal := by
  rw [← Reachable.start.iterate_eq m m' n]
  exact ((start_alike h h').iterate m n).eq

/-- The unions of any two of three clauses, backwards: each clause is among them, and so are longer
ones that it is part of. -/
theorem iterate_eq_of_coveredBy_unions :
    let es := Sample.modusPonens.entries
    let unions := (es.flatMap fun e => es.map fun d => ⟨e.clause ∪ d.clause, d.source⟩).reverse
    CoveredBy es unions ∧ CoveredBy unions es ∧ unions.length = 9 ∧
      ((next .strict)^[2] (start es)).frontier.clauses =
        ((next .permissive)^[2] (start unions)).frontier.clauses ∧
      ((next .strict)^[2] (start es)).seen.clauses =
        ((next .permissive)^[2] (start unions)).seen.clauses ∧
      ((next .strict)^[2] (start es)).journal = ((next .permissive)^[2] (start unions)).journal :=
  have h : CoveredBy Sample.modusPonens.entries _ := by decide +kernel
  have h' : CoveredBy _ Sample.modusPonens.entries := by decide +kernel
  ⟨h, h', rfl, iterate_eq_of_coveredBy h h' .strict .permissive 2⟩

end Search

end Saturation
