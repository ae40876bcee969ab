import Mathlib.Data.Finset.Powerset
import Saturation.Proofs.Closure
import Saturation.Proofs.Uncapped
import Saturation.Samples

/-!
# A search comes to an end

The sets come and go: seen clauses are dropped and the frontier may grow.  What only grows is the
collection of the sets of literals that a known clause is part of, among all sets over the
literals of the start (`ClauseSet.coveredIn`).  A round that goes on finds a clause that was not
covered, and its own literals are such a set; so the collection grows with every round that goes on
(`Step.card_coveredIn_lt`).

Over `n` atoms there are `4 ^ n` sets.  The empty one is never covered while the search goes on,
which leaves one round for the end.
-/

namespace Saturation

open ClauseSet

/-! ## Counting what is covered -/

/-- The sets of literals among the given ones that a member is part of. -/
def ClauseSet.coveredIn (U : Finset Literal) (K : ClauseSet) : Finset (Finset Literal) :=
  U.powerset.filter fun T => ∃ k ∈ K.clauses, ∀ l ∈ k.literals, l ∈ T

namespace ClauseSet

variable {U : Finset Literal} {K L : ClauseSet}

lemma mem_coveredIn {T : Finset Literal} :
    T ∈ K.coveredIn U ↔ T ⊆ U ∧ ∃ k ∈ K, ∀ l ∈ k, l ∈ T := by
  rw [coveredIn, Finset.mem_filter, Finset.mem_powerset]
  rfl

/-- Without the empty clause at least the empty set is left. -/
lemma card_coveredIn_lt (h : ∅ ∉ K) : (K.coveredIn U).card < 2 ^ U.card := by
  rw [← Finset.card_powerset]
  refine Finset.card_lt_card (Finset.ssubset_iff_subset_ne.2 ⟨Finset.filter_subset _ _, ?_⟩)
  intro heq
  have hmem : ∅ ∈ K.coveredIn U := heq ▸ Finset.empty_mem_powerset U
  obtain ⟨_, k, hk, hsub⟩ := mem_coveredIn.1 hmem
  have hempty : k = ∅ := by
    refine Clause.subset_empty_iff.1 fun l hl => ?_
    simpa using hsub l hl
  exact h (hempty ▸ hk)

lemma coveredIn_subset (h : ∀ k ∈ K, L.covers k = true) : K.coveredIn U ⊆ L.coveredIn U := by
  intro T hT
  obtain ⟨hTU, k, hk, hkT⟩ := mem_coveredIn.1 hT
  obtain ⟨d, hd, hdk⟩ := covers_iff.1 (h k hk)
  exact mem_coveredIn.2 ⟨hTU, d, hd, fun l hl => hkT l (hdk l hl)⟩

lemma coveredIn_ssubset (h : ∀ k ∈ K, L.covers k = true) {c : Clause} (hU : ∀ l ∈ c, l ∈ U)
    (hK : K.covers c = false) (hL : L.covers c = true) : K.coveredIn U ⊂ L.coveredIn U := by
  refine Finset.ssubset_iff_subset_ne.2 ⟨coveredIn_subset h, fun heq => ?_⟩
  obtain ⟨d, hd, hdc⟩ := covers_iff.1 hL
  have hmem : c.literals.toFinset ∈ L.coveredIn U := by
    refine mem_coveredIn.2 ⟨fun l hl => hU l (List.mem_toFinset.1 hl), d, hd, fun l hl => ?_⟩
    exact List.mem_toFinset.2 (hdc l hl)
  rw [← heq] at hmem
  obtain ⟨_, k, hk, hkc⟩ := mem_coveredIn.1 hmem
  rw [covers_iff.2 ⟨k, hk, fun l hl => List.mem_toFinset.1 (hkc l hl)⟩] at hK
  cases hK

end ClauseSet

namespace Search

variable {m : Mode} {s t : Search} {U : Finset Literal}

/-! ## Literals -/

/-- A search whose clauses are made of the given literals. -/
def Over (U : Finset Literal) (s : Search) : Prop := ∀ c ∈ s.known, ∀ l ∈ c, l ∈ U

lemma Over.conclusions (h : s.Over U) {pair : Entry × Entry}
    (hpair : pair ∈ Round.pairs s.frontier s.seen) {r : Clause}
    (hr : r ∈ Round.conclusions m pair) : ∀ l ∈ r, l ∈ U := by
  intro l hl
  obtain ⟨k, _, _, rfl⟩ := Clause.mem_conclusions.1 hr
  rcases Clause.mem_or_mem_of_mem_resolvent hl with hl | hl
  · exact h _ (mem_known.2 (.inr (Round.fst_mem_of_mem_pairs hpair))) l hl
  · exact h _ (Round.snd_mem_of_mem_pairs hpair) l hl

lemma Step.over (h : Step m s t) (hs : s.Over U) : t.Over U := by
  cases h with
  | refutes => exact hs
  | saturates => exact hs
  | continues _ _ hfound =>
      intro c hc
      rcases mem_known.1 hc with hc | hc
      · exact hs c (mem_minimal.1 hc).1
      · obtain ⟨pair, hpair, hr, _⟩ := (hfound c).1 (mem_minimal.1 hc).1
        exact hs.conclusions hpair hr

/-- A round that does not bring the search to an end has found something. -/
lemma Step.exists_found (h : Step m s t) (ht : t.isHalted = false) : ∃ found : ClauseSet,
    (∀ r, r ∈ found ↔ ∃ pair ∈ Round.pairs s.frontier s.seen,
      r ∈ Round.conclusions m pair ∧ s.known.covers r = false) ∧
    (∃ r, r ∈ found) ∧ ∅ ∉ found ∧ t.seen = s.known.minimal ∧ t.frontier = found.minimal := by
  cases h with
  | @refutes j _ _ hhalted =>
      cases ht.symm.trans (Journal.isHalted_of_halted hhalted)
  | @saturates j _ _ _ _ hhalted =>
      cases ht.symm.trans (Journal.isHalted_of_halted hhalted)
  | @continues j found _ hempty hfound hsome =>
      refine ⟨found, hfound, hsome, ?_, rfl, rfl⟩
      intro hmem
      obtain ⟨pair, hpair, hconc, _⟩ := (hfound ∅).1 hmem
      exact hempty pair hpair hconc

/-- **What a round puts into the frontier was not covered before.** -/
lemma Step.not_covers_of_mem_frontier {d : Clause} (h : Step m s t) (ht : t.isHalted = false)
    (hd : d ∈ t.frontier) : s.known.covers d = false := by
  obtain ⟨found, hfound, -, -, -, hfrontier⟩ := h.exists_found ht
  rw [hfrontier] at hd
  obtain ⟨_, _, _, hcover⟩ := (hfound d).1 (mem_minimal.1 hd).1
  exact hcover

/-- **A round that goes on covers more.** -/
lemma Step.card_coveredIn_lt (h : Step m s t) (ht : t.isHalted = false) (hs : s.Over U) :
    (s.known.coveredIn U).card < (t.known.coveredIn U).card := by
  obtain ⟨found, hfound, ⟨r, hr⟩, -, -, hfrontier⟩ := h.exists_found ht
  obtain ⟨pair, hpair, hconc, hcover⟩ := (hfound r).1 hr
  have hafter : t.known.covers r = true := by
    refine covers_union_right ?_
    rw [hfrontier, covers_minimal]
    exact covers_of_mem hr
  exact Finset.card_lt_card (coveredIn_ssubset (fun k hk => h.covers (covers_of_mem hk))
    (hs.conclusions hpair hconc) hcover hafter)

/-- If the empty clause had been known it would have covered all that the round found. -/
lemma Step.empty_not_mem_known (h : Step m s t) (ht : t.isHalted = false) :
    ∅ ∉ s.known ∧ ∅ ∉ t.known := by
  obtain ⟨found, hfound, ⟨r, hr⟩, hempty, hseen, hfrontier⟩ := h.exists_found ht
  have hbefore : ∅ ∉ s.known := by
    intro hmem
    obtain ⟨_, _, _, hcover⟩ := (hfound r).1 hr
    rw [covers_of_subset (covers_of_mem hmem) (Clause.empty_subset r)] at hcover
    cases hcover
  refine ⟨hbefore, ?_⟩
  rw [mem_known, hseen, hfrontier, mem_minimal, mem_minimal]
  rintro (hmem | hmem)
  · exact hbefore hmem.1
  · exact hempty hmem.1

/-! ## Halting -/

/-- As many more rounds as there are sets to cover are enough, by induction on their number. -/
lemma exists_isHalted_of_card {d : ℕ} (hj : s.journal.Continuable) (hs : s.Over U)
    (hempty : ∅ ∉ s.known) (hd : 2 ^ U.card ≤ (s.known.coveredIn U).card + d) :
    ∃ k ≤ d, ((next m)^[k] s).isHalted = true := by
  induction d generalizing s with
  | zero =>
      have hlt := ClauseSet.card_coveredIn_lt (U := U) hempty
      omega
  | succ d ih =>
      cases hhalted : s.isHalted with
      | true => exact ⟨0, Nat.zero_le _, hhalted⟩
      | false =>
          have hstep := step_next m hhalted hj
          cases hnext : (s.next m).isHalted with
          | true => exact ⟨1, Nat.le_add_left 1 d, hnext⟩
          | false =>
              have hlt := hstep.card_coveredIn_lt hnext hs
              obtain ⟨k, hk, hend⟩ := ih (continuable_next m hj) (hstep.over hs)
                (hstep.empty_not_mem_known hnext).2 (by omega)
              exact ⟨k + 1, by omega, hend⟩

def literals (s : Search) : Finset Literal :=
  (s.atoms.flatMap fun a => [⟨a, false⟩, ⟨a, true⟩]).toFinset

lemma card_literals_le (s : Search) : 2 ^ s.literals.card ≤ 4 ^ s.atoms.length := by
  have hlength : (s.atoms.flatMap fun a => [(⟨a, false⟩ : Literal), ⟨a, true⟩]).length =
      2 * s.atoms.length := by
    simp [List.length_flatMap, Nat.mul_comm]
  have hcard : s.literals.card ≤ 2 * s.atoms.length := hlength ▸ List.toFinset_card_le _
  calc 2 ^ s.literals.card ≤ 2 ^ (2 * s.atoms.length) :=
        Nat.pow_le_pow_right (by omega) hcard
    _ = 4 ^ s.atoms.length := by rw [Nat.pow_mul]

lemma over_literals (s : Search) : s.Over s.literals := by
  intro c hc l hl
  have hatom : l.atom ∈ s.atoms := by
    have hmem : id l.atom ∈ s.atoms.map id := (Ascending.mem_map_ofList id).2 ?_
    · simpa using hmem
    · rw [List.map_id]
      refine List.mem_flatMap.2 ⟨c, ?_, List.mem_map_of_mem hl⟩
      exact List.mem_append.2 (mem_known.1 hc)
  rw [literals, List.mem_toFinset, List.mem_flatMap]
  refine ⟨l.atom, hatom, ?_⟩
  obtain ⟨a, _ | _⟩ := l
  · exact List.mem_cons_self
  · exact List.mem_cons_of_mem _ List.mem_cons_self

/-- **Every search comes to an end** within `4 ^ n` rounds over `n` atoms. -/
lemma exists_isHalted (m : Mode) (hj : s.journal.Continuable) :
    ∃ k ≤ 4 ^ s.atoms.length, ((next m)^[k] s).isHalted = true := by
  cases hs : s.isHalted with
  | true => exact ⟨0, Nat.zero_le _, hs⟩
  | false =>
      have hstep := step_next m hs hj
      by_cases hempty : ∅ ∈ s.known
      · -- the empty clause covers everything, so the next round is the last
        refine ⟨1, Nat.one_le_pow _ _ (by omega), ?_⟩
        by_contra hnext
        exact (hstep.empty_not_mem_known (Bool.eq_false_iff.2 hnext)).1 hempty
      · obtain ⟨k, hk, hend⟩ := exists_isHalted_of_card (m := m) hj (over_literals s) hempty
          (Nat.le_add_left _ _)
        exact ⟨k, Nat.le_trans hk (card_literals_le s), hend⟩

/-- There is a first end, and at the first end there is an answer. -/
lemma exists_first_isHalted (m : Mode) (hj : s.journal.Continuable) (hs : s.isHalted = false) :
    ∃ k ≤ 4 ^ s.atoms.length, (∀ i < k, ((next m)^[i] s).isHalted = false) ∧
      ((next m)^[k] s).isHalted = true ∧ ∃ b, ((next m)^[k] s).journal.answer = .bool b := by
  have hex : ∃ k, ((next m)^[k] s).isHalted = true := by
    obtain ⟨k, _, hk⟩ := exists_isHalted m hj
    exact ⟨k, hk⟩
  have hend : ((next m)^[Nat.find hex] s).isHalted = true := Nat.find_spec hex
  have hrun : ∀ i < Nat.find hex, ((next m)^[i] s).isHalted = false :=
    fun i hi => Bool.eq_false_iff.2 (Nat.find_min hex hi)
  refine ⟨Nat.find hex, ?_, hrun, hend, ?_⟩
  · obtain ⟨k, hk, hhalted⟩ := exists_isHalted m hj
    exact Nat.le_trans (Nat.find_min' hex hhalted) hk
  · cases hk : Nat.find hex with
    | zero =>
        rw [hk] at hend
        cases hs.symm.trans hend
    | succ k =>
        rw [hk] at hend hrun
        rw [Function.iterate_succ_apply'] at hend ⊢
        exact (step_next m (hrun k (Nat.lt_succ_self k)) (continuable_iterate m k hj)).exists_answer
          (hrun k (Nat.lt_succ_self k)) hend

/-- **A run without a cap decides**, within `4 ^ n` rounds over `n` atoms.  All that is asked is
that nothing else ends the run, that the journal can be continued, and, if the rounds are told,
that their numbers can be.  It ends at the first search in the row that has come to an end, and the
budget it was given to be a total function does not show: any larger one gives the same run. -/
theorem run_decides (m : Mode) (l : Limits) (s : Search) (hcap : l.cap = .uncapped)
    (hstop : ∀ t, l.stop t = .ok false) (hpatience : l.patience = none)
    (hj : s.journal.Continuable) (hs : s.isHalted = false)
    (htell : l.aloud = true → ∀ i < 4 ^ s.atoms.length, ((next m)^[i] s).canTell = true) :
    ∃ k ≤ 4 ^ s.atoms.length,
      (∀ i < k, ((next m)^[i] s).isHalted = false) ∧
      (s.run m l).search = (next m)^[k] s ∧
      (s.run m l).ending = .halted ∧
      (s.run m l).checkpoints.length = k ∧
      (s.run m l).search.isHalted = true ∧
      (∃ b, (s.run m l).search.journal.answer = .bool b) ∧
      ∀ budget, 4 ^ s.atoms.length ≤ budget → s.runFor m l budget none = s.run m l := by
  obtain ⟨k, hk, hrun, hend, hanswer⟩ := exists_first_isHalted m hj hs
  have hrunFor : s.run m l = s.runFor m l (4 ^ s.atoms.length) none := by
    rw [run, hcap, hpatience, Limits.budget, hcap]
    rfl
  obtain ⟨hsearch, hending, hlength⟩ := runFor_of_isHalted (l := l) hj hstop hrun hend
    (fun haloud i hi => htell haloud i (Nat.lt_of_lt_of_le hi hk)) hk
  rw [hrunFor]
  refine ⟨k, hk, hrun, hsearch, hending, hlength, ?_, ?_, fun budget hbudget => ?_⟩
  · rw [hsearch]
    exact hend
  · rw [hsearch]
    exact hanswer
  · refine runFor_of_le hbudget ?_
    simp [hending]

/-- A refutation, told as it goes: sixteen rounds are allowed over two atoms. -/
theorem run_decides_modusPonens :
    ((start Sample.modusPonens.entries).isHalted = false ∧
      ∀ i < 16, ((next .strict)^[i] (start Sample.modusPonens.entries)).canTell = true) ∧
    ∃ k ≤ 16,
      ((start Sample.modusPonens.entries).run .strict { aloud := true }).search =
        (next .strict)^[k] (start Sample.modusPonens.entries) ∧
      ((start Sample.modusPonens.entries).run .strict { aloud := true }).search.isHalted =
        true := by
  have hatoms : (start Sample.modusPonens.entries).atoms.length = 2 := by decide +kernel
  have htell : ∀ i < 4 ^ (start Sample.modusPonens.entries).atoms.length,
      ((next .strict)^[i] (start Sample.modusPonens.entries)).canTell = true := by
    rw [hatoms]
    decide +kernel
  obtain ⟨k, hk, -, hsearch, -, -, hhalted, -, -⟩ :=
    run_decides .strict { aloud := true } (start Sample.modusPonens.entries) rfl (fun _ => rfl) rfl
      (continuable_start _) rfl fun _ => htell
  rw [hatoms] at hk htell
  exact ⟨⟨rfl, htell⟩, k, hk, hsearch, hhalted⟩

end Search

end Saturation
