import Saturation.Proofs.Log
import Saturation.Proofs.Provenance

/-!
# How the clauses of a search are arranged

The known clauses are not an antichain: a new clause may be part of a seen one, which is only
dropped when the next round goes on.  What does hold is asymmetric.  No clause of the frontier is
part of another one there, no seen clause of another seen one, and no seen clause is part of one of
the frontier (`Arranged`).  The last is what a round pays for by looking only at what known clauses
cover, and it keeps the two sets apart; so a union of both finds each clause in one of them, and its
provenance is never a matter of which came first.

Every clause was given or was derived, and its provenance says which (`Given`, `Derived`): a given
clause has the step and the label of its first entry, a derived one has no label and the number of
the round that found it.  Only rounds that go on derive clauses, so they are what is counted
(`ReachableIn`).
-/

namespace Saturation

open ClauseSet

namespace Search

variable {m : Mode} {s : Search} {es : List Entry} {e : Entry} {n : ℕ}

/-! ## Rounds that go on -/

/-- The searches that rounds lead to, with the number of the rounds that went on. -/
inductive ReachableIn (es : List Entry) : ℕ → Search → Prop
  | start : ReachableIn es 0 (.start es)
  | goesOn {n : ℕ} {s : Search} (m : Mode) (h : ReachableIn es n s)
      (hgoes : (s.next m).isHalted = false) : ReachableIn es (n + 1) (s.next m)
  | ends {n : ℕ} {s : Search} (m : Mode) (h : ReachableIn es n s)
      (hends : (s.next m).isHalted = true) : ReachableIn es n (s.next m)

lemma ReachableIn.reachable (h : ReachableIn es n s) : Reachable es s := by
  induction h with
  | start => exact .start
  | goesOn m _ _ ih => exact .next m ih
  | ends m _ _ ih => exact .next m ih

lemma Reachable.exists_reachableIn (h : Reachable es s) : ∃ n, ReachableIn es n s := by
  induction h with
  | start => exact ⟨0, .start⟩
  | @next s m _ ih =>
      obtain ⟨n, hn⟩ := ih
      cases hs : (s.next m).isHalted with
      | false => exact ⟨n + 1, .goesOn m hn hs⟩
      | true => exact ⟨n, .ends m hn hs⟩

/-- As long as a search goes on it has one record for each round. -/
lemma ReachableIn.exists_logged (h : ReachableIn es n s) (hs : s.isHalted = false) :
    ∃ frontier seen records, s = logged frontier seen ⟨records, .going ""⟩ ∧
      records.length = n := by
  induction h with
  | start => exact ⟨_, _, [], rfl, rfl⟩
  | ends _ _ hends => cases hs.symm.trans hends
  | @goesOn n s m _ hgoes ih =>
      obtain ⟨frontier, seen, records, rfl, hlength⟩ := ih (isHalted_of_next hgoes)
      have hstatus : Log.status ⟨records, .going ""⟩ = .going "" := rfl
      obtain ⟨frontier', seen', ⟨records', status⟩, hnext, hlength', hstatus'⟩ :=
        exists_logged_next m hstatus
      rcases hstatus' with hgoes' | ⟨f, hf⟩
      · obtain rfl : status = .going "" := hgoes'
        exact ⟨frontier', seen', records', hnext, hlength'.trans (by rw [hlength])⟩
      · obtain rfl : status = .finished f := hf
        rw [hnext] at hgoes
        cases hgoes

/-- What a round puts into the frontier has the number of the round, and no label. -/
lemma ReachableIn.source_next (h : ReachableIn es n s) (hgoes : (s.next m).isHalted = false)
    (he : e ∈ (s.next m).frontier.entries) : e.source = .found (.int (n + 1)) := by
  obtain ⟨frontier, seen, records, rfl, rfl⟩ := h.exists_logged (isHalted_of_next hgoes)
  rw [next_logged rfl, roundOf] at hgoes he
  have hout := Round.outcome_run m (.found (.int (records.length + 1))) frontier seen
  generalize Round.run m (.found (.int (records.length + 1))) frontier seen = out at hgoes he hout
  cases hout with
  | emptyGiven => cases hgoes
  | emptyDerived => cases hgoes
  | saturated => cases hgoes
  | fresh _ _ _ _ hsource => exact hsource e (mem_entries_minimal.1 he).1

/-! ## Where clauses come from -/

/-- The entry is the first one of the list for its clause. -/
def Given (es : List Entry) (e : Entry) : Prop := es.find? (·.clause = e.clause) = some e

/-- The entry was found by the round that it names: nothing known before covered its clause, and it
was in the frontier after. -/
inductive Derived (es : List Entry) (e : Entry) : ℕ → Prop
  | found {n : ℕ} {s : Search} (m : Mode) (h : ReachableIn es n s)
      (hgoes : (s.next m).isHalted = false) (hnew : s.known.covers e.clause = false)
      (hmem : e ∈ (s.next m).frontier.entries)
      (hsource : e.source = { step := .int (n + 1), label := .string "" }) : Derived es e (n + 1)

/-! ## The arrangement -/

/-- How the clauses of a search are arranged after so many rounds that went on. -/
structure Arranged (es : List Entry) (n : ℕ) (s : Search) : Prop where
  frontier_minimal : ∀ c ∈ s.frontier, ∀ d ∈ s.frontier, ¬ c ⊂ d
  seen_minimal : ∀ c ∈ s.seen, ∀ d ∈ s.seen, ¬ c ⊂ d
  apart : ∀ c ∈ s.seen, ∀ d ∈ s.frontier, ¬ c ⊆ d
  empty_not_mem_seen : ∅ ∉ s.seen
  /-- The empty clause is part of every other one. -/
  of_empty_mem_frontier : ∅ ∈ s.frontier → (∃ e ∈ es, e.clause = ∅) ∧ s.frontier.clauses = [∅]
  literals : ∀ c, c ∈ s.seen ∨ c ∈ s.frontier → ∀ l ∈ c, ∃ e ∈ es, l ∈ e.clause
  frontier_source : ∀ e ∈ s.frontier.entries, n = 0 ∧ Given es e ∨ 0 < n ∧ Derived es e n
  seen_source : ∀ e ∈ s.seen.entries, Given es e ∨ ∃ k < n, Derived es e k

lemma Arranged.not_mem_frontier {c : Clause} (h : Arranged es n s) (hc : c ∈ s.seen) :
    c ∉ s.frontier :=
  fun hmem => h.apart c hc c hmem (Clause.subset_refl c)

lemma clauses_eq_of_empty_mem {K : ClauseSet} (hmin : ∀ c ∈ K, ∀ d ∈ K, ¬ c ⊂ d) (h : ∅ ∈ K) :
    K.clauses = [∅] := by
  have hmem : ∀ c, c ∈ K.clauses ↔ c ∈ [(∅ : Clause)] := by
    intro c
    rw [List.mem_singleton]
    constructor
    · intro hc
      by_contra hne
      exact hmin ∅ h c hc (Clause.ssubset_iff.2 ⟨Clause.empty_subset c, Ne.symm hne⟩)
    · rintro rfl
      exact h
  exact (ascending_clauses K).eq_of_mem_iff id (List.pairwise_singleton _ _) hmem

lemma arranged_start (es : List Entry) : Arranged es 0 (start es) := by
  have hmin : ∀ c ∈ (start es).frontier, ∀ d ∈ (start es).frontier, ¬ c ⊂ d :=
    fun c hc d hd => (mem_minimal.1 hd).2 c (mem_minimal.1 hc).1
  have hgiven : ∀ c ∈ (start es).frontier, ∃ e ∈ es, e.clause = c := by
    intro c hc
    exact List.mem_map.1 (mem_ofEntries.1 (mem_minimal.1 hc).1)
  refine ⟨hmin, fun c hc => ?_, fun c hc => ?_, not_mem_empty ∅, fun h => ?_, ?_, fun e he => ?_,
    fun e he => ?_⟩
  · exact absurd hc (not_mem_empty c)
  · exact absurd hc (not_mem_empty c)
  · exact ⟨hgiven ∅ h, clauses_eq_of_empty_mem hmin h⟩
  · rintro c (hc | hc) l hl
    · exact absurd hc (not_mem_empty c)
    · obtain ⟨e, he, rfl⟩ := hgiven c hc
      exact ⟨e, he, hl⟩
  · exact .inl ⟨rfl, mem_entries_ofEntries.1 (mem_entries_minimal.1 he).1⟩
  · exact absurd he List.not_mem_nil

/-- A round that goes on arranges the clauses again: the frontier is new, and what was known is
sieved. -/
lemma Arranged.goesOn (h : Arranged es n s) (hreach : ReachableIn es n s) (m : Mode)
    (hgoes : (s.next m).isHalted = false) : Arranged es (n + 1) (s.next m) := by
  have hs : s.isHalted = false := isHalted_of_next hgoes
  have hstep := step_next m hs hreach.reachable.invariant.continuable
  obtain ⟨hempty, hempty'⟩ := hstep.empty_not_mem_known hgoes
  obtain ⟨found, -, -, -, hseen, hfrontier⟩ := hstep.exists_found hgoes
  -- the literals that were given, as a set to be over
  have hover : s.Over (es.flatMap (·.clause.literals)).toFinset := by
    intro c hc l hl
    obtain ⟨e, he, hle⟩ := h.literals c (mem_known.1 hc) l hl
    exact List.mem_toFinset.2 (List.mem_flatMap.2 ⟨e, he, hle⟩)
  refine ⟨fun c hc d hd => ?_, fun c hc d hd => ?_, fun c hc d hd hcd => ?_, fun hmem => ?_,
    fun hmem => ?_, fun c hc l hl => ?_, fun e he => ?_, fun e he => ?_⟩
  · rw [hfrontier] at hc hd
    exact (mem_minimal.1 hd).2 c (mem_minimal.1 hc).1
  · rw [hseen] at hc hd
    exact (mem_minimal.1 hd).2 c (mem_minimal.1 hc).1
  · rw [hseen] at hc
    have hcover : s.known.covers d = true := covers_iff.2 ⟨c, (mem_minimal.1 hc).1, hcd⟩
    cases hcover.symm.trans (hstep.not_covers_of_mem_frontier hgoes hd)
  · exact hempty' (mem_known.2 (.inl hmem))
  · exact absurd (mem_known.2 (.inr hmem)) hempty'
  · have hmem := hstep.over hover c (mem_known.2 hc) l hl
    exact List.mem_flatMap.1 (List.mem_toFinset.1 hmem)
  · exact .inr ⟨Nat.succ_pos n, .found m hreach hgoes
      (hstep.not_covers_of_mem_frontier hgoes (mem_of_mem_entries he)) he
      (hreach.source_next hgoes he)⟩
  · rw [hseen] at he
    rcases mem_entries_union.1 (mem_entries_minimal.1 he).1 with he | ⟨he, -⟩
    · exact (h.seen_source e he).imp_right fun ⟨k, hk, hd⟩ => ⟨k, Nat.lt_succ_of_lt hk, hd⟩
    · rcases h.frontier_source e he with ⟨-, hgiven⟩ | ⟨-, hd⟩
      · exact .inl hgiven
      · exact .inr ⟨n, Nat.lt_succ_self n, hd⟩

/-- A round that ends the search leaves its sets as they are. -/
lemma sets_next_of_isHalted (hj : s.journal.Continuable) (hends : (s.next m).isHalted = true) :
    (s.next m).frontier = s.frontier ∧ (s.next m).seen = s.seen := by
  cases hs : s.isHalted with
  | true =>
      rw [next_of_isHalted m hs]
      exact ⟨rfl, rfl⟩
  | false =>
      have hstep := step_next m hs hj
      generalize s.next m = t at hstep hends
      cases hstep with
      | refutes => exact ⟨rfl, rfl⟩
      | saturates => exact ⟨rfl, rfl⟩
      | @continues j _ _ _ _ _ _ hhalted =>
          have hgoes : j.isHalted = false := (Journal.isHalted_congr hhalted).trans hs
          cases hgoes.symm.trans hends

/-- **Rounds keep the arrangement**, by induction on the rounds. -/
lemma ReachableIn.arranged (h : ReachableIn es n s) : Arranged es n s := by
  induction h with
  | start => exact arranged_start es
  | goesOn m h hgoes ih => exact ih.goesOn h m hgoes
  | ends m h hends ih =>
      obtain ⟨hfrontier, hseen⟩ :=
        sets_next_of_isHalted h.reachable.invariant.continuable hends
      obtain ⟨hfmin, hsmin, hapart, hempty, hof, hlit, hfsource, hssource⟩ := ih
      rw [← hfrontier] at hfmin hapart hof hlit hfsource
      rw [← hseen] at hsmin hapart hempty hlit hssource
      exact ⟨hfmin, hsmin, hapart, hempty, hof, hlit, hfsource, hssource⟩

/-- **How the clauses of every reachable search are arranged.**  Some number of the rounds that lead
to it went on, and with any such number the clauses are arranged as above. -/
theorem arrangement (h : Reachable es s) :
    (∃ n, ReachableIn es n s) ∧ ∀ n, ReachableIn es n s → Arranged es n s :=
  ⟨h.exists_reachableIn, fun _ hn => hn.arranged⟩

/-- Two rounds that go on.  The clause found by the second one is part of a seen clause, which is
still there. -/
theorem arrangement_wetLawn :
    let s := (next .strict)^[2] (start Sample.wetLawn.entries)
    Reachable Sample.wetLawn.entries s ∧ ReachableIn Sample.wetLawn.entries 2 s ∧
      Arranged Sample.wetLawn.entries 2 s ∧ ∃ c ∈ s.frontier, ∃ d ∈ s.seen, c ⊂ d := by
  intro s
  have hs : Reachable Sample.wetLawn.entries s := reachable_iterate .strict 2
  have hfirst : ((start Sample.wetLawn.entries).next .strict).isHalted = false := by
    decide +kernel
  have hsecond : s.isHalted = false := by decide +kernel
  have hcount : ReachableIn Sample.wetLawn.entries 2 s :=
    .goesOn .strict (.goesOn .strict .start hfirst) hsecond
  have hpart : ∃ c ∈ s.frontier.clauses, ∃ d ∈ s.seen.clauses, c ⊂ d := by decide +kernel
  exact ⟨hs, hcount, (arrangement hs).2 2 hcount, hpart⟩

end Search

end Saturation
