import Saturation.Proofs.Closure
import Saturation.Run
import Saturation.Samples

/-!
# The mode makes no difference

A permissive round tries more literals than a strict one, but whatever it concludes beyond the
strict resolvents contains a clause of the pair.  Both clauses of a pair are known, so such
conclusions are covered and never found (`discoveries_eq`); and none of them is empty, so the round
stops at the same pair (`empty_mem_conclusions_iff`).  Hence the two modes run the same round
(`run_eq`), and by induction the same rounds.

The one thing asked is that the empty clause has not been seen: met as the second of a pair, it
would make every permissive round end at once.  A round never moves it there (`empty_not_mem_seen`).
-/

namespace Saturation

open ClauseSet

variable {m m' : Mode}

/-! ## Rounds -/

namespace Round

variable {source : Provenance} {frontier seen : ClauseSet} {pair : Entry × Entry}

/-- What one mode concludes and nothing known covers is concluded in the other mode too. -/
lemma mem_conclusions_of_not_covered (hpair : pair ∈ pairs frontier seen) {r : Clause}
    (hr : r ∈ conclusions m pair) (hcover : (seen ∪ frontier).covers r = false) :
    r ∈ conclusions m' pair := by
  have hfst : pair.1.clause ∈ seen ∪ frontier := mem_union.2 (.inr (fst_mem_of_mem_pairs hpair))
  have hsnd : pair.2.clause ∈ seen ∪ frontier := snd_mem_of_mem_pairs hpair
  rcases Clause.mem_strict_or_subset (Clause.mem_permissive_of_mem hr) with h | h | h
  · exact Clause.mem_of_mem_strict h
  · rw [covers_of_subset (covers_of_mem hfst) h] at hcover
    cases hcover
  · rw [covers_of_subset (covers_of_mem hsnd) h] at hcover
    cases hcover

/-- **Both modes find the same clauses in the same order**: pair by pair the same ones are left,
and they ascend. -/
lemma discoveries_eq (m m' : Mode) (frontier seen : ClauseSet) :
    discoveries m frontier seen = discoveries m' frontier seen := by
  rw [discoveries, discoveries, List.flatMap_def, List.flatMap_def]
  refine congrArg List.flatten (List.map_congr_left fun pair hpair => ?_)
  have hsorted : ∀ n : Mode, Ascending.Sorted id
      ((conclusions n pair).clauses.filter (!(seen ∪ frontier).covers ·)) :=
    fun n => (ascending_clauses (conclusions n pair)).sublist id List.filter_sublist
  refine (hsorted m).eq_of_mem_iff id (hsorted m') fun r => ?_
  simp only [List.mem_filter, Bool.not_eq_true']
  constructor
  · rintro ⟨hr, hcover⟩
    exact ⟨mem_conclusions_of_not_covered hpair hr hcover, hcover⟩
  · rintro ⟨hr, hcover⟩
    exact ⟨mem_conclusions_of_not_covered hpair hr hcover, hcover⟩

/-- **Both modes get the empty clause from the same pairs**, as long as no pair has it. -/
lemma empty_mem_conclusions_iff (hfrontier : ∅ ∉ frontier) (hseen : ∅ ∉ seen)
    (hpair : pair ∈ pairs frontier seen) :
    ∅ ∈ conclusions m pair ↔ ∅ ∈ conclusions m' pair := by
  have hcover : (seen ∪ frontier).covers ∅ = false := by
    rw [← Bool.not_eq_true, covers_empty_iff, mem_union]
    rintro (h | h)
    · exact hseen h
    · exact hfrontier h
  constructor
  · intro h
    exact mem_conclusions_of_not_covered hpair h hcover
  · intro h
    exact mem_conclusions_of_not_covered hpair h hcover

/-- **Both modes run the same round.** -/
theorem run_eq (m m' : Mode) (hseen : ∅ ∉ seen) :
    run m source frontier seen = run m' source frontier seen := by
  by_cases hfrontier : ∅ ∈ frontier
  · rw [run_of_empty_mem hfrontier, run_of_empty_mem hfrontier]
  have hiff : ∀ pair ∈ pairs frontier seen, ∅ ∈ conclusions m pair ↔ ∅ ∈ conclusions m' pair :=
    fun pair hpair => empty_mem_conclusions_iff hfrontier hseen hpair
  by_cases h : ∃ pair ∈ pairs frontier seen, ¬ ∅ ∉ conclusions m pair
  · obtain ⟨before, ⟨x, y⟩, after, hpairs, hbefore, hempty⟩ := exists_first h
    rw [not_not] at hempty
    have hbefore' : ∀ pair ∈ before, ∅ ∉ conclusions m' pair := by
      intro pair hpair
      rw [← hiff pair (hpairs ▸ List.mem_append_left _ hpair)]
      exact hbefore pair hpair
    have hempty' : ∅ ∈ conclusions m' (x, y) := by
      rw [← hiff (x, y) (hpairs ▸ List.mem_append_right _ List.mem_cons_self)]
      exact hempty
    rw [run_of_append hfrontier hpairs hbefore hempty,
      run_of_append hfrontier hpairs hbefore' hempty']
  · have hempty : ∀ pair ∈ pairs frontier seen, ∅ ∉ conclusions m pair :=
      fun pair hpair hmem => h ⟨pair, hpair, not_not.2 hmem⟩
    have hempty' : ∀ pair ∈ pairs frontier seen, ∅ ∉ conclusions m' pair := by
      intro pair hpair
      rw [← hiff pair hpair]
      exact hempty pair hpair
    rw [run_of_forall_not_mem hfrontier hempty, run_of_forall_not_mem hfrontier hempty',
      discoveries_eq m m']

end Round

/-! ## Searches -/

namespace Search

variable {s : Search}

@[simp]
lemma seen_settle (before : List Note) (record : RoundRecord) (after : List Note)
    (close : Journal → Journal) : (s.settle before record after close).search.seen = s.seen := by
  rw [settle]
  split <;> rfl

/-- The empty clause is not moved to the seen ones: a round that has it in the frontier decides. -/
lemma empty_not_mem_seen (m : Mode) (h : ∅ ∉ s.seen) : ∅ ∉ (s.advance m).search.seen := by
  rw [advance]
  split
  · exact h
  · split
    · exact h
    · next journal _ =>
      dsimp only
      have hout := Round.outcome_run m (.found journal.round) s.frontier s.seen
      generalize Round.run m (.found journal.round) s.frontier s.seen = out at hout
      cases hout with
      | emptyGiven => simpa using h
      | emptyDerived => simpa using h
      | saturated => simpa using h
      | fresh hgiven =>
          rw [seen_settle, promote, mem_minimal, mem_union]
          rintro ⟨hmem | hmem, _⟩
          · exact h hmem
          · exact hgiven hmem

lemma advance_eq (m m' : Mode) (h : ∅ ∉ s.seen) : s.advance m = s.advance m' := by
  simp only [advance, Round.run_eq m m' h]

lemma next_eq (m m' : Mode) (h : ∅ ∉ s.seen) : s.next m = s.next m' := by
  rw [next, next, advance_eq m m' h]

/-- From a reachable search there is one row of searches, in whatever mode the rounds are. -/
lemma Reachable.iterate_eq {es : List Entry} (h : Reachable es s) (m m' : Mode) (n : ℕ) :
    (Search.next m)^[n] s = (Search.next m')^[n] s := by
  induction n with
  | zero => rfl
  | succ n ih =>
      rw [Function.iterate_succ_apply', Function.iterate_succ_apply', ih]
      exact next_eq m m' (h.iterate m' n).invariant.nonempty

lemma Reachable.exists_iterate {es : List Entry} (h : Reachable es s) (m : Mode) :
    ∃ n, s = (Search.next m)^[n] (.start es) := by
  induction h with
  | start => exact ⟨0, rfl⟩
  | next m' h ih =>
      obtain ⟨n, hn⟩ := ih
      refine ⟨n + 1, ?_⟩
      rw [Function.iterate_succ_apply', ← hn]
      exact next_eq m' m h.invariant.nonempty

lemma round_eq (aloud : Bool) (m m' : Mode) (h : ∅ ∉ s.seen) :
    s.round aloud m = s.round aloud m' := by
  simp only [round, advanceAloud, advance_eq m m' h]

/-- A round that is told leaves the clauses that a silent one leaves, or those it began with. -/
lemma empty_not_mem_seen_round (aloud : Bool) (m : Mode) (h : ∅ ∉ s.seen) :
    ∅ ∉ (s.round aloud m).search.seen := by
  rw [round]
  split
  · rw [advanceAloud]
    split
    · split
      · exact empty_not_mem_seen m h
      · exact h
    · exact empty_not_mem_seen m h
  · exact empty_not_mem_seen m h

def rounds (aloud : Bool) : List Mode → Search → List Advance
  | [], _ => []
  | m :: ms, s => s.round aloud m :: rounds aloud ms (s.round aloud m).search

lemma rounds_eq (aloud : Bool) {ms ms' : List Mode} (hlength : ms.length = ms'.length)
    (h : ∅ ∉ s.seen) : s.rounds aloud ms = s.rounds aloud ms' := by
  induction ms generalizing ms' s with
  | nil => rw [List.length_eq_zero_iff.1 hlength.symm]
  | cons m ms ih =>
      cases ms' with
      | nil => simp at hlength
      | cons m' ms' =>
          rw [rounds, rounds, round_eq aloud m m' h,
            ih (Nat.succ.inj hlength) (empty_not_mem_seen_round aloud m' h)]

lemma runFor_eq (m m' : Mode) (l : Limits) (budget : ℕ) (patience : Option ℕ) (h : ∅ ∉ s.seen) :
    s.runFor m l budget patience = s.runFor m' l budget patience := by
  induction budget generalizing patience s with
  | zero => rfl
  | succ budget ih =>
      have hround : (if l.aloud then s.advanceAloud m else s.advance m) =
          if l.aloud then s.advanceAloud m' else s.advance m' := round_eq l.aloud m m' h
      have hseen : ∅ ∉ (if l.aloud then s.advanceAloud m' else s.advance m').search.seen :=
        empty_not_mem_seen_round l.aloud m' h
      simp only [runFor, hround, ih _ hseen]

/-- **The mode makes no difference.**  From a search that has not seen the empty clause, as every
reachable one is, a round in either mode leaves the same search, says the same and fails in the
same way; so do rounds one after the other, whatever the mode of each, and runs within any
limits. -/
theorem mode_irrelevant :
    (∀ (s : Search), ∅ ∉ s.seen →
      (∀ aloud, s.round aloud .strict = s.round aloud .permissive) ∧
      (∀ aloud (ms ms' : List Mode), ms.length = ms'.length →
        s.rounds aloud ms = s.rounds aloud ms') ∧
      ∀ l, s.run .strict l = s.run .permissive l) ∧
    ∀ (es : List Entry) (s : Search), Reachable es s → ∅ ∉ s.seen := by
  refine ⟨fun s h => ⟨?_, ?_, ?_⟩, fun es s h => h.invariant.nonempty⟩
  · intro aloud
    exact round_eq aloud .strict .permissive h
  · intro aloud ms ms' hlength
    exact rounds_eq aloud hlength h
  · intro l
    simp only [run, runFor_eq .strict .permissive l _ _ h]

/-- The second round on clauses of which the first has seen three. -/
theorem mode_irrelevant_wetLawn :
    ∅ ∉ ((start Sample.wetLawn.entries).next .strict).seen ∧
      ((start Sample.wetLawn.entries).next .strict).round true .strict =
        ((start Sample.wetLawn.entries).next .strict).round true .permissive ∧
      (start Sample.wetLawn.entries).rounds true [.strict, .permissive] =
        (start Sample.wetLawn.entries).rounds true [.permissive, .strict] :=
  have hseen : ∅ ∉ ((start Sample.wetLawn.entries).next .strict).seen := by decide +kernel
  have hstart : ∅ ∉ (start Sample.wetLawn.entries).seen := by decide +kernel
  ⟨hseen, (mode_irrelevant.1 _ hseen).1 true, (mode_irrelevant.1 _ hstart).2.1 true _ _ rfl⟩

end Search

end Saturation
