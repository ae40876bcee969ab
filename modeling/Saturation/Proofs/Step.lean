import Mathlib.Logic.Function.Iterate
import Saturation.Proofs.RoundOutcome
import Saturation.Search

/-!
# What a round does to a search

`Step` lists what a round can make of a search that has not come to an end: it refutes, it
saturates, or it goes on with new sets.  `step_next` says that nothing else happens, provided the
journal can be continued.  That is the one thing asked of a search: its round is a number and its
history a list, as it is from the start and stays (`Continuable`).

What holds after every round is then proved by three cases.  `Reachable` collects the searches
that rounds can lead to, in whatever modes.
-/

namespace Saturation

open ClauseSet

/-! ## Journals that can be continued -/

lemma Json.exists_succ?_of_succ? {v w : Json} (h : v.succ? = some w) : ∃ u, w.succ? = some u := by
  cases v with
  | real x =>
      obtain rfl : Json.real x.succ = w := Option.some.inj h
      exact ⟨_, rfl⟩
  | int n =>
      obtain rfl : Json.int (n + 1) = w := Option.some.inj h
      exact ⟨_, rfl⟩
  | bool b =>
      obtain rfl : Json.int ((if b then 1 else 0) + 1) = w := Option.some.inj h
      exact ⟨_, rfl⟩
  | null => simp [succ?, int?] at h
  | string t => simp [succ?, int?] at h
  | array items => simp [succ?, int?] at h
  | object fields => simp [succ?, int?] at h

namespace Journal

/-- The next round has a number, and the history takes its record. -/
structure Continuable (j : Journal) : Prop where
  round : ∃ n, j.round.succ? = some n
  history : ∃ records, j.history = .array records

variable {j : Journal}

lemma Continuable.exists_nextRound? (h : j.Continuable) :
    ∃ k, j.nextRound? = some k ∧ k.Continuable ∧ k.halted = j.halted ∧ k.answer = j.answer := by
  obtain ⟨n, hn⟩ := h.round
  exact ⟨{ j with round := n }, by rw [nextRound?, hn, Option.map_some],
    ⟨Json.exists_succ?_of_succ? hn, h.history⟩, rfl, rfl⟩

lemma Continuable.exists_record? (h : j.Continuable) (r : RoundRecord) :
    ∃ k, j.record? r = some k ∧ k.Continuable ∧ k.halted = j.halted ∧ k.answer = j.answer := by
  obtain ⟨records, hrecords⟩ := h.history
  exact ⟨{ j with history := .array (records ++ [r.toJson]) }, by rw [record?, hrecords],
    ⟨h.round, _, rfl⟩, rfl, rfl⟩

lemma Continuable.finish (h : j.Continuable) (satisfiable : Bool) (reason : Text) :
    (j.finish satisfiable reason).Continuable :=
  ⟨h.round, h.history⟩

lemma isHalted_of_halted (h : j.halted = .bool true) : j.isHalted = true := by
  rw [isHalted, h]
  rfl

lemma isHalted_congr {k : Journal} (h : j.halted = k.halted) : j.isHalted = k.isHalted := by
  rw [isHalted, isHalted, h]

lemma verdict_of_answer {b : Bool} (h : j.answer = .bool b) :
    j.verdict = if b then .satisfiable else .unsatisfiable := by
  rw [verdict, h]
  rfl

lemma verdict_congr {k : Journal} (h : j.answer = k.answer) : j.verdict = k.verdict := by
  rw [verdict, verdict, h]

end Journal

namespace Search

variable {m : Mode} {s : Search}

/-! ## Steps -/

def known (s : Search) : ClauseSet := s.seen ∪ s.frontier

/-- What a round can make of a search that has not come to an end. -/
inductive Step (m : Mode) (s : Search) : Search → Prop
  /-- The empty clause is there, given or derived. -/
  | refutes {j : Journal}
      (hempty : ∅ ∈ s.frontier ∨
        ∃ pair ∈ Round.pairs s.frontier s.seen, ∅ ∈ Round.conclusions m pair)
      (hj : j.Continuable) (hhalted : j.halted = .bool true) (hanswer : j.answer = .bool false) :
      Step m s { s with journal := j }
  /-- Nothing new is there. -/
  | saturates {j : Journal} (hgiven : ∅ ∉ s.frontier)
      (hempty : ∀ pair ∈ Round.pairs s.frontier s.seen, ∅ ∉ Round.conclusions m pair)
      (hcovered : ∀ pair ∈ Round.pairs s.frontier s.seen, ∀ r ∈ Round.conclusions m pair,
        s.known.covers r = true)
      (hj : j.Continuable) (hhalted : j.halted = .bool true) (hanswer : j.answer = .bool true) :
      Step m s { s with journal := j }
  /-- The minimal new clauses are the frontier, and what was known is seen. -/
  | continues {j : Journal} {found : ClauseSet} (hgiven : ∅ ∉ s.frontier)
      (hempty : ∀ pair ∈ Round.pairs s.frontier s.seen, ∅ ∉ Round.conclusions m pair)
      (hfound : ∀ r, r ∈ found ↔ ∃ pair ∈ Round.pairs s.frontier s.seen,
        r ∈ Round.conclusions m pair ∧ s.known.covers r = false)
      (hsome : ∃ r, r ∈ found)
      (hj : j.Continuable) (hhalted : j.halted = s.journal.halted)
      (hanswer : j.answer = s.journal.answer) :
      Step m s { frontier := found.minimal, seen := s.known.minimal, journal := j }

/-- **A round takes a step**, and no fault cuts it short. -/
theorem step_advance (m : Mode) (hs : s.isHalted = false) (hj : s.journal.Continuable) :
    Step m s (s.advance m).search ∧ (s.advance m).fault? = none := by
  obtain ⟨j, hnext, hj, hhalted, hanswer⟩ := hj.exists_nextRound?
  rw [advance, if_neg (by rw [hs]; decide), hnext]
  dsimp only
  have hout := Round.outcome_run m (.found j.round) s.frontier s.seen
  generalize Round.run m (.found j.round) s.frontier s.seen = out at hout
  cases hout with
  | emptyGiven hgiven =>
      obtain ⟨k, hk, hkj, -, -⟩ := hj.exists_record?
        (recordOf { s with journal := j } 0 [] .unsatisfiable)
      simp only [settle, hk]
      exact ⟨.refutes (.inl hgiven) (hkj.finish _ _) rfl rfl, trivial⟩
  | @emptyDerived before after x y hgiven hpairs hbefore hempty =>
      obtain ⟨k, hk, hkj, -, -⟩ := hj.exists_record?
        (recordOf { s with journal := j } (before.length + 1) ["[]"] .unsatisfiable)
      have hmem : (x, y) ∈ Round.pairs s.frontier s.seen := by
        rw [hpairs]
        exact List.mem_append_right _ List.mem_cons_self
      simp only [settle, hk]
      exact ⟨.refutes (.inr ⟨(x, y), hmem, hempty⟩) (hkj.finish _ _) rfl rfl, trivial⟩
  | saturated hgiven hempty hcovered =>
      obtain ⟨k, hk, hkj, -, -⟩ := hj.exists_record?
        (recordOf { s with journal := j } (Round.pairs s.frontier s.seen).length [] .satisfiable)
      simp only [settle, hk]
      exact ⟨.saturates hgiven hempty hcovered (hkj.finish _ _) rfl rfl, trivial⟩
  | @fresh found hgiven hempty hfound hsome _ =>
      obtain ⟨k, hk, hkj, hkhalted, hkanswer⟩ := hj.exists_record?
        (recordOf (promote { s with journal := j } found.minimal)
          (Round.pairs s.frontier s.seen).length found.minimal.names .undecided)
      have hk' : Journal.record? (promote { s with journal := j } found.minimal).journal _ =
        some k := hk
      simp only [settle, hk']
      exact ⟨.continues hgiven hempty hfound hsome hkj (hkhalted.trans hhalted)
        (hkanswer.trans hanswer), trivial⟩

theorem step_next (m : Mode) (hs : s.isHalted = false) (hj : s.journal.Continuable) :
    Step m s (s.next m) :=
  (step_advance m hs hj).1

lemma continuable_next (m : Mode) (hj : s.journal.Continuable) :
    (s.next m).journal.Continuable := by
  cases hs : s.isHalted with
  | true => rwa [next_of_isHalted m hs]
  | false =>
      have hstep := step_next m hs hj
      generalize s.next m = t at hstep
      cases hstep with
      | refutes _ hj => exact hj
      | saturates _ _ _ hj => exact hj
      | continues _ _ _ _ hj => exact hj

lemma continuable_iterate (m : Mode) (n : ℕ) (hj : s.journal.Continuable) :
    ((next m)^[n] s).journal.Continuable := by
  induction n with
  | zero => exact hj
  | succ n ih =>
      rw [Function.iterate_succ_apply']
      exact continuable_next m ih

/-- **What every step keeps holds of every search in the row.**  Once a search has come to an end
the row repeats it, so only steps from searches that have not need be looked at. -/
theorem iterate_induction {P : Search → Prop} (hj : s.journal.Continuable) (hzero : P s)
    (hsucc : ∀ n t, ((next m)^[n] s).isHalted = false → P ((next m)^[n] s) →
      Step m ((next m)^[n] s) t → P t) (n : ℕ) : P ((next m)^[n] s) := by
  induction n with
  | zero => exact hzero
  | succ n ih =>
      rw [Function.iterate_succ_apply']
      cases hs : ((next m)^[n] s).isHalted with
      | true => rwa [next_of_isHalted m hs]
      | false => exact hsucc n _ hs ih (step_next m hs (continuable_iterate m n hj))

/-- What a step keeps between two searches holds all along their rows. -/
lemma iterate_related {R : Search → Search → Prop} {t : Search}
    (hnext : ∀ {s t}, R s t → R (s.next m) (t.next m)) (h : R s t) (n : ℕ) :
    R ((next m)^[n] s) ((next m)^[n] t) := by
  induction n with
  | zero => exact h
  | succ n ih =>
      rw [Function.iterate_succ_apply', Function.iterate_succ_apply']
      exact hnext ih

lemma iterate_eq_of_isHalted {n k : ℕ} (h : ((next m)^[n] s).isHalted = true) (hnk : n ≤ k) :
    (next m)^[k] s = (next m)^[n] s := by
  obtain ⟨i, rfl⟩ := Nat.exists_eq_add_of_le' hnk
  rw [Function.iterate_add_apply]
  exact Function.iterate_fixed (next_of_isHalted m h) i

lemma isHalted_of_next (h : (s.next m).isHalted = false) : s.isHalted = false := by
  cases hs : s.isHalted with
  | false => rfl
  | true =>
      rw [next_of_isHalted m hs, hs] at h
      cases h

lemma lt_of_isHalted {n k : ℕ} (hn : ((next m)^[n] s).isHalted = false)
    (hk : ((next m)^[k] s).isHalted = true) : n < k := by
  by_contra hkn
  rw [iterate_eq_of_isHalted hk (Nat.le_of_not_lt hkn), hk] at hn
  cases hn

lemma Step.exists_answer {t : Search} (h : Step m s t) (hs : s.isHalted = false)
    (ht : t.isHalted = true) : ∃ b, t.journal.answer = .bool b := by
  cases h with
  | refutes _ _ _ hanswer => exact ⟨false, hanswer⟩
  | saturates _ _ _ _ _ hanswer => exact ⟨true, hanswer⟩
  | @continues j _ _ _ _ _ _ hhalted =>
      have hgoes : j.isHalted = false := (Journal.isHalted_congr hhalted).trans hs
      cases hgoes.symm.trans ht

@[simp]
lemma isHalted_start (es : List Entry) : (start es).isHalted = false := rfl

@[simp]
lemma verdict_start (es : List Entry) : (start es).verdict = .undecided := rfl

lemma continuable_start (es : List Entry) : (start es).journal.Continuable :=
  ⟨⟨.int 1, rfl⟩, ⟨[], rfl⟩⟩

/-! ## Rounds that are told -/

/-- One round, told as it goes or not. -/
def round (aloud : Bool) (m : Mode) (s : Search) : Advance :=
  if aloud then s.advanceAloud m else s.advance m

/-- The number of the next round, if there is one, is short enough to be told. -/
def canTell (s : Search) : Bool := s.journal.nextRound?.all fun j => j.round.isPlain

lemma round_eq_advance {aloud : Bool} (m : Mode) (h : aloud = true → s.canTell = true) :
    s.round aloud m = s.advance m := by
  cases aloud with
  | false => rfl
  | true =>
      have htell : s.canTell = true := h rfl
      rw [round, if_pos rfl, advanceAloud]
      split
      · next j _ hj =>
        rw [canTell, hj, Option.all_some] at htell
        rw [if_pos htell]
      · rfl

/-- A told round is like any other, unless its number cannot be told. -/
lemma round_eq_advance_of_fault? {aloud : Bool}
    (h : aloud = true → (s.round aloud m).fault? ≠ some .longInteger) :
    s.round aloud m = s.advance m := by
  cases aloud with
  | false => rfl
  | true =>
      have h := h rfl
      rw [round, if_pos rfl, advanceAloud] at h ⊢
      split
      · next j hgoes hj =>
        rw [hgoes, hj] at h
        dsimp only at h
        by_cases htell : j.round.isPlain = true
        · rw [if_pos htell]
        · rw [if_neg htell] at h
          exact absurd rfl h
      · rfl

/-! ## Reachable searches -/

/-- The searches that rounds lead to from the clauses of a list, each round in any mode. -/
inductive Reachable (es : List Entry) : Search → Prop
  | start : Reachable es (.start es)
  | next {s : Search} (m : Mode) (h : Reachable es s) : Reachable es (s.next m)

variable {es : List Entry}

lemma Reachable.iterate (h : Reachable es s) (m : Mode) (n : ℕ) :
    Reachable es ((Search.next m)^[n] s) := by
  induction n with
  | zero => exact h
  | succ n ih =>
      rw [Function.iterate_succ_apply']
      exact .next m ih

lemma reachable_iterate (m : Mode) (n : ℕ) : Reachable es ((next m)^[n] (start es)) :=
  Reachable.start.iterate m n

end Search

end Saturation
