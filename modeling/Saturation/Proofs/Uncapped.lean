import Saturation.Proofs.Step
import Saturation.Run

/-!
# Runs without a cap

A run advances by rounds, so its result is an iterate of `Search.next`.  `runFor_of_isHalted` makes
this exact for runs that nothing but the search itself brings to an end: with a budget that is
large enough the run ends at the first iterate that has come to an end, and it has called for one
round for each iterate before.

The budget is a means to make the run a total function.  `runFor_of_le` shows that it is no more
than that: a budget that was not used up might as well have been larger.
-/

namespace Saturation

/-- The searches that a run hands over, one after each round. -/
def Run.checkpoints (r : Run) : List Search :=
  r.events.filterMap fun
    | .checkpoint s => some s
    | .note _ => none

lemma Run.checkpoints_after (notes : List Note) (s : Search) (r : Run) :
    (r.after (notes.map Event.note ++ [.checkpoint s])).checkpoints = s :: r.checkpoints := by
  simp [Run.checkpoints, Run.after, List.filterMap_append]

namespace Search

variable {m : Mode} {s : Search} {l : Limits}

/-! ## Budgets -/

lemma runFor_of_halted (budget : ℕ) (patience : Option ℕ) (h : s.isHalted = true) :
    s.runFor m l budget patience = { search := s, ending := .halted } := by
  cases budget with
  | zero => simp [runFor, h]
  | succ budget => simp [runFor, h]

lemma runFor_succ (budget : ℕ) (hs : s.isHalted = false) (hstop : l.stop s = .ok false)
    (hfault : (s.round l.aloud m).fault? = none) :
    s.runFor m l (budget + 1) none =
      ((s.round l.aloud m).search.runFor m l budget none).after
        ((s.round l.aloud m).notes.map Event.note ++ [.checkpoint (s.round l.aloud m).search]) := by
  have hround : (if l.aloud = true then s.advanceAloud m else s.advance m) =
      s.round l.aloud m := rfl
  simp only [runFor, hs, hstop, hround, hfault]
  rfl

lemma runFor_add_one (budget : ℕ) (patience : Option ℕ)
    (h : (s.runFor m l budget patience).ending ≠ .capped) :
    s.runFor m l (budget + 1) patience = s.runFor m l budget patience := by
  induction budget generalizing s patience with
  | zero =>
      cases hs : s.isHalted with
      | true => rw [runFor_of_halted _ _ hs, runFor_of_halted _ _ hs]
      | false =>
          simp [runFor, hs] at h
  | succ budget ih =>
      cases hs : s.isHalted with
      | true => rw [runFor_of_halted _ _ hs, runFor_of_halted _ _ hs]
      | false =>
          rw [runFor, runFor]
          rw [runFor] at h
          simp only [hs, Bool.false_eq_true, if_false] at h ⊢
          cases hstop : l.stop s with
          | error fault => rfl
          | ok stop =>
              rw [hstop] at h
              cases stop with
              | true => rfl
              | false =>
                  by_cases hpatience : patience = some 0
                  · simp [hpatience]
                  · simp only [hpatience, if_false] at h ⊢
                    generalize (if l.aloud then s.advanceAloud m else s.advance m) = round at h ⊢
                    cases hfault : round.fault? with
                    | some fault => rfl
                    | none =>
                        rw [hfault] at h
                        dsimp only at h ⊢
                        rw [ih _ h]

/-- **A budget that was not used up might as well have been larger.** -/
lemma runFor_of_le {budget larger : ℕ} {patience : Option ℕ} (hle : budget ≤ larger)
    (h : (s.runFor m l budget patience).ending ≠ .capped) :
    s.runFor m l larger patience = s.runFor m l budget patience := by
  induction hle with
  | refl => rfl
  | step _ ih =>
      rw [runFor_add_one _ _ (by rwa [ih]), ih]

/-! ## Runs as iterates -/

/-- **A run that nothing else brings to an end ends with the search**, after as many rounds. -/
lemma runFor_of_isHalted {k budget : ℕ} (hj : s.journal.Continuable)
    (hstop : ∀ t, l.stop t = .ok false)
    (hrun : ∀ i < k, ((next m)^[i] s).isHalted = false)
    (hend : ((next m)^[k] s).isHalted = true)
    (htell : l.aloud = true → ∀ i < k, ((next m)^[i] s).canTell = true) (hbudget : k ≤ budget) :
    (s.runFor m l budget none).search = (next m)^[k] s ∧
      (s.runFor m l budget none).ending = .halted ∧
      (s.runFor m l budget none).checkpoints.length = k := by
  induction k generalizing s budget with
  | zero =>
      have hs : s.isHalted = true := hend
      rw [runFor_of_halted budget none hs]
      exact ⟨rfl, rfl, rfl⟩
  | succ k ih =>
      obtain ⟨budget, rfl⟩ := Nat.exists_eq_add_of_le' hbudget
      have hs : s.isHalted = false := hrun 0 (Nat.succ_pos k)
      have hround : s.round l.aloud m = s.advance m :=
        round_eq_advance m fun haloud => htell haloud 0 (Nat.succ_pos k)
      have hfault : (s.round l.aloud m).fault? = none := by
        rw [hround]
        exact (step_advance m hs hj).2
      have hnext : (s.round l.aloud m).search = s.next m := by
        rw [hround]
        rfl
      have hrun' : ∀ i < k, ((next m)^[i] (s.next m)).isHalted = false := by
        intro i hi
        exact hrun (i + 1) (by omega)
      have htell' : l.aloud = true → ∀ i < k, ((next m)^[i] (s.next m)).canTell = true := by
        intro haloud i hi
        exact htell haloud (i + 1) (by omega)
      obtain ⟨hsearch, hending, hlength⟩ :=
        ih (continuable_next m hj) hrun' hend htell' (Nat.le_add_left k budget)
      rw [← Nat.add_assoc, runFor_succ _ hs (hstop s) hfault, hnext]
      refine ⟨hsearch, hending, ?_⟩
      rw [Run.checkpoints_after, List.length_cons, hlength]

end Search

end Saturation
