import Mathlib.Data.List.Iterate
import Saturation.Keeping
import Saturation.Proofs.Log

/-!
# The course of a run

A run looks for reasons to end in a fixed order before each round: the search has come to its end,
the rounds it was given are used up, the stop condition fails or holds, it is interrupted.  `Ends`
lists them, each with what it leaves behind, and `exists_course` says that a run advances along the
row of searches up to the first of them.  That is all there is to know of a run, whatever its
limits.

The checkpoints are the searches of the row that the run has come by, without the one it began
with; the last of them is the one that is saved (`Course.saved?`).  Where a file is kept, each of
them is written over the one before, so the text of the last one is what is left (`keep_eq`).
-/

namespace Saturation

namespace Search

variable {m : Mode} {s t : Search} {l : Limits} {budget n : ℕ} {patience : Option ℕ}

/-! ## Endings -/

/-- The search as a stop condition leaves it. -/
def halt (s : Search) : Search := { s with journal := s.journal.stop }

/-- Why a run ends at a search after so many rounds, and what it leaves of the search. -/
inductive Ends (l : Limits) (budget : ℕ) (patience : Option ℕ) (n : ℕ) (t : Search) :
    Ending → Search → Prop
  | halted (hend : t.isHalted = true) : Ends l budget patience n t .halted t
  | capped (hgoes : t.isHalted = false) (hused : n = budget) :
      Ends l budget patience n t .capped t
  | failed {fault : Fault} (hgoes : t.isHalted = false) (hleft : n < budget)
      (hstop : l.stop t = .error fault) : Ends l budget patience n t (.failed fault) t
  | stopped (hgoes : t.isHalted = false) (hleft : n < budget) (hstop : l.stop t = .ok true) :
      Ends l budget patience n t .stopped t.halt
  | interrupted (hgoes : t.isHalted = false) (hleft : n < budget) (hstop : l.stop t = .ok false)
      (hpatience : patience = some n) : Ends l budget patience n t .interrupted t

/-- A run does not end at a search after so many rounds. -/
structure GoesOn (l : Limits) (patience : Option ℕ) (n : ℕ) (t : Search) : Prop where
  goes : t.isHalted = false
  stop : l.stop t = .ok false
  patience : patience ≠ some n

lemma map_pred_eq_some (h : patience ≠ some 0) :
    patience.map (· - 1) = some n ↔ patience = some (n + 1) := by
  cases patience with
  | none => simp
  | some k =>
      have hk : k ≠ 0 := fun hk => h (congrArg some hk)
      rw [Option.map_some, Option.some.injEq, Option.some.injEq]
      omega

/-- What ends the rest of a run after a first round ends the run. -/
lemma Ends.succ {ending : Ending} {u : Search} (hpatience : patience ≠ some 0)
    (h : Ends l budget (patience.map (· - 1)) n t ending u) :
    Ends l (budget + 1) patience (n + 1) t ending u := by
  cases h with
  | halted hend => exact .halted hend
  | capped hgoes hused => exact .capped hgoes (by rw [hused])
  | failed hgoes hleft hstop => exact .failed hgoes (Nat.succ_lt_succ hleft) hstop
  | stopped hgoes hleft hstop => exact .stopped hgoes (Nat.succ_lt_succ hleft) hstop
  | interrupted hgoes hleft hstop hn =>
      exact .interrupted hgoes (Nat.succ_lt_succ hleft) hstop ((map_pred_eq_some hpatience).1 hn)

/-- Of the limits only the stop condition has a say in this, beside the budget and the patience. -/
lemma Ends.of_stop_eq {ending : Ending} {u : Search} {l' : Limits}
    (h : Ends l budget patience n t ending u) (hstop : l.stop t = l'.stop t) :
    Ends l' budget patience n t ending u := by
  cases h with
  | halted hend => exact .halted hend
  | capped hgoes hused => exact .capped hgoes hused
  | failed hgoes hleft hfail => exact .failed hgoes hleft (hstop ▸ hfail)
  | stopped hgoes hleft hstops => exact .stopped hgoes hleft (hstop ▸ hstops)
  | interrupted hgoes hleft hgo hn => exact .interrupted hgoes hleft (hstop ▸ hgo) hn

lemma GoesOn.succ (hpatience : patience ≠ some 0)
    (h : GoesOn l (patience.map (· - 1)) n t) : GoesOn l patience (n + 1) t where
  goes := h.goes
  stop := h.stop
  patience := mt (map_pred_eq_some hpatience).2 h.patience

/-- Before each round either something ends the run or it goes on. -/
lemma ends_or_goesOn (l : Limits) (budget : ℕ) (patience : Option ℕ) (s : Search) :
    (∃ ending t, Ends l budget patience 0 s ending t) ∨ 0 < budget ∧ GoesOn l patience 0 s := by
  cases hs : s.isHalted with
  | true => exact .inl ⟨_, _, .halted hs⟩
  | false =>
      rcases Nat.eq_zero_or_pos budget with hused | hleft
      · exact .inl ⟨_, _, .capped hs hused.symm⟩
      · cases hstop : l.stop s with
        | error fault => exact .inl ⟨_, _, .failed hs hleft hstop⟩
        | ok stop =>
            cases stop with
            | true => exact .inl ⟨_, _, .stopped hs hleft hstop⟩
            | false =>
                by_cases hpatience : patience = some 0
                · exact .inl ⟨_, _, .interrupted hs hleft hstop hpatience⟩
                · exact .inr ⟨hleft, hs, hstop, hpatience⟩

/-! ## Runs -/

/-- A run that advances along the row for so many rounds, because nothing ends it before, and ends
there. -/
structure Course (m : Mode) (l : Limits) (budget : ℕ) (patience : Option ℕ) (s : Search) (r : Run)
    (n : ℕ) : Prop where
  le : n ≤ budget
  before : ∀ i < n, GoesOn l patience i ((next m)^[i] s)
  ends : Ends l budget patience n ((next m)^[n] s) r.ending r.search
  checkpoints : r.checkpoints = List.iterate (next m) (s.next m) n

lemma runFor_of_ends {ending : Ending} (h : Ends l budget patience 0 s ending t) :
    s.runFor m l budget patience = { search := t, ending } := by
  cases h with
  | halted hend => exact runFor_of_halted budget patience hend
  | capped hgoes hused =>
      rw [← hused]
      simp [runFor, hgoes]
  | failed hgoes hleft hstop =>
      obtain ⟨budget, rfl⟩ := Nat.exists_eq_add_of_le' hleft
      simp [runFor, hgoes, hstop]
  | stopped hgoes hleft hstop =>
      obtain ⟨budget, rfl⟩ := Nat.exists_eq_add_of_le' hleft
      simp [runFor, hgoes, hstop, halt]
  | interrupted hgoes hleft hstop hpatience =>
      obtain ⟨budget, rfl⟩ := Nat.exists_eq_add_of_le' hleft
      simp [runFor, hgoes, hstop, hpatience]

lemma course_of_ends {ending : Ending} (h : Ends l budget patience 0 s ending t) :
    Course m l budget patience s (s.runFor m l budget patience) 0 := by
  rw [runFor_of_ends h]
  exact ⟨Nat.zero_le budget, nofun, h, rfl⟩

/-- A run that goes on takes a round and goes on from there. -/
lemma runFor_of_goesOn (h : GoesOn l patience 0 s) (hfault : (s.round l.aloud m).fault? = none) :
    s.runFor m l (budget + 1) patience =
      ((s.round l.aloud m).search.runFor m l budget (patience.map (· - 1))).after
        ((s.round l.aloud m).notes.map Event.note ++ [.checkpoint (s.round l.aloud m).search]) := by
  have hround : (if l.aloud = true then s.advanceAloud m else s.advance m) =
      s.round l.aloud m := rfl
  simp only [runFor, h.goes, h.stop, h.patience, hround, hfault]
  rfl

/-- A run that goes on and whose round fails ends there. -/
lemma runFor_of_fault {fault : Fault} (h : GoesOn l patience 0 s)
    (hfault : (s.round l.aloud m).fault? = some fault) :
    s.runFor m l (budget + 1) patience =
      { search := (s.round l.aloud m).search, events := (s.round l.aloud m).notes.map .note,
        ending := .failed fault } := by
  have hround : (if l.aloud = true then s.advanceAloud m else s.advance m) =
      s.round l.aloud m := rfl
  simp only [runFor, h.goes, h.stop, h.patience, hround, hfault]
  rfl

/-- **Every run has a course**: it advances along the row up to the first reason to end. -/
theorem exists_course (m : Mode) (l : Limits) (budget : ℕ) (patience : Option ℕ)
    (hj : s.journal.Continuable)
    (htell : l.aloud = true → ∀ i, ((next m)^[i] s).isHalted = false →
      ((next m)^[i] s).canTell = true) :
    ∃ n, Course m l budget patience s (s.runFor m l budget patience) n := by
  induction budget generalizing s patience with
  | zero =>
      rcases ends_or_goesOn l 0 patience s with ⟨ending, t, hends⟩ | ⟨hleft, _⟩
      · exact ⟨0, course_of_ends hends⟩
      · cases hleft
  | succ budget ih =>
      rcases ends_or_goesOn l (budget + 1) patience s with ⟨ending, t, hends⟩ | ⟨_, hgoes⟩
      · exact ⟨0, course_of_ends hends⟩
      have hround : s.round l.aloud m = s.advance m :=
        round_eq_advance m fun haloud => htell haloud 0 hgoes.goes
      have hfault : (s.round l.aloud m).fault? = none := by
        rw [hround]
        exact (step_advance m hgoes.goes hj).2
      have hnext : (s.round l.aloud m).search = s.next m := by
        rw [hround]
        rfl
      obtain ⟨n, hle, hbefore, hends, hcheckpoints⟩ := ih (patience.map (· - 1))
        (continuable_next m hj) fun haloud i => htell haloud (i + 1)
      rw [runFor_of_goesOn hgoes hfault, hnext]
      refine ⟨n + 1, Nat.succ_le_succ hle, ?_, hends.succ hgoes.patience, ?_⟩
      · rintro (_ | i) hi
        · exact hgoes
        · exact (hbefore i (Nat.lt_of_succ_lt_succ hi)).succ hgoes.patience
      · rw [Run.checkpoints_after, hcheckpoints, List.iterate]

/-! ## Checkpoints -/

lemma saved?_eq_getLast? (r : Run) : r.saved? = r.checkpoints.getLast? := by
  rw [Run.checkpoints, ← List.head?_reverse, ← List.filterMap_reverse, List.head?_filterMap]
  rfl

/-- **What is saved last is the search after the last round**, if there was a round. -/
lemma Course.saved? {r : Run} (h : Course m l budget patience s r n) :
    r.saved? = if n = 0 then none else some ((Search.next m)^[n] s) := by
  rw [saved?_eq_getLast?, h.checkpoints]
  cases n with
  | zero => rfl
  | succ n =>
      rw [if_neg (Nat.succ_ne_zero n), List.getLast?_eq_getElem?, List.length_iterate,
        Nat.add_sub_cancel, List.getElem?_iterate _ _ _ _ (Nat.lt_succ_self n)]
      rfl

/-! ## Files -/

/-- If every search that is handed over can be saved in full, the events to come are those of the
run without a file, and the last of these searches is the one in the file; by induction on the
events. -/
lemma keepFrom_eq (r : Run) (events : List Event) (before : Option String)
    (h : ∀ t ∈ ({ r with events } : Run).checkpoints, t.saveFault? = none) :
    r.keepFrom events before =
      { run := { r with events }
        text? := (({ r with events } : Run).checkpoints.getLast?.map save).or before } := by
  induction events generalizing before with
  | nil => rfl
  | cons event events ih =>
      cases event with
      | note n =>
          rw [Run.keepFrom, ih before h]
          rfl
      | checkpoint t =>
          have hcheckpoints : ({ r with events := .checkpoint t :: events } : Run).checkpoints =
              t :: ({ r with events } : Run).checkpoints := rfl
          rw [hcheckpoints, List.forall_mem_cons] at h
          rw [hcheckpoints, Run.keepFrom, h.1, List.getLast?_cons]
          dsimp only
          rw [ih (some t.save) h.2]
          cases ({ r with events } : Run).checkpoints.getLast? with
          | none => rfl
          | some u => rfl

/-- **A file is left with the text of the last checkpoint**, or as it was before if there is none,
and keeping it makes no difference to the run. -/
lemma keep_eq {r : Run} (h : ∀ t ∈ r.checkpoints, t.saveFault? = none) (before : Option String) :
    r.keep before = { run := r, text? := (r.saved?.map save).or before } := by
  rw [saved?_eq_getLast?]
  exact keepFrom_eq r r.events before h

/-- A run along a row of searches that can all be saved leaves the text of the last one. -/
lemma Course.keep_eq {r : Run} (h : Course m l budget patience s r n)
    (hsaved : ∀ i, ((Search.next m)^[i] s).saveFault? = none) (before : Option String) :
    r.keep before =
      { run := r, text? := if n = 0 then before else some ((Search.next m)^[n] s).save } := by
  have hcheckpoints : ∀ t ∈ r.checkpoints, t.saveFault? = none := by
    rw [h.checkpoints]
    intro t ht
    obtain ⟨i, -, rfl⟩ := List.mem_iterate.1 ht
    exact hsaved (i + 1)
  rw [Search.keep_eq hcheckpoints, h.saved?]
  split
  · rfl
  · rfl

end Search

end Saturation
