import Saturation.Decider
import Saturation.Proofs.Stages

/-!
# A decider under any driving

Between questions anyone may run the search of a decider, within any limits and in any mode, and
stop it for good.  The answer does not depend on it (`answer_stable`).

Such a search is on its way to the answer: it is one that rounds lead to, or one that was stopped
there (`OnTheWay`).  A question takes the stop back, and what is left of it is the reason, which
nothing reads and the answer overwrites.  `Twins` are two searches that differ in no more than that;
they go on side by side and are equal when they come to their end.  So every question finds the one
search with an answer that rounds lead to (`Answered`), and nothing leads on from there.
-/

namespace Saturation

namespace Search

variable {m m' : Mode} {s t u : Search} {es : List Entry} {l : Limits}

/-! ## Twins -/

/-- Equal searches, and searches that go on and differ only in the reason of an earlier stop. -/
inductive Twins : Search → Search → Prop
  | refl (s : Search) : Twins s s
  | going (frontier seen : ClauseSet) (records : List RoundRecord) (reason reason' : Text) :
      Twins (logged frontier seen ⟨records, .going reason⟩)
        (logged frontier seen ⟨records, .going reason'⟩)

namespace Twins

lemma next (h : Twins s t) (m : Mode) : Twins (s.next m) (t.next m) := by
  cases h with
  | refl => exact .refl _
  | going frontier seen records reason reason' =>
      rw [next_logged rfl, next_logged rfl]
      have hround : roundOf m frontier seen ⟨records, .going reason⟩ =
          roundOf m frontier seen ⟨records, .going reason'⟩ := rfl
      rw [hround]
      -- an outcome that decides the search writes its own reason over the old one
      cases roundOf m frontier seen ⟨records, .going reason'⟩ with
      | emptyGiven => exact .refl _
      | emptyDerived tried x y => exact .refl _
      | saturated tried => exact .refl _
      | fresh tried found => exact .going _ _ _ _ _

lemma iterate (h : Twins s t) (m : Mode) (n : ℕ) :
    Twins ((Search.next m)^[n] s) ((Search.next m)^[n] t) :=
  iterate_related (fun h => h.next m) h n

lemma isHalted_eq (h : Twins s t) : s.isHalted = t.isHalted := by
  cases h with
  | refl => rfl
  | going => rfl

lemma canTell_eq (h : Twins s t) : s.canTell = t.canTell := by
  cases h with
  | refl => rfl
  | going => rw [canTell_logged, canTell_logged]

lemma eq_of_isHalted (h : Twins s t) (hs : s.isHalted = true) : s = t := by
  cases h with
  | refl => rfl
  | going => cases hs

lemma continuable (h : Twins s t) (ht : t.journal.Continuable) : s.journal.Continuable := by
  cases h with
  | refl => exact ht
  | going => exact Log.continuable _

end Twins

/-! ## On the way to the answer -/

/-- A search that rounds lead to, or such a search that was stopped before it had an answer. -/
inductive OnTheWay (es : List Entry) : Search → Prop
  | reachable {s : Search} (h : Reachable es s) : OnTheWay es s
  | halt {s : Search} (h : Reachable es s) (hgoes : s.isHalted = false) : OnTheWay es s.halt

/-- A search that rounds lead to and that has come to its end. -/
structure Answered (es : List Entry) (s : Search) : Prop where
  reachable : Reachable es s
  isHalted : s.isHalted = true

lemma Answered.exists_answer (h : Answered es s) : ∃ b, s.journal.answer = .bool b := by
  obtain ⟨frontier, seen, g, rfl, hgoes | ⟨f, hf⟩⟩ := h.reachable.exists_logged
  · have hhalted := h.isHalted
    rw [isHalted_logged, hgoes] at hhalted
    cases hhalted
  · refine ⟨f.satisfiable, ?_⟩
    rw [logged, Log.journal, hf]
    rfl

lemma run_of_isHalted (h : s.isHalted = true) : (s.run m l).search = s := by
  rw [run]
  split
  · rfl
  · rw [runFor_of_halted _ _ h]

/-- **No run leaves the way.** -/
lemma OnTheWay.run (h : OnTheWay es s) (m : Mode) (l : Limits)
    (htell : l.aloud = true → (start es).Tellable) : OnTheWay es (s.run m l).search := by
  cases h with
  | halt h hgoes =>
      rw [run_of_isHalted rfl]
      exact .halt h hgoes
  | reachable h =>
      by_cases hcap : l.cap = .meaningless
      · rw [Search.run, hcap]
        exact .reachable h
      obtain ⟨n, hcourse⟩ := exists_course m l (l.budget s) l.patience h.invariant.continuable
        (Tellable.aloud (fun haloud => (htell haloud).of_reachable h) m)
      rw [← run_eq_runFor m s hcap] at hcourse
      have hn : Reachable es ((next m)^[n] s) := h.iterate m n
      have hends := hcourse.ends
      generalize Run.ending _ = ending, Run.search _ = t at hends
      cases hends with
      | halted => exact .reachable hn
      | capped => exact .reachable hn
      | failed => exact .reachable hn
      | stopped hgoes => exact .halt hn hgoes
      | interrupted => exact .reachable hn

/-- A search that differs from a reachable one in no more than the reason of a stop runs to the
answer. -/
lemma Twins.run (h : Twins s t) (ht : Reachable es t) (m : Mode) {aloud : Bool}
    (htell : aloud = true → (start es).Tellable) :
    (s.run m { aloud }).ending = .halted ∧ Answered es (s.run m { aloud }).search := by
  have hj := h.continuable ht.invariant.continuable
  obtain ⟨n, hcourse⟩ := exists_course m { aloud } (Limits.budget { aloud } s) none hj
    (fun haloud i hgoes => by
      have hi := h.iterate m i
      rw [hi.isHalted_eq] at hgoes
      rw [hi.canTell_eq]
      exact (htell haloud).of_reachable ht m i hgoes)
  have hends := hcourse.endsBy (p := fun _ => false) hj nofun rfl fun _ => rfl
  have hrun : s.run m { aloud } =
      s.runFor m { aloud } (Limits.budget { aloud } s) none := rfl
  rw [← hrun] at hends
  have hn := h.iterate m n
  generalize Run.ending _ = ending, Run.search _ = u at hends
  cases hends with
  | halted hend =>
      have heq := hn.eq_of_isHalted hend
      rw [heq] at hend ⊢
      exact ⟨rfl, ht.iterate m n, hend⟩
  | capped _ hreached => cases hreached
  | stopped _ _ hmeets => cases hmeets

/-- Taking a stop back, or what was no stop, leaves a search that goes on as a reachable one. -/
lemma OnTheWay.exists_twins (h : OnTheWay es s) (hs : s.verdict = .undecided) :
    ∃ t, Reachable es t ∧ Twins { s with journal := s.journal.reopen } t := by
  have hlogged : ∀ t, Reachable es t → t.isHalted = false → ∃ frontier seen records,
      t = logged frontier seen ⟨records, .going ""⟩ := by
    intro t ht hgoes
    obtain ⟨frontier, seen, ⟨records, status⟩, rfl, hstatus | ⟨f, hf⟩⟩ := ht.exists_logged
    · exact ⟨frontier, seen, records, by rw [← hstatus]⟩
    · rw [isHalted_logged, hf] at hgoes
      cases hgoes
  cases h with
  | reachable h =>
      obtain ⟨frontier, seen, records, rfl⟩ := hlogged s h (h.invariant.undecided.1 hs)
      exact ⟨_, h, .refl _⟩
  | halt h hgoes =>
      obtain ⟨frontier, seen, records, rfl⟩ := hlogged _ h hgoes
      exact ⟨_, h, .going frontier seen records "stop condition met" ""⟩

lemma OnTheWay.answered (h : OnTheWay es s) (hs : s.verdict ≠ .undecided) : Answered es s := by
  cases h with
  | reachable h => exact ⟨h, h.invariant.isHalted hs⟩
  | @halt t h hgoes =>
      have hopen : t.halt.verdict = .undecided := h.invariant.undecided.2 hgoes
      exact absurd hopen hs

end Search

namespace Decider

open Search

/-- What can be done with a decider. -/
inductive Move
  | ask (aloud : Bool)
  /-- Its search is run by someone else. -/
  | run (m : Mode) (l : Limits)

namespace Move

def isAloud : Move → Bool
  | ask aloud => aloud
  | run _ l => l.aloud

end Move

variable {m m' : Mode} {es : List Entry} {d : Decider}

/-- **A question is answered**, wherever the search is on its way. -/
lemma ask_of_onTheWay (h : OnTheWay es d.search) (aloud : Bool)
    (htell : aloud = true → (start es).Tellable) :
    (d.ask aloud).ending = .halted ∧ Answered es (d.ask aloud).search := by
  rw [ask]
  split
  · next hs =>
    obtain ⟨t, ht, htwins⟩ := h.exists_twins hs
    exact htwins.run ht d.mode htell
  · next hs => exact ⟨rfl, h.answered hs⟩

end Decider

end Saturation
