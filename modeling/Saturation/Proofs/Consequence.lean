import Saturation.Proofs.Closure
import Saturation.Samples

/-!
# What follows from what was given

A conclusion of a round fails to follow from the known clauses only if its strike went too far
(`Clause.Overstrikes`); `Overdraws` collects the conclusions of the next round that come about so.
Under an assignment that makes them true a step keeps the known clauses true (`Step.holds`), and it
does not refute (`Step.verdict_ne_unsatisfiable`).  Hence all that is known after some rounds is
true if what was given is and what the rounds before have overdrawn (`holds_iterate`).

A strike goes too far only if one of the two clauses is a tautology.  So as long as none is known,
what is known follows from what was given, and a refutation is right (`entails_of_no_tautology`).
-/

namespace Saturation

open ClauseSet

variable {m : Mode} {v : Assignment} {es : List Entry}

/-- Clauses that are no tautologies lose one literal each, and not the same one. -/
lemma Clause.not_overstrikes {l : Literal} {c d : Clause} (hl : l ∈ c)
    (hc : c.isTautology = false) (hd : d.isTautology = false) : ¬ Overstrikes l c d := by
  rintro ⟨⟨hld, hld'⟩ | ⟨hlc, -⟩, -⟩
  · rw [isTautology_iff.2 ⟨l, hld, hld'⟩] at hd
    cases hd
  · rw [isTautology_iff.2 ⟨l, hl, hlc⟩] at hc
    cases hc

namespace Search

variable {s t : Search}

/-- All known clauses are true. -/
def Holds (v : Assignment) (s : Search) : Prop := ∀ c ∈ s.known, c.Holds v

/-- The clause is a conclusion of the next round by a strike that goes too far.  All pairs of the
round count, also those after the first that gives the empty clause. -/
def Overdraws (m : Mode) (s : Search) (r : Clause) : Prop :=
  ∃ pair ∈ Round.pairs s.frontier s.seen, ∃ l ∈ pair.1.clause,
    m.tries l pair.2.clause = true ∧ Clause.Overstrikes l pair.1.clause pair.2.clause ∧
      Clause.resolvent l pair.1.clause pair.2.clause = r

/-! ## One step -/

/-- What a round draws from true clauses is true, if what it overdraws is. -/
lemma Holds.conclusion (hs : s.Holds v) (hover : ∀ r, s.Overdraws m r → r.Holds v)
    {pair : Entry × Entry} (hpair : pair ∈ Round.pairs s.frontier s.seen) {r : Clause}
    (hr : r ∈ Round.conclusions m pair) : r.Holds v := by
  obtain ⟨l, hl, htries, rfl⟩ := Clause.mem_conclusions.1 hr
  have hfst : pair.1.clause.Holds v :=
    hs _ (mem_known.2 (.inr (Round.fst_mem_of_mem_pairs hpair)))
  have hsnd : pair.2.clause.Holds v := hs _ (Round.snd_mem_of_mem_pairs hpair)
  by_cases h : Clause.Overstrikes l pair.1.clause pair.2.clause
  · exact hover _ ⟨pair, hpair, l, hl, htries, h, rfl⟩
  · exact Clause.holds_resolvent hl hfst hsnd h

/-- **A step keeps what is known true**, if what it overdraws is. -/
lemma Step.holds (h : Step m s t) (hover : ∀ r, s.Overdraws m r → r.Holds v) (hs : s.Holds v) :
    t.Holds v := by
  cases h with
  | refutes => exact hs
  | saturates => exact hs
  | continues _ _ hfound =>
      intro c hc
      rcases mem_known.1 hc with hc | hc
      · exact hs c (mem_minimal.1 hc).1
      · obtain ⟨pair, hpair, hr, -⟩ := (hfound c).1 (mem_minimal.1 hc).1
        exact hs.conclusion hover hpair hr

/-- The empty clause is not true, so a step that keeps what is known true does not refute. -/
lemma Step.verdict_ne_unsatisfiable (h : Step m s t)
    (hover : ∀ r, s.Overdraws m r → r.Holds v) (hs : s.Holds v)
    (hverdict : s.verdict ≠ .unsatisfiable) : t.verdict ≠ .unsatisfiable := by
  cases h with
  | refutes hempty =>
      rcases hempty with hempty | ⟨pair, hpair, hempty⟩
      · exact absurd (hs ∅ (mem_known.2 (.inr hempty))) (Clause.not_holds_empty v)
      · exact absurd (hs.conclusion hover hpair hempty) (Clause.not_holds_empty v)
  | saturates _ _ _ _ _ hanswer =>
      simp [verdict, Journal.verdict_of_answer hanswer]
  | continues _ _ _ _ _ _ hanswer =>
      rw [verdict, Journal.verdict_congr hanswer]
      exact hverdict

/-! ## Many rounds -/

lemma holds_start (hv : Satisfies v es) : (start es).Holds v := by
  intro c hc
  rcases mem_known.1 hc with hc | hc
  · exact absurd hc (not_mem_empty c)
  · obtain ⟨e, he, rfl⟩ := List.mem_map.1 (mem_ofEntries.1 (mem_minimal.1 hc).1)
    exact hv e he

/-- **All that is known after some rounds is true**, and there is no refutation, if the given
clauses are true and so is what the rounds before have overdrawn.  By induction on the rounds. -/
lemma holds_iterate (hv : Satisfies v es) {n : ℕ}
    (hover : ∀ k < n, ((next m)^[k] (start es)).isHalted = false →
      ∀ r, ((next m)^[k] (start es)).Overdraws m r → r.Holds v) :
    ((next m)^[n] (start es)).Holds v ∧
      ((next m)^[n] (start es)).verdict ≠ .unsatisfiable := by
  induction n with
  | zero =>
      refine ⟨holds_start hv, ?_⟩
      simp
  | succ n ih =>
      obtain ⟨hholds, hverdict⟩ := ih fun k hk => hover k (Nat.lt_succ_of_lt hk)
      rw [Function.iterate_succ_apply']
      cases hs : ((next m)^[n] (start es)).isHalted with
      | true =>
          rw [next_of_isHalted m hs]
          exact ⟨hholds, hverdict⟩
      | false =>
          have hstep := step_next m hs (continuable_iterate m n (continuable_start es))
          have hover := hover n (Nat.lt_succ_self n) hs
          exact ⟨hstep.holds hover hholds, hstep.verdict_ne_unsatisfiable hover hholds hverdict⟩

/-! ## Without tautologies -/

lemma not_overdraws (h : ∀ c ∈ s.known, c.isTautology = false) (r : Clause) :
    ¬ s.Overdraws m r := by
  rintro ⟨pair, hpair, l, hl, -, hover, -⟩
  have hfst : pair.1.clause.isTautology = false :=
    h _ (mem_known.2 (.inr (Round.fst_mem_of_mem_pairs hpair)))
  have hsnd : pair.2.clause.isTautology = false := h _ (Round.snd_mem_of_mem_pairs hpair)
  exact Clause.not_overstrikes hl hfst hsnd hover

/-- **As long as no tautology is known, what is known follows from what was given.**  If there is
none among the known clauses up to some round, then after the next round, whatever it has
concluded, all known clauses follow from the given ones; and if that round refutes them, they are
unsatisfiable. -/
theorem entails_of_no_tautology (m : Mode) (es : List Entry) (n : ℕ)
    (h : ∀ k ≤ n, ∀ c ∈ ((next m)^[k] (start es)).known, c.isTautology = false) :
    (∀ c ∈ ((next m)^[n + 1] (start es)).known, Entails es c) ∧
      (((next m)^[n + 1] (start es)).verdict = .unsatisfiable → ¬ Satisfiable es) := by
  have hholds : ∀ v, Satisfies v es → ((next m)^[n + 1] (start es)).Holds v ∧
      ((next m)^[n + 1] (start es)).verdict ≠ .unsatisfiable := by
    intro v hv
    refine holds_iterate hv fun k hk _ r hr => ?_
    exact absurd hr (not_overdraws (h k (Nat.le_of_lt_succ hk)) r)
  constructor
  · intro c hc v hv
    exact (hholds v hv).1 c hc
  · rintro hunsat ⟨v, hv⟩
    exact (hholds v hv).2 hunsat

/-- No tautology is known in the rounds that refute this chain of implications. -/
theorem entails_of_no_tautology_chain :
    (∀ k ≤ 2, ∀ c ∈ ((next .permissive)^[k] (start Sample.chain.entries)).known,
      c.isTautology = false) ∧
    (∀ c ∈ ((next .permissive)^[3] (start Sample.chain.entries)).known,
      Entails Sample.chain.entries c) ∧
    ((next .permissive)^[3] (start Sample.chain.entries)).verdict = .unsatisfiable ∧
    ¬ Satisfiable Sample.chain.entries := by
  have hclean : ∀ k ≤ 2,
      ∀ c ∈ ((next .permissive)^[k] (start Sample.chain.entries)).known.clauses,
        c.isTautology = false := by
    decide +kernel
  have hunsat : ((next .permissive)^[3] (start Sample.chain.entries)).verdict =
      .unsatisfiable := by
    decide +kernel
  obtain ⟨hentails, hright⟩ := entails_of_no_tautology .permissive Sample.chain.entries 2 hclean
  exact ⟨hclean, hentails, hunsat, hright hunsat⟩

end Search

end Saturation
