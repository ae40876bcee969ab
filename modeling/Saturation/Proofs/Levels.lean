import Saturation.Proofs.Termination

/-!
# Levels

Resolution can be done by levels without dropping anything: the first level is what was given, and
each level adds all resolvents of two clauses of the one before (`level`).  The resolvent is the
usual one, the cut (`Clause.cut`): either clause loses one literal of the two, where a round strikes
both literals out of both clauses.

A search keeps fewer clauses and works with others, with parts of those in a level.  The parts may
lack the literal that is cut, they may be one and the same clause, or they have met long before.  In
each case the cut is covered (`ClauseSet.covers_cut`).  So after as many rounds every clause of a
level is covered (`covers_of_mem_level`), and a refutation takes no more rounds than there are
levels up to the empty clause (`level_bound`).
-/

namespace Saturation

open ClauseSet

/-! ## Cuts -/

namespace Clause

/-- The resolvent as it is usually defined: the first clause loses the literal and the second one
its complement. -/
def cut (l : Literal) (c d : Clause) : Clause :=
  c \ .ofLiterals [l] ∪ d \ .ofLiterals [l.complement]

variable {k l : Literal} {b c d e : Clause}

lemma mem_cut : k ∈ cut l c d ↔ k ∈ c ∧ k ≠ l ∨ k ∈ d ∧ k ≠ l.complement := by
  simp [cut]

lemma cut_subset_cut (hbc : b ⊆ c) (hde : d ⊆ e) : cut l b d ⊆ cut l c e := by
  intro k hk
  rcases mem_cut.1 hk with ⟨hk, hne⟩ | ⟨hk, hne⟩
  · exact mem_cut.2 (.inl ⟨hbc k hk, hne⟩)
  · exact mem_cut.2 (.inr ⟨hde k hk, hne⟩)

lemma left_subset_cut (hl : l ∉ c) : c ⊆ cut l c d := by
  intro k hk
  refine mem_cut.2 (.inl ⟨hk, ?_⟩)
  rintro rfl
  exact hl hk

lemma right_subset_cut (hl : l.complement ∉ d) : d ⊆ cut l c d := by
  intro k hk
  refine mem_cut.2 (.inr ⟨hk, ?_⟩)
  rintro rfl
  exact hl hk

/-- Cut with itself a clause is left whole: each copy keeps what the other one loses. -/
lemma subset_cut_self : c ⊆ cut l c c := by
  intro k hk
  by_cases hkl : k = l
  · refine mem_cut.2 (.inr ⟨hk, ?_⟩)
    rw [hkl]
    exact (Literal.complement_ne l).symm
  · exact mem_cut.2 (.inl ⟨hk, hkl⟩)

lemma resolvent_subset_cut (hl : l.complement ∈ d) : resolvent l c d ⊆ cut l c d := by
  intro k hk
  obtain ⟨hk | hk, hne, hne'⟩ := (mem_resolvent_of_meet (mem_union.2 (.inr hl))).1 hk
  · exact mem_cut.2 (.inl ⟨hk, hne⟩)
  · exact mem_cut.2 (.inr ⟨hk, hne'⟩)

/-- The cuts of two clauses on every literal that allows one. -/
def cuts (c d : Clause) : List Clause :=
  (c.literals.filter fun l => l.complement ∈ d).map fun l => cut l c d

lemma mem_cuts : e ∈ cuts c d ↔ ∃ l ∈ c, l.complement ∈ d ∧ cut l c d = e := by
  simp [cuts, mem_def, and_assoc]

end Clause

/-- **What covers the resolvents of the members covers the cuts of what they cover.**  The members
that cover the two clauses may lack the literal, or its complement, or be the same member; then one
of them is left whole in the cut. -/
lemma ClauseSet.covers_cut {K L : ClauseSet} {c d : Clause} {l : Literal}
    (hKL : ∀ k ∈ K, L.covers k = true)
    (hmet : ∀ c ∈ K, ∀ d ∈ K, c ≠ d → ∀ l ∈ c, l.complement ∈ d →
      L.covers (Clause.resolvent l c d) = true)
    (hc : K.covers c = true) (hd : K.covers d = true) : L.covers (Clause.cut l c d) = true := by
  obtain ⟨x, hx, hxc⟩ := covers_iff.1 hc
  obtain ⟨y, hy, hyd⟩ := covers_iff.1 hd
  refine covers_of_subset ?_ (Clause.cut_subset_cut hxc hyd)
  by_cases hl : l ∈ x
  · by_cases hl' : l.complement ∈ y
    · by_cases hxy : x = y
      · rw [← hxy]
        exact covers_of_subset (hKL x hx) Clause.subset_cut_self
      · exact covers_of_subset (hmet x hx y hy hxy l hl hl') (Clause.resolvent_subset_cut hl')
    · exact covers_of_subset (hKL y hy) (Clause.right_subset_cut hl')
  · exact covers_of_subset (hKL x hx) (Clause.left_subset_cut hl)

/-! ## Levels -/

def withCuts (cs : List Clause) : List Clause :=
  cs ++ cs.flatMap fun c => cs.flatMap c.cuts

/-- The clauses of a list, and what is cut from them in so many levels. -/
def level (es : List Entry) : ℕ → List Clause
  | 0 => es.map Entry.clause
  | n + 1 => withCuts (level es n)

variable {es : List Entry} {n : ℕ} {c : Clause}

lemma mem_level_succ : c ∈ level es (n + 1) ↔ c ∈ level es n ∨
    ∃ x ∈ level es n, ∃ y ∈ level es n, ∃ l ∈ x, l.complement ∈ y ∧ Clause.cut l x y = c := by
  simp [level, withCuts, Clause.mem_cuts]

lemma level_mono {k : ℕ} (h : n ≤ k) (hc : c ∈ level es n) : c ∈ level es k := by
  induction h with
  | refl => exact hc
  | step _ ih => exact mem_level_succ.2 (.inl ih)

namespace Search

variable {m : Mode} {s : Search}

/-! ## Rounds and levels -/

/-- **After as many rounds every clause of a level is covered**, unless the search has refuted, by
induction on the levels. -/
theorem covers_of_mem_level (hverdict : ((next m)^[n] (start es)).verdict ≠ .unsatisfiable)
    (hc : c ∈ level es n) : ((next m)^[n] (start es)).known.covers c = true := by
  induction n generalizing c with
  | zero =>
      obtain ⟨e, he, rfl⟩ := List.mem_map.1 hc
      exact (invariant_start es).given e he
  | succ n ih =>
      have hbefore : ((next m)^[n] (start es)).verdict ≠ .unsatisfiable := by
        intro hunsat
        rw [iterate_eq_of_verdict (by simp [hunsat]) (Nat.le_succ n)] at hverdict
        exact hverdict hunsat
      have ih : ∀ {c}, c ∈ level es n → ((next m)^[n] (start es)).known.covers c = true :=
        fun hc => ih hbefore hc
      have hinv : Invariant es ((next m)^[n] (start es)) := (reachable_iterate m n).invariant
      rw [Function.iterate_succ_apply'] at hverdict ⊢
      have hstays : ∀ k, ((next m)^[n] (start es)).known.covers k = true →
          (((next m)^[n] (start es)).next m).known.covers k = true :=
        fun k hk => covers_iterate hinv.continuable hk 1
      rcases mem_level_succ.1 hc with hc | ⟨x, hx, y, hy, l, -, -, rfl⟩
      · exact hstays c (ih hc)
      · refine covers_cut (fun k hk => hstays k (covers_of_mem hk)) ?_ (ih hx) (ih hy)
        intro c hc d hd hne l hl hl'
        exact hinv.covers_resolvent hverdict hc hd hne hl hl'

/-- After a round the empty clause is not known, unless the search is refuted. -/
lemma Reachable.empty_not_mem_known (h : Reachable es s)
    (hverdict : (s.next m).verdict ≠ .unsatisfiable) : ∅ ∉ (s.next m).known := by
  have hinv : Invariant es (s.next m) := (h.next m).invariant
  cases ht : (s.next m).isHalted with
  | true => exact (hinv.saturated (hinv.satisfiable ht hverdict)).1
  | false =>
      have hstep := step_next m (isHalted_of_next ht) h.invariant.continuable
      exact (hstep.empty_not_mem_known ht).2

/-- **The search is as fast as the levels.**  As long as it goes on, every clause of a level has a
part among the known clauses after as many rounds; and if the empty clause is in a level, the search
has refuted after as many rounds, or after the first one if it was given.  So what is dropped on the
way never costs a round. -/
theorem level_bound (m : Mode) (es : List Entry) (n : ℕ) :
    (((next m)^[n] (start es)).isHalted = false →
      ∀ c ∈ level es n, ∃ k ∈ ((next m)^[n] (start es)).known, k ⊆ c) ∧
    (∅ ∈ level es n → ∃ k ≤ max n 1, ((next m)^[k] (start es)).isHalted = true ∧
      ((next m)^[k] (start es)).verdict = .unsatisfiable) := by
  constructor
  · intro hgoes c hc
    have hopen : ((next m)^[n] (start es)).verdict = .undecided :=
      (reachable_iterate m n).invariant.undecided.2 hgoes
    exact covers_iff.1 (covers_of_mem_level (by simp [hopen]) hc)
  · intro hempty
    obtain ⟨k, hk⟩ : ∃ k, max n 1 = k + 1 := Nat.exists_eq_add_of_le' (Nat.le_max_right n 1)
    have hlevel : ∅ ∈ level es (k + 1) := level_mono (by omega) hempty
    have hverdict : ((next m)^[k + 1] (start es)).verdict = .unsatisfiable := by
      by_contra hverdict
      have hmem := covers_empty_iff.1 (covers_of_mem_level hverdict hlevel)
      rw [Function.iterate_succ_apply'] at hverdict hmem
      exact (reachable_iterate m k).empty_not_mem_known hverdict hmem
    refine ⟨k + 1, by omega, (reachable_iterate m (k + 1)).invariant.isHalted ?_, hverdict⟩
    rw [hverdict]
    decide

/-- The empty clause of this chain of implications is in the third level, and not before. -/
theorem level_bound_chain :
    ((next .permissive)^[2] (start Sample.chain.entries)).isHalted = false ∧
      (∀ c ∈ level Sample.chain.entries 2,
        ∃ k ∈ ((next .permissive)^[2] (start Sample.chain.entries)).known, k ⊆ c) ∧
      ∅ ∉ level Sample.chain.entries 2 ∧ ∅ ∈ level Sample.chain.entries 3 ∧
      ∃ k ≤ 3, ((next .permissive)^[k] (start Sample.chain.entries)).isHalted = true ∧
        ((next .permissive)^[k] (start Sample.chain.entries)).verdict = .unsatisfiable := by
  have hgoes : ((next .permissive)^[2] (start Sample.chain.entries)).isHalted = false := by
    decide +kernel
  have hbefore : ∅ ∉ level Sample.chain.entries 2 := by decide +kernel
  have hempty : ∅ ∈ level Sample.chain.entries 3 := by decide +kernel
  exact ⟨hgoes, (level_bound .permissive Sample.chain.entries 2).1 hgoes, hbefore, hempty,
    (level_bound .permissive Sample.chain.entries 3).2 hempty⟩

end Search

end Saturation
