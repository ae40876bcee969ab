import Mathlib.Logic.Function.Basic
import Saturation.Proofs.Closure

/-!
# What a closed set implies it covers

The completeness of resolution, for sets that are closed only up to covering.

`exists_falsified` carries the argument.  Fix an assignment and let a list of atoms vary.  If every
assignment that differs from it on these atoms only makes some member false, then the assignment
itself makes a member false that does not mention them at all.  The induction is on the list: the
two values of its first atom give two members, and if both mention that atom, the member that
covers their resolvent does not.

Take a clause that follows from the set, and the assignment that makes it false
(`Clause.countermodel`).  With all atoms in the list that the clause does not mention there is a
member that is false too and mentions no other atoms, and such a member is a part of the clause
(`ClauseSet.Closed.covers`).  The empty clause follows from a set without models and has no part but
itself, so a closed set without it has a model (`exists_model`).

Tautologies among the members need no attention: a false clause is none.
-/

namespace Saturation

open ClauseSet

variable {v : Assignment} {K : ClauseSet}

/-! ## One atom -/

/-- A literal that is neither of the two literals of an atom is not about that atom. -/
lemma Literal.atom_ne {a : Atom} {k : Literal} (h : k ≠ ⟨a, true⟩) (h' : k ≠ ⟨a, false⟩) :
    k.atom ≠ a := by
  rintro rfl
  obtain ⟨x, _ | _⟩ := k
  · exact h' rfl
  · exact h rfl

lemma Literal.holds_update {a : Atom} {b : Bool} {l : Literal} (h : l.atom ≠ a) :
    l.Holds (Function.update v a b) ↔ l.Holds v := by
  rw [Holds, Holds, Function.update_of_ne h]

lemma Literal.holds_update_self (a : Atom) (b : Bool) :
    Literal.Holds (Function.update v a b) ⟨a, !b⟩ := by
  simp [Holds]

namespace Clause

variable {a : Atom} {b : Bool} {c : Clause}

lemma not_mem_of_update (h : ¬ c.Holds (Function.update v a b)) : ⟨a, !b⟩ ∉ c :=
  fun hl => h ⟨_, hl, Literal.holds_update_self a b⟩

lemma atom_ne_of_update (h : ¬ c.Holds (Function.update v a b)) (hb : ⟨a, b⟩ ∉ c) :
    ∀ l ∈ c, l.atom ≠ a := by
  intro l hl
  have hnb : ⟨a, !b⟩ ∉ c := not_mem_of_update h
  refine Literal.atom_ne ?_ ?_
  · rintro rfl
    cases b with
    | true => exact hb hl
    | false => exact hnb hl
  · rintro rfl
    cases b with
    | true => exact hnb hl
    | false => exact hb hl

lemma not_holds_of_update (ha : ∀ l ∈ c, l.atom ≠ a) (h : ¬ c.Holds (Function.update v a b)) :
    ¬ c.Holds v := by
  rintro ⟨l, hl, hv⟩
  exact h ⟨l, hl, (Literal.holds_update (ha l hl)).2 hv⟩

end Clause

/-! ## Resolving atoms away -/

/-- The member that covers the resolvent of two members, each made false by one value of the atom,
is false whatever the value. -/
lemma exists_falsified_of_resolvent (hK : K.Closed) {a : Atom} {as : List Atom} {c d : Clause}
    (hc : c ∈ K) (hd : d ∈ K) (hcv : ¬ c.Holds (Function.update v a true))
    (hdv : ¬ d.Holds (Function.update v a false)) (hcas : ∀ l ∈ c, l.atom ∉ as)
    (hdas : ∀ l ∈ d, l.atom ∉ as) (hca : ⟨a, true⟩ ∈ c) (hda : ⟨a, false⟩ ∈ d) :
    ∃ r ∈ K, ¬ r.Holds v ∧ ∀ l ∈ r, l.atom ∉ a :: as := by
  have hne : c ≠ d := by
    rintro rfl
    exact Clause.not_mem_of_update hcv hda
  obtain ⟨r, hr, hrsub⟩ := covers_iff.1 (hK c hc d hd hne ⟨a, true⟩ hca hda)
  have hmem : ∀ k ∈ r, (k ∈ c ∨ k ∈ d) ∧ k.atom ≠ a := by
    intro k hk
    obtain ⟨hkcd, hkl, hkl'⟩ :=
      (Clause.mem_resolvent_of_meet (Clause.mem_union.2 (.inr hda))).1 (hrsub k hk)
    exact ⟨hkcd, Literal.atom_ne hkl hkl'⟩
  refine ⟨r, hr, ?_, ?_⟩
  · rintro ⟨k, hk, hkv⟩
    obtain ⟨hkc | hkd, hka⟩ := hmem k hk
    · exact hcv ⟨k, hkc, (Literal.holds_update hka).2 hkv⟩
    · exact hdv ⟨k, hkd, (Literal.holds_update hka).2 hkv⟩
  · intro k hk
    rw [List.mem_cons, not_or]
    obtain ⟨hkc | hkd, hka⟩ := hmem k hk
    · exact ⟨hka, hcas k hkc⟩
    · exact ⟨hka, hdas k hkd⟩

/-- **Members that mention the atoms can be resolved away.** -/
lemma exists_falsified (hK : K.Closed) (as : List Atom) (v : Assignment)
    (h : ∀ w : Assignment, (∀ a ∉ as, w a = v a) → ∃ c ∈ K, ¬ c.Holds w) :
    ∃ c ∈ K, ¬ c.Holds v ∧ ∀ l ∈ c, l.atom ∉ as := by
  induction as generalizing v with
  | nil =>
      obtain ⟨c, hc, hv⟩ := h v fun a _ => rfl
      exact ⟨c, hc, hv, fun l _ => List.not_mem_nil⟩
  | cons a as ih =>
      have hside : ∀ b, ∃ c ∈ K, ¬ c.Holds (Function.update v a b) ∧ ∀ l ∈ c, l.atom ∉ as := by
        intro b
        refine ih (Function.update v a b) fun w hw => h w fun x hx => ?_
        rw [List.mem_cons, not_or] at hx
        rw [hw x hx.2, Function.update_of_ne hx.1]
      have hkeep : ∀ b, ∀ c ∈ K, ¬ c.Holds (Function.update v a b) → (∀ l ∈ c, l.atom ∉ as) →
          ⟨a, b⟩ ∉ c → ∃ c ∈ K, ¬ c.Holds v ∧ ∀ l ∈ c, l.atom ∉ a :: as := by
        intro b c hc hcv hcas hb
        have hca := Clause.atom_ne_of_update hcv hb
        refine ⟨c, hc, Clause.not_holds_of_update hca hcv, fun l hl => ?_⟩
        rw [List.mem_cons, not_or]
        exact ⟨hca l hl, hcas l hl⟩
      obtain ⟨c, hc, hcv, hcas⟩ := hside true
      obtain ⟨d, hd, hdv, hdas⟩ := hside false
      by_cases hca : ⟨a, true⟩ ∈ c
      · by_cases hda : ⟨a, false⟩ ∈ d
        · exact exists_falsified_of_resolvent hK hc hd hcv hdv hcas hdas hca hda
        · exact hkeep false d hd hdv hdas hda
      · exact hkeep true c hc hcv hcas hca

/-! ## Countermodels -/

/-- Two literals of one atom that are both false are the same one. -/
lemma Literal.eq_of_not_holds {k l : Literal} (hatom : k.atom = l.atom) (hk : ¬ k.Holds v)
    (hl : ¬ l.Holds v) : k = l := by
  have hk : v k.atom = k.negated := by simpa [Holds] using hk
  have hl : v l.atom = l.negated := by simpa [Holds] using hl
  refine Literal.ext hatom ?_
  rw [← hk, ← hl, hatom]

namespace Clause

variable {c d : Clause}

/-- The assignment that makes exactly the atoms true that the clause denies. -/
def countermodel (c : Clause) : Assignment := fun a => decide (⟨a, true⟩ ∈ c)

/-- Only a tautology is true in its countermodel. -/
lemma not_holds_countermodel (hc : c.isTautology = false) : ¬ c.Holds c.countermodel := by
  rintro ⟨⟨a, negated⟩, hl, hv⟩
  cases negated with
  | true =>
      have hfalse : ⟨a, true⟩ ∉ c := by simpa [Literal.Holds, countermodel] using hv
      exact hfalse hl
  | false =>
      have hdenied : ⟨a, true⟩ ∈ c := by simpa [Literal.Holds, countermodel] using hv
      rw [isTautology_iff.2 ⟨⟨a, false⟩, hl, hdenied⟩] at hc
      cases hc

/-- Of the clauses that are false, those that mention no other atoms are parts. -/
lemma subset_of_not_holds (hd : ¬ d.Holds v) (hc : ¬ c.Holds v)
    (hatoms : ∀ l ∈ d, ∃ k ∈ c, k.atom = l.atom) : d ⊆ c := by
  intro l hl
  obtain ⟨k, hk, hatom⟩ := hatoms l hl
  have hkv : ¬ k.Holds v := fun hv => hc ⟨k, hk, hv⟩
  have hlv : ¬ l.Holds v := fun hv => hd ⟨l, hl, hv⟩
  rw [← Literal.eq_of_not_holds hatom hkv hlv]
  exact hk

end Clause

/-! ## Consequences -/

def ClauseSet.atoms (K : ClauseSet) : List Atom :=
  K.clauses.flatMap fun c => c.literals.map Literal.atom

lemma ClauseSet.mem_atoms {c : Clause} (hc : c ∈ K) {l : Literal} (hl : l ∈ c) :
    l.atom ∈ K.atoms :=
  List.mem_flatMap.2 ⟨c, hc, List.mem_map_of_mem hl⟩

/-- The atoms of the members that the clause does not mention. -/
def ClauseSet.atomsBeside (K : ClauseSet) (c : Clause) : List Atom :=
  K.atoms.filter fun a => ∀ l ∈ c.literals, l.atom ≠ a

lemma ClauseSet.mem_atomsBeside {c : Clause} {a : Atom} :
    a ∈ K.atomsBeside c ↔ a ∈ K.atoms ∧ ∀ l ∈ c, l.atom ≠ a := by
  simp [atomsBeside, Clause.mem_def]

/-- **A closed set covers what follows from it**, unless it is a tautology. -/
theorem ClauseSet.Closed.covers (hK : K.Closed) {c : Clause} (hc : c.isTautology = false)
    (h : ∀ w : Assignment, (∀ k ∈ K, k.Holds w) → c.Holds w) : K.covers c = true := by
  have hfalse : ¬ c.Holds c.countermodel := Clause.not_holds_countermodel hc
  -- whatever values the other atoms have, the clause stays false
  have hvary : ∀ w : Assignment, (∀ a ∉ K.atomsBeside c, w a = c.countermodel a) →
      ∃ k ∈ K, ¬ k.Holds w := by
    intro w hw
    by_contra hno
    push Not at hno
    obtain ⟨l, hl, hv⟩ := h w hno
    have hwl : w l.atom = c.countermodel l.atom := by
      refine hw l.atom fun hmem => ?_
      exact (mem_atomsBeside.1 hmem).2 l hl rfl
    refine hfalse ⟨l, hl, ?_⟩
    rw [Literal.Holds, ← hwl]
    exact hv
  obtain ⟨k, hk, hkv, hatoms⟩ := exists_falsified hK (K.atomsBeside c) c.countermodel hvary
  refine covers_iff.2 ⟨k, hk, Clause.subset_of_not_holds hkv hfalse fun l hl => ?_⟩
  by_contra hno
  push Not at hno
  exact hatoms l hl (mem_atomsBeside.2 ⟨mem_atoms hk hl, hno⟩)

/-- **A closed set without the empty clause has a model.** -/
theorem exists_model (hempty : ∅ ∉ K) (hK : K.Closed) :
    ∃ v : Assignment, ∀ c ∈ K, c.Holds v := by
  by_contra hno
  push Not at hno
  refine hempty (covers_empty_iff.1 (hK.covers rfl fun w hw => ?_))
  obtain ⟨c, hc, hcw⟩ := hno w
  exact absurd (hw c hc) hcw

namespace Search

variable {es : List Entry} {s : Search}

/-- **A positive answer is right**: the known clauses have a model, and they cover the given
ones. -/
theorem Invariant.exists_model (h : Invariant es s) (hs : s.verdict = .satisfiable) :
    ∃ v : Assignment, ∀ c, s.known.covers c = true → c.Holds v := by
  obtain ⟨hempty, hclosed⟩ := h.saturated hs
  obtain ⟨v, hv⟩ := Saturation.exists_model hempty hclosed
  refine ⟨v, fun c hc => ?_⟩
  obtain ⟨k, hk, hkc⟩ := covers_iff.1 hc
  exact (hv k hk).of_subset hkc

end Search

end Saturation
