import Saturation.Proofs.Model
import Saturation.Proofs.Provenance
import Saturation.Samples

/-!
# How far the rule reaches

The rule unites two clauses and strikes both literals of an atom out of the union.  Here it is
looked at by itself, for any two clauses, whatever search they come from.

**When the resolvent follows.**  It does unless the strike goes too far (`holds_resolvent`).  If it
does go too far, both clauses hold a literal that the resolvent has lost
(`Overstrikes.exists_lost`).  An assignment that makes this literal true and the resolvent false
(`exists_holds_not_holds`) is a model of the two clauses, so the boundary is exact
(`resolvent_follows_iff`).

**What the modes conclude.**  The strict conclusions are the same whichever clause comes first, they
are among the permissive ones, and whatever the permissive mode adds to them contains one of the two
clauses (`strict_core`).
-/

namespace Saturation

open ClauseSet

/-- Of the two literals of an atom only one is true. -/
lemma Literal.eq_of_holds {v : Assignment} {k l : Literal} (hatom : k.atom = l.atom)
    (hk : k.Holds v) (hl : l.Holds v) : k = l := by
  rw [Holds] at hk hl
  rw [hatom, hl] at hk
  exact Literal.ext hatom (Bool.not_inj hk).symm

lemma ClauseSet.mem_entries_ofClauses {source : Provenance} {cs : List Clause} {e : Entry} :
    e ∈ (ofClauses source cs).entries ↔ e.clause ∈ ofClauses source cs ∧ e.source = source := by
  refine mem_entries_iff_of_source fun e he => ?_
  obtain ⟨c, -, rfl⟩ := List.mem_map.1 (Ascending.mem_of_mem_ofList Entry.clause he)
  rfl

namespace Clause

open Sample (pos neg)

variable {k l : Literal} {c d r : Clause} {m : Mode} {e : Entry}

/-! ## When the resolvent follows -/

/-- A clause that is no tautology can be false while a literal is true that it does not hold.  The
complement may be in the clause: it is false as well. -/
lemma exists_holds_not_holds (hr : r.isTautology = false) (hk : k ∉ r) :
    ∃ v : Assignment, k.Holds v ∧ ¬ r.Holds v := by
  have hkv : k.Holds (Function.update r.countermodel k.atom !k.negated) := by
    simp [Literal.Holds]
  refine ⟨_, hkv, ?_⟩
  rintro ⟨l, hl, hlv⟩
  by_cases hatom : l.atom = k.atom
  · exact hk (Literal.eq_of_holds hatom hlv hkv ▸ hl)
  · exact not_holds_countermodel hr ⟨l, hl, (Literal.holds_update hatom).1 hlv⟩

/-- A strike that goes too far takes a literal away that both clauses hold. -/
lemma Overstrikes.exists_lost (h : Overstrikes l c d) (hl : l ∈ c) :
    ∃ k ∈ c, k ∈ d ∧ k ∉ resolvent l c d := by
  have hlost : l.complement ∈ c ∪ d → l ∉ resolvent l c d ∧ l.complement ∉ resolvent l c d := by
    intro hmeet
    rw [mem_resolvent_of_meet hmeet, mem_resolvent_of_meet hmeet]
    simp
  rcases h.1 with ⟨hld, hld'⟩ | ⟨hlc', hld | hld'⟩
  · exact ⟨l, hl, hld, (hlost (mem_union.2 (.inr hld'))).1⟩
  · exact ⟨l, hl, hld, (hlost (mem_union.2 (.inl hlc'))).1⟩
  · exact ⟨l.complement, hlc', hld', (hlost (mem_union.2 (.inl hlc'))).2⟩

/-- What keeps a strike from going too far, case by case. -/
lemma not_overstrikes_iff (hl : l ∈ c) : ¬ Overstrikes l c d ↔
    (resolvent l c d).isTautology = true ∨
      (¬ (l ∈ c ∧ l.complement ∈ c) ∧ ¬ (l ∈ d ∧ l.complement ∈ d)) ∨
      (l ∈ c ∧ l.complement ∈ c) ∧ l ∉ d ∧ l.complement ∉ d := by
  rw [Overstrikes, ← Bool.not_eq_true]
  by_cases hlc' : l.complement ∈ c
  · simp only [hl, hlc']
    tauto
  · simp only [hl, hlc']
    tauto

/-- **Exactly when a resolvent follows.**  Every assignment that makes both clauses true makes their
resolvent true in three cases and in no other: the resolvent is a tautology; neither clause holds
both literals of the atom; or the first clause holds both and the second one neither. -/
theorem resolvent_follows_iff (hl : l ∈ c) :
    (∀ v : Assignment, c.Holds v → d.Holds v → (resolvent l c d).Holds v) ↔
      (resolvent l c d).isTautology = true ∨
        (¬ (l ∈ c ∧ l.complement ∈ c) ∧ ¬ (l ∈ d ∧ l.complement ∈ d)) ∨
        (l ∈ c ∧ l.complement ∈ c) ∧ l ∉ d ∧ l.complement ∉ d := by
  rw [← not_overstrikes_iff hl]
  constructor
  · intro hfollows hover
    obtain ⟨k, hkc, hkd, hkr⟩ := hover.exists_lost hl
    obtain ⟨v, hv, hrv⟩ := exists_holds_not_holds hover.2 hkr
    exact hrv (hfollows v ⟨k, hkc, hv⟩ ⟨k, hkd, hv⟩)
  · intro hover v hc hd
    exact holds_resolvent hl hc hd hover

/-- With a tautology in front, the strike goes too far if the other clause holds one of the two
literals, and not if it holds neither. -/
theorem resolvent_follows_iff_tautology :
    let a : Atom := ⟨"A", by decide⟩
    let b : Atom := ⟨"B", by decide⟩
    let c : Clause := .ofLiterals [pos a, neg a]
    let d : Clause := .ofLiterals [pos a, pos b]
    pos a ∈ c ∧
      (¬ ∀ v : Assignment, c.Holds v → d.Holds v → (resolvent (pos a) c d).Holds v) ∧
      ∀ v : Assignment, c.Holds v → (ofLiterals [pos b]).Holds v →
        (resolvent (pos a) c (.ofLiterals [pos b])).Holds v := by
  intro a b c d
  have hmem : pos a ∈ c := by decide
  refine ⟨hmem, ?_, (resolvent_follows_iff hmem).2 ?_⟩
  · rw [resolvent_follows_iff hmem]
    decide
  · decide

/-! ## What the modes conclude -/

lemma mem_entries_conclusions :
    e ∈ (conclusions m c d).entries ↔ e.clause ∈ conclusions m c d ∧ e.source = {} :=
  mem_entries_ofClauses

/-- **The strict conclusions are what counts.**  They are one set, whichever clause comes first, and
the permissive mode draws them as well.  Whatever else it draws contains one of the two clauses. -/
theorem strict_core (c d : Clause) :
    conclusions .strict c d = conclusions .strict d c ∧
      (∀ e ∈ (conclusions .strict c d).entries, e ∈ (conclusions .permissive c d).entries) ∧
      ∀ e ∈ (conclusions .permissive c d).entries,
        e ∈ (conclusions .strict c d).entries ∨ c ⊆ e.clause ∨ d ⊆ e.clause := by
  refine ⟨?_, fun e he => ?_, fun e he => ?_⟩
  · refine ClauseSet.ext ((conclusions .strict c d).ascending.eq_of_mem_iff Entry.clause
      (conclusions .strict d c).ascending fun e => ?_)
    rw [mem_entries_conclusions, mem_entries_conclusions, mem_conclusions_strict_comm]
  · obtain ⟨hclause, hsource⟩ := mem_entries_conclusions.1 he
    exact mem_entries_conclusions.2 ⟨mem_of_mem_strict hclause, hsource⟩
  · obtain ⟨hclause, hsource⟩ := mem_entries_conclusions.1 he
    exact (mem_strict_or_subset hclause).imp_left fun hstrict =>
      mem_entries_conclusions.2 ⟨hstrict, hsource⟩

/-- A tautology and a clause about another atom: what the permissive mode draws on the atom of the
tautology is no plain union, and contains the other clause. -/
theorem strict_core_tautology :
    let a : Atom := ⟨"A", by decide⟩
    let b : Atom := ⟨"B", by decide⟩
    let c : Clause := .ofLiterals [pos a, neg a]
    let d : Clause := .ofLiterals [pos b]
    let e : Entry := ⟨resolvent (pos a) c d, {}⟩
    conclusions .strict c d = conclusions .strict d c ∧ e ∈ (conclusions .permissive c d).entries ∧
      e.clause ≠ c ∪ d ∧ (e ∈ (conclusions .strict c d).entries ∨ c ⊆ e.clause ∨ d ⊆ e.clause) := by
  intro a b c d e
  have he : e ∈ (conclusions .permissive c d).entries :=
    mem_entries_conclusions.2
      ⟨mem_conclusions_permissive.2 ⟨pos a, by decide, rfl⟩, rfl⟩
  obtain ⟨hcomm, -, hextra⟩ := strict_core c d
  exact ⟨hcomm, he, by decide, hextra e he⟩

end Clause

end Saturation
