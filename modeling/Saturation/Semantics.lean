import Saturation.ClauseSet

/-!
# Truth

An assignment gives every atom a truth value.  A literal holds if its atom has the value it asks
for, a clause if one of its literals holds, and a list of entries if all of its clauses do.  The
order of clauses by inclusion is an order of strength: a part of a clause implies it.
-/

namespace Saturation

abbrev Assignment := Atom → Bool

/-- The literal is true: its atom is, or is not if it is negated. -/
def Literal.Holds (v : Assignment) (l : Literal) : Prop := v l.atom = !l.negated

instance (v : Assignment) (l : Literal) : Decidable (l.Holds v) :=
  inferInstanceAs (Decidable (_ = _))

/-- Of a literal and its complement exactly one is true. -/
@[simp]
theorem Literal.holds_complement {v : Assignment} {l : Literal} :
    l.complement.Holds v ↔ ¬ l.Holds v := by
  cases h : v l.atom <;> cases hn : l.negated <;> simp [Holds, complement, h, hn]

/-- One of the literals is true. -/
def Clause.Holds (v : Assignment) (c : Clause) : Prop := ∃ l ∈ c.literals, l.Holds v

instance (v : Assignment) (c : Clause) : Decidable (c.Holds v) :=
  inferInstanceAs (Decidable (∃ l ∈ c.literals, l.Holds v))

namespace Clause

theorem holds_iff {v : Assignment} {c : Clause} : c.Holds v ↔ ∃ l ∈ c, l.Holds v := .rfl

/-- The empty clause is false. -/
@[simp]
theorem not_holds_empty (v : Assignment) : ¬ (∅ : Clause).Holds v :=
  fun ⟨l, hl, _⟩ => not_mem_empty l hl

@[simp]
theorem holds_union {v : Assignment} {c d : Clause} : (c ∪ d).Holds v ↔ c.Holds v ∨ d.Holds v := by
  simp only [holds_iff, mem_union]
  constructor
  · rintro ⟨l, hc | hd, hl⟩
    · exact .inl ⟨l, hc, hl⟩
    · exact .inr ⟨l, hd, hl⟩
  · rintro (⟨l, hc, hl⟩ | ⟨l, hd, hl⟩)
    · exact ⟨l, .inl hc, hl⟩
    · exact ⟨l, .inr hd, hl⟩

/-- A part of a clause implies it. -/
theorem Holds.of_subset {v : Assignment} {c d : Clause} (hc : c.Holds v) (h : c ⊆ d) :
    d.Holds v :=
  let ⟨l, hl, hv⟩ := hc
  ⟨l, h l hl, hv⟩

/-- A clause with both literals of an atom is true under every assignment. -/
theorem holds_of_isTautology {c : Clause} (h : c.isTautology = true) (v : Assignment) :
    c.Holds v := by
  obtain ⟨l, hl, hc⟩ := isTautology_iff.1 h
  by_cases hv : l.Holds v
  · exact ⟨l, hl, hv⟩
  · exact ⟨l.complement, hc, Literal.holds_complement.2 hv⟩

end Clause

def Satisfies (v : Assignment) (es : List Entry) : Prop := ∀ e ∈ es, e.clause.Holds v

def Satisfiable (es : List Entry) : Prop := ∃ v, Satisfies v es

/-- The clause is true under every assignment that makes the entries true. -/
def Entails (es : List Entry) (c : Clause) : Prop := ∀ v, Satisfies v es → c.Holds v

end Saturation
