import Saturation.Ascending
import Saturation.Literal

/-!
# Clauses

A clause is a finite set of literals, read as their disjunction; the empty one is false.  It is
kept as the ascending list of its literals, so equal sets are equal clauses.  Clauses are ordered
by size first and then literal by literal: the empty clause comes before all others, and a clause
comes after its proper parts.
-/

namespace Saturation

/-- A finite set of literals. -/
@[ext]
structure Clause where
  literals : List Literal
  ascending : Ascending.Sorted id literals
deriving DecidableEq

namespace Clause

/-- The clause of the literals of a list, in any order and with repetitions. -/
def ofLiterals (ls : List Literal) : Clause :=
  ⟨Ascending.ofList id ls, Ascending.sorted_ofList id ls⟩

instance : EmptyCollection Clause := ⟨⟨[], Ascending.sorted_nil id⟩⟩

instance : Inhabited Clause := ⟨∅⟩

/-! ## Members -/

instance : Membership Literal Clause := ⟨fun c l => l ∈ c.literals⟩

instance (l : Literal) (c : Clause) : Decidable (l ∈ c) :=
  inferInstanceAs (Decidable (l ∈ c.literals))

theorem mem_def {l : Literal} {c : Clause} : l ∈ c ↔ l ∈ c.literals := .rfl

@[simp]
theorem mem_ofLiterals {l : Literal} {ls : List Literal} : l ∈ ofLiterals ls ↔ l ∈ ls := by
  have h : l ∈ (Ascending.ofList id ls).map id ↔ l ∈ ls.map id := Ascending.mem_map_ofList id
  simpa [mem_def, ofLiterals] using h

@[simp]
theorem not_mem_empty (l : Literal) : l ∉ (∅ : Clause) := List.not_mem_nil

/-- **A clause is the set of its literals.** -/
theorem ext_mem {c d : Clause} (h : ∀ l, l ∈ c ↔ l ∈ d) : c = d :=
  Clause.ext (c.ascending.eq_of_mem_iff id d.ascending h)

def size (c : Clause) : Nat := c.literals.length

def isEmpty (c : Clause) : Bool := c.literals.isEmpty

theorem isEmpty_iff {c : Clause} : c.isEmpty = true ↔ c = ∅ := by
  rw [isEmpty, List.isEmpty_iff]
  exact ⟨fun h => Clause.ext h, fun h => h ▸ rfl⟩

/-- A clause with both literals of an atom is true. -/
def isTautology (c : Clause) : Bool := c.literals.any fun l => l.complement ∈ c

theorem isTautology_iff {c : Clause} : c.isTautology = true ↔ ∃ l ∈ c, l.complement ∈ c := by
  simp [isTautology, mem_def]

/-! ## Union, difference and inclusion -/

instance : Union Clause := ⟨fun c d => ofLiterals (c.literals ++ d.literals)⟩

@[simp]
theorem mem_union {l : Literal} {c d : Clause} : l ∈ c ∪ d ↔ l ∈ c ∨ l ∈ d := by
  rw [show c ∪ d = ofLiterals (c.literals ++ d.literals) from rfl, mem_ofLiterals,
    List.mem_append, mem_def, mem_def]

def filter (p : Literal → Bool) (c : Clause) : Clause :=
  ⟨c.literals.filter p, c.ascending.sublist id List.filter_sublist⟩

@[simp]
theorem mem_filter {p : Literal → Bool} {l : Literal} {c : Clause} :
    l ∈ c.filter p ↔ l ∈ c ∧ p l = true := List.mem_filter

instance : SDiff Clause := ⟨fun c d => c.filter (· ∉ d)⟩

@[simp]
theorem mem_sdiff {l : Literal} {c d : Clause} : l ∈ c \ d ↔ l ∈ c ∧ l ∉ d := by
  rw [show c \ d = c.filter (· ∉ d) from rfl]
  simp

instance : HasSubset Clause := ⟨fun c d => ∀ l ∈ c.literals, l ∈ d⟩

instance (c d : Clause) : Decidable (c ⊆ d) :=
  inferInstanceAs (Decidable (∀ l ∈ c.literals, l ∈ d))

theorem subset_refl (c : Clause) : c ⊆ c := fun _ h => h

theorem subset_trans {b c d : Clause} (h : b ⊆ c) (h' : c ⊆ d) : b ⊆ d :=
  fun l hl => h' l (h l hl)

theorem subset_antisymm {c d : Clause} (h : c ⊆ d) (h' : d ⊆ c) : c = d :=
  ext_mem fun l => ⟨h l, h' l⟩

/-- A proper part is told by its size, which is cheaper to compare than a second inclusion. -/
instance : HasSSubset Clause := ⟨fun c d => c.size < d.size ∧ c ⊆ d⟩

instance (c d : Clause) : Decidable (c ⊂ d) :=
  inferInstanceAs (Decidable (c.size < d.size ∧ c ⊆ d))

/-! ## Order -/

instance : Ord Clause := ⟨compareLex (compareOn size) (compareOn literals)⟩

instance : Std.TransOrd Clause :=
  inferInstanceAs (Std.TransCmp (compareLex (compareOn size) (compareOn literals)))

instance : Std.LawfulEqOrd Clause where
  eq_of_compare {c d} h := by
    have h : compare c.literals d.literals = .eq := (compareLex_eq_eq.1 h).2
    exact Clause.ext (Std.LawfulEqCmp.eq_of_compare h)

/-! ## Text -/

/-- The literals in order between bars; brackets stand for the empty clause. -/
def text (c : Clause) : Text :=
  if c.isEmpty then "[]" else .join " | " (c.literals.map Literal.text)

end Clause

end Saturation
