import Saturation.Proofs.ClauseOrder
import Saturation.Samples

/-!
# The order of clauses is an order of sets

Clauses are compared by size, and those of one size literal by literal along their ascending lists.
The lists are only the way to carry it out: what the comparison finds is the least literal that one
clause holds and the other does not, and the clause that holds it comes first
(`Clause.compare_eq_lt_iff`).  So the order depends on nothing but the literals.

It is a total order of the sets of literals, and a proper part of a clause comes before it
(`Clause.order_exact`).  Collections rest on this: they hold a set once because equal sets compare
as equal, and their scans may stop early because parts come first.
-/

namespace Saturation

/-! ## Ascending lists -/

namespace Ascending

variable {α : Type} [Ord α] [Std.TransOrd α] {k x : α} {xs ys : List α}

/-- What comes before the first element is not in the list. -/
lemma not_mem_of_lt_head (h : Sorted id (x :: xs)) (hk : compare k x = .lt) : k ∉ x :: xs := by
  intro hmem
  have hlt : compare k k = .lt := by
    rcases List.mem_cons.1 hmem with rfl | hmem
    · exact hk
    · exact Std.TransCmp.lt_trans hk ((List.pairwise_cons.1 h).1 k hmem)
  exact ne_of_compare_lt hlt rfl

/-- **The first difference decides.**  By induction along both lists: equal heads are in both, and
of different heads the smaller one is missing in the other list. -/
lemma compare_eq_lt_iff [Std.LawfulEqOrd α] (hx : Sorted id xs) (hy : Sorted id ys)
    (hlength : xs.length = ys.length) :
    compare xs ys = .lt ↔
      ∃ a ∈ xs, a ∉ ys ∧ ∀ k, compare k a = .lt → (k ∈ xs ↔ k ∈ ys) := by
  induction xs generalizing ys with
  | nil =>
      obtain rfl : ys = [] := List.eq_nil_of_length_eq_zero hlength.symm
      simp
  | cons x xs ih =>
      obtain ⟨y, ys, rfl⟩ := List.exists_cons_of_length_eq_add_one hlength.symm
      have hcompare : compare (x :: xs) (y :: ys) = (compare x y).then (compare xs ys) :=
        List.compareLex_cons_cons
      rw [hcompare]
      cases hxy : compare x y with
      | lt =>
          refine iff_of_true rfl ⟨x, List.mem_cons_self, not_mem_of_lt_head hy hxy, ?_⟩
          intro k hk
          exact iff_of_false (not_mem_of_lt_head hx hk)
            (not_mem_of_lt_head hy (Std.TransCmp.lt_trans hk hxy))
      | gt =>
          refine iff_of_false nofun ?_
          rintro ⟨a, ha, -, hbelow⟩
          have hyx : compare y x = .lt := Std.OrientedCmp.lt_of_gt hxy
          have hya : compare y a = .lt := by
            rcases List.mem_cons.1 ha with rfl | ha
            · exact hyx
            · exact Std.TransCmp.lt_trans hyx ((List.pairwise_cons.1 hx).1 a ha)
          exact not_mem_of_lt_head hx hyx ((hbelow y hya).2 List.mem_cons_self)
      | eq =>
          obtain rfl : x = y := Std.LawfulEqCmp.eq_of_compare hxy
          have hxs : x ∉ xs := (List.nodup_cons.1 (hx.nodup id)).1
          have hys : x ∉ ys := (List.nodup_cons.1 (hy.nodup id)).1
          rw [Ordering.eq_then, ih (List.pairwise_cons.1 hx).2 (List.pairwise_cons.1 hy).2
            (Nat.succ.inj hlength)]
          constructor
          · rintro ⟨a, ha, hay, hbelow⟩
            have hax : a ≠ x := by
              rintro rfl
              exact hxs ha
            refine ⟨a, List.mem_cons_of_mem x ha, List.not_mem_cons_of_ne_of_not_mem hax hay, ?_⟩
            intro k hk
            rw [List.mem_cons, List.mem_cons, hbelow k hk]
          · rintro ⟨a, ha, hay, hbelow⟩
            obtain ⟨hax, hay⟩ := List.ne_and_not_mem_of_not_mem_cons hay
            refine ⟨a, List.mem_of_ne_of_mem hax ha, hay, fun k hk => ?_⟩
            by_cases hkx : k = x
            · rw [hkx]
              exact iff_of_false hxs hys
            · have hcons := hbelow k hk
              rwa [List.mem_cons, List.mem_cons, or_iff_right hkx, or_iff_right hkx] at hcons

end Ascending

/-! ## Clauses -/

namespace Clause

variable {a b c : Clause}

/-- **The order of clauses, by their members.**  A smaller clause comes first.  Of two clauses of
one size the one comes first that holds the least literal in which they differ. -/
theorem compare_eq_lt_iff : compare a b = .lt ↔
    a.size < b.size ∨ a.size = b.size ∧
      ∃ l ∈ a, l ∉ b ∧ ∀ k, compare k l = .lt → (k ∈ a ↔ k ∈ b) := by
  rw [compare_def, Ordering.then_eq_lt, Nat.compare_eq_lt, Nat.compare_eq_eq]
  exact or_congr_right (and_congr_right (Ascending.compare_eq_lt_iff a.ascending b.ascending))

/-- Clauses are the same to the order if they are the same set. -/
lemma compare_eq_eq_iff : compare a b = .eq ↔ ∀ l, l ∈ a ↔ l ∈ b := by
  rw [Std.LawfulEqCmp.compare_eq_iff_eq]
  exact ⟨fun h l => h ▸ Iff.rfl, ext_mem⟩

/-- **The order is a total order of sets of literals, and it extends inclusion.**

* Exchanging the clauses reverses the comparison.
* Where neither step leads down, the whole way does not.
* Two clauses compare as equal exactly if they hold the same literals.
* A proper part of a clause comes before it.
* Of two clauses the smaller one comes first, and if they have one size, the one that holds the
  least literal in which they differ. -/
theorem order_exact :
    (∀ a b : Clause, compare a b = (compare b a).swap) ∧
    (∀ a b c : Clause, compare a b ≠ .gt → compare b c ≠ .gt → compare a c ≠ .gt) ∧
    (∀ a b : Clause, compare a b = .eq ↔ ∀ l, l ∈ a ↔ l ∈ b) ∧
    (∀ a b : Clause, (∀ l ∈ a, l ∈ b) → (∃ l ∈ b, l ∉ a) → compare a b = .lt) ∧
    ∀ a b : Clause, compare a b = .lt ↔
      a.size < b.size ∨ a.size = b.size ∧
        ∃ l ∈ a, l ∉ b ∧ ∀ k, compare k l = .lt → (k ∈ a ↔ k ∈ b) := by
  refine ⟨fun a b => Std.OrientedCmp.eq_swap, fun a b c hab hbc => ?_,
    fun a b => compare_eq_eq_iff, ?_, fun a b => compare_eq_lt_iff⟩
  · have hle : (compare a b).isLE = true := Ordering.isLE_iff_ne_gt.2 hab
    have hle' : (compare b c).isLE = true := Ordering.isLE_iff_ne_gt.2 hbc
    exact Ordering.isLE_iff_ne_gt.1 (Std.TransCmp.isLE_trans hle hle')
  · rintro a b hab ⟨l, hl, hla⟩
    refine compare_eq_lt_of_ssubset (ssubset_iff.2 ⟨hab, ?_⟩)
    rintro rfl
    exact hla hl

open Sample (pos neg)

/-- Three clauses in a row, the last two of one size: `rain` is the least literal that only one of
them holds.  The first is part of the last. -/
theorem order_exact_weather :
    let rain : Atom := ⟨"rain", by decide⟩
    let wet : Atom := ⟨"wet", by decide⟩
    let a : Clause := .ofLiterals [pos wet]
    let b : Clause := .ofLiterals [neg wet, pos rain]
    let c : Clause := .ofLiterals [pos wet, neg rain]
    (compare a b ≠ .gt ∧ compare b c ≠ .gt ∧ compare a c ≠ .gt) ∧
      ((∀ l ∈ a, l ∈ c) ∧ (∃ l ∈ c, l ∉ a) ∧ compare a c = .lt) ∧
      ∃ l ∈ b, l ∉ c ∧ ∀ k, compare k l = .lt → (k ∈ b ↔ k ∈ c) := by
  intro rain wet a b c
  obtain ⟨-, htrans, -, hpart, hlt⟩ := order_exact
  have hab : compare a b ≠ .gt := by decide +kernel
  have hbc : compare b c = .lt := by decide +kernel
  have hsub : ∀ l ∈ a.literals, l ∈ c := by decide +kernel
  have hmore : ∃ l ∈ c.literals, l ∉ a := by decide +kernel
  have hsize : ¬ b.size < c.size := by decide +kernel
  have hbc' : compare b c ≠ .gt := by
    rw [hbc]
    decide
  exact ⟨⟨hab, hbc', htrans a b c hab hbc'⟩, ⟨hsub, hmore, hpart a c hsub hmore⟩,
    (((hlt b c).1 hbc).resolve_left hsize).2⟩

end Clause

end Saturation
