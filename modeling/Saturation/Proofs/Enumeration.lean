import Mathlib.Data.List.Flatten
import Mathlib.Data.List.Nodup
import Mathlib.Data.List.Perm.Basic
import Mathlib.Data.List.ProdSigma
import Saturation.Proofs.RoundOutcome
import Saturation.Samples

/-!
# Every pair once

A round goes through the clauses of the frontier and takes each with those after it and with all
that were seen.  The clauses after a given one, which need not be in the set, are the rest of the
list from one place on, and this place is the one that a binary search comes to
(`ClauseSet.drop_eq_above`).

So the pairs are of two kinds (`Round.within`, `Round.across`), and each kind is a part of a product
of lists without repetition.  The order is total, so two distinct clauses of the frontier meet one
way round and not the other, and each pair comes once (`Round.enumeration_exact`).
-/

namespace Saturation

/-! ## The rest of a set -/

namespace ClauseSet

variable {K : ClauseSet} {c : Clause} {e : Entry} {n i : ℕ}

/-- The place after the last entry that is not above the clause. -/
structure IsPlaceAfter (K : ClauseSet) (c : Clause) (n : ℕ) : Prop where
  last : n = 0 ∨ ∃ e, K.entries[n - 1]? = some e ∧ compare e.clause c ≠ .gt
  above : ∀ i e, n ≤ i → K.entries[i]? = some e → compare e.clause c = .gt

/-- With the last entry before the place those before it are not above the clause either. -/
lemma IsPlaceAfter.not_above (h : K.IsPlaceAfter c n) (hi : i < n) (he : K.entries[i]? = some e) :
    compare e.clause c ≠ .gt := by
  rcases h.last with rfl | ⟨d, hd, hdc⟩
  · exact absurd hi (Nat.not_lt_zero i)
  rcases Nat.eq_or_lt_of_le (Nat.le_sub_one_of_lt hi) with rfl | hlt
  · obtain rfl : e = d := Option.some.inj (he.symm.trans hd)
    exact hdc
  · obtain ⟨hi', rfl⟩ := List.getElem?_eq_some_iff.1 he
    obtain ⟨hn', rfl⟩ := List.getElem?_eq_some_iff.1 hd
    have hed := List.pairwise_iff_getElem.1 K.ascending i (n - 1) hi' hn' hlt
    have hle := Std.TransCmp.lt_of_lt_of_isLE hed (Ordering.isLE_iff_ne_gt.2 hdc)
    rw [hle]
    decide

/-- **The entries above a clause are those from the place on.** -/
theorem drop_eq_above (h : K.IsPlaceAfter c n) : K.entries.drop n = K.above c := by
  have hbefore : (K.entries.take n).filter (fun e => compare e.clause c == .gt) = [] := by
    refine List.filter_eq_nil_iff.2 fun e he => ?_
    obtain ⟨i, hi, rfl⟩ := List.mem_take_iff_getElem.1 he
    have hin : i < n := by omega
    simpa using h.not_above hin (List.getElem?_eq_getElem _)
  have hafter : (K.entries.drop n).filter (fun e => compare e.clause c == .gt) =
      K.entries.drop n := by
    refine List.filter_eq_self.2 fun e he => ?_
    obtain ⟨i, hi, rfl⟩ := List.mem_drop_iff_getElem.1 he
    have hni : n + i < K.entries.length := by omega
    simpa using h.above (n + i) _ (Nat.le_add_right n i) (List.getElem?_eq_getElem hni)
  rw [above_eq_filter, ← List.take_append_drop n K.entries, List.filter_append, hbefore, hafter,
    List.nil_append, List.take_append_drop]

lemma ascending_above (K : ClauseSet) (c : Clause) : Ascending.Sorted Entry.clause (K.above c) :=
  K.ascending.sublist Entry.clause (List.dropWhile_sublist _)

end ClauseSet

/-! ## The two kinds of pairs -/

namespace Round

open ClauseSet

variable {F S : ClauseSet} {c d : Clause}

/-- The pairs that the frontier has with itself: each clause with those after it. -/
def within (F : ClauseSet) : List (Clause × Clause) :=
  F.entries.flatMap fun x => (F.above x.clause).map fun y => clausesOf (x, y)

/-- The pairs of the frontier with the seen clauses. -/
def across (F S : ClauseSet) : List (Clause × Clause) :=
  F.entries.flatMap fun x => S.entries.map fun y => clausesOf (x, y)

/-- A round tries the pairs of both kinds and no others. -/
lemma perm_pairs : ((pairs F S).map clausesOf).Perm (within F ++ across F S) := by
  have hsplit : (pairs F S).map clausesOf = F.entries.flatMap fun x =>
      ((F.above x.clause).map fun y => clausesOf (x, y)) ++
        S.entries.map fun y => clausesOf (x, y) := by
    simp only [pairs, List.map_flatMap, List.map_append, List.map_map, Function.comp_def]
  rw [hsplit]
  exact (List.flatMap_append_perm _ _ _).symm

lemma across_eq_product : across F S = F.clauses ×ˢ S.clauses := by
  simp only [across, clauses, SProd.sprod, List.product, List.flatMap_map, List.map_map, clausesOf,
    Function.comp_def]

lemma mem_across : (c, d) ∈ across F S ↔ c ∈ F ∧ d ∈ S := by
  rw [across_eq_product, List.mem_product, ← mem_def, ← mem_def]

lemma nodup_across : (across F S).Nodup := by
  rw [across_eq_product]
  exact List.Nodup.product F.nodup_clauses S.nodup_clauses

lemma mem_within : (c, d) ∈ within F ↔ c ∈ F ∧ d ∈ F ∧ compare c d = .lt := by
  simp only [within, List.mem_flatMap, List.mem_map, clausesOf, Prod.mk.injEq, mem_above]
  constructor
  · rintro ⟨x, hx, y, ⟨hy, hgt⟩, rfl, rfl⟩
    exact ⟨mem_iff.2 ⟨x, hx, rfl⟩, mem_iff.2 ⟨y, hy, rfl⟩, Std.OrientedCmp.lt_of_gt hgt⟩
  · rintro ⟨hc, hd, hlt⟩
    obtain ⟨x, hx, rfl⟩ := mem_iff.1 hc
    obtain ⟨y, hy, rfl⟩ := mem_iff.1 hd
    exact ⟨x, hx, y, ⟨hy, Std.OrientedCmp.gt_of_lt hlt⟩, rfl, rfl⟩

/-- What comes after a clause is part of the whole frontier, so the pairs are among those of the
product. -/
lemma nodup_within : (within F).Nodup := by
  have hsub : (within F).Sublist (across F F) :=
    List.Sublist.flatMap_right _ fun x _ => (List.dropWhile_sublist _).map _
  exact nodup_across.sublist hsub

/-- **Two distinct clauses meet one way round and not the other**, because the order is total. -/
lemma count_within (hne : c ≠ d) :
    (within F).count (c, d) + (within F).count (d, c) = if c ∈ F ∧ d ∈ F then 1 else 0 := by
  rw [nodup_within.count, nodup_within.count]
  simp only [mem_within]
  cases hcd : compare c d with
  | lt => simp [Std.OrientedCmp.gt_of_lt hcd]
  | eq => exact absurd (Std.LawfulEqCmp.eq_of_compare hcd) hne
  | gt => simp [Std.OrientedCmp.lt_of_gt hcd, and_comm]

/-- **Tails and pairs are exact.**

* The entries above a clause, which may or may not be in the set, are the members that compare as
  greater, in ascending order.  They are the entries from the place on that comes after the last one
  that is not greater.
* The pairs of a round are those of the frontier with itself and those of the frontier with the seen
  clauses.  Every unordered pair of distinct clauses of the frontier comes once among the former,
  every pair of a clause of the frontier and a seen one once among the latter, and no other pair
  comes at all. -/
theorem enumeration_exact :
    (∀ (K : ClauseSet) (c : Clause),
      (∀ e, e ∈ K.above c ↔ e ∈ K.entries ∧ compare e.clause c = .gt) ∧
      (K.above c).Pairwise (fun d e => compare d.clause e.clause = .lt) ∧
      ∀ n, K.IsPlaceAfter c n → K.entries.drop n = K.above c) ∧
    ∀ F S : ClauseSet,
      ((pairs F S).map clausesOf).Perm (within F ++ across F S) ∧
      (∀ c d, c ≠ d →
        (within F).count (c, d) + (within F).count (d, c) = if c ∈ F ∧ d ∈ F then 1 else 0) ∧
      (∀ c, (within F).count (c, c) = 0) ∧
      ∀ c d, (across F S).count (c, d) = if c ∈ F ∧ d ∈ S then 1 else 0 := by
  refine ⟨fun K c => ⟨fun e => mem_above, ascending_above K c, fun n => drop_eq_above⟩,
    fun F S => ⟨perm_pairs, fun c d => count_within, fun c => ?_, fun c d => ?_⟩⟩
  · have hself : compare c c = .eq := Std.ReflCmp.compare_self
    rw [nodup_within.count, if_neg]
    rw [mem_within, hself]
    simp
  · rw [nodup_across.count]
    simp only [mem_across]

open Sample (pos neg)

/-- A clause that is not in the frontier, with the second place after it, and two clauses of the
frontier, one of which was also seen: they meet once in the frontier and once more with the seen
one. -/
theorem enumeration_exact_weather :
    let rain : Atom := ⟨"rain", by decide⟩
    let wet : Atom := ⟨"wet", by decide⟩
    let c : Clause := .ofLiterals [pos rain]
    let d : Clause := .ofLiterals [neg rain, pos wet]
    let F : ClauseSet := .ofClauses {} [d, c]
    let S : ClauseSet := .ofClauses {} [d]
    (F.IsPlaceAfter (.ofLiterals [neg rain]) 1 ∧
      F.entries.drop 1 = F.above (.ofLiterals [neg rain])) ∧
      (c ≠ d ∧ (within F).count (c, d) + (within F).count (d, c) = 1) ∧
      (across F S).count (c, d) = 1 ∧ ((pairs F S).map clausesOf).count (c, d) = 2 := by
  intro rain wet c d F S
  obtain ⟨htail, hpairs⟩ := enumeration_exact
  obtain ⟨hperm, honce, -, hacross⟩ := hpairs F S
  have hentries : F.entries = [⟨c, {}⟩, ⟨d, {}⟩] := rfl
  have hplace : F.IsPlaceAfter (.ofLiterals [neg rain]) 1 := by
    refine ⟨.inr ⟨⟨c, {}⟩, rfl, by decide +kernel⟩, fun i e hi he => ?_⟩
    rw [hentries] at he
    match i, hi with
    | 1, _ =>
      obtain rfl : (⟨d, {}⟩ : Entry) = e := Option.some.inj he
      decide +kernel
    | i + 2, _ => simp at he
  have hne : c ≠ d := by decide +kernel
  have hc : c ∈ F := by decide +kernel
  have hd : d ∈ F := by decide +kernel
  have hd' : d ∈ S := by decide +kernel
  have hboth := honce c d hne
  rw [if_pos ⟨hc, hd⟩] at hboth
  have hseen := hacross c d
  rw [if_pos ⟨hc, hd'⟩] at hseen
  have hlt : (within F).count (c, d) = 1 := by decide +kernel
  refine ⟨⟨hplace, (htail F _).2.2 1 hplace⟩, ⟨hne, hboth⟩, hseen, ?_⟩
  rw [hperm.count_eq, List.count_append, hlt, hseen]

end Round

end Saturation
