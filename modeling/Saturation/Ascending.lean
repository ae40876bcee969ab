/-!
# Ascending lists

Finite sets and finite maps kept as lists whose keys ascend strictly.  Such a list holds each key
once, so it is the only list of its members in this order.  Insertion keeps what is already there:
of several elements with one key the first one inserted stays.
-/

namespace Saturation.Ascending

variable {α κ : Type} [Ord κ] (key : α → κ)

/-- The keys ascend strictly. -/
def Sorted (l : List α) : Prop := l.Pairwise fun a b => compare (key a) (key b) = .lt

/-- Puts an element in its place, unless its key is there already. -/
def insert (a : α) : List α → List α
  | [] => [a]
  | b :: l =>
    match compare (key a) (key b) with
    | .lt => a :: b :: l
    | .eq => b :: l
    | .gt => b :: insert a l

/-- Inserts the elements of a list one after the other. -/
def ofList (l : List α) : List α := l.foldl (fun sorted a => insert key a sorted) []

/-! ## Members -/

theorem mem_of_mem_insert {a x : α} {l : List α} (h : x ∈ insert key a l) : x = a ∨ x ∈ l := by
  induction l with
  | nil => simpa [insert] using h
  | cons b l ih =>
      simp only [insert] at h
      split at h <;> simp_all
      rcases h with rfl | h
      · exact .inr (.inl rfl)
      · rcases ih h with rfl | h <;> simp_all

theorem mem_of_mem_foldl_insert {x : α} {l sorted : List α}
    (h : x ∈ l.foldl (fun sorted a => insert key a sorted) sorted) : x ∈ l ∨ x ∈ sorted := by
  induction l generalizing sorted with
  | nil => exact .inr h
  | cons a l ih =>
      rcases ih h with h | h
      · exact .inl (List.mem_cons_of_mem a h)
      · rcases mem_of_mem_insert key h with rfl | h
        · exact .inl List.mem_cons_self
        · exact .inr h

theorem mem_of_mem_ofList {x : α} {l : List α} (h : x ∈ ofList key l) : x ∈ l := by
  rcases mem_of_mem_foldl_insert key h with h | h
  · exact h
  · exact nomatch h

theorem mem_map_insert [Std.LawfulEqOrd κ] {a : α} {l : List α} {k : κ} :
    k ∈ (insert key a l).map key ↔ k = key a ∨ k ∈ l.map key := by
  induction l with
  | nil => simp [insert]
  | cons b l ih =>
      simp only [insert]
      split
      · simp
      · next h =>
        have h := Std.LawfulEqCmp.eq_of_compare h
        simp only [List.map_cons, List.mem_cons, h]
        constructor
        · exact .inr
        · rintro (h | h)
          · exact .inl h
          · exact h
      · simp only [List.map_cons, List.mem_cons, ih]
        constructor
        · rintro (h | h | h)
          · exact .inr (.inl h)
          · exact .inl h
          · exact .inr (.inr h)
        · rintro (h | h | h)
          · exact .inr (.inl h)
          · exact .inl h
          · exact .inr (.inr h)

theorem mem_map_foldl_insert [Std.LawfulEqOrd κ] {l sorted : List α} {k : κ} :
    k ∈ (l.foldl (fun sorted a => insert key a sorted) sorted).map key ↔
      k ∈ l.map key ∨ k ∈ sorted.map key := by
  induction l generalizing sorted with
  | nil => simp
  | cons a l ih =>
      rw [List.foldl_cons, ih, mem_map_insert, List.map_cons, List.mem_cons]
      constructor
      · rintro (h | h | h)
        · exact .inl (.inr h)
        · exact .inl (.inl h)
        · exact .inr h
      · rintro ((h | h) | h)
        · exact .inr (.inl h)
        · exact .inl h
        · exact .inr (.inr h)

theorem mem_map_ofList [Std.LawfulEqOrd κ] {l : List α} {k : κ} :
    k ∈ (ofList key l).map key ↔ k ∈ l.map key := by
  simp [ofList, mem_map_foldl_insert]

/-! ## Order -/

theorem sorted_nil : Sorted key [] := .nil

theorem sorted_insert [Std.TransOrd κ] {a : α} {l : List α} (h : Sorted key l) :
    Sorted key (insert key a l) := by
  induction l with
  | nil => simp [insert, Sorted]
  | cons b l ih =>
      have hb := List.pairwise_cons.1 h
      simp only [insert]
      split
      · next hab =>
        refine List.pairwise_cons.2 ⟨fun x hx => ?_, h⟩
        rcases List.mem_cons.1 hx with rfl | hx
        · exact hab
        · exact Std.TransCmp.lt_trans hab (hb.1 x hx)
      · exact h
      · next hab =>
        refine List.pairwise_cons.2 ⟨fun x hx => ?_, ih hb.2⟩
        rcases mem_of_mem_insert key hx with rfl | hx
        · exact Std.OrientedCmp.lt_of_gt hab
        · exact hb.1 x hx

theorem sorted_foldl_insert [Std.TransOrd κ] {l sorted : List α} (h : Sorted key sorted) :
    Sorted key (l.foldl (fun sorted a => insert key a sorted) sorted) := by
  induction l generalizing sorted with
  | nil => exact h
  | cons a l ih => exact ih (sorted_insert key h)

theorem sorted_ofList [Std.TransOrd κ] (l : List α) : Sorted key (ofList key l) :=
  sorted_foldl_insert key (sorted_nil key)

theorem Sorted.sublist {l₁ l₂ : List α} (h : l₁.Sublist l₂) (h₂ : Sorted key l₂) :
    Sorted key l₁ := List.Pairwise.sublist h h₂

/-! ## Canonical form -/

theorem ne_of_compare_lt [Std.TransOrd κ] {j k : κ} (h : compare j k = .lt) : j ≠ k := by
  rintro rfl
  have hself : compare j j = .eq := Std.ReflCmp.compare_self
  rw [hself] at h
  exact nomatch h

/-- An ascending list holds nothing twice: equal elements would have equal keys. -/
theorem Sorted.nodup [Std.TransOrd κ] {l : List α} (h : Sorted key l) : l.Nodup :=
  List.Pairwise.imp (fun hab heq => ne_of_compare_lt hab (congrArg key heq)) h

/-- **The members fix the list.**  Two ascending lists with the same members are equal, because
neither order nor repetition is left to choose. -/
theorem Sorted.eq_of_mem_iff [Std.TransOrd κ] {l₁ l₂ : List α} (h₁ : Sorted key l₁)
    (h₂ : Sorted key l₂) (h : ∀ x, x ∈ l₁ ↔ x ∈ l₂) : l₁ = l₂ := by
  refine List.Perm.eq_of_pairwise (fun a b _ _ hab hba => ?_) h₁ h₂
    ((List.perm_ext_iff_of_nodup (h₁.nodup key) (h₂.nodup key)).2 h)
  rw [Std.OrientedCmp.gt_of_lt hab] at hba
  exact nomatch hba

theorem Sorted.eq_of_key_eq [Std.TransOrd κ] {l : List α} (h : Sorted key l) {a b : α}
    (ha : a ∈ l) (hb : b ∈ l) (hkey : key a = key b) : a = b := by
  induction l with
  | nil => simp at ha
  | cons c l ih =>
      have hc := List.pairwise_cons.1 h
      rcases List.mem_cons.1 ha with hac | ha <;> rcases List.mem_cons.1 hb with hbc | hb
      · rw [hac, hbc]
      · exact absurd (hac ▸ hkey) (ne_of_compare_lt (hc.1 b hb))
      · exact absurd (hbc ▸ hkey.symm) (ne_of_compare_lt (hc.1 a ha))
      · exact ih hc.2 ha hb

end Saturation.Ascending
