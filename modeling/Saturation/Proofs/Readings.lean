import Mathlib.Data.List.Forall2

/-!
# Reading item by item

A reader takes an item or refuses it, and a list is read item by item.  It is read if every item is
(`mapM_eq_ok_iff`).  Otherwise the first item that is refused says why (`mapM_eq_error`).
-/

namespace Saturation

variable {α β ε : Type} {read : α → Except ε β} {l : List α} {bs : List β}

lemma bind_eq_ok_iff {x : Except ε α} {f : α → Except ε β} {b : β} :
    x >>= f = .ok b ↔ ∃ a, x = .ok a ∧ f a = .ok b := by
  cases x with
  | error e => simp [bind, Except.bind]
  | ok a => simp [bind, Except.bind]

/-- A list is read item by item. -/
lemma mapM_eq_ok_iff : l.mapM read = .ok bs ↔ List.Forall₂ (fun a b => read a = .ok b) l bs := by
  induction l generalizing bs with
  | nil =>
      rw [List.mapM_nil, List.forall₂_nil_left_iff]
      exact ⟨fun h => (Except.ok.inj h).symm, fun h => congrArg Except.ok h.symm⟩
  | cons a l ih =>
      simp only [List.mapM_cons, bind_eq_ok_iff, ih, List.forall₂_cons_left_iff]
      constructor
      · rintro ⟨b, hb, cs, hcs, h⟩
        exact ⟨b, cs, hb, hcs, (Except.ok.inj h).symm⟩
      · rintro ⟨b, cs, hb, hcs, rfl⟩
        exact ⟨b, hb, cs, hcs, rfl⟩

/-- What is read back item by item is read back as a list. -/
lemma mapM_map_eq_ok {write : β → α} (h : ∀ b, read (write b) = .ok b) (l : List β) :
    (l.map write).mapM read = .ok l := by
  induction l with
  | nil => rfl
  | cons a l ih =>
      rw [List.map_cons, List.mapM_cons, h, ih]
      rfl

lemma exists_of_mem_mapM (h : l.mapM read = .ok bs) {b : β} (hb : b ∈ bs) :
    ∃ a ∈ l, read a = .ok b := by
  rw [mapM_eq_ok_iff] at h
  induction h with
  | nil => cases hb
  | @cons a b l bs hread _ ih =>
      rcases List.mem_cons.1 hb with rfl | hb
      · exact ⟨a, List.mem_cons_self, hread⟩
      · obtain ⟨a', ha', hread'⟩ := ih hb
        exact ⟨a', List.mem_cons_of_mem a ha', hread'⟩

lemma exists_mapM_eq_ok (h : ∀ a ∈ l, ∃ b, read a = .ok b) : ∃ bs, l.mapM read = .ok bs := by
  induction l with
  | nil => exact ⟨[], rfl⟩
  | cons a l ih =>
      obtain ⟨⟨b, hb⟩, hl⟩ := List.forall_mem_cons.1 h
      obtain ⟨bs, hbs⟩ := ih hl
      refine ⟨b :: bs, ?_⟩
      rw [List.mapM_cons, hb, hbs]
      rfl

/-- **The first item that is refused says why the list is.**  The test tells which items are read;
those after the first that fails it are not looked at. -/
lemma mapM_eq_error {refused : α → Bool} {a : α} {e : ε}
    (hread : ∀ b ∈ l, refused b = false → ∃ c, read b = .ok c)
    (hfind : l.find? refused = some a) (ha : read a = .error e) : l.mapM read = .error e := by
  induction l with
  | nil => cases hfind
  | cons b l ih =>
      obtain ⟨hb, hl⟩ := List.forall_mem_cons.1 hread
      rw [List.mapM_cons]
      cases hrefused : refused b with
      | true =>
          rw [List.find?_cons_of_pos hrefused] at hfind
          obtain rfl := Option.some.inj hfind
          rw [ha]
          rfl
      | false =>
          rw [List.find?_cons_of_neg (by simp [hrefused])] at hfind
          obtain ⟨c, hc⟩ := hb hrefused
          rw [hc, ih hl hfind]
          rfl

end Saturation
