import Mathlib.Data.List.Nodup
import Saturation.Proofs.Cover
import Saturation.Resolution

/-!
# Renaming

A renaming sends literals to literals, no two to one, and complements to complements.  Such maps
rename the atoms and exchange the two literals of some of them, and there are no others
(`exists_eq_ofAtoms`).

Everything that a round makes of clauses goes with a renaming: inclusion (`rename_subset`), the
resolvents (`rename_resolvent`), and of sets the unions, the minimal members, what is covered and
the sizes.  The order of clauses does not, so of sets it can only be said that they hold the images
(`ClauseSet.Renamed`), not in which order.
-/

namespace Saturation

/-- An injective map of literals that respects complements. -/
@[ext]
structure Renaming where
  toFun : Literal → Literal
  injective : Function.Injective toFun
  map_complement : ∀ l, toFun l.complement = (toFun l).complement

namespace Renaming

instance : CoeFun Renaming (fun _ => Literal → Literal) := ⟨toFun⟩

variable (σ : Renaming) {k l : Literal}

lemma apply_inj : σ k = σ l ↔ k = l := σ.injective.eq_iff

/-- The renaming of the atoms by a function, with the literals of those marked exchanged. -/
def ofAtoms (f : Atom → Atom) (hf : Function.Injective f) (flip : Atom → Bool) : Renaming where
  toFun l := ⟨f l.atom, xor (flip l.atom) l.negated⟩
  injective := by
    intro k l h
    obtain ⟨hatom, hsign⟩ := Literal.mk.inj h
    have hatom : k.atom = l.atom := hf hatom
    rw [hatom, Bool.xor_right_inj] at hsign
    exact Literal.ext hatom hsign
  map_complement l := by
    simp [Literal.complement]

/-- **There are no other renamings**: where the positive literal of an atom goes says where the
negative one goes. -/
theorem exists_eq_ofAtoms : ∃ f hf flip, σ = ofAtoms f hf flip := by
  have hneg : ∀ a, σ ⟨a, true⟩ = (σ ⟨a, false⟩).complement := fun a => σ.map_complement ⟨a, false⟩
  refine ⟨fun a => (σ ⟨a, false⟩).atom, ?_, fun a => (σ ⟨a, false⟩).negated, ?_⟩
  · intro a b hab
    by_cases hsign : (σ ⟨a, false⟩).negated = (σ ⟨b, false⟩).negated
    · have h : σ ⟨a, false⟩ = σ ⟨b, false⟩ := Literal.ext hab hsign
      exact congrArg Literal.atom (σ.injective h)
    · have h : σ ⟨a, false⟩ = σ ⟨b, true⟩ := by
        rw [hneg]
        exact Literal.ext hab (Bool.eq_not.2 hsign)
      exact congrArg Literal.atom (σ.injective h)
  · refine Renaming.ext (funext fun l => ?_)
    obtain ⟨a, negated⟩ := l
    cases negated with
    | false => simp [ofAtoms]
    | true =>
        rw [hneg]
        simp [ofAtoms, Literal.complement]

end Renaming

/-! ## Clauses -/

namespace Clause

/-- The clause of the images of the literals. -/
def rename (σ : Renaming) (c : Clause) : Clause := ofLiterals (c.literals.map σ)

variable {σ : Renaming} {l : Literal} {c d : Clause}

lemma mem_rename : l ∈ c.rename σ ↔ ∃ k ∈ c, σ k = l := by
  rw [rename, mem_ofLiterals, List.mem_map]
  rfl

@[simp]
lemma apply_mem_rename : σ l ∈ c.rename σ ↔ l ∈ c := by
  simp [mem_rename, σ.apply_inj]

@[simp]
lemma rename_subset : c.rename σ ⊆ d.rename σ ↔ c ⊆ d := by
  constructor
  · intro h l hl
    exact apply_mem_rename.1 (h _ (apply_mem_rename.2 hl))
  · intro h l hl
    obtain ⟨k, hk, rfl⟩ := mem_rename.1 hl
    exact apply_mem_rename.2 (h k hk)

lemma rename_inj : c.rename σ = d.rename σ ↔ c = d := by
  constructor
  · intro h
    have hiff : ∀ l, l ∈ c ↔ σ l ∈ d.rename σ := fun l => h ▸ apply_mem_rename.symm
    exact ext_mem fun l => (hiff l).trans apply_mem_rename
  · rintro rfl
    rfl

@[simp]
lemma rename_ssubset : c.rename σ ⊂ d.rename σ ↔ c ⊂ d := by
  rw [ssubset_iff, ssubset_iff, rename_subset, Ne, rename_inj]

@[simp]
lemma rename_empty : (∅ : Clause).rename σ = ∅ := rfl

lemma rename_eq_empty_iff : c.rename σ = ∅ ↔ c = ∅ := rename_inj (d := ∅)

lemma rename_union : (c ∪ d).rename σ = c.rename σ ∪ d.rename σ := by
  refine ext_mem fun k => ?_
  simp only [mem_rename, mem_union]
  constructor
  · rintro ⟨l, hl | hl, rfl⟩
    · exact .inl ⟨l, hl, rfl⟩
    · exact .inr ⟨l, hl, rfl⟩
  · rintro (⟨l, hl, rfl⟩ | ⟨l, hl, rfl⟩)
    · exact ⟨l, .inl hl, rfl⟩
    · exact ⟨l, .inr hl, rfl⟩

lemma apply_mem_resolvent {k : Literal} :
    σ k ∈ resolvent (σ l) (c.rename σ) (d.rename σ) ↔ k ∈ resolvent l c d := by
  rw [mem_resolvent, mem_resolvent, ← σ.map_complement, ← rename_union]
  simp only [apply_mem_rename, ne_eq, σ.apply_inj]

/-- **The resolvent of the images is the image of the resolvent.** -/
lemma rename_resolvent :
    (resolvent l c d).rename σ = resolvent (σ l) (c.rename σ) (d.rename σ) := by
  refine ext_mem fun k => ?_
  rw [mem_rename]
  constructor
  · rintro ⟨j, hj, rfl⟩
    exact apply_mem_resolvent.2 hj
  · intro hk
    have hside : k ∈ (c ∪ d).rename σ := by
      rw [rename_union, mem_union]
      exact (mem_resolvent.1 hk).1
    obtain ⟨j, _, rfl⟩ := mem_rename.1 hside
    exact ⟨j, apply_mem_resolvent.1 hk, rfl⟩

end Clause

/-! ## Clause sets -/

namespace ClauseSet

/-- The second set holds the images of the members of the first one. -/
def Renamed (σ : Renaming) (K L : ClauseSet) : Prop := ∀ c, c ∈ L ↔ ∃ d ∈ K, d.rename σ = c

namespace Renamed

variable {σ : Renaming} {K L K' L' : ClauseSet} {c : Clause}

lemma mem_iff (h : Renamed σ K L) : c.rename σ ∈ L ↔ c ∈ K := by
  rw [h]
  constructor
  · rintro ⟨d, hd, hdc⟩
    rwa [← Clause.rename_inj.1 hdc]
  · intro hc
    exact ⟨c, hc, rfl⟩

lemma empty_mem_iff (h : Renamed σ K L) : ∅ ∈ L ↔ ∅ ∈ K := h.mem_iff (c := ∅)

lemma empty : Renamed σ ∅ ∅ := by
  intro c
  simp

lemma union (h : Renamed σ K L) (h' : Renamed σ K' L') : Renamed σ (K ∪ K') (L ∪ L') := by
  intro c
  rw [mem_union, h, h']
  constructor
  · rintro (⟨d, hd, hdc⟩ | ⟨d, hd, hdc⟩)
    · exact ⟨d, mem_union.2 (.inl hd), hdc⟩
    · exact ⟨d, mem_union.2 (.inr hd), hdc⟩
  · rintro ⟨d, hd, hdc⟩
    exact (mem_union.1 hd).imp (fun hd => ⟨d, hd, hdc⟩) (fun hd => ⟨d, hd, hdc⟩)

lemma covers (h : Renamed σ K L) : L.covers (c.rename σ) = K.covers c := by
  rw [Bool.eq_iff_iff, covers_iff, covers_iff]
  constructor
  · rintro ⟨k, hk, hkc⟩
    obtain ⟨d, hd, rfl⟩ := (h k).1 hk
    exact ⟨d, hd, Clause.rename_subset.1 hkc⟩
  · rintro ⟨d, hd, hdc⟩
    exact ⟨d.rename σ, h.mem_iff.2 hd, Clause.rename_subset.2 hdc⟩

lemma minimal (h : Renamed σ K L) : Renamed σ K.minimal L.minimal := by
  have hiff : ∀ d, d.rename σ ∈ L.minimal ↔ d ∈ K.minimal := by
    intro d
    rw [mem_minimal, mem_minimal, h.mem_iff]
    refine and_congr_right fun _ => ⟨fun hmin k hk hkd => ?_, fun hmin b hb hbd => ?_⟩
    · exact hmin _ (h.mem_iff.2 hk) (Clause.rename_ssubset.2 hkd)
    · obtain ⟨k, hk, rfl⟩ := (h b).1 hb
      exact hmin k hk (Clause.rename_ssubset.1 hbd)
  intro c
  constructor
  · intro hc
    obtain ⟨d, _, rfl⟩ := (h c).1 (mem_minimal.1 hc).1
    exact ⟨d, (hiff d).1 hc, rfl⟩
  · rintro ⟨d, hd, rfl⟩
    exact (hiff d).2 hd

lemma size_eq (h : Renamed σ K L) : L.size = K.size := by
  have hinj : Function.Injective (Clause.rename σ) := fun _ _ => Clause.rename_inj.1
  have hperm : L.clauses.Perm (K.clauses.map (Clause.rename σ)) := by
    refine (List.perm_ext_iff_of_nodup L.nodup_clauses (K.nodup_clauses.map hinj)).2 fun c => ?_
    rw [List.mem_map]
    exact h c
  have hlength := hperm.length_eq
  rwa [List.length_map, clauses, clauses, List.length_map, List.length_map] at hlength

end Renamed

end ClauseSet

end Saturation
