import Saturation.Proofs.Legible
import Saturation.Proofs.LineGrammar
import Saturation.Text.Lines

/-!
# What comes from a listing

Each entry that is read from a listing is the clause of one of its lines, labelled with the number
of the line (`Listing.exists_line_of_mem`), and the names in the clause are pieces of that line.  So
a listing of characters gives legible entries (`Listing.legible_of_read`).
-/

namespace Saturation

/-! ## Pieces of a text -/

namespace Text

variable {t line w : Text} {p : CodePoint}

lemma mem_of_mem_lines (hline : line ∈ lines t) (hp : p ∈ line) : p ∈ t := by
  rw [← flatten_lines t]
  exact List.mem_flatten.2 ⟨line, hline, hp⟩

lemma Whole.mono (ht : t.Whole) (h : ∀ p ∈ w, p ∈ t) : w.Whole := fun p hp => ht p (h p hp)

end Text

/-! ## Literals and clauses -/

lemma Literal.mem_text_of_mem_name {l : Literal} {p : CodePoint} (hp : p ∈ l.atom.name) :
    p ∈ l.text := by
  cases hneg : l.negated with
  | true => exact text_of_negated hneg ▸ List.mem_cons_of_mem _ hp
  | false => exact text_of_not_negated hneg ▸ hp

lemma Clause.whole_of_parse {line : Text} {c : Clause} (h : parse line = .ok c) (hline : line.Whole)
    {l : Literal} (hl : l ∈ c) : l.atom.name.Whole := by
  rw [parse_eq_ok_iff] at h
  split at h
  · rw [h] at hl
    exact absurd hl (not_mem_empty l)
  · obtain ⟨ls, hlaidOut, rfl⟩ := h
    have hword : l.text ∈ Text.words line :=
      words_eq_map_text_iff.2 hlaidOut ▸ List.mem_map_of_mem (mem_ofLiterals.1 hl)
    exact hline.mono fun p hp => Text.mem_of_mem_words hword (Literal.mem_text_of_mem_name hp)

/-! ## Listings -/

namespace Listing

variable {lines : List Text} {es : List Entry} {e : Entry}

lemma mem_of_mem_relevant {x : Text × ℕ} (hx : x ∈ relevant lines) : x.1 ∈ lines := by
  have hnumbered : x ∈ lines.zipIdx 1 :=
    (List.takeWhile_sublist _).mem (List.mem_of_mem_filter hx)
  exact List.fst_mem_of_mem_zipIdx hnumbered

lemma exists_line_of_mem (h : read lines = .ok es) (he : e ∈ es) :
    ∃ line ∈ lines, ∃ k, Clause.parse line = .ok e.clause ∧ e.source = .labelled (label k) := by
  rw [read_eq_mapM] at h
  obtain ⟨x, hx, hread⟩ := exists_of_mem_mapM h he
  exact ⟨x.1, mem_of_mem_relevant hx, x.2, readLine_eq_ok_iff.1 hread⟩

/-- **What is read from a text of characters is legible.** -/
theorem legible_of_read {t : Text} (ht : t.Whole) (h : read (Text.lines t) = .ok es) :
    ∀ e ∈ es, e.Legible := by
  intro e he
  obtain ⟨line, hline, k, hparse, hsource⟩ := exists_line_of_mem h he
  have hwhole : line.Whole := ht.mono fun p hp => Text.mem_of_mem_lines hline hp
  have hlabel : (label k).Whole :=
    Text.whole_append.2 ⟨Text.whole_ofString _, Text.whole_ofString _⟩
  exact ⟨fun l hl => Clause.whole_of_parse hparse hwhole hl, ⟨0, congrArg Provenance.step hsource⟩,
    label k, congrArg Provenance.label hsource, hlabel⟩

end Listing

end Saturation
