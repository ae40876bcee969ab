import Saturation.Clause.Reading
import Saturation.Proofs.Readings
import Saturation.Proofs.Words
import Saturation.Samples

/-!
# How literals and clauses are spelled

A literal has one spelling, its text, and reading a word undoes it (`Literal.parse_eq_ok_iff`).  So
the words that are literals are known without the reader: a name, or a tilde and a name.  The words
of a line are refused for a tilde that is alone or not in front, and for nothing else
(`Literal.exists_parse_eq_ok_iff`), since a word cannot hold a blank.

A clause has many spellings, and they are all the layouts of its literals in any order and any
number of times (`Clause.parse_eq_ok_iff`).  The one line that means something else is the pair of
brackets: it is the text of a literal and stands for the empty clause.
-/

namespace Saturation

open Text (LaidOut IsWord words strip)

/-! ## Literals -/

namespace Literal

variable {t w : Text} {l : Literal}

lemma text_of_negated (h : l.negated = true) : l.text = .ofChar '~' :: l.atom.name := by
  rw [text, if_pos h]
  rfl

lemma text_of_not_negated (h : l.negated = false) : l.text = l.atom.name := by
  rw [text, h]
  rfl

lemma isWord_name (a : Atom) : IsWord a.name := by
  obtain ⟨hne, hsolid⟩ := isName_iff.1 a.valid
  exact ⟨hne, fun p hp => (hsolid p hp).2⟩

lemma isWord_text (l : Literal) : IsWord l.text := by
  have hname := isWord_name l.atom
  cases hneg : l.negated with
  | true =>
      rw [text_of_negated hneg]
      exact ⟨List.cons_ne_nil _ _, List.forall_mem_cons.2 ⟨by decide, hname.solid⟩⟩
  | false =>
      rw [text_of_not_negated hneg]
      exact hname

/-- The sign and the name of a literal's text are told apart, because no name holds a tilde. -/
lemma splitTilde_text (l : Literal) : splitTilde l.text = (l.negated, l.atom.name) := by
  cases hneg : l.negated with
  | true => rw [text_of_negated hneg, splitTilde, if_pos rfl]
  | false =>
      rw [text_of_not_negated hneg]
      obtain ⟨hne, hname⟩ := isName_iff.1 l.atom.valid
      obtain ⟨p, rest, hcons⟩ := List.exists_cons_of_ne_nil hne
      have hp : p ≠ .ofChar '~' := (hname p (hcons ▸ List.mem_cons_self)).1
      rw [hcons]
      exact if_neg hp

/-- No part of a text is lost by telling its sign and its name apart. -/
lemma eq_of_splitTilde (h : splitTilde t = (l.negated, l.atom.name)) : t = l.text := by
  cases t with
  | nil =>
      obtain ⟨hneg, hname⟩ := Prod.ext_iff.1 h
      exact absurd hname.symm (isName_iff.1 l.atom.valid).1
  | cons p t =>
      rw [splitTilde] at h
      split at h
      · next hp =>
        obtain ⟨hneg, rfl⟩ := Prod.ext_iff.1 h
        rw [text_of_negated hneg.symm, hp]
      · obtain ⟨hneg, hname⟩ := Prod.ext_iff.1 h
        rw [text_of_not_negated hneg.symm]
        exact hname

/-- **A literal is read from its text and from nothing else.** -/
theorem parse_eq_ok_iff : parse t = .ok l ↔ t = l.text := by
  have hread : parse t = .ok l ↔ splitTilde t = (l.negated, l.atom.name) := by
    rw [parse]
    obtain ⟨negated, name⟩ := splitTilde t
    dsimp only
    split
    · next hempty =>
      have hne := (isName_iff.1 l.atom.valid).1
      rw [Prod.mk.injEq, List.isEmpty_iff.1 hempty]
      exact iff_of_false nofun fun h => hne h.2.symm
    · rw [ofName_eq_ok_iff, Prod.mk.injEq, and_comm]
  rw [hread]
  constructor
  · exact eq_of_splitTilde
  · rintro rfl
    exact splitTilde_text l

/-- **The texts of literals are the names, and the names behind a tilde.** -/
lemma exists_text_eq_iff :
    (∃ l : Literal, t = l.text) ↔
      ∃ name : Text, (t = name ∨ t = .ofChar '~' :: name) ∧ isName name = true := by
  constructor
  · rintro ⟨l, rfl⟩
    refine ⟨l.atom.name, ?_, l.atom.valid⟩
    cases hneg : l.negated with
    | true => exact .inr (text_of_negated hneg)
    | false => exact .inl (text_of_not_negated hneg)
  · rintro ⟨name, rfl | rfl, hname⟩
    · exact ⟨⟨⟨t, hname⟩, false⟩, rfl⟩
    · exact ⟨⟨⟨name, hname⟩, true⟩, rfl⟩

/-- A word with a tilde that marks no negation: it is alone, or it is not in front. -/
def misspelt (w : Text) : Bool := w = "~" ∨ .ofChar '~' ∈ w.tail

lemma misspelt_iff : misspelt w = true ↔ w = "~" ∨ .ofChar '~' ∈ w.tail := decide_eq_true_iff

/-- Of a word only the tildes can be wrong: it holds no blank. -/
lemma isName_iff_of_isWord (hw : IsWord w) : isName w = true ↔ .ofChar '~' ∉ w := by
  rw [isName_iff]
  constructor
  · rintro ⟨-, h⟩ hmem
    exact (h _ hmem).1 rfl
  · intro h
    refine ⟨hw.ne_nil, fun p hp => ⟨?_, hw.solid p hp⟩⟩
    rintro rfl
    exact h hp

/-- **The words that are refused are the misspelt ones.** -/
lemma exists_parse_eq_ok_iff (hw : IsWord w) : (∃ l, parse w = .ok l) ↔ misspelt w = false := by
  simp only [parse_eq_ok_iff]
  rw [exists_text_eq_iff, ← Bool.not_eq_true, misspelt_iff, not_or]
  obtain ⟨p, rest, rfl⟩ := List.exists_cons_of_ne_nil hw.ne_nil
  rw [List.tail_cons]
  constructor
  · rintro ⟨name, rfl | h, hname⟩
    · have htilde := (isName_iff_of_isWord hw).1 hname
      refine ⟨fun h => htilde ?_, fun hmem => htilde (List.mem_cons_of_mem p hmem)⟩
      exact h ▸ List.mem_cons_self
    · obtain ⟨-, rfl⟩ := List.cons.inj h
      obtain ⟨hne, htilde⟩ := isName_iff.1 hname
      exact ⟨fun h => hne (List.cons.inj h).2, fun hmem => (htilde _ hmem).1 rfl⟩
  · rintro ⟨halone, htilde⟩
    -- behind a tilde the rest has to be a name, otherwise the whole word
    by_cases hp : p = .ofChar '~'
    · have hne : rest ≠ [] := by
        rintro rfl
        exact halone (by rw [hp]; rfl)
      have hrest : IsWord rest := ⟨hne, fun q hq => hw.solid q (List.mem_cons_of_mem p hq)⟩
      exact ⟨rest, .inr (by rw [hp]), (isName_iff_of_isWord hrest).2 htilde⟩
    · refine ⟨p :: rest, .inl rfl, (isName_iff_of_isWord hw).2 ?_⟩
      rw [List.mem_cons, not_or]
      exact ⟨Ne.symm hp, htilde⟩

end Literal

/-! ## Clauses -/

namespace Clause

variable {line : Text} {ws : List Text} {ls : List Literal} {c : Clause}

/-- Words make a clause if they are the texts of literals. -/
lemma ofWords_eq_ok_iff :
    ofWords ws = .ok c ↔ ∃ ls, ws = ls.map Literal.text ∧ ofLiterals ls = c := by
  have hread : ∀ ls, ws.mapM Literal.parse = .ok ls ↔ ws = ls.map Literal.text := by
    intro ls
    simp only [mapM_eq_ok_iff, Literal.parse_eq_ok_iff]
    rw [← List.forall₂_map_right_iff, List.forall₂_eq_eq_eq]
  simp only [← hread]
  rw [ofWords]
  cases ws.mapM Literal.parse with
  | error e => exact iff_of_false nofun nofun
  | ok ls => simp

lemma words_eq_map_text_iff :
    words line = ls.map Literal.text ↔ LaidOut (ls.map Literal.text) line := by
  have hwords : ∀ w ∈ ls.map Literal.text, IsWord w := by
    intro w hw
    obtain ⟨l, -, rfl⟩ := List.mem_map.1 hw
    exact l.isWord_text
  rw [Text.words_eq_iff, and_iff_left hwords]

/-- **A clause is read from the layouts of its literals**, with one exception. -/
theorem parse_eq_ok_iff : parse line = .ok c ↔
    if strip line = "[]" then c = ∅
    else ∃ ls, LaidOut (ls.map Literal.text) line ∧ ofLiterals ls = c := by
  rw [parse]
  split
  · exact ⟨fun h => (Except.ok.inj h).symm, fun h => h ▸ rfl⟩
  · simp only [ofWords_eq_ok_iff, Text.words_strip, words_eq_map_text_iff]

/-- **One spelling for a literal, every layout for a clause.**

* A text is a literal if it is a name, or a tilde and a name; a name is not empty and holds neither
  tildes nor blanks.
* What is read as a literal is its text, and the text of a literal is read as that literal.
* A line that shows the texts of a clause's literals, each at least once, in any order, with blanks
  between them and perhaps around them, is read as the clause, unless it is the brackets alone. -/
theorem spelling_and_layout :
    (∀ t, (∃ l, Literal.parse t = .ok l) ↔ ∃ name : Text, (t = name ∨ t = "~" ++ name) ∧
      name ≠ [] ∧ ∀ p ∈ name, p ≠ '~' ∧ Text.isBlank p = false) ∧
    (∀ t l, Literal.parse t = .ok l → l.text = t) ∧
    (∀ l : Literal, Literal.parse l.text = .ok l) ∧
    ∀ (c : Clause) (ls : List Literal) (line : Text), (∀ l, l ∈ c ↔ l ∈ ls) →
      LaidOut (ls.map Literal.text) line →
      parse line = .ok (if strip line = "[]" then ∅ else c) := by
  refine ⟨fun t => ?_, fun t l h => (Literal.parse_eq_ok_iff.1 h).symm,
    fun l => Literal.parse_eq_ok_iff.2 rfl, fun c ls line hc h => ?_⟩
  · simp only [Literal.parse_eq_ok_iff, ← isName_iff]
    exact Literal.exists_text_eq_iff
  · rw [parse_eq_ok_iff]
    split
    · rfl
    · exact ⟨ls, h, ext_mem fun l => mem_ofLiterals.trans (hc l).symm⟩

open Sample (pos neg)

/-- The brackets are a literal among others, and the empty clause where they are alone. -/
theorem spelling_and_layout_brackets :
    let brackets : Literal := pos ⟨"[]", by decide⟩
    let rain : Literal := neg ⟨"rain", by decide⟩
    let line : Text := "\t[] ~rain  [] \n"
    (LaidOut ([brackets, rain, brackets].map Literal.text) line ∧
      parse line = .ok (.ofLiterals [rain, brackets])) ∧
    LaidOut ([brackets].map Literal.text) " []" ∧ parse " []" = .ok ∅ := by
  intro brackets rain line
  have hline : LaidOut ([brackets, rain, brackets].map Literal.text) line :=
    words_eq_map_text_iff.1 (by decide +kernel)
  have halone : LaidOut ([brackets].map Literal.text) " []" :=
    words_eq_map_text_iff.1 (by decide +kernel)
  have hmem : ∀ l, l ∈ ofLiterals [rain, brackets] ↔ l ∈ [brackets, rain, brackets] := by
    intro l
    simp only [mem_ofLiterals, List.mem_cons, List.not_mem_nil, or_false]
    tauto
  obtain ⟨-, -, -, hread⟩ := spelling_and_layout
  have hparse := hread _ _ line hmem hline
  have hparse' := hread (.ofLiterals [brackets]) _ " []" (fun l => mem_ofLiterals) halone
  rw [if_neg (by decide +kernel)] at hparse
  rw [if_pos (by decide +kernel)] at hparse'
  exact ⟨⟨hline, hparse⟩, halone, hparse'⟩

end Clause

end Saturation
