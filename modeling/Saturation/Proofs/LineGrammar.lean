import Saturation.Listing
import Saturation.Proofs.Spelling

/-!
# The grammar of listings

A listing is read from the lines that count, each with its number among all lines, and from nothing
else (`Listing.readFrom_eq_mapM`).  `Listing.relevant` says which lines count; `Listing.Shows` says
what entry such a line shows.

A line is read by its words, so it is bad if one of them is misspelt.  If no line that counts is
bad, the listing is the list of what they show; otherwise the first misspelt word of the first bad
line is the fault (`Listing.read_grammar`).
-/

namespace Saturation

open Text (Blank words strip)
open Literal (misspelt)

variable {line w : Text} {c : Clause} {l : Literal} {cause : LiteralError}

/-! ## Lines -/

lemma Literal.exists_parse_eq_error (hw : Text.IsWord w) (h : misspelt w = true) :
    ∃ cause, parse w = .error cause := by
  cases hread : parse w with
  | error cause => exact ⟨cause, rfl⟩
  | ok l =>
      have hfine := (exists_parse_eq_ok_iff hw).1 ⟨l, hread⟩
      rw [h] at hfine
      cases hfine

namespace Clause

@[simp]
lemma parse_strip (line : Text) : parse (strip line) = parse line := by
  rw [parse, parse, Text.strip_strip]

lemma parse_of_brackets (h : strip line = "[]") : parse line = .ok ∅ := if_pos h

lemma parse_of_words (h : strip line ≠ "[]") : parse line = ofWords (words line) := by
  rw [parse, if_neg h, Text.words_strip]

/-- Brackets alone on a line are its only word, and nothing is wrong with it. -/
lemma find?_misspelt_of_brackets (h : strip line = "[]") : (words line).find? misspelt = none := by
  rw [← Text.words_strip, h]
  decide +kernel

/-- A line whose words are all spelt well is read. -/
lemma exists_parse_eq_ok (h : (words line).find? misspelt = none) : ∃ c, parse line = .ok c := by
  by_cases hbrackets : strip line = "[]"
  · exact ⟨∅, parse_of_brackets hbrackets⟩
  · obtain ⟨ls, hls⟩ : ∃ ls, (words line).mapM Literal.parse = .ok ls := by
      refine exists_mapM_eq_ok fun w hw => ?_
      have hfine := List.find?_eq_none.1 h w hw
      exact (Literal.exists_parse_eq_ok_iff (Text.isWord_of_mem_words hw)).2
        (Bool.eq_false_iff.2 hfine)
    exact ⟨ofLiterals ls, by rw [parse_of_words hbrackets, ofWords, hls]⟩

/-- **The first misspelt word of a line is its fault.** -/
lemma parse_eq_error (hfind : (words line).find? misspelt = some w)
    (hw : Literal.parse w = .error cause) : parse line = .error cause := by
  have hbrackets : strip line ≠ "[]" := by
    intro h
    rw [find?_misspelt_of_brackets h] at hfind
    cases hfind
  have hread : (words line).mapM Literal.parse = .error cause :=
    mapM_eq_error (fun v hv => (Literal.exists_parse_eq_ok_iff (Text.isWord_of_mem_words hv)).2)
      hfind hw
  rw [parse_of_words hbrackets, ofWords, hread]

lemma exists_parse_eq_error (hfind : (words line).find? misspelt = some w) :
    ∃ cause, Literal.parse w = .error cause ∧ parse line = .error cause := by
  obtain ⟨cause, hcause⟩ := Literal.exists_parse_eq_error
    (Text.isWord_of_mem_words (List.mem_of_find?_eq_some hfind)) (List.find?_some hfind)
  exact ⟨cause, hcause, parse_eq_error hfind hcause⟩

lemma mem_iff_of_parse (hbrackets : strip line ≠ "[]") (hparse : parse line = .ok c) :
    l ∈ c ↔ ∃ w ∈ words line, Literal.parse w = .ok l := by
  rw [parse_of_words hbrackets, ofWords_eq_ok_iff] at hparse
  obtain ⟨ls, hwords, rfl⟩ := hparse
  rw [hwords, mem_ofLiterals]
  constructor
  · intro hl
    exact ⟨l.text, List.mem_map_of_mem hl, Literal.parse_eq_ok_iff.2 rfl⟩
  · rintro ⟨w, hw, hread⟩
    obtain ⟨k, hk, rfl⟩ := List.mem_map.1 hw
    obtain rfl := Except.ok.inj (hread.symm.trans (Literal.parse_eq_ok_iff.2 rfl))
    exact hk

end Clause

/-! ## Listings -/

namespace Listing

variable {lines : List Text} {number : ℕ}

/-- The lines that count, with their numbers: those before the first line that says `end`, except
blank lines and remarks. -/
def relevantFrom (number : ℕ) (lines : List Text) : List (Text × ℕ) :=
  ((lines.zipIdx number).takeWhile fun x => strip x.1 ≠ "end").filter fun x =>
    ¬ (Blank x.1 ∨ (strip x.1).head? = some (.ofChar '#'))

def relevant (lines : List Text) : List (Text × ℕ) := relevantFrom 1 lines

/-- A line with a word that is misspelt. -/
def isBad (line : Text) : Bool := (words line).any misspelt

/-- The entry that a numbered line shows.  Brackets alone are the empty clause; other lines are the
clause of the literals that their words are. -/
structure Shows (x : Text × ℕ) (e : Entry) : Prop where
  brackets : strip x.1 = "[]" → e.clause = ∅
  literals : strip x.1 ≠ "[]" → ∀ l, l ∈ e.clause ↔ ∃ w ∈ words x.1, Literal.parse w = .ok l
  source : e.source = { step := .int 0, label := .string ("line " ++ toString x.2) }

/-- Reading one line, whose number goes into the label or the fault. -/
def readLine (x : Text × ℕ) : Except LiteralError Entry :=
  match Clause.parse x.1 with
  | .error cause => .error (.onLine x.2 cause)
  | .ok c => .ok ⟨c, .labelled (label x.2)⟩

lemma isEnd_iff : isEnd line = true ↔ line = "end" := beq_iff_eq

lemma isSkipped_strip_iff :
    isSkipped (strip line) = true ↔ Blank line ∨ (strip line).head? = some (.ofChar '#') := by
  rw [isSkipped, Bool.or_eq_true, List.isEmpty_iff, Text.strip_eq_nil_iff, beq_iff_eq]

lemma relevantFrom_cons (number : ℕ) (line : Text) (rest : List Text) :
    relevantFrom number (line :: rest) =
      if isEnd (strip line) then []
      else if isSkipped (strip line) then relevantFrom (number + 1) rest
      else (line, number) :: relevantFrom (number + 1) rest := by
  rw [relevantFrom, List.zipIdx_cons]
  split_ifs with hend hskipped
  · rw [List.takeWhile_cons_of_neg (by simp [isEnd_iff.1 hend]), List.filter_nil]
  · have hgoes := mt isEnd_iff.2 hend
    have hpassed := isSkipped_strip_iff.1 hskipped
    rw [List.takeWhile_cons_of_pos (by simp [hgoes]),
      List.filter_cons_of_neg (by simp [-not_or, hpassed]), relevantFrom]
  · have hgoes := mt isEnd_iff.2 hend
    have hcounts := mt isSkipped_strip_iff.2 hskipped
    rw [List.takeWhile_cons_of_pos (by simp [hgoes]),
      List.filter_cons_of_pos (by simp [-not_or, hcounts]), relevantFrom]

/-- **A listing is read from its relevant lines**, line by line. -/
lemma readFrom_eq_mapM : readFrom number lines = (relevantFrom number lines).mapM readLine := by
  -- for any first number: it goes up with every line, also with one that is passed over
  induction lines generalizing number with
  | nil => rfl
  | cons line rest ih =>
      rw [readFrom, relevantFrom_cons]
      split_ifs with hend hskipped
      · rfl
      · exact ih
      · rw [List.mapM_cons, readLine, Clause.parse_strip, ih]
        cases Clause.parse line with
        | error cause => rfl
        | ok c => cases (relevantFrom (number + 1) rest).mapM readLine <;> rfl

lemma read_eq_mapM (lines : List Text) : read lines = (relevant lines).mapM readLine :=
  readFrom_eq_mapM

lemma isBad_eq_false_iff : isBad line = false ↔ (words line).find? misspelt = none := by
  rw [isBad, List.any_eq_false, List.find?_eq_none]

lemma isBad_iff : isBad line = true ↔ ∃ w, (words line).find? misspelt = some w := by
  rw [← Option.isSome_iff_exists, List.find?_isSome, isBad, List.any_eq_true]

lemma exists_parse_eq_error_iff :
    (∃ cause, Clause.parse line = .error cause) ↔ isBad line = true := by
  constructor
  · rintro ⟨cause, hparse⟩
    by_contra hbad
    obtain ⟨c, hc⟩ := Clause.exists_parse_eq_ok (isBad_eq_false_iff.1 (Bool.eq_false_iff.2 hbad))
    cases hc.symm.trans hparse
  · intro hbad
    obtain ⟨w, hfind⟩ := isBad_iff.1 hbad
    obtain ⟨cause, -, hparse⟩ := Clause.exists_parse_eq_error hfind
    exact ⟨cause, hparse⟩

variable {x : Text × ℕ} {e : Entry}

lemma exists_readLine_eq_ok (h : isBad x.1 = false) : ∃ e, readLine x = .ok e := by
  obtain ⟨c, hc⟩ := Clause.exists_parse_eq_ok (isBad_eq_false_iff.1 h)
  exact ⟨_, by rw [readLine, hc]⟩

lemma readLine_eq_ok_iff :
    readLine x = .ok e ↔ Clause.parse x.1 = .ok e.clause ∧ e.source = .labelled (label x.2) := by
  obtain ⟨c, source⟩ := e
  rw [readLine]
  cases Clause.parse x.1 with
  | error cause => simp
  | ok d => simp [eq_comm]

lemma shows_of_readLine (h : readLine x = .ok e) : Shows x e := by
  obtain ⟨hparse, hsource⟩ := readLine_eq_ok_iff.1 h
  refine ⟨fun hbrackets => ?_, fun hbrackets l => Clause.mem_iff_of_parse hbrackets hparse, hsource⟩
  exact Except.ok.inj (hparse.symm.trans (Clause.parse_of_brackets hbrackets))

/-- **The grammar of listings.**

* Listings with the same relevant lines in the same places are read alike.
* A line is refused exactly if it is bad: one of its words is a tilde alone, or has a tilde after
  its first place.
* If no relevant line is bad, the listing is read: an entry for each of them, in order, which the
  line shows.
* Otherwise the fault is that of the first misspelt word of the first bad line, with the number of
  the line. -/
theorem read_grammar (lines : List Text) :
    (∀ lines', relevant lines' = relevant lines → read lines' = read lines) ∧
    (∀ line, (∃ cause, Clause.parse line = .error cause) ↔
      ∃ w ∈ words line, w = "~" ∨ .ofChar '~' ∈ w.tail) ∧
    ((relevant lines).find? (isBad ·.1) = none →
      ∃ es, read lines = .ok es ∧ List.Forall₂ Shows (relevant lines) es) ∧
    ∀ line number, (relevant lines).find? (isBad ·.1) = some (line, number) →
      ∃ w cause, (words line).find? misspelt = some w ∧ Literal.parse w = .error cause ∧
        read lines = .error (.onLine number cause) ∧
        (LiteralError.onLine number cause).message =
          "line " ++ toString number ++ ": " ++ cause.message := by
  simp only [read_eq_mapM]
  refine ⟨fun lines' h => by rw [h], fun line => ?_, fun hfine => ?_, fun line number hbad => ?_⟩
  · rw [exists_parse_eq_error_iff, isBad, List.any_eq_true]
    simp only [Literal.misspelt_iff]
  · obtain ⟨es, hes⟩ : ∃ es, (relevant lines).mapM readLine = .ok es :=
      exists_mapM_eq_ok fun x hx =>
        exists_readLine_eq_ok (Bool.eq_false_iff.2 (List.find?_eq_none.1 hfine x hx))
    exact ⟨es, hes, (mapM_eq_ok_iff.1 hes).imp fun x e => shows_of_readLine⟩
  · have hline : isBad line = true := by simpa using List.find?_some hbad
    obtain ⟨w, hfind⟩ := isBad_iff.1 hline
    obtain ⟨cause, hcause, hparse⟩ := Clause.exists_parse_eq_error hfind
    have hread : readLine (line, number) = .error (.onLine number cause) := by
      rw [readLine, hparse]
    exact ⟨w, cause, hfind, hcause,
      mapM_eq_error (fun x _ => exists_readLine_eq_ok) hbad hread, rfl⟩

/-- A listing that is read, with remarks, a blank line, words of the format among others, brackets
alone and lines behind the end; and one with two bad lines. -/
theorem read_grammar_weather :
    let rain : Text := "rain\t~umbrella  rain"
    let mixed : Text := "end [] #x"
    let brackets : Text := " [] "
    let tilde : Text := "B  A~B ~ end"
    let good : List Text := ["# weather", " \t", rain, mixed, brackets, " end", "~ ~~"]
    let bad : List Text := ["wet", "#~~", tilde, "~"]
    ((relevant good).find? (isBad ·.1) = none ∧ ∃ es, read good = .ok es ∧
      List.Forall₂ Shows [(rain, 3), (mixed, 4), (brackets, 5)] es) ∧
    (relevant bad).find? (isBad ·.1) = some (tilde, 3) ∧ ∃ fault, read bad = .error fault ∧
      fault.message = "line 3: atom 'A~B' may not contain '~' or whitespace" := by
  intro rain mixed brackets tilde good bad
  have hgood : relevant good = [(rain, 3), (mixed, 4), (brackets, 5)] := by decide +kernel
  have hfine : (relevant good).find? (isBad ·.1) = none := by decide +kernel
  have hbad : (relevant bad).find? (isBad ·.1) = some (tilde, 3) := by decide +kernel
  obtain ⟨es, hes, hshows⟩ := (read_grammar good).2.2.1 hfine
  obtain ⟨w, cause, hfind, hcause, hread, hmessage⟩ := (read_grammar bad).2.2.2 _ _ hbad
  have hword : (words tilde).find? misspelt = some "A~B" := by decide +kernel
  obtain rfl := Option.some.inj (hword.symm.trans hfind)
  have hparse : Literal.parse "A~B" = .error (.notAName "A~B") := rfl
  obtain rfl := Except.error.inj (hparse.symm.trans hcause)
  refine ⟨⟨hfine, es, hes, hgood ▸ hshows⟩, hbad, _, hread, ?_⟩
  rw [hmessage]
  decide +kernel

end Listing

end Saturation
