import Mathlib.Data.List.DropRight
import Saturation.Text.Blank

/-!
# Words and their layout

A line shows words in an order, with blanks between them and perhaps around them.  `LaidOut` says
this of a line and any list of texts, without a scanner.  The words that are read from a line are
the only ones that it lays out (`words_eq_iff`), so blanks before and after make no difference
(`words_strip`), and neither does trimming twice (`strip_strip`).
-/

namespace Saturation.Text

variable {t u w line gap : Text} {p : CodePoint} {ws : List Text}

/-- Nothing but blanks. -/
def Blank (t : Text) : Prop := ∀ p ∈ t, isBlank p = true

instance (t : Text) : Decidable (Blank t) := inferInstanceAs (Decidable (∀ p ∈ t, _))

/-- What can stand as a word: something, and no blank in it. -/
structure IsWord (w : Text) : Prop where
  ne_nil : w ≠ []
  solid : ∀ p ∈ w, isBlank p = false

/-- The line shows the texts in this order.  Any number of blanks may come before each of them, and
after it comes the end of the line or a blank. -/
inductive LaidOut : List Text → Text → Prop
  | blank {gap : Text} (hgap : Blank gap) : LaidOut [] gap
  | last {gap w : Text} (hgap : Blank gap) : LaidOut [w] (gap ++ w)
  | cons {gap w line : Text} {p : CodePoint} {ws : List Text} (hgap : Blank gap)
      (hp : isBlank p = true) (hline : LaidOut ws line) : LaidOut (w :: ws) (gap ++ w ++ p :: line)

@[simp]
lemma blank_nil : Blank [] := nofun

@[simp]
lemma blank_append : Blank (t ++ u) ↔ Blank t ∧ Blank u := List.forall_mem_append

@[simp]
lemma blank_cons : Blank (p :: t) ↔ isBlank p = true ∧ Blank t := List.forall_mem_cons

/-! ## Layout -/

namespace LaidOut

lemma prepend (h : LaidOut ws line) (hgap : Blank gap) : LaidOut ws (gap ++ line) := by
  cases h with
  | blank hline => exact .blank (blank_append.2 ⟨hgap, hline⟩)
  | last hgap' =>
      rw [← List.append_assoc]
      exact .last (blank_append.2 ⟨hgap, hgap'⟩)
  | cons hgap' hp hline =>
      rw [← List.append_assoc, ← List.append_assoc]
      exact .cons (blank_append.2 ⟨hgap, hgap'⟩) hp hline

lemma append (h : LaidOut ws line) (hgap : Blank gap) : LaidOut ws (line ++ gap) := by
  induction h with
  | blank hline => exact .blank (blank_append.2 ⟨hline, hgap⟩)
  | last hgap' =>
      -- the blank that ends the word is now the first of the gap, if there is one
      cases gap with
      | nil =>
          rw [List.append_nil]
          exact .last hgap'
      | cons p gap => exact .cons hgap' (blank_cons.1 hgap).1 (.blank (blank_cons.1 hgap).2)
  | cons hgap' hp _ ih =>
      rw [List.append_assoc, List.cons_append]
      exact .cons hgap' hp ih

end LaidOut

/-! ## Words -/

lemma isWord_of_mem_words (hw : w ∈ words t) : IsWord w := by
  refine ⟨ne_nil_of_mem_wordsFrom hw, fun p hp => ?_⟩
  exact not_isBlank_of_mem_wordsFrom (List.forall_mem_nil _) hw hp

/-- A line lays out the words that are read from it, by induction along the reading; the word in
progress stands before the rest. -/
lemma laidOut_wordsFrom (run t : Text) : LaidOut (wordsFrom run t) (run.reverse ++ t) := by
  fun_induction wordsFrom run t with
  | case1 => exact .blank blank_nil
  | case2 p run =>
      rw [List.append_nil]
      exact .last blank_nil
  | case3 p t hp ih =>
      have hgap : Blank [p] := blank_cons.2 ⟨hp, blank_nil⟩
      exact ih.prepend hgap
  | case4 p t hp ih => exact ih
  | case5 q run p t hp ih => exact .cons blank_nil hp ih
  | case6 q run p t hp ih =>
      rw [List.reverse_cons, List.append_assoc] at ih
      exact ih

lemma words_append_of_blank (hgap : Blank gap) (t : Text) : words (gap ++ t) = words t := by
  induction gap with
  | nil => rfl
  | cons p gap ih =>
      obtain ⟨hp, hgap⟩ := blank_cons.1 hgap
      rw [← ih hgap]
      exact if_pos hp

lemma wordsFrom_append_of_solid (hw : ∀ p ∈ w, isBlank p = false) (run t : Text) :
    wordsFrom run (w ++ t) = wordsFrom (w.reverse ++ run) t := by
  induction w generalizing run with
  | nil => rfl
  | cons p w ih =>
      obtain ⟨hp, hw⟩ := List.forall_mem_cons.1 hw
      have hstep : wordsFrom run (p :: (w ++ t)) = wordsFrom (p :: run) (w ++ t) := by
        cases run <;> simp [wordsFrom, hp]
      rw [List.cons_append, hstep, ih hw, List.reverse_cons, List.append_assoc,
        List.singleton_append]

/-- A word that was read stays in progress up to the next blank or the end. -/
lemma IsWord.exists_run (hw : IsWord w) (t : Text) :
    ∃ q run, (q :: run).reverse = w ∧ words (w ++ t) = wordsFrom (q :: run) t := by
  have hread : words (w ++ t) = wordsFrom w.reverse t := by
    rw [words, wordsFrom_append_of_solid hw.solid, List.append_nil]
  obtain ⟨q, run, hrun⟩ := List.exists_cons_of_ne_nil (List.reverse_ne_nil_iff.2 hw.ne_nil)
  exact ⟨q, run, by rw [← hrun, List.reverse_reverse], hrun ▸ hread⟩

lemma IsWord.words_eq (hw : IsWord w) : words w = [w] := by
  obtain ⟨q, run, hrun, hread⟩ := hw.exists_run []
  rw [List.append_nil] at hread
  rw [hread, wordsFrom, hrun]

/-- A blank parts the words before it from those after it, also when one is in progress. -/
lemma wordsFrom_append_cons (hp : isBlank p = true) (run t u : Text) :
    wordsFrom run (t ++ p :: u) = wordsFrom run t ++ words u := by
  fun_induction wordsFrom run t with
  | case1 => exact if_pos hp
  | case2 q run => exact if_pos hp
  | case3 q t hq ih =>
      rw [List.cons_append, wordsFrom, if_pos hq, ih]
  | case4 q t hq ih =>
      rw [List.cons_append, wordsFrom, if_neg hq, ih]
  | case5 q run r t hr ih =>
      rw [List.cons_append, wordsFrom, if_pos hr, ih, List.cons_append]
  | case6 q run r t hr ih =>
      rw [List.cons_append, wordsFrom, if_neg hr, ih]

lemma words_append_cons (hp : isBlank p = true) (t u : Text) :
    words (t ++ p :: u) = words t ++ words u := wordsFrom_append_cons hp [] t u

/-- What ends a line and is no blank ends its last word. -/
lemma exists_wordsFrom_concat (hp : isBlank p = false) (run t : Text) :
    ∃ ws w, wordsFrom run (t ++ [p]) = ws ++ [w ++ [p]] := by
  have hp : ¬ isBlank p = true := Bool.not_eq_true _ ▸ hp
  fun_induction wordsFrom run t with
  | case1 => exact ⟨[], [], if_neg hp⟩
  | case2 q run =>
      refine ⟨[], (q :: run).reverse, ?_⟩
      rw [List.nil_append, wordsFrom, if_neg hp, wordsFrom, List.reverse_cons (a := p)]
      rfl
  | case3 q t hq ih =>
      rw [List.cons_append, wordsFrom, if_pos hq]
      exact ih
  | case4 q t hq ih =>
      rw [List.cons_append, wordsFrom, if_neg hq]
      exact ih
  | case5 q run r t hr ih =>
      obtain ⟨ws, w, h⟩ := ih
      refine ⟨(q :: run).reverse :: ws, w, ?_⟩
      rw [List.cons_append, wordsFrom, if_pos hr, h, List.cons_append]
  | case6 q run r t hr ih =>
      rw [List.cons_append, wordsFrom, if_neg hr]
      exact ih

lemma words_of_laidOut (h : LaidOut ws line) (hws : ∀ w ∈ ws, IsWord w) : words line = ws := by
  induction h with
  | blank hgap =>
      have hread := words_append_of_blank hgap []
      rwa [List.append_nil] at hread
  | last hgap => rw [words_append_of_blank hgap, (hws _ List.mem_cons_self).words_eq]
  | cons hgap hp _ ih =>
      obtain ⟨hw, hws⟩ := List.forall_mem_cons.1 hws
      rw [List.append_assoc, words_append_of_blank hgap, words_append_cons hp, hw.words_eq, ih hws,
        List.singleton_append]

/-- **The words of a line are the only ones that it lays out.** -/
theorem words_eq_iff : words line = ws ↔ LaidOut ws line ∧ ∀ w ∈ ws, IsWord w := by
  constructor
  · rintro rfl
    exact ⟨laidOut_wordsFrom [] line, fun w => isWord_of_mem_words⟩
  · rintro ⟨h, hws⟩
    exact words_of_laidOut h hws

lemma mem_of_mem_words (hw : w ∈ words t) (hp : p ∈ w) : p ∈ t := by
  have hmem : p ∈ (wordsFrom [] t).flatten := List.mem_flatten.2 ⟨w, hw, hp⟩
  rw [flatten_wordsFrom] at hmem
  exact List.mem_of_mem_filter hmem

/-! ## Trimming -/

lemma strip_eq (t : Text) : strip t = (stripLeft t).rdropWhile isBlank := rfl

/-- Trimming takes blanks away, before and after. -/
lemma exists_eq_strip (t : Text) :
    ∃ before after, Blank before ∧ Blank after ∧ t = before ++ (strip t ++ after) := by
  refine ⟨t.takeWhile isBlank, (stripLeft t).rtakeWhile isBlank,
    fun p => List.mem_takeWhile_imp, fun p => List.mem_rtakeWhile_imp, ?_⟩
  rw [strip_eq, List.rdropWhile_append_rtakeWhile, stripLeft, List.takeWhile_append_dropWhile]

lemma strip_eq_nil_iff : strip t = [] ↔ Blank t := by
  constructor
  · intro h
    obtain ⟨before, after, hbefore, hafter, ht⟩ := exists_eq_strip t
    rw [ht, h]
    exact blank_append.2 ⟨hbefore, hafter⟩
  · intro h
    rw [strip_eq, List.rdropWhile_eq_nil_iff]
    exact fun p hp => h p ((List.dropWhile_sublist _).mem hp)

/-- What is left by trimming at both ends does not begin with a blank. -/
lemma stripLeft_strip (t : Text) : stripLeft (strip t) = strip t := by
  obtain ⟨after, hafter⟩ : strip t <+: stripLeft t := List.rdropWhile_prefix _ _
  cases hstrip : strip t with
  | nil => rfl
  | cons p u =>
      have hfirst := List.head?_dropWhile_not isBlank t
      rw [← stripLeft, ← hafter, hstrip] at hfirst
      exact List.dropWhile_cons_of_neg (Bool.eq_false_iff.1 hfirst)

/-- Trimming twice is trimming once. -/
@[simp]
lemma strip_strip (t : Text) : strip (strip t) = strip t := by
  rw [strip_eq (strip t), stripLeft_strip]
  exact List.rdropWhile_idempotent _ _

/-- **Trimming does not change the words.** -/
@[simp]
lemma words_strip (t : Text) : words (strip t) = words t := by
  obtain ⟨before, after, hbefore, hafter, ht⟩ := exists_eq_strip t
  obtain ⟨hlaidOut, hwords⟩ := words_eq_iff.1 (Eq.refl (words (strip t)))
  refine (words_eq_iff.2 ⟨?_, hwords⟩).symm
  have hline := (hlaidOut.append hafter).prepend hbefore
  rwa [← ht] at hline

end Saturation.Text
