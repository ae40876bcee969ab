import Saturation.Text.Basic

/-!
# Blanks, trimming and words

Which code points separate words, and the two ways a line of text is cut at them: `strip` drops
the blanks around a text and `words` lists the runs between blanks.  The lemmas say that nothing
else is lost: no word holds a blank, and the words together are the text without its blanks.
-/

namespace Saturation.Text

/-- The code points that count as white space: the ASCII controls that move the cursor or separate
records, the ASCII space, and the spaces and line separators of the other scripts. -/
def isBlank (p : CodePoint) : Bool :=
  let n := p.value
  (0x9 ≤ n && n ≤ 0xD) || (0x1C ≤ n && n ≤ 0x20) || n == 0x85 || n == 0xA0 || n == 0x1680 ||
    (0x2000 ≤ n && n ≤ 0x200A) || n == 0x2028 || n == 0x2029 || n == 0x202F || n == 0x205F ||
    n == 0x3000

/-! ## Trimming -/

/-- A text without the blanks before it. -/
def stripLeft (t : Text) : Text := t.dropWhile isBlank

/-- A text without the blanks before and after it. -/
def strip (t : Text) : Text := (stripLeft (stripLeft t).reverse).reverse

/-! ## Words -/

/-- Reads words from the left; `run` holds the word in progress, last code point first. -/
def wordsFrom : (run : Text) → Text → List Text
  | [], [] => []
  | p :: run, [] => [(p :: run).reverse]
  | [], p :: t => if isBlank p then wordsFrom [] t else wordsFrom [p] t
  | q :: run, p :: t =>
    if isBlank p then (q :: run).reverse :: wordsFrom [] t else wordsFrom (p :: q :: run) t

/-- The maximal runs of code points that are not blank, in order. -/
def words (t : Text) : List Text := wordsFrom [] t

/-- Splitting loses blanks only. -/
theorem flatten_wordsFrom (run t : Text) :
    (wordsFrom run t).flatten = run.reverse ++ t.filter (!isBlank ·) := by
  fun_induction wordsFrom run t <;> simp_all

theorem not_isBlank_of_mem_wordsFrom {run t w : Text} {p : CodePoint}
    (hrun : ∀ q ∈ run, isBlank q = false) (hw : w ∈ wordsFrom run t) (hp : p ∈ w) :
    isBlank p = false := by
  have hmem : p ∈ (wordsFrom run t).flatten := List.mem_flatten.2 ⟨w, hw, hp⟩
  rw [flatten_wordsFrom, List.mem_append, List.mem_reverse, List.mem_filter] at hmem
  rcases hmem with h | ⟨_, h⟩
  · exact hrun p h
  · simpa using h

/-- No word is empty. -/
theorem ne_nil_of_mem_wordsFrom {run t w : Text} (hw : w ∈ wordsFrom run t) : w ≠ [] := by
  fun_induction wordsFrom run t <;> simp_all
  rcases hw with rfl | hw
  · simp
  · simp_all

end Saturation.Text
