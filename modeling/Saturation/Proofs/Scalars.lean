import Mathlib.Data.Nat.Digits.Defs
import Mathlib.Tactic.Lemma
import Mathlib.Tactic.SplitIfs
import Saturation.Json.Reader
import Saturation.Json.Writer

/-!
# Strings and integers are read as they were written

Strings are written in ASCII, so most code points become escapes of one unit or of two.  The reader
collects units first and joins pairs of them afterwards, over the whole string.  What is written of
one character are `units` of it, whatever follows (`stringUnits_escapedPoint`), and they join to
that character, because no character is half of a pair (`joinUnits_units`).  So a string is read
back (`stringRest_escaped`).

Of a number the reader takes as much as it can.  The digits of an integer are read back if what
follows would not go on with them (`Ends`).
-/

namespace Saturation

lemma Text.isWritable_iff {n : ℤ} : isWritable n = true ↔ n.natAbs < 10 ^ maxDigits := by
  rw [isWritable, decide_eq_true_eq, Nat.pow_eq]

namespace Json

variable {opened rest : List Char} {done : List ℕ} {n : ℕ}

/-! ## Escapes -/

lemma exists_hexDigits (hn : n < 0x10000) :
    ∃ a b c d, Text.hexDigits 4 n = [a, b, c, d] ∧ unit? a b c d = some n := by
  refine ⟨_, _, _, _, rfl, ?_⟩
  have hdigit : ∀ k, Text.hexValue? (Nat.digitChar (k % 16)) = some (k % 16) :=
    fun k => Text.hexValue?_digitChar (Nat.mod_lt k (by decide))
  simp only [unit?, hdigit, Option.bind_eq_bind, Option.bind_some, Option.pure_def,
    Option.some.injEq]
  omega

lemma stringUnits_escapedUnit (hn : n < 0x10000) (hrest : rest ≠ []) :
    stringUnits opened done (escapedUnit n ++ rest) = stringUnits opened (n :: done) rest := by
  obtain ⟨a, b, c, d, hdigits, hunit⟩ := exists_hexDigits hn
  have hrest : rest.isEmpty = false := List.isEmpty_eq_false_iff.2 hrest
  rw [escapedUnit, hdigits]
  simp [stringUnits, hunit, hrest]

/-- The units that a code point is written as. -/
def units (n : ℕ) : List ℕ :=
  if n < 0x10000 then [n]
  else [0xD800 + (n - 0x10000) / 0x400, 0xDC00 + (n - 0x10000) % 0x400]

lemma stringUnits_escapedNumber (hn : n < 0x110000) (hrest : rest ≠ []) :
    stringUnits opened done (escapedNumber n ++ rest) =
      stringUnits opened ((units n).reverse ++ done) rest := by
  rw [escapedNumber, units]
  split
  · next hone => exact stringUnits_escapedUnit hone hrest
  · next htwo =>
      have hhigh : 0xD800 + (n - 0x10000) / 0x400 < 0x10000 := by omega
      have hlow : 0xDC00 + (n - 0x10000) % 0x400 < 0x10000 := by omega
      rw [List.append_assoc, stringUnits_escapedUnit hhigh (by simp [escapedUnit]),
        stringUnits_escapedUnit hlow hrest]
      rfl

lemma toNat_lt (c : Char) : c.toNat < 0x110000 := (CodePoint.ofChar c).valid

lemma units_of_lt (hn : n < 0x10000) : units n = [n] := if_pos hn

/-- A character that is written as itself is read as itself. -/
lemma stringUnits_cons {c : Char} (hquote : c ≠ '\x22') (hslash : c ≠ '\\') (hc : 0x20 ≤ c.toNat) :
    stringUnits opened done (c :: rest) = stringUnits opened (c.toNat :: done) rest := by
  have hc : ¬ c.toNat < 0x20 := Nat.not_lt.2 hc
  rw [stringUnits.eq_def]
  split <;> simp_all

/-- **What is written of a character is read as its units.** -/
lemma stringUnits_escapedPoint (c : Char) (hrest : rest ≠ []) :
    stringUnits opened done (escapedPoint c ++ rest) =
      stringUnits opened ((units c.toNat).reverse ++ done) rest := by
  rw [escapedPoint, CodePoint.toChar?_ofChar]
  dsimp only
  split_ifs with hsame hn hr ht hf hb hprint
  · rcases hsame with rfl | rfl <;> simp [stringUnits, letterEscape?, units]
  · subst hn; simp [stringUnits, letterEscape?, units]
  · subst hr; simp [stringUnits, letterEscape?, units]
  · subst ht; simp [stringUnits, letterEscape?, units]
  · subst hf; simp [stringUnits, letterEscape?, units]
  · subst hb; simp [stringUnits, letterEscape?, units]
  · have hc : 0x20 ≤ c.toNat ∧ c.toNat ≤ 0x7E := hprint
    rw [not_or] at hsame
    rw [units_of_lt (by omega), List.singleton_append,
      stringUnits_cons hsame.1 hsame.2 hc.1]
    rfl
  · exact stringUnits_escapedNumber (toNat_lt c) hrest

/-! ## Strings -/

lemma pairPoint_units (hn : 0x10000 ≤ n) :
    pairPoint (0xD800 + (n - 0x10000) / 0x400) (0xDC00 + (n - 0x10000) % 0x400) = n := by
  unfold pairPoint
  omega

/-- **The units of a character join to it**, whatever comes after them. -/
lemma joinUnits_units (c : Char) (us : List ℕ) :
    joinUnits (units c.toNat ++ us) = c.toNat :: joinUnits us := by
  have hc : c.toNat < 0xD800 ∨ 0xDFFF < c.toNat ∧ c.toNat < 0x110000 := c.valid
  rw [units]
  split
  · next hone =>
      have hhigh : isHighUnit c.toNat = false := by
        simp only [isHighUnit, Bool.and_eq_false_iff, decide_eq_false_iff_not]
        omega
      cases us with
      | nil => rfl
      | cons u us => simp [joinUnits, hhigh]
  · next htwo =>
      have hhigh : isHighUnit (0xD800 + (c.toNat - 0x10000) / 0x400) = true := by
        simp only [isHighUnit, Bool.and_eq_true, decide_eq_true_eq]
        omega
      have hlow : isLowUnit (0xDC00 + (c.toNat - 0x10000) % 0x400) = true := by
        simp only [isLowUnit, Bool.and_eq_true, decide_eq_true_eq]
        omega
      rw [List.cons_append, List.cons_append, List.nil_append, joinUnits, hhigh, hlow,
        pairPoint_units (Nat.not_lt.1 htwo)]
      rfl

lemma joinUnits_flatMap (cs : List Char) :
    joinUnits (cs.flatMap fun c => units c.toNat) = cs.map Char.toNat := by
  induction cs with
  | nil => rfl
  | cons c cs ih => rw [List.flatMap_cons, joinUnits_units, ih, List.map_cons]

lemma filterMap_ofNat? (cs : List Char) :
    (cs.map Char.toNat).filterMap CodePoint.ofNat? = cs.map CodePoint.ofChar := by
  induction cs with
  | nil => rfl
  | cons c cs ih =>
      have hc : CodePoint.ofNat? c.toNat = some (.ofChar c) := dif_pos (toNat_lt c)
      rw [List.map_cons, List.filterMap_cons, hc, ih, List.map_cons]

lemma stringUnits_escaped (cs : List Char) :
    stringUnits opened done ((cs.map CodePoint.ofChar).flatMap escapedPoint ++ '\x22' :: rest) =
      .ok (done.reverse ++ cs.flatMap fun c => units c.toNat, rest) := by
  induction cs generalizing done with
  | nil => simp [stringUnits]
  | cons c cs ih =>
      rw [List.map_cons, List.flatMap_cons, List.append_assoc,
        stringUnits_escapedPoint c (by simp), ih]
      simp

/-- **A string is read as it was written.** -/
theorem stringRest_escaped (s : String) (rest : List Char) :
    stringRest ((s : Text).flatMap escapedPoint ++ '\x22' :: rest) = .ok (↑s, rest) := by
  rw [stringRest, Text.ofString, stringUnits_escaped]
  simp only [List.reverse_nil, List.nil_append, joinUnits_flatMap, filterMap_ofNat?]

/-! ## Integers -/

/-- The text does not go on with a number: it starts with no digit, point or exponent. -/
def Ends (rest : List Char) : Prop :=
  ∀ c ∈ rest.head?, c.isDigit = false ∧ c ≠ '.' ∧ c ≠ 'e' ∧ c ≠ 'E'

lemma Ends.fraction (h : Ends rest) : fraction rest = (none, rest) := by
  cases rest with
  | nil => rfl
  | cons c rest =>
      have hc : c ≠ '.' := (h c rfl).2.1
      rw [Json.fraction.eq_def]
      split <;> simp_all

lemma Ends.exponent (h : Ends rest) : exponent rest = (none, rest) := by
  cases rest with
  | nil => rfl
  | cons c rest =>
      obtain ⟨-, -, he, hE⟩ := h c rfl
      simp [Json.exponent, he, hE]

lemma isDigit_of_mem_toDigits {c : Char} (hc : c ∈ Nat.toDigits 10 n) : c.isDigit = true :=
  Nat.isDigit_of_mem_toDigits (by decide) (by decide) hc

lemma ne_of_isDigit {c d : Char} (hd : d.isDigit = true) (hc : c.isDigit = false) : d ≠ c := by
  rintro rfl
  cases hc.symm.trans hd

lemma exists_toDigits_eq_cons (n : ℕ) :
    ∃ d ds, Nat.toDigits 10 n = d :: ds ∧ d.isDigit = true := by
  obtain ⟨d, ds, hds⟩ := List.exists_cons_of_ne_nil (Nat.toDigits_ne_nil (b := 10) (n := n))
  exact ⟨d, ds, hds, isDigit_of_mem_toDigits (hds ▸ List.mem_cons_self)⟩

/-- The digits of a number do not start with a zero, unless it is zero. -/
lemma head?_toDigits (hn : n ≠ 0) : (Nat.toDigits 10 n).head? ≠ some '0' := by
  induction n using Nat.strongRecOn with
  | ind n ih =>
      rw [Nat.toDigits_eq_if (by decide)]
      split
      · simpa using hn
      · next hle =>
          obtain ⟨d, ds, hds, -⟩ := exists_toDigits_eq_cons (n / 10)
          have hhead := ih (n / 10) (by omega) (by omega)
          rw [hds] at hhead ⊢
          exact hhead

/-- The digits before what ends a number are taken, all of them and no more. -/
lemma Ends.wholeDigits (h : Ends rest) (n : ℕ) :
    wholeDigits (Nat.toDigits 10 n ++ rest) = (Nat.toDigits 10 n, rest) := by
  have hdigits : ∀ c ∈ Nat.toDigits 10 n, c.isDigit = true := fun c => isDigit_of_mem_toDigits
  have hrest : rest.takeWhile Char.isDigit = [] ∧ rest.dropWhile Char.isDigit = rest := by
    cases rest with
    | nil => exact ⟨rfl, rfl⟩
    | cons c rest => simp [(h c rfl).1]
  by_cases hn : n = 0
  · subst hn
    rfl
  · have hhead : ∀ cs, Nat.toDigits 10 n ++ rest ≠ '0' :: cs := by
      intro cs hcs
      obtain ⟨d, ds, hds, -⟩ := exists_toDigits_eq_cons n
      have hhead := head?_toDigits hn
      rw [hds] at hhead hcs
      obtain rfl : d = '0' := (List.cons.inj hcs).1
      exact hhead rfl
    rw [Json.wholeDigits.eq_2 _ hhead, List.takeWhile_append_of_pos hdigits,
      List.dropWhile_append_of_pos hdigits, hrest.1, hrest.2, List.append_nil]

lemma toList_toString_nat (n : ℕ) : (toString n).toList = Nat.toDigits 10 n := by
  rw [Nat.toString_eq_ofList_toDigits, String.toList_ofList]

lemma toList_toString (n : ℤ) :
    (toString n).toList = (if n < 0 then ['-'] else []) ++ Nat.toDigits 10 n.natAbs := by
  cases n with
  | ofNat n =>
      have hpos : ¬ Int.ofNat n < 0 := Int.not_lt.2 (Int.natCast_nonneg n)
      rw [if_neg hpos, ← toList_toString_nat]
      rfl
  | negSucc n =>
      have htext : toString (Int.negSucc n) = "-" ++ toString (n + 1) := rfl
      rw [if_pos (Int.negSucc_lt_zero n), htext, String.toList_append, toList_toString_nat]
      rfl

lemma exists_toString_eq_cons (n : ℤ) :
    ∃ c cs, (toString n).toList = c :: cs ∧ (c = '-' ∨ c.isDigit = true) := by
  obtain ⟨d, ds, hds, hd⟩ := exists_toDigits_eq_cons n.natAbs
  rw [toList_toString, hds]
  split
  · exact ⟨_, _, rfl, .inl rfl⟩
  · exact ⟨_, _, rfl, .inr hd⟩

/-- The digits of a number and what ends it, as the reader takes them apart. -/
lemma Ends.number?_of_sign (h : Ends rest) (hn : n < 10 ^ Text.maxDigits) (sign : Bool) :
    number? ((if sign then ['-'] else []) ++ (Nat.toDigits 10 n ++ rest)) =
      some (.ok (.int (if sign then -n else n), rest)) := by
  have hlength : (Nat.toDigits 10 n).length ≤ Text.maxDigits :=
    Nat.toDigits_length 10 n _ (by decide) hn
  have hwhole := h.wholeDigits n
  have hvalue : Nat.ofDigitChars 10 (Nat.toDigits 10 n) 0 = n := Nat.ofDigitChars_ten_toDigits
  obtain ⟨d, ds, hds, hd⟩ := exists_toDigits_eq_cons n
  have hhead : ∀ cs, Nat.toDigits 10 n ++ rest ≠ '-' :: cs := by
    intro cs hcs
    rw [hds, List.cons_append] at hcs
    exact ne_of_isDigit hd rfl (List.cons.inj hcs).1
  generalize Nat.toDigits 10 n ++ rest = unsigned at hwhole hhead
  rw [hds] at hlength hwhole hvalue
  cases sign with
  | true =>
      simp only [number?, if_true, List.singleton_append, hwhole, h.fraction, h.exponent, hlength,
        hvalue]
  | false =>
      rw [if_neg Bool.false_ne_true, List.nil_append, number?.eq_2 _ hhead]
      simp only [hwhole, h.fraction, h.exponent, hlength, if_true, hvalue]

lemma Ends.number?_toString (h : Ends rest) {n : ℤ} (hn : Text.isWritable n = true) :
    number? ((toString n).toList ++ rest) = some (.ok (.int n, rest)) := by
  have hvalue : (if decide (n < 0) = true then -(n.natAbs : ℤ) else n.natAbs) = n := by
    simp only [decide_eq_true_eq]
    omega
  have hread := h.number?_of_sign (Text.isWritable_iff.1 hn) (decide (n < 0))
  rw [hvalue] at hread
  simp only [decide_eq_true_eq] at hread
  rw [toList_toString, List.append_assoc, hread]

lemma isPrefixOf?_cons_of_ne {c d : Char} (h : c ≠ d) (cs ds : List Char) :
    (c :: cs).isPrefixOf? (d :: ds) = none :=
  if_neg (mt beq_iff_eq.1 h)

lemma isPrefixOf?_cons_self (c : Char) (cs ds : List Char) :
    (c :: cs).isPrefixOf? (c :: ds) = cs.isPrefixOf? ds :=
  if_pos (beq_self_eq_true c)

/-- The word of a constant is no beginning of the text of an integer. -/
lemma findSome?_wordValues (n : ℤ) (rest : List Char) :
    (wordValues.findSome? fun (w, v) =>
      (w.toList.isPrefixOf? ((toString n).toList ++ rest)).map (v, ·)) = none := by
  obtain ⟨d, ds, hds, hd⟩ := exists_toDigits_eq_cons n.natAbs
  have hne : ∀ c : Char, c.isDigit = false → c ≠ d := fun c hc => (ne_of_isDigit hd hc).symm
  rw [toList_toString, hds]
  split <;> simp [wordValues, isPrefixOf?_cons_of_ne, isPrefixOf?_cons_self, hne]

lemma Ends.scalar_toString (h : Ends rest) {n : ℤ} (hn : Text.isWritable n = true) :
    scalar ((toString n).toList ++ rest) = .ok (.int n, rest) := by
  rw [scalar, findSome?_wordValues, h.number?_toString hn]

lemma scalar_null (rest : List Char) :
    scalar (['n', 'u', 'l', 'l'] ++ rest) = .ok (.null, rest) := rfl

lemma scalar_bool (b : Bool) (rest : List Char) :
    scalar ((if b then ['t', 'r', 'u', 'e'] else ['f', 'a', 'l', 's', 'e']) ++ rest) =
      .ok (.bool b, rest) := by
  cases b <;> rfl

end Json

end Saturation
