import Mathlib.Data.List.TakeWhile
import Saturation.CommandLine.Arguments
import Saturation.Proofs.Scalars

/-!
# Arguments that are read as they are meant

A number that is an argument may begin with a dash and is no switch for all that: it looks like a
negative number, and nothing that is a switch does (`classify_toString`).  It is read as the number
that it is, if it has no more digits than are read at all (`Text.integer?_toString`).
-/

namespace Saturation

open CommandLine
open Json (exists_toDigits_eq_cons isDigit_of_mem_toDigits ne_of_isDigit toList_toString)

/-! ## Numbers -/

namespace Text

variable {c : Char} {cs : List Char} {n : ℕ} {k : ℤ}

lemma toNat_of_isDigit (hc : c.isDigit = true) : 0x30 ≤ c.toNat ∧ c.toNat ≤ 0x39 := by
  simpa [Char.isDigit, UInt32.le_iff_toNat_le] using hc

lemma digitValue?_of_isDigit (hc : c.isDigit = true) :
    digitValue? c = some (c.toNat - '0'.toNat) := by
  obtain ⟨hlow, hhigh⟩ := toNat_of_isDigit hc
  simp [digitValue?, zeroPoints, hlow, hhigh]

lemma not_isPadding_of_isDigit (hc : c.isDigit = true) : isPadding c = false := by
  obtain ⟨hlow, hhigh⟩ := toNat_of_isDigit hc
  simp only [isPadding, isBlank, CodePoint.ofChar]
  grind

lemma digitRun?_of_isDigit (hcs : ∀ c ∈ cs, c.isDigit = true) :
    digitRun? cs = some (cs.map fun c => c.toNat - '0'.toNat) := by
  induction cs with
  | nil => rfl
  | cons c cs ih =>
      obtain ⟨hc, hcs⟩ := List.forall_mem_cons.1 hcs
      have hne : c ≠ '_' := ne_of_isDigit hc rfl
      rw [digitRun?.eq_def]
      split
      · next h => cases h
      · next h => exact absurd (List.cons.inj h).1 hne
      · next h =>
        obtain ⟨rfl, rfl⟩ := List.cons.inj h
        rw [digitValue?_of_isDigit hc, ih hcs]
        rfl

lemma unpad_of_forall (hcs : ∀ c ∈ cs, isPadding c = false) : unpad cs = cs := by
  have hdrop : ∀ cs : List Char, (∀ c ∈ cs, isPadding c = false) → cs.dropWhile isPadding = cs := by
    intro cs hcs
    cases cs with
    | nil => rfl
    | cons c cs => exact List.dropWhile_cons_of_neg (by simp [hcs c List.mem_cons_self])
  rw [unpad, hdrop cs hcs, hdrop cs.reverse fun c hc => hcs c (List.mem_reverse.1 hc),
    List.reverse_reverse]

lemma natural?_toDigits (hn : n < 10 ^ maxDigits) : natural? (Nat.toDigits 10 n) = some n := by
  obtain ⟨d, ds, hds, hd⟩ := exists_toDigits_eq_cons n
  have hbare : ((Nat.toDigits 10 n).isEmpty || (Nat.toDigits 10 n).head? == some '_') = false := by
    have hne : d ≠ '_' := ne_of_isDigit hd rfl
    simp [hds, hne]
  have hlength : (Nat.toDigits 10 n).length ≤ maxDigits :=
    Nat.toDigits_length 10 n _ (by decide) hn
  have hvalue : Nat.ofDigitChars 10 (Nat.toDigits 10 n) 0 = n := Nat.ofDigitChars_ten_toDigits
  rw [natural?, hbare, digitRun?_of_isDigit fun c => isDigit_of_mem_toDigits]
  simp only [Bool.false_eq_true, if_false, Option.bind_some, List.length_map, hlength, if_true,
    List.foldl_map]
  exact congrArg some hvalue

/-- **A number is read as it is written**, within the limit on its digits. -/
lemma integer?_toString (hk : isWritable k = true) : integer? (toString k) = some k := by
  have hnatural := natural?_toDigits (isWritable_iff.1 hk)
  have hunpad : unpad (toString k).toList = (toString k).toList := by
    refine unpad_of_forall fun c hc => ?_
    rw [toList_toString, List.mem_append] at hc
    rcases hc with hc | hc
    · split at hc
      · obtain rfl := List.mem_singleton.1 hc
        decide
      · cases hc
    · exact not_isPadding_of_isDigit (isDigit_of_mem_toDigits hc)
  rw [integer?, hunpad, toList_toString]
  by_cases hneg : k < 0
  · have hvalue : -(k.natAbs : ℤ) = k := by omega
    rw [if_pos hneg, List.singleton_append]
    simp only [hnatural]
    exact congrArg some hvalue
  · have hvalue : Int.ofNat k.natAbs = k := Int.natAbs_of_nonneg (Int.not_lt.1 hneg)
    obtain ⟨d, ds, hds, hd⟩ := exists_toDigits_eq_cons k.natAbs
    rw [if_neg hneg, List.nil_append]
    split
    · next h => exact absurd (List.cons.inj (hds.symm.trans h)).1 (ne_of_isDigit hd rfl)
    · next h => exact absurd (List.cons.inj (hds.symm.trans h)).1 (ne_of_isDigit hd rfl)
    · rw [hnatural, Option.map_some, hvalue]

lemma looksNegative_toString (hk : k < 0) : looksNegative (toString k) = true := by
  have hdigits : ∀ c ∈ Nat.toDigits 10 k.natAbs, (digitValue? c).isSome = true := by
    intro c hc
    rw [digitValue?_of_isDigit (isDigit_of_mem_toDigits hc)]
    rfl
  have hlast : (Nat.toDigits 10 k.natAbs).getLast? ≠ some '\n' := by
    intro h
    cases isDigit_of_mem_toDigits (List.mem_of_getLast? h)
  have hwhole : (Nat.toDigits 10 k.natAbs).takeWhile (fun c => (digitValue? c).isSome) =
      Nat.toDigits 10 k.natAbs := List.takeWhile_eq_self_iff.2 hdigits
  have hisDigits : isDigits (Nat.toDigits 10 k.natAbs) = true := by
    rw [isDigits, Bool.and_eq_true, List.all_eq_true]
    exact ⟨by simp, hdigits⟩
  rw [looksNegative, toList_toString, if_pos hk, List.singleton_append]
  simp only [hlast, if_false, hwhole, List.drop_length, hisDigits]

end Text

/-! ## Words -/

namespace CommandLine

variable {s : String} {k : ℤ}

lemma classify_of_head? (hs : s.toList.head? ≠ some '-') : classify s = .ok (.word s) := if_pos hs

lemma classify_of_neg (hk : k < 0) : classify (toString k) = .ok (.word (toString k)) := by
  obtain ⟨d, ds, hds, hd⟩ := exists_toDigits_eq_cons k.natAbs
  have htext : (toString k).toList = '-' :: d :: ds := by
    rw [toList_toString, if_pos hk, hds]
    rfl
  have hspelling : Switch.ofSpelling? (toString k) = none := by
    have hsecond : ∀ p ∈ Switch.spellings, ∃ c ∈ p.1.toList.tail.head?, c.isDigit = false := by
      simp [Switch.spellings]
    refine List.lookup_eq_none_iff.2 fun p hp => bne_iff_ne.2 fun heq => ?_
    obtain ⟨c, hc, hcdigit⟩ := hsecond p hp
    rw [← heq, htext] at hc
    exact ne_of_isDigit hd hcdigit (Option.some.inj hc)
  have hdash : toString k ≠ "-" := by
    intro heq
    rw [heq] at htext
    cases htext
  have hsplit : splitEquals (toString k) = (toString k, none) := by
    have hno : (toString k).toList.dropWhile (· != '=') = [] := by
      rw [List.dropWhile_eq_nil_iff, toList_toString, if_pos hk]
      exact List.forall_mem_cons.2 ⟨by decide, fun c hc =>
        bne_iff_ne.2 (ne_of_isDigit (isDigit_of_mem_toDigits hc) rfl)⟩
    simp only [splitEquals, hno]
  have hloose : classifyLoose (toString k) = .ok (.word (toString k)) := by
    rw [classifyLoose, Text.looksNegative_toString hk, htext]
    dsimp only
    split
    · next h => exact absurd (List.cons.inj (List.cons.inj h).2).1 (ne_of_isDigit hd rfl)
    · next h => exact absurd (List.cons.inj (List.cons.inj h).2).1 (ne_of_isDigit hd rfl)
    · rfl
  rw [classify, htext, if_neg (by simp), hspelling, hsplit, if_neg hdash]
  exact hloose

/-- **A number is a word**, whatever its sign. -/
lemma classify_toString (k : ℤ) : classify (toString k) = .ok (.word (toString k)) := by
  by_cases hk : k < 0
  · exact classify_of_neg hk
  · obtain ⟨d, ds, hds, hd⟩ := exists_toDigits_eq_cons k.natAbs
    refine classify_of_head? ?_
    rw [toList_toString, if_neg hk, hds, List.nil_append, List.head?_cons]
    exact fun h => ne_of_isDigit hd rfl (Option.some.inj h)

/-! ## Command lines -/

/-- A cap, a file to save in, and the switches without a value that are wanted. -/
def settings (k : ℤ) (save : String) (strict quiet : Bool) : List String :=
  ["--max-rounds", toString k, "--save", save] ++
    ((if strict then ["--strict"] else []) ++ if quiet then ["--quiet"] else [])

def classifiedSettings (k : ℤ) (save : String) (strict quiet : Bool) : List Argument :=
  [.long .maxRounds none, .word (toString k), .long .save none, .word save] ++
    ((if strict then [.long .strict none] else []) ++ if quiet then [.long .quiet none] else [])

variable {file save : String} {strict quiet : Bool}

lemma classifyAll_cons {a : Argument} (h : classify s = .ok a) (rest : List String) :
    classifyAll (s :: rest) = (classifyAll rest).map (a :: ·) := by
  have hdivider : s ≠ "--" := by
    rintro rfl
    cases h
  rw [classifyAll, if_neg hdivider, h]

lemma classifyAll_settings (hsave : save.toList.head? ≠ some '-') :
    classifyAll (settings k save strict quiet) = .ok (classifiedSettings k save strict quiet) := by
  have hrounds : classify "--max-rounds" = .ok (.long .maxRounds none) := rfl
  have hswitch : classify "--save" = .ok (.long .save none) := rfl
  have hflags : classifyAll ((if strict then ["--strict"] else []) ++
      if quiet then ["--quiet"] else []) =
        .ok ((if strict then [.long .strict none] else []) ++
          if quiet then [.long .quiet none] else []) := by
    cases strict <;> cases quiet <;> rfl
  rw [settings, List.cons_append, classifyAll_cons hrounds, List.cons_append,
    classifyAll_cons (classify_toString k), List.cons_append, classifyAll_cons hswitch,
    List.cons_append, classifyAll_cons (classify_of_head? hsave), List.nil_append, hflags]
  rfl

lemma take_value {t : Taken} {switch : Switch} {value : String} {o : Options}
    (hswitch : switch.takesValue = true) (ho : t.options.setValue switch value = .ok o)
    (rest : List Argument) :
    take t (.long switch none :: .word value :: rest) = take { t with options := o } rest := by
  rw [take, if_pos hswitch, ho]

/-- The settings are taken, whatever was taken before. -/
lemma take_settings (t : Taken) (hk : Text.isWritable k = true) :
    take t (classifiedSettings k save strict quiet) =
      .ok { t with options := { t.options with
        maxRounds := .rounds k
        save := some save
        strict := t.options.strict || strict
        quiet := t.options.quiet || quiet } } := by
  have hrounds : t.options.setValue .maxRounds (toString k) =
      .ok { t.options with maxRounds := .rounds k } := by
    rw [Options.setValue, Text.integer?_toString hk]
  rw [classifiedSettings, List.cons_append, List.cons_append, take_value rfl hrounds,
    List.cons_append, List.cons_append, take_value rfl rfl]
  obtain ⟨options, fileOpen, spare⟩ := t
  cases strict <;> cases quiet <;> simp [take, Options.setFlag, Switch.takesValue]

/-- **A listing is read** with the settings that are given. -/
theorem ofArguments_listing (hfile : file.toList.head? ≠ some '-')
    (hsave : save.toList.head? ≠ some '-') (hk : Text.isWritable k = true) :
    Options.ofArguments (file :: settings k save strict quiet) =
      .ok { file := some file, maxRounds := .rounds k, save := some save, strict, quiet } := by
  rw [Options.ofArguments, classifyAll_cons (classify_of_head? hfile), classifyAll_settings hsave]
  have htake : take {} (.word file :: classifiedSettings k save strict quiet) =
      take { options := { file := some file }, fileOpen := false }
        (classifiedSettings k save strict quiet) := rfl
  dsimp only [Except.map]
  rw [htake, take_settings _ hk]
  simp

/-- **A saved search is loaded** with the settings that are given. -/
theorem ofArguments_saved (hfile : file.toList.head? ≠ some '-')
    (hsave : save.toList.head? ≠ some '-') (hk : Text.isWritable k = true) :
    Options.ofArguments ("--load" :: file :: settings k save strict quiet) =
      .ok { load := some file, maxRounds := .rounds k, save := some save, strict, quiet } := by
  have hload : classify "--load" = .ok (.long .load none) := rfl
  rw [Options.ofArguments, classifyAll_cons hload, classifyAll_cons (classify_of_head? hfile),
    classifyAll_settings hsave]
  dsimp only [Except.map]
  rw [take_value rfl rfl, take_settings _ hk]
  simp

end CommandLine

end Saturation
