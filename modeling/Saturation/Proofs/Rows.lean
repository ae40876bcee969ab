import Mathlib.Data.List.TakeWhile
import Saturation.Proofs.Scalars
import Saturation.Text.Lines

/-!
# The text of a document

A document is written from tokens, and its collections put marks around and between those of their
parts.  What holds of the marks holds of all tokens of a collection if it does of the parts'
(`forall_mem_enclosed`), so two things are seen part by part: that it makes no difference to the
layout whether a document can be written, and that no carriage return is written at all.

For reading, the text of a collection is cut at its commas: it is the opening bracket, the first
part, and a `row` of what comes after it.
-/

namespace Saturation.Json

/-! ## Plain documents -/

/-- A document of plain contents, with so many collections inside each other at most: no numbers but
integers, only strings of characters, and no name twice in one object. -/
inductive Plain : (room : ℕ) → Json → Prop
  | null {room : ℕ} : Plain room .null
  | bool {room : ℕ} (b : Bool) : Plain room (.bool b)
  | int {room : ℕ} (n : ℤ) : Plain room (.int n)
  | string {room : ℕ} (s : String) : Plain room (.string s)
  | array {room : ℕ} {items : List Json} (hitems : ∀ v ∈ items, Plain room v) :
      Plain (room + 1) (.array items)
  | object {room : ℕ} {fields : List (Text × Json)} (hdistinct : (fields.map Prod.fst).Nodup)
      (hnames : ∀ field ∈ fields, ∃ s : String, field.1 = s)
      (hvalues : ∀ field ∈ fields, Plain room field.2) : Plain (room + 1) (.object fields)

/-! ## The tokens of collections -/

variable {layout : Option ℕ} {opening closing : Char}

lemma itemTokens_eq_map (items : List Json) :
    itemTokens layout items = items.map (tokens layout) := by
  induction items with
  | nil => rfl
  | cons v items ih => rw [itemTokens, ih, List.map_cons]

lemma fieldsTokens_eq_map (fields : List (Text × Json)) :
    fieldsTokens layout fields = fields.map (fieldTokens layout) := by
  induction fields with
  | nil => rfl
  | cons field fields ih => rw [fieldsTokens, ih, List.map_cons]

lemma fieldTokens_eq (field : Text × Json) :
    fieldTokens layout field =
      .chars (stringChars field.1 ++ colon layout) :: tokens layout field.2 := by
  obtain ⟨key, v⟩ := field
  rw [fieldTokens]

/-- The characters that stand around and between the parts of a collection. -/
def marks (opening closing : Char) : List Char := [opening, closing, ',', '\n', ' ']

lemma mem_lineBreak {c : Char} (h : c ∈ lineBreak layout) : c = '\n' ∨ c = ' ' := by
  cases layout with
  | none => cases h
  | some depth =>
      rcases List.mem_cons.1 h with rfl | h
      · exact .inl rfl
      · exact .inr (List.eq_of_mem_replicate h)

lemma mem_marks_of_mem_lineBreak {c : Char} (h : c ∈ lineBreak layout) :
    c ∈ marks opening closing := by
  rcases mem_lineBreak h with rfl | rfl <;> simp [marks]

lemma forall_mem_intercalate {P : Token → Prop} {t : Token} (ht : P t)
    (parts : List (List Token)) :
    (∀ u ∈ [t].intercalate parts, P u) ↔ ∀ part ∈ parts, ∀ u ∈ part, P u := by
  induction parts with
  | nil => simp [List.intercalate]
  | cons part parts ih =>
      cases parts with
      | nil => simp [List.intercalate]
      | cons next parts =>
          rw [List.intercalate_cons_cons, List.forall_mem_append, List.forall_mem_append, ih,
            List.forall_mem_singleton, and_iff_left ht]
          simp only [List.forall_mem_cons]

lemma enclosed_cons (part : List Token) (parts : List (List Token)) :
    enclosed layout opening closing (part :: parts) =
      .chars (opening :: lineBreak (deeper layout)) ::
        [Token.chars (',' :: lineBreak (deeper layout))].intercalate (part :: parts) ++
        [.chars (lineBreak layout ++ [closing])] := rfl

/-- What holds of the marks of a collection holds of all its tokens if it does of its parts'. -/
lemma forall_mem_enclosed {P : Token → Prop}
    (hP : ∀ cs, (∀ c ∈ cs, c ∈ marks opening closing) → P (.chars cs))
    (parts : List (List Token)) :
    (∀ t ∈ enclosed layout opening closing parts, P t) ↔ ∀ part ∈ parts, ∀ t ∈ part, P t := by
  have hopening : P (.chars (opening :: lineBreak (deeper layout))) :=
    hP _ (List.forall_mem_cons.2 ⟨by simp [marks], fun _ => mem_marks_of_mem_lineBreak⟩)
  have hcomma : P (.chars (',' :: lineBreak (deeper layout))) :=
    hP _ (List.forall_mem_cons.2 ⟨by simp [marks], fun _ => mem_marks_of_mem_lineBreak⟩)
  have hclosing : P (.chars (lineBreak layout ++ [closing])) := by
    refine hP _ fun c hc => ?_
    rcases List.mem_append.1 hc with hc | hc
    · exact mem_marks_of_mem_lineBreak hc
    · simp [marks, List.mem_singleton.1 hc]
  cases parts with
  | nil =>
      have hempty : P (.chars [opening, closing]) := hP _ (by simp [marks])
      simp [enclosed, hempty]
  | cons part parts =>
      rw [enclosed_cons, List.forall_mem_append, List.forall_mem_cons,
        forall_mem_intercalate hcomma, List.forall_mem_singleton, and_iff_left hclosing,
        and_iff_right hopening]

lemma forall_mem_tokens_array {P : Token → Prop} {items : List Json}
    (hP : ∀ cs, (∀ c ∈ cs, c ∈ marks '[' ']') → P (.chars cs)) :
    (∀ t ∈ tokens layout (.array items), P t) ↔
      ∀ v ∈ items, ∀ t ∈ tokens (deeper layout) v, P t := by
  rw [tokens, forall_mem_enclosed hP, itemTokens_eq_map, List.forall_mem_map]

lemma forall_mem_tokens_object {P : Token → Prop} {fields : List (Text × Json)}
    (hP : ∀ cs, (∀ c ∈ cs, c ∈ marks '\x7b' '\x7d') → P (.chars cs)) :
    (∀ t ∈ tokens layout (.object fields), P t) ↔
      ∀ field ∈ fields, P (.chars (stringChars field.1 ++ colon (deeper layout))) ∧
        ∀ t ∈ tokens (deeper layout) field.2, P t := by
  rw [tokens, forall_mem_enclosed hP, fieldsTokens_eq_map, List.forall_mem_map]
  simp only [fieldTokens_eq, List.forall_mem_cons]

lemma isWritable_object_iff {fields : List (Text × Json)} :
    (object fields).isWritable = true ↔ ∀ field ∈ fields, field.2.isWritable = true := by
  simp only [isWritable, List.all_eq_true]
  rw [forall_mem_tokens_object fun _ _ => rfl]
  exact forall₂_congr fun field _ => and_iff_right rfl

/-- Whether a document can be written does not depend on the layout. -/
lemma isWritable_tokens_iff {room : ℕ} {v : Json} (h : Plain room v) (layout layout' : Option ℕ) :
    (∀ t ∈ tokens layout v, t.isWritable = true) ↔
      ∀ t ∈ tokens layout' v, t.isWritable = true := by
  induction h generalizing layout layout' with
  | null => exact .rfl
  | bool b => exact .rfl
  | int n => exact .rfl
  | string s => exact .rfl
  | @array room items _ ih =>
      rw [forall_mem_tokens_array fun _ _ => rfl, forall_mem_tokens_array fun _ _ => rfl]
      exact forall₂_congr fun v hv => ih v hv _ _
  | @object room fields _ _ _ ih =>
      rw [forall_mem_tokens_object fun _ _ => rfl, forall_mem_tokens_object fun _ _ => rfl]
      exact forall₂_congr fun field hfield => and_congr .rfl (ih field hfield _ _)

/-! ## The text of collections -/

/-- The characters of a document. -/
def chars (layout : Option ℕ) (v : Json) : List Char := (tokens layout v).flatMap Token.text

def fieldChars (layout : Option ℕ) (field : Text × Json) : List Char :=
  stringChars field.1 ++ (colon layout ++ chars layout field.2)

/-- What is written of a collection after its first part: each further part after a comma, and the
bracket at the end. -/
def row (layout : Option ℕ) (closing : Char) : List (List Char) → List Char
  | [] => lineBreak layout ++ [closing]
  | part :: parts => ',' :: (lineBreak (deeper layout) ++ (part ++ row layout closing parts))

lemma flatMap_text_intercalate (part : List Token) (parts : List (List Token)) :
    ([Token.chars (',' :: lineBreak (deeper layout))].intercalate (part :: parts) ++
        [Token.chars (lineBreak layout ++ [closing])]).flatMap Token.text =
      part.flatMap Token.text ++ row layout closing (parts.map (·.flatMap Token.text)) := by
  induction parts generalizing part with
  | nil => simp [List.intercalate, row, Token.text]
  | cons next parts ih =>
      rw [List.intercalate_cons_cons, List.append_assoc, List.append_assoc, List.flatMap_append,
        List.flatMap_append, ih]
      simp [row, Token.text]

lemma flatMap_text_enclosed (part : List Token) (parts : List (List Token)) :
    (enclosed layout opening closing (part :: parts)).flatMap Token.text =
      opening :: (lineBreak (deeper layout) ++
        (part.flatMap Token.text ++ row layout closing (parts.map (·.flatMap Token.text)))) := by
  rw [enclosed_cons, List.cons_append, List.flatMap_cons, flatMap_text_intercalate]
  rfl

lemma chars_int (n : ℤ) : chars layout (.int n) = (toString n).toList := List.append_nil _

lemma chars_array_cons (v : Json) (items : List Json) :
    chars layout (.array (v :: items)) =
      '[' :: (lineBreak (deeper layout) ++ (chars (deeper layout) v ++
        row layout ']' (items.map (chars (deeper layout))))) := by
  rw [chars, tokens, itemTokens_eq_map, List.map_cons, flatMap_text_enclosed, List.map_map]
  rfl

lemma chars_object_cons (field : Text × Json) (fields : List (Text × Json)) :
    chars layout (.object (field :: fields)) =
      '\x7b' :: (lineBreak (deeper layout) ++ (fieldChars (deeper layout) field ++
        row layout '\x7d' (fields.map (fieldChars (deeper layout))))) := by
  have hfield : ∀ field : Text × Json,
      (fieldTokens (deeper layout) field).flatMap Token.text =
        fieldChars (deeper layout) field := by
    intro field
    rw [fieldTokens_eq, List.flatMap_cons, fieldChars, ← List.append_assoc]
    rfl
  rw [chars, tokens, fieldsTokens_eq_map, List.map_cons, flatMap_text_enclosed, List.map_map,
    hfield]
  simp only [Function.comp_def, hfield]

/-! ## Line breaks -/

lemma hexDigits_ne_return (width n : ℕ) : ∀ c ∈ Text.hexDigits width n, c ≠ '\r' := by
  induction width generalizing n with
  | zero => nofun
  | succ width ih =>
      have hall : ∀ k < 16, Nat.digitChar k ≠ '\r' := by decide
      rw [Text.hexDigits, List.forall_mem_append, List.forall_mem_singleton]
      exact ⟨ih (n / 16), hall _ (Nat.mod_lt n (by decide))⟩

lemma escapedUnit_ne_return (n : ℕ) : ∀ c ∈ escapedUnit n, c ≠ '\r' := by
  rw [escapedUnit, List.forall_mem_cons, List.forall_mem_cons]
  exact ⟨by decide, by decide, hexDigits_ne_return 4 n⟩

lemma escapedPoint_ne_return (p : CodePoint) : ∀ c ∈ escapedPoint p, c ≠ '\r' := by
  have hnumber : ∀ c ∈ escapedNumber p.value, c ≠ '\r' := by
    rw [escapedNumber]
    split
    · exact escapedUnit_ne_return p.value
    · exact List.forall_mem_append.2 ⟨escapedUnit_ne_return _, escapedUnit_ne_return _⟩
  rw [escapedPoint]
  split
  · exact hnumber
  · next c _ =>
      split_ifs with hsame hn hr
      · rcases hsame with rfl | rfl <;> simp
      · simp
      · simp
      · simp
      · simp
      · simp
      · exact List.forall_mem_singleton.2 hr
      · exact hnumber

/-- There is no carriage return in a document that was written. -/
lemma chars_ne_return {room : ℕ} {v : Json} (h : Plain room v) (layout : Option ℕ) :
    ∀ c ∈ chars layout v, c ≠ '\r' := by
  have hstring : ∀ t : Text, ∀ c ∈ stringChars t, c ≠ '\r' := by
    intro t
    rw [stringChars, List.cons_append, List.forall_mem_cons, List.forall_mem_append,
      List.forall_mem_singleton]
    refine ⟨by decide, fun c hc => ?_, by decide⟩
    obtain ⟨p, -, hp⟩ := List.mem_flatMap.1 hc
    exact escapedPoint_ne_return p c hp
  have hcolon : ∀ layout, ∀ c ∈ colon layout, c ≠ '\r' := by
    rintro (_ | _)
    · simp [colon]
    · simp [colon]
  rw [chars, List.forall_mem_flatMap]
  induction h generalizing layout with
  | null => exact List.forall_mem_singleton.2 (by simp [Token.text])
  | bool b => cases b <;> exact List.forall_mem_singleton.2 (by simp [Token.text])
  | int n =>
      refine List.forall_mem_singleton.2 ?_
      rw [Token.text, toList_toString, List.forall_mem_append]
      refine ⟨by split <;> simp, fun c hc => ?_⟩
      exact ne_of_isDigit (isDigit_of_mem_toDigits hc) rfl
  | string s => exact List.forall_mem_singleton.2 (hstring s)
  | @array room items _ ih =>
      refine (forall_mem_tokens_array fun cs hcs c hc => ?_).2 fun v hv => ih v hv _
      have hmarks : ∀ d ∈ marks '[' ']', d ≠ '\r' := by simp [marks]
      exact hmarks c (hcs c hc)
  | @object room fields _ _ _ ih =>
      refine (forall_mem_tokens_object fun cs hcs c hc => ?_).2 fun field hfield =>
        ⟨List.forall_mem_append.2 ⟨hstring field.1, hcolon _⟩, ih field hfield _⟩
      have hmarks : ∀ d ∈ marks '\x7b' '\x7d', d ≠ '\r' := by simp [marks]
      exact hmarks c (hcs c hc)

/-- Text without carriage returns has its line breaks as they should be. -/
lemma unifyBreaksChars_of_ne_return {cs : List Char} (h : ∀ c ∈ cs, c ≠ '\r') :
    Text.unifyBreaksChars cs = cs := by
  induction cs with
  | nil => rfl
  | cons c cs ih =>
      rw [List.forall_mem_cons] at h
      rw [Text.unifyBreaksChars.eq_3 c cs (fun _ hc _ => h.1 hc) h.1, ih h.2]

end Saturation.Json
