import Saturation.Proofs.Rows

/-!
# Documents are read as they were written

The reader takes one value after the other from the text that is left, so what is proved is about a
value with more text behind it: from the characters of the value it reads the value and leaves the
rest, whatever the layout (`value_chars`).  The induction is on what the document is made of
(`Plain`); the parts of a collection go by a second induction, along its row.

The fuel of the reader is measured against the length of the text.  Each call of the reader for a
collection or an item takes at least one character, and there are two kinds of calls, so twice the
length is enough.
-/

namespace Saturation.Json

variable {layout : Option ℕ} {closing : Char}

/-! ## What a document starts with -/

/-- The character can be the first one of a value. -/
def Opens (c : Char) : Prop :=
  c.isDigit = true ∨ c ∈ ['n', 't', 'f', '-', '\x22', '[', '\x7b']

lemma Opens.ne {c d : Char} (h : Opens c) (hd : ¬ Opens d) : c ≠ d := fun hcd => hd (hcd ▸ h)

instance (c : Char) : Decidable (Opens c) :=
  inferInstanceAs (Decidable (_ ∨ _))

lemma exists_chars_eq_cons {room : ℕ} {v : Json} (h : Plain room v) (layout : Option ℕ) :
    ∃ c cs, chars layout v = c :: cs ∧ Opens c := by
  cases h with
  | null => exact ⟨_, _, rfl, by decide⟩
  | bool b => cases b <;> exact ⟨_, _, rfl, by decide⟩
  | int n =>
      obtain ⟨c, cs, hcs, hc⟩ := exists_toString_eq_cons n
      rw [chars_int, hcs]
      rcases hc with rfl | hc
      · exact ⟨_, _, rfl, by decide⟩
      · exact ⟨_, _, rfl, .inl hc⟩
  | string s => exact ⟨_, _, rfl, by decide⟩
  | @array _ items _ =>
      cases items with
      | nil => exact ⟨_, _, rfl, by decide⟩
      | cons v items => exact ⟨_, _, chars_array_cons v items, by decide⟩
  | @object _ fields _ _ _ =>
      cases fields with
      | nil => exact ⟨_, _, rfl, by decide⟩
      | cons field fields => exact ⟨_, _, chars_object_cons field fields, by decide⟩

/-! ## Reading -/

variable {rest : List Char} {fuel room : ℕ}

lemma skipBlanks_cons {c : Char} (h : c ∉ [' ', '\t', '\n', '\r']) (cs : List Char) :
    skipBlanks (c :: cs) = c :: cs := by
  simp only [List.mem_cons, List.not_mem_nil, or_false, not_or] at h
  simp [skipBlanks, h]

lemma skipBlanks_lineBreak (cs : List Char) :
    skipBlanks (lineBreak layout ++ cs) = skipBlanks cs := by
  rw [skipBlanks, skipBlanks, List.dropWhile_append_of_pos]
  intro c hc
  rcases mem_lineBreak hc with rfl | rfl <;> decide

lemma Opens.skipBlanks {c : Char} (h : Opens c) (cs : List Char) :
    skipBlanks (c :: cs) = c :: cs := by
  refine skipBlanks_cons (fun hc => ?_) cs
  have hno : ∀ d ∈ [' ', '\t', '\n', '\r'], ¬ Opens d := by
    simp only [List.forall_mem_cons]
    exact ⟨by decide, by decide, by decide, by decide, nofun⟩
  exact hno c hc h

lemma skipBlanks_chars {v : Json} (h : Plain room v) (layout : Option ℕ) (rest : List Char) :
    skipBlanks (chars layout v ++ rest) = chars layout v ++ rest := by
  obtain ⟨c, cs, hcs, hc⟩ := exists_chars_eq_cons h layout
  rw [hcs, List.cons_append, hc.skipBlanks]

lemma ends_row (layout : Option ℕ) (hclosing : closing = ']' ∨ closing = '\x7d')
    (parts : List (List Char)) (rest : List Char) : Ends (row layout closing parts ++ rest) := by
  have hends : ∀ c, c = ',' ∨ c = '\n' ∨ c = ']' ∨ c = '\x7d' →
      c.isDigit = false ∧ c ≠ '.' ∧ c ≠ 'e' ∧ c ≠ 'E' := by
    rintro c (rfl | rfl | rfl | rfl) <;> decide
  intro c hc
  refine hends c ?_
  cases parts with
  | cons part parts =>
      obtain rfl : ',' = c := Option.some.inj hc
      exact .inl rfl
  | nil =>
      cases layout with
      | some depth =>
          obtain rfl : '\n' = c := Option.some.inj hc
          exact .inr (.inl rfl)
      | none =>
          obtain rfl : closing = c := Option.some.inj hc
          exact .inr (.inr hclosing)

/-- With fuel for its text and room for its collections, the value is read from its text and leaves
what comes after. -/
def Reads (room : ℕ) (layout : Option ℕ) (v : Json) : Prop :=
  ∀ fuel rest, 2 * (chars layout v).length ≤ fuel → Ends rest →
    value fuel room (chars layout v ++ rest) = .ok (v, rest)

lemma length_row_pos (layout : Option ℕ) (closing : Char) (parts : List (List Char)) :
    0 < (row layout closing parts).length := by
  cases parts <;> simp [row]

lemma skipBlanks_row_nil (hclosing : closing ∉ [' ', '\t', '\n', '\r']) (rest : List Char) :
    skipBlanks (row layout closing [] ++ rest) = closing :: rest := by
  rw [row, List.append_assoc, skipBlanks_lineBreak]
  exact skipBlanks_cons hclosing rest

/-- The items of an array are read one by one, by induction on those after the first. -/
lemma items_row (layout : Option ℕ) (fuel : ℕ) (v : Json) (vs done : List Json) (rest : List Char)
    (hplain : ∀ w ∈ v :: vs, Plain room w) (hreads : ∀ w ∈ v :: vs, Reads room (deeper layout) w)
    (hfuel : 2 * ((chars (deeper layout) v).length +
      (row layout ']' (vs.map (chars (deeper layout)))).length) ≤ fuel) :
    items fuel room done (chars (deeper layout) v ++
        (row layout ']' (vs.map (chars (deeper layout))) ++ rest)) =
      .ok (.array (done.reverse ++ v :: vs), rest) := by
  have hrow := length_row_pos layout ']' (vs.map (chars (deeper layout)))
  have hends := ends_row layout (.inl rfl) (vs.map (chars (deeper layout))) rest
  induction vs generalizing v done fuel with
  | nil =>
      obtain ⟨fuel, rfl⟩ : ∃ k, fuel = k + 1 := Nat.exists_eq_add_one.2 (by omega)
      have hvalue := hreads v List.mem_cons_self fuel _ (by omega) hends
      have hclose : skipBlanks (row layout ']' [] ++ rest) = ']' :: rest :=
        skipBlanks_row_nil (by decide) rest
      rw [items, hvalue]
      simp only [List.map_nil, hclose, List.reverse_cons]
  | cons w vs ih =>
      obtain ⟨fuel, rfl⟩ : ∃ k, fuel = k + 1 := Nat.exists_eq_add_one.2 (by omega)
      have hvalue := hreads v List.mem_cons_self fuel _ (by omega) hends
      rw [items, hvalue]
      rw [List.map_cons, row, List.length_cons, List.length_append, List.length_append] at hfuel
      have hnext := ih fuel w (v :: done)
        (fun u hu => hplain u (List.mem_cons_of_mem v hu))
        (fun u hu => hreads u (List.mem_cons_of_mem v hu)) (by omega) (length_row_pos _ _ _)
        (ends_row _ (.inl rfl) _ rest)
      have hw : Plain room w := hplain w (List.mem_cons_of_mem v List.mem_cons_self)
      simp only [List.map_cons, row, List.cons_append, List.append_assoc,
        skipBlanks_cons (show ',' ∉ [' ', '\t', '\n', '\r'] by decide), skipBlanks_lineBreak,
        skipBlanks_chars hw _, hnext, List.reverse_cons, List.nil_append]

lemma put_of_not_mem {key : Text} {v : Json} {fields : List (Text × Json)}
    (h : key ∉ fields.map Prod.fst) : put key v fields = fields ++ [(key, v)] := by
  induction fields with
  | nil => rfl
  | cons field fields ih =>
      obtain ⟨k, w⟩ := field
      simp only [List.map_cons, List.mem_cons, not_or] at h
      rw [put, if_neg (Ne.symm h.1), ih h.2, List.cons_append]

lemma exists_colon_eq_cons (layout : Option ℕ) :
    ∃ blanks, colon layout = ':' :: blanks ∧
      ∀ cs, skipBlanks (blanks ++ cs) = skipBlanks cs := by
  cases layout with
  | none => exact ⟨[], rfl, fun _ => rfl⟩
  | some depth => exact ⟨[' '], rfl, fun _ => rfl⟩

lemma skipBlanks_fieldChars (field : Text × Json) (rest : List Char) :
    skipBlanks (fieldChars layout field ++ rest) = fieldChars layout field ++ rest :=
  skipBlanks_cons (by decide) _

/-- What the reader makes of the text after a field, where `fields` are those read so far. -/
def afterField (fuel room : ℕ) (fields : List (Text × Json)) (rest : List Char) : Step Json :=
  match skipBlanks rest with
  | '\x7d' :: rest => .ok (.object fields, rest)
  | ',' :: rest => members fuel room fields (skipBlanks rest)
  | rest => .error (.at .expectingComma rest)

lemma afterField_row_nil (layout : Option ℕ) (fields : List (Text × Json)) (rest : List Char) :
    afterField fuel room fields (row layout '\x7d' [] ++ rest) = .ok (.object fields, rest) := by
  rw [afterField, skipBlanks_row_nil (by decide)]
  rfl

lemma afterField_row_cons (layout : Option ℕ) (fields : List (Text × Json)) (part : List Char)
    (parts : List (List Char)) (rest : List Char) :
    afterField fuel room fields (row layout '\x7d' (part :: parts) ++ rest) =
      members fuel room fields (skipBlanks (part ++ (row layout '\x7d' parts ++ rest))) := by
  have hcomma : skipBlanks (row layout '\x7d' (part :: parts) ++ rest) =
      ',' :: (lineBreak (deeper layout) ++ (part ++ (row layout '\x7d' parts ++ rest))) := by
    simp only [row, List.cons_append, List.append_assoc]
    exact skipBlanks_cons (by decide) _
  rw [afterField, hcomma]
  exact congrArg (members fuel room fields) (skipBlanks_lineBreak _)

/-- A field is read from its name, a colon and its value. -/
lemma members_field {field : Text × Json} {done fields : List (Text × Json)}
    (hdistinct : ((done ++ field :: fields).map Prod.fst).Nodup)
    (hname : ∃ s : String, field.1 = s) (hplain : Plain room field.2)
    (hreads : Reads room layout field.2) (hfuel : 2 * (fieldChars layout field).length ≤ fuel)
    (hends : Ends rest) :
    members (fuel + 1) room done (fieldChars layout field ++ rest) =
      afterField fuel room (done ++ [field]) rest := by
  have hfresh : field.1 ∉ done.map Prod.fst := by
    rw [List.map_append, List.nodup_append] at hdistinct
    exact fun hmem => hdistinct.2.2 _ hmem _ List.mem_cons_self rfl
  obtain ⟨key, v⟩ := field
  obtain ⟨s, rfl⟩ : ∃ s : String, key = s := hname
  obtain ⟨blanks, hcolon, hblanks⟩ := exists_colon_eq_cons layout
  have hchars : fieldChars layout (↑s, v) ++ rest =
      '\x22' :: ((s : Text).flatMap escapedPoint ++
        '\x22' :: ':' :: (blanks ++ (chars layout v ++ rest))) := by
    simp only [fieldChars, stringChars, hcolon, List.cons_append, List.append_assoc,
      List.nil_append]
  have hlength : (chars layout v).length ≤ (fieldChars layout (↑s, v)).length := by
    simp only [fieldChars, List.length_append]
    omega
  have hvalue : value fuel room (chars layout v ++ rest) = .ok (v, rest) :=
    hreads fuel rest (Nat.le_trans (Nat.mul_le_mul_left 2 hlength) hfuel) hends
  rw [hchars, members]
  simp only [stringRest_escaped, skipBlanks_cons (show ':' ∉ [' ', '\t', '\n', '\r'] by decide),
    hblanks, skipBlanks_chars hplain _, hvalue, put_of_not_mem hfresh]
  rfl

/-- The fields of an object are read one by one, by induction on those after the first. -/
lemma members_row (layout : Option ℕ) (fuel : ℕ) (field : Text × Json)
    (fields done : List (Text × Json)) (rest : List Char)
    (hdistinct : ((done ++ field :: fields).map Prod.fst).Nodup)
    (hnames : ∀ f ∈ field :: fields, ∃ s : String, f.1 = s)
    (hplain : ∀ f ∈ field :: fields, Plain room f.2)
    (hreads : ∀ f ∈ field :: fields, Reads room (deeper layout) f.2)
    (hfuel : 2 * ((fieldChars (deeper layout) field).length +
      (row layout '\x7d' (fields.map (fieldChars (deeper layout)))).length) ≤ fuel) :
    members fuel room done (fieldChars (deeper layout) field ++
        (row layout '\x7d' (fields.map (fieldChars (deeper layout))) ++ rest)) =
      .ok (.object (done ++ field :: fields), rest) := by
  have hrow := length_row_pos layout '\x7d' (fields.map (fieldChars (deeper layout)))
  have hends := ends_row layout (.inr rfl) (fields.map (fieldChars (deeper layout))) rest
  induction fields generalizing field done fuel with
  | nil =>
      obtain ⟨fuel, rfl⟩ : ∃ k, fuel = k + 1 := Nat.exists_eq_add_one.2 (by omega)
      rw [members_field hdistinct (hnames field List.mem_cons_self)
        (hplain field List.mem_cons_self) (hreads field List.mem_cons_self) (by omega) hends,
        List.map_nil, afterField_row_nil]
  | cons next fields ih =>
      obtain ⟨fuel, rfl⟩ : ∃ k, fuel = k + 1 := Nat.exists_eq_add_one.2 (by omega)
      rw [members_field hdistinct (hnames field List.mem_cons_self)
        (hplain field List.mem_cons_self) (hreads field List.mem_cons_self) (by omega) hends]
      rw [List.map_cons, row, List.length_cons, List.length_append, List.length_append] at hfuel
      have hlater : ∀ f ∈ next :: fields, f ∈ field :: next :: fields :=
        fun f hf => List.mem_cons_of_mem field hf
      have hrest := ih fuel next (done ++ [field]) (by simpa using hdistinct)
        (fun f hf => hnames f (hlater f hf)) (fun f hf => hplain f (hlater f hf))
        (fun f hf => hreads f (hlater f hf)) (by omega) (length_row_pos _ _ _)
        (ends_row _ (.inr rfl) _ rest)
      rw [List.map_cons, afterField_row_cons, skipBlanks_fieldChars, hrest, List.append_assoc]
      rfl

/-! ## Values -/

lemma value_scalar {c : Char} (hc : c ∉ ['\x22', '[', '\x7b']) (cs : List Char) :
    value (fuel + 1) room (c :: cs) = scalar (c :: cs) := by
  simp only [List.mem_cons, List.not_mem_nil, or_false, not_or] at hc
  rw [value.eq_def]
  simp only
  split <;> simp_all

lemma reads_scalar {v : Json} {c : Char} {cs : List Char} (hchars : chars layout v = c :: cs)
    (hc : c ∉ ['\x22', '[', '\x7b'])
    (hscalar : ∀ rest, Ends rest → scalar (chars layout v ++ rest) = .ok (v, rest)) :
    Reads room layout v := by
  intro fuel rest hfuel hends
  have hread := hscalar rest hends
  rw [hchars] at hfuel hread ⊢
  obtain ⟨fuel, rfl⟩ : ∃ k, fuel = k + 1 :=
    Nat.exists_eq_add_one.2 (by rw [List.length_cons] at hfuel; omega)
  exact (value_scalar hc _).trans hread

lemma reads_int {n : ℤ} (hn : Text.isWritable n = true) : Reads room layout (.int n) := by
  obtain ⟨c, cs, hcs, hc⟩ := exists_toString_eq_cons n
  have hno : c ∉ ['\x22', '[', '\x7b'] := by
    have hall : ∀ d ∈ ['\x22', '[', '\x7b'], d ≠ '-' ∧ d.isDigit = false := by
      simp only [List.forall_mem_cons]
      exact ⟨by decide, by decide, by decide, nofun⟩
    intro hmem
    rcases hc with rfl | hc
    · exact (hall _ hmem).1 rfl
    · exact ne_of_isDigit hc (hall c hmem).2 rfl
  refine reads_scalar (chars_int n ▸ hcs) hno fun rest hends => ?_
  rw [chars_int]
  exact hends.scalar_toString hn

lemma reads_string (s : String) : Reads room layout (.string s) := by
  intro fuel rest hfuel _
  have hchars : chars layout (.string s) ++ rest =
      '\x22' :: ((s : Text).flatMap escapedPoint ++ '\x22' :: rest) := by
    simp [chars, tokens, Token.text, stringChars]
  have hlength : 0 < (chars layout (.string s)).length := by
    obtain ⟨c, cs, hcs, -⟩ := exists_chars_eq_cons (.string s : Plain 0 _) layout
    exact hcs ▸ Nat.succ_pos cs.length
  obtain ⟨fuel, rfl⟩ : ∃ k, fuel = k + 1 := Nat.exists_eq_add_one.2 (by omega)
  rw [hchars, value]
  simp only [stringRest_escaped]

lemma reads_array {items : List Json} (hplain : ∀ v ∈ items, Plain room v)
    (hreads : ∀ v ∈ items, Reads room (deeper layout) v) :
    Reads (room + 1) layout (.array items) := by
  intro fuel rest hfuel _
  cases items with
  | nil =>
      have hlength : (chars layout (.array [])).length = 2 := rfl
      obtain ⟨fuel, rfl⟩ : ∃ k, fuel = k + 1 := Nat.exists_eq_add_one.2 (by omega)
      rfl
  | cons v items =>
      rw [chars_array_cons] at hfuel ⊢
      simp only [List.length_cons, List.length_append] at hfuel
      obtain ⟨fuel, rfl⟩ : ∃ k, fuel = k + 1 := Nat.exists_eq_add_one.2 (by omega)
      have hitems := items_row layout fuel v items [] rest hplain hreads (by omega)
      simp only [List.cons_append, List.append_assoc]
      rw [value, skipBlanks_lineBreak, skipBlanks_chars (hplain v List.mem_cons_self) _]
      obtain ⟨c, cs, hcs, hc⟩ := exists_chars_eq_cons (hplain v List.mem_cons_self) (deeper layout)
      rw [hcs] at hitems ⊢
      split
      · next heq => exact absurd (List.cons.inj heq).1 (hc.ne (by decide))
      · exact hitems

lemma reads_object {fields : List (Text × Json)} (hdistinct : (fields.map Prod.fst).Nodup)
    (hnames : ∀ field ∈ fields, ∃ s : String, field.1 = s)
    (hplain : ∀ field ∈ fields, Plain room field.2)
    (hreads : ∀ field ∈ fields, Reads room (deeper layout) field.2) :
    Reads (room + 1) layout (.object fields) := by
  intro fuel rest hfuel _
  cases fields with
  | nil =>
      have hlength : (chars layout (.object [])).length = 2 := rfl
      obtain ⟨fuel, rfl⟩ : ∃ k, fuel = k + 1 := Nat.exists_eq_add_one.2 (by omega)
      rfl
  | cons field fields =>
      rw [chars_object_cons] at hfuel ⊢
      simp only [List.length_cons, List.length_append] at hfuel
      obtain ⟨fuel, rfl⟩ : ∃ k, fuel = k + 1 := Nat.exists_eq_add_one.2 (by omega)
      have hfields := members_row layout fuel field fields [] rest hdistinct hnames hplain hreads
        (by omega)
      simp only [List.cons_append, List.append_assoc]
      rw [value, skipBlanks_lineBreak, skipBlanks_fieldChars]
      exact hfields

/-- **A plain value is read from its text**, by induction on what it is made of. -/
theorem value_chars {v : Json} (h : Plain room v) (layout : Option ℕ)
    (hw : ∀ t ∈ tokens layout v, t.isWritable = true) : Reads room layout v := by
  induction h generalizing layout with
  | null => exact reads_scalar rfl (by decide) fun rest _ => scalar_null rest
  | bool b =>
      cases b with
      | false => exact reads_scalar rfl (by decide) fun rest _ => scalar_bool false rest
      | true => exact reads_scalar rfl (by decide) fun rest _ => scalar_bool true rest
  | int n => exact reads_int (hw (.int n) List.mem_cons_self)
  | string s => exact reads_string s
  | @array room items hitems ih =>
      rw [forall_mem_tokens_array fun _ _ => rfl] at hw
      exact reads_array hitems fun v hv => ih v hv _ (hw v hv)
  | @object room fields hdistinct hnames hvalues ih =>
      rw [forall_mem_tokens_object fun _ _ => rfl] at hw
      exact reads_object hdistinct hnames hvalues fun field hfield =>
        ih field hfield _ (hw field hfield).2

/-! ## Documents -/

/-- The whole text of a document that can be written. -/
lemma toList_indented {v : Json} (h : Plain room v) (hw : v.isWritable = true) :
    v.indented.toList = chars (some 0) v := by
  have hall : ∀ t ∈ tokens (some 0) v, t.isWritable = true :=
    (isWritable_tokens_iff h none (some 0)).1 (List.all_eq_true.1 hw)
  rw [indented, written, String.toList_ofList, List.takeWhile_eq_self_iff.2 hall]
  rfl

lemma document_chars {v : Json} (h : Plain maxDepth v) (layout : Option ℕ)
    (hw : ∀ t ∈ tokens layout v, t.isWritable = true) : document (chars layout v) = .ok v := by
  have hread := value_chars h layout hw (2 * (chars layout v).length + 2) [] (by omega) nofun
  have hskip := skipBlanks_chars h layout []
  obtain ⟨c, cs, hcs, hc⟩ := exists_chars_eq_cons h layout
  have hmark : (chars layout v).head? ≠ some '\uFEFF' := by
    rw [hcs]
    exact fun heq => hc.ne (by decide) (Option.some.inj heq)
  rw [List.append_nil] at hread hskip
  rw [document, if_neg hmark, hskip, hread]
  rfl

/-- **A plain document is read as it was written.** -/
theorem read_indented {v : Json} (h : Plain maxDepth v) (hw : v.isWritable = true) :
    read v.indented = .ok v := by
  have hall : ∀ t ∈ tokens (some 0) v, t.isWritable = true :=
    (isWritable_tokens_iff h none (some 0)).1 (List.all_eq_true.1 hw)
  rw [read, toList_indented h hw, document_chars h (some 0) hall]
  rfl

lemma unifyBreaks_indented {v : Json} (h : Plain room v) (hw : v.isWritable = true) :
    Text.unifyBreaks v.indented = v.indented := by
  rw [Text.unifyBreaks, toList_indented h hw,
    unifyBreaksChars_of_ne_return (chars_ne_return h (some 0)), ← toList_indented h hw,
    String.ofList_toList]

end Saturation.Json
