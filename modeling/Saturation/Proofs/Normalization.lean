import Saturation.Proofs.Legible
import Saturation.Proofs.Provenance
import Saturation.Proofs.Restoration
import Saturation.Samples

/-!
# What a document says of a search

Reading is lenient, so many documents describe one search: their clauses and literals may come in
any order and more than once, and much may be missing.  `SaidBy` says what a document has to say,
without the reader, and the reader finds it and nothing else (`ofJson_eq_ok_iff`).  Literals leave
no choice (`Literal.ofPair_eq_ok_iff`), which is why the literals of an entry can be compared with
what is written.

Writing is strict, so what was read and is written again is in normal form: in ascending order, each
clause once, as the first of its entries has it (`Normalizes`).
-/

namespace Saturation

/-! ## Values -/

namespace Json

variable {v w : Json} {key : String} {items : List Json}

lemma field_eq_ok_iff : v.field key = .ok w ↔ v.get? key = some w := by
  cases v with
  | object fields =>
      rw [field, get?]
      cases lookup (key : Text) fields <;> simp
  | _ => simp [field, get?]

lemma each_eq_ok_iff : v.each = .ok items ↔ v.elements? = some items := by
  rw [each]
  cases v.elements? <;> simp

end Json

/-! ## Literals -/

namespace Literal

variable {v atom negated : Json} {l : Literal}

lemma ofJson_eq_ok_iff :
    ofJson atom negated = .ok l ↔ atom = .string l.atom.name ∧ negated = .bool l.negated := by
  constructor
  · intro h
    cases atom with
    | string name =>
        unfold ofJson at h
        simp only at h
        split at h
        · cases h
        · split at h
          · obtain ⟨rfl, rfl⟩ := ofName_eq_ok_iff.1 h
            exact ⟨rfl, rfl⟩
          · obtain ⟨_, _, hfault⟩ := bind_eq_ok_iff.1 h
            cases hfault
    | _ => cases h
  · rintro ⟨rfl, rfl⟩
    have hne : l.atom.name.isEmpty = false :=
      List.isEmpty_eq_false_iff.2 (isName_iff.1 l.atom.valid).1
    rw [ofJson, if_neg (by rw [hne]; decide)]
    exact ofName_eq_ok_iff.2 ⟨rfl, rfl⟩

/-- Two items of which the second is a truth value can only be in an array. -/
lemma eq_array_of_elements? {b : Bool} (h : v.elements? = some [atom, .bool b]) :
    v = .array [atom, .bool b] := by
  have hno : ∀ {α : Type} (f : α → Text) (l : List α),
      l.map (fun a => Json.string (f a)) ≠ [atom, .bool b] := by
    intro α f l hl
    have hmem : Json.bool b ∈ l.map fun a => Json.string (f a) := hl ▸ by simp
    obtain ⟨a, -, ha⟩ := List.mem_map.1 hmem
    cases ha
  cases v with
  | array items => exact congrArg Json.array (Option.some.inj h)
  | string t => exact absurd (Option.some.inj h) (hno (fun p => [p]) t)
  | object fields => exact absurd (Option.some.inj h) (hno Prod.fst fields)
  | _ => cases h

/-- **There is one document for each literal.** -/
lemma ofPair_eq_ok_iff : ofPair v = .ok l ↔ v = l.toJson := by
  refine ⟨fun h => ?_, fun h => h ▸ ofPair_toJson l⟩
  rw [ofPair] at h
  split at h
  · cases h
  · next atom negated heach =>
      have hread : ofJson atom negated = .ok l := by
        cases hread : ofJson atom negated with
        | error e =>
            rw [hread] at h
            cases h
        | ok k =>
            rw [hread] at h
            exact congrArg Except.ok (Except.ok.inj h)
      obtain ⟨rfl, rfl⟩ := ofJson_eq_ok_iff.1 hread
      exact eq_array_of_elements? (Json.each_eq_ok_iff.1 heach)
  · cases h
  · cases h

end Literal

/-! ## Entries -/

/-- What a document says of an entry: its clause is that of the listed literals, in any order and
with repetitions, and step and label are as given, or zero and empty if they are missing. -/
structure Entry.SaidBy (v : Json) (e : Entry) : Prop where
  clause : ∃ (w : Json) (ls : List Literal), v.get? "literals" = some w ∧
    w.elements? = some (ls.map Literal.toJson) ∧ ∀ l, l ∈ e.clause ↔ l ∈ ls
  step : e.source.step = (v.get? "step").getD (.int 0)
  label : e.source.label = (v.get? "label").getD (.string "")

variable {v : Json} {e : Entry} {es : List Entry} {K : ClauseSet} {s : Search}

lemma forall₂_ofPair_iff {ws : List Json} {ls : List Literal} :
    List.Forall₂ (fun w l => Literal.ofPair w = .ok l) ws ls ↔ ws = ls.map Literal.toJson := by
  simp only [Literal.ofPair_eq_ok_iff]
  rw [← List.forall₂_map_right_iff, List.forall₂_eq_eq_eq]

lemma Entry.ofJson_eq_ok_iff : ofJson v = .ok e ↔ e.SaidBy v := by
  simp only [ofJson, bind_eq_ok_iff, Json.field_eq_ok_iff, Json.each_eq_ok_iff, mapM_eq_ok_iff,
    forall₂_ofPair_iff]
  constructor
  · rintro ⟨w, hw, ws, hws, ls, rfl, h⟩
    obtain rfl := Except.ok.inj h
    exact ⟨⟨w, ls, hw, hws, fun l => Clause.mem_ofLiterals⟩, rfl, rfl⟩
  · rintro ⟨⟨w, ls, hw, hws, hclause⟩, hstep, hlabel⟩
    refine ⟨w, hw, _, hws, ls, rfl, ?_⟩
    obtain ⟨c, step, label⟩ := e
    obtain rfl : Clause.ofLiterals ls = c :=
      Clause.ext_mem fun l => Clause.mem_ofLiterals.trans (hclause l).symm
    rw [← hstep, ← hlabel]
    rfl

/-! ## Sets -/

/-- The document lists the entries. -/
def Lists (v : Json) (es : List Entry) : Prop :=
  ∃ ws, v.elements? = some ws ∧ List.Forall₂ Entry.SaidBy ws es

/-- The entries of the set are the listed ones, each clause once with what is said of it first. -/
def ClauseSet.Collects (K : ClauseSet) (es : List Entry) : Prop :=
  ∀ e, e ∈ K.entries ↔ es.find? (·.clause = e.clause) = some e

lemma ClauseSet.collects_iff : K.Collects es ↔ ofEntries es = K := by
  constructor
  · intro h
    refine ClauseSet.ext ((ofEntries es).ascending.eq_of_mem_iff _ K.ascending fun e => ?_)
    exact mem_entries_ofEntries.trans (h e).symm
  · rintro rfl e
    exact mem_entries_ofEntries

lemma ClauseSet.ofJson_eq_ok_iff : ofJson v = .ok K ↔ ∃ es, Lists v es ∧ K.Collects es := by
  have hentries : ∀ ws es, ws.mapM Entry.ofJson = .ok es ↔ List.Forall₂ Entry.SaidBy ws es := by
    intro ws es
    simp only [mapM_eq_ok_iff, Entry.ofJson_eq_ok_iff]
  simp only [ofJson, bind_eq_ok_iff, Json.each_eq_ok_iff, hentries, collects_iff]
  constructor
  · rintro ⟨ws, hws, es, hes, h⟩
    exact ⟨es, ⟨ws, hws, hes⟩, Except.ok.inj h⟩
  · rintro ⟨es, ⟨ws, hws, hes⟩, h⟩
    exact ⟨ws, hws, es, hes, congrArg Except.ok h⟩

/-! ## Searches -/

namespace Search

/-- What a document says of a search.  Only the two sets, the history and the round must be
there. -/
structure SaidBy (v : Json) (s : Search) : Prop where
  frontier : ∃ w es, v.get? "frontier" = some w ∧ Lists w es ∧ s.frontier.Collects es
  seen : ∃ w es, v.get? "seen" = some w ∧ Lists w es ∧ s.seen.Collects es
  history : v.get? "history" = some s.journal.history
  round : v.get? "round" = some s.journal.round
  halted : s.journal.halted = (v.get? "halted").getD (.bool false)
  reason : s.journal.reason = (v.get? "halt_reason").getD (.string "")
  answer : s.journal.answer = (v.get? "satisfiable").getD .null

/-- **A document is read as what it says**, and it is read at all if it says so of some search. -/
theorem ofJson_eq_ok_iff : ofJson v = .ok s ↔ s.SaidBy v := by
  simp only [ofJson, bind_eq_ok_iff, Json.field_eq_ok_iff, ClauseSet.ofJson_eq_ok_iff]
  constructor
  · rintro ⟨w, hw, F, ⟨es, hes, hF⟩, w', hw', S, ⟨es', hes', hS⟩, history, hhistory, round,
      hround, h⟩
    obtain rfl := Except.ok.inj h
    exact ⟨⟨w, es, hw, hes, hF⟩, ⟨w', es', hw', hes', hS⟩, hhistory, hround, rfl, rfl, rfl⟩
  · rintro ⟨⟨w, es, hw, hes, hF⟩, ⟨w', es', hw', hes', hS⟩, hhistory, hround, hhalted, hreason,
      hanswer⟩
    refine ⟨w, hw, _, ⟨es, hes, hF⟩, w', hw', _, ⟨es', hes', hS⟩, _, hhistory, _, hround, ?_⟩
    rw [← hhalted, ← hreason, ← hanswer]
    rfl

/-- The second document is the normal form of the first: of the entries that the first lists, it
lists in ascending order each clause once, with what is said of it first. -/
def Normalizes (raw normal : Json) : Prop :=
  ∃ given kept : List Entry, Lists raw given ∧ normal = .array (kept.map Entry.toJson) ∧
    kept.Pairwise (fun d e => compare d.clause e.clause = .lt) ∧
    ∀ e, e ∈ kept ↔ given.find? (·.clause = e.clause) = some e

/-- **Saved searches are in normal form.** -/
theorem normal_form :
    (∀ s : Search, s.reload = .ok s) ∧
    (∀ v s, ofJson v = .ok s ↔ s.SaidBy v) ∧
    (∀ v s, ofJson v = .ok s →
      (ofJson s.toJson).map toJson = .ok s.toJson ∧
        ∀ key ∈ ["frontier", "seen"], ∃ raw normal, v.get? key = some raw ∧
          s.toJson.get? key = some normal ∧ Normalizes raw normal) ∧
    ∀ s : Search, Json.read (Text.unifyBreaks s.save) = .ok s.toJson →
      (load s.save).map save = .ok s.save := by
  refine ⟨reload_eq, fun v s => ofJson_eq_ok_iff, fun v s h => ⟨?_, ?_⟩, fun s h => ?_⟩
  · have hreload : ofJson s.toJson = .ok s := reload_eq s
    rw [hreload]
    rfl
  · obtain ⟨⟨w, es, hw, hes, hF⟩, ⟨w', es', hw', hes', hS⟩, -⟩ := ofJson_eq_ok_iff.1 h
    rw [List.forall_mem_cons, List.forall_mem_singleton]
    exact ⟨⟨w, _, hw, rfl, es, _, hes, rfl, s.frontier.ascending, hF⟩,
      ⟨w', _, hw', rfl, es', _, hes', rfl, s.seen.ascending, hS⟩⟩
  · rw [load_eq h]
    rfl

section

open Sample

def dawn : Literal := pos ⟨"dawn", by decide⟩

def light : Literal := pos ⟨"light", by decide⟩

/-- Three entries for two clauses, the greater one first, with a literal twice and without some of
the steps and labels. -/
def scattered : Json :=
  let entry (ls : List Literal) (rest : List (Text × Json)) : Json :=
    .object (("literals", .array (ls.map Literal.toJson)) :: rest)
  .object
    [("round", .int 2), ("history", .array []), ("seen", .array []),
     ("frontier", .array
      [entry [light, dawn.complement, light] [("label", .string "later")],
       entry [dawn] [("step", .int 3)],
       entry [dawn.complement, light] [("step", .int 7), ("label", .string "again")]])]

/-- What is left of them: two entries in ascending order. -/
def gathered : Search where
  frontier :=
    ⟨[⟨.ofLiterals [dawn], { step := .int 3 }⟩,
      ⟨.ofLiterals [dawn.complement, light], { label := .string "later" }⟩],
     List.pairwise_pair.2 (by decide)⟩
  journal := { round := .int 2 }

lemma legible_gathered : gathered.Legible := by
  have hnames : ∀ l ∈ [dawn, dawn.complement, light], l.atom.name.Whole := by
    simp only [List.forall_mem_cons]
    exact ⟨Text.whole_ofString "dawn", Text.whole_ofString "dawn",
      Text.whole_ofString "light", nofun⟩
  have hpart : ∀ e ∈ gathered.frontier.entries, ∀ l ∈ e.clause,
      l ∈ [dawn, dawn.complement, light] := by
    decide
  have hentries : ∀ e ∈ gathered.frontier.entries, e.Legible := by
    intro e he
    have hname : ∀ l ∈ e.clause, l.atom.name.Whole := fun l hl => hnames l (hpart e he l hl)
    rcases List.mem_cons.1 he with rfl | he
    · exact ⟨hname, ⟨3, rfl⟩, "", rfl, Text.whole_ofString ""⟩
    · obtain rfl := List.mem_singleton.1 he
      exact ⟨hname, ⟨0, rfl⟩, "later", rfl, Text.whole_ofString "later"⟩
  exact ⟨hentries, nofun, .array nofun, .int 2, .bool false, .string "", .null⟩

theorem normal_form_scattered :
    ofJson scattered = .ok gathered ∧ gathered.SaidBy scattered ∧
      (ofJson gathered.toJson).map toJson = .ok gathered.toJson ∧
      Json.read (Text.unifyBreaks gathered.save) = .ok gathered.toJson ∧
      (load gathered.save).map save = .ok gathered.save := by
  have hread : ofJson scattered = .ok gathered := rfl
  have hwritable : gathered.toJson.isWritable = true := by decide +kernel
  have hback : Json.read (Text.unifyBreaks gathered.save) = .ok gathered.toJson :=
    legible_gathered.read_save (saveFault?_eq_none_iff.2 hwritable)
  exact ⟨hread, (normal_form.2.1 _ _).1 hread, (normal_form.2.2.1 _ _ hread).1, hback,
    normal_form.2.2.2 _ hback⟩

end

end Search

end Saturation
