import Saturation.Proofs.Arrangement
import Saturation.Proofs.Documents
import Saturation.Proofs.Restoration

/-!
# Saved text that can be taken up

A document with a half of a pair in one of its strings, or with a number that is no integer, need
not be read as it was written.  The searches for a list of entries have neither, if the entries do
not (`Entry.Legible`): what rounds add are the round's number, names made from given ones, and words
of the program (`Reachable.legible`).  So their documents are plain, and if such a search can be
saved in full, what is saved is read as its document (`Legible.read_save`): it can be restored from
its text.
-/

namespace Saturation

open Json (Plain)

/-! ## Whole texts -/

namespace Text

variable {t u : Text}

/-- The text consists of characters. -/
def Whole (t : Text) : Prop := ∀ p ∈ t, ∃ c : Char, p = .ofChar c

@[simp]
lemma whole_ofString (s : String) : Whole s := by
  intro p hp
  obtain ⟨c, -, rfl⟩ := List.mem_map.1 hp
  exact ⟨c, rfl⟩

lemma Whole.exists_string (h : t.Whole) : ∃ s : String, t = s := by
  induction t with
  | nil => exact ⟨"", rfl⟩
  | cons p t ih =>
      obtain ⟨⟨c, rfl⟩, ht⟩ := List.forall_mem_cons.1 h
      obtain ⟨s, rfl⟩ := ih ht
      exact ⟨.ofList (c :: s.toList), by simp [ofString]⟩

@[simp]
lemma whole_append : (t ++ u).Whole ↔ t.Whole ∧ u.Whole := List.forall_mem_append

lemma Whole.join {parts : List Text} (ht : t.Whole) (h : ∀ part ∈ parts, part.Whole) :
    (Text.join t parts).Whole := by
  rw [Text.join]
  induction parts with
  | nil => exact nofun
  | cons part parts ih =>
      obtain ⟨hpart, hparts⟩ := List.forall_mem_cons.1 h
      cases parts with
      | nil => simpa [List.intercalate] using hpart
      | cons next parts =>
          rw [List.intercalate_cons_cons]
          exact whole_append.2 ⟨whole_append.2 ⟨hpart, ht⟩, ih hparts⟩

end Text

lemma Json.Plain.ofWhole {room : ℕ} {t : Text} (h : t.Whole) : Plain room (.string t) := by
  obtain ⟨s, rfl⟩ := h.exists_string
  exact .string s

/-! ## Entries -/

/-- The entry holds nothing but integers and texts of characters. -/
structure Entry.Legible (e : Entry) : Prop where
  names : ∀ l ∈ e.clause, l.atom.name.Whole
  step : ∃ n : ℤ, e.source.step = .int n
  label : ∃ t : Text, e.source.label = .string t ∧ t.Whole

/-- An object with different names is plain if its values are. -/
lemma Json.Plain.ofFields {room : ℕ} (fields : List (String × Json))
    (hdistinct : (fields.map Prod.fst).Nodup) (h : ∀ field ∈ fields, Plain room field.2) :
    Plain (room + 1) (.object (fields.map fun field => (↑field.1, field.2))) := by
  refine .object ?_ ?_ ?_
  · have hmap : (fields.map Prod.fst).map Text.ofString =
        (fields.map fun field => ((field.1 : Text), field.2)).map Prod.fst := by
      rw [List.map_map, List.map_map]
      rfl
    rw [← hmap]
    exact hdistinct.map fun _ _ => Text.ofString_inj.1
  · rintro _ hmem
    obtain ⟨field, -, rfl⟩ := List.mem_map.1 hmem
    exact ⟨field.1, rfl⟩
  · rintro _ hmem
    obtain ⟨field, hfield, rfl⟩ := List.mem_map.1 hmem
    exact h field hfield

lemma Literal.plain_toJson {room : ℕ} {l : Literal} (h : l.atom.name.Whole) :
    Plain (room + 1) l.toJson := by
  refine .array ?_
  rw [List.forall_mem_cons, List.forall_mem_singleton]
  exact ⟨.ofWhole h, .bool _⟩

namespace Entry.Legible

variable {e : Entry} {room : ℕ}

lemma plain_toJson (h : e.Legible) : Plain (room + 3) e.toJson := by
  obtain ⟨n, hstep⟩ := h.step
  obtain ⟨t, hlabel, ht⟩ := h.label
  have hliterals : Plain (room + 2) (.array (e.clause.literals.map Literal.toJson)) := by
    refine .array fun v hv => ?_
    obtain ⟨l, hl, rfl⟩ := List.mem_map.1 hv
    exact Literal.plain_toJson (h.names l hl)
  have hkeys : ["literals", "step", "label"].Nodup := by decide
  refine .ofFields [("literals", _), ("step", e.source.step), ("label", e.source.label)] hkeys ?_
  simp only [List.forall_mem_cons, hstep, hlabel]
  exact ⟨hliterals, .int n, .ofWhole ht, nofun⟩

lemma whole_name (h : e.Legible) : e.name.Whole := by
  obtain ⟨t, hlabel, ht⟩ := h.label
  have htext : e.clause.text.Whole := by
    rw [Clause.text]
    split
    · exact Text.whole_ofString _
    · refine .join (Text.whole_ofString _) fun part hpart => ?_
      obtain ⟨l, hl, rfl⟩ := List.mem_map.1 hpart
      rw [Literal.text]
      split
      · exact Text.whole_append.2 ⟨Text.whole_ofString _, h.names l hl⟩
      · exact h.names l hl
  rw [Entry.name]
  split
  · exact htext
  · rw [hlabel]
    simp only [Text.whole_append, Text.whole_ofString, true_and, and_true]
    exact ⟨ht, htext⟩

end Entry.Legible

lemma ClauseSet.plain_toJson {room : ℕ} {K : ClauseSet} (h : ∀ e ∈ K.entries, e.Legible) :
    Plain (room + 4) K.toJson := by
  refine .array fun v hv => ?_
  obtain ⟨e, he, rfl⟩ := List.mem_map.1 hv
  exact (h e he).plain_toJson

/-! ## Records -/

/-- The record is of a numbered round, and what the round produced has names of characters. -/
structure RoundRecord.Legible (r : RoundRecord) : Prop where
  round : ∃ n : ℤ, r.round = .int n
  produced : ∀ t ∈ r.produced, t.Whole

lemma RoundRecord.Legible.plain_toJson {room : ℕ} {r : RoundRecord} (h : r.Legible) :
    Plain (room + 2) r.toJson := by
  obtain ⟨n, hround⟩ := h.round
  have hproduced : Plain (room + 1) (.array (r.produced.map .string)) := by
    refine .array fun v hv => ?_
    obtain ⟨t, ht, rfl⟩ := List.mem_map.1 hv
    exact .ofWhole (h.produced t ht)
  have hkeys : ["round", "frontier_size", "seen_size", "pairs", "produced", "outcome"].Nodup := by
    decide
  refine .ofFields [("round", r.round), ("frontier_size", _), ("seen_size", _), ("pairs", _),
    ("produced", _), ("outcome", _)] hkeys ?_
  simp only [List.forall_mem_cons, hround]
  exact ⟨.int n, .int _, .int _, .int _, hproduced, .string _, nofun⟩

/-! ## Searches -/

namespace Search

variable {s : Search} {es : List Entry} {n : ℕ} {e : Entry}

/-- What is known is made of the literals that were given, and knows where it comes from. -/
lemma ReachableIn.legible (h : ReachableIn es n s) (hes : ∀ e ∈ es, e.Legible)
    (he : e ∈ s.frontier.entries ∨ e ∈ s.seen.entries) : e.Legible := by
  have harr := h.arranged
  have hnames : ∀ l ∈ e.clause, l.atom.name.Whole := by
    intro l hl
    have hmem : e.clause ∈ s.seen ∨ e.clause ∈ s.frontier :=
      he.symm.imp ClauseSet.mem_of_mem_entries ClauseSet.mem_of_mem_entries
    obtain ⟨d, hd, hld⟩ := harr.literals e.clause hmem l hl
    exact (hes d hd).names l hld
  have hgiven : Given es e → e.Legible := fun h => hes e (List.mem_of_find?_eq_some h)
  have hderived : ∀ k, Derived es e k → e.Legible := by
    rintro _ ⟨m, -, -, -, -, hsource⟩
    refine ⟨hnames, ⟨_, congrArg Provenance.step hsource⟩, "", congrArg Provenance.label hsource,
      Text.whole_ofString ""⟩
  rcases he with he | he
  · rcases harr.frontier_source e he with ⟨-, h⟩ | ⟨-, h⟩
    · exact hgiven h
    · exact hderived n h
  · rcases harr.seen_source e he with h | ⟨k, -, h⟩
    · exact hgiven h
    · exact hderived k h

/-- A round records a legible round, if what it finds is legible. -/
lemma legible_conclude {frontier seen : ClauseSet} {g : Log} (out : Round)
    (hrecords : ∀ r ∈ g.records, r.Legible)
    (hnew : ∀ e ∈ (conclude frontier seen g out).frontier.entries, e.Legible) :
    ∃ frontier' seen' g', conclude frontier seen g out = logged frontier' seen' g' ∧
      ∀ r ∈ g'.records, r.Legible := by
  have hadd : ∀ F S pairs produced verdict status, (∀ t ∈ produced, Text.Whole t) →
      ∀ r ∈ (g.add F S pairs produced verdict status).records, r.Legible := by
    intro F S pairs produced verdict status hproduced
    exact List.forall_mem_append.2
      ⟨hrecords, List.forall_mem_singleton.2 ⟨⟨_, rfl⟩, hproduced⟩⟩
  cases out with
  | emptyGiven => exact ⟨_, _, _, rfl, hadd _ _ _ _ _ _ nofun⟩
  | emptyDerived tried x y =>
      exact ⟨_, _, _, rfl, hadd _ _ _ _ _ _ (List.forall_mem_singleton.2 (Text.whole_ofString _))⟩
  | saturated tried => exact ⟨_, _, _, rfl, hadd _ _ _ _ _ _ nofun⟩
  | fresh tried found =>
      refine ⟨_, _, _, rfl, hadd _ _ _ _ _ _ fun t ht => ?_⟩
      obtain ⟨e, he, rfl⟩ := List.mem_map.1 ht
      exact (hnew e he).whole_name

/-- **All records of a reachable search are legible**, by induction on the rounds. -/
lemma Reachable.exists_logged_legible (h : Reachable es s) (hes : ∀ e ∈ es, e.Legible) :
    ∃ frontier seen g, s = logged frontier seen g ∧ ∀ r ∈ g.records, r.Legible := by
  induction h with
  | start => exact ⟨_, _, {}, rfl, nofun⟩
  | @next s m h ih =>
      obtain ⟨frontier, seen, g, rfl, hrecords⟩ := ih
      cases hg : g.status.halted with
      | true => exact ⟨frontier, seen, g, next_logged_of_halted m hg, hrecords⟩
      | false =>
          obtain ⟨reason, hreason⟩ := Status.exists_going hg
          obtain ⟨n, hn⟩ := (Reachable.next m h).exists_reachableIn
          have hnew : ∀ e ∈ ((logged frontier seen g).next m).frontier.entries, e.Legible :=
            fun e he => hn.legible hes (.inl he)
          rw [next_logged hreason] at hnew ⊢
          exact legible_conclude _ hrecords hnew

/-- The search has legible clauses and a plain journal. -/
structure Legible (s : Search) : Prop where
  frontier : ∀ e ∈ s.frontier.entries, e.Legible
  seen : ∀ e ∈ s.seen.entries, e.Legible
  history : Plain 989 s.journal.history
  round : Plain 989 s.journal.round
  halted : Plain 989 s.journal.halted
  reason : Plain 989 s.journal.reason
  answer : Plain 989 s.journal.answer

lemma Legible.plain_toJson (h : s.Legible) : Plain Json.maxDepth s.toJson := by
  have hfrontier : Plain (985 + 4) s.frontier.toJson := ClauseSet.plain_toJson h.frontier
  have hseen : Plain (985 + 4) s.seen.toJson := ClauseSet.plain_toJson h.seen
  have hkeys : ["frontier", "seen", "history", "round", "halted", "halt_reason",
    "satisfiable"].Nodup := by decide
  refine .ofFields [("frontier", _), ("seen", _), ("history", s.journal.history),
    ("round", s.journal.round), ("halted", s.journal.halted), ("halt_reason", s.journal.reason),
    ("satisfiable", s.journal.answer)] hkeys ?_
  simp only [List.forall_mem_cons]
  exact ⟨hfrontier, hseen, h.history, h.round, h.halted, h.reason, h.answer, nofun⟩

lemma saveFault?_eq_none_iff : s.saveFault? = none ↔ s.toJson.isWritable = true := by
  rw [saveFault?]
  split
  · next h => exact iff_of_true rfl h
  · next h => exact iff_of_false nofun h

/-- If the search comes to its end after so many rounds, no more searches than these are to be
saved. -/
lemma saved_of_isHalted {m : Mode} {k : ℕ} (hend : ((next m)^[k] (start es)).isHalted = true)
    (hwritable : ∀ i ≤ k, ((next m)^[i] (start es)).toJson.isWritable = true) (t : Search)
    (ht : Reachable es t) : t.saveFault? = none := by
  obtain ⟨n, rfl⟩ := ht.exists_iterate m
  rw [saveFault?_eq_none_iff]
  rcases Nat.le_total n k with hn | hn
  · exact hwritable n hn
  · rw [iterate_eq_of_isHalted hend hn]
    exact hwritable k le_rfl

lemma isWritable_round (h : s.saveFault? = none) : s.journal.round.isWritable = true :=
  Json.isWritable_object_iff.1 (saveFault?_eq_none_iff.1 h) ("round", _) (by simp)

/-- **Where everything can be saved, everything can be told**: a search that is saved has written
out the number of its round. -/
lemma tellable_of_saved (h : Reachable es s) (hsaved : ∀ t, Reachable es t → t.saveFault? = none) :
    s.Tellable := by
  intro m n hgoes
  have hn : Reachable es ((next m)^[n] s) := h.iterate m n
  have hround := isWritable_round (hsaved _ (hn.next m))
  generalize (next m)^[n] s = t at hgoes hn hround
  obtain ⟨frontier, seen, g, rfl, -⟩ := hn.exists_logged
  obtain ⟨reason, hreason⟩ := Status.exists_going hgoes
  obtain ⟨frontier', seen', g', hnext, hlength, -⟩ := exists_logged_next m hreason
  rw [hnext] at hround
  have hnumber : Text.isWritable g'.records.length = true := by
    simpa [logged, Log.journal, Json.isWritable, Json.tokens, Json.Token.isWritable] using hround
  rw [hlength, Nat.cast_succ] at hnumber
  rwa [canTell_logged]

/-- The search can be saved in full, and what is saved is read as its document. -/
structure Restorable (s : Search) : Prop where
  saved : s.saveFault? = none
  read : Json.read (Text.unifyBreaks s.save) = .ok s.toJson

lemma Restorable.load_eq (h : s.Restorable) : load s.save = .ok s := Search.load_eq h.read

/-- **What a legible search saves in full is read as its document.** -/
theorem Legible.read_save (h : s.Legible) (hsave : s.saveFault? = none) :
    Json.read (Text.unifyBreaks s.save) = .ok s.toJson := by
  have hwritable := saveFault?_eq_none_iff.1 hsave
  rw [save, Json.unifyBreaks_indented h.plain_toJson hwritable,
    Json.read_indented h.plain_toJson hwritable]

lemma Legible.restorable (h : s.Legible) (hsave : s.saveFault? = none) : s.Restorable :=
  ⟨hsave, h.read_save hsave⟩

/-- **Reachable searches are legible.** -/
theorem Reachable.legible (h : Reachable es s) (hes : ∀ e ∈ es, e.Legible) : s.Legible := by
  obtain ⟨n, hn⟩ := h.exists_reachableIn
  have hlog : Plain (986 + 3) s.journal.history ∧ Plain 989 s.journal.round := by
    obtain ⟨frontier, seen, g, rfl, hrecords⟩ := h.exists_logged_legible hes
    refine ⟨.array fun v hv => ?_, .int _⟩
    obtain ⟨r, hr, rfl⟩ := List.mem_map.1 hv
    exact (hrecords r hr).plain_toJson
  have hstatus : Plain 989 s.journal.halted ∧ Plain 989 s.journal.reason ∧
      Plain 989 s.journal.answer := by
    obtain ⟨frontier, seen, ⟨records, status⟩, rfl, hgoes | ⟨f, hf⟩⟩ := h.exists_logged
    · obtain rfl : status = .going "" := hgoes
      exact ⟨.bool _, .string "", .null⟩
    · obtain rfl : status = .finished f := hf
      refine ⟨.bool _, ?_, .bool _⟩
      cases f with
      | emptyGiven => exact .string "empty clause in frontier"
      | emptyDerived => exact .string "empty clause derived"
      | saturated => exact .string "saturated"
  exact ⟨fun e he => hn.legible hes (.inl he), fun e he => hn.legible hes (.inr he), hlog.1, hlog.2,
    hstatus.1, hstatus.2.1, hstatus.2.2⟩

end Search

end Saturation
