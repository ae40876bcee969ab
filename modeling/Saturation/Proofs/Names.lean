import Saturation.Proofs.History
import Saturation.Proofs.Spelling

/-!
# What a name tells

The name of a clause shows its literals with bars between them, after a label if there is one.  The
atoms are not kept from looking like that: an atom may be a bar, a bracket or anything else without
blanks and tildes.  But the words of a name still tell what is what, by their places: the literals
are in the even places and the bars in the odd ones (`words_text`).  A label may hold words of any
kind, and the last of them ends with a bracket, so it is not a bar where one would have to be
(`Entry.clause_eq_of_name_eq`).

Only the empty clause is not shown by its literals.  Its name is a pair of brackets, which is also
the name of an atom: there are two clauses with this name (`Entry.name_eq_brackets_iff`).  No round
adds the empty clause to a search, and one that is given it never adds another clause, so all this
makes no difference to the names that a search shows, tells and records (`Search.names_identify`).
-/

namespace Saturation

open Text (IsWord words)

/-! ## Lists with separators -/

namespace Text

variable {α : Type} {sep : α} {us vs xs ys : List α}

lemma intersperse_inj : xs.intersperse sep = ys.intersperse sep ↔ xs = ys := by
  refine ⟨fun h => List.ext_getElem? fun i => ?_, fun h => h ▸ rfl⟩
  rw [← @List.getElem?_intersperse_two_mul α xs sep, h, List.getElem?_intersperse_two_mul]

/-- Something before a list with separators that makes another such list has the separator at its
end, because it has to be of even length. -/
lemma getLast?_of_intersperse_eq (hus : us ≠ []) (hys : ys ≠ [])
    (h : xs.intersperse sep = us ++ ys.intersperse sep) : us.getLast? = some sep := by
  have hlength := congrArg List.length h
  have hus := List.length_pos_of_ne_nil hus
  have hys := List.length_pos_of_ne_nil hys
  rw [List.length_append, List.length_intersperse, List.length_intersperse] at hlength
  -- both lists with separators have odd length, so what stands before ends in an odd place
  obtain ⟨k, hk⟩ : ∃ k, us.length - 1 = 2 * k + 1 := ⟨us.length / 2 - 1, by omega⟩
  have hkx : k + 1 < xs.length := by omega
  have hku : 2 * k + 1 < us.length := by omega
  rw [List.getLast?_eq_getElem?, hk, ← List.getElem?_append_left hku, ← h]
  exact List.getElem?_intersperse_two_mul_add_one hkx

/-- **What stands before a list with separators is told from it**, if it does not end with the
separator. -/
lemma append_intersperse_inj (hus : us.getLast? ≠ some sep) (hvs : vs.getLast? ≠ some sep)
    (hxs : xs ≠ []) (hys : ys ≠ [])
    (h : us ++ xs.intersperse sep = vs ++ ys.intersperse sep) : us = vs ∧ xs = ys := by
  rcases List.append_eq_append_iff.1 h with ⟨ws, rfl, hws⟩ | ⟨ws, rfl, hws⟩
  · have hnil : ws = [] := by
      by_contra hne
      rw [List.getLast?_append, getLast?_of_intersperse_eq hne hys hws] at hvs
      exact hvs rfl
    subst hnil
    exact ⟨(List.append_nil us).symm, intersperse_inj.1 hws⟩
  · have hnil : ws = [] := by
      by_contra hne
      rw [List.getLast?_append, getLast?_of_intersperse_eq hne hxs hws] at hus
      exact hus rfl
    subst hnil
    exact ⟨List.append_nil vs, (intersperse_inj.1 hws).symm⟩

/-- What stands between two literals. -/
def bar : Text := "|"

/-- Words with bars between them are read as those words and bars. -/
lemma words_join {ws : List Text} (hws : ∀ w ∈ ws, IsWord w) :
    words (join " | " ws) = ws.intersperse bar := by
  induction ws with
  | nil => rfl
  | cons w ws ih =>
      obtain ⟨hw, hws⟩ := List.forall_mem_cons.1 hws
      cases ws with
      | nil =>
          rw [join, List.intercalate_singleton]
          exact hw.words_eq
      | cons v ws =>
          have hblank : isBlank (.ofChar ' ') = true := by decide
          have hbar : words bar = [bar] := by decide
          have hline : join " | " (w :: v :: ws) =
              w ++ .ofChar ' ' :: (bar ++ .ofChar ' ' :: join " | " (v :: ws)) := by
            rw [join, List.intercalate_cons_cons, List.append_assoc]
            rfl
          rw [hline, words_append_cons hblank, words_append_cons hblank, hw.words_eq, hbar, ih hws,
            List.intersperse_cons_cons, List.singleton_append, List.singleton_append]

end Text

/-! ## Clauses -/

namespace Clause

variable {c d : Clause}

/-- The unit clause of the atom that is spelled like the empty clause. -/
def brackets : Clause := .ofLiterals [⟨⟨"[]", by decide⟩, false⟩]

/-- The texts of the literals, in order. -/
def spelled (c : Clause) : List Text := c.literals.map Literal.text

lemma spelled_inj : c.spelled = d.spelled ↔ c = d := by
  refine ⟨fun h => ?_, fun h => h ▸ rfl⟩
  have htext : ∀ k l : Literal, k.text = l.text → k = l := by
    intro k l hkl
    have hk := Literal.parse_eq_ok_iff.2 hkl
    exact Except.ok.inj ((Literal.parse_eq_ok_iff.2 rfl).symm.trans hk)
  exact Clause.ext ((List.map_inj_right htext).1 h)

lemma spelled_ne_nil (hc : c ≠ ∅) : c.spelled ≠ [] := by
  rw [spelled, Ne, List.map_eq_nil_iff]
  exact fun h => hc (Clause.ext h)

lemma text_of_ne_empty (hc : c ≠ ∅) : c.text = .join " | " c.spelled :=
  if_neg fun h => hc (isEmpty_iff.1 h)

/-- **The words of a clause's text are its literals and the bars between them**, by their places. -/
lemma words_text (hc : c ≠ ∅) : words c.text = c.spelled.intersperse Text.bar := by
  rw [text_of_ne_empty hc]
  refine Text.words_join fun w hw => ?_
  obtain ⟨l, -, rfl⟩ := List.mem_map.1 hw
  exact l.isWord_text

end Clause

/-! ## Entries -/

namespace Entry

variable {d e : Entry}

/-- The clause is shown without a label. -/
def Unlabelled (e : Entry) : Prop := e.source.label.isTruthy = false

/-- The words of the label, with its brackets. -/
def labelWords (e : Entry) : List Text :=
  if e.source.label.isTruthy then words ("[" ++ e.source.label.shown ++ "]") else []

lemma name_of_empty (he : e.clause = ∅) : e.name = "[]" := by
  rw [name, if_pos (by rw [he]; rfl), he]
  rfl

lemma name_of_unlabelled (he : e.Unlabelled) : e.name = e.clause.text := by
  rw [name, if_pos (by rw [he]; exact Bool.or_true _)]

lemma words_name (he : e.clause ≠ ∅) :
    words e.name = e.labelWords ++ e.clause.spelled.intersperse Text.bar := by
  rw [← Clause.words_text he]
  have hempty : e.clause.isEmpty = false :=
    Bool.eq_false_iff.2 fun h => he (Clause.isEmpty_iff.1 h)
  cases hlabel : e.source.label.isTruthy with
  | false => rw [name_of_unlabelled hlabel, labelWords, hlabel, if_neg (by decide), List.nil_append]
  | true =>
      have hblank : Text.isBlank (.ofChar ' ') = true := by decide
      have hname : e.name =
          "[" ++ e.source.label.shown ++ "]" ++ .ofChar ' ' :: e.clause.text := by
        rw [name, hempty, hlabel, if_neg (by decide)]
        simp only [List.append_assoc]
        rfl
      rw [hname, Text.words_append_cons hblank, labelWords, hlabel, if_pos rfl]

/-- A label ends with a bracket. -/
lemma exists_labelWords (he : ¬ e.Unlabelled) :
    ∃ ws w, e.labelWords = ws ++ [w ++ [.ofChar ']']] := by
  rw [Unlabelled, Bool.not_eq_false] at he
  rw [labelWords, if_pos he]
  exact Text.exists_wordsFrom_concat (by decide) [] _

lemma labelWords_eq_nil_iff : e.labelWords = [] ↔ e.Unlabelled := by
  by_cases he : e.Unlabelled
  · refine iff_of_true ?_ he
    rw [labelWords, he, if_neg (by decide)]
  · obtain ⟨ws, w, h⟩ := exists_labelWords he
    refine iff_of_false ?_ he
    rw [h]
    exact List.append_ne_nil_of_right_ne_nil ws (List.cons_ne_nil _ _)

lemma getLast?_labelWords_ne (e : Entry) : e.labelWords.getLast? ≠ some Text.bar := by
  by_cases he : e.Unlabelled
  · rw [labelWords_eq_nil_iff.2 he]
    nofun
  · obtain ⟨ws, w, h⟩ := exists_labelWords he
    rw [h, List.getLast?_concat, Ne, Option.some.injEq]
    intro hw
    have hlast : w = [] ∧ CodePoint.ofChar ']' = .ofChar '|' := List.append_singleton_inj.1 hw
    exact absurd hlast.2 (by decide)

/-- **A name tells the clause and whether it has a label**, unless the clause is empty. -/
lemma clause_eq_of_name_eq (hd : d.clause ≠ ∅) (he : e.clause ≠ ∅) (h : d.name = e.name) :
    d.clause = e.clause ∧ (d.Unlabelled ↔ e.Unlabelled) := by
  have hwords := congrArg words h
  rw [words_name hd, words_name he] at hwords
  obtain ⟨hlabel, hspelled⟩ := Text.append_intersperse_inj (getLast?_labelWords_ne d)
    (getLast?_labelWords_ne e) (Clause.spelled_ne_nil hd) (Clause.spelled_ne_nil he) hwords
  refine ⟨Clause.spelled_inj.1 hspelled, ?_⟩
  rw [← labelWords_eq_nil_iff, hlabel, labelWords_eq_nil_iff]

/-- **Two clauses are shown as a pair of brackets.** -/
lemma name_eq_brackets_iff :
    e.name = "[]" ↔ e.clause = ∅ ∨ e.clause = .brackets ∧ e.Unlabelled := by
  have hbrackets : name ⟨.brackets, {}⟩ = "[]" := by decide
  by_cases he : e.clause = ∅
  · exact iff_of_true (name_of_empty he) (.inl he)
  · rw [or_iff_right he]
    constructor
    · intro h
      have hne : Clause.brackets ≠ ∅ := by decide
      obtain ⟨hclause, hlabel⟩ :=
        clause_eq_of_name_eq (e := ⟨.brackets, {}⟩) he hne (h.trans hbrackets.symm)
      exact ⟨hclause, hlabel.2 rfl⟩
    · rintro ⟨hclause, hlabel⟩
      rw [name_of_unlabelled hlabel, hclause]
      decide

/-- **Names without labels tell clauses apart**, up to the two that are shown as brackets. -/
lemma name_eq_name_iff (hd : d.Unlabelled) (he : e.Unlabelled) :
    d.name = e.name ↔ d.clause = e.clause ∨ d.clause = ∅ ∧ e.clause = .brackets ∨
      d.clause = .brackets ∧ e.clause = ∅ := by
  by_cases hdc : d.clause = ∅
  · have hne : ∅ ≠ Clause.brackets := by decide
    rw [name_of_empty hdc, eq_comm, name_eq_brackets_iff, and_iff_left he, hdc, eq_comm (a := ∅)]
    simp [hne]
  by_cases hec : e.clause = ∅
  · rw [name_of_empty hec, name_eq_brackets_iff, and_iff_left hd, hec]
    simp [hdc]
  · constructor
    · exact fun h => .inl (clause_eq_of_name_eq hdc hec h).1
    · rintro (h | ⟨h, -⟩ | ⟨-, h⟩)
      · rw [name_of_unlabelled hd, name_of_unlabelled he, h]
      · exact absurd h hdc
      · exact absurd h hec

/-- The name is the literals of the clause and nothing else. -/
structure Plain (e : Entry) : Prop where
  ne_empty : e.clause ≠ ∅
  unlabelled : e.Unlabelled

lemma Plain.name_eq_name_iff (hd : d.Plain) (he : e.Plain) :
    d.name = e.name ↔ d.clause = e.clause := by
  rw [Entry.name_eq_name_iff hd.unlabelled he.unlabelled]
  simp [hd.ne_empty, he.ne_empty]

end Entry

/-! ## Sets -/

/-- **The names of a set tell its clauses**, if they are plain. -/
lemma ClauseSet.names_eq_names_iff {K L : ClauseSet} (hK : ∀ e ∈ K.entries, e.Plain)
    (hL : ∀ e ∈ L.entries, e.Plain) : K.names = L.names ↔ K.clauses = L.clauses := by
  rw [names, names, clauses, clauses]
  generalize K.entries = ds at hK
  generalize L.entries = es at hL
  induction ds generalizing es with
  | nil =>
      rw [List.map_nil, List.map_nil, List.nil_eq, List.nil_eq, List.map_eq_nil_iff,
        List.map_eq_nil_iff]
  | cons d ds ih =>
      obtain ⟨hd, hds⟩ := List.forall_mem_cons.1 hK
      cases es with
      | nil => exact iff_of_false (List.cons_ne_nil _ _) (List.cons_ne_nil _ _)
      | cons e es =>
          obtain ⟨he, hes⟩ := List.forall_mem_cons.1 hL
          rw [List.map_cons, List.map_cons, List.map_cons, List.map_cons, List.cons.injEq,
            List.cons.injEq, hd.name_eq_name_iff he, ih hds es hes]

namespace Search

open ClauseSet

variable {m m' : Mode} {s t : Search} {es es' : List Entry} {d e : Entry} {i j n : ℕ}
  {r : RoundRecord}

/-! ## Derived clauses -/

/-- A derived clause is not empty, since the round would have ended the search, and it has no
label. -/
lemma Derived.plain (h : Derived es e n) : e.Plain := by
  cases h with
  | @found n s m h hgoes _ hmem hsource =>
      have hstep := step_next m (isHalted_of_next hgoes) h.reachable.invariant.continuable
      refine ⟨fun hempty => ?_, ?_⟩
      · have hknown : e.clause ∈ (s.next m).known := mem_known.2 (.inr (mem_of_mem_entries hmem))
        exact (hstep.empty_not_mem_known hgoes).2 (hempty ▸ hknown)
      · rw [Entry.Unlabelled, hsource]
        rfl

/-- **The names of derived clauses tell them apart**, in whatever searches they were derived. -/
lemma Derived.name_eq_name_iff (hd : Derived es d i) (he : Derived es' e j) :
    d.name = e.name ↔ d.clause = e.clause :=
  hd.plain.name_eq_name_iff he.plain

/-- What a round that goes on leaves in the frontier was derived. -/
lemma Reachable.exists_derived (h : Reachable es s) (hgoes : (s.next m).isHalted = false)
    (he : e ∈ (s.next m).frontier.entries) : ∃ k, Derived es e k := by
  obtain ⟨n, hn⟩ := h.exists_reachableIn
  rcases (hn.goesOn m hgoes).arranged.frontier_source e he with ⟨hzero, -⟩ | ⟨-, hderived⟩
  · exact absurd hzero (Nat.succ_ne_zero n)
  · exact ⟨n + 1, hderived⟩

/-! ## The names that a search shows -/

/-- A search that is given the empty clause does not come further. -/
lemma Reachable.seen_of_empty_mem (h : Reachable es s) (hempty : ∅ ∈ s.frontier) :
    s.seen = ∅ := by
  induction h with
  | start => rfl
  | @next s m h ih =>
      have hj := h.invariant.continuable
      cases hgoes : (s.next m).isHalted with
      | true =>
          obtain ⟨hfrontier, hseen⟩ := sets_next_of_isHalted hj hgoes
          rw [hseen]
          exact ih (hfrontier ▸ hempty)
      | false =>
          have hstep := step_next m (isHalted_of_next hgoes) hj
          exact absurd (mem_known.2 (.inr hempty)) (hstep.empty_not_mem_known hgoes).2

/-- An entry that the search holds. -/
def Shows (s : Search) (e : Entry) : Prop := e ∈ s.frontier.entries ∨ e ∈ s.seen.entries

/-- The entries of a search have different clauses, also if one is in the frontier and the other
one was seen. -/
lemma Reachable.eq_of_clause_eq (h : Reachable es s) (hd : s.Shows d) (he : s.Shows e)
    (hde : d.clause = e.clause) : d = e := by
  obtain ⟨n, hn⟩ := h.exists_reachableIn
  rcases hd with hd | hd <;> rcases he with he | he
  · exact ClauseSet.eq_of_clause_eq hd he hde
  · have hmem : e.clause ∈ s.frontier := hde ▸ mem_of_mem_entries hd
    exact absurd hmem (hn.arranged.not_mem_frontier (mem_of_mem_entries he))
  · have hmem : d.clause ∈ s.frontier := hde ▸ mem_of_mem_entries he
    exact absurd hmem (hn.arranged.not_mem_frontier (mem_of_mem_entries hd))
  · exact ClauseSet.eq_of_clause_eq hd he hde

/-- With the empty clause a search shows no other. -/
lemma Reachable.clause_eq_empty (h : Reachable es s) (hd : s.Shows d) (hempty : d.clause = ∅)
    (he : s.Shows e) : e.clause = ∅ := by
  have hmem : ∅ ∈ s.frontier := by
    rcases hd with hd | hd
    · exact hempty ▸ mem_of_mem_entries hd
    · exact absurd (hempty ▸ mem_of_mem_entries hd) h.invariant.nonempty
  obtain ⟨n, hn⟩ := h.exists_reachableIn
  rcases he with he | he
  · have hclauses := (hn.arranged.of_empty_mem_frontier hmem).2
    have he := mem_def.1 (mem_of_mem_entries he)
    rw [hclauses] at he
    exact List.mem_singleton.1 he
  · rw [h.seen_of_empty_mem hmem] at he
    exact absurd he List.not_mem_nil

/-- **A search shows no name twice**, whatever its labels. -/
lemma Reachable.eq_of_name_eq (h : Reachable es s) (hd : s.Shows d) (he : s.Shows e)
    (hde : d.name = e.name) : d = e := by
  refine h.eq_of_clause_eq hd he ?_
  by_cases hempty : d.clause = ∅
  · rw [hempty, h.clause_eq_empty hd hempty he]
  by_cases hempty' : e.clause = ∅
  · rw [hempty', h.clause_eq_empty he hempty' hd]
  · exact (Entry.clause_eq_of_name_eq hempty hempty' hde).1

lemma OnTheWay.exists_reachable (h : OnTheWay es s) : ∃ t, Reachable es t ∧
    s.frontier = t.frontier ∧ s.seen = t.seen ∧ s.journal.history = t.journal.history := by
  cases h with
  | reachable h => exact ⟨s, h, rfl, rfl, rfl⟩
  | @halt t h _ => exact ⟨t, h, rfl, rfl, rfl⟩

/-- Rounds alone are a schedule. -/
lemma Reachable.scheduled (h : Reachable es s) : Scheduled es s := by
  induction h with
  | start => exact .start
  | next m _ ih => exact ih.round m false nofun

/-! ## The names that a round tells -/

lemma mem_notes_settle {before after : List Note} {close : Journal → Journal} {note : Note}
    (h : note ∈ (s.settle before r after close).notes) : note ∈ before ∨ note ∈ after := by
  rw [settle] at h
  split at h
  · exact List.mem_append.1 h
  · exact .inl h

/-- What a round tells to be new is plain, in any search at all. -/
lemma plain_of_found_mem_notes (h : .found e ∈ (s.advance m).notes) : e.Plain := by
  cases hs : s.isHalted with
  | true =>
      rw [advance_of_isHalted m hs] at h
      cases h
  | false =>
      rw [advance, hs, if_neg (by decide)] at h
      split at h
      · cases h
      · next j hj =>
        dsimp only at h
        have hout := Round.outcome_run m (.found j.round) s.frontier s.seen
        generalize Round.run m (.found j.round) s.frontier s.seen = out at h hout
        cases hout with
        | emptyGiven => simpa using mem_notes_settle h
        | emptyDerived => simpa using mem_notes_settle h
        | saturated => simpa using mem_notes_settle h
        | @fresh found _ hempty hfound _ hsource =>
            have he : e ∈ found.minimal.entries := by simpa using mem_notes_settle h
            have he := (mem_entries_minimal.1 he).1
            obtain ⟨pair, hpair, hmem, -⟩ := (hfound e.clause).1 (mem_of_mem_entries he)
            refine ⟨fun hclause => hempty pair hpair (hclause ▸ hmem), ?_⟩
            rw [Entry.Unlabelled, hsource e he]
            rfl

/-- **The lines that tell what is new tell the clauses apart**, in whatever searches. -/
lemma line_found_eq_iff (hd : .found d ∈ (s.advance m).notes)
    (he : .found e ∈ (t.advance m').notes) :
    (Note.found d).line = (Note.found e).line ↔ d.clause = e.clause := by
  have hd := plain_of_found_mem_notes hd
  have he := plain_of_found_mem_notes he
  rw [Note.line, Note.line, List.append_cancel_left_eq, hd.name_eq_name_iff he]

/-! ## The names that are recorded -/

/-- **A record of an undecided round tells of a round that went on**, by induction on the
rounds. -/
lemma Reachable.exists_recorded_going (m : Mode) (h : Reachable es s) :
    ∃ records status, Recorded m es s records status ∧
      ∀ (i : ℕ) (r : RoundRecord), records[i]? = some r → r.verdict = .undecided →
        ((Search.next m)^[i + 1] (Search.start es)).isHalted = false := by
  induction h with
  | start => exact ⟨_, _, recorded_start m es, nofun⟩
  | @next s m' h ih =>
      obtain ⟨records, status, hrecorded, hgoing⟩ := ih
      cases hs : s.isHalted with
      | true =>
          rw [next_of_isHalted m' hs]
          exact ⟨records, status, hrecorded, hgoing⟩
      | false =>
          obtain ⟨r, status', hrecorded'⟩ := hrecorded.next hs m'
          refine ⟨_, _, hrecorded', fun i q hq hverdict => ?_⟩
          rcases getElem?_concat_iff.1 hq with hq | ⟨rfl, rfl⟩
          · exact hgoing i q hq hverdict
          · -- the new record is the last one, so the answer goes with its verdict
            have hanswer := hrecorded'.faithful.answer
            have hrow := hrecorded'.row
            rw [lastVerdict_concat, hverdict] at hanswer
            rw [List.length_append, List.length_singleton] at hrow
            rw [← hrow, ← (h.next m').invariant.undecided, verdict, Journal.verdict, hanswer]
            rfl

/-- The history is a list of records, and this is the one in the given place. -/
def HasRecord (s : Search) (i : ℕ) (r : RoundRecord) : Prop :=
  ∃ records : List RoundRecord,
    s.journal.history = .array (records.map RoundRecord.toJson) ∧ records[i]? = some r

/-- An undecided round has recorded the names of what it has left in the frontier, and all of that
was derived. -/
lemma Scheduled.produced_eq_names (h : Scheduled es s) (m : Mode) (hr : s.HasRecord i r)
    (hverdict : r.verdict = .undecided) :
    r.produced = ((Search.next m)^[i + 1] (Search.start es)).frontier.names ∧
      ∀ e ∈ ((Search.next m)^[i + 1] (Search.start es)).frontier.entries,
        ∃ k, Derived es e k := by
  obtain ⟨records, hhistory, hr⟩ := hr
  obtain ⟨t, ht, -, -, hst⟩ := h.onTheWay.exists_reachable
  obtain ⟨records', status, hrecorded, hgoing⟩ := ht.exists_recorded_going m
  -- what is written down in the history is what the rounds have recorded
  obtain rfl : records = records' :=
    RoundRecord.history_inj.1 (hhistory.symm.trans (hst.trans hrecorded.faithful.history))
  constructor
  · cases hrecorded.chronicle.tells i r hr with
    | goesOn _ _ hproduced => exact hproduced
    | saturates h => cases h.symm.trans hverdict
    | refutesGiven h => cases h.symm.trans hverdict
    | refutes h => cases h.symm.trans hverdict
  · have hgoes := hgoing i r hr hverdict
    rw [Function.iterate_succ_apply'] at hgoes ⊢
    exact fun e he => (reachable_iterate m i).exists_derived hgoes he

/-- **The names that are recorded tell the new clauses**, whichever rounds and searches they are
of. -/
lemma Scheduled.produced_eq_iff {q : RoundRecord} (h : Scheduled es s) (h' : Scheduled es' t)
    (m : Mode) (hq : s.HasRecord i q) (hr : t.HasRecord j r) (hqv : q.verdict = .undecided)
    (hrv : r.verdict = .undecided) :
    q.produced = r.produced ↔
      ((Search.next m)^[i + 1] (Search.start es)).frontier.clauses =
        ((Search.next m)^[j + 1] (Search.start es')).frontier.clauses := by
  obtain ⟨hnames, hderived⟩ := h.produced_eq_names m hq hqv
  obtain ⟨hnames', hderived'⟩ := h'.produced_eq_names m hr hrv
  rw [hnames, hnames']
  refine names_eq_names_iff (fun e he => ?_) fun e he => ?_
  · obtain ⟨_, hk⟩ := hderived e he
    exact hk.plain
  · obtain ⟨_, hk⟩ := hderived' e he
    exact hk.plain

/-- **Names identify clauses**, with one exception.

* Two clauses without labels have one name exactly if they are the same clause, or one of them is
  empty and the other is the unit clause of the atom `[]`.  No other clause is shown as a pair of
  brackets, and the unit clause only without a label.
* Clauses that are not empty and have one name are the same, whatever their labels.
* Derived clauses, in whatever searches, have one name exactly if they are the same clause.
* A search that comes of any schedule does not show a name twice.
* Two lines of rounds that tell of new clauses, in any searches at all, are the same exactly if they
  tell of the same clause.
* An undecided round has recorded the names of the clauses that it has left in the frontier, and all
  of them were derived.  Two of them have recorded the same names exactly if they have left the same
  clauses. -/
theorem names_identify :
    (∀ d e : Entry, d.Unlabelled → e.Unlabelled →
      (d.name = e.name ↔ d.clause = e.clause ∨ d.clause = ∅ ∧ e.clause = .brackets ∨
        d.clause = .brackets ∧ e.clause = ∅)) ∧
    (∀ e : Entry, e.name = "[]" ↔ e.clause = ∅ ∨ e.clause = .brackets ∧ e.Unlabelled) ∧
    (∀ d e : Entry, d.clause ≠ ∅ → e.clause ≠ ∅ → d.name = e.name → d.clause = e.clause) ∧
    (∀ es es' d e i j, Derived es d i → Derived es' e j →
      (d.name = e.name ↔ d.clause = e.clause)) ∧
    (∀ es s, Scheduled es s → ∀ d e, s.Shows d → s.Shows e → d.name = e.name → d = e) ∧
    (∀ (s t : Search) (m m' : Mode) (d e : Entry), .found d ∈ (s.advance m).notes →
      .found e ∈ (t.advance m').notes →
      ((Note.found d).line = (Note.found e).line ↔ d.clause = e.clause)) ∧
    (∀ (m : Mode) es s, Scheduled es s → ∀ i r, s.HasRecord i r → r.verdict = .undecided →
      r.produced = ((next m)^[i + 1] (start es)).frontier.names ∧
        ∀ e ∈ ((next m)^[i + 1] (start es)).frontier.entries, ∃ k, Derived es e k) ∧
    ∀ (m : Mode) es es' s t, Scheduled es s → Scheduled es' t →
      ∀ i j q r, s.HasRecord i q → t.HasRecord j r → q.verdict = .undecided →
        r.verdict = .undecided →
        (q.produced = r.produced ↔ ((next m)^[i + 1] (start es)).frontier.clauses =
          ((next m)^[j + 1] (start es')).frontier.clauses) := by
  refine ⟨fun d e => Entry.name_eq_name_iff, fun e => Entry.name_eq_brackets_iff,
    fun d e hd he h => (Entry.clause_eq_of_name_eq hd he h).1,
    fun es es' d e i j => Derived.name_eq_name_iff,
    fun es s h d e hd he hde => ?_, fun s t m m' d e => line_found_eq_iff,
    fun m es s h i r hr hv => h.produced_eq_names m hr hv,
    fun m es es' s t h h' i j q r hq hr hqv hrv => h.produced_eq_iff h' m hq hr hqv hrv⟩
  obtain ⟨t, ht, hfrontier, hseen, -⟩ := h.onTheWay.exists_reachable
  rw [Shows, hfrontier, hseen] at hd he
  exact ht.eq_of_name_eq hd he hde

/-- The exception: a name may be shared by two clauses without labels. -/
theorem not_names_identify_brackets :
    ¬ ∀ d e : Entry, d.Unlabelled → e.Unlabelled → (d.name = e.name ↔ d.clause = e.clause) := by
  intro h
  have hclause := (h ⟨∅, {}⟩ ⟨.brackets, {}⟩ rfl rfl).1 (by decide)
  exact absurd hclause (by decide)

open Sample (pos neg entry)

/-- Two clauses whose only resolvent is the unit clause that is shown as a pair of brackets. -/
def bracketed (a : Atom) : List Entry :=
  [entry "either" [pos ⟨"[]", by decide⟩, pos a], entry "denied" [neg a]]

/-- What the first round over them makes, says and records. -/
lemma advance_bracketed {a : Atom} (ha : a = ⟨"A", by decide⟩ ∨ a = ⟨"B", by decide⟩) :
    ((start (bracketed a)).next .strict).frontier.entries = [⟨.brackets, .found (.int 1)⟩] ∧
      ((start (bracketed a)).advance .strict).notes =
        [.opening (.int 1) 2 0, .found ⟨.brackets, .found (.int 1)⟩, .closing 1 2] ∧
      ((start (bracketed a)).next .strict).HasRecord 0 ⟨.int 1, 1, 2, 1, ["[]"], .undecided⟩ := by
  have hhistory : ((start (bracketed a)).next .strict).journal.history =
      .array [RoundRecord.toJson ⟨.int 1, 1, 2, 1, ["[]"], .undecided⟩] := by
    rcases ha with rfl | rfl <;> with_unfolding_all rfl
  refine ⟨?_, ?_, ⟨[_], hhistory, rfl⟩⟩
  · rcases ha with rfl | rfl <;> with_unfolding_all rfl
  · rcases ha with rfl | rfl <;> with_unfolding_all rfl

/-- Two searches that derive the clause with the name of the empty one, each from clauses that the
other does not have.  What they show, tell and record of it means that clause all the same.  The
given clauses have labels, which may be strings or, in a saved search, numbers. -/
theorem names_identify_bracketed :
    let es := bracketed ⟨"A", by decide⟩
    let es' := bracketed ⟨"B", by decide⟩
    let s := (start es).next .strict
    let s' := (start es').next .strict
    let e : Entry := ⟨.brackets, .found (.int 1)⟩
    let x : Entry := ⟨.ofLiterals [pos ⟨"A", by decide⟩], { label := .int 5 }⟩
    let y : Entry := entry "5" [pos ⟨"A", by decide⟩]
    (⟨∅, {}⟩ : Entry).name = e.name ∧ (x.name = y.name ∧ x.clause = y.clause) ∧
      (Derived es e 1 ∧ Derived es' e 1 ∧ e.clause = e.clause) ∧
      (Scheduled es s ∧ s.Shows e ∧ ∀ d, s.Shows d → d.name = e.name → d = e) ∧
      (.found e ∈ ((start es).advance .strict).notes ∧
        .found e ∈ ((start es').advance .strict).notes ∧ e.clause = e.clause) ∧
      s.frontier.names = [e.name] ∧ s.frontier.clauses = s'.frontier.clauses := by
  intro es es' s s' e x y
  obtain ⟨hbare, -, hlabelled, hderived, hshown, htold, hrecorded, hsame⟩ := names_identify
  obtain ⟨hfrontier, hnotes, hrecord⟩ := advance_bracketed (.inl rfl)
  obtain ⟨hfrontier', hnotes', hrecord'⟩ := advance_bracketed (.inr rfl)
  have hd : Derived es e 1 := .found .strict .start (by decide +kernel) (by decide +kernel)
    (hfrontier ▸ List.mem_cons_self) rfl
  have hd' : Derived es' e 1 := .found .strict .start (by decide +kernel) (by decide +kernel)
    (hfrontier' ▸ List.mem_cons_self) rfl
  have hs : Scheduled es s := (reachable_iterate .strict 1).scheduled
  have hs' : Scheduled es' s' := (reachable_iterate .strict 1).scheduled
  have he : s.Shows e := .inl (hfrontier ▸ List.mem_cons_self)
  have hmem : .found e ∈ ((start es).advance .strict).notes := by simp [es, e, hnotes]
  have hmem' : .found e ∈ ((start es').advance .strict).notes := by simp [es', e, hnotes']
  have hxy : x.name = y.name := by decide +kernel
  have hx : x.clause ≠ ∅ := by decide
  have hy : y.clause ≠ ∅ := by decide
  exact ⟨(hbare ⟨∅, {}⟩ e rfl rfl).2 (.inr (.inl ⟨rfl, rfl⟩)), ⟨hxy, hlabelled x y hx hy hxy⟩,
    ⟨hd, hd', (hderived es es' e e 1 1 hd hd').1 rfl⟩,
    ⟨hs, he, fun d h => hshown es s hs d e h he⟩,
    ⟨hmem, hmem', (htold _ _ _ _ e e hmem hmem').1 rfl⟩,
    (hrecorded .strict es s hs 0 _ hrecord rfl).1.symm,
    (hsame .strict es es' s s' hs hs' 0 0 _ _ hrecord hrecord' rfl rfl).1 rfl⟩

end Search

end Saturation
