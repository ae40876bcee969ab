import Saturation.Proofs.Course
import Saturation.Proofs.Legible
import Saturation.Report

/-!
# What a search tells

Lines of characters can be printed; a half of a pair cannot.  The searches for legible entries tell
nothing but lines of characters: their state, the course of their rounds, and what a round says as
it goes.  And their history can be told at all, because every record in it has what is told of it
(`Report.history_of_reachable`).
-/

namespace Saturation

open Json (Plain)
open Text (Whole whole_ofString)

lemma Json.Plain.whole_shown {room : ℕ} {v : Json} (h : Plain room v) : v.shown.Whole := by
  cases h with
  | string s => exact whole_ofString s
  | _ => exact whole_ofString _

namespace Report

variable {K : ClauseSet} {s : Search} {es : List Entry} {r : RoundRecord}

@[simp]
lemma whole_rule : rule.Whole := by
  intro p hp
  exact ⟨'=', List.eq_of_mem_replicate hp⟩

/-! ## The state -/

lemma whole_titled (title : String) (h : ∀ e ∈ K.entries, e.Legible) :
    ∀ line ∈ titled title K, line.Whole := by
  rw [titled, List.forall_mem_cons]
  refine ⟨by simp, fun line hline => ?_⟩
  obtain ⟨name, hname, rfl⟩ := List.mem_map.1 hline
  obtain ⟨e, he, rfl⟩ := List.mem_map.1 hname
  simpa using (h e he).whole_name

theorem whole_state (h : s.Legible) : ∀ line ∈ state s, line.Whole := by
  have hround := h.round.whole_shown
  have hreason := h.reason.whole_shown
  simp only [state, List.forall_mem_append, List.forall_mem_cons]
  refine ⟨⟨⟨⟨⟨by simp, by simpa using hround, nofun⟩, whole_titled _ h.frontier⟩,
    whole_titled _ h.seen⟩, ?_⟩, by simp, nofun⟩
  split
  · simpa using hreason
  · nofun

/-! ## The history -/

lemma exists_record_toJson (h : r.Legible) :
    ∃ line, record r.toJson = .ok line ∧ line.Whole := by
  have hproduced : ∃ text, produced (.array (r.produced.map .string)) = .ok text ∧ text.Whole := by
    rw [produced]
    split
    · refine ⟨.join ", " r.produced, ?_, (whole_ofString ", ").join h.produced⟩
      simp only [Json.each, Json.elements?, bind, Except.bind, pure, Except.pure]
      rw [mapM_map_eq_ok]
      exact fun _ => rfl
    · exact ⟨_, rfl, whole_ofString _⟩
  obtain ⟨text, htext, hwhole⟩ := hproduced
  obtain ⟨n, hround⟩ := h.round
  have hrecord : record r.toJson =
      produced (.array (r.produced.map .string)) >>= fun produced =>
        .ok ("  Round " ++ r.round.shown ++ ": " ++ (Json.int r.pairs).shown ++ " pairs -> " ++
          produced ++ " [" ++ (Json.string r.verdict.word).shown ++ "]") := rfl
  rw [hrecord, htext, hround]
  refine ⟨_, rfl, ?_⟩
  simp [Json.shown, hwhole]

lemma records_toJson {rs : List RoundRecord} (h : ∀ r ∈ rs, r.Legible) :
    (records (rs.map RoundRecord.toJson)).2 = none ∧
      ∀ line ∈ (records (rs.map RoundRecord.toJson)).1, line.Whole := by
  induction rs with
  | nil => exact ⟨rfl, nofun⟩
  | cons r rs ih =>
      obtain ⟨hr, hrs⟩ := List.forall_mem_cons.1 h
      obtain ⟨line, hline, hwhole⟩ := exists_record_toJson hr
      obtain ⟨hnone, hlines⟩ := ih hrs
      rw [List.map_cons, records, hline]
      exact ⟨hnone, List.forall_mem_cons.2 ⟨hwhole, hlines⟩⟩

/-- **The history that rounds have written can be told.** -/
theorem history_of_reachable (h : s.Reachable es) (hes : ∀ e ∈ es, e.Legible) :
    (history s).2 = none ∧ ∀ line ∈ (history s).1, line.Whole := by
  obtain ⟨frontier, seen, g, rfl, hrecords⟩ := h.exists_logged_legible hes
  obtain ⟨hnone, hlines⟩ := records_toJson hrecords
  refine ⟨hnone, ?_⟩
  have hlines' : (history (.logged frontier seen g)).1 =
      ["\n" ++ rule, "Saturation history:", rule] ++
        (records (g.records.map RoundRecord.toJson)).1 := rfl
  rw [hlines', List.forall_mem_append]
  exact ⟨by simp, hlines⟩

end Report

/-! ## Notes -/

namespace Search

variable {m : Mode} {frontier seen : ClauseSet} {s : Search} {es : List Entry} {l : Limits}

lemma Legible.of_mem_pairs {g : Log} (h : (logged frontier seen g).Legible) {x y : Entry}
    (hxy : (x, y) ∈ Round.pairs frontier seen) : x.Legible ∧ y.Legible := by
  obtain ⟨hx, hy⟩ := Round.mem_pairs.1 hxy
  exact ⟨h.frontier x hx,
    hy.elim (fun hy => h.frontier y (ClauseSet.mem_above.1 hy).1) (h.seen y)⟩

/-- What a legible pair gives is named with characters. -/
lemma whole_name_of_mem_conclusions {x y e : Entry} (hx : x.Legible) (hy : y.Legible) {n : ℤ}
    (he : e.clause ∈ Round.conclusions m (x, y)) (hsource : e.source = .found (.int n)) :
    e.name.Whole := by
  have hnames : ∀ k ∈ e.clause, k.atom.name.Whole := by
    intro k hk
    obtain ⟨l, -, -, hr⟩ := Clause.mem_conclusions.1 he
    rw [← hr] at hk
    exact (Clause.mem_or_mem_of_mem_resolvent hk).elim (hx.names k) (hy.names k)
  have hlegible : e.Legible :=
    ⟨hnames, ⟨n, congrArg Provenance.step hsource⟩,
      "", congrArg Provenance.label hsource, whole_ofString ""⟩
  exact hlegible.whole_name

lemma notes_advance (m : Mode) (frontier seen : ClauseSet) (records : List RoundRecord)
    (reason : Text) :
    let g : Log := ⟨records, .going reason⟩
    let opening := Note.opening (.int (records.length + 1)) frontier.size seen.size
    ((logged frontier seen g).advance m).notes = match roundOf m frontier seen g with
      | .emptyGiven => [opening, .emptyGiven]
      | .emptyDerived _ x y => [opening, .emptyDerived x y]
      | .saturated _ => [opening, .saturated]
      | .fresh _ found =>
        opening :: ((found \ found.minimal).entries.map .covered ++
          found.minimal.entries.map .found) ++
          [.closing found.minimal.size (seen ∪ frontier).minimal.size] := by
  intro g opening
  have hgoes : (logged frontier seen g).isHalted = false := rfl
  have hnext : (logged frontier seen g).journal.nextRound? =
      some { g.journal with round := .int (records.length + 1) } := rfl
  rw [advance, if_neg (by rw [hgoes]; decide), hnext]
  dsimp only [logged]
  have hround : Round.run m (.found (.int (records.length + 1))) frontier seen =
      roundOf m frontier seen g := rfl
  rw [hround]
  cases roundOf m frontier seen g <;> rfl

/-- **What a round says can be printed.** -/
theorem whole_notes (h : Reachable es s) (hes : ∀ e ∈ es, e.Legible) (m : Mode) :
    ∀ note ∈ (s.advance m).notes, note.line.Whole := by
  have hlegible := h.legible hes
  obtain ⟨frontier, seen, ⟨records, status⟩, rfl, hstatus⟩ := h.exists_logged
  cases hhalted : status.halted with
  | true =>
      have hs : (logged frontier seen ⟨records, status⟩).isHalted = true := hhalted
      rw [advance_of_isHalted m hs]
      nofun
  | false =>
      obtain ⟨reason, rfl⟩ := Status.exists_going hhalted
      rw [notes_advance]
      have hout := Round.outcome_run m (.found (.int (records.length + 1))) frontier seen
      dsimp only [roundOf]
      generalize Round.run m (.found (.int (records.length + 1))) frontier seen = out at hout
      cases hout with
      | emptyGiven => simp [Note.line, Json.shown]
      | @emptyDerived before after x y _ hpairs =>
          have hxy : (x, y) ∈ Round.pairs frontier seen := by simp [hpairs]
          obtain ⟨hx, hy⟩ := hlegible.of_mem_pairs hxy
          have hx := hx.whole_name
          have hy := hy.whole_name
          simp_all [Note.line, Json.shown]
      | saturated => simp [Note.line, Json.shown]
      | @fresh found _ _ hfound _ hsource =>
          have hname : ∀ e ∈ found.entries, e.name.Whole := by
            intro e he
            obtain ⟨⟨x, y⟩, hxy, hconc, -⟩ :=
              (hfound e.clause).1 (ClauseSet.mem_of_mem_entries he)
            obtain ⟨hx, hy⟩ := hlegible.of_mem_pairs hxy
            exact whole_name_of_mem_conclusions hx hy hconc (hsource e he)
          simp only [List.cons_append, List.append_assoc, List.forall_mem_append,
            List.forall_mem_cons, List.forall_mem_map]
          refine ⟨by simp [Note.line, Json.shown], fun e he => ?_, fun e he => ?_,
            by simp [Note.line], nofun⟩
          · simpa [Note.line] using hname e (List.mem_of_mem_filter he)
          · simpa [Note.line] using hname e (ClauseSet.mem_entries_minimal.1 he).1

/-- **What a run passes on can be printed**, by induction on the rounds. -/
theorem whole_events (h : Reachable es s) (hes : ∀ e ∈ es, e.Legible)
    (htell : l.aloud = true → s.Tellable) (budget : ℕ) (patience : Option ℕ) :
    ∀ note, Event.note note ∈ (s.runFor m l budget patience).events → note.line.Whole := by
  induction budget generalizing s patience with
  | zero =>
      rcases ends_or_goesOn l 0 patience s with ⟨ending, t, hends⟩ | ⟨hleft, _⟩
      · rw [runFor_of_ends hends]
        nofun
      · cases hleft
  | succ budget ih =>
      rcases ends_or_goesOn l (budget + 1) patience s with ⟨ending, t, hends⟩ | ⟨_, hgoes⟩
      · rw [runFor_of_ends hends]
        nofun
      have hround : s.round l.aloud m = s.advance m :=
        round_eq_advance m fun haloud => htell haloud m 0 hgoes.goes
      have hfault : (s.round l.aloud m).fault? = none := by
        rw [hround]
        exact (step_advance m hgoes.goes h.invariant.continuable).2
      rw [runFor_of_goesOn hgoes hfault, hround]
      intro note hnote
      rcases List.mem_append.1 hnote with hnote | hnote
      · have hmem : note ∈ (s.advance m).notes := by simpa using hnote
        exact whole_notes h hes m note hmem
      · exact ih (h.next m) (fun haloud => (htell haloud).iterate h m 1) _ note hnote

end Search

end Saturation
