import Saturation.Proofs.Arrangement
import Saturation.Proofs.Driving
import Saturation.Proofs.Unordered

/-!
# The history is a faithful log

Every round that is taken writes one record, from one of four places.  Each says what the round
began with and what came of it (`RoundRecord.Tells`), and the sizes that it leaves are the ones that
the next round begins with.  So the records of a search tell of the row of searches that rounds lead
to, one record for each round (`Chronicle`), and the answer is the verdict of the last one
(`Faithful`).  A history is the list of no other records than these (`RoundRecord.history_inj`), so
what is said of them is said of every field that the history shows.

None of this depends on how the rounds came about.  A schedule may run some of them, stop, ask, put
the search down and take it up again (`Scheduled`); the searches that it leads to are on the way to
the answer (`Scheduled.onTheWay`), and a stop only changes what the records do not say.
-/

namespace Saturation

open ClauseSet

/-! ## Records -/

/-- The answer that goes with a verdict. -/
def Verdict.answer : Verdict → Json
  | undecided => .null
  | satisfiable => .bool true
  | unsatisfiable => .bool false

/-- The record is true of a round over the clauses of a list that begins with `f` clauses in the
frontier and `s` seen ones and leaves the given frontier.  One that goes on has tried every pair and
names the frontier that it leaves; one that ends the search leaves the sets as they are. -/
inductive RoundRecord.Tells (es : List Entry) (f s : ℕ) (left : ClauseSet) (r : RoundRecord) : Prop
  | goesOn (hverdict : r.verdict = .undecided) (hpairs : r.pairs = f * (f - 1) / 2 + f * s)
      (hproduced : r.produced = left.names) (hsome : r.produced ≠ [])
      (hfrontier : r.frontierSize = r.produced.length) : Tells es f s left r
  | saturates (hverdict : r.verdict = .satisfiable)
      (hpairs : r.pairs = f * (f - 1) / 2 + f * s) (hproduced : r.produced = [])
      (hfrontier : r.frontierSize = f) (hseen : r.seenSize = s) : Tells es f s left r
  /-- The empty clause was given, and the first round finds it. -/
  | refutesGiven (hverdict : r.verdict = .unsatisfiable) (hround : r.round = .int 1)
      (hgiven : ∃ e ∈ es, e.clause = ∅) (hpairs : r.pairs = 0) (hproduced : r.produced = [])
      (hfrontier : r.frontierSize = f) (hseen : r.seenSize = s) : Tells es f s left r
  /-- The last of the pairs tried gave the empty clause. -/
  | refutes (hverdict : r.verdict = .unsatisfiable) (hsome : 1 ≤ r.pairs)
      (hpairs : r.pairs ≤ f * (f - 1) / 2 + f * s) (hproduced : r.produced = ["[]"])
      (hfrontier : r.frontierSize = f) (hseen : r.seenSize = s) : Tells es f s left r

lemma Round.length_pairs_eq (frontier seen : ClauseSet) : (pairs frontier seen).length =
    frontier.size * (frontier.size - 1) / 2 + frontier.size * seen.size := by
  rw [length_pairs, Nat.choose_two_right]

namespace Search

variable {m : Mode} {s t : Search} {es : List Entry} {n : ℕ} {l : Limits}
  {records : List RoundRecord} {r : RoundRecord} {frontier seen : ClauseSet}

/-! ## One round -/

/-- A search that goes on can only have the empty clause from the start. -/
lemma ReachableIn.eq_zero_of_empty_mem (h : ReachableIn es n s) (hs : s.isHalted = false)
    (hempty : ∅ ∈ s.frontier) : n = 0 := by
  cases h with
  | start => rfl
  | ends _ _ hends => cases hs.symm.trans hends
  | @goesOn n s m h hgoes =>
      have hstep := step_next m (isHalted_of_next hgoes) h.reachable.invariant.continuable
      exact absurd (mem_known.2 (.inr hempty)) (hstep.empty_not_mem_known hgoes).2

/-- **A round writes a record that tells of it.** -/
lemma exists_record (m : Mode)
    (h : ReachableIn es records.length (logged frontier seen ⟨records, .going ""⟩)) :
    ∃ frontier' seen' r status,
      (logged frontier seen ⟨records, .going ""⟩).next m =
        logged frontier' seen' ⟨records ++ [r], status⟩ ∧
      r.round = .int (records.length + 1) ∧
      r.frontierSize = frontier'.size ∧ r.seenSize = seen'.size ∧
      r.Tells es frontier.size seen.size frontier' ∧ status.answer = r.verdict.answer ∧
      (status = .going "" ∨ status.halted = true) := by
  rw [next_logged rfl]
  have hout := Round.outcome_run m (.found (.int (records.length + 1))) frontier seen
  have hround : Round.run m (.found (.int (records.length + 1))) frontier seen =
      roundOf m frontier seen ⟨records, .going ""⟩ := rfl
  rw [hround] at hout
  generalize roundOf m frontier seen ⟨records, .going ""⟩ = out at hout
  cases hout with
  | emptyGiven hgiven =>
      have hfirst : records.length = 0 := h.eq_zero_of_empty_mem rfl hgiven
      have hempty := (h.arranged.of_empty_mem_frontier hgiven).1
      refine ⟨_, _, _, _, rfl, rfl, rfl, rfl, .refutesGiven rfl ?_ hempty rfl rfl rfl rfl, rfl,
        .inr rfl⟩
      rw [hfirst]
      rfl
  | @emptyDerived before after x y _ hpairs =>
      refine ⟨_, _, _, _, rfl, rfl, rfl, rfl, .refutes rfl ?_ ?_ rfl rfl rfl, rfl, .inr rfl⟩
      · exact Nat.le_add_left 1 before.length
      · rw [← Round.length_pairs_eq, hpairs, List.length_append, List.length_cons]
        exact Nat.add_le_add_left (Nat.le_add_left 1 after.length) before.length
  | saturated =>
      exact ⟨_, _, _, _, rfl, rfl, rfl, rfl,
        .saturates rfl (Round.length_pairs_eq frontier seen) rfl rfl rfl, rfl, .inr rfl⟩
  | @fresh found _ _ _ hsome =>
      have hnames : found.minimal.names ≠ [] := by
        obtain ⟨c, hc⟩ := hsome
        obtain ⟨d, hd, -⟩ := exists_minimal_subset hc
        obtain ⟨e, he, -⟩ := mem_iff.1 hd
        exact List.ne_nil_of_mem (List.mem_map_of_mem he)
      have hlength : found.minimal.size = found.minimal.names.length :=
        (List.length_map Entry.name).symm
      exact ⟨_, _, _, _, rfl, rfl, rfl, rfl,
        .goesOn rfl (Round.length_pairs_eq frontier seen) rfl hnames hlength, rfl, .inl rfl⟩

/-! ## Many rounds -/

lemma getElem?_concat_iff {α : Type} {l : List α} {a b : α} {i : ℕ} :
    (l ++ [a])[i]? = some b ↔ l[i]? = some b ∨ i = l.length ∧ a = b := by
  rcases Nat.lt_trichotomy i l.length with hi | rfl | hi
  · rw [List.getElem?_append_left hi]
    simp [hi.ne]
  · rw [List.getElem?_concat_length, List.getElem?_eq_none le_rfl]
    simp
  · rw [List.getElem?_eq_none (by simpa using Nat.succ_le_of_lt hi), List.getElem?_eq_none hi.le]
    simp [hi.ne']

/-- The records are true of the rounds of the row, one after the other, and all but the last are of
rounds that went on. -/
structure Chronicle (m : Mode) (es : List Entry) (records : List RoundRecord) : Prop where
  numbered : ∀ (i : ℕ) (r : RoundRecord), records[i]? = some r → r.round = .int (i + 1)
  goesOn : ∀ (i : ℕ) (r : RoundRecord), records[i]? = some r → i + 1 < records.length →
    r.verdict = .undecided
  tells : ∀ (i : ℕ) (r : RoundRecord), records[i]? = some r →
    r.Tells es ((next m)^[i] (start es)).frontier.size ((next m)^[i] (start es)).seen.size
      ((next m)^[i + 1] (start es)).frontier
  sizes : ∀ (i : ℕ) (r : RoundRecord), records[i]? = some r →
    r.frontierSize = ((next m)^[i + 1] (start es)).frontier.size ∧
      r.seenSize = ((next m)^[i + 1] (start es)).seen.size

/-- The verdict of the last record; without one nothing is decided. -/
def lastVerdict (records : List RoundRecord) : Verdict :=
  records.getLast?.elim .undecided RoundRecord.verdict

lemma chronicle_nil (m : Mode) (es : List Entry) : Chronicle m es [] :=
  ⟨nofun, nofun, nofun, nofun⟩

/-- One record more, of the next round, if the search has gone on until then. -/
lemma Chronicle.concat (h : Chronicle m es records) (hopen : lastVerdict records = .undecided)
    (hround : r.round = .int (records.length + 1))
    (htells : r.Tells es ((next m)^[records.length] (start es)).frontier.size
      ((next m)^[records.length] (start es)).seen.size
      ((next m)^[records.length + 1] (start es)).frontier)
    (hsizes : r.frontierSize = ((next m)^[records.length + 1] (start es)).frontier.size ∧
      r.seenSize = ((next m)^[records.length + 1] (start es)).seen.size) :
    Chronicle m es (records ++ [r]) where
  numbered := by
    intro i q hq
    rcases getElem?_concat_iff.1 hq with hq | ⟨rfl, rfl⟩
    · exact h.numbered i q hq
    · exact hround
  goesOn := by
    intro i q hq hi
    rw [List.length_append, List.length_singleton] at hi
    rcases getElem?_concat_iff.1 hq with hq | ⟨rfl, rfl⟩
    · rcases Nat.eq_or_lt_of_le (Nat.le_of_lt_succ hi) with hlast | hbefore
      · rw [lastVerdict, List.getLast?_eq_getElem?, ← hlast, Nat.add_sub_cancel, hq] at hopen
        exact hopen
      · exact h.goesOn i q hq hbefore
    · exact absurd hi (Nat.lt_irrefl _)
  tells := by
    intro i q hq
    rcases getElem?_concat_iff.1 hq with hq | ⟨rfl, rfl⟩
    · exact h.tells i q hq
    · exact htells
  sizes := by
    intro i q hq
    rcases getElem?_concat_iff.1 hq with hq | ⟨rfl, rfl⟩
    · exact h.sizes i q hq
    · exact hsizes

lemma Verdict.eq_undecided_of_answer {v : Verdict} (h : v.answer = .null) : v = .undecided := by
  cases v with
  | undecided => rfl
  | satisfiable => cases h
  | unsatisfiable => cases h

lemma lastVerdict_concat (records : List RoundRecord) (r : RoundRecord) :
    lastVerdict (records ++ [r]) = r.verdict := by
  rw [lastVerdict, List.getLast?_concat]
  rfl

/-- The search has come of rounds, and its records are a chronicle of them. -/
structure Recorded (m : Mode) (es : List Entry) (s : Search) (records : List RoundRecord)
    (status : Status) : Prop where
  eq_logged : ∃ frontier seen, s = logged frontier seen ⟨records, status⟩
  row : s = (next m)^[records.length] (start es)
  chronicle : Chronicle m es records
  answer : status.answer = (lastVerdict records).answer
  going : status.halted = false → status = .going "" ∧ ReachableIn es records.length s

lemma recorded_start (m : Mode) (es : List Entry) : Recorded m es (start es) [] (.going "") where
  eq_logged := ⟨_, _, rfl⟩
  row := rfl
  chronicle := chronicle_nil m es
  answer := rfl
  going := fun _ => ⟨rfl, .start⟩

/-- The next round adds its record. -/
lemma Recorded.next {status : Status} (h : Recorded m es s records status)
    (hs : s.isHalted = false) (m' : Mode) :
    ∃ r status', Recorded m es (s.next m') (records ++ [r]) status' := by
  obtain ⟨⟨frontier, seen, rfl⟩, hrow, hchronicle, hanswer, hgoing⟩ := h
  obtain ⟨rfl, hin⟩ := hgoing hs
  obtain ⟨frontier', seen', r, status', hnext, hround, hfrontier, hseen, htells, hanswer',
    hstatus'⟩ := exists_record m' hin
  have hlength : (records ++ [r]).length = records.length + 1 := List.length_append
  have hrow' : (logged frontier seen ⟨records, .going ""⟩).next m' =
      (Search.next m)^[records.length + 1] (start es) := by
    rw [Function.iterate_succ_apply', ← hrow]
    exact next_eq m' m hin.reachable.invariant.nonempty
  have hopen : lastVerdict records = .undecided := Verdict.eq_undecided_of_answer hanswer.symm
  refine ⟨r, status', ⟨frontier', seen', hnext⟩, ?_, hchronicle.concat hopen hround ?_ ?_, ?_,
    fun hgoes => ⟨?_, ?_⟩⟩
  · rw [hlength]
    exact hrow'
  · rw [← hrow, ← hrow', hnext]
    exact htells
  · rw [← hrow', hnext]
    exact ⟨hfrontier, hseen⟩
  · rw [lastVerdict_concat]
    exact hanswer'
  · exact hstatus'.resolve_right (by rw [hgoes]; decide)
  · rw [hlength]
    refine .goesOn m' hin ?_
    rw [hnext]
    exact hgoes

/-- **Every reachable search has a chronicle**, by induction on the rounds. -/
lemma Reachable.exists_recorded (m : Mode) (h : Reachable es s) :
    ∃ records status, Recorded m es s records status := by
  induction h with
  | start => exact ⟨_, _, recorded_start m es⟩
  | @next s m' _ ih =>
      cases hs : s.isHalted with
      | true =>
          rw [next_of_isHalted m' hs]
          exact ih
      | false =>
          obtain ⟨records, status, hrecorded⟩ := ih
          obtain ⟨r, status', hrecorded'⟩ := hrecorded.next hs m'
          exact ⟨_, _, hrecorded'⟩

/-! ## Told or not -/

/-- **Telling the rounds changes nothing** of what a run leaves, unless it fails for a number that
cannot be told. -/
lemma search_runFor_silent {budget : ℕ} {patience : Option ℕ}
    (h : (s.runFor m l budget patience).ending ≠ .failed .longInteger) :
    (s.runFor m { l with aloud := false } budget patience).search =
      (s.runFor m l budget patience).search := by
  induction budget generalizing s patience with
  | zero => rfl
  | succ budget ih =>
      rcases ends_or_goesOn l (budget + 1) patience s with ⟨ending, t, hends⟩ | ⟨-, hgoes⟩
      · have hends' : Ends { l with aloud := false } (budget + 1) patience 0 s ending t :=
          hends.of_stop_eq rfl
        rw [runFor_of_ends hends, runFor_of_ends hends']
      · have hgoes' : GoesOn { l with aloud := false } patience 0 s :=
          ⟨hgoes.goes, hgoes.stop, hgoes.patience⟩
        have hround : s.round l.aloud m = s.round false m :=
          round_eq_advance_of_fault? fun _ hfault => h (by rw [runFor_of_fault hgoes hfault])
        cases hfault : (s.round false m).fault? with
        | some fault =>
            rw [runFor_of_fault hgoes' hfault, runFor_of_fault hgoes (hround ▸ hfault), hround]
        | none =>
            rw [runFor_of_goesOn hgoes (hround ▸ hfault), hround] at h ⊢
            rw [runFor_of_goesOn hgoes' hfault]
            exact ih h

lemma search_run_silent (h : l.aloud = true → (s.run m l).ending ≠ .failed .longInteger) :
    (s.run m { l with aloud := false }).search = (s.run m l).search := by
  cases haloud : l.aloud with
  | false => rw [← haloud]
  | true =>
      have h := h haloud
      by_cases hcap : l.cap = .meaningless
      · rw [run, run, hcap]
      · rw [run_eq_runFor m s hcap] at h ⊢
        rw [run_eq_runFor (l := { l with aloud := false }) m s hcap]
        exact search_runFor_silent h

lemma search_ask_silent {d : Decider} {aloud : Bool}
    (h : aloud = true → (d.ask aloud).ending ≠ .failed .longInteger) :
    (d.ask false).search = (d.ask aloud).search := by
  rw [Decider.ask] at h
  rw [Decider.ask, Decider.ask]
  split
  · next hs =>
    rw [hs] at h
    exact search_run_silent (l := { aloud }) h
  · rfl

/-! ## Schedules -/

/-- The searches that come of the clauses of a list by rounds, runs within any limits, stops,
questions and reloads, in any order and each in any mode.  A told round whose number is too long
breaks off in the middle; it is not a round, and leads nowhere. -/
inductive Scheduled (es : List Entry) : Search → Prop
  | start : Scheduled es (.start es)
  | round {s : Search} (m : Mode) (aloud : Bool) (h : Scheduled es s)
      (htold : aloud = true → (s.round aloud m).fault? ≠ some .longInteger) :
      Scheduled es (s.round aloud m).search
  | run {s : Search} (m : Mode) (l : Limits) (h : Scheduled es s)
      (htold : l.aloud = true → (s.run m l).ending ≠ .failed .longInteger) :
      Scheduled es (s.run m l).search
  /-- A question takes a stop back. -/
  | ask {s : Search} (m : Mode) (aloud : Bool) (h : Scheduled es s)
      (htold : aloud = true → (Decider.ask ⟨s, m⟩ aloud).ending ≠ .failed .longInteger) :
      Scheduled es (Decider.ask ⟨s, m⟩ aloud).search
  | reload {s t : Search} (h : Scheduled es s) (hload : s.reload = .ok t) : Scheduled es t
  /-- From any text that reads as the document of the search. -/
  | load {s t : Search} (text : String) (h : Scheduled es s)
      (hread : Json.read (Text.unifyBreaks text) = .ok s.toJson) (hload : load text = .ok t) :
      Scheduled es t

lemma OnTheWay.next (h : OnTheWay es s) (m : Mode) : OnTheWay es (s.next m) := by
  cases h with
  | reachable h => exact .reachable (h.next m)
  | halt h hgoes =>
      rw [next_of_isHalted m rfl]
      exact .halt h hgoes

/-- **A schedule never leaves the way.** -/
lemma Scheduled.onTheWay (h : Scheduled es s) : OnTheWay es s := by
  induction h with
  | start => exact .reachable .start
  | @round s m aloud _ htold ih =>
      rw [round_eq_advance_of_fault? htold]
      exact ih.next m
  | @run s m l _ htold ih =>
      rw [← search_run_silent htold]
      exact ih.run m _ nofun
  | @ask s m aloud _ htold ih =>
      rw [← search_ask_silent htold]
      exact .reachable (Decider.ask_of_onTheWay (d := ⟨s, m⟩) ih false nofun).2.reachable
  | @reload s t _ hload ih =>
      cases (reload_eq s).symm.trans hload
      exact ih
  | @load s t text _ hread hload ih =>
      cases (load_eq hread).symm.trans hload
      exact ih

/-! ## The log -/

/-- The records of a search are a chronicle, the answer is their last verdict, and the two sets are
the ones that the last of these rounds has left. -/
structure Faithful (m : Mode) (es : List Entry) (s : Search) (records : List RoundRecord) :
    Prop where
  history : s.journal.history = .array (records.map RoundRecord.toJson)
  round : s.journal.round = .int records.length
  answer : s.journal.answer = (lastVerdict records).answer
  chronicle : Chronicle m es records
  frontier : s.frontier = ((next m)^[records.length] (start es)).frontier
  seen : s.seen = ((next m)^[records.length] (start es)).seen

lemma Recorded.faithful {status : Status} (h : Recorded m es s records status) :
    Faithful m es s records := by
  obtain ⟨⟨frontier, seen, hlogged⟩, hrow, hchronicle, hanswer, -⟩ := h
  refine ⟨?_, ?_, ?_, hchronicle, congrArg _ hrow, congrArg _ hrow⟩
  · rw [hlogged]
    rfl
  · rw [hlogged]
    rfl
  · rw [hlogged]
    exact hanswer

lemma OnTheWay.exists_faithful (m : Mode) (h : OnTheWay es s) :
    ∃ records, Faithful m es s records := by
  cases h with
  | reachable h =>
      obtain ⟨records, _, hrecorded⟩ := h.exists_recorded m
      exact ⟨records, hrecorded.faithful⟩
  | halt h _ =>
      obtain ⟨records, _, hrecorded⟩ := h.exists_recorded m
      obtain ⟨hhistory, hround, hanswer, hchronicle, hfrontier, hseen⟩ := hrecorded.faithful
      -- a stop writes neither a record nor an answer
      exact ⟨records, hhistory, hround, hanswer, hchronicle, hfrontier, hseen⟩

/-- **The history is a faithful log.**  Whatever the schedule, the search has one record for each
round, the records are true of the rounds, and the answer is the last verdict.  The first record
tells of a round that began with the first frontier and nothing seen, and each later one of a round
that began with the sizes of the record before. -/
theorem history_faithful (m : Mode) (h : Scheduled es s) :
    ∃ records, Faithful m es s records ∧
      (∀ r, records[0]? = some r →
        r.Tells es (start es).frontier.size 0 ((next m)^[1] (start es)).frontier) ∧
      ∀ i q r, records[i]? = some q → records[i + 1]? = some r →
        r.Tells es q.frontierSize q.seenSize ((next m)^[i + 2] (start es)).frontier := by
  obtain ⟨records, hfaithful⟩ := h.onTheWay.exists_faithful m
  have htells := hfaithful.chronicle.tells
  refine ⟨records, hfaithful, fun r hr => htells 0 r hr, fun i q r hq hr => ?_⟩
  obtain ⟨hfrontier, hseen⟩ := hfaithful.chronicle.sizes i q hq
  rw [hfrontier, hseen]
  exact htells (i + 1) r hr

/-- What comes of a list of clauses by a round that is told, a stop, and a question that takes the
stop back. -/
def stoppedAndAsked (es : List Entry) : Search :=
  let stopped := (((start es).round true .permissive).search.run .strict
    { stop := fun _ => .ok true }).search
  (Decider.ask ⟨stopped, .strict⟩ false).search

/-- Two records, one from before the stop and one from after it; in between and at the end the
search is put down and taken up again. -/
theorem history_faithful_modusPonens :
    Scheduled Sample.modusPonens.entries (stoppedAndAsked Sample.modusPonens.entries) ∧
      ∃ q r,
        Faithful .permissive Sample.modusPonens.entries
          (stoppedAndAsked Sample.modusPonens.entries) [q, r] ∧
        r.Tells Sample.modusPonens.entries q.frontierSize q.seenSize
          ((next .permissive)^[2] (start Sample.modusPonens.entries)).frontier := by
  have htell : (start Sample.modusPonens.entries).canTell = true := by decide +kernel
  have htold : ((start Sample.modusPonens.entries).round true .permissive).fault? ≠
      some .longInteger := by
    rw [round_eq_advance .permissive fun _ => htell,
      (step_advance .permissive rfl (continuable_start _)).2]
    nofun
  have hround : Scheduled Sample.modusPonens.entries
      ((start Sample.modusPonens.entries).round true .permissive).search :=
    Scheduled.start.round .permissive true fun _ => htold
  have hs : Scheduled Sample.modusPonens.entries (stoppedAndAsked Sample.modusPonens.entries) :=
    (((hround.run .strict { stop := fun _ => .ok true } nofun).reload (reload_eq _)).ask
      .strict false nofun).reload (reload_eq _)
  obtain ⟨records, hfaithful, -, hlater⟩ := history_faithful .permissive hs
  have htwo : (stoppedAndAsked Sample.modusPonens.entries).journal.history.length? = some 2 := by
    decide +kernel
  have hlength : records.length = 2 := by
    rw [hfaithful.history] at htwo
    simpa [Json.length?] using htwo
  obtain ⟨q, r, rfl⟩ := List.length_eq_two.1 hlength
  exact ⟨hs, q, r, hfaithful, hlater 0 q r rfl rfl⟩

end Search

end Saturation
