import Mathlib.Logic.Function.Basic
import Saturation.CommandLine.Session
import Saturation.Proofs.Stages
import Saturation.Proofs.Telling

/-!
# What a session leaves

A session that ends well leaves two things: the saved search in its file, and the decision as the
last line that is printed (`Session.Leaves`).  Both are of one search, and what came before does not
matter: earlier lines are not the last one, and what is written over is gone.  So the checkpoints of
a run may be left out of account, and `leaves_session` says of a session just what its run says:
from a search that rounds lead to it leaves the search as many rounds on as it is allowed.
-/

namespace Saturation

open Search

namespace CommandLine

/-! ## Files -/

/-- The texts of the files, by name. -/
abbrev Files := String → Option String

namespace Files

/-- The text of a source, if there is such a file; nothing is put in. -/
def textOf (files : Files) (source : Source) : Except Fault String :=
  match source.file? with
  | none => .ok ""
  | some file => match files file with
    | some text => .ok text
    | none => .error (.file .missing file)

/-- The files after one act. -/
def perform (files : Files) : Act → Files
  | .write file text => Function.update files file (some text)
  | _ => files

/-- The files after a session. -/
def after (files : Files) (s : Session) : Files := s.acts.foldl perform files

end Files

/-- The lines that are printed. -/
def Session.lines (s : Session) : List Text :=
  s.acts.filterMap fun
    | .print line => some line
    | _ => none

/-! ## Leaving a search -/

/-- The session ends well, with the search in the file and its decision as the last line.  All lines
can be printed, and no other file is changed. -/
structure Session.Leaves (save : String) (t : Search) (s : Session) : Prop where
  close : s.close = .exit 0
  files : ∀ files : Files, files.after s = Function.update files save (some t.save)
  last : s.lines.getLast? = some ↑t.verdict.decision
  whole : ∀ line ∈ s.lines, line.Whole

/-- The act prints a line of characters or writes the file. -/
def Act.Within (save : String) : Act → Prop
  | .print line => line.Whole
  | .complain _ => True
  | .write file _ => file = save

variable {o : Options} {save : String} {s t : Search} {session rest : Session} {acts : List Act}
  {es : List Entry} {patience : Option ℕ} {n : ℕ}

lemma Session.lines_after (acts : List Act) (session : Session) :
    (session.after acts).lines = Session.lines ⟨acts, session.close⟩ ++ session.lines :=
  List.filterMap_append

lemma Session.mem_lines {line : Text} : line ∈ session.lines ↔ .print line ∈ session.acts := by
  rw [lines, List.mem_filterMap]
  constructor
  · rintro ⟨act, hact, hline⟩
    cases act with
    | print line' =>
        obtain rfl := Option.some.inj hline
        exact hact
    | _ => cases hline
  · exact fun h => ⟨_, h, rfl⟩

namespace Session.Leaves

/-- What a session does first is not seen in the end. -/
lemma after (h : session.Leaves save t) (hacts : ∀ act ∈ acts, act.Within save) :
    (session.after acts).Leaves save t where
  close := h.close
  files := by
    intro files
    induction acts generalizing files with
    | nil => exact h.files files
    | cons act acts ih =>
        obtain ⟨hact, hacts⟩ := List.forall_mem_cons.1 hacts
        have hrest : (files.perform act).after (session.after acts) = _ := ih hacts _
        refine hrest.trans ?_
        cases act with
        | write file text =>
            obtain rfl : file = save := hact
            exact Function.update_idem _ _ _
        | _ => rfl
  last := by
    rw [Session.lines_after, List.getLast?_append, h.last]
    rfl
  whole := by
    intro line hline
    rcases List.mem_append.1 (Session.mem_lines.1 hline) with hline | hline
    · exact hacts _ hline
    · exact h.whole line (Session.mem_lines.2 hline)

lemma after_tell (h : session.Leaves save t) {lines : List Text}
    (hlines : ∀ line ∈ lines, line.Whole) : (session.after (o.tell lines)).Leaves save t := by
  refine h.after fun act hact => ?_
  rw [Options.tell] at hact
  split at hact
  · cases hact
  · obtain ⟨line, hline, rfl⟩ := List.mem_map.1 hact
    exact hlines line hline

lemma keep (h : rest.Leaves save t) (hsave : named? o.save = some save)
    (hs : s.saveFault? = none) : (o.keep s rest).Leaves save t := by
  rw [Options.keep, hsave]
  simp only [hs]
  exact h.after (List.forall_mem_singleton.2 rfl)

lemma follow {events : List Event} (h : rest.Leaves save t) (hsave : named? o.save = some save)
    (hnotes : ∀ n, Event.note n ∈ events → n.line.Whole)
    (hcheckpoints : ∀ s, Event.checkpoint s ∈ events → s.saveFault? = none) :
    (o.follow events rest).Leaves save t := by
  induction events with
  | nil => exact h
  | cons event events ih =>
      have hrest : (o.follow events rest).Leaves save t :=
        ih (fun n hn => hnotes n (List.mem_cons_of_mem event hn))
          fun s hs => hcheckpoints s (List.mem_cons_of_mem event hs)
      cases event with
      | note n =>
          exact hrest.after_tell (List.forall_mem_singleton.2 (hnotes n List.mem_cons_self))
      | checkpoint s => exact hrest.keep hsave (hcheckpoints s List.mem_cons_self)

end Session.Leaves

/-! ## The course of a session -/

/-- Once the run is over, a search that can be saved is left. -/
lemma leaves_conclude (hsave : named? o.save = some save) (hs : s.saveFault? = none)
    (h : Reachable es s) (hes : ∀ e ∈ es, e.Legible) : (o.conclude s).Leaves save s := by
  have hdecision : (o.keep s
      ⟨o.tell [↑("State saved to " ++ save)] ++ [.print s.verdict.decision], .exit 0⟩).Leaves
        save s := by
    rw [Options.keep, hsave, Options.tell]
    simp only [hs]
    split
    · exact ⟨rfl, fun _ => rfl, rfl, by simp [Session.lines, Session.after]⟩
    · exact ⟨rfl, fun _ => rfl, rfl, by simp [Session.lines, Session.after]⟩
  obtain ⟨hhistory, hlines⟩ := Report.history_of_reachable h hes
  rw [Options.conclude]
  simp only [hsave]
  split
  · next fault _ hfault => cases hhistory.symm.trans hfault
  · exact hdecision.after_tell
      (List.forall_mem_append.2 ⟨Report.whole_state (h.legible hes), hlines⟩)

/-- A run that nothing stops comes as far as its limits allow, and hands over only searches that
rounds lead to and notes that can be printed. -/
lemma run_allowed {l : Limits} (h : Reachable es s) (hes : ∀ e ∈ es, e.Legible) (m : Mode)
    (hstop : ∀ t, l.stop t = .ok false) (htell : l.aloud = true → s.Tellable) (hn : l.Allow n) :
    (s.run m l).search = (next m)^[n] s ∧ (∀ fault, (s.run m l).ending ≠ .failed fault) ∧
      (∀ note, Event.note note ∈ (s.run m l).events → note.line.Whole) ∧
      ∀ t, Event.checkpoint t ∈ (s.run m l).events → Reachable es t := by
  have hj := h.invariant.continuable
  have hnotes := whole_events (m := m) h hes htell (l.budget s) l.patience
  obtain ⟨k, hcourse⟩ := exists_course m l (l.budget s) l.patience hj (Tellable.aloud htell m)
  rw [← run_eq_runFor m s hn.cap] at hcourse hnotes
  obtain ⟨hsearch, hending⟩ := hcourse.search_eq hj hstop hn
  refine ⟨hsearch, hending, hnotes, fun t ht => ?_⟩
  have hcheckpoint : t ∈ (s.run m l).checkpoints := List.mem_filterMap.2 ⟨_, ht, rfl⟩
  rw [hcourse.checkpoints] at hcheckpoint
  obtain ⟨i, -, rfl⟩ := List.mem_iterate.1 hcheckpoint
  exact (h.next m).iterate m i

/-- **A session that may save leaves the search as many rounds on as its run is allowed.** -/
theorem leaves_session {text : String} (hsource : o.source.search text = .ok s)
    (h : Reachable es s) (hes : ∀ e ∈ es, e.Legible)
    (hsaved : ∀ t, Reachable es t → t.saveFault? = none) (hsave : named? o.save = some save)
    (hn : (o.limits patience).Allow n) (m : Mode) :
    (o.session patience text).Leaves save ((next m)^[n] s) := by
  obtain ⟨hsearch, hending, hnotes, hcheckpoints⟩ :=
    run_allowed h hes (if o.strict then .strict else .permissive) (fun _ => rfl)
      (fun _ => tellable_of_saved h hsaved) hn
  rw [h.iterate_eq _ m] at hsearch
  have hend : Reachable es ((next m)^[n] s) := h.iterate m n
  have hconclude := leaves_conclude hsave (hsaved _ hend) hend hes
  have hlegible := h.legible hes
  have hproceed : (o.proceed patience s).Leaves save ((next m)^[n] s) := by
    rw [Options.proceed]
    rw [hsearch]
    refine Session.Leaves.after_tell (Session.Leaves.follow ?_ hsave hnotes fun t ht =>
      hsaved t (hcheckpoints t ht)) (Report.whole_state hlegible)
    split
    · next fault hfault => exact absurd hfault (hending fault)
    · exact hconclude.after (List.forall_mem_singleton.2 (Text.whole_ofString _))
    · exact hconclude
  rw [Options.session, hsource]
  dsimp only
  rw [Options.greeting]
  split
  · refine hproceed.after_tell (List.forall_mem_singleton.2 ?_)
    simpa using hlegible.round.whole_shown
  · exact hproceed

end CommandLine

end Saturation
