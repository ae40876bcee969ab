import Mathlib.Algebra.GroupWithZero.Nat
import Saturation.Proofs.Course
import Saturation.Proofs.Legible

/-!
# A search in parts

A search need not be run at once.  It can be given a few rounds at a time, in whatever mode, and be
put down and taken up again in between, as a document or as the text of one.  None of this shows in
the end: only the number of rounds that were allowed counts (`carryOn_eq_iterate`).  Each part
advances along the same row of searches, because a run has a course, the mode makes no difference,
and what is taken up is what was put down.

If a file is kept for a run, the search can be taken up from it later: its text is that of the
search after the last round (`Course.keep_eq`).  Texts are only known to give their searches back
where these can be restored (`Restorable`), and that follows if the given entries are legible and
what is to be saved can be saved in full.

A cap and an interruption allow a run the same thing, a number of rounds (`Limits.Allow`), and if
nothing stops the search that is how far the run comes (`Course.search_eq`).  With a stop condition
a single run may end in three ways, and the order in which they are looked for matters to what is
left behind.  `EndsBy` puts them in terms of the limits alone.
-/

namespace Saturation

/-- The cap allows no more than so many rounds. -/
def Cap.Reached (c : Cap) (n : ℕ) : Prop :=
  match c with
  | .rounds k => k ≤ n
  | _ => False

instance (c : Cap) (n : ℕ) : Decidable (c.Reached n) :=
  match c with
  | .rounds k => inferInstanceAs (Decidable (k ≤ n))
  | .uncapped => .isFalse id
  | .meaningless => .isFalse id

/-- The limits allow so many rounds: after them, and not before, the cap is reached or patience has
run out. -/
structure Limits.Allow (l : Limits) (n : ℕ) : Prop where
  cap : l.cap ≠ .meaningless
  before : ∀ i < n, ¬ l.cap.Reached i ∧ l.patience ≠ some i
  after : l.cap.Reached n ∨ l.patience = some n

lemma Cap.allow_rounds (k : ℤ) {aloud : Bool} :
    Limits.Allow { cap := .rounds k, aloud } k.toNat where
  cap := nofun
  before := by
    intro i hi
    have hreached : ¬ k ≤ i := by omega
    exact ⟨hreached, nofun⟩
  after := .inl (Int.self_le_toNat k)

/-- A way to carry a search on for a while. -/
inductive Stage
  | run (m : Mode) (rounds : ℤ) (aloud : Bool)
  /-- It is put down as a document and taken up again. -/
  | reload
  /-- It is saved, and loaded from the text. -/
  | restore

namespace Stage

/-- How many rounds the stage allows: none if the number is not positive. -/
def rounds : Stage → ℕ
  | run _ k _ => k.toNat
  | reload => 0
  | restore => 0

def isAloud : Stage → Bool
  | run _ _ aloud => aloud
  | reload => false
  | restore => false

/-- The search after the stage, or the fault that stopped it. -/
def carryOut (s : Search) : Stage → Except Fault Search
  | run m k aloud =>
    let r := s.run m { cap := .rounds k, aloud }
    match r.ending with
    | .failed fault => .error fault
    | _ => .ok r.search
  | reload => s.reload
  | restore =>
    match s.saveFault? with
    | some fault => .error fault
    | none => Search.load s.save

end Stage

namespace Search

variable {m : Mode} {s : Search} {es : List Entry} {l : Limits}

/-- The search after stages one after the other. -/
def carryOn (s : Search) (stages : List Stage) : Except Fault Search :=
  stages.foldlM Stage.carryOut s

/-! ## One run -/

lemma run_eq_runFor (m : Mode) (s : Search) (hcap : l.cap ≠ .meaningless) :
    s.run m l = s.runFor m l (l.budget s) l.patience := by
  rw [run]
  split
  · next h => exact absurd h hcap
  · rfl

lemma Tellable.aloud (h : l.aloud = true → s.Tellable) (m : Mode) : l.aloud = true →
    ∀ i, ((Search.next m)^[i] s).isHalted = false → ((Search.next m)^[i] s).canTell = true :=
  fun haloud => h haloud m

lemma not_reached_of_lt {n : ℕ} (hn : n < l.budget s) : ¬ l.cap.Reached n := by
  intro hreached
  rw [Limits.budget] at hn
  cases hcap : l.cap with
  | uncapped => rwa [hcap] at hreached
  | meaningless => rwa [hcap] at hreached
  | rounds k =>
      rw [hcap] at hn hreached
      have hk : k ≤ n := hreached
      dsimp only at hn
      omega

/-- Without a cap the rounds are never used up: the search comes to its end before. -/
lemma reached_budget (hj : s.journal.Continuable) (hcap : l.cap ≠ .meaningless)
    (hgoes : ((next m)^[l.budget s] s).isHalted = false) : l.cap.Reached (l.budget s) := by
  cases h : l.cap with
  | rounds k =>
      rw [Limits.budget, h]
      exact Int.self_le_toNat k
  | meaningless => exact absurd h hcap
  | uncapped =>
      obtain ⟨k, hk, hend⟩ := exists_isHalted m hj
      have hbudget : l.budget s = 4 ^ s.atoms.length := by
        rw [Limits.budget, h]
        rfl
      have hlt := lt_of_isHalted hgoes hend
      omega

lemma Course.le_of_allow {r : Run} {n k : ℕ} (h : Course m l (l.budget s) l.patience s r k)
    (hn : l.Allow n) : k ≤ n := by
  by_contra hlt
  have hnk : n < k := Nat.lt_of_not_le hlt
  rcases hn.after with hreached | hpatience
  · exact not_reached_of_lt (Nat.lt_of_lt_of_le hnk h.le) hreached
  · exact (h.before n hnk).patience hpatience

/-- If nothing stops the search, a run comes as far along the row as its limits allow; if the search
comes to its end before, the row stands still. -/
lemma Course.search_eq {r : Run} {n k : ℕ} (h : Course m l (l.budget s) l.patience s r k)
    (hj : s.journal.Continuable) (hstop : ∀ t, l.stop t = .ok false) (hn : l.Allow n) :
    r.search = (Search.next m)^[n] s ∧ ∀ fault, r.ending ≠ .failed fault := by
  have hle := h.le_of_allow hn
  have heq : l.cap.Reached k ∨ l.patience = some k → k = n := by
    intro hk
    by_contra hne
    obtain ⟨hcap, hpatience⟩ := hn.before k (Nat.lt_of_le_of_ne hle hne)
    exact hk.elim hcap hpatience
  have hends := h.ends
  generalize r.ending = ending, r.search = t at hends
  cases hends with
  | halted hend => exact ⟨(iterate_eq_of_isHalted hend hle).symm, nofun⟩
  | capped hgoes hused =>
      rw [hused] at hgoes heq ⊢
      rw [heq (.inl (reached_budget hj hn.cap hgoes))]
      exact ⟨rfl, nofun⟩
  | failed _ _ hfail => cases (hstop _).symm.trans hfail
  | stopped _ _ hstops => cases (hstop _).symm.trans hstops
  | interrupted _ _ _ hpatience => exact ⟨heq (.inr hpatience) ▸ rfl, nofun⟩

lemma run_rounds (hj : s.journal.Continuable) (m : Mode) (k : ℤ) {aloud : Bool}
    (htell : aloud = true → s.Tellable) :
    (s.run m { cap := .rounds k, aloud }).search = (next m)^[k.toNat] s ∧
      ∀ fault, (s.run m { cap := .rounds k, aloud }).ending ≠ .failed fault := by
  obtain ⟨n, hcourse⟩ := exists_course m { cap := .rounds k, aloud } k.toNat none hj
    (Tellable.aloud htell m)
  exact hcourse.search_eq hj (fun _ => rfl) (Cap.allow_rounds k)

/-! ## Many stages -/

lemma carryOut_eq_iterate (h : Reachable es s) (m : Mode) (stage : Stage)
    (htell : stage.isAloud = true → s.Tellable) (hrestore : stage = .restore → s.Restorable) :
    stage.carryOut s = .ok ((next m)^[stage.rounds] s) := by
  cases stage with
  | reload => exact reload_eq s
  | restore =>
      have hs := hrestore rfl
      rw [Stage.carryOut, hs.saved]
      exact hs.load_eq
  | run m' k aloud =>
      obtain ⟨hsearch, hending⟩ := run_rounds h.invariant.continuable m' k htell
      rw [h.iterate_eq m' m] at hsearch
      rw [Stage.carryOut, Stage.rounds, ← hsearch]
      split
      · next fault hfault => exact absurd hfault (hending fault)
      · rfl

lemma carryOn_eq (h : Reachable es s) (m : Mode) (stages : List Stage)
    (htell : ∀ stage ∈ stages, stage.isAloud = true → s.Tellable)
    (hrestore : .restore ∈ stages → ∀ t, Reachable es t → t.Restorable) :
    s.carryOn stages = .ok ((next m)^[(stages.map Stage.rounds).sum] s) := by
  induction stages generalizing s with
  | nil => rfl
  | cons stage stages ih =>
      have hstage := carryOut_eq_iterate h m stage (htell stage List.mem_cons_self)
        fun hstage => hrestore (hstage ▸ List.mem_cons_self) s h
      have hrest := ih (h.iterate m stage.rounds)
        (fun stage' hstage' haloud =>
          (htell stage' (List.mem_cons_of_mem stage hstage') haloud).iterate h m stage.rounds)
        fun hmem => hrestore (List.mem_cons_of_mem stage hmem)
      rw [carryOn, List.foldlM_cons, hstage, List.map_cons, List.sum_cons, Nat.add_comm,
        Function.iterate_add_apply, ← hrest]
      rfl

/-! ## Reasons to end -/

/-- No round says that a search was stopped. -/
lemma reason_ne_of_reachable (h : Reachable es s) :
    s.journal.reason ≠ .string "stop condition met" := by
  obtain ⟨frontier, seen, g, rfl, hstatus⟩ := h.exists_logged
  have hne : g.status.reason ≠ "stop condition met" := by
    rcases hstatus with hgoes | ⟨f, hf⟩
    · rw [hgoes]
      decide
    · rw [hf]
      cases f <;> decide
  intro hreason
  exact hne (Json.string.inj hreason)

/-- What ends a run under a cap with a stop condition at a search, after so many rounds, and what it
leaves of the search.  What is looked for first goes first, and only the stop condition leaves a
mark. -/
inductive EndsBy (c : Cap) (p : Search → Bool) (n : ℕ) (t : Search) : Ending → Search → Prop
  | halted (hend : t.isHalted = true) : EndsBy c p n t .halted t
  | capped (hgoes : t.isHalted = false) (hreached : c.Reached n) : EndsBy c p n t .capped t
  | stopped (hgoes : t.isHalted = false) (hleft : ¬ c.Reached n) (hmeets : p t = true) :
      EndsBy c p n t .stopped t.halt

lemma Course.endsBy {r : Run} {n : ℕ} {p : Search → Bool}
    (h : Course m l (l.budget s) l.patience s r n) (hj : s.journal.Continuable)
    (hcap : l.cap ≠ .meaningless) (hpatience : l.patience = none)
    (hstop : ∀ t, l.stop t = .ok (p t)) :
    EndsBy l.cap p n ((Search.next m)^[n] s) r.ending r.search := by
  have hends := h.ends
  generalize r.ending = ending, r.search = t at hends
  cases hends with
  | halted hend => exact .halted hend
  | capped hgoes hused =>
      refine .capped hgoes ?_
      rw [hused] at hgoes ⊢
      exact reached_budget hj hcap hgoes
  | failed _ _ hfail =>
      rw [hstop] at hfail
      cases hfail
  | stopped hgoes hleft hstops =>
      rw [hstop, Except.ok.injEq] at hstops
      exact .stopped hgoes (not_reached_of_lt hleft) hstops
  | interrupted _ _ _ hn =>
      rw [hpatience] at hn
      cases hn

lemma EndsBy.reason_iff {c : Cap} {p : Search → Bool} {n : ℕ} {t u : Search} {ending : Ending}
    (h : EndsBy c p n t ending u) (ht : t.journal.reason ≠ .string "stop condition met") :
    u.isHalted = true ∧ u.journal.reason = .string "stop condition met" ↔ ending = .stopped := by
  cases h with
  | halted => simp [ht]
  | capped => simp [ht]
  | stopped => exact ⟨fun _ => rfl, fun _ => ⟨rfl, rfl⟩⟩

/-- **A search in parts is the search at once.**  From a reachable search, any stages one after the
other lead to the search after as many rounds as they allow together, whatever the modes; all that
is asked is that the rounds can be told if some stage tells them, and that searches can be restored
if some stage restores one.

A single run ends at the first search in the row that has come to its end, for which the cap is
reached, or that meets the stop condition, looked for in this order.  It says that it was stopped
exactly if it was, and what it has saved is the search after its last round, without that mark.

If a file is kept for it and searches can be restored, the run is the same, and the file is left
with the text of that search, which is loaded as that search; without a round it is left as it was.
A text that reads as the document of a search gives the search back, and if the entries are legible,
a search that can be saved in full is one that can be restored. -/
theorem carryOn_eq_iterate (h : Reachable es s) :
    (∀ (m : Mode) (stages : List Stage),
      (∀ stage ∈ stages, stage.isAloud = true → s.Tellable) →
      (.restore ∈ stages → ∀ t, Reachable es t → t.Restorable) →
        s.carryOn stages = .ok ((next m)^[(stages.map Stage.rounds).sum] s)) ∧
    (∀ (m : Mode) (l : Limits) (p : Search → Bool), l.cap ≠ .meaningless → l.patience = none →
      (∀ t, l.stop t = .ok (p t)) → (l.aloud = true → s.Tellable) →
      ∃ n,
        (∀ i < n, ((next m)^[i] s).isHalted = false ∧ ¬ l.cap.Reached i ∧
          p ((next m)^[i] s) = false) ∧
        EndsBy l.cap p n ((next m)^[n] s) (s.run m l).ending (s.run m l).search ∧
        ((s.run m l).search.isHalted = true ∧
            (s.run m l).search.journal.reason = .string "stop condition met" ↔
          (s.run m l).ending = .stopped) ∧
        (s.run m l).saved? = (if n = 0 then none else some ((next m)^[n] s)) ∧
        ((∀ t, Reachable es t → t.Restorable) → ∀ before : Option String,
          ((s.run m l).keep before).run = s.run m l ∧
          (n = 0 → ((s.run m l).keep before).text? = before) ∧
          (0 < n → ∃ text, ((s.run m l).keep before).text? = some text ∧
            text = ((next m)^[n] s).save ∧ load text = .ok ((next m)^[n] s)))) ∧
    (∀ (t : Search) (text : String),
      Json.read (Text.unifyBreaks text) = .ok t.toJson → load text = .ok t) ∧
    ((∀ e ∈ es, e.Legible) → ∀ t, Reachable es t → t.saveFault? = none → t.Restorable) := by
  refine ⟨fun m stages htell hrestore => carryOn_eq h m stages htell hrestore,
    fun m l p hcap hpatience hstop htell => ?_, fun t text hread => load_eq hread,
    fun hes t ht hsaved => (ht.legible hes).restorable hsaved⟩
  have hj := h.invariant.continuable
  obtain ⟨n, hcourse⟩ := exists_course m l (l.budget s) l.patience hj (Tellable.aloud htell m)
  rw [← run_eq_runFor m s hcap] at hcourse
  have hends := hcourse.endsBy hj hcap hpatience hstop
  refine ⟨n, fun i hi => ?_, hends, ?_, hcourse.saved?, fun hrestore before => ?_⟩
  · obtain ⟨hgoes, hgo, -⟩ := hcourse.before i hi
    rw [hstop, Except.ok.injEq] at hgo
    exact ⟨hgoes, not_reached_of_lt (Nat.lt_of_lt_of_le hi hcourse.le), hgo⟩
  · exact hends.reason_iff (reason_ne_of_reachable (h.iterate m n))
  · have hn : ∀ i, ((next m)^[i] s).Restorable := fun i => hrestore _ (h.iterate m i)
    rw [hcourse.keep_eq (fun i => (hn i).saved) before]
    exact ⟨rfl, fun hzero => if_pos hzero,
      fun hpos => ⟨_, if_neg (Nat.ne_of_gt hpos), rfl, (hn n).load_eq⟩⟩

open Sample (wetLawn pos neg)

lemma legible_entry {label : Text} {ls : List Literal} (hlabel : label.Whole)
    (hnames : ∀ l ∈ ls, l.atom.name.Whole) : (Sample.entry label ls).Legible where
  names := fun l hl => hnames l (Clause.mem_ofLiterals.1 hl)
  step := ⟨0, rfl⟩
  label := ⟨label, rfl, hlabel⟩

lemma legible_wetLawn : ∀ e ∈ wetLawn.entries, e.Legible := by
  rw [wetLawn, List.forall_mem_cons, List.forall_mem_cons, List.forall_mem_singleton]
  refine ⟨legible_entry (Text.whole_ofString _) ?_, legible_entry (Text.whole_ofString _) ?_,
    legible_entry (Text.whole_ofString _) ?_⟩
  · simp [pos]
  · simp [pos, neg]
  · simp [pos, neg]

/-- The search comes to its end after three rounds, so four searches are to be saved. -/
lemma saved_wetLawn (t : Search) (h : Reachable wetLawn.entries t) : t.saveFault? = none := by
  have hend : ((next .strict)^[3] (start wetLawn.entries)).isHalted = true := by decide +kernel
  exact saved_of_isHalted hend (by decide +kernel) t h

/-- Two rounds in five stages, with what is saved after them, and a run that is stopped after the
first round: what is left in its file is the text of the search after this round, and it is loaded
as that search. -/
theorem carryOn_wetLawn :
    let s := start wetLawn.entries
    let r := s.run .strict { cap := .rounds 3, stop := fun t => .ok (decide (0 < t.seen.size)) }
    Reachable wetLawn.entries s ∧ s.Tellable ∧
      (∀ t, Reachable wetLawn.entries t → t.Restorable) ∧
      s.carryOn [.run .strict 1 true, .reload, .run .permissive (-2) false, .restore,
          .run .permissive 1 true] = .ok ((next .strict)^[2] s) ∧
      load ((next .strict)^[2] s).save = .ok ((next .strict)^[2] s) ∧
      r.saved? = some ((next .strict)^[1] s) ∧
      ∃ text, (r.keep none).text? = some text ∧ text = ((next .strict)^[1] s).save ∧
        load text = .ok ((next .strict)^[1] s) := by
  intro s r
  have hstart : Reachable wetLawn.entries s := .start
  have htell : s.Tellable := tellable_start (by decide +kernel)
  obtain ⟨hstages, hrun, hload, hrestorable⟩ := carryOn_eq_iterate hstart
  have hrestore : ∀ t, Reachable wetLawn.entries t → t.Restorable :=
    fun t ht => hrestorable legible_wetLawn t ht (saved_wetLawn t ht)
  refine ⟨hstart, htell, hrestore, hstages .strict _ (fun _ _ _ => htell) fun _ => hrestore,
    hload _ _ (hrestore _ (hstart.iterate .strict 2)).read, ?_⟩
  obtain ⟨n, hbefore, hends, -, hsaved, hkept⟩ := hrun .strict
    { cap := .rounds 3, stop := fun t => .ok (decide (0 < t.seen.size)) } _ (by decide) rfl
    (fun _ => rfl) nofun
  rcases n with _ | _ | n
  · have hp : decide (0 < s.seen.size) = false := by decide +kernel
    generalize Run.ending _ = ending, Run.search _ = t at hends
    cases hends with
    | halted hend => cases hend
    | capped _ hreached => exact absurd hreached (by decide)
    | stopped _ _ hmeets => cases hp.symm.trans hmeets
  · exact ⟨hsaved, (hkept hrestore none).2.2 Nat.one_pos⟩
  · have hp : decide (0 < ((next .strict)^[1] s).seen.size) = true := by decide +kernel
    cases hp.symm.trans (hbefore 1 (by omega)).2.2

end Search

end Saturation
