import Mathlib.Logic.Equiv.Basic
import Saturation.Proofs.Log
import Saturation.Proofs.Renaming
import Saturation.Proofs.Unordered

/-!
# The search on renamed clauses

Renamed clauses may stand in another order, so their search tries the pairs of a round in another
order and some of them the other way round.  It comes to the images of what the first search comes
to all the same (`iterate_rename`).

One round is enough to look at, and a strict one, because the mode makes no difference.  Its outcome
follows from the members of the two sets (`Saturation.Proofs.Unordered`), and what it follows from
goes with the renaming (`run_image`).  Only the pair at which a round meets the empty clause is a
matter of order, and with it the number of pairs tried in that last round.

The two histories are compared by the records that they are lists of, and each is the list of one
list of records only (`RoundRecord.history_inj`).
-/

namespace Saturation

open ClauseSet

variable {σ : Renaming}

/-! ## Rounds -/

namespace Round

variable {source source' : Provenance} {F F' S S' : ClauseSet} {r : Clause}

lemma Resolves.rename (hF : Renamed σ F F') (hS : Renamed σ S S') (h : Resolves F S r) :
    Resolves F' S' (r.rename σ) := by
  obtain ⟨c, hc, d, hd, l, hl, hl', rfl⟩ := h
  refine ⟨c.rename σ, hF.mem_iff.2 hc, d.rename σ, ?_, σ l, Clause.apply_mem_rename.2 hl, ?_,
    Clause.rename_resolvent.symm⟩
  · rw [hS.mem_iff, hF.mem_iff, ne_eq, Clause.rename_inj]
    exact hd
  · rw [← σ.map_complement]
    exact Clause.apply_mem_rename.2 hl'

/-- **The resolvents over the images are the images of the resolvents.** -/
lemma resolves_iff (hF : Renamed σ F F') (hS : Renamed σ S S') :
    Resolves F' S' r ↔ ∃ p, Resolves F S p ∧ p.rename σ = r := by
  constructor
  · rintro ⟨c', hc', d', hd', l', hlc', hld', rfl⟩
    obtain ⟨c, hc, rfl⟩ := (hF c').1 hc'
    obtain ⟨l, hl, rfl⟩ := Clause.mem_rename.1 hlc'
    have himage : ∃ d : Clause, d.rename σ = d' := by
      rcases hd' with hd' | ⟨hd', -⟩
      · obtain ⟨d, -, hdd'⟩ := (hS d').1 hd'
        exact ⟨d, hdd'⟩
      · obtain ⟨d, -, hdd'⟩ := (hF d').1 hd'
        exact ⟨d, hdd'⟩
    obtain ⟨d, rfl⟩ := himage
    rw [hS.mem_iff, hF.mem_iff, ne_eq, Clause.rename_inj] at hd'
    rw [← σ.map_complement, Clause.apply_mem_rename] at hld'
    exact ⟨_, ⟨c, hc, d, hd', l, hl, hld', rfl⟩, Clause.rename_resolvent⟩
  · rintro ⟨p, hp, rfl⟩
    exact hp.rename hF hS

/-- What a round over the images comes to. -/
inductive Image (σ : Renaming) : Round → Round → Prop
  | emptyGiven : Image σ .emptyGiven .emptyGiven
  | emptyDerived (tried tried' : ℕ) (x y x' y' : Entry) :
      Image σ (.emptyDerived tried x y) (.emptyDerived tried' x' y')
  | saturated (tried : ℕ) : Image σ (.saturated tried) (.saturated tried)
  | fresh (tried : ℕ) {found found' : ClauseSet} (h : Renamed σ found found') :
      Image σ (.fresh tried found) (.fresh tried found')

lemma resolves_empty_iff (hF : Renamed σ F F') (hS : Renamed σ S S') :
    Resolves F' S' ∅ ↔ Resolves F S ∅ := by
  rw [resolves_iff hF hS]
  constructor
  · rintro ⟨p, hp, hempty⟩
    rwa [← Clause.rename_eq_empty_iff.1 hempty]
  · intro h
    exact ⟨∅, h, Clause.rename_empty⟩

/-- What is found over the images are the images of what is found. -/
lemma renamed_found (hF : Renamed σ F F') (hS : Renamed σ S S') {found found' : ClauseSet}
    (h : ∀ r, r ∈ found ↔ Resolves F S r ∧ (S ∪ F).covers r = false)
    (h' : ∀ r, r ∈ found' ↔ Resolves F' S' r ∧ (S' ∪ F').covers r = false) :
    Renamed σ found found' := by
  intro r
  rw [h', resolves_iff hF hS]
  constructor
  · rintro ⟨⟨p, hp, rfl⟩, hcover⟩
    rw [(hS.union hF).covers] at hcover
    exact ⟨p, (h p).2 ⟨hp, hcover⟩, rfl⟩
  · rintro ⟨p, hp, rfl⟩
    obtain ⟨hp, hcover⟩ := (h p).1 hp
    exact ⟨⟨p, hp, rfl⟩, (hS.union hF).covers.trans hcover⟩

/-- **A strict round over the images comes to the image of the outcome.** -/
theorem run_image (hF : Renamed σ F F') (hS : Renamed σ S S') :
    Image σ (run .strict source F S) (run .strict source' F' S') := by
  by_cases hgiven : ∅ ∈ F
  · rw [run_of_empty_mem hgiven, run_of_empty_mem (hF.empty_mem_iff.2 hgiven)]
    exact .emptyGiven
  have hgiven' : ∅ ∉ F' := mt hF.empty_mem_iff.1 hgiven
  by_cases hempty : Resolves F S ∅
  · obtain ⟨tried, x, y, hrun⟩ := exists_run_of_resolves_empty source hgiven hempty
    obtain ⟨tried', x', y', hrun'⟩ :=
      exists_run_of_resolves_empty source' hgiven' ((resolves_empty_iff hF hS).2 hempty)
    rw [hrun, hrun']
    exact .emptyDerived _ _ _ _ _ _
  have hempty' : ¬ Resolves F' S' ∅ := mt (resolves_empty_iff hF hS).1 hempty
  have hcovers : ∀ p, (S' ∪ F').covers (p.rename σ) = (S ∪ F).covers p :=
    fun p => (hS.union hF).covers
  by_cases hcovered : ∀ r, Resolves F S r → (S ∪ F).covers r = true
  · have hcovered' : ∀ r, Resolves F' S' r → (S' ∪ F').covers r = true := by
      intro r hr
      obtain ⟨p, hp, rfl⟩ := (resolves_iff hF hS).1 hr
      rw [hcovers]
      exact hcovered p hp
    rw [run_of_covered hgiven hempty hcovered, run_of_covered hgiven' hempty' hcovered',
      hF.size_eq, hS.size_eq]
    exact .saturated _
  · push Not at hcovered
    obtain ⟨p, hp, hnew⟩ := hcovered
    rw [ne_eq, Bool.not_eq_true] at hnew
    obtain ⟨found, hrun, hfound⟩ := exists_run_of_not_covered source hgiven hempty hp hnew
    obtain ⟨found', hrun', hfound'⟩ := exists_run_of_not_covered source' hgiven' hempty'
      (hp.rename hF hS) ((hcovers p).trans hnew)
    rw [hrun, hrun', hF.size_eq, hS.size_eq]
    exact .fresh _ (renamed_found hF hS hfound hfound')

end Round

/-! ## Logs -/

/-- What a renaming leaves of a record: its number, the sizes of the two sets, how many clauses were
new, and the verdict. -/
def RoundRecord.outline (r : RoundRecord) : Json × ℕ × ℕ × ℕ × Verdict :=
  (r.round, r.frontierSize, r.seenSize, r.produced.length, r.verdict)

namespace Log

variable {g g' : Log}

/-- Two logs in which a renaming makes no difference, but for the pairs of a last round that met the
empty clause. -/
structure Image (g g' : Log) : Prop where
  status : g'.status = g.status
  outline : g'.records.map RoundRecord.outline = g.records.map RoundRecord.outline
  before : g'.records.dropLast.map RoundRecord.pairs = g.records.dropLast.map RoundRecord.pairs
  pairs : g.status ≠ .finished .emptyDerived →
    g'.records.map RoundRecord.pairs = g.records.map RoundRecord.pairs

lemma Image.length_eq (h : Image g g') : g'.records.length = g.records.length := by
  have hlength := congrArg List.length h.outline
  rwa [List.length_map, List.length_map] at hlength

lemma Image.pairs_of_going (h : Image g g') {reason : Text} (hg : g.status = .going reason) :
    g'.records.map RoundRecord.pairs = g.records.map RoundRecord.pairs := by
  refine h.pairs ?_
  rw [hg]
  nofun

lemma Image.add (h : Image g g') {reason : Text} (hg : g.status = .going reason)
    {F F' S S' : ClauseSet} (hF : F'.size = F.size) (hS : S'.size = S.size) {tried tried' : ℕ}
    {produced produced' : List Text} (hproduced : produced'.length = produced.length)
    {verdict : Verdict} {status : Status}
    (htried : status ≠ .finished .emptyDerived → tried' = tried) :
    Image (g.add F S tried produced verdict status)
      (g'.add F' S' tried' produced' verdict status) where
  status := rfl
  outline := by
    simp only [Log.add, List.map_append, h.outline, List.map_cons, List.map_nil,
      RoundRecord.outline, hF, hS, hproduced, h.length_eq]
  before := by
    rw [Log.add, Log.add, List.dropLast_concat, List.dropLast_concat]
    exact h.pairs_of_going hg
  pairs hstatus := by
    simp only [Log.add, List.map_append, h.pairs_of_going hg, List.map_cons, List.map_nil,
      htried hstatus]

end Log

/-! ## Searches -/

namespace Search

/-- The search for some clauses and the one for their images. -/
inductive Image (σ : Renaming) : Search → Search → Prop
  | logged {F F' S S' : ClauseSet} {g g' : Log} (hF : Renamed σ F F') (hS : Renamed σ S S')
      (hg : Log.Image g g') : Image σ (logged F S g) (logged F' S' g')

variable {s t : Search} {F F' S S' : ClauseSet} {g g' : Log} {es es' : List Entry}

lemma conclude_image (hF : Renamed σ F F') (hS : Renamed σ S S') (hg : Log.Image g g')
    {reason : Text} (hgoes : g.status = .going reason) {out out' : Round}
    (h : Round.Image σ out out') : Image σ (conclude F S g out) (conclude F' S' g' out') := by
  have hsizeF : F'.size = F.size := hF.size_eq
  have hsizeS : S'.size = S.size := hS.size_eq
  cases h with
  | emptyGiven => exact .logged hF hS (hg.add hgoes hsizeF hsizeS rfl fun _ => rfl)
  | emptyDerived tried tried' x y x' y' =>
      -- this one ending may come after more or fewer pairs
      exact .logged hF hS (hg.add hgoes hsizeF hsizeS rfl fun hne => absurd rfl hne)
  | saturated tried => exact .logged hF hS (hg.add hgoes hsizeF hsizeS rfl fun _ => rfl)
  | fresh tried h =>
      have hkept := h.minimal
      have hknown := (hS.union hF).minimal
      have hnames : ∀ K : ClauseSet, K.names.length = K.size := fun K => List.length_map _
      rw [conclude, conclude, hg.status]
      refine .logged hkept hknown (hg.add hgoes hkept.size_eq hknown.size_eq ?_ fun _ => rfl)
      rw [hnames, hnames, hkept.size_eq]

lemma Image.next (h : Image σ s t) : Image σ (s.next .strict) (t.next .strict) := by
  obtain @⟨F, F', S, S', g, g', hF, hS, hg⟩ := h
  cases hhalted : g.status.halted with
  | false =>
      obtain ⟨reason, hgoes⟩ := Status.exists_going hhalted
      rw [next_logged hgoes, next_logged (hg.status.trans hgoes)]
      exact conclude_image hF hS hg hgoes (Round.run_image hF hS)
  | true =>
      have hhalted' : g'.status.halted = true := hg.status ▸ hhalted
      rw [next_logged_of_halted _ hhalted, next_logged_of_halted _ hhalted']
      exact .logged hF hS hg

lemma Image.iterate (h : Image σ s t) (n : ℕ) :
    Image σ ((Search.next .strict)^[n] s) ((Search.next .strict)^[n] t) :=
  iterate_related (fun h => h.next) h n

lemma start_image (h : es'.map Entry.clause = es.map fun e => e.clause.rename σ) :
    Image σ (start es) (start es') := by
  have hgiven : Renamed σ (ofEntries es) (ofEntries es') := by
    intro c
    simp only [mem_ofEntries, h, List.mem_map, exists_exists_and_eq_and]
  exact .logged (g := {}) hgiven.minimal .empty ⟨rfl, rfl, rfl, fun _ => rfl⟩

/-- The second search is the first one under the renaming. -/
structure RenamedBy (σ : Renaming) (s t : Search) : Prop where
  frontier : Renamed σ s.frontier t.frontier
  seen : Renamed σ s.seen t.seen
  round : t.journal.round = s.journal.round
  halted : t.journal.halted = s.journal.halted
  reason : t.journal.reason = s.journal.reason
  answer : t.journal.answer = s.journal.answer
  /-- The number of pairs may differ in a last round that met the empty clause. -/
  history : ∃ rs rs' : List RoundRecord,
    s.journal.history = .array (rs.map RoundRecord.toJson) ∧
    t.journal.history = .array (rs'.map RoundRecord.toJson) ∧
    rs'.map RoundRecord.outline = rs.map RoundRecord.outline ∧
    rs'.dropLast.map RoundRecord.pairs = rs.dropLast.map RoundRecord.pairs ∧
    (s.journal.reason ≠ .string "empty clause derived" →
      rs'.map RoundRecord.pairs = rs.map RoundRecord.pairs)

lemma Image.renamedBy (h : Image σ s t) : RenamedBy σ s t := by
  obtain @⟨F, F', S, S', g, g', hF, hS, hg⟩ := h
  have hpairs : g.journal.reason ≠ .string "empty clause derived" →
      g'.records.map RoundRecord.pairs = g.records.map RoundRecord.pairs := by
    intro hreason
    refine hg.pairs fun hstatus => hreason ?_
    rw [Log.journal, hstatus]
    rfl
  exact
    { frontier := hF
      seen := hS
      round := congrArg (fun k : ℕ => Json.int k) hg.length_eq
      halted := congrArg (fun status : Status => Json.bool status.halted) hg.status
      reason := congrArg (fun status : Status => Json.string status.reason) hg.status
      answer := congrArg Status.answer hg.status
      history := ⟨g.records, g'.records, rfl, rfl, hg.outline, hg.before, hpairs⟩ }

/-- **The search on renamed clauses is the renamed search**, after any number of rounds and in
either mode. -/
theorem iterate_rename (σ : Renaming)
    (h : es'.map Entry.clause = es.map fun e => e.clause.rename σ) (m m' : Mode) (n : ℕ) :
    RenamedBy σ ((next m)^[n] (start es)) ((next m')^[n] (start es')) := by
  rw [Reachable.start.iterate_eq m .strict n, Reachable.start.iterate_eq m' .strict n]
  exact ((start_image h).iterate n).renamedBy

/-- Two atoms change places, and one of them its sign. -/
theorem iterate_rename_weakDisjunction :
    let a : Atom := ⟨"A", by decide⟩
    let b : Atom := ⟨"B", by decide⟩
    let σ := Renaming.ofAtoms (Equiv.swap a b) (Equiv.injective _) (· = a)
    let image := [Sample.entry "" [Sample.neg b, Sample.pos a],
      Sample.entry "" [Sample.pos b, Sample.pos a]]
    (image.map Entry.clause = Sample.weakDisjunction.entries.map fun e => e.clause.rename σ) ∧
      RenamedBy σ ((next .strict)^[2] (start Sample.weakDisjunction.entries))
        ((next .permissive)^[2] (start image)) := by
  intro a b σ image
  have himage : image.map Entry.clause =
      Sample.weakDisjunction.entries.map fun e => e.clause.rename σ := by
    decide +kernel
  exact ⟨himage, iterate_rename σ himage .strict .permissive 2⟩

end Search

end Saturation
