import Saturation.Proofs.Log
import Saturation.Proofs.Model

/-!
# What a saturated search has found

A search that comes to its end because a round found nothing new leaves more than an answer.

**A certificate.**  The known clauses show by themselves that the answer is right: the empty clause
is not among them, they cover what was given, and whatever two of them resolve to is covered
(`saturation_certificate`).  The last round has tried no two seen clauses; these have met in earlier
rounds, and what they resolved to has stayed covered since (`Search.Met`).

**The consequences.**  A closed set covers what follows from it (`ClauseSet.Closed.covers`).  So
every clause that follows from the given ones has a part among the known clauses, unless it is a
tautology (`consequences_covered`).  The converse fails: a clause that was kept need not follow.
-/

namespace Saturation

open ClauseSet

variable {es : List Entry}

/-- A resolution strikes both literals of the atom out of the union. -/
lemma Clause.resolvent_eq_sdiff {l : Literal} {c d : Clause} (hl : l.complement ∈ d) :
    resolvent l c d = (c ∪ d) \ .ofLiterals [l, l.complement] := by
  refine ext_mem fun k => ?_
  rw [mem_resolvent_of_meet (mem_union.2 (.inr hl))]
  simp

lemma Finish.reason_eq_saturated_iff {f : Finish} : f.reason = "saturated" ↔ f = .saturated := by
  cases f with
  | saturated => simp [reason]
  | emptyGiven => decide
  | emptyDerived => decide

namespace Search

variable {s : Search}

/-- The positive answer is the one of searches whose last round found nothing new. -/
lemma Reachable.satisfiable_iff (h : Reachable es s) : s.verdict = .satisfiable ↔
    s.isHalted = true ∧ s.journal.reason = .string "saturated" := by
  obtain ⟨frontier, seen, ⟨records, status⟩, rfl, hstatus⟩ := h.exists_logged
  rcases hstatus with hgoes | ⟨f, hf⟩
  · obtain rfl : status = .going "" := hgoes
    have hverdict : (logged frontier seen ⟨records, .going ""⟩).verdict = .undecided := rfl
    have hhalted : (logged frontier seen ⟨records, .going ""⟩).isHalted = false := rfl
    simp [hverdict, hhalted]
  · obtain rfl : status = .finished f := hf
    have hverdict : (logged frontier seen ⟨records, .finished f⟩).verdict =
        if f.satisfiable then .satisfiable else .unsatisfiable := rfl
    have hhalted : (logged frontier seen ⟨records, .finished f⟩).isHalted = true := rfl
    have hreason : (logged frontier seen ⟨records, .finished f⟩).journal.reason =
        .string f.reason := rfl
    rw [hverdict, hhalted, hreason, Json.string.injEq, Finish.reason_eq_saturated_iff]
    cases f <;> simp [Finish.satisfiable]

/-! ## The certificate -/

/-- **The certificate of a saturated search.**  The empty clause is not among the known clauses,
every given clause has a part there, and so has everything that two of them resolve to, both of them
seen or not. -/
theorem saturation_certificate (h : Reachable es s) (hhalted : s.isHalted = true)
    (hreason : s.journal.reason = .string "saturated") :
    ∅ ∉ s.known ∧ (∀ e ∈ es, ∃ k ∈ s.known, k ⊆ e.clause) ∧
      ∀ c ∈ s.known, ∀ d ∈ s.known, c ≠ d → ∀ l ∈ c, l.complement ∈ d →
        ∃ k ∈ s.known, k ⊆ (c ∪ d) \ .ofLiterals [l, l.complement] := by
  have hinv : Invariant es s := h.invariant
  obtain ⟨hempty, hclosed⟩ := hinv.saturated (h.satisfiable_iff.2 ⟨hhalted, hreason⟩)
  refine ⟨hempty, ?_, ?_⟩
  · intro e he
    exact covers_iff.1 (hinv.given e he)
  · intro c hc d hd hne l hl hl'
    rw [← Clause.resolvent_eq_sdiff hl']
    exact covers_iff.1 (hclosed c hc d hd hne l hl hl')

def atomX : Atom := ⟨"X", by decide⟩

def atomY : Atom := ⟨"Y", by decide⟩

def atomZ : Atom := ⟨"Z", by decide⟩

open Sample (pos neg entry)

/-- A tautology, and a clause that it is resolved with: the resolvent on the atom of the tautology
does not follow. -/
def tautological : List Entry :=
  [entry "" [pos atomX, neg atomX], entry "" [pos atomX, pos atomY]]

lemma saturated_tautological :
    ((next .permissive)^[2] (start tautological)).isHalted = true ∧
      ((next .permissive)^[2] (start tautological)).journal.reason = .string "saturated" :=
  (reachable_iterate .permissive 2).satisfiable_iff.1 (by decide +kernel)

/-- Two clauses that the last round has not tried, because both are seen. -/
theorem saturation_certificate_tautological :
    let s := (next .permissive)^[2] (start tautological)
    let c : Clause := .ofLiterals [pos atomX, neg atomX]
    let d : Clause := .ofLiterals [pos atomX, pos atomY]
    s.isHalted = true ∧ s.journal.reason = .string "saturated" ∧ c ∈ s.seen ∧ d ∈ s.seen ∧
      ∅ ∉ s.known ∧ ∃ k ∈ s.known, k ⊆ (c ∪ d) \ .ofLiterals [neg atomX, pos atomX] := by
  intro s c d
  have hs : Reachable tautological s := reachable_iterate .permissive 2
  obtain ⟨hhalted, hreason⟩ := saturated_tautological
  have hc : c ∈ s.seen := by decide +kernel
  have hd : d ∈ s.seen := by decide +kernel
  obtain ⟨hempty, -, hclosed⟩ := saturation_certificate hs hhalted hreason
  exact ⟨hhalted, hreason, hc, hd, hempty, hclosed c (mem_known.2 (.inl hc)) d
    (mem_known.2 (.inl hd)) (by decide) (neg atomX) (by decide) (by decide)⟩

/-! ## The consequences -/

/-- A clause that follows while no proper part of it does, and that is no tautology. -/
structure PrimeImplicate (es : List Entry) (c : Clause) : Prop where
  entails : Entails es c
  minimal : ∀ d, d ⊂ c → ¬ Entails es d
  isTautology : c.isTautology = false

/-- **What follows is covered by a saturated search**, over any atoms, unless it is a tautology; so
the prime implicates are. -/
theorem consequences_covered (h : Reachable es s) (hhalted : s.isHalted = true)
    (hreason : s.journal.reason = .string "saturated") :
    (∀ c, c.isTautology = false → Entails es c → ∃ k ∈ s.known, k ⊆ c) ∧
      ∀ c, PrimeImplicate es c → ∃ k ∈ s.known, k ⊆ c := by
  have hinv : Invariant es s := h.invariant
  have hclosed : s.known.Closed :=
    (hinv.saturated (h.satisfiable_iff.2 ⟨hhalted, hreason⟩)).2
  have hcovers : ∀ c, c.isTautology = false → Entails es c → ∃ k ∈ s.known, k ⊆ c := by
    intro c hc hentails
    -- an assignment that makes the known clauses true makes the given ones true
    refine covers_iff.1 (hclosed.covers hc fun w hw => hentails w fun e he => ?_)
    obtain ⟨k, hk, hke⟩ := covers_iff.1 (hinv.given e he)
    exact (hw k hk).of_subset hke
  exact ⟨hcovers, fun c hc => hcovers c hc.isTautology hc.entails⟩

/-- The second clause is a prime implicate: either literal alone may make it true. -/
lemma primeImplicate_tautological :
    PrimeImplicate tautological (.ofLiterals [pos atomX, pos atomY]) where
  entails := fun v hv => hv (entry "" _) (List.mem_cons_of_mem _ List.mem_cons_self)
  minimal := by
    rintro d ⟨hsize, hsub⟩ hentails
    obtain ⟨l, hl, hld⟩ : ∃ l ∈ [pos atomX, pos atomY], l ∉ d := by
      by_contra hno
      push Not at hno
      have hle := Clause.size_le_of_subset (d := d) fun l hl => hno l (Clause.mem_ofLiterals.1 hl)
      omega
    have halone : ∀ l ∈ [pos atomX, pos atomY],
        ∀ e ∈ tautological, e.clause.Holds fun a => a == l.atom := by
      decide +kernel
    have honly : ∀ k ∈ [pos atomX, pos atomY], ∀ l ∈ [pos atomX, pos atomY],
        (k.Holds fun a => a == l.atom) → k = l := by
      decide +kernel
    obtain ⟨k, hk, hv⟩ := hentails _ (halone l hl)
    have hkl : k = l := honly k (Clause.mem_ofLiterals.1 (hsub k hk)) l hl hv
    exact hld (hkl ▸ hk)
  isTautology := by decide

/-- A prime implicate, and what it implies over an atom that was not given. -/
theorem consequences_covered_tautological :
    let s := (next .permissive)^[2] (start tautological)
    let c : Clause := .ofLiterals [pos atomX, pos atomY]
    let d : Clause := .ofLiterals [pos atomX, pos atomY, neg atomZ]
    s.isHalted = true ∧ s.journal.reason = .string "saturated" ∧
      PrimeImplicate tautological c ∧ (∃ k ∈ s.known, k ⊆ c) ∧
      d.isTautology = false ∧ Entails tautological d ∧ ∃ k ∈ s.known, k ⊆ d := by
  intro s c d
  have hs : Reachable tautological s := reachable_iterate .permissive 2
  obtain ⟨hhalted, hreason⟩ := saturated_tautological
  obtain ⟨hcovers, hprime⟩ := consequences_covered hs hhalted hreason
  have hd : d.isTautology = false := by decide
  have hentails : Entails tautological d :=
    fun v hv => (primeImplicate_tautological.entails v hv).of_subset (by decide)
  exact ⟨hhalted, hreason, primeImplicate_tautological, hprime c primeImplicate_tautological, hd,
    hentails, hcovers d hd hentails⟩

end Search

end Saturation
