import Saturation.Entry

/-!
# Clause sets

A clause set holds each of its clauses once, in ascending order, with one provenance.  Of several
entries for one clause the first keeps its provenance; this is how sets are built from lists and
how unions favour their left side.
-/

namespace Saturation

/-- Entries in strictly ascending order of their clauses. -/
@[ext]
structure ClauseSet where
  entries : List Entry
  ascending : Ascending.Sorted Entry.clause entries

namespace ClauseSet

def ofEntries (es : List Entry) : ClauseSet :=
  ⟨Ascending.ofList Entry.clause es, Ascending.sorted_ofList Entry.clause es⟩

/-- The set of the clauses of a list, all with one provenance. -/
def ofClauses (source : Provenance) (cs : List Clause) : ClauseSet :=
  ofEntries (cs.map (⟨·, source⟩))

instance : EmptyCollection ClauseSet := ⟨⟨[], Ascending.sorted_nil Entry.clause⟩⟩

instance : Inhabited ClauseSet := ⟨∅⟩

/-! ## Members -/

def clauses (K : ClauseSet) : List Clause := K.entries.map Entry.clause

instance : Membership Clause ClauseSet := ⟨fun K c => c ∈ K.clauses⟩

instance (c : Clause) (K : ClauseSet) : Decidable (c ∈ K) :=
  inferInstanceAs (Decidable (c ∈ K.clauses))

theorem mem_def {c : Clause} {K : ClauseSet} : c ∈ K ↔ c ∈ K.clauses := .rfl

theorem mem_iff {c : Clause} {K : ClauseSet} : c ∈ K ↔ ∃ e ∈ K.entries, e.clause = c := by
  simp [mem_def, clauses]

@[simp]
theorem not_mem_empty (c : Clause) : c ∉ (∅ : ClauseSet) := List.not_mem_nil

@[simp]
theorem mem_ofEntries {c : Clause} {es : List Entry} :
    c ∈ ofEntries es ↔ c ∈ es.map Entry.clause :=
  Ascending.mem_map_ofList Entry.clause

@[simp]
theorem mem_ofClauses {c : Clause} {source : Provenance} {cs : List Clause} :
    c ∈ ofClauses source cs ↔ c ∈ cs := by
  simp [ofClauses]

def size (K : ClauseSet) : Nat := K.entries.length

def isEmpty (K : ClauseSet) : Bool := K.entries.isEmpty

def first? (K : ClauseSet) : Option Entry := K.entries.head?

/-- Whether the empty clause is a member: it would come first, so one entry is looked at. -/
def hasEmpty (K : ClauseSet) : Bool := K.first?.any (·.clause.isEmpty)

/-- Whether the clauses of each set are members of the other, whatever their provenance. -/
def sameClauses (K L : ClauseSet) : Bool :=
  K.clauses.all (fun c => c ∈ L) && L.clauses.all fun c => c ∈ K

/-! ## Parts and unions -/

def filter (p : Entry → Bool) (K : ClauseSet) : ClauseSet :=
  ⟨K.entries.filter p, K.ascending.sublist _ List.filter_sublist⟩

/-- The entries after the given clause, in ascending order. -/
def above (K : ClauseSet) (c : Clause) : List Entry :=
  K.entries.dropWhile fun e => compare e.clause c != .gt

instance : Union ClauseSet := ⟨fun K L => ofEntries (K.entries ++ L.entries)⟩

@[simp]
theorem mem_union {c : Clause} {K L : ClauseSet} : c ∈ K ∪ L ↔ c ∈ K ∨ c ∈ L := by
  rw [show K ∪ L = ofEntries (K.entries ++ L.entries) from rfl, mem_ofEntries, List.map_append,
    List.mem_append, mem_def, mem_def, clauses, clauses]

instance : SDiff ClauseSet := ⟨fun K L => K.filter (·.clause ∉ L)⟩

@[simp]
theorem mem_sdiff {c : Clause} {K L : ClauseSet} : c ∈ K \ L ↔ c ∈ K ∧ c ∉ L := by
  rw [show K \ L = K.filter (·.clause ∉ L) from rfl]
  simp only [mem_iff, filter, List.mem_filter, decide_eq_true_eq]
  constructor
  · rintro ⟨e, ⟨he, hL⟩, rfl⟩
    exact ⟨⟨e, he, rfl⟩, hL⟩
  · rintro ⟨⟨e, he, rfl⟩, hL⟩
    exact ⟨e, ⟨he, hL⟩, rfl⟩

/-! ## Text -/

def names (K : ClauseSet) : List Text := K.entries.map Entry.name

/-- The set with its names, as one line shows it. -/
def text (K : ClauseSet) : Text :=
  "ClauseCollection(\x7b" ++ .join ", " K.names ++ "\x7d)"

end ClauseSet

end Saturation
