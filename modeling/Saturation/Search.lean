import Saturation.Journal
import Saturation.Round

/-!
# The search

A search holds two sets of clauses: the frontier, whose clauses have not met each other yet, and
the seen ones, which have.  It advances round by round.  A round that finds the empty clause or
nothing new decides the search and leaves its sets alone; any other makes the minimal new clauses
the frontier and adds the old frontier to the seen clauses.

What a round has to say is a list of notes.  If its number or its record cannot be written down
it stops there, and what was done before stays done.
-/

namespace Saturation

structure Search where
  frontier : ClauseSet := ∅
  seen : ClauseSet := ∅
  journal : Journal := {}
deriving Inhabited

/-! ## Notes -/

/-- Something that a round says as it goes. -/
inductive Note
  | opening (round : Json) (frontier seen : Nat)
  | emptyGiven
  | emptyDerived (x y : Entry)
  | covered (e : Entry)
  | found (e : Entry)
  | saturated
  | closing (frontier seen : Nat)

def Note.line : Note → Text
  | opening round frontier seen =>
    "\n--- Round " ++ round.shown ++ ": " ++ toString frontier ++ " frontier, " ++
      toString seen ++ " seen ---"
  | emptyGiven => "  [contradiction] empty clause in frontier"
  | emptyDerived x y => "  [contradiction] [] from " ++ x.name ++ " + " ++ y.name
  | covered e => "  [subsumed] " ++ e.name
  | found e => "  [new] " ++ e.name
  | saturated => "  [saturated] no new clauses"
  | closing frontier seen =>
    "  Frontier: " ++ toString frontier ++ " | Seen: " ++ toString seen

/-! ## Rounds -/

/-- A search after a round, what the round said, and the fault that cut it short, if any. -/
structure Advance where
  search : Search
  notes : List Note := []
  fault? : Option Fault := none
deriving Inhabited

namespace Search

/-- The search for the clauses of a list: the minimal ones are the first frontier. -/
def start (es : List Entry) : Search := { frontier := (ClauseSet.ofEntries es).minimal }

def isHalted (s : Search) : Bool := s.journal.isHalted

def verdict (s : Search) : Verdict := s.journal.verdict

def recordOf (s : Search) (pairs : Nat) (produced : List Text) (verdict : Verdict) :
    RoundRecord where
  round := s.journal.round
  frontierSize := s.frontier.size
  seenSize := s.seen.size
  pairs := pairs
  produced := produced
  verdict := verdict

/-- Records a round that has said `before`.  If the record can be written, the round says `after`
and the journal is closed. -/
def settle (s : Search) (before : List Note) (record : RoundRecord) (after : List Note)
    (close : Journal → Journal) : Advance :=
  match s.journal.record? record with
  | some journal => { search := { s with journal := close journal }, notes := before ++ after }
  | none => { search := s, notes := before, fault? := some .noLog }

/-- The search whose frontier has become seen and whose new frontier is the given one. -/
def promote (s : Search) (frontier : ClauseSet) : Search :=
  { s with seen := (s.seen ∪ s.frontier).minimal, frontier }

/-- One round.  A search that has come to an end stays as it is. -/
def advance (m : Mode) (s : Search) : Advance :=
  if s.isHalted then { search := s }
  else match s.journal.nextRound? with
    | none => { search := s, fault? := some .wrongKind }
    | some journal =>
      let s := { s with journal }
      let opening := Note.opening journal.round s.frontier.size s.seen.size
      match Round.run m (.found journal.round) s.frontier s.seen with
      | .emptyGiven =>
        s.settle [opening, .emptyGiven] (s.recordOf 0 [] .unsatisfiable) []
          (.finish false "empty clause in frontier")
      | .emptyDerived tried x y =>
        s.settle [opening, .emptyDerived x y] (s.recordOf tried ["[]"] .unsatisfiable) []
          (.finish false "empty clause derived")
      | .saturated tried =>
        s.settle [opening] (s.recordOf tried [] .satisfiable) [.saturated]
          (.finish true "saturated")
      | .fresh tried found =>
        let kept := found.minimal
        let said := (found \ kept).entries.map .covered ++ kept.entries.map .found
        let s := s.promote kept
        s.settle (opening :: said) (s.recordOf tried kept.names .undecided)
          [.closing s.frontier.size s.seen.size] id

/-- One round that is told as it goes.  It begins by telling its number, and if the number has too
many digits for that it does not come any further. -/
def advanceAloud (m : Mode) (s : Search) : Advance :=
  match s.isHalted, s.journal.nextRound? with
  | false, some journal =>
    if journal.round.isPlain then s.advance m
    else { search := { s with journal }, fault? := some .longInteger }
  | _, _ => s.advance m

def next (m : Mode) (s : Search) : Search := (s.advance m).search

theorem advance_of_isHalted (m : Mode) {s : Search} (h : s.isHalted = true) :
    s.advance m = { search := s } := by
  simp [advance, h]

@[simp]
theorem next_of_isHalted (m : Mode) {s : Search} (h : s.isHalted = true) : s.next m = s := by
  simp [next, advance_of_isHalted m h]

/-! ## Size -/

/-- The atoms of the clauses of a search, each once. -/
def atoms (s : Search) : List Atom :=
  Ascending.ofList id
    ((s.seen.clauses ++ s.frontier.clauses).flatMap fun c => c.literals.map Literal.atom)

end Search

end Saturation
