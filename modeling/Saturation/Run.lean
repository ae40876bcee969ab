import Saturation.Search

/-!
# Runs

A run advances a search until it comes to an end, a cap on the rounds is reached, a stop condition
holds, or it is interrupted; it looks for these in this order before each round.

A run without a cap needs a bound all the same to be a total function.  Each round that goes on
covers a set of literals that was not covered before, and over `n` atoms there are `4 ^ n` sets of
literals, so `4 ^ n` rounds are never too few.
-/

namespace Saturation

/-! ## Limits -/

/-- A measure of a search that a run can watch. -/
inductive Gauge
  | round
  | frontier
  | seen
  | history
deriving DecidableEq, Inhabited

/-- What the gauge shows; a history without a length shows nothing. -/
def Gauge.value (g : Gauge) (s : Search) : Option Json :=
  match g with
  | round => some s.journal.round
  | frontier => some (.int s.frontier.size)
  | seen => some (.int s.seen.size)
  | history => s.journal.history.length?.map fun n => .int n

/-- Whether the gauge shows at least the given number. -/
def Gauge.reaches (g : Gauge) (least : Int) (s : Search) : Except Fault Bool :=
  match (g.value s).bind (·.atLeast? least) with
  | some b => .ok b
  | none => .error .wrongKind

inductive Cap
  | uncapped
  /-- At most this many; none at all if it is not positive. -/
  | rounds (n : Int)
  /-- It cannot be told: the run fails as soon as the question comes up. -/
  | meaningless
deriving DecidableEq, Inhabited

/-- What can end a run before the search does. -/
structure Limits where
  cap : Cap := .uncapped
  /-- A condition that stops the search for good. -/
  stop : Search → Except Fault Bool := fun _ => .ok false
  /-- An interruption at the start of the round after this many. -/
  patience : Option Nat := none
  /-- Whether the rounds are told as they go; a round whose number cannot be told fails. -/
  aloud : Bool := false
deriving Inhabited

def Limits.budget (l : Limits) (s : Search) : Nat :=
  match l.cap with
  | .rounds n => n.toNat
  | _ => Nat.pow 4 s.atoms.length

/-! ## The run -/

/-- What a run does for others to see: it passes on what the rounds say, and hands over the search
after each round, to be saved. -/
inductive Event
  | note (n : Note)
  | checkpoint (s : Search)

inductive Ending
  | halted
  | capped
  | stopped
  | interrupted
  | failed (fault : Fault)

/-- A search after a run, the events of the run, and why it ended. -/
structure Run where
  search : Search
  events : List Event := []
  ending : Ending

namespace Run

def after (events : List Event) (r : Run) : Run := { r with events := events ++ r.events }

/-- The search at the last checkpoint. -/
def saved? (r : Run) : Option Search :=
  r.events.reverse.findSome? fun
    | .checkpoint s => some s
    | .note _ => none

def lines (r : Run) : List Text :=
  r.events.filterMap fun
    | .note n => some n.line
    | .checkpoint _ => none

end Run

namespace Search

/-- Runs for at most `budget` rounds.  An interruption comes when `patience` has run out and
another round is about to start. -/
def runFor (m : Mode) (l : Limits) : (budget : Nat) → (patience : Option Nat) → Search → Run
  | 0, _, s => { search := s, ending := if s.isHalted then .halted else .capped }
  | budget + 1, patience, s =>
    if s.isHalted then { search := s, ending := .halted }
    else match l.stop s with
      | .error fault => { search := s, ending := .failed fault }
      | .ok true => { search := { s with journal := s.journal.stop }, ending := .stopped }
      | .ok false =>
        if patience = some 0 then { search := s, ending := .interrupted }
        else
          let round := if l.aloud then s.advanceAloud m else s.advance m
          let notes := round.notes.map Event.note
          match round.fault? with
          | some fault => { search := round.search, events := notes, ending := .failed fault }
          | none =>
            (runFor m l budget (patience.map (· - 1)) round.search).after
              (notes ++ [.checkpoint round.search])

/-- Runs within limits. -/
def run (m : Mode) (l : Limits) (s : Search) : Run :=
  match l.cap with
  | .meaningless =>
    { search := s, ending := if s.isHalted then .halted else .failed .wrongKind }
  | _ => s.runFor m l (l.budget s) l.patience

end Search

end Saturation
