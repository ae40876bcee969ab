import Saturation.Entry
import Saturation.Fault

/-!
# Sample problems

Small problems with known answers.  In those that are unsatisfiable the last clause denies the
goal, so the contradiction proves it.
-/

namespace Saturation

/-- A named problem, whether it is satisfiable, and what it is about. -/
structure Sample where
  name : String
  satisfiable : Bool
  description : String
  entries : List Entry

namespace Sample

def pos (a : Atom) : Literal := ⟨a, false⟩

def neg (a : Atom) : Literal := ⟨a, true⟩

def entry (label : Text) (ls : List Literal) : Entry := ⟨.ofLiterals ls, .labelled label⟩

/-- One implication and its premise, against its conclusion. -/
def modusPonens : Sample where
  name := "modus_ponens"
  satisfiable := false
  description := "A, A implies B, not B: refuted in two rounds"
  entries :=
    let a : Atom := ⟨"A", by decide⟩
    let b : Atom := ⟨"B", by decide⟩
    [entry "A holds" [pos a], entry "A implies B" [neg a, pos b],
     entry "negated goal: not B" [neg b]]

/-- Two clauses whose only useful resolvent is a single atom. -/
def weakDisjunction : Sample where
  name := "weak_disjunction"
  satisfiable := true
  description := "A or B, not A or B: saturates with B"
  entries :=
    let a : Atom := ⟨"A", by decide⟩
    let b : Atom := ⟨"B", by decide⟩
    [entry "" [pos a, pos b], entry "" [neg a, pos b]]

/-- All humans are mortal and Socrates is human, against his being mortal. -/
def syllogism : Sample where
  name := "syllogism"
  satisfiable := false
  description := "Socrates is mortal, proved by refutation"
  entries :=
    let human : Atom := ⟨"human_socrates", by decide⟩
    let mortal : Atom := ⟨"mortal_socrates", by decide⟩
    [entry "all humans are mortal" [neg human, pos mortal],
     entry "socrates is human" [pos human],
     entry "negated goal: socrates not mortal" [neg mortal]]

/-- Implications in a row, from a fact to a denied end. -/
def chain : Sample where
  name := "chain"
  satisfiable := false
  description := "Multi-step implication chain"
  entries :=
    let knows : Atom := ⟨"knows", by decide⟩
    let trusts : Atom := ⟨"trusts", by decide⟩
    let cooperates : Atom := ⟨"cooperates", by decide⟩
    let builds : Atom := ⟨"builds_with", by decide⟩
    [entry "alice knows bob" [pos knows],
     entry "knowing implies trusting" [neg knows, pos trusts],
     entry "trusting implies cooperating" [neg trusts, pos cooperates],
     entry "cooperating implies building with" [neg cooperates, pos builds],
     entry "negated goal: alice doesn't build with bob" [neg builds]]

/-- Two causes of one effect, with nothing denied. -/
def wetLawn : Sample where
  name := "wet_lawn"
  satisfiable := true
  description := "Rain or sprinkler, both wet the lawn: consistent"
  entries :=
    let rain : Atom := ⟨"rain", by decide⟩
    let sprinkler : Atom := ⟨"sprinkler", by decide⟩
    let wet : Atom := ⟨"wet", by decide⟩
    [entry "rain or sprinkler" [pos rain, pos sprinkler],
     entry "rain wets the lawn" [neg rain, pos wet],
     entry "sprinkler wets the lawn" [neg sprinkler, pos wet]]

def all : List Sample := [modusPonens, weakDisjunction, syllogism, chain, wetLawn]

def names : List String := all.map Sample.name

def find (name : Text) : Except Fault Sample :=
  match all.find? fun sample => name == sample.name with
  | some sample => .ok sample
  | none => .error (.unknownSample (.string name) names)

/-- The sample that a document names; a collection cannot be a name. -/
def ofJson : Json → Except Fault Sample
  | .string name => find name
  | .array _ => .error .wrongKind
  | .object _ => .error .wrongKind
  | name => .error (.unknownSample name names)

end Sample

end Saturation
