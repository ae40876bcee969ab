import Saturation.Search

/-!
# Reports

A search in words: the state of its two sets, the course of its rounds, and the decision.  A
report is a list of lines.  The history may come from a saved document, so telling it can fail at
a record that lacks something; the lines before it have been told by then.
-/

namespace Saturation

def Verdict.decision : Verdict → String
  | undecided => "Undecided"
  | satisfiable => "Satisfiable"
  | unsatisfiable => "Unsatisfiable"

/-- The lines as one text, each with its line break. -/
def textOfLines (lines : List Text) : Text := lines.flatMap (· ++ "\n")

namespace Report

def rule : Text := List.replicate 60 (.ofChar '=')

/-- The names of a set under its title and size. -/
def titled (title : String) (K : ClauseSet) : List Text :=
  (title ++ " (" ++ toString K.size ++ "):") :: K.names.map ("  " ++ ·)

/-- The round, the two sets, and the reason of the end if there is one. -/
def state (s : Search) : List Text :=
  let head : List Text := ["\n" ++ rule, "Round: " ++ s.journal.round.shown]
  let ending : List Text := if s.isHalted then ["Halted: " ++ s.journal.reason.shown] else []
  head ++ titled "Frontier" s.frontier ++ titled "Seen" s.seen ++ ending ++ [rule]

/-- What a record says was produced: its items, which must be strings, or a remark. -/
def produced (v : Json) : Except Fault Text :=
  if v.isTruthy then do
    let names ← (← v.each).mapM fun
      | .string t => Except.ok t
      | _ => .error Fault.wrongKind
    return .join ", " names
  else .ok "(nothing new)"

def record (v : Json) : Except Fault Text := do
  let produced ← produced (← v.field "produced")
  let round ← v.field "round"
  let pairs ← v.field "pairs"
  let outcome ← v.field "outcome"
  return "  Round " ++ round.shown ++ ": " ++ pairs.shown ++ " pairs -> " ++ produced ++
    " [" ++ outcome.shown ++ "]"

/-- The lines of the records up to the first that cannot be told, and what is wrong with it. -/
def records : List Json → List Text × Option Fault
  | [] => ([], none)
  | v :: rest => match record v with
    | .error fault => ([], some fault)
    | .ok line =>
      let (lines, fault?) := records rest
      (line :: lines, fault?)

def history (s : Search) : List Text × Option Fault :=
  let title : List Text := ["\n" ++ rule, "Saturation history:", rule]
  match s.journal.history.each with
  | .error fault => (title, some fault)
  | .ok items =>
    let (lines, fault?) := records items
    (title ++ lines, fault?)

end Report

end Saturation
