import Saturation.Checkpoint
import Saturation.Run

/-!
# Runs that keep a file

A run hands over the search after each round.  Where a file is kept for the run, each of these
searches is written to it, over what was there.  A search that cannot be saved in full ends the run
at this point, and its text breaks off in the file.
-/

namespace Saturation

/-- A run, and the text in its file after it, if there is one. -/
structure Kept where
  run : Run
  text? : Option String

namespace Run

/-- What is left of the run by the events to come, from what is in the file before them. -/
def keepFrom (r : Run) : List Event → Option String → Kept
  | [], text? => { run := { r with events := [] }, text? }
  | .note n :: rest, text? =>
    let kept := r.keepFrom rest text?
    { kept with run := kept.run.after [.note n] }
  | .checkpoint s :: rest, _ =>
    match s.saveFault? with
    | some fault =>
      { run := { search := s, events := [.checkpoint s], ending := .failed fault }
        text? := some s.save }
    | none =>
      let kept := r.keepFrom rest (some s.save)
      { kept with run := kept.run.after [.checkpoint s] }

/-- The run with a file, from what is in the file before it. -/
def keep (r : Run) (text? : Option String) : Kept := r.keepFrom r.events text?

end Run

end Saturation
