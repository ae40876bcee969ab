import Saturation.Checkpoint
import Saturation.CommandLine.Help
import Saturation.Listing
import Saturation.Report
import Saturation.Run

/-!
# A session of the program

A session reads one text, the one its options name, and then performs acts in order: it prints
lines and writes files.  At the end it exits with a code, or a fault escapes it.  The program's
caller reads the text and carries the acts out; if a file cannot be written, the session is over
there and nothing after it happens.
-/

namespace Saturation.CommandLine

/-! ## Sources -/

inductive Source
  | saved (file : String)
  | sample (sample : Sample)
  | listing (file : String)
  | input

/-- A file name that is not empty. -/
def named? (file : Option String) : Option String := file.filter (· != "")

/-- A saved search goes before a sample, a sample before a listing.  An empty file name does not
count. -/
def Options.source (o : Options) : Source :=
  match named? o.load, o.problem, named? o.file with
  | some file, _, _ => .saved file
  | none, some sample, _ => .sample sample
  | none, none, some file => .listing file
  | none, none, none => .input

def Source.file? : Source → Option String
  | saved file => some file
  | listing file => some file
  | _ => none

/-- The search to start with, from the text of the source. -/
def Source.search (source : Source) (text : String) : Except Fault Search :=
  match source with
  | saved _ => Search.load text
  | sample s => .ok (.start s.entries)
  | _ => match Listing.read (Text.lines ↑(Text.unifyBreaks text)) with
    | .ok es => .ok (.start es)
    | .error e => .error (.literal e)

/-! ## Acts -/

inductive Act
  | print (line : Text)
  | complain (line : String)
  | write (file text : String)

inductive Close
  | exit (code : Nat)
  | escape (fault : Fault)

structure Session where
  acts : List Act
  close : Close

namespace Session

/-- A session that does something else first. -/
def after (acts : List Act) (s : Session) : Session := { s with acts := acts ++ s.acts }

def refuse : Refusal → Session
  | .helpWanted => ⟨help.map fun (line : String) => .print line, .exit 0⟩
  | .usage e => ⟨(complaint e).map .complain, .exit 2⟩

end Session

namespace Options

/-- Lines that a quiet session does not print. -/
def tell (o : Options) (lines : List Text) : List Act :=
  if o.quiet then [] else lines.map .print

/-- Writes the search to the file of the session, if it has one, before the rest of the session.  A
search that cannot be saved in full ends the session. -/
def keep (o : Options) (s : Search) (rest : Session) : Session :=
  match named? o.save with
  | none => rest
  | some file => match s.saveFault? with
    | none => rest.after [.write file s.save]
    | some fault => ⟨[.write file s.save], .escape fault⟩

/-- Tells or keeps what a run does for others to see, before the rest of the session. -/
def follow (o : Options) (events : List Event) (rest : Session) : Session :=
  events.foldr
    (fun event rest => match event with
      | .note n => rest.after (o.tell [n.line])
      | .checkpoint s => o.keep s rest)
    rest

/-- Once the run is over: the course of the rounds, the saved search, and the decision.  A history
that cannot be told ends the session, unless it is quiet. -/
def conclude (o : Options) (s : Search) : Session :=
  let (lines, fault?) := Report.history s
  let saying := match named? o.save with
    | some file => o.tell [↑("State saved to " ++ file)]
    | none => []
  let decision : Session := ⟨saying ++ [.print s.verdict.decision], .exit 0⟩
  match o.quiet, fault? with
  | false, some fault => ⟨o.tell (Report.state s ++ lines), .escape fault⟩
  | _, _ => (o.keep s decision).after (o.tell (Report.state s ++ lines))

/-- The limits of the run: the cap of the options, and an interruption that may come.  It is told
as it goes unless the session is quiet. -/
def limits (o : Options) (patience : Option Nat) : Limits :=
  { cap := o.maxRounds, patience, aloud := !o.quiet }

/-- The session from a search on. -/
def proceed (o : Options) (patience : Option Nat) (s : Search) : Session :=
  let mode := if o.strict then Mode.strict else .permissive
  let run := s.run mode (o.limits patience)
  let rest : Session := match run.ending with
    | .failed fault => ⟨[], .escape fault⟩
    | .interrupted => (o.conclude run.search).after [.print "\nInterrupted."]
    | _ => o.conclude run.search
  (o.follow run.events rest).after (o.tell (Report.state s))

/-- The greeting of a session that takes up a saved search. -/
def greeting (o : Options) (s : Search) : List Act :=
  match o.source with
  | .saved file =>
    o.tell ["Loaded state from " ++ file ++ " (round " ++ s.journal.round.shown ++ ")"]
  | _ => []

/-- The session for the text of its source.  A text that names no literal is complained about;
other faults escape. -/
def session (o : Options) (patience : Option Nat) (text : String) : Session :=
  match o.source.search text with
  | .ok s => (o.proceed patience s).after (o.greeting s)
  | .error (.literal e) => ⟨[.complain ("error: " ++ e.message)], .exit 2⟩
  | .error fault => ⟨[], .escape fault⟩

end Options

/-! ## Calls -/

/-- The session of a command line.  The caller says how the text of a source is come by: at once,
or by reading files. -/
def call {m : Type → Type} [Monad m] (text : Source → m (Except Fault String))
    (patience : Option Nat) (args : List String) : m Session :=
  match Options.ofArguments args with
  | .error refusal => return .refuse refusal
  | .ok o => do
    match ← text o.source with
    | .ok text => return o.session patience text
    | .error fault => return ⟨[], .escape fault⟩

end Saturation.CommandLine
