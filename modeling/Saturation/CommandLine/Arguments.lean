import Saturation.Run
import Saturation.Samples

/-!
# Command-line arguments

The arguments of the program are read in two steps.  First each argument is classified on its own:
it names a switch, in full or by a beginning that no other switch shares, or it is a plain word.
Everything after the divider `--` is a plain word.  Then the arguments are taken in order: a switch
sets an option, the first plain word is the file to read, and what nobody takes is reported when
all is done.
-/

namespace Saturation.CommandLine

/-! ## Switches -/

inductive Switch
  | help
  | problem
  | strict
  | maxRounds
  | save
  | load
  | quiet
deriving DecidableEq

namespace Switch

/-- The spellings of all switches, in the order in which they are listed. -/
def spellings : List (String × Switch) :=
  [("-h", help), ("--help", help), ("--problem", problem), ("--strict", strict),
   ("--max-rounds", maxRounds), ("--save", save), ("--load", load), ("--quiet", quiet)]

def ofSpelling? (s : String) : Option Switch := spellings.lookup s

def takesValue : Switch → Bool
  | problem => true
  | maxRounds => true
  | save => true
  | load => true
  | _ => false

/-- The switch with all its spellings, as messages name it. -/
def name (s : Switch) : String :=
  "/".intercalate ((spellings.filter (·.2 = s)).map Prod.fst)

end Switch

/-! ## Errors -/

/-- What can be wrong with the arguments. -/
inductive UsageError
  | ambiguous (given : String) (spellings : List String)
  | ignoredValue (switch : Switch) (given : String)
  | missingValue (switch : Switch)
  | notAnInteger (given : String)
  | notASample (given : String)
  | unrecognized (given : List String)

def UsageError.message : UsageError → String
  | ambiguous given spellings =>
    "ambiguous option: " ++ given ++ " could match " ++ ", ".intercalate spellings
  | ignoredValue switch given =>
    "argument " ++ switch.name ++ ": ignored explicit argument " ++ Text.quoted given
  | missingValue switch => "argument " ++ switch.name ++ ": expected one argument"
  | notAnInteger given =>
    "argument " ++ Switch.maxRounds.name ++ ": invalid int value: " ++ Text.quoted given
  | notASample given =>
    "argument " ++ Switch.problem.name ++ ": invalid choice: " ++ Text.quoted given ++
      " (choose from " ++
      ", ".intercalate (Sample.names.map fun (name : String) => Text.quoted name) ++ ")"
  | unrecognized given => "unrecognized arguments: " ++ " ".intercalate given

/-- Why the arguments give no options: they are wrong, or they ask for help. -/
inductive Refusal
  | usage (error : UsageError)
  | helpWanted

/-! ## Classification -/

inductive Argument
  | word (text : String)
  /-- The first `--`. -/
  | divider
  | long (switch : Switch) (value : Option String)
  /-- The one switch that has a letter, with what follows the letter or an equals sign after it. -/
  | letter (value : Option String)
  /-- It looks like a switch and is none. -/
  | unknown (text : String)

/-- The parts before and after the first equals sign. -/
def splitEquals (s : String) : String × Option String :=
  let cs := s.toList
  match cs.dropWhile (· != '=') with
  | [] => (s, none)
  | _ :: value => (.ofList (cs.takeWhile (· != '=')), some (.ofList value))

/-- The argument that a full spelling stands for. -/
def Argument.ofSwitch (spelling : String) (switch : Switch) (value : Option String) : Argument :=
  if spelling = "-h" then .letter value else .long switch value

def startingWith (beginning : String) : List (String × Switch) :=
  Switch.spellings.filter fun (spelling, _) => beginning.toList.isPrefixOf spelling.toList

/-- An argument that starts with a dash and is no full spelling: a beginning of a long spelling,
the letter with more behind it, a word after all, or an unknown switch. -/
def classifyLoose (s : String) : Except UsageError Argument :=
  let (beginning, value) := splitEquals s
  let asWord := if Text.looksNegative s || s.toList.contains ' ' then .word s else .unknown s
  match s.toList with
  | '-' :: '-' :: _ => match startingWith beginning with
    | [] => .ok asWord
    | [(_, switch)] => .ok (.long switch value)
    | several => .error (.ambiguous s (several.map Prod.fst))
  | '-' :: 'h' :: rest => .ok (.letter (some (.ofList rest)))
  | _ => .ok asWord

def classify (s : String) : Except UsageError Argument :=
  if s.toList.head? ≠ some '-' then .ok (.word s)
  else match Switch.ofSpelling? s with
    | some switch => .ok (.ofSwitch s switch none)
    | none =>
      if s = "-" then .ok (.word s)
      else match splitEquals s with
        | (spelling, some value) => match Switch.ofSpelling? spelling with
          | some switch => .ok (.ofSwitch spelling switch (some value))
          | none => classifyLoose s
        | _ => classifyLoose s

/-- Classifies the arguments up to the divider; those after it are words. -/
def classifyAll : List String → Except UsageError (List Argument)
  | [] => .ok []
  | s :: rest =>
    if s = "--" then .ok (.divider :: rest.map .word)
    else match classify s with
      | .error e => .error e
      | .ok a => (classifyAll rest).map (a :: ·)

/-! ## Options -/

structure Options where
  file : Option String := none
  problem : Option Sample := none
  strict : Bool := false
  maxRounds : Cap := .uncapped
  save : Option String := none
  load : Option String := none
  quiet : Bool := false

def Options.setValue (o : Options) (switch : Switch) (value : String) : Except UsageError Options :=
  match switch with
  | .problem => match Sample.find value with
    | .ok sample => .ok { o with problem := some sample }
    | .error _ => .error (.notASample value)
  | .maxRounds => match Text.integer? value with
    | some n => .ok { o with maxRounds := .rounds n }
    | none => .error (.notAnInteger value)
  | .save => .ok { o with save := some value }
  | .load => .ok { o with load := some value }
  | _ => .ok o

/-- Takes the value of a switch away again.  The option is as if it had not been set, but a cap is
left without a meaning. -/
def Options.unsetValue (o : Options) (switch : Switch) : Options :=
  match switch with
  | .problem => { o with problem := none }
  | .maxRounds => { o with maxRounds := .meaningless }
  | .save => { o with save := none }
  | .load => { o with load := none }
  | _ => o

/-- Takes a value that stands in the same argument as its switch.  A divider in the place of the
value is dropped, which leaves the switch without one. -/
def Options.setAttached (o : Options) (switch : Switch) (value : String) :
    Except UsageError Options :=
  if value = "--" then .ok (o.unsetValue switch) else o.setValue switch value

def Options.setFlag (o : Options) (switch : Switch) : Options :=
  match switch with
  | .strict => { o with strict := true }
  | .quiet => { o with quiet := true }
  | _ => o

/-- The part that nobody takes of the text after the letter `h`.  The same letter again asks for
help again; what comes after that is a value for a switch that takes none, and so is an empty text,
which stands after an equals sign. -/
def letterRow (cs : List Char) : Option (List Char) :=
  match cs, cs.dropWhile (· == 'h') with
  | [], _ => some []
  | _, [] => none
  | _, rest => some rest

/-- The options so far, whether the file is still to come, and the arguments nobody took. -/
structure Taken where
  options : Options := {}
  fileOpen : Bool := true
  spare : List String := []

/-- Takes the arguments in order.  The file is the first word that no switch takes; the divider
goes with the word next to it, before or after. -/
def take (t : Taken) : List Argument → Except Refusal Taken
  | [] => .ok t
  | .letter none :: _ => .error .helpWanted
  | .letter (some value) :: _ => match letterRow value.toList with
    | some given => .error (.usage (.ignoredValue .help (.ofList given)))
    | none => .error .helpWanted
  | .unknown s :: rest => take { t with spare := t.spare ++ [s] } rest
  | .long switch value :: rest =>
    if switch.takesValue then
      match value, rest with
      | some value, rest => match t.options.setAttached switch value with
        | .ok options => take { t with options } rest
        | .error e => .error (.usage e)
      | none, .word value :: rest => match t.options.setValue switch value with
        | .ok options => take { t with options } rest
        | .error e => .error (.usage e)
      | none, _ => .error (.usage (.missingValue switch))
    else match value with
      | some value => .error (.usage (.ignoredValue switch value))
      | none =>
        if switch = .help then .error .helpWanted
        else take { t with options := t.options.setFlag switch } rest
  | .divider :: .word s :: rest =>
    if t.fileOpen then
      take { t with options := { t.options with file := some s }, fileOpen := false } rest
    else take { t with spare := t.spare ++ ["--", s] } rest
  | .divider :: rest =>
    if t.fileOpen then take { t with fileOpen := false } rest
    else take { t with spare := t.spare ++ ["--"] } rest
  | .word s :: .divider :: rest =>
    if t.fileOpen then
      take { t with options := { t.options with file := some s }, fileOpen := false } rest
    else take { t with spare := t.spare ++ [s, "--"] } rest
  | .word s :: rest =>
    if t.fileOpen then
      take { t with options := { t.options with file := some s }, fileOpen := false } rest
    else take { t with spare := t.spare ++ [s] } rest

def Options.ofArguments (args : List String) : Except Refusal Options :=
  match classifyAll args with
  | .error e => .error (.usage e)
  | .ok classified => match take {} classified with
    | .error refusal => .error refusal
    | .ok taken =>
      if taken.spare.isEmpty then .ok taken.options
      else .error (.usage (.unrecognized taken.spare))

end Saturation.CommandLine
