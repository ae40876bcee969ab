import Saturation.CommandLine.Session

/-!
# The program

Reads the arguments and the text that they name, and carries out the acts of the session.
-/

namespace Saturation

open CommandLine

/-- The cause of an error of the file system; what is not told apart counts as missing. -/
def causeOf : IO.Error → FileCause
  | .inappropriateType _ 21 _ => .isDirectory
  | .inappropriateType .. => .notDirectory
  | .invalidArgument .. => .nameTooLong
  | _ => .missing

/-- Does something with a file, or says why it cannot be opened. -/
def withFile {α : Type} (file : String) (act : IO α) : IO (Except Fault α) := do
  if file.toList.contains '\x00' then return .error (.file .nullInName file)
  try return .ok (← act)
  catch e => return .error (.file (causeOf e) file)

def fail {α : Type} (fault : Fault) : IO α := throw (IO.userError fault.message)

/-- Carries out one act.  A line with a surrogate in it cannot be printed. -/
def perform : Act → IO Unit
  | .print line => match line.toString? with
    | some line => IO.println line
    | none => throw (IO.userError "surrogates cannot be printed")
  | .complain line => IO.eprintln line
  | .write file text => do
    match ← withFile file (IO.FS.writeFile file text) with
    | .ok _ => return
    | .error fault => fail fault

def carryOut (s : Session) : IO UInt32 := do
  s.acts.forM perform
  match s.close with
  | .exit code => return code.toUInt32
  | .escape fault => fail fault

def textOf (source : Source) : IO (Except Fault String) := do
  match source, source.file? with
  | .input, _ => return .ok (← (← IO.getStdin).readToEnd)
  | _, some file => withFile file (IO.FS.readFile file)
  | _, none => return .ok ""

end Saturation

open Saturation CommandLine in
def main (args : List String) : IO UInt32 := do
  carryOut (← call textOf none args)
