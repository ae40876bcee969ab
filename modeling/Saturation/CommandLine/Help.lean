import Saturation.CommandLine.Arguments
import Saturation.Report

/-!
# Usage and help

The texts that tell how to call the program, for a page of eighty columns.
-/

namespace Saturation.CommandLine

/-- The switch of the samples with the names to choose from. -/
def problemUsage : String := "--problem \x7b" ++ ",".intercalate Sample.names ++ "\x7d"

def usage : List String :=
  ["usage: prover [-h]",
   "              [" ++ problemUsage ++ "]",
   "              [--strict] [--max-rounds MAX_ROUNDS] [--save SAVE] [--load LOAD]",
   "              [--quiet]",
   "              [file]"]

def help : List String :=
  usage ++
  ["",
   "Propositional resolution prover",
   "",
   "positional arguments:",
   "  file                  Clause file, one clause per line (default: stdin)",
   "",
   "options:",
   "  -h, --help            show this help message and exit",
   "  " ++ problemUsage,
   "                        Run a built-in sample problem instead of reading input",
   "  --strict              Only resolve on literals whose complement is in the",
   "                        partner clause",
   "  --max-rounds MAX_ROUNDS",
   "                        Round limit",
   "  --save SAVE           Save state to file",
   "  --load LOAD           Load state from file",
   "  --quiet               Print only the decision"]

/-- What is said about arguments that are wrong. -/
def complaint (e : UsageError) : List String := usage ++ ["prover: error: " ++ e.message]

end Saturation.CommandLine
