import QuantClassifier.CommandLine.Grammar
import QuantClassifier.Failure

/-!
# Ends of programs

How the run of a program ends: a code, what was printed, and the failure if there was one. A command
line that asks for help or for the version is answered, any other one that is refused ends with the
code two. A panic has a code of its own.
-/

namespace QuantClassifier

/-- What a program tells of itself. -/
structure ProgramInfo where
  name : String
  version : String
  purpose : String
  usage : String
  /-- The options with a text for each. -/
  options : List (String × String)

namespace ProgramInfo

/-- The options that every program has. -/
def commonOptions : List (String × String) :=
  [("-v...", "Sets the level of verbosity"), ("-h, --help", "Print help"),
    ("-V, --version", "Print version")]

/-- The lines of the options, their texts below each other. -/
def optionLines (options : List (String × String)) : List String :=
  let width := (options.map (·.1.length)).foldr max 0
  options.map fun (name, text) =>
    "  " ++ name ++ String.ofList (List.replicate (width + 2 - name.length) ' ') ++ text

/-- The help. -/
def help (i : ProgramInfo) : String :=
  "\n".intercalate ([i.purpose, "", s!"Usage: {i.name} {i.usage}", "", "Options:"] ++
    optionLines (i.options ++ commonOptions))

/-- The version. -/
def versionText (i : ProgramInfo) : String := s!"{i.name} {i.version}"

end ProgramInfo

/-- How a run ends. -/
structure Exit where
  code : Nat
  output : Option String
  failure : Option Failure
  deriving DecidableEq

namespace Exit

/-- A run that did what it should, and printed a text or nothing. -/
def success (output : Option String) : Exit := ⟨0, output, none⟩

/-- A run that failed. -/
def failed (f : Failure) : Exit := ⟨1, none, some f⟩

/-- A run that was broken off. -/
def panicked : Exit := ⟨101, none, none⟩

/-- A run that has no result. -/
def stopped : Stop → Exit
  | .failure f => failed f
  | .panic _ => panicked

/-- A run that a command line did not lead to. -/
def refused (i : ProgramInfo) : CommandLine.Refusal → Exit
  | .help => success i.help
  | .version => success i.versionText
  | _ => ⟨2, none, none⟩

end Exit

end QuantClassifier
