import AgenticLocalApp.Domain.States

/-!
# Shells, verdicts and translations

The exit codes by which a shell says it could not run a program, the verdict of a recognised
program, and what the dialect dictionary decides about a command.
-/

namespace AgenticLocalApp

inductive ShellDialect where
  | posix | powershell | cmd | unknown
  deriving DecidableEq, Repr

instance : StrEnum ShellDialect where
  value
    | .posix => "posix"
    | .powershell => "powershell"
    | .cmd => "cmd"
    | .unknown => "unknown"

/-- The exit codes by which a shell says that it could not run the program a command names. -/
def notRunExitCodes : ShellDialect → List (Int × String)
  | .cmd => [(9009, "COMMAND_NOT_FOUND")]
  | _ => [(127, "COMMAND_NOT_FOUND"), (126, "COMMAND_NOT_EXECUTABLE")]

def commandNotRunReason (dialect : ShellDialect) (exitCode : Option Int) : Option String :=
  exitCode.bind fun code => List.lookup code (notRunExitCodes dialect)

/-- What became of one command line; nothing was rewritten exactly when there is a `reason`. -/
structure CommandTranslation where
  source : ShellDialect
  target : ShellDialect
  original : String
  executed : String
  rules : List String := []
  reason : Option String := none

def CommandTranslation.translated (t : CommandTranslation) : Bool := t.reason.isNone

/-- The dialect dictionary, aimed at the shell that runs the commands; `translate` raises a
`ValueError`, given by its message, where a count of a command cannot be read as a number. -/
structure ShellTranslator where
  target : ShellDialect
  translate : Option String → Except String (Option CommandTranslation)

/-- The programs whose non-zero exit is a verdict, as a test on the command line. -/
structure VerdictPrograms where
  matchesCmd : Option String → Bool

/-- The command ran to its end and answered something other than zero, and that answer is the
program's and not the shell's. -/
def VerdictPrograms.isVerdict (v : VerdictPrograms) (cmd : Option String) (exitCode : Option Int)
    (timedOut : Bool) (dialect : ShellDialect) : Bool :=
  if timedOut || exitCode = none || exitCode = some 0 then false
  else if (commandNotRunReason dialect exitCode).isSome then false
  else v.matchesCmd cmd

end AgenticLocalApp
