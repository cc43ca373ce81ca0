import DirectoryExchange.Cli.Arguments
import DirectoryExchange.Cli.Files
import DirectoryExchange.Directory.Change
import DirectoryExchange.Transfer.Dump
import DirectoryExchange.Transfer.Load

/-!
# The program

To convert a file is to load it into an empty directory in memory and to dump this directory in the
other format.  The output is opened only when everything has been loaded.  To load a file into a
server's directory, or to dump it, a connection is needed, and no address can be reached from here.
-/

namespace DirectoryExchange.Cli

/-- Why the program fails. -/
inductive ProgramError where
  /-- The input cannot be opened. -/
  | cannotOpen (path : String)
  /-- The output cannot be created. -/
  | cannotCreate (path : String)
  /-- The input was not loaded to its end. -/
  | interrupted (path : String)
  /-- A transfer failed. -/
  | failed (failure : Failure)
  deriving DecidableEq, Repr

/-- The error in words. -/
def ProgramError.message : ProgramError → String
  | cannotOpen path => s!"failed to open {path}"
  | cannotCreate path => s!"failed to create {path}"
  | interrupted path => s!"conversion of {path} was interrupted"
  | failed failure => failure.message

/-- What has become of the files and the standard output, and how the program failed, if it did. -/
structure Outcome where
  /-- The files at the end. -/
  files : Files
  /-- What was written to the standard output. -/
  output : Bytes := []
  /-- The failure. -/
  failure : Option ProgramError := none
  deriving DecidableEq, Repr

namespace ConvertArguments

/-- The format of the input. -/
def inputFormat (a : ConvertArguments) : Format := a.sourceFormat.getD (Format.ofPath a.input)

/-- The other format. -/
def otherFormat : Format → Format
  | .ldif => .dsml
  | .dsml => .ldif

/-- The format of the output: what is asked for, what its path says, or the other format. -/
def outputFormat (a : ConvertArguments) : Format :=
  (a.targetFormat.or (a.output.map Format.ofPath)).getD (otherFormat a.inputFormat)

/-- The directory into which all of the input has been loaded. -/
def load (a : ConvertArguments) (source : Source) : Except ProgramError Directory :=
  let report := Transfer.load Directory.connection .empty { opened := a.inputFormat.open? source }
    { ignoreErrors := a.ignoreErrors, mode := .strict }
  match report.result with
  | .error failure => .error (.failed failure)
  | .ok summary => if summary.complete then .ok report.state else .error (.interrupted a.input)

/-- What a dump of the directory leaves in an output that takes everything, and how it failed, if it
did. -/
def dump (a : ConvertArguments) (d : Directory) : Bytes × Option ProgramError :=
  let report := Transfer.dump Directory.connection d a.outputFormat a.base a.filter
    { sink := Sink.boundless, state := () } { mode := .strict }
  match report.result with
  | .ok _ => (report.output.written, none)
  | .error failure => (report.output.written, some (.failed failure))

/-- Dumps the directory to where the output goes. -/
def finish (a : ConvertArguments) (files : Files) (d : Directory) : Outcome :=
  match a.output with
  | none =>
    let (output, failure) := a.dump d
    { files, output, failure }
  | some path =>
    let (octets, failure) := a.dump d
    match files.write? path octets with
    | none => { files, failure := some (.cannotCreate path) }
    | some files => { files, failure }

/-- Converts the input. -/
def run (a : ConvertArguments) (files : Files) : Outcome :=
  match files.open? a.input with
  | none => { files, failure := some (.cannotOpen a.input) }
  | some source =>
    match a.load source with
    | .error failure => { files, failure := some failure }
    | .ok d => a.finish files d

end ConvertArguments

/-- The failure of an address that cannot be reached. -/
def unreachable (a : ConnectionArguments) : ProgramError :=
  .failed (.connection ⟨s!"failed to connect to {a.ldapUri}"⟩)

/-- Loads the input, for which the server has to be reached. -/
def LoadArguments.run (a : LoadArguments) (files : Files) : Outcome :=
  match files.open? a.input with
  | none => { files, failure := some (.cannotOpen a.input) }
  | some _ => { files, failure := some (unreachable a.connection) }

/-- Dumps to the output, which is created before the server is reached. -/
def DumpArguments.run (a : DumpArguments) (files : Files) : Outcome :=
  match a.output with
  | none => { files, failure := some (unreachable a.connection) }
  | some path =>
    match files.write? path [] with
    | none => { files, failure := some (.cannotCreate path) }
    | some files => { files, failure := some (unreachable a.connection) }

/-- Does what the arguments ask for. -/
def Arguments.run (a : Arguments) (files : Files) : Outcome :=
  match a.mode with
  | .load arguments => arguments.run files
  | .dump arguments => arguments.run files
  | .convert arguments => arguments.run files

/-- The exit code of an outcome. -/
def Outcome.exitCode (o : Outcome) : Nat := if o.failure.isSome then 1 else 0

/-- What is told of a failure. -/
def ProgramError.report (e : ProgramError) : String := s!"Error: {e.message}"

end DirectoryExchange.Cli
