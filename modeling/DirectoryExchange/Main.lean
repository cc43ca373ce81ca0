import DirectoryExchange.Cli.Program

/-!
# The command line

Reads the arguments and files of the machine and leaves all else to the library.
-/

namespace DirectoryExchange.Cli

/-- The octets of a file of the machine as a list. -/
def octetsOf (content : ByteArray) : Bytes := content.toList

/-- The source of an open file of the machine. -/
def readHandle (handle : IO.FS.Handle) : IO Source := do
  try
    let content ← handle.readBinToEnd
    return { bytes := octetsOf content }
  catch e =>
    return { bytes := [], failure := some ⟨toString e⟩ }

/-- The source at a path of the machine, if it can be opened. -/
def openInput (path : String) : IO (Option Source) := do
  try
    let handle ← IO.FS.Handle.mk path IO.FS.Mode.read
    let source ← readHandle handle
    return some source
  catch _ =>
    return none

/-- Opens a file of the machine for writing, if it can be created. -/
def createOutput (path : String) : IO (Option IO.FS.Stream) := do
  try
    let handle ← IO.FS.Handle.mk path IO.FS.Mode.write
    return some (IO.FS.Stream.ofHandle handle)
  catch _ =>
    return none

/-- Tells of a failure and gives the exit code for it. -/
def fail (e : ProgramError) : IO UInt32 := do
  IO.eprintln e.report
  return 1

/-- Converts a file of the machine. -/
def convert (a : ConvertArguments) : IO UInt32 := do
  match ← openInput a.input with
  | none => fail (.cannotOpen a.input)
  | some source =>
    match a.load source with
    | .error e => fail e
    | .ok d =>
      let output ← match a.output with
        | none => some <$> IO.getStdout
        | some path => createOutput path
      match output with
      | none => fail (.cannotCreate (a.output.getD ""))
      | some stream =>
        let (octets, failure) := a.dump d
        stream.write (ByteArray.mk octets.toArray)
        stream.flush
        match failure with
        | none => return 0
        | some e => fail e

/-- Loads a file of the machine, as far as that is possible without a server. -/
def load (a : LoadArguments) : IO UInt32 := do
  match ← openInput a.input with
  | none => fail (.cannotOpen a.input)
  | some _ => fail (unreachable a.connection)

/-- Dumps to a file of the machine, as far as that is possible without a server. -/
def dump (a : DumpArguments) : IO UInt32 := do
  match a.output with
  | none => fail (unreachable a.connection)
  | some path =>
    match ← createOutput path with
    | none => fail (.cannotCreate path)
    | some _ => fail (unreachable a.connection)

end DirectoryExchange.Cli

open DirectoryExchange.Cli in
/-- Does what the arguments ask for. -/
def main (args : List String) : IO UInt32 := do
  match parse args with
  | .error e =>
    if e.exitCode = 0 then IO.println e.message else IO.eprintln e.message
    return e.exitCode.toUInt32
  | .ok arguments =>
    match arguments.mode with
    | .load a => load a
    | .dump a => dump a
    | .convert a => convert a
