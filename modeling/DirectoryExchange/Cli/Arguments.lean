import DirectoryExchange.Cli.Reading

/-!
# Arguments

What the program is asked to do.  The arguments are read up to the word for the mode, and then by
the grammar of this mode; what was read is then put together.
-/

namespace DirectoryExchange.Cli

/-- How the program makes itself known to a server. -/
inductive Authentication where
  /-- With this name and a password that is asked for. -/
  | prompt (bindDn : String)
  /-- With the name and password in a file. -/
  | file (path : String)
  deriving DecidableEq, Repr

/-- How a server is reached. -/
structure ConnectionArguments where
  /-- The address of the server. -/
  ldapUri : String
  /-- How the program makes itself known. -/
  authentication : Authentication
  /-- How many seconds to wait for the connection. -/
  timeout : Option Nat
  deriving DecidableEq, Repr

/-- What is to be loaded. -/
structure LoadArguments where
  /-- How the server is reached. -/
  connection : ConnectionArguments
  /-- The format, if it is not to be taken from the path. -/
  format : Option Format
  /-- Whether errors are passed over. -/
  ignoreErrors : Bool
  /-- Whether a failure ends the program. -/
  strict : Bool
  /-- The path of the input. -/
  input : String
  deriving DecidableEq, Repr

/-- What is to be dumped. -/
structure DumpArguments where
  /-- How the server is reached. -/
  connection : ConnectionArguments
  /-- The format, if it is not to be taken from the path. -/
  format : Option Format
  /-- The base of the search. -/
  base : String
  /-- The filter of the search. -/
  filter : String
  /-- The path of the output, if it has one. -/
  output : Option String
  /-- Whether a failure ends the program. -/
  strict : Bool
  deriving DecidableEq, Repr

/-- What is to be converted. -/
structure ConvertArguments where
  /-- The format of the input, if it is not to be taken from its path. -/
  sourceFormat : Option Format
  /-- The format of the output, if it is not to be taken from its path. -/
  targetFormat : Option Format
  /-- The base of the search. -/
  base : String
  /-- The filter of the search. -/
  filter : String
  /-- Whether errors are passed over. -/
  ignoreErrors : Bool
  /-- The path of the input. -/
  input : String
  /-- The path of the output, if it has one. -/
  output : Option String
  deriving DecidableEq, Repr

/-- What the program does. -/
inductive Mode where
  /-- Loads a file into a directory. -/
  | load (arguments : LoadArguments)
  /-- Dumps a directory into a file. -/
  | dump (arguments : DumpArguments)
  /-- Converts a file. -/
  | convert (arguments : ConvertArguments)
  deriving DecidableEq, Repr

/-- What the program is asked to do. -/
structure Arguments where
  /-- How much output is asked for. -/
  verbose : Nat
  /-- What the program does. -/
  mode : Mode
  deriving DecidableEq, Repr

/-- The filter that is satisfied by every entry. -/
def defaultFilter : String := "(objectclass=*)"

namespace Reading

/-- The format given for the argument. -/
def format? (r : Reading) (name : ArgumentName) : Option Format :=
  (r.value? name).bind formatOfWord?

/-- How the program makes itself known. -/
def authentication? (r : Reading) : Option Authentication :=
  ((r.value? .bindDn).map .prompt).or ((r.value? .credentialsFile).map .file)

/-- How the server is reached. -/
def connection? (r : Reading) : Option ConnectionArguments := do
  let ldapUri ← r.value? .ldapUri
  let authentication ← r.authentication?
  return { ldapUri, authentication, timeout := (r.value? .timeout).bind seconds? }

/-- The mode that loads, if all that it needs is given. -/
def load? (r : Reading) : Option Mode := do
  let connection ← r.connection?
  let input ← r.value? .input
  return .load { connection, format := r.format? .format, ignoreErrors := r.has .ignoreErrors,
                 strict := r.has .strict, input }

/-- The mode that dumps, if all that it needs is given. -/
def dump? (r : Reading) : Option Mode := do
  let connection ← r.connection?
  let base ← r.value? .base
  return .dump { connection, format := r.format? .format, base,
                 filter := (r.value? .filter).getD defaultFilter, output := r.value? .output,
                 strict := r.has .strict }

/-- The mode that converts, if all that it needs is given. -/
def convert? (r : Reading) : Option Mode := do
  let input ← r.value? .input
  return .convert { sourceFormat := r.format? .sourceFormat,
                    targetFormat := r.format? .targetFormat,
                    base := (r.value? .base).getD "",
                    filter := (r.value? .filter).getD defaultFilter,
                    ignoreErrors := r.has .ignoreErrors, input, output := r.value? .output }

/-- Whether arguments are given that exclude each other. -/
def hasConflict (r : Reading) : Bool := r.has .bindDn && r.has .credentialsFile

end Reading

/-- A mode by the grammar of its arguments and what they make. -/
structure ModeSpec where
  /-- The word for the mode. -/
  word : String
  /-- The arguments that it has. -/
  grammar : Grammar
  /-- What the arguments make, if all that is needed is given. -/
  make : Reading → Option Mode

/-- The modes. -/
def modes : List ModeSpec :=
  [⟨"load", loadGrammar, Reading.load?⟩, ⟨"dump", dumpGrammar, Reading.dump?⟩,
    ⟨"convert", convertGrammar, Reading.convert?⟩]

/-- The mode of the word. -/
def modeOfWord? (word : String) : Option ModeSpec := modes.find? fun spec => spec.word == word

/-- The word that asks for help. -/
def helpWord : String := "help"

/-- Whether the word may stand where a mode is expected. -/
def isModeWord (word : String) : Bool := (modeOfWord? word).isSome || word == helpWord

/-- The arguments of a mode, behind options that asked for so much output.  The mode's own wish for
output comes first. -/
def parseMode (spec : ModeSpec) (verbose : Nat) (arguments : List String) :
    Except UsageError Arguments := do
  let reading ← Reading.takeAll spec.grammar {} arguments
  if reading.hasConflict then .error .conflict
  else
    match spec.make reading with
    | some mode =>
      return ⟨if reading.verbose = 0 then verbose else reading.verbose, mode⟩
    | none => .error .missingArgument

/-- What is answered to the word for help, which may be followed by one mode. -/
def helpOn : List String → UsageError
  | [] => .help
  | [word] => if isModeWord word then .help else .unknownMode
  | _ => .unknownMode

/-- What is wrong if no mode follows. -/
def noMode (r : Reading) : UsageError := if r.verbose = 0 then .nothingGiven else .missingMode

/-- Reads the arguments up to the mode and then those of the mode. -/
def parseFrom (r : Reading) : List String → Except UsageError Arguments
  | [] => .error (noMode r)
  | argument :: rest =>
    if argument = "--" then
      match rest with
      | [] => .error (noMode r)
      | word :: _ => .error (if isModeWord word then .unknownArgument else .unknownMode)
    else
      match r.takeOption? topGrammar argument with
      | some result => do
        let r ← result
        parseFrom r rest
      | none =>
        match modeOfWord? argument with
        | some spec => parseMode spec r.verbose rest
        | none => .error (if argument = helpWord then helpOn rest else .unknownMode)

/-- What the arguments ask for. -/
def parse (arguments : List String) : Except UsageError Arguments := parseFrom {} arguments

end DirectoryExchange.Cli
