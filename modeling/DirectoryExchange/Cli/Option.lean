import DirectoryExchange.Format

/-!
# Options

The options of the program, by their long and short names, and which of them each mode has.  An
option may take a value, which has to be of the right kind.
-/

namespace DirectoryExchange.Cli

/-- Why arguments are not accepted, or what they ask for instead of work. -/
inductive UsageError where
  /-- Something that has to be given is not. -/
  | missingArgument
  /-- There is no such option, or there are too many words. -/
  | unknownArgument
  /-- Arguments that exclude each other, or one that is repeated. -/
  | conflict
  /-- A value is not one of those allowed, or not there. -/
  | invalidValue
  /-- A value is no number in range. -/
  | invalidNumber
  /-- An option that takes no value is given one. -/
  | unwantedValue
  /-- There is no such mode. -/
  | unknownMode
  /-- Nothing is given at all. -/
  | nothingGiven
  /-- Options are given, but no mode. -/
  | missingMode
  /-- Help is asked for. -/
  | help
  /-- The version is asked for. -/
  | version
  deriving DecidableEq, Repr

namespace UsageError

/-- The error in words. -/
def message : UsageError → String
  | missingArgument => "a required argument is missing"
  | unknownArgument => "unexpected argument"
  | conflict => "an argument cannot be used with another or more than once"
  | invalidValue => "invalid or missing value"
  | invalidNumber => "invalid number"
  | unwantedValue => "unexpected value for an option that takes none"
  | unknownMode => "unrecognized mode"
  | nothingGiven => "usage: [-v] load|dump|convert ..."
  | missingMode => "a mode is required"
  | help => "usage: [-v] load|dump|convert ..."
  | version => "0.1.0"

/-- The exit code of the program. -/
def exitCode : UsageError → Nat
  | help => 0
  | version => 0
  | _ => 2

end UsageError

/-- What an argument is about. -/
inductive ArgumentName where
  | verbose
  | help
  | version
  | ldapUri
  | bindDn
  | credentialsFile
  | timeout
  | format
  | sourceFormat
  | targetFormat
  | ignoreErrors
  | strict
  | base
  | filter
  | output
  | input
  deriving DecidableEq, Repr

/-- What the value of an argument is. -/
inductive ValueKind where
  /-- Any text. -/
  | text
  /-- A path, which is not empty. -/
  | path
  /-- The name of a format. -/
  | format
  /-- A number of 64 bits. -/
  | seconds
  deriving DecidableEq, Repr

/-- The format of that name. -/
def formatOfWord? (word : String) : Option Format :=
  match word with
  | "ldif" => some .ldif
  | "dsml" => some .dsml
  | _ => none

/-- The digits without a plus sign in front of them. -/
def dropPlus : List Char → List Char
  | '+' :: digits => digits
  | digits => digits

/-- The number of 64 bits that the text gives. -/
def seconds? (text : String) : Option Nat :=
  let digits := dropPlus text.toList
  if digits ≠ [] ∧ digits.all Char.isDigit then
    let n := digits.foldl (fun n c => n * 10 + (c.toNat - 0x30)) 0
    if n < UInt64.size then some n else none
  else none

/-- What is wrong with a value of that kind, if anything is. -/
def ValueKind.fault? (kind : ValueKind) (value : String) : Option UsageError :=
  match kind with
  | text => none
  | path => if value = "" then some .invalidValue else none
  | format => if (formatOfWord? value).isSome then none else some .invalidValue
  | seconds => if (seconds? value).isSome then none else some .invalidNumber

/-- What an option does. -/
inductive OptionKind where
  /-- It is given or not. -/
  | flag
  /-- It is counted. -/
  | count
  /-- It ends the work with an answer of its own. -/
  | answer (answer : UsageError)
  /-- It has a value. -/
  | value (kind : ValueKind)
  deriving DecidableEq, Repr

/-- An option. -/
structure OptionSpec where
  /-- What it is about. -/
  name : ArgumentName
  /-- The name behind two hyphens. -/
  long : String
  /-- The letter behind one hyphen. -/
  short : Option Char
  /-- What it does. -/
  kind : OptionKind
  deriving DecidableEq, Repr

/-- The options and words that may be given. -/
structure Grammar where
  /-- The options. -/
  options : List OptionSpec
  /-- Whether one word may be given, the path of the input. -/
  takesInput : Bool
  deriving DecidableEq, Repr

/-- The options that stand everywhere. -/
def commonOptions : List OptionSpec :=
  [⟨.verbose, "verbose", some 'v', .count⟩, ⟨.help, "help", some 'h', .answer .help⟩]

/-- The options in front of the mode. -/
def topGrammar : Grammar where
  options := commonOptions ++ [⟨.version, "version", some 'V', .answer .version⟩]
  takesInput := false

/-- The options for the connection to a server. -/
def connectionOptions : List OptionSpec :=
  [⟨.ldapUri, "ldap-uri", some 'H', .value .text⟩, ⟨.bindDn, "bind-dn", some 'D', .value .text⟩,
    ⟨.credentialsFile, "credentials-file", some 'c', .value .path⟩,
    ⟨.timeout, "timeout", none, .value .seconds⟩]

/-- The base of a search. -/
def baseOption : OptionSpec := ⟨.base, "base", some 'b', .value .text⟩

/-- The filter of a search. -/
def filterOption : OptionSpec := ⟨.filter, "filter", some 'f', .value .text⟩

/-- The path of the output. -/
def outputOption : OptionSpec := ⟨.output, "output", some 'o', .value .path⟩

/-- The format, where there is only one. -/
def formatOption : OptionSpec := ⟨.format, "format", none, .value .format⟩

/-- Whether a failure ends the program. -/
def strictOption : OptionSpec := ⟨.strict, "strict", none, .flag⟩

/-- Whether errors are passed over. -/
def ignoreErrorsOption : OptionSpec := ⟨.ignoreErrors, "ignore-errors", none, .flag⟩

/-- The options of the mode that loads. -/
def loadGrammar : Grammar where
  options := commonOptions ++ connectionOptions ++ [formatOption, ignoreErrorsOption, strictOption]
  takesInput := true

/-- The options of the mode that dumps. -/
def dumpGrammar : Grammar where
  options := commonOptions ++ connectionOptions ++
    [formatOption, baseOption, filterOption, outputOption, strictOption]
  takesInput := false

/-- The options of the mode that converts. -/
def convertGrammar : Grammar where
  options := commonOptions ++
    [⟨.sourceFormat, "from", none, .value .format⟩, ⟨.targetFormat, "to", none, .value .format⟩,
      baseOption, filterOption, ignoreErrorsOption, outputOption]
  takesInput := true

end DirectoryExchange.Cli
