import DirectoryExchange.Cli.Option

/-!
# Reading arguments

Arguments are read one after the other.  The value of an argument is looked at only when the next
one begins, so of two faults the one that is noticed first may stand further behind.
-/

namespace DirectoryExchange.Cli

/-- An argument whose value is not looked at yet. -/
structure Pending where
  /-- What it is about. -/
  name : ArgumentName
  /-- What the value has to be. -/
  kind : ValueKind
  /-- The value, if there is one already. -/
  value : Option String
  deriving DecidableEq, Repr

/-- What has been read. -/
structure Reading where
  /-- How often more output was asked for. -/
  verbose : Nat := 0
  /-- The arguments given, with their values. -/
  given : List (ArgumentName × String) := []
  /-- The argument whose value is not looked at yet. -/
  pending : Option Pending := none
  /-- Whether the word that may be given has been. -/
  inputSeen : Bool := false
  deriving DecidableEq, Repr

namespace Reading

/-- Whether the argument was given. -/
def has (r : Reading) (name : ArgumentName) : Bool := (r.given.lookup name).isSome

/-- The value of the argument. -/
def value? (r : Reading) (name : ArgumentName) : Option String := r.given.lookup name

/-- Takes up an argument with its value.  It can be given once. -/
def store (r : Reading) (name : ArgumentName) (kind : ValueKind) (value : String) :
    Except UsageError Reading :=
  if r.has name then .error .conflict
  else
    match kind.fault? value with
    | some fault => .error fault
    | none => .ok { r with given := (name, value) :: r.given }

/-- Looks at the value that has not been looked at yet. -/
def settle (r : Reading) : Except UsageError Reading :=
  match r.pending with
  | none => .ok r
  | some pending =>
    match pending.value with
    | none => .error .invalidValue
    | some value => { r with pending := none }.store pending.name pending.kind value

/-- Takes up an option that has no value. -/
def react (r : Reading) (spec : OptionSpec) : Except UsageError Reading := do
  let r ← r.settle
  match spec.kind with
  | .answer answer => .error answer
  | .count => return { r with verbose := min (r.verbose + 1) 255 }
  | _ => r.store spec.name .text ""

/-- Takes up an option that has a value, which may be attached to it or still to come. -/
def expect (r : Reading) (spec : OptionSpec) (kind : ValueKind) (attached : Option String) :
    Except UsageError Reading := do
  let r ← r.settle
  match attached with
  | some value => r.store spec.name kind value
  | none => return { r with pending := some ⟨spec.name, kind, none⟩ }

/-- Takes up a word that is no value.  It is the path of the input, if the mode has one. -/
def takeInput (g : Grammar) (r : Reading) (word : String) : Except UsageError Reading :=
  if g.takesInput && !r.inputSeen then do
    let r ← r.settle
    return { r with pending := some ⟨.input, .path, some word⟩, inputSeen := true }
  else .error .unknownArgument

/-- Takes up a word, which is the value of an option that waits for one. -/
def takeWord (g : Grammar) (r : Reading) (word : String) : Except UsageError Reading :=
  match r.pending with
  | some pending =>
    match pending.value with
    | none => .ok { r with pending := some { pending with value := some word } }
    | some _ => r.takeInput g word
  | none => r.takeInput g word

/-- The value attached to a letter, in front of which an equals sign may stand. -/
def attachedValue : List Char → Option String
  | [] => none
  | '=' :: rest => some (String.ofList rest)
  | cs => some (String.ofList cs)

/-- Takes up the letters behind one hyphen. -/
def takeLetters (g : Grammar) (r : Reading) : List Char → Except UsageError Reading
  | [] => .ok r
  | c :: rest =>
    match g.options.find? fun spec => spec.short == some c with
    | none => .error .unknownArgument
    | some spec =>
      match spec.kind with
      | .value kind => r.expect spec kind (attachedValue rest)
      | _ => do
        let r ← r.react spec
        r.takeLetters g rest

/-- Takes up the name behind two hyphens, to which a value may be attached by an equals sign. -/
def takeLong (g : Grammar) (r : Reading) (cs : List Char) : Except UsageError Reading :=
  let (name, attached) : List Char × Option String :=
    match cutWhere? (· == '=') cs with
    | some (name, value) => (name, some (String.ofList value))
    | none => (cs, none)
  match g.options.find? fun spec => spec.long.toList == name with
  | none => .error .unknownArgument
  | some spec =>
    match spec.kind with
    | .value kind => r.expect spec kind attached
    | _ => if attached.isSome then .error .unwantedValue else r.react spec

/-- Takes up an option; `none` if the argument is a word. -/
def takeOption? (g : Grammar) (r : Reading) (argument : String) :
    Option (Except UsageError Reading) :=
  match argument.toList with
  | '-' :: '-' :: name => some (r.takeLong g name)
  | '-' :: c :: rest => some (r.takeLetters g (c :: rest))
  | _ => none

/-- Takes up words behind two hyphens alone, where nothing is an option. -/
def takeTrailing (g : Grammar) (r : Reading) : List String → Except UsageError Reading
  | [] => r.settle
  | word :: rest => do
    let r ← r.takeInput g word
    r.takeTrailing g rest

/-- Reads the arguments of a mode. -/
def takeAll (g : Grammar) (r : Reading) : List String → Except UsageError Reading
  | [] => r.settle
  | argument :: rest =>
    if argument = "--" then r.takeTrailing g rest
    else
      match r.takeOption? g argument with
      | some result => do
        let r ← result
        r.takeAll g rest
      | none => do
        let r ← r.takeWord g argument
        r.takeAll g rest

end Reading

end DirectoryExchange.Cli
