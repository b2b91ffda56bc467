import IntegrationCompiler.Text.Search

/-!
# Arguments

Options stand anywhere among the other arguments, or only before them. An option goes by a long name
after two hyphens or by one letter after a single hyphen. A value follows as the next argument, after
an equals sign or, for a letter, without anything between them; letters of options without value may
stand together. Two hyphens alone end the options.

Main definitions:

* `OptionSpec` — an option that a command has;
* `Arguments.read` — arguments as options and the rest.
-/

namespace IntegrationCompiler

/-- An option that a command has. -/
structure OptionSpec where
  /-- How the option is written, with its hyphens. -/
  spellings : List String
  /-- Whether a value follows. -/
  takesValue : Bool := false
  deriving DecidableEq, Repr

/-- What is wrong with arguments. -/
inductive ArgumentFault where
  | optionUnknown (spelling : String)
  | valueMissing (spelling : String)
  | valueUnwanted (spelling : String)
  | commandMissing
  | commandUnknown (name : String)
  | unexpected (arguments : List String)
  deriving DecidableEq, Repr

/-- The wording of an argument fault. -/
def ArgumentFault.message : ArgumentFault → String
  | .optionUnknown spelling => "No such option: " ++ spelling
  | .valueMissing spelling => "Option '" ++ spelling ++ "' requires an argument."
  | .valueUnwanted spelling => "Option '" ++ spelling ++ "' does not take a value."
  | .commandMissing => "Missing command."
  | .commandUnknown name => "No such command '" ++ name ++ "'."
  | .unexpected arguments => "Got unexpected extra arguments (" ++ " ".intercalate arguments ++ ")"

/-- An option that is given, with its value if it takes one. -/
structure Given where
  spec : OptionSpec
  value : Option String := none
  deriving DecidableEq, Repr

/-- Arguments as options, in the order in which they are given, and the rest. -/
structure Arguments where
  given : List Given := []
  rest : List String := []
  deriving Repr

namespace Arguments

/-- The option with the given spelling. -/
def spec? (specs : List OptionSpec) (spelling : String) : Option OptionSpec :=
  specs.find? fun spec => spec.spellings.contains spelling

/-- Options read from one argument, and the option, with its spelling, whose value is the next
argument. -/
abbrev Reading := List Given × Option (OptionSpec × String)

/-- The options that stand together after one hyphen. -/
def readLetters (specs : List OptionSpec) : List Char → Except ArgumentFault Reading
  | [] => .ok ([], none)
  | c :: rest =>
    let spelling := String.ofList ['-', c]
    match spec? specs spelling with
    | none => .error (.optionUnknown spelling)
    | some spec =>
      if !spec.takesValue then
        (readLetters specs rest).map fun (given, open?) => (⟨spec, none⟩ :: given, open?)
      else if rest.isEmpty then .ok ([], some (spec, spelling))
      else .ok ([⟨spec, some (String.ofList rest)⟩], none)

/-- The option with a long name. -/
def readLong (spec : OptionSpec) (spelling : String) (value : Option String) :
    Except ArgumentFault Reading :=
  match spec.takesValue, value with
  | true, some value => .ok ([⟨spec, some value⟩], none)
  | true, none => .ok ([], some (spec, spelling))
  | false, some _ => .error (.valueUnwanted spelling)
  | false, none => .ok ([⟨spec, none⟩], none)

/-- The options in one argument. -/
def readOption (specs : List OptionSpec) (argument : String) : Except ArgumentFault Reading :=
  let (name, value) := match Text.splitOnce? '=' argument.toList with
    | some (name, value) => (String.ofList name, some (String.ofList value))
    | none => (argument, none)
  let isLong := ['-', '-'].isPrefixOf name.toList
  match if isLong then spec? specs name else none with
  | some spec => readLong spec name value
  | none =>
    if ['-', '-'].isPrefixOf argument.toList then .error (.optionUnknown name)
    else readLetters specs (argument.toList.drop 1)

/-- Whether an argument holds options. -/
def holdsOptions (argument : String) : Bool :=
  match argument.toList with
  | '-' :: _ :: _ => true
  | _ => false

/-- Arguments as options and the rest. If `anywhere` does not say that options stand anywhere, they
end in front of the first other argument. -/
def read (specs : List OptionSpec) (anywhere : Bool) : List String → Except ArgumentFault Arguments
  | [] => .ok {}
  | argument :: rest =>
    if argument == "--" then .ok { rest := rest }
    else if holdsOptions argument then do
      let (given, open?) ← readOption specs argument
      match open?, rest with
      | none, rest =>
        let others ← read specs anywhere rest
        .ok { others with given := given ++ others.given }
      | some (_, spelling), [] => .error (.valueMissing spelling)
      | some (spec, _), value :: rest =>
        let others ← read specs anywhere rest
        .ok { others with given := given ++ ⟨spec, some value⟩ :: others.given }
    else if anywhere then do
      let others ← read specs anywhere rest
      .ok { others with rest := argument :: others.rest }
    else .ok { rest := argument :: rest }

/-- Whether an option is given. -/
def has (a : Arguments) (spec : OptionSpec) : Bool :=
  a.given.any (·.spec == spec)

/-- The value that is given last for an option. -/
def value? (a : Arguments) (spec : OptionSpec) : Option String :=
  (a.given.reverse.find? (·.spec == spec)).bind (·.value)

end Arguments

end IntegrationCompiler
