import MarkupTidy.Text.Search

/-! # Command-line options

Options may stand anywhere among the operands unless their command says otherwise.  A long option
takes its value after an equals sign or from the next argument; short options without a value may
share one hyphen.  Two hyphens alone end the options.

* `readArguments`: what the options of a command line ask for, and its operands. -/

namespace MarkupTidy.Command

open MarkupTidy.Text

/-- Why a command line is refused. -/
inductive UsageFault where
  | unknownOption (name : String)
  | valueMissing (name : String)
  | valueUnexpected (name : String)
  | operandMissing (name : String)
  | operandUnexpected (value : String)
  | unknownCommand (name : String)
  | commandMissing
  /-- A file that has to be there is not, or is a folder. -/
  | notFile (path : String)
deriving DecidableEq, Repr

/-- The wording of a fault. -/
def UsageFault.message : UsageFault → String
  | unknownOption name => "No such option: " ++ name
  | valueMissing name => "Option '" ++ name ++ "' requires an argument."
  | valueUnexpected name => "Option '" ++ name ++ "' does not take a value."
  | operandMissing name => "Missing argument '" ++ name ++ "'."
  | operandUnexpected value => "Got unexpected extra argument (" ++ value ++ ")"
  | unknownCommand name => "No such command '" ++ name ++ "'."
  | commandMissing => "Missing command."
  | notFile path => "File '" ++ path ++ "' does not exist or is a directory."

/-- What an option asks for, by itself or with a value. -/
inductive OptionMeaning (α : Type) where
  | plain (wish : α)
  | valued (wish : String → α)

/-- An option of a command. -/
structure OptionSpec (α : Type) where
  /-- The name of a long option, with its hyphens; a hyphen and a letter for a short one. -/
  name : String
  meaning : OptionMeaning α

/-- What an argument has asked for, and what it asks for once it gets the next argument. -/
structure Reading (α : Type) where
  wishes : List α
  awaits? : Option (String → α)

/-- What a command line asks for. -/
structure Arguments (α : Type) where
  wishes : List α
  operands : List String

section
variable {α : Type} (specs : List (OptionSpec α))

/-- The option of a name. -/
def meaning? (name : List Char) : Option (OptionMeaning α) :=
  (specs.find? fun s => s.name.toList = name).map OptionSpec.meaning

/-- Reads the letters of short options. -/
def readShort : List Char → Except UsageFault (Reading α)
  | [] => .ok ⟨[], none⟩
  | c :: rest =>
    match meaning? specs ['-', c] with
    | none => .error (.unknownOption (String.ofList ['-', c]))
    | some (.plain wish) => (readShort rest).map fun r => ⟨wish :: r.wishes, r.awaits?⟩
    | some (.valued wish) =>
      if rest.isEmpty then .ok ⟨[], some wish⟩ else .ok ⟨[wish (String.ofList rest)], none⟩

/-- Reads a long option of the given name. -/
def readLong (name : List Char) (value? : Option (List Char)) :
    OptionMeaning α → Except UsageFault (Reading α)
  | .plain wish =>
    if value?.isSome then .error (.valueUnexpected (String.ofList name)) else .ok ⟨[wish], none⟩
  | .valued wish =>
    match value? with
    | some value => .ok ⟨[wish (String.ofList value)], none⟩
    | none => .ok ⟨[], some wish⟩

/-- The parts of an argument before and after an equals sign. -/
def splitValue (argument : List Char) : List Char × Option (List Char) :=
  match cutAt? '=' argument with
  | some (name, value) => (name, some value)
  | none => (argument, none)

/-- Reads an argument that begins with a hyphen. -/
def readOption (argument : List Char) : Except UsageFault (Reading α) :=
  let (name, value?) := splitValue argument
  if name.length = 2 && !startsWith ['-', '-'] name then readShort specs argument.tail
  else
    match meaning? specs name with
    | some meaning => readLong name value? meaning
    | none =>
      if startsWith ['-', '-'] argument then .error (.unknownOption (String.ofList name))
      else readShort specs argument.tail

/-- Whether an argument is an option: a hyphen with something after it. -/
def isOption : List Char → Bool
  | '-' :: _ :: _ => true
  | _ => false

/-- Arguments with more wishes before them. -/
def Arguments.asking (wishes : List α) (a : Arguments α) : Arguments α :=
  { a with wishes := wishes ++ a.wishes }

/-- Reads a command line.  Unless options may stand among the operands, the first operand ends
them. -/
def readArguments (mixed : Bool) : List String → Except UsageFault (Arguments α)
  | [] => .ok ⟨[], []⟩
  | argument :: rest =>
    if argument = "--" then .ok ⟨[], rest⟩
    else if isOption argument.toList then
      match readOption specs argument.toList with
      | .error fault => .error fault
      | .ok ⟨wishes, none⟩ => (readArguments mixed rest).map (·.asking wishes)
      | .ok ⟨wishes, some wish⟩ =>
        match rest with
        | [] => .error (.valueMissing argument)
        | value :: rest => (readArguments mixed rest).map (·.asking (wishes ++ [wish value]))
    else if mixed then
      (readArguments mixed rest).map fun a => { a with operands := argument :: a.operands }
    else .ok ⟨[], argument :: rest⟩

end

end MarkupTidy.Command
