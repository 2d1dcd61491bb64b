/-!
# Commands and their arguments

What the program can be asked to do, and how it is asked. The words after the program's name are
taken one by one: options of the program first, then the name of a command, then the arguments of
that command. A fault in the arguments of the command is reported before one in the options.

## Main definitions

* `Command`: what to do
* `Usage`: why the words ask for nothing
* `Invocation`, `Invocation.ofArguments`: a command and the configuration to run it with
-/

namespace BlobStore

/-- What to do with the values of a storage. -/
inductive Command
  /-- The keys under a key, or all of them. -/
  | ls (scope : Option String)
  | get (key : String)
  /-- A file stored under a key, or the standard input if no file is named. -/
  | put (key : String) (file : Option String)
  | mv (source destination : String)
  | rm (key : String)
  | stat (key : String)
deriving DecidableEq, Repr

/-- Why the words ask for nothing; some ask for help or for the version instead. -/
inductive Usage
  | missingRequiredArgument
  | missingSubcommand
  | invalidSubcommand
  | unknownArgument
  | invalidValue
  | argumentConflict
  | tooManyValues
  | displayHelp
  | displayVersion
  | displayHelpOnMissingArgumentOrSubcommand
deriving DecidableEq, Repr

/-! ## Words -/

/-- What a word looks like. -/
inductive Word
  /-- Two dashes: all words after it are plain. -/
  | escape
  /-- An option by its name, with a value attached or not. -/
  | long (name : String) (value : Option String)
  /-- An option by its letter, and what is attached to it. -/
  | short (letter : Char) (attached : List Char)
  | plain
deriving DecidableEq, Repr

/-- The part of a word before its first equals sign, and the part after it. -/
def splitEquals (text : List Char) : List Char × Option (List Char) :=
  match text.dropWhile (· != '=') with
  | [] => (text, none)
  | _ :: value => (text.takeWhile (· != '='), some value)

/-- What a word of the command line looks like. -/
def Word.of (word : String) : Word :=
  match word.toList with
  | ['-', '-'] => .escape
  | '-' :: '-' :: rest =>
    let (name, value) := splitEquals rest
    .long (String.ofList name) (value.map String.ofList)
  | '-' :: letter :: attached => .short letter attached
  | _ => .plain

/-! ## Arguments of a command -/

/-- The shape of a command's arguments. -/
inductive CommandName
  | ls
  | get
  | put
  | mv
  | rm
  | stat
deriving DecidableEq, Repr

/-- The command that a word names. -/
def CommandName.of? (word : String) : Option CommandName :=
  match word with
  | "ls" => some .ls
  | "get" => some .get
  | "put" => some .put
  | "mv" => some .mv
  | "rm" => some .rm
  | "stat" => some .stat
  | _ => none

/-- The most arguments that a command takes. -/
def CommandName.capacity : CommandName → Nat
  | .ls | .get | .rm | .stat => 1
  | .put | .mv => 2

/-- A file that is named must have a name. -/
def checkFile (name : CommandName) (values : List String) : Except Usage Unit :=
  match name, values with
  | .put, [_, ""] => .error .invalidValue
  | _, _ => .ok ()

/-- The command of its arguments. -/
def CommandName.apply : CommandName → List String → Except Usage Command
  | .ls, [] => .ok (.ls none)
  | .ls, [scope] => .ok (.ls (some scope))
  | .get, [key] => .ok (.get key)
  | .put, [key] => .ok (.put key none)
  | .put, [key, file] => .ok (.put key (some file))
  | .mv, [source, destination] => .ok (.mv source destination)
  | .rm, [key] => .ok (.rm key)
  | .stat, [key] => .ok (.stat key)
  | _, _ => .error .missingRequiredArgument

/-- The arguments of a command; `plain` says that two dashes came before, and `values` are the
arguments so far. -/
def readArguments (name : CommandName) (plain : Bool) (values : List String) :
    List String → Except Usage Command
  | [] => do
    checkFile name values
    name.apply values
  | word :: rest =>
    let argument := if values.length < name.capacity then
        readArguments name plain (values ++ [word]) rest
      else .error .unknownArgument
    let help := (checkFile name values).bind fun _ => .error .displayHelp
    if plain then argument
    else
      match Word.of word with
      | .escape => readArguments name true values rest
      | .long "help" none => help
      | .long "help" (some _) => .error .tooManyValues
      | .long _ _ => .error .unknownArgument
      | .short 'h' _ => help
      | .short _ _ => .error .unknownArgument
      | .plain => argument

/-! ## Options of the program -/

/-- A command and the file with the configuration to run it with. -/
structure Invocation where
  config : String
  command : Command
deriving DecidableEq, Repr

/-- The option that names the configuration, as far as it was read. -/
structure ConfigOption where
  /-- The value that was accepted. -/
  accepted : Option String := none
  /-- The option was given and its value is still to be accepted, or to come. -/
  open? : Option (Option String) := none
deriving DecidableEq, Repr

namespace ConfigOption

/-- A value accepted: the first one, and not an empty one. -/
def accept (option : ConfigOption) (value : String) : Except Usage ConfigOption :=
  if option.accepted.isSome then .error .argumentConflict
  else if value = "" then .error .invalidValue
  else .ok ⟨some value, none⟩

/-- Nothing left open. -/
def close (option : ConfigOption) : Except Usage ConfigOption :=
  match option.open? with
  | none => .ok option
  | some none => .error .invalidValue
  | some (some value) => accept ⟨option.accepted, none⟩ value

/-- The option given once more. -/
def give (option : ConfigOption) : Option String → Except Usage ConfigOption
  | some value => option.close.bind fun closed => closed.accept value
  | none => option.close.map fun closed => ⟨closed.accepted, some none⟩

/-- Whether the next plain word is the value of the option. -/
def awaits (option : ConfigOption) : Bool := option.open? == some none

end ConfigOption

/-- What follows the word `help`: at most one word, the name of a command or `help` itself. -/
def readHelp : List String → Usage
  | [] => .displayHelp
  | [word] =>
    if (CommandName.of? word).isSome || word == "help" then .displayHelp else .invalidSubcommand
  | _ => .invalidSubcommand

/-- A value attached to a letter, with or without an equals sign. -/
def attachedValue : List Char → Option String
  | [] => none
  | '=' :: value => some (String.ofList value)
  | value => some (String.ofList value)

/-- The words after the program's name; `plain` says that two dashes came before. -/
def readWords (plain : Bool) (option : ConfigOption) : List String → Except Usage Invocation
  | [] => do
    let option ← option.close
    if option.accepted.isSome then throw .missingSubcommand
    else throw .displayHelpOnMissingArgumentOrSubcommand
  | word :: rest =>
    let name? := CommandName.of? word
    if plain then
      if name?.isSome || word == "help" then .error .unknownArgument else .error .invalidSubcommand
    else if !option.awaits && word == "help" then .error (readHelp rest)
    else
      match option.awaits, name? with
      | false, some name => do
        let command ← readArguments name false [] rest
        let option ← option.close
        match option.accepted with
        | some config => return ⟨config, command⟩
        | none => throw .missingRequiredArgument
      | _, _ =>
        match Word.of word with
        | .escape => readWords true option rest
        | .long "config" value => do
          let option ← option.give value
          readWords false option rest
        | .long "help" none => option.close.bind fun _ => .error .displayHelp
        | .long "version" none => option.close.bind fun _ => .error .displayVersion
        | .long "help" (some _) | .long "version" (some _) => .error .tooManyValues
        | .long _ _ => .error .unknownArgument
        | .short 'c' attached => do
          let option ← option.give (attachedValue attached)
          readWords false option rest
        | .short 'h' _ => option.close.bind fun _ => .error .displayHelp
        | .short 'V' _ => option.close.bind fun _ => .error .displayVersion
        | .short _ _ => .error .unknownArgument
        | .plain =>
          if option.awaits then readWords false ⟨option.accepted, some (some word)⟩ rest
          else .error .invalidSubcommand

/-- The invocation of a list of words, the first of which is the program's name. -/
def Invocation.ofArguments (words : List String) : Except Usage Invocation :=
  readWords false {} (words.drop 1)

end BlobStore
