import RecordQuery.Text.Similar

/-! # Arguments of a command

The words behind a command are options and arguments. An option has a long name behind two hyphens,
and may have a letter behind one; it stands alone or takes a value, behind an equals sign or as the
next word. A word of two hyphens ends the options.

* `OptionSpec`: an option that a command knows.
* `UsageError`: what is wrong with the words of a command.
* `scan`: the options and arguments among words. -/

namespace RecordQuery.CommandLine

/-- An **option** that a command knows. -/
structure OptionSpec where
  /-- The long name, with its hyphens. -/
  long : String
  /-- The letter, if there is one. -/
  letter : Option Char := none
  /-- Whether the option takes a value. -/
  takesValue : Bool := false
deriving DecidableEq, Repr

/-- What is **wrong** with the words of a command. -/
inductive UsageError
  /-- There is no option of this name, but perhaps some of similar names. -/
  | noSuchOption (name : String) (similar : List String)
  /-- An option that takes a value has none. -/
  | missingValue (name : String)
  /-- An option that stands alone was given a value. -/
  | unwantedValue (name : String)
  /-- An argument is missing. -/
  | missingArgument (name : String)
  /-- There are too many arguments. -/
  | extraArguments (words : List String)
  /-- There is no command. -/
  | missingCommand
  /-- There is no command of this name, but perhaps some of similar names. -/
  | noSuchCommand (name : String) (similar : List String)
  /-- There is no file of this name. -/
  | missingFile (argument path : String)
  /-- A file was expected, but this is a directory. -/
  | directory (argument path : String)
deriving DecidableEq, Repr

/-- The options, with their values, and the arguments among words, each in order. -/
structure Scanned where
  /-- The long names of the options, with their values. -/
  options : List (String × Option String) := []
  /-- The arguments. -/
  arguments : List String := []
deriving DecidableEq, Repr

/-- What one word that looks like an option says: options with their values, and perhaps one more
option, under the name it was given by, whose value is the next word. -/
abbrev OptionWord : Type := List (String × Option String) × Option (String × String)

/-- The letters behind one hyphen. An option that takes a value takes the rest of the letters, if
there are any. -/
def scanLetters (specs : List OptionSpec) : List Char → Except UsageError OptionWord
  | [] => .ok ([], none)
  | c :: rest =>
    match specs.find? (·.letter == some c) with
    | none => .error (.noSuchOption (String.ofList ['-', c]) [])
    | some spec =>
      if spec.takesValue then
        if rest.isEmpty then .ok ([], some (spec.long, String.ofList ['-', c]))
        else .ok ([(spec.long, some (String.ofList rest))], none)
      else match scanLetters specs rest with
        | .ok (options, last) => .ok ((spec.long, none) :: options, last)
        | .error e => .error e

/-- One word that looks like an option. A long name is tried first; a word with one hyphen may be
letters. -/
def scanOption (specs : List OptionSpec) (word : List Char) : Except UsageError OptionWord :=
  let name := String.ofList (word.takeWhile (· ≠ '='))
  let value := match word.dropWhile (· ≠ '=') with
    | [] => none
    | _ :: value => some (String.ofList value)
  match specs.find? (·.long == name) with
  | some spec =>
    if spec.takesValue then
      -- a value behind an equals sign may be empty
      match value with
      | some value => .ok ([(spec.long, some value)], none)
      | none => .ok ([], some (spec.long, name))
    else if value.isSome then .error (.unwantedValue name)
    else .ok ([(spec.long, none)], none)
  | none =>
    match word with
    | '-' :: '-' :: _ =>
      .error (.noSuchOption name (Text.similarTo name (specs.map (·.long))))
    | _ => scanLetters specs (word.drop 1)

/-- The **options and arguments** among words. If they are not mixed, the first argument ends the
options. -/
def scan (specs : List OptionSpec) (mixed : Bool) : List String → Except UsageError Scanned
  | [] => .ok {}
  | word :: rest =>
    if word = "--" then .ok { arguments := rest }
    else match word.toList with
      | '-' :: c :: cs =>
        match scanOption specs ('-' :: c :: cs) with
        | .error e => .error e
        | .ok (options, none) =>
          match scan specs mixed rest with
          | .ok scanned => .ok { scanned with options := options ++ scanned.options }
          | .error e => .error e
        | .ok (options, some (long, name)) =>
          -- the next word is the value, even if it looks like an option
          match rest with
          | [] => .error (.missingValue name)
          | value :: rest =>
            match scan specs mixed rest with
            | .ok scanned =>
              .ok { scanned with options := options ++ (long, some value) :: scanned.options }
            | .error e => .error e
      -- an argument, be it empty or a lone hyphen
      | _ =>
        if mixed then
          match scan specs mixed rest with
          | .ok scanned => .ok { scanned with arguments := word :: scanned.arguments }
          | .error e => .error e
        else .ok { arguments := word :: rest }

/-- The value of an option that was given last. -/
def Scanned.value? (s : Scanned) (long : String) : Option String :=
  ((s.options.reverse.find? fun option => option.1 == long).map (·.2)).join

/-- Whether an option was given. -/
def Scanned.has (s : Scanned) (long : String) : Bool := s.options.any (·.1 == long)

end RecordQuery.CommandLine
