import RecordQuery.CommandLine.Arguments
import RecordQuery.Text.Quoted

/-! # What the commands say about themselves

The help of each command and the wording of each usage error.

* `Command`: the commands.
* `Command.help`: the help of a command.
* `UsageError.report`: what is said about a usage error. -/

namespace RecordQuery.CommandLine

/-- The **commands**: the whole program and its two parts. -/
inductive Command
  /-- The program. -/
  | program
  /-- Shows the parts of a selector. -/
  | parse
  /-- Searches a file. -/
  | query
deriving DecidableEq, Repr

namespace Command

/-- The names of the two parts of the program. -/
def names : List String := ["parse", "query"]

/-- How a command is called. -/
def path : Command → String
  | .program => "gquery"
  | .parse => "gquery parse"
  | .query => "gquery query"

/-- What a command takes. -/
def takes : Command → String
  | .program => "[OPTIONS] COMMAND [ARGS]..."
  | .parse => "[OPTIONS] SELECTOR"
  | .query => "[OPTIONS] DATAFILE SELECTOR"

/-- The line that says how a command is used. -/
def usage (c : Command) : String := "Usage: " ++ c.path ++ " " ++ c.takes ++ "\n"

/-- What a command does. -/
def purpose : Command → String
  | .program => "gquery - jQuery-style selectors over JSON data."
  | .parse => "Parse SELECTOR and print one line per selector part."
  | .query => "Load DATAFILE as JSON and print the records matching SELECTOR."

/-- The options of a command. -/
def options : Command → List OptionSpec
  | .program =>
    [⟨"--version", none, false⟩, ⟨"--verbose", some 'v', false⟩, ⟨"--help", none, false⟩]
  | .parse => [⟨"--help", none, false⟩]
  | .query =>
    [⟨"--id", none, true⟩, ⟨"--name", none, true⟩, ⟨"--class", none, true⟩,
      ⟨"--children", none, true⟩, ⟨"--prop", none, true⟩, ⟨"--help", none, false⟩]

/-- The options of a command as its help lists them. -/
def optionLines : Command → List String
  | .program =>
    ["--version      Show the version and exit.", "-v, --verbose  Enable debug logging",
      "--help         Show this message and exit."]
  | .parse => ["--help  Show this message and exit."]
  | .query =>
    ["--id TEXT        Field holding a record's id",
      "--name TEXT      Field holding a record's name",
      "--class TEXT     Field holding a record's class",
      "--children TEXT  Field holding a record's children",
      "--prop TEXT      Print this property of the first match",
      "--help           Show this message and exit."]

/-- A titled list of lines. -/
def titled (title : String) (lines : List String) : String :=
  "\n" ++ title ++ ":\n" ++ String.join (lines.map fun line => "  " ++ line ++ "\n")

/-- The **help** of a command. -/
def help (c : Command) : String :=
  c.usage ++ "\n  " ++ c.purpose ++ "\n" ++ titled "Options" c.optionLines ++
    match c with
    | .program => titled "Commands"
        ["parse  " ++ Command.parse.purpose, "query  " ++ Command.query.purpose]
    | _ => ""

end Command

namespace UsageError

/-- The question whether a name of a list was meant, at the end of a sentence; an empty list asks
nothing. -/
def question : List String → String
  | [] => "."
  | [name] => ". Did you mean " ++ Text.quoted name ++ "?"
  | names => ". (Did you mean one of: " ++ ", ".intercalate (names.map Text.quoted) ++ "?)"

/-- The **wording** of a usage error. -/
def wording : UsageError → String
  | .noSuchOption name similar => "No such option " ++ Text.quoted name ++ question similar
  | .missingValue name => "Option " ++ Text.quoted name ++ " requires an argument."
  | .unwantedValue name => "Option " ++ Text.quoted name ++ " does not take a value."
  | .missingArgument name => "Missing argument '" ++ name ++ "'."
  | .extraArguments [word] => "Got unexpected extra argument (" ++ word ++ ")"
  | .extraArguments words =>
    "Got unexpected extra arguments (" ++ " ".intercalate words ++ ")"
  | .missingCommand => "Missing command."
  | .noSuchCommand name similar => "No such command " ++ Text.quoted name ++ question similar
  | .missingFile argument path =>
    "Invalid value for '" ++ argument ++ "': File " ++ Text.quoted path ++ " does not exist."
  | .directory argument path =>
    "Invalid value for '" ++ argument ++ "': File " ++ Text.quoted path ++ " is a directory."

/-- Whether the command is told about together with the error. -/
def namesCommand : UsageError → Bool
  | .missingValue _ | .unwantedValue _ => false
  | _ => true

/-- What is **said** about a usage error of a command. -/
def report (c : Command) (e : UsageError) : String :=
  (if e.namesCommand then c.usage ++ "Try '" ++ c.path ++ " --help' for help.\n\n" else "") ++
    "Error: " ++ e.wording ++ "\n"

end UsageError

end RecordQuery.CommandLine
