import RecordQuery.CommandLine.Usage
import RecordQuery.Json.Store
import RecordQuery.Text.Controls
import RecordQuery.Wrapped.Collection

/-! # Running the commands

What the commands do with their words: one shows the parts of a selector, the other searches a JSON
file. All that a run wants from outside is the contents of at most one file.

* `Report`: what a run leaves behind.
* `Interaction`: a finished run, or one that waits for a file.
* `run`: the run of the program on its words. -/

namespace RecordQuery.CommandLine

/-- What a run **leaves behind**. -/
structure Report where
  /-- The exit code: zero for success. -/
  exitCode : Nat := 0
  /-- What is written to the standard output. -/
  stdout : String := ""
  /-- What is written to the standard error output. -/
  stderr : String := ""
  /-- The kind of a failure that was not expected. -/
  raised : Option String := none
deriving DecidableEq, Repr

/-- What stands at a **path**. -/
inductive PathContents
  /-- Nothing. -/
  | missing
  /-- A directory. -/
  | directory
  /-- A file with its bytes. -/
  | file (bytes : ByteArray)

/-- A run that is **finished**, or that waits for what stands at a path. -/
inductive Interaction
  /-- The run is finished. -/
  | finished (report : Report)
  /-- The run waits for the contents of a path. -/
  | reads (path : String) (next : PathContents → Report)

/-- A line written to an output that is no terminal. -/
def echoed (s : String) : String := Text.withoutControls (s ++ "\n")

/-- The report of a usage error. -/
def misused (c : Command) (e : UsageError) : Report :=
  { exitCode := 2, stderr := Text.withoutControls (e.report c) }

/-- The version of the program, as it is shown. -/
def version : String := "gquery, version 0.3.0"

/-- What the **first of the options that end a run** leaves behind, if there is one. -/
def answered? (c : Command) (s : Scanned) : Option Report :=
  s.options.findSome? fun option =>
    if option.1 = "--help" then some { stdout := c.help }
    else if option.1 = "--version" then some { stdout := echoed version }
    else none

/-- The log of a world, as it is shown if asked for. -/
def shownLog (verbose : Bool) (w : World) : String :=
  if verbose then String.join (w.log.toList.map fun e => e.line ++ "\n") else ""

/-- Whether a failure is one of parsing, which the commands expect. -/
def isParseFailure (f : Failure) : Bool := f.kinds.contains "ParseError"

/-- The **report of a session** whose result is written to the standard output. -/
def reportOf (verbose : Bool) (x : Session String) : Report :=
  let (result, w) := (x.run).run {}
  let log := shownLog verbose w
  match result with
  | .ok out => { stdout := out, stderr := log }
  | .error f =>
    if isParseFailure f then
      { exitCode := 1, stderr := log ++ echoed ("Parse error: " ++ f.message w.store) }
    else { exitCode := 1, stderr := log, raised := f.kinds.head? }

/-- The **listing** of parts, one line for each. -/
def listing (parts : List Part) : String :=
  if parts.isEmpty then "(no parts)\n"
  else String.join (parts.mapIdx fun i p => "  " ++ toString i ++ ": " ++ p.listing ++ "\n")

/-- Shows the parts of a selector. -/
def showParts (selector : String) : Session String := do
  let l ← Session.parseLocator selector
  return Text.withoutControls (listing l.parts)

/-- The field that an option names. -/
def settingOf (s : Scanned) (option : String) : Setting :=
  match s.value? option with
  | some name => .field name
  | none => .unset

/-- The options for the adapter. -/
def adapterOptions (s : Scanned) : Options where
  id := settingOf s "--id"
  name := settingOf s "--name"
  className := settingOf s "--class"
  children := settingOf s "--children"

/-- Searches a JSON value and writes out what is found, or one field of the first record found. -/
def searchJson (s : Scanned) (selector : String) (data : Json) : Session String := do
  let context ← data.toStore
  let query ← Query.start context (adapterOptions s)
  let found ← query.ask selector
  match s.value? "--prop" with
  | some name =>
    let r ← Collection.prop name found
    return echoed (← Session.attempt ((← Session.store).json .line r))
  | none => return echoed (← Collection.inspect found)

/-- Searches the bytes of a JSON file. -/
def searchBytes (verbose : Bool) (s : Scanned) (selector : String) (bytes : ByteArray) : Report :=
  match String.fromUTF8? bytes with
  | none => { exitCode := 1, raised := some "UnicodeDecodeError" }
  | some content =>
    let cs := withLineFeeds content.toList
    match Json.read cs with
    | .error e => { exitCode := 1, stderr := echoed ("Invalid JSON: " ++ e.message cs) }
    | .ok data => reportOf verbose (searchJson s selector data)

/-- The run of the command that shows the parts of a selector. -/
def runParse (verbose : Bool) (words : List String) : Report :=
  match scan Command.parse.options true words with
  | .error e => misused .parse e
  | .ok s =>
    match answered? .parse s, s.arguments with
    | some report, _ => report
    | none, [] => misused .parse (.missingArgument "SELECTOR")
    | none, [selector] => reportOf verbose (showParts selector)
    | none, _ :: extra => misused .parse (.extraArguments extra)

/-- The run of the command that searches a file. The file is looked at before the other
arguments. -/
def runQuery (verbose : Bool) (words : List String) : Interaction :=
  match scan Command.query.options true words with
  | .error e => .finished (misused .query e)
  | .ok s =>
    match answered? .query s, s.arguments with
    | some report, _ => .finished report
    | none, [] => .finished (misused .query (.missingArgument "DATAFILE"))
    | none, path :: others =>
      -- no path of a file system holds the null character
      if path.contains '\x00' then .finished { exitCode := 1, raised := some "ValueError" }
      else .reads path fun contents => match contents, others with
      | .missing, _ => misused .query (.missingFile "DATAFILE" path)
      | .directory, _ => misused .query (.directory "DATAFILE" path)
      | .file _, [] => misused .query (.missingArgument "SELECTOR")
      | .file bytes, [selector] => searchBytes verbose s selector bytes
      | .file _, _ :: extra => misused .query (.extraArguments extra)

/-- What is left behind when there is no command of a name. A name that looks like an option is
read as one first. -/
def unknownCommand (name : String) (rest : List String) : Report :=
  let unknown := misused .program (.noSuchCommand name (Text.similarTo name Command.names))
  if name.startsWith "-" then
    match scan Command.program.options false (name :: rest) with
    | .error e => misused .program e
    | .ok s => (answered? .program s).getD unknown
  else unknown

/-- The **run of the program** on its words. -/
def run (words : List String) : Interaction :=
  if words.isEmpty then .finished { exitCode := 2, stderr := Command.program.help }
  else match scan Command.program.options false words with
    | .error e => .finished (misused .program e)
    | .ok s =>
      let verbose := s.has "--verbose"
      match answered? .program s, s.arguments with
      | some report, _ => .finished report
      | none, [] => .finished (misused .program .missingCommand)
      | none, name :: rest =>
        if name = "parse" then .finished (runParse verbose rest)
        else if name = "query" then runQuery verbose rest
        else .finished (unknownCommand name rest)

end RecordQuery.CommandLine
