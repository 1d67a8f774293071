import RecordQuery.Record.Printed
import RecordQuery.Search.Find

/-! # The log

What is told about the work: one entry per selector parsed, part applied, record met again below
itself, and option ignored.

* `LogEntry`: a level, a channel and a line of text.
* `Event.entry`: the entry for an event of a search. -/

namespace RecordQuery

/-- How much an entry matters. -/
inductive Level
  /-- For those who want to follow every step. -/
  | debug
  /-- For everybody. -/
  | warning
deriving DecidableEq, Repr

/-- The word for a level. -/
def Level.word : Level → String
  | .debug => "DEBUG"
  | .warning => "WARNING"

/-- An **entry** of the log. -/
structure LogEntry where
  /-- How much the entry matters. -/
  level : Level
  /-- The part of the library that speaks. -/
  channel : String
  /-- What is said. -/
  text : String
deriving DecidableEq, Repr

/-- An entry as a line. -/
def LogEntry.line (e : LogEntry) : String := e.level.word ++ " " ++ e.channel ++ ": " ++ e.text

namespace LogEntry

/-- The entry for options that are not recognized. -/
def ignoredOptions (names : List String) : LogEntry where
  level := .debug
  channel := "gquery.config"
  text := "Ignoring unrecognized adapter options: " ++ ", ".intercalate names

/-- The entry for a parsed selector. -/
def parsed (selector : String) (parts : Nat) : LogEntry where
  level := .debug
  channel := "gquery.selector.parser"
  text := "Parsed selector " ++ Text.quoted selector ++ " into " ++ toString parts ++ " part(s)"

/-- An entry of the search. -/
def search (level : Level) (text : String) : LogEntry where
  level := level
  channel := "gquery.engine.locator"
  text := text

end LogEntry

/-- The **entry for an event** of a search. -/
def Event.entry (σ : Store) : Event Ref → LogEntry
  | .repeated r =>
    .search .warning ("Cycle detected at " ++ σ.printed r ++ "; skipping the repeated branch")
  | .noParts seeds =>
    .search .debug ("Empty selector; returning " ++ toString seeds ++ " seed record(s)")
  | .applied source index part candidates matched =>
    .search .debug ("Selector " ++ Text.quoted source ++ " part " ++ toString index ++ " (" ++
      part.printed ++ "): " ++ toString candidates ++ " candidate(s), " ++ toString matched ++
      " match(es)")

end RecordQuery
