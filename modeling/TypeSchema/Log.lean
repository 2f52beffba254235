import TypeSchema.Parser.Basic

namespace TypeSchema

/-!
# Log records

Scanning and parsing are pure, and what they did is data: the tokens of a
scan, its warnings, and the events of the parsers.  This module says which
record each of them leaves in the log, and how a record is written.
-/

namespace Log

/-- How important a record is; the most important level comes first. -/
inductive Level where
  | error
  | warn
  | info
  | debug
  | trace
  deriving DecidableEq, Repr

namespace Level

def rank : Level -> Nat
  | error => 1
  | warn => 2
  | info => 3
  | debug => 4
  | trace => 5

/-- The label of a level, all labels having one width. -/
def label : Level -> String
  | error => "ERROR"
  | warn => "WARN "
  | info => "INFO "
  | debug => "DEBUG"
  | trace => "TRACE"

end Level

/-- The least important level that is still written, or none at all. -/
abbrev Filter := Option Level

/-- Without a setting, records up to the level of information are written. -/
def Filter.standard : Filter := some .info

/-- The setting with this name. -/
def Filter.ofName? : String -> Option Filter
  | "off" => some none
  | "error" => some (some .error)
  | "warn" => some (some .warn)
  | "info" => some (some .info)
  | "debug" => some (some .debug)
  | "trace" => some (some .trace)
  | _ => none

/-- Whether records of a level are written. -/
def Filter.admits (filter : Filter) (level : Level) : Bool :=
  filter.any fun least => level.rank ≤ least.rank

/-- The part of the program that a record comes from. -/
inductive Origin where
  | program
  | scan
  | declarations
  | values
  | schema
  deriving DecidableEq, Repr

def Origin.label : Origin -> String
  | program => "typedef"
  | scan => "typedef::parser::lexer"
  | declarations => "typedef::parser::declarations"
  | values => "typedef::parser::values"
  | schema => "typedef::parser::ast"

/-- One entry of the log. -/
structure Record where
  level : Level
  origin : Origin
  message : String
  deriving DecidableEq, Repr

/-- A record as it is written.  The further lines of its message are set in by
four blanks. -/
def Record.render (record : Record) : String :=
  let message := "\n    ".intercalate (record.message.splitOn "\n")
  s!"[{record.level.label} {record.origin.label}] {message}"

/-- The record of a warning. -/
def ofWarning (warning : Scan.Warning) : Record :=
  { level := .warn, origin := .scan, message := s!"{warning.message}: '{warning.token.text}'" }

/-- The records of a scanned token: its warning, if it deserves one, and its
trace. -/
def ofToken (limit : Option Nat) (token : Token) : List Record :=
  ((Scan.Warning.of? limit token).map ofWarning).toList ++
    [{ level := .trace, origin := .scan, message := s!"token {token.kind.tag} '{token.text}'" }]

/-- The record of an event. -/
def ofEvent : Event -> Record
  | .compound shape count =>
      { level := .trace, origin := .values
        message := s!"compound {shape.tag} with {count} values" }
  | .member enumName member ordinal =>
      { level := .debug, origin := .declarations
        message := s!"enum {enumName.text} member {member.text} = {ordinal}" }
  | .field typeName field =>
      { level := .debug, origin := .declarations
        message := s!"type {typeName.text} adding member " ++
          s!"{field.typeName.text} {field.name.text}{field.arrayMark}" }
  | .defined keyword name =>
      { level := .debug, origin := .schema, message := s!"defined {keyword.text} {name.text}" }

end Log
end TypeSchema
