import TypeSchema.Buffer
import TypeSchema.CommandLine.FileTree
import TypeSchema.CommandLine.Options
import TypeSchema.Log
import TypeSchema.Schema

namespace TypeSchema
namespace CommandLine

/-!
# A run of the program

A run is a pure function from the arguments and the file they name to a
transcript: the exit code, the lines of the output, and the notes beside it in
the order in which they are made.  A note is a report, which is always shown,
or a log record, which is shown if the filter admits it.

The whole text is scanned before its first definition is read.  The first
failure is reported and ends the run; nothing is printed then, not even the
definitions before it.
-/

/-- A line beside the output. -/
inductive Note where
  | report (line : String)
  | log (record : Log.Record)
  deriving DecidableEq, Repr

/-- Everything a run leaves behind. -/
structure Transcript where
  code : UInt32
  output : List String := []
  notes : List Note := []
  deriving DecidableEq, Repr

/-- A text of complete lines. -/
def unlines (lines : List String) : String :=
  String.join (lines.map (· ++ "\n"))

/-- The text of the output. -/
def Transcript.outputText (transcript : Transcript) : String :=
  unlines transcript.output

/-- The line of a note, if it is shown. -/
def Note.line? (filter : Log.Filter) : Note -> Option String
  | report line => some line
  | log record => if filter.admits record.level then some record.render else none

/-- The text of the notes that are shown. -/
def Transcript.notesText (transcript : Transcript) (filter : Log.Filter) : String :=
  unlines (transcript.notes.filterMap (Note.line? filter))

/-- A run that ends with a report. -/
def Transcript.failure (lines : List String) : Transcript :=
  { code := 1, notes := lines.map .report }

/-- The same run, with notes made before it. -/
def Transcript.after (notes : List Note) (transcript : Transcript) : Transcript :=
  { transcript with notes := notes ++ transcript.notes }

/-- A diagnostic as a report: the path, the location of the token to blame if
there is one, the category and the message. -/
def report (path : String) (buffer : Buffer) (diagnostic : Diagnostic) : String :=
  let account := s!"{diagnostic.category.render}: {diagnostic.message}"
  match diagnostic.token?.bind buffer.locate? with
  | some location => s!"{path}:{location.render}: {account}"
  | none => s!"{path}: {account}"

/-- Fill a text up to a width with blanks on its left. -/
def padLeft (width : Nat) (text : String) : String :=
  String.ofList (List.replicate (width - text.length) ' ') ++ text

/-- Fill a text up to a width with blanks on its right. -/
def padRight (width : Nat) (text : String) : String :=
  text ++ String.ofList (List.replicate (width - text.length) ' ')

def info (message : String) : Note :=
  .log { level := .info, origin := .program, message }

def debug (message : String) : Note :=
  .log { level := .debug, origin := .program, message }

/-- A token in the listing that `--tokens` asks for. -/
def listed (buffer : Buffer) (token : Token) : Note :=
  let offset := padLeft 6 (toString ((buffer.offset? token).getD 0))
  let description := padRight 16 token.kind.description
  info s!"{offset} {description} {token.text}"

/-- Follow the steps of a schema up to the first failure, and print the schema
if there is none. -/
def follow (options : Options) (buffer : Buffer) (warnings : Nat) (schema : Schema) :
    List Schema.Step -> Transcript
  | [] =>
      let count := schema.definitions.length
      { code := 0
        output := schema.lines
        notes := [info s!"{options.path}: {count} definitions, {warnings} warnings"] }
  | step :: steps =>
      let events := step.events.map fun event => Note.log (Log.ofEvent event)
      match step.outcome with
      | .error diagnostic =>
          (Transcript.failure [report options.path buffer diagnostic]).after events
      | .ok name =>
          let added := name.toList.map fun name => info s!"ast added {name}"
          (follow options buffer warnings step.schema steps).after (events ++ added)

/-- Scan a text and read its schema. -/
def process (options : Options) (text : String) : Transcript :=
  let buffer : Buffer := { text }
  let scanned := (Scan.start text options.limit).run
  let traces := (scanned.tokens.flatMap (Log.ofToken options.limit)).map Note.log
  match scanned.error with
  | some error =>
      (Transcript.failure [report options.path buffer { cause := .lexical error }]).after traces
  | none =>
      let listing := if options.showTokens then scanned.tokens.map (listed buffer) else []
      let last := scanned.last
      let count := debug (s!"{scanned.tokens.length} tokens, " ++
        s!"{last.lineComments} line comments, {last.blockComments} block comments")
      let steps := Schema.empty.steps scanned.tokens
      (follow options buffer last.warnings.length Schema.empty steps).after
        (traces ++ listing ++ [count])

/-- Run the program on what its path leads to. -/
def runOn (options : Options) : Entry -> Transcript
  | .missing => Transcript.failure [s!"Error: File '{options.path}' not found"]
  | .directory =>
      Transcript.failure
        ["Error: Os \x7b code: 21, kind: IsADirectory, message: \"Is a directory\" \x7d"]
  | .file contents =>
      match String.fromUTF8? contents with
      | some text => process options text
      | none =>
          Transcript.failure
            ["Error: Error \x7b kind: InvalidData, " ++
              "message: \"stream did not contain valid UTF-8\" \x7d"]

/-- Run the program with these arguments. -/
def run (arguments : List String) (lookup : String -> Entry) : Transcript :=
  match Options.parse arguments with
  | .error refusal => Transcript.failure refusal.lines
  | .ok options => runOn options (lookup options.path)

end CommandLine
end TypeSchema
