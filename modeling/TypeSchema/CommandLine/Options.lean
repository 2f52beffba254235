import TypeSchema.Numeral

namespace TypeSchema
namespace CommandLine

/-!
# Options

The arguments are read from left to right.  The first that is no option is
the path of the schema; a second one is refused.  Reading stops at the first
argument that is refused, and every refusal shows the usage.
-/

/-- What the user asked for. -/
structure Options where
  path : String
  showTokens : Bool := false
  limit : Option Nat := none
  deriving DecidableEq, Repr

/-- Why the arguments do not say what to do. -/
inductive Refusal where
  | help
  | noPath
  | limitExpected
  | unexpectedArgument (argument : String)
  deriving DecidableEq, Repr

/-- The name under which the program is called. -/
def programName : String := "typedef"

def usage : List String :=
  [ s!"Usage: {programName} <file> [--tokens] [--max-word-len N]",
    "",
    "  --tokens           Log every token with its byte offset",
    "  --max-word-len N   Warn about identifiers longer than N characters",
    "",
    "Set RUST_LOG=debug to trace definitions as they are registered." ]

/-- The lines that answer a refusal. -/
def Refusal.lines : Refusal -> List String
  | help => usage
  | noPath => ["Error: No input file provided", ""] ++ usage
  | limitExpected => ["Error: --max-word-len expects a number"] ++ usage
  | unexpectedArgument argument => [s!"Error: Unexpected argument '{argument}'"] ++ usage

/-- The options met so far. -/
structure Draft where
  path : Option String := none
  showTokens : Bool := false
  limit : Option Nat := none
  deriving DecidableEq, Repr

/-- Read the remaining arguments.  The argument behind `--max-word-len` is its
number, whatever it looks like; the last such option counts. -/
def Draft.read (draft : Draft) : List String -> Except Refusal Draft
  | [] => .ok draft
  | argument :: rest =>
      if argument = "--tokens" then Draft.read { draft with showTokens := true } rest
      else if argument = "--max-word-len" then
        match rest with
        | [] => .error .limitExpected
        | number :: others =>
            match Numeral.size? number with
            | some limit => Draft.read { draft with limit := some limit } others
            | none => .error .limitExpected
      else if argument = "-h" ∨ argument = "--help" then .error .help
      else
        match draft.path with
        | none => Draft.read { draft with path := some argument } rest
        | some _ => .error (.unexpectedArgument argument)

/-- Options are complete once they have a path. -/
def Draft.complete (draft : Draft) : Except Refusal Options :=
  match draft.path with
  | some path => .ok { path, showTokens := draft.showTokens, limit := draft.limit }
  | none => .error .noPath

/-- The options that the arguments give. -/
def Options.parse (arguments : List String) : Except Refusal Options := do
  let draft <- Draft.read {} arguments
  draft.complete

end CommandLine
end TypeSchema
