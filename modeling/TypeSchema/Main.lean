import TypeSchema.CommandLine.Run

namespace TypeSchema
namespace CommandLine

/-!
# The program

The outer layer of the command line: it reads the file that the arguments
name and the log setting of the environment, and writes the transcript.
-/

/-- Look up a path in the file system of the machine. -/
def lookUp (path : String) : IO Entry := do
  match ← (IO.FS.realPath path).toBaseIO with
  | .error _ => return .missing
  | .ok place =>
      if ← place.isDir then return .directory
      else return .file (← IO.FS.readBinFile path)

/-- The log setting of the environment. -/
def logFilter : IO Log.Filter := do
  let setting <- IO.getEnv "RUST_LOG"
  return (setting.bind Log.Filter.ofName?).getD Log.Filter.standard

end CommandLine
end TypeSchema

open TypeSchema.CommandLine

def main (arguments : List String) : IO UInt32 := do
  let filter <- logFilter
  let entry <-
    match Options.parse arguments with
    | .ok options => lookUp options.path
    | .error _ => pure .missing
  let transcript := run arguments fun _ => entry
  (← IO.getStderr).putStr (transcript.notesText filter)
  (← IO.getStdout).putStr transcript.outputText
  return transcript.code
