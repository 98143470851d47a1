import StoreMarkup.CommandLine.Run

/-! The command as a program. It reads the paths of files from its standard input, one on each line.
A path that ends with a slash is that of a directory. -/
namespace StoreMarkup.Main

partial def readLines (input : IO.FS.Stream) (lines : Array String) : IO (Array String) := do
  let line ← input.getLine
  if line.isEmpty then return lines
  readLines input (lines.push line.trimAsciiEnd.toString)

/-- What reading a file gives. -/
def readContent (path : String) : IO (Except FileError Bytes) := do
  try
    let content ← IO.FS.readBinFile path
    return .ok content.toList
  catch e =>
    return .error (match e with
      | .permissionDenied .. => .denied
      | .noFileOrDirectory .. => .notFound
      | e => .other (toString e))

/-- Adds what is at a path, which is absolute or below the working directory. -/
def addPath (host : Host) (path : String) : IO Host := do
  let place := Path.ofText path.toList
  let parts := if place.root.isEmpty then host.workingDir ++ place.parts else place.parts
  if path.isEmpty then return host
  else if path.endsWith "/" then return { host with root := host.root.insert parts (.directory []) }
  else
    let content ← readContent path
    return { host with root := host.root.insert parts (.file content) }

/-- The working directory, as the environment names it. -/
def readWorkingDir : IO (List Text) := do
  return (Path.ofText ((← IO.getEnv "PWD").getD "").toList).parts

def readEnvironment : IO Environment := do
  let values ← Settings.variableNames.mapM fun name => do
    return (name, (← IO.getEnv name).map String.toList)
  return fun name => (values.lookup name).join

end StoreMarkup.Main

open StoreMarkup in
def main (arguments : List String) : IO UInt32 := do
  match Settings.load (← Main.readEnvironment) with
  | .error e =>
    IO.eprintln e.message
    return 1
  | .ok settings =>
    let workingDir ← Main.readWorkingDir
    let paths ← Main.readLines (← IO.getStdin) #[]
    let empty := (FileTree.directory []).insert workingDir (.directory [])
    let host ← paths.foldlM Main.addPath { root := empty, workingDir }
    let completion := CommandLine.run settings (arguments.map String.toList) host
    IO.print completion.output
    match completion.error with
    | some e => IO.eprintln e.message
    | none => pure ()
    return completion.status.code.toUInt32
