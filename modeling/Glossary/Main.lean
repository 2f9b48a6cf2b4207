import Glossary.CommandLine.Session

/-!
The command line program: sessions run on the files of the working directory.
-/

namespace Glossary.CommandLine

/-- The names of all settings, as environment variables are usually spelled. -/
def settingNames : List String := [
  "DICTIONARY_PATH", "OUTPUT_DIR", "DEFAULT_IDENTIFIER_TYPE", "STRICT_IDENTIFIERS", "MAX_WORKERS",
  "INLINE_ANCESTOR_VIEWS", "EXTRA_PRIMITIVES"]

def readPlace (path : Path) : IO Place := do
  try
    let bytes ← IO.FS.readBinFile path.text
    return .file (bytes.toList.map UInt8.toNat)
  catch
    | .noFileOrDirectory .. => return .missing
    | _ => return .directory

/-- The names that the files of variables refer to. -/
def namesInFiles : IO (List String) := do
  let places ← Session.variableFiles.mapM readPlace
  return places.flatMap fun
    | .file bytes => referredNames ((Text.Utf8.decode bytes).toOption.getD [])
    | _ => []

/-- The variables of the environment that a session can ask for. Names of settings in small letters
come after those in capitals. -/
def environment : IO Variables := do
  let names := settingNames ++ settingNames.map asciiLower ++ switchName :: (← namesInFiles)
  names.eraseDups.filterMapM fun name => do
    return (← IO.getEnv name).map fun value => (name, value)

/-- Writes a file after making the directories above it. -/
def writePlace (path : Path) (text : String) : IO Unit := do
  if path.isAbsolute || !path.above.steps.isEmpty then IO.FS.createDirAll path.above.text
  IO.FS.writeFile path.text text

/-- Runs a session step by step and returns its exit code. -/
def Session.perform : Session → IO UInt32
  | .finished exit output errors => do
      IO.print (Text.plain output)
      IO.eprint (Text.plain errors)
      return UInt32.ofNat exit
  | .misused => do
      IO.eprint usage
      return 2
  | .crashed _ => do
      IO.eprintln "Error: the settings or the files cannot be used"
      return 1
  | .readFile path next => do
      let place ← readPlace path
      (next place).perform
  | .writeFile path text next => do
      writePlace path text
      next.perform
  | .warn text next => do
      IO.eprint text
      next.perform

end Glossary.CommandLine

def main (arguments : List String) : IO UInt32 := do
  let vars ← Glossary.CommandLine.environment
  (Glossary.CommandLine.Session.ofArguments vars arguments).perform
