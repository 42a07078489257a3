import ApiDialect.CommandLine.Demand
import ApiDialect.CommandLine.Reply

/-!
The program. Files are fetched until nothing more is asked for, and everything else is decided
without looking at them again.
-/

namespace ApiDialect
namespace CommandLine

private def faultOfCode (code : UInt32) (details : String) : FileFault :=
  let number := if code < 0x80000000 then code else 0 - code
  match number with
  | 2 => .notFound
  | 20 => .notDirectory
  | 21 => .isDirectory
  | 36 => .nameTooLong
  | _ => .other (details ++ " (os error " ++ toString number ++ ")")

private def faultOf : IO.Error → FileFault
  | .noFileOrDirectory _ code details => faultOfCode code details
  | .inappropriateType _ code details => faultOfCode code details
  | .invalidArgument _ code details => faultOfCode code details
  | .permissionDenied _ code details => faultOfCode code details
  | .resourceExhausted _ code details => faultOfCode code details
  | .otherError code details => faultOfCode code details
  | error => .other (toString error)

private def fetch (path : String) : IO (Except FileFault ByteArray) := do
  try return .ok (← IO.FS.readBinFile path)
  catch error => return .error (faultOf error)

private partial def gather (arguments : Arguments) (snapshot : Snapshot) : IO Snapshot := do
  match arguments.demand snapshot with
  | [] => return snapshot
  | paths =>
    let found ← paths.mapM fun path => return (path, ← fetch path)
    gather arguments (snapshot ++ found)

private def environmentNames : List String :=
  Key.all.filterMap Key.inEnvironment?

private def helpLines : List String :=
  ["Convert OpenAPI 3.0 documents to Swagger 2.0",
    "",
    "Usage: oas-convert [OPTIONS] <INPUT>",
    "",
    "Arguments:",
    "  <INPUT>  Input document path (inline JSON/YAML text with --text)",
    "",
    "Options:",
    "      --text             Treat INPUT as the document text instead of a path",
    "      --from <FROM>      Source format (default: openapi_3) [env: OAS_CONVERT_FROM]",
    "      --to <TO>          Target format (default: swagger_2) [env: OAS_CONVERT_TO]",
    "      --syntax <SYNTAX>  Output syntax: json or yaml",
    "      --order <ORDER>    Key order: openapi, alpha or false",
    "  -o, --output <OUTPUT>  Write the result to this file instead of stdout",
    "      --fill-missing     Fill in placeholder info.title / info.version when missing",
    "      --config <CONFIG>  Settings file (JSON or YAML) [env: OAS_CONVERT_CONFIG]",
    "  -v, --verbose          Tell which files are read",
    "  -h, --help             Print help",
    "  -V, --version          Print version"]

private def helpText : String :=
  String.join (helpLines.map (· ++ "\n"))

private def report (arguments : Arguments) (snapshot : Snapshot) : IO Snapshot := do
  if arguments.options.verbose then
    for path in snapshot.names do IO.eprintln ("Reading " ++ path)
  return snapshot

private def complain (message : String) : IO UInt32 := do
  IO.eprintln (complaint message)
  return 1

private def perform (reply : Reply) : IO UInt32 := do
  match reply with
  | .halted .misuse => IO.eprint helpText
  | .halted .help => IO.print helpText
  | .halted .version => IO.print versionLine
  | .failed error => return ← complain error.message
  | .printed text => IO.print text
  | .saved path text =>
    try IO.FS.writeBinFile path text.toUTF8
    catch error => return ← complain (faultOf error).message
  return reply.exitCode

/-- Runs the program with the words behind its name. -/
def run (words : List String) : IO UInt32 := do
  let known ← environmentNames.filterMapM fun name => return (← IO.getEnv name).map (name, ·)
  let environment := Members.get? known
  let snapshot ←
    match Arguments.read environment words with
    | .ok arguments => report arguments (← gather arguments [])
    | .error _ => pure []
  perform (reply snapshot.files environment words)

end CommandLine
end ApiDialect

def main (words : List String) : IO UInt32 :=
  ApiDialect.CommandLine.run words
