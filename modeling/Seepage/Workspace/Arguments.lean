import Seepage.Workspace.Run

set_option autoImplicit false

namespace Seepage.Arguments

def usage : String :=
  "Usage: minitaint analyze [OPTIONS] <INPUT>...\n"

def help : String :=
  "Taint analyzer for JavaScript Mini-Programs\n\n" ++ usage ++
  "\nArguments:\n" ++
  "  <INPUT>...           Mini-Program directories, directories of Mini-Programs, or text files " ++
    "listing them\n" ++
  "\nOptions:\n" ++
  "  -c, --config <FILE>  Sources/sinks configuration (.json or .toml); defaults to the nearest " ++
    "minitaint.toml\n" ++
  "  -o, --output <DIR>   Directory the result files are written to [default: results]\n" ++
  "  -j, --jobs <N>       Number of Mini-Programs analysed in parallel\n" ++
  "      --bench          Record per-phase timings into bench.csv\n" ++
  "      --path-details   Report one path per distinct last hop into a sink instead of one per " ++
    "source and sink\n" ++
  "  -f, --format <FORMAT>  Result file format [default: csv] [possible values: csv, json]\n" ++
  "      --no-color       Disable colored output\n" ++
  "      --log-level <LEVEL>  Set the log level\n" ++
  "      --log-json       Output logs in JSON format\n" ++
  "  -h, --help           Print help\n" ++
  "  -V, --version        Print version\n"

def version : String := "minitaint 0.1.0\n"

inductive Order where
  | analyze (request : Request)
  | help
  | version
deriving DecidableEq, Repr, Inhabited

def flag? (request : Request) : String → Option Request
  | "--bench" => some { request with isTimed := true }
  | "--path-details" => some { request with pathDetails := true }
  | "--no-color" => some request
  | "--log-json" => some request
  | _ => none

def valued (request : Request) (option value : String) : Except String (Option Request) :=
  match option with
  | "-c" | "--config" => .ok (some { request with settings := some ⟨value⟩ })
  | "-o" | "--output" => .ok (some { request with output := ⟨value⟩ })
  | "-j" | "--jobs" =>
    if value.toNat?.isSome then .ok (some request)
    else .error ("invalid value '" ++ value ++ "' for '--jobs <N>'")
  | "-f" | "--format" =>
    match value with
    | "csv" => .ok (some { request with format := .tables })
    | "json" => .ok (some { request with format := .document })
    | _ => .error ("invalid value '" ++ value ++ "' for '--format <FORMAT>'")
  | "--log-level" =>
    if ["trace", "debug", "info", "warn", "error"].contains value then .ok (some request)
    else .error ("invalid value '" ++ value ++ "' for '--log-level <LEVEL>'")
  | _ => .ok none

def parseOptions (request : Request) : List String → Except String Request
  | [] =>
    if request.inputs.isEmpty then
      .error "the following required arguments were not provided:\n  <INPUT>..."
    else .ok request
  | option :: rest =>
    if !option.startsWith "-" then
      parseOptions { request with inputs := request.inputs ++ [⟨option⟩] } rest
    else
      match flag? request option, rest with
      | some request, rest => parseOptions request rest
      | none, value :: rest =>
        match valued request option value with
        | .error message => .error message
        | .ok (some request) => parseOptions request rest
        | .ok none => .error ("unexpected argument '" ++ option ++ "' found")
      | none, [] => .error ("unexpected argument '" ++ option ++ "' found")

def parse (arguments : List String) : Except String Order :=
  if arguments.any fun argument => argument = "-h" || argument = "--help" then .ok .help
  else if arguments.any fun argument => argument = "-V" || argument = "--version" then .ok .version
  else
    match arguments with
    | "analyze" :: rest => (parseOptions { inputs := [] } rest).map .analyze
    | [] => .ok .help
    | other :: _ => .error ("unrecognized subcommand '" ++ other ++ "'")

end Seepage.Arguments
