import EnvelopeWarp.CommandLine.Run

/-! The program as the system sees it: arguments in, an exit code out. The drawing goes to the output
and everything else to the stream for errors. -/

namespace EnvelopeWarp
namespace Program

def versionText : String :=
  "quadwarp 0.1.0\n"

def usageText : String :=
  "Usage: quadwarp [OPTIONS] <DOCUMENT>\n"

def helpText : String :=
  "Warp an SVG path so its bounding box fits a four-node control path\n\n" ++ usageText ++
  "\nArguments:\n  <DOCUMENT>  SVG document to modify\n\nOptions:\n" ++
  "      --id <ID>              Selected element id; give the path to warp first, then the control path\n" ++
  "      --config <FILE>        Configuration file (.toml or .json)\n" ++
  "      --bounds <SOURCE>      Where the bounding box comes from: geometry, inkscape or fixed\n" ++
  "      --inkscape <PROGRAM>   Inkscape executable used for bounding-box queries\n" ++
  "      --precision <N>        Digits after the decimal point in the rewritten path data\n" ++
  "  -o, --output <FILE>        Write the document here instead of stdout\n" ++
  "      --log-format <FORMAT>  Log format on stderr: pretty or json\n" ++
  "  -h, --help                 Print help\n" ++
  "  -V, --version              Print version\n"

/-- What is wrong with the arguments, in words. -/
def usageMessage : UsageError → String
  | .help => "help was asked for"
  | .version => "the version was asked for"
  | .unknownArgument => "unexpected argument found"
  | .noValue => "a value is required but none was supplied"
  | .badValue => "invalid value"
  | .repeated => "an argument cannot be used multiple times"
  | .needlessValue => "unexpected value found"
  | .missingDocument => "the required argument <DOCUMENT> was not provided"

variable {m : Type → Type} [Monad m] [Host m]

/-- The exit code of a failure. A filter that cannot be cut apart has one of its own. -/
def exitCode : Failure → Nat
  | .filter .misaligned => 101
  | _ => 1

def fail (failure : Failure) : m Nat := do
  Host.putError failure.report
  return exitCode failure

/-- Help and the version are no errors. -/
def refuse : UsageError → m Nat
  | .help => do
    Host.putOutput helpText
    return 0
  | .version => do
    Host.putOutput versionText
    return 0
  | error => do
    Host.putError ("error: " ++ usageMessage error ++ "\n\n" ++ usageText)
    return 2

def finish : Except Failure Outcome → m Nat
  | .error failure => fail failure
  | .ok (.applied _) => return 0
  | .ok (.rejected error) => do
    Host.putError (error.message ++ "\n")
    return 1

/-- The variable of the environment that holds a filter for the log. -/
def filterVariable : String :=
  "RUST_LOG"

def runWith (arguments : Arguments) (settings : Settings) : m Nat := do
  match Filter.choose (← Host.environment? filterVariable) settings.logging.level with
  | .error fault => fail (.filter fault)
  | .ok _ => finish (← arguments.run settings)

/-- Runs the program and answers its exit code. -/
def main (words : List String) : m Nat :=
  match Arguments.parse words with
  | .error error => refuse error
  | .ok arguments => do
    match ← arguments.loadSettings with
    | .error failure => fail failure
    | .ok settings => runWith arguments settings

end Program
end EnvelopeWarp
