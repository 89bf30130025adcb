import Std.Time.DateTime
import Tabletop.Console.Arguments
import Tabletop.Console.Session
import Tabletop.Dice.Seeded
/-! The console program: it reads the arguments and the settings, then answers the lines of the
standard input one at a time. Without a seed the dice come from a random one. -/
namespace Tabletop.Console

def usage : String := "Roll dice notation read from stdin, one expression per line

Usage: repl [OPTIONS]

Options:
      --config <CONFIG>    TOML file with saved preferences
      --zero-based-d10     Read d10s as 0-9
      --zero-based-d100    Read d100s as 0-99
      --seed <SEED>        Seed the dice for reproducible rolls
      --format <FORMAT>    What to print for each roll [possible values: total, breakdown, markdown]
      --no-history         Don't keep a roll history
  -h, --help               Print help
  -V, --version            Print version
"

def now : IO Time := do
  let stamp ← Std.Time.Timestamp.now
  return ⟨stamp.toSecondsSinceUnixEpoch.val.toNat % 86400⟩

def readFile (path : Text) : IO (Except ReadFault Text.Bytes) := do
  try
    return .ok (← IO.FS.readBinFile (String.ofList path)).toList
  catch
    | .noFileOrDirectory _ _ _ => return .error .notFound
    | .inappropriateType _ _ _ => return .error .isDirectory
    | e => return .error (.other (toString e).toList)

def randomSeed : IO Nat := do
  return (← IO.getRandomBytes 8).toList.foldl (fun n b => 256 * n + b.toNat) 0

partial def readLine (input : IO.FS.Stream) (read : Text.Bytes) : IO Text.Bytes := do
  match (← input.read 1).toList with
  | [] => return read.reverse
  | 10 :: _ => return (10 :: read).reverse
  | b :: _ => readLine input (b :: read)

def emit (emissions : List Emission) : IO Unit := do
  let output ← IO.getStdout
  let errors ← IO.getStderr
  for e in emissions do
    output.putStr (String.ofList e.output)
    errors.putStr (String.ofList e.errors)
  output.flush

partial def serve (settings : Settings) (input : IO.FS.Stream) (session : Session Seeded) :
    IO UInt32 := do
  match Text.linesOf (← readLine input []) with
  | [] => return status true
  | line :: _ =>
    match session.receive? settings Seeded.roller (← now) line with
    | some (emissions, after) =>
      emit emissions
      serve settings input after
    | none =>
      IO.eprintln "error: stream did not contain valid UTF-8"
      return status false

/-- A failure, here or in `serve`, is written as `error: ` and the message of its cause, not as
`Error: ` and the cause with the names of its fields. -/
def start (arguments : Arguments) : IO UInt32 := do
  let file ← readFile (arguments.config.getD [])
  match arguments.settings fun _ => file with
  | .error e =>
    IO.eprintln ("error: " ++ String.ofList e.message)
    return 1
  | .ok settings =>
    let seed ← arguments.seed.getDM randomSeed
    emit [.prompt]
    serve settings (← IO.getStdin) (Session.start settings (Seeded.ofSeed (UInt64.ofNat seed)))

end Tabletop.Console

def main (arguments : List String) : IO UInt32 := do
  match Tabletop.Console.Arguments.read (arguments.map String.toList) with
  | .run arguments => Tabletop.Console.start arguments
  | .version =>
    IO.println "repl 0.1.0"
    return 0
  | .help =>
    IO.print Tabletop.Console.usage
    return 0
  | .misuse =>
    IO.eprint Tabletop.Console.usage
    return 2
