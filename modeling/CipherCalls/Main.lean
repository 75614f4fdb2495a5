/-
# The program

Arguments, the environment and files are read here, and the report is printed; everything else is
decided by `Invocation.report`.
-/
import CipherCalls.CommandLine.Report

namespace CipherCalls.CommandLine

/-- How the program is used. -/
def usageText : String :=
  "Usage: cipher-calls [--params <FILE>] [--pks <FILE>] selectors\n" ++
  "       cipher-calls [--params <FILE>] [--pks <FILE>] call [--mode <MODE>] [--depth <N>] " ++
  "[--gas-limit <N>] <HEX>..."

/-- What is in a file, if it can be read. -/
def readFile? (path : String) : IO (Option Bytes) := do
  try
    let content ← IO.FS.readBinFile path
    return some content.data.toList
  catch _ =>
    return none

/-- What is in the file of a path, if there is a path. -/
def readFiles (paths : List String) : IO (List (String × Option Bytes)) :=
  paths.mapM fun path => do return (path, ← readFile? path)

end CipherCalls.CommandLine

open CipherCalls CipherCalls.CommandLine

/-- Reports on the invocation that the arguments and the environment stand for. -/
def main (args : List String) : IO UInt32 := do
  let params ← IO.getEnv "FHEVM_PARAMS_PATH"
  let key ← IO.getEnv "FHEVM_PKS_PATH"
  match Invocation.ofArguments params key args with
  | .error .help =>
    IO.println usageText
    return 0
  | .error .usage =>
    IO.eprintln usageText
    return 2
  | .ok invocation =>
    let files ← readFiles (invocation.paramsPath.toList ++ invocation.keyPath.toList)
    let seed ← IO.getRandomBytes 32
    let report := invocation.report (fun path => (files.lookup path).join)
      fun n => Keccak.digest (seed.data.toList ++ Bytes.ofNatLE 8 n)
    report.lines.forM IO.println
    match report.complaint with
    | some complaint => IO.eprintln ("Error: " ++ complaint)
    | none => pure ()
    return report.code.toUInt32
