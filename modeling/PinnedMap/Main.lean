import PinnedMap.Program
import Std.Time.DateTime

/-! The command line: it asks the system for what the program needs, and prints what it says. -/
namespace PinnedMap.Command

def entry? (path : String) : IO (Option Entry) := do
  try return some (.file (← IO.FS.readBinFile path).toList)
  catch
    | .noFileOrDirectory .. | .inappropriateType (some _) .. | .invalidArgument .. => return none
    | _ => return some .directory

def consult (surroundings : Surroundings) : IO Surroundings := do
  let found ← surroundings.lookedAt.filterMapM fun path => return (path,·) <$> (← entry? path)
  let environment ← surroundings.askedFor.filterMapM fun name => return (name,·) <$> (← IO.getEnv name)
  return { surroundings with files := (found.lookup ·), environment }

def now : IO Timestamp := do
  let time ← Std.Time.Timestamp.now
  return .ofEpoch time.val.second.val.toNat time.val.nano.val.toNat

def newId : IO Uuid := do
  let bytes ← IO.getRandomBytes 16
  return .random (BitVec.ofNat 128 (bytes.toList.foldl (fun value byte => 256 * value + byte.toNat) 0))

end PinnedMap.Command

open PinnedMap

/-- Consults the system four times: the answers say which variables, which settings and which image to
ask for next. -/
def main : IO UInt32 := do
  let directory := (← IO.currentDir).toString
  let programDirectory := Path.parent (← IO.appPath).toString
  let mut surroundings : Surroundings := { files := fun _ => none, directory, programDirectory }
  for _ in [1,2,3,4] do
    surroundings ← Command.consult surroundings
  let time ← Command.now
  let report := surroundings.replay (← Command.newId) fun _ => time
  report.lines.forM fun line => IO.println line
  report.complaint?.forM fun complaint => IO.eprintln complaint
  return report.exitCode.toUInt32
