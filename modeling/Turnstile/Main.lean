import Turnstile.Programs.Tool
import Std.Time

/-! The operator tool as a program. -/

namespace Turnstile.Tool

def variableNames : List String :=
  ["JWT_SECRET", "AUTH_SECRET", "JWT_ALGORITHM", TokenConfig.accessSetting,
    TokenConfig.refreshSetting, "RUST_LOG"]

def currentEnvironment : IO Environment := do
  let found ← variableNames.mapM fun name => do
    return (← IO.getEnv name).map fun value => (name, utf8 value)
  return ⟨found.filterMap id⟩

def randomDraw : IO Draw := do
  let bytes ← IO.getRandomBytes 16
  return Vector.ofFn fun i => bytes.toList.getD i 0

def about : String := "Tollgate operator tools\n"

end Turnstile.Tool

open Turnstile Tool in
def main (args : List String) : IO UInt32 := do
  let env ← currentEnvironment
  let salt ← randomDraw
  let now := (← Std.Time.Timestamp.now).toNanosecondsSinceUnixEpoch.val
  let output := Tool.run (fun _ => about) env now salt args
  IO.print output.stdout
  IO.eprint output.stderr
  return UInt32.ofNat output.exitCode
