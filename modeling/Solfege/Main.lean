import Solfege.CommandLine.Program

/-! The program itself. A run asks for at most one file to be written; when that fails the run is
repeated with the disk's complaint known. -/
namespace Solfege

/-- Carries out a run and tells the exit code. -/
def carryOut (arguments : List String) : IO UInt32 := do
  let number ← IO.rand 0 1000000007
  let planned := CommandLine.run (fun _ => none) [number] arguments
  let outcome ← match planned.saved with
    | none => pure planned
    | some (path, bytes) =>
      try
        IO.FS.writeBinFile path (ByteArray.mk bytes.toArray)
        pure planned
      catch error =>
        pure (CommandLine.run (fun _ => some (toString error)) [number] arguments)
  IO.print outcome.out
  IO.eprint outcome.err
  match outcome.fault with
  | some fault => IO.eprintln fault.message
  | none => pure ()
  return outcome.exit.toUInt32

end Solfege

def main (arguments : List String) : IO UInt32 := Solfege.carryOut arguments
