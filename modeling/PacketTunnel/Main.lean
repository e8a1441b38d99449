import PacketTunnel.CommandLine.Run
import PacketTunnel.Host.Interface
import PacketTunnel.Host.Path

/-!
# The program

The command line from end to end: the file that the command names is read, and what the command
leads to is printed. Only addresses in text are looked up. Tunnel devices belong to the host's
kernel, which is not asked for one here, so that a tunnel with valid settings ends at its device.
-/
namespace PacketTunnel

/-- No device is made, whatever its name. -/
def noDevice (name : String) : Option DeviceFault :=
  match Interface.checkTemplate name with
  | .error fault => some fault
  | .ok () => some (.refused "failed to open /dev/net/tun: Operation not permitted (os error 1)")

/-- The host's number for what went wrong with a file, whose sign does not matter. -/
def hostNumber : IO.Error → Nat
  | .noFileOrDirectory _ code _ => code.toInt32.toInt.natAbs
  | .inappropriateType _ code _ => code.toInt32.toInt.natAbs
  | .permissionDenied _ code _ => code.toInt32.toInt.natAbs
  | .invalidArgument _ code _ => code.toInt32.toInt.natAbs
  | _ => 0

def pathFault (number : Nat) : PathFault :=
  if number = 13 then .denied
  else if number = 20 then .notDirectory
  else if number = 21 then .directory
  else if number = 36 then .tooLong
  else .absent

def readFile (path : String) : IO (Except PathFault ByteArray) := do
  match Path.fault? path.toList with
  | some fault => return .error fault
  | none =>
    match ← (IO.FS.readBinFile path).toBaseIO with
    | .ok content => return .ok content
    | .error failure => return .error (pathFault (hostNumber failure))

def runProgram (words : List String) : IO UInt32 := do
  match Command.parse words with
  | .error fault =>
    IO.eprintln s!"error: {fault.message}"
    return 1
  | .ok (arguments, command) =>
    let directory ← IO.currentDir
    let file ← match command.file? with
      | some path => readFile path
      | none => pure (.error .absent)
    let outcome := command.run ⟨⟨.literal, directory.toString⟩, file, noDevice⟩
    for line in outcome.logLines arguments.logThreshold do
      IO.println line
    IO.print outcome.output
    return outcome.exitCode

end PacketTunnel

def main (words : List String) : IO UInt32 := PacketTunnel.runProgram words
