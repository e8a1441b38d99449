import PacketTunnel.CommandLine.Parser
import PacketTunnel.Configuration
import PacketTunnel.Host.Path
import PacketTunnel.Settings.Document
import PacketTunnel.Status.Format
import PacketTunnel.Status.Report

/-!
# Carrying out a command line

A command line reads at most one file and then has an outcome: text for the standard output,
messages for the log, and an exit code. Making the tunnel device is left to the host and is one of
the circumstances. A tunnel whose device cannot be made ends there; nothing else has been done by
then.
-/
namespace PacketTunnel

inductive LogLevel where
  | error
  | warning
  | info
  | debug
deriving DecidableEq, Repr

namespace LogLevel

def label : LogLevel → String
  | error => "ERROR"
  | warning => " WARN"
  | info => " INFO"
  | debug => "DEBUG"

def rank : LogLevel → Nat
  | error => 1
  | warning => 2
  | info => 3
  | debug => 4

/-- The greatest rank that a log of the given level shows. A text that names no level shows nothing.
-/
def threshold (text : String) : Nat :=
  match ["off", "error", "warn", "info", "debug", "trace"].idxOf? text.toLower with
  | some n => n
  | none => 0

end LogLevel

/-- What a command leads to. -/
structure CommandOutcome where
  log : List (LogLevel × String)
  output : String
  exitCode : UInt32
deriving DecidableEq, Repr

/-- What a command finds around it. -/
structure Circumstances where
  surroundings : Surroundings
  /-- The content of the file that the command reads, or why it cannot be read. -/
  file : Except PathFault ByteArray
  device : String → Option DeviceFault

namespace Command

def file? : Command → Option String
  | tunnel file _ _ => file
  | status path _ => some path
  | _ => none

def helpLine (form : OptionForm) : String :=
  let short := match form.letter with
    | some c => String.ofList ['-', c, ',', ' ']
    | none => "    "
  let value := match form.effect with
    | .text _ => " <TEXT>"
    | .path _ => " <PATH>"
    | .number .. => " <NUMBER>"
    | _ => ""
  "  " ++ short ++ padRight 28 ("--" ++ form.long ++ value) ++ " " ++ form.about ++ "\n"

def helpText (scope : CommandScope) : String :=
  let heading := match scope with
    | .tunnel =>
      "Minimal encrypted virtual network tunnel over UDP\n\nUsage: vtunnel [OPTIONS]\n       vtunnel status " ++
        "[OPTIONS] --status-file <PATH>\n"
    | .status =>
      "Show the status of a running tunnel\n\nUsage: vtunnel status [OPTIONS] --status-file <PATH>\n"
  heading ++ "\nOptions:\n" ++ String.join (scope.options.map helpLine)

def versionText : String := "vtunnel 0.3.1\n"

/-- A failure in words, with the host's reason once more as its cause. -/
def explain : Failure → String
  | .inputOutput reason => s!"I/O error: {reason}: {reason}"
  | failure => failure.message

def failing (message : String) : CommandOutcome := ⟨[(.error, message)], "", 1⟩

def configuration (around : Circumstances) (file : Option String) (settings : Settings) :
    Except String Configuration := do
  let base ← match file with
    | none => .ok .unset
    | some path =>
      (Settings.ofRead path around.file).mapError fun failure =>
        s!"failed to load {path}: {explain failure}"
  (Configuration.ofSettings around.surroundings (base.overlay settings)).mapError explain

def protectionLog : Protection → List (LogLevel × String)
  | .clear => [(.warning, "Encryption disabled: tunnel traffic will be sent in cleartext")]
  | .keyed keys =>
    let shown := Bytes.toHex (keys.fingerprint.toBytes.take 4)
    [(.debug, s!"Derived session keys (fingerprint {shown})"), (.info, s!"Key fingerprint {shown}")]

/-- Run a tunnel, as far as making its device. -/
def runTunnel (around : Circumstances) (file : Option String) (settings : Settings) :
    CommandOutcome :=
  match configuration around file settings with
  | .error message => failing message
  | .ok c =>
    let log := protectionLog c.protection
    match around.device c.interface with
    | none => ⟨log, "", 0⟩
    | some fault =>
      ⟨log ++ [(.error, s!"failed to create TUN device: {Failure.message (.device fault)}")], "", 1⟩

def runStatus (around : Circumstances) (path : String) (json : Bool) : CommandOutcome :=
  let read : Except Failure Snapshot := match around.file with
    | .error fault => .error (.inputOutput fault.message)
    | .ok content =>
      match String.fromUTF8? content with
      | none => .error (.inputOutput "stream did not contain valid UTF-8")
      | some text => match Snapshot.read? text with
        | none => .error .status
        | some snapshot => .ok snapshot
  match read with
  | .error failure => failing s!"cannot read status from {path}: {explain failure}"
  | .ok snapshot => ⟨[], if json then snapshot.write ++ "\n" else snapshot.report, 0⟩

def run (around : Circumstances) : Command → CommandOutcome
  | help scope => ⟨[], helpText scope, 0⟩
  | version => ⟨[], versionText, 0⟩
  | tunnel file settings _ => runTunnel around file settings
  | status path json => runStatus around path json

end Command

def Arguments.logThreshold (a : Arguments) : Nat :=
  LogLevel.threshold (if a.debug then "debug" else a.logLevel)

/-- The lines of a log up to a rank, as they are printed. -/
def CommandOutcome.logLines (outcome : CommandOutcome) (threshold : Nat) : List String :=
  outcome.log.filterMap fun entry =>
    if entry.1.rank ≤ threshold then some (entry.1.label ++ " " ++ entry.2) else none

end PacketTunnel
