import PacketTunnel.Failure
import PacketTunnel.Host.Job

/-!
# The host's worker

The worker does the jobs of an engine one after the other and reports an outcome for each. A failure
is reported in words.
-/
namespace PacketTunnel

/-- What a worker works with: how a route is installed, and the name service. -/
structure Worker where
  installRoute : Route → Except DeviceFault Unit
  names : NameService

namespace Worker

def perform (w : Worker) : HostJob → HostOutcome
  | .installRoute r =>
    match w.installRoute r with
    | .ok () => .routeInstalled r
    | .error fault => .failed s!"route {r.toText}: {(Failure.device fault).message}"
  | .resolve host current =>
    match w.names.resolve host (some current) with
    | .ok endpoint => .resolved endpoint
    | .error fault => .failed (Failure.configuration (.resolution fault)).message

def ofTool (tool : Tool) (interface : String) (names : NameService) : Worker where
  installRoute r := (tool.carryOut [Interface.routeTask interface r]).2
  names := names

/-- The runs of the tool that a list of jobs leads to. -/
def runs (tool : Tool) (interface : String) (jobs : List HostJob) : List (List String) :=
  jobs.flatMap fun job =>
    match job with
    | .installRoute r => (tool.carryOut [Interface.routeTask interface r]).1
    | .resolve .. => []

end Worker

end PacketTunnel
