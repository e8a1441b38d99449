import PacketTunnel.Configuration
import PacketTunnel.Exchange
import PacketTunnel.Host.Files
import PacketTunnel.Loop.Rehearsal
import PacketTunnel.Main
import PacketTunnel.Settings.Document
import PacketTunnel.Settings.Format
import PacketTunnel.Status.File
import PacketTunnel.Status.Report
import PacketTunnel.Proofs.Server.Settling
import PacketTunnel.Proofs.Engine.Run
import PacketTunnel.Proofs.Server.Step
import PacketTunnel.Proofs.Server.Ownership
import PacketTunnel.Proofs.Server.Isolation
import PacketTunnel.Proofs.Message.Body
import PacketTunnel.Proofs.Protection
import PacketTunnel.Proofs.Datagram.RoundTrip
import PacketTunnel.Proofs.Route.LongestPrefix
import PacketTunnel.Proofs.Server.Targets
import PacketTunnel.Proofs.Server.Forwarding
import PacketTunnel.Proofs.Datagram.Canonical
import PacketTunnel.Proofs.Client.Step
import PacketTunnel.Proofs.Exchange.Run
import PacketTunnel.Proofs.Datagram.Advertising
import PacketTunnel.Proofs.Exchange.Strangers
import PacketTunnel.Proofs.Client.Hearing
import PacketTunnel.Proofs.Exchange.Pair
import PacketTunnel.Proofs.Server.Login
import PacketTunnel.Proofs.Exchange.Handshake
import PacketTunnel.Proofs.Client.Attending
import PacketTunnel.Proofs.Server.Attending
import PacketTunnel.Proofs.Exchange.Orderly
import PacketTunnel.Proofs.Exchange.Keepalive
import PacketTunnel.Proofs.Client.Awaiting
import PacketTunnel.Proofs.Exchange.Endurance
import PacketTunnel.Proofs.Client.Phases
import PacketTunnel.Proofs.Engine.Junk
import PacketTunnel.Proofs.Exchange.Integrity
import PacketTunnel.Proofs.Server.OwnedRoutes
import PacketTunnel.Proofs.Server.Liveness
import PacketTunnel.Proofs.Server.Repetition
import PacketTunnel.Proofs.Client.Provenance
import PacketTunnel.Proofs.Exchange.Recovery
import PacketTunnel.Proofs.Engine.Failures
import PacketTunnel.Proofs.Engine.Accounting
import PacketTunnel.Proofs.Address.Subnet
import PacketTunnel.Proofs.Route.History
import PacketTunnel.Proofs.Message.Grammar
import PacketTunnel.Proofs.Message.Refusal
import PacketTunnel.Proofs.Server.Allocation
import PacketTunnel.Proofs.Client.Learning
import PacketTunnel.Proofs.Server.OwnTraffic
import PacketTunnel.Proofs.Client.Pacing
import PacketTunnel.Proofs.Route.Text
import PacketTunnel.Proofs.Session.Reordering
import PacketTunnel.Proofs.Server.Order
import PacketTunnel.Proofs.Configuration.Validity
import PacketTunnel.Proofs.Loop.Dispatch
import PacketTunnel.Proofs.Client.Family
import PacketTunnel.Proofs.Session.Assignments
import PacketTunnel.Proofs.Status.File
