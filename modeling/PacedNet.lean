import PacedNet.Session.Handle
import PacedNet.Proofs.Config.LineShape
import PacedNet.Proofs.Config.Section
import PacedNet.Proofs.Config.Tree
import PacedNet.Proofs.Config.Scanning
import PacedNet.Proofs.Config.Filling
import PacedNet.Proofs.Config.Including
import PacedNet.Proofs.Config.Growing
import PacedNet.Proofs.Config.Dumping
import PacedNet.Proofs.Config.Declaring
import PacedNet.Proofs.Config.Shadowing
import PacedNet.Proofs.Pacing
import PacedNet.Proofs.Socket.Acting
import PacedNet.Proofs.Socket.Sending
import PacedNet.Proofs.Host.Streaming
import PacedNet.Proofs.Socket.Delivery
import PacedNet.Proofs.Socket.Fifo
import PacedNet.Proofs.Socket.Receiving
import PacedNet.Proofs.Socket.Conversation
import PacedNet.Proofs.Socket.Resolving
import PacedNet.Proofs.Socket.Workload
import PacedNet.Proofs.Socket.Acknowledging
import PacedNet.Proofs.Socket.Losing
import PacedNet.Proofs.Socket.Cancelling
import PacedNet.Proofs.Config.Circling
import PacedNet.Proofs.Config.Phrasing
import PacedNet.Proofs.Config.Clashing
import PacedNet.Proofs.Config.Finding
import PacedNet.Proofs.Address.Dotted
import PacedNet.Proofs.Text.Encoding
import PacedNet.Proofs.Address.Grouped
import PacedNet.Proofs.Address.Reparsing
import PacedNet.Proofs.Address.Octets
import PacedNet.Proofs.Socket.Interleaving
import PacedNet.Proofs.Socket.Metering
import PacedNet.Proofs.Socket.Mail
import PacedNet.Proofs.Host.Mail
import PacedNet.Proofs.Socket.Correspondence
import PacedNet.Proofs.Overdraft
import PacedNet.Proofs.Socket.Owning
import PacedNet.Proofs.Socket.Immediate
import PacedNet.Proofs.Socket.Turns
import PacedNet.Proofs.Steering
import PacedNet.Proofs.Size.Exactness
import PacedNet.Proofs.Size.Writing
import PacedNet.Proofs.Halves
import PacedNet.Proofs.Socket.Records
import PacedNet.Proofs.Granting
import PacedNet.Proofs.Socket.Offering
import PacedNet.Proofs.Size.Grammar
import PacedNet.Proofs.Host.Accounts
import PacedNet.Proofs.Socket.Opening
import PacedNet.Proofs.Socket.Settings
import PacedNet.Proofs.Shares
import PacedNet.Proofs.Allotting
import PacedNet.Proofs.Roundings
import PacedNet.Proofs.Size.Fitting
import PacedNet.Proofs.Size.Rereading
import PacedNet.Proofs.Config.Paths
import PacedNet.Proofs.Config.Recurring
