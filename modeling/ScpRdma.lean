import ScpRdma.Foundations.Transition
import ScpRdma.Foundations.Program
import ScpRdma.Foundations.Channel
import ScpRdma.Protocol
import ScpRdma.Session
import ScpRdma.Connection.Framing
import ScpRdma.Sender.Program
import ScpRdma.Sender.Accounting
import ScpRdma.Sender.Completeness
import ScpRdma.Sender.Placement
import ScpRdma.Sender.Recursion
import ScpRdma.Sender.Rotation
import ScpRdma.Sender.Chunking
import ScpRdma.Sender.WriteWait
import ScpRdma.Completion.Wakeup
import ScpRdma.Receiver.Discipline
import ScpRdma.Receiver.Bounds
import ScpRdma.Transfer.Safety
import ScpRdma.Transfer.Queues
import ScpRdma.Transfer.RoundTrip
import ScpRdma.Transfer.Ending
import ScpRdma.Transfer.Targets
import ScpRdma.Receiver.Dispatch
import ScpRdma.Receiver.Mkdir
import ScpRdma.Receiver.Acknowledgement
import ScpRdma.Receiver.Containment
import ScpRdma.Lifecycle.Safety
import ScpRdma.Checksum
import ScpRdma.Connection.Address
import ScpRdma.Destination
import ScpRdma.Connection.Region
import ScpRdma.Transfer.Copy
