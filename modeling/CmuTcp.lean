import CmuTcp.Library.FaultSystem
import CmuTcp.Library.CircularBuffer
import CmuTcp.Library.IntervalList
import CmuTcp.Library.LinkedHeap
import CmuTcp.Library.Lockstep
import CmuTcp.Library.BigEndian
import CmuTcp.Model.Packet
import CmuTcp.Model.SendBuffer
import CmuTcp.Model.RecvBuffer
import CmuTcp.Model.Socket
import CmuTcp.Model.Backend
import CmuTcp.Model.Network
import CmuTcp.Model.Codec
import CmuTcp.Model.Host
import CmuTcp.Model.Udp
import CmuTcp.Model.Threads
import CmuTcp.Spec.SendStream
import CmuTcp.Spec.Reassembly
import CmuTcp.Ring.Send
import CmuTcp.Ring.SendRuns
import CmuTcp.Ring.Merge
import CmuTcp.Ring.Recv
import CmuTcp.Ring.Insertion
import CmuTcp.Ring.RecvRuns
import CmuTcp.Ring.Window
import CmuTcp.Ring.CopyOut
import CmuTcp.Ring.Dump
import CmuTcp.Ring.Moved
import CmuTcp.Ring.Malloc
import CmuTcp.Ring.Shift
import CmuTcp.Ring.Overlap
import CmuTcp.Connection.Sending
import CmuTcp.Connection.Segmentation
import CmuTcp.Connection.Resend
import CmuTcp.Connection.Payload
import CmuTcp.Connection.Receiving
import CmuTcp.Connection.Invariant
import CmuTcp.Connection.Local
import CmuTcp.Connection.Stall
import CmuTcp.Connection.Sound
import CmuTcp.Connection.Survival
import CmuTcp.Connection.Acking
import CmuTcp.Connection.Timeout
import CmuTcp.Connection.Moves
import CmuTcp.Connection.Safety
import CmuTcp.Connection.Delivery
import CmuTcp.Connection.FlowControl
import CmuTcp.Connection.Progress
import CmuTcp.Connection.Stranded
import CmuTcp.Connection.Serving
import CmuTcp.Connection.Completion
import CmuTcp.Connection.Starvation
import CmuTcp.Handshake.Faults
import CmuTcp.Handshake.Endpoint
import CmuTcp.Handshake.Stages
import CmuTcp.Handshake.Agreement
import CmuTcp.Handshake.Established
import CmuTcp.Handshake.Deadlock
import CmuTcp.Handshake.Opening
import CmuTcp.Handshake.Lifetime
import CmuTcp.Datagram.Codec
import CmuTcp.Datagram.Extension
import CmuTcp.Datagram.Framing
import CmuTcp.Datagram.Peer
import CmuTcp.Datagram.Framed
import CmuTcp.Datagram.Refinement
import CmuTcp.Datagram.EndToEnd
import CmuTcp.Threads.Locks
import CmuTcp.Threads.Interleaving
import CmuTcp.Threads.Safety
import CmuTcp.Threads.Unlocked
