import PRpc.Sock
import PRpc.Library.Count
import PRpc.Library.Transition
import PRpc.Decode
import PRpc.Client.Call
import PRpc.Request
import PRpc.Frame
import PRpc.Method
import PRpc.Response
import PRpc.Client.Receive
import PRpc.Remote
import PRpc.Library.Queue
import PRpc.Server.State
import PRpc.Server.Step
import PRpc.Server.Ownership
import PRpc.Library.Placement
import PRpc.Server.Places
import PRpc.Server.Records
import PRpc.Server.Tokens
import PRpc.Library.Framing
import PRpc.Server.Framing
import PRpc.Server.Disconnect
import PRpc.Server.Delivery
import PRpc.Client.Connection
import PRpc.Client.Session
import PRpc.Client.Responses
import PRpc.Client.State
import PRpc.Client.Managed
import PRpc.Client.GetConnection
import PRpc.RoundTrip
import PRpc.Buffer
import PRpc.Server.Exclusive
import PRpc.Server.Capacity
import PRpc.Client.Outstanding
import PRpc.Client.IdleClose
import PRpc.Server.Answer
import PRpc.Server.Stop
import PRpc.Field
import PRpc.Taken
import PRpc.Server.Failures
import PRpc.Client.Frames
import PRpc.Server.Saturation
import PRpc.Client.Truncated
import PRpc.Library.Machine
import PRpc.Server.Decoder
import PRpc.Library.Monitor
import PRpc.BlockQueue
import PRpc.Server.Entries
import PRpc.Library.Mutex
import PRpc.Server.MutexConns
import PRpc.Library.OrderedMap
import PRpc.Server.Cleanup
import PRpc.Server.Respond
import PRpc.Client.Removal
import PRpc.Library.Wakeup
import PRpc.Client.Cleanup
import PRpc.Library.Service
import PRpc.Library.Simulation
import PRpc.Server.Serving
import PRpc.Network
import PRpc.EndToEnd
import PRpc.Library.Work
import PRpc.Server.Drain
import PRpc.Completion
import PRpc.Alone
import PRpc.Client.Lasting
import PRpc.Client.View
import PRpc.Whole
import PRpc.WholeCompletion
import PRpc.Invocation
import PRpc.Process
