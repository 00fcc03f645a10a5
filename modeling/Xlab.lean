import Xlab.Delivery
import Xlab.Parameters
import Xlab.Framing
import Xlab.InOrder
import Xlab.Chunking
import Xlab.WriteEvents
import Xlab.Projection
import Xlab.Replies
import Xlab.Corruption
import Xlab.Wakeup
import Xlab.WriteInterest
import Xlab.UdpDescriptor
import Xlab.UdpReplies
import Xlab.Capacity
import Xlab.RespFifo
import Xlab.FrameIndex
import Xlab.Isolation
import Xlab.Leftmost
import Xlab.Agreement
import Xlab.OnePass
import Xlab.FlushPass
import Xlab.Placement
import Xlab.TransDispatch
import Xlab.Resume
import Xlab.WouldBlock
import Xlab.BodyBuffer
import Xlab.LoadCounters
import Xlab.CStrings
import Xlab.ConfigFile
import Xlab.StringTrim
import Xlab.ConfigLines
import Xlab.ConfigRoundTrip
import Xlab.Configure
import Xlab.NumericSettings
import Xlab.LineBuffer
import Xlab.Malformed
import Xlab.SameLine
import Xlab.Comments
import Xlab.Circle
import Xlab.Lists
import Xlab.ServerLists
import Xlab.Occurrence
import Xlab.StringSearch
import Xlab.Words
import Xlab.SplitLine
import Xlab.EventLoop
import Xlab.StartUp
import Xlab.SessionMemory
import Xlab.Background
import Xlab.Registration
import Xlab.ConfigMemory
import Xlab.Answers
import Xlab.Polling
import Xlab.Attribution
import Xlab.Datagrams
import Xlab.Cleanup
import Xlab.IntegerText
import Xlab.EverySession
import Xlab.PollingClients
