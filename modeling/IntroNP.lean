import IntroNP.Lib.System
import IntroNP.Lib.CString
import IntroNP.Lib.Cells
import IntroNP.Chat.Server
import IntroNP.Chat.Command
import IntroNP.Chat.Step
import IntroNP.Chat.Request
import IntroNP.Chat.Rooms
import IntroNP.Chat.Session
import IntroNP.Chat.Owner
import IntroNP.Chat.History
import IntroNP.Chat.Membership
import IntroNP.Chat.Speak
import IntroNP.Chat.Exit
import IntroNP.Chat.Framing
import IntroNP.Chat.Filter
import IntroNP.Lib.Stream
import IntroNP.Lib.Collector
import IntroNP.Udp.Server
import IntroNP.Udp.Client
import IntroNP.Udp.Datagram
import IntroNP.Udp.Codec
import IntroNP.Udp.Receiver
import IntroNP.Udp.Integrity
import IntroNP.Udp.Progress
import IntroNP.Udp.Joint
import IntroNP.Lib.CppString
import IntroNP.Vpn.Tunnel
import IntroNP.Vpn.Routing
import IntroNP.Vpn.Boundaries
import IntroNP.Lib.FileTree
import IntroNP.Lib.Http
import IntroNP.Web.Server
import IntroNP.Web.Outcome
import IntroNP.Web.Confine
import IntroNP.Web.WellFormed
import IntroNP.Web.Kinds
import IntroNP.Lib.Least
import IntroNP.Queens.Solve
import IntroNP.Queens.Completion
import IntroNP.Lib.Bfs
import IntroNP.Lib.Python
import IntroNP.Maze.FindPath
import IntroNP.Maze.Shortest
import IntroNP.Lib.Trail
import IntroNP.Maze.Explorer
import IntroNP.Maze.Position
import IntroNP.Chat.Pins
import IntroNP.Chat.Close
import IntroNP.Udp.Resend
import IntroNP.Udp.Tables
import IntroNP.Udp.Accounts
import IntroNP.Web.Decode
import IntroNP.Web.Encoded
import IntroNP.Lib.Buffer
import IntroNP.Web.Buffers
import IntroNP.Chat.Limits
import IntroNP.Lib.Grid
import IntroNP.Queens.MinConflict
import IntroNP.Queens.Placement
import IntroNP.UdpFlag.Capture
import IntroNP.UdpFlag.Gaps
import IntroNP.BinFlag.Decode
import IntroNP.BinFlag.Serial
import IntroNP.Bandwidth.Transfer
import IntroNP.Lib.Cut
import IntroNP.Bandwidth.Finish
import IntroNP.Lib.Inevitable
import IntroNP.Udp.Cycle
import IntroNP.Udp.Disk
import IntroNP.Chat.Accounts
import IntroNP.Chat.Authentic
import IntroNP.Chat.Secret
import IntroNP.Lib.Hub
import IntroNP.Vpn.Network
import IntroNP.Lib.Pipeline
import IntroNP.Unp.Nonblock
import IntroNP.Unp.EchoSession
import IntroNP.Unp.EchoReturn
import IntroNP.Lib.Countdown
import IntroNP.Unp.SelectServer
import IntroNP.Unp.Prefork
import IntroNP.Unp.Web
import IntroNP.Lib.Ring
import IntroNP.Unp.SignalEcho
import IntroNP.Unp.Threads
import IntroNP.Chat.Agreement
