import Nets.Library.System
import Nets.Verification.ByteBuffer.Refinement
import Nets.Verification.ByteBuffer.RoundTrip
import Nets.Verification.SocketChannel.Lifecycle
import Nets.Verification.SocketChannel.Integrity
import Nets.Verification.SocketChannel.Callbacks
import Nets.Verification.SocketChannel.HalfClose
import Nets.Verification.EventLoop.Wakeup
import Nets.Verification.EventLoop.Conservation
import Nets.Verification.BoundedBlockingQueue.Linearization
import Nets.Verification.ThreadPool.Notification
import Nets.Verification.ThreadPool.Staffing
import Nets.Verification.ThreadPool.Custody
import Nets.Verification.ThreadPool.Closing
import Nets.Verification.ThreadPool.Rejection
import Nets.Verification.EventLoopGroup.Shutdown
import Nets.Verification.ServerBootstrap.Choosing
import Nets.Verification.ServerSocketChannel.Connecting
import Nets.Verification.FileLogAppender.Destruction
import Nets.Verification.LogFile.Rolling
import Nets.Verification.ChannelHandlerPipeline.Lists
import Nets.Verification.Dispatch.Batches
import Nets.Verification.EpollPoller.Agreement
import Nets.Verification.TimerManager.Completeness
import Nets.Verification.TimerManager.Runs
import Nets.Verification.ConnectorChannel.Retries
import Nets.Verification.ConnectorChannel.Channels
import Nets.Verification.ConnectorChannel.Descriptors
import Nets.Verification.SocketChannel.Delivery
import Nets.Verification.SocketChannel.DirectWrite
import Nets.Verification.SocketChannel.Interest
import Nets.Verification.SocketChannel.Queueing
import Nets.Verification.TimerManager.Termination
import Nets.Verification.EpollPoller.Rejection
import Nets.Verification.ChannelHandlerPipeline.SelfRemoval
import Nets.Verification.ByteBuffer.Appending
import Nets.Verification.BoundedBlockingQueue.Predicates
import Nets.Verification.ThreadPool.FailedCreation
import Nets.Verification.StringUtils.Joining
import Nets.Verification.InetSockAddress.Parsing
import Nets.Verification.StackBuffer.Objects
import Nets.Verification.LogFormatter.Records
import Nets.Verification.LogFilePath.Prefixes
import Nets.Verification.LogFilePath.Buffers
import Nets.Verification.AcceptLoop.Connections
import Nets.Verification.AcceptLoop.Reserve
import Nets.Verification.FileLogAppender.Wholeness
import Nets.Verification.LogFile.ShortWrites
import Nets.Verification.ChannelOption.Orders
import Nets.Verification.ServerBootstrap.Settings
import Nets.Verification.Bootstrap.Settings
import Nets.Verification.SocketChannel.Conversation
import Nets.Verification.DatagramChannel.Packets
import Nets.Verification.EpollPoller.Fairness
import Nets.Verification.Logger.Completion
