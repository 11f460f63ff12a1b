import EmbeddedMqttc.Library.Prog
import EmbeddedMqttc.Library.Run
import EmbeddedMqttc.Library.BoundedVec
import EmbeddedMqttc.Library.Framing
import EmbeddedMqttc.Library.FramedPipe
import EmbeddedMqttc.Packet
import EmbeddedMqttc.WireFormat
import EmbeddedMqttc.Buffer
import EmbeddedMqttc.Pid
import EmbeddedMqttc.Connection
import EmbeddedMqttc.ConnectionSpec
import EmbeddedMqttc.ConnectionRun
import EmbeddedMqttc.OutgoingStream
import EmbeddedMqttc.IncomingStream
import EmbeddedMqttc.EndOfStream
import EmbeddedMqttc.ConnectProgress
import EmbeddedMqttc.AutoSubscribes
import EmbeddedMqttc.Component
import EmbeddedMqttc.Publish
import EmbeddedMqttc.PublishSpec
import EmbeddedMqttc.PublishAccounting
import EmbeddedMqttc.Receive
import EmbeddedMqttc.ReceiveExchange
import EmbeddedMqttc.Sub
import EmbeddedMqttc.Library.Correspondence
import EmbeddedMqttc.Session
import EmbeddedMqttc.PidsInUse
import EmbeddedMqttc.Flight
import EmbeddedMqttc.PublishExchange
import EmbeddedMqttc.ConformingBroker
import EmbeddedMqttc.Library.Ownership
import EmbeddedMqttc.CompletionsEarned
import EmbeddedMqttc.AnyBroker
import EmbeddedMqttc.Library.History
import EmbeddedMqttc.NoDuplicates
import EmbeddedMqttc.Library.ExactlyOnce
import EmbeddedMqttc.PublishOnce
import EmbeddedMqttc.TakenOver
import EmbeddedMqttc.EventLoop
import EmbeddedMqttc.EventLoopSpec
import EmbeddedMqttc.Deadlock
import EmbeddedMqttc.Completion
import EmbeddedMqttc.SentAll
import EmbeddedMqttc.NoLostRequest
import EmbeddedMqttc.Library.Skipping
import EmbeddedMqttc.ReceiveCalls
import EmbeddedMqttc.DrainOrder
import EmbeddedMqttc.AckDelivery
import EmbeddedMqttc.ResendScan
import EmbeddedMqttc.Starvation
import EmbeddedMqttc.Library.Retransmission
import EmbeddedMqttc.PendingScan
import EmbeddedMqttc.PublishCopies
import EmbeddedMqttc.SendPass
import EmbeddedMqttc.RunCalls
import EmbeddedMqttc.NewSession
import EmbeddedMqttc.Library.SendingLine
import EmbeddedMqttc.SendLine
import EmbeddedMqttc.SendOrder
import EmbeddedMqttc.ReplyTask
import EmbeddedMqttc.BufferQueue
import EmbeddedMqttc.Library.WakerRegistration
import EmbeddedMqttc.Mutex
import EmbeddedMqttc.UniqueIdPool
import EmbeddedMqttc.WritePacket
import EmbeddedMqttc.SubResults
import EmbeddedMqttc.Oversized
import EmbeddedMqttc.MqttClients
import EmbeddedMqttc.EventMatching
import EmbeddedMqttc.IdReuse
import EmbeddedMqttc.RequestFailures
import EmbeddedMqttc.Library.Progress
import EmbeddedMqttc.PublishProgress
import EmbeddedMqttc.Library.Conversation
import EmbeddedMqttc.ClientSession
import EmbeddedMqttc.RunPanics
import EmbeddedMqttc.KeepAlive
import EmbeddedMqttc.SubscribeProgress
import EmbeddedMqttc.AckProgress
import EmbeddedMqttc.ReceiveProgress
import EmbeddedMqttc.Library.Pacing
import EmbeddedMqttc.ResendPace
import EmbeddedMqttc.Library.Simulation
import EmbeddedMqttc.Library.Mirroring
import EmbeddedMqttc.IdsCarried
import EmbeddedMqttc.EventLoopRefinement
