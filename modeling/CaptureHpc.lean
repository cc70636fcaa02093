import CaptureHpc.Java.Text
import CaptureHpc.Lib.KeyedForest
import CaptureHpc.Server.StateChange
import CaptureHpc.Server.Attribution
import CaptureHpc.Server.ArrivalOrder
import CaptureHpc.Java.UrlCodec
import CaptureHpc.Lib.Exec
import CaptureHpc.Server.State
import CaptureHpc.Server.Url
import CaptureHpc.Server.UrlGroup
import CaptureHpc.Server.Client
import CaptureHpc.Server.Verdict
import CaptureHpc.Lib.Machine
import CaptureHpc.Server.RevertQueue
import CaptureHpc.Lib.Monitors
import CaptureHpc.Server.Monitors
import CaptureHpc.Server.Messages
import CaptureHpc.Server.Threads
import CaptureHpc.Client.ServerReceive
import CaptureHpc.Lib.Xml
import CaptureHpc.Server.ContentHandler
import CaptureHpc.Client.Element
import CaptureHpc.Client.Url
import CaptureHpc.Server.ItemIdentity
import CaptureHpc.Server.System
import CaptureHpc.Server.Causes
import CaptureHpc.Server.Handling
import CaptureHpc.Server.Registration
import CaptureHpc.Server.VisitEnds
import CaptureHpc.Server.Retry
import CaptureHpc.Server.Confinement
import CaptureHpc.Server.LastVisit
import CaptureHpc.Client.VisitWindow
import CaptureHpc.Client.Base64
import CaptureHpc.Client.EventController
import CaptureHpc.Java.Streams
import CaptureHpc.Server.FileTransfer
import CaptureHpc.Client.FileUploader
import CaptureHpc.Client.Monitor
import CaptureHpc.Client.ProcessManager
import CaptureHpc.Driver.EventBuffer
import CaptureHpc.Driver.HandOver
import CaptureHpc.Client.NetworkMonitor
import CaptureHpc.Driver.FileMonitor
import CaptureHpc.Lib.XmlTag
import CaptureHpc.Server.ExclusionList
import CaptureHpc.Client.ExclusionList
import CaptureHpc.Server.ProcessForest
import CaptureHpc.Client.Visitor
import CaptureHpc.Client.VisitQueue
import CaptureHpc.Client.ProcessEvents
import CaptureHpc.Client.VisitGroup
import CaptureHpc.Driver.EventHandlerManager
import CaptureHpc.Driver.ConnectionManager
import CaptureHpc.Driver.RegistryMonitor
import CaptureHpc.Server.OneUrl
import CaptureHpc.Server.UrlFactory
import CaptureHpc.Server.Operation
import CaptureHpc.Client.XmlEscape
import CaptureHpc.Lib.Comparator
import CaptureHpc.Server.ClientsPinger
import CaptureHpc.Server.ErrorTransition
import CaptureHpc.Server.StartMessage
import CaptureHpc.Java.Double
import CaptureHpc.Server.InputLine
import CaptureHpc.Server.UrlQueue
import CaptureHpc.Server.InputReader
import CaptureHpc.Server.StoredEvents
import CaptureHpc.Client.ProcessCreation
import CaptureHpc.Client.ExclusionMap
import CaptureHpc.Client.LiteralExclusion
import CaptureHpc.Client.ObjectNames
import CaptureHpc.Client.GroupError
import CaptureHpc.Client.CaptureOptions
import CaptureHpc.Driver.MessageCallback
import CaptureHpc.Driver.StateReport
import CaptureHpc.Driver.NetworkReports
import CaptureHpc.Driver.OwnReports
import CaptureHpc.Driver.DeletedFile
import CaptureHpc.Driver.HashMapMemory
import CaptureHpc.Driver.BitmapRelease
import CaptureHpc.Server.Disconnected
import CaptureHpc.Server.Handshake
import CaptureHpc.Client.UrlFidelity
import CaptureHpc.Lib.Bisection
import CaptureHpc.Server.DivideAndConquer
import CaptureHpc.Server.HonestClients
import CaptureHpc.Client.GroupDelivery
import CaptureHpc.Client.VisitAnswer
import CaptureHpc.Client.XmlMessages
import CaptureHpc.Driver.HashMapDestroy
import CaptureHpc.Client.SystemEvents
