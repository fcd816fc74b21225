import Vmodem.Library.Transition
import Vmodem.Library.History
import Vmodem.Library.Accounting
import Vmodem.Library.TelnetReceiver
import Vmodem.Library.Potential
import Vmodem.Driver.Script
import Vmodem.Driver.Past
import Vmodem.Properties.SocketOwnership
import Vmodem.Properties.CallRouting
import Vmodem.Properties.Teardown
import Vmodem.Properties.Coherence
import Vmodem.Properties.SessionIsolation
import Vmodem.Properties.ReceivePath
import Vmodem.Properties.TransmitPath
import Vmodem.Properties.WireFraming
import Vmodem.Properties.TelnetFilter
import Vmodem.Properties.Timers
import Vmodem.Invariants.Calls
import Vmodem.Properties.PortIsolation
import Vmodem.Properties.WrappingDrop
import Vmodem.Properties.CallCarrier
import Vmodem.Properties.ConnectFirst
import Vmodem.Properties.CommandMode
import Vmodem.Properties.LineConfiguration
import Vmodem.Properties.SocketClose
import Vmodem.Properties.OptionNegotiation
import Vmodem.Properties.IcmpResults
import Vmodem.Properties.RecordAcceptance
import Vmodem.Properties.HandshakeBuffers
import Vmodem.Properties.AddressLiterals
import Vmodem.Properties.CommandLines
import Vmodem.Properties.RegisterCommands
import Vmodem.Properties.SocketStreams
import Vmodem.Properties.BlockingCalls
import Vmodem.Properties.DebugLog
import Vmodem.Properties.IcmpTimeout
import Vmodem.Properties.TerminalType
import Vmodem.Properties.CertificateParsing
import Vmodem.Properties.ParserBounds
import Vmodem.Properties.StalledPeer
import Vmodem.Properties.ByteStream
import Vmodem.Properties.SendRecords
import Vmodem.Properties.Sha256Standard
import Vmodem.Properties.PrfStandard
import Vmodem.Properties.RsaStep
import Vmodem.Properties.CertificateNesting
import Vmodem.Properties.IdleTimeout
import Vmodem.Properties.RingingWrites
import Vmodem.Properties.RingCadence
import Vmodem.Properties.AesStandard
import Vmodem.Properties.HandshakeAuthentic
import Vmodem.Properties.DuplexStream
import Vmodem.Properties.DuplexStream
