import TinyProto.Crc
import TinyProto.Hdlc.LowLevel
import TinyProto.Hdlc.Tx
import TinyProto.Hdlc.Deframe
import TinyProto.Hdlc.Detection
import TinyProto.Hdlc.Receiver
import TinyProto.Hdlc.Rfc1662
import TinyProto.Hdlc.Oversized
import TinyProto.Hdlc.Reports
import TinyProto.Hdlc.HighLevel
import TinyProto.Light.Send
import TinyProto.Light.Read
import TinyProto.Link.HdlcLayer
import TinyProto.Fd.Acknowledge
import TinyProto.Fd.Agreement
import TinyProto.Fd.Connection
import TinyProto.Fd.Isolation
import TinyProto.Fd.BufferSize
import TinyProto.Fd.Polling
import TinyProto.Fd.KeepAlive
import TinyProto.Fd.Retries
import TinyProto.Fd.BackPressure
import TinyProto.Fd.Addressing
import TinyProto.Fd.Rejects
import TinyProto.Fd.Busy
import TinyProto.Fd.WakeUp
import TinyProto.Fd.Requests
import TinyProto.Fd.Bus
import TinyProto.Rust.Reception
import TinyProto.Fd.Ui
import TinyProto.Fd.Acks
import TinyProto.Hdlc.Fcs
import TinyProto.Hdlc.DefaultCheck
import TinyProto.Hdlc.Reads
import TinyProto.Proto.Pool
import TinyProto.Lib.Confirmation
import TinyProto.Fd.Line
import TinyProto.Fd.Sizes
import TinyProto.Fd.Cable
import TinyProto.Light.RoundTrip
import TinyProto.Fd.Transfer
import TinyProto.Proto.Messages
