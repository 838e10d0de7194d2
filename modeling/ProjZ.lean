import ProjZ.Lib.Ascii
import ProjZ.Lib.CharBuf
import ProjZ.Lib.Decimal
import ProjZ.Lib.CString
import ProjZ.Lib.Base64
import ProjZ.Lib.PercentEncoding
import ProjZ.Lib.Lines
import ProjZ.Lib.JavaText
import ProjZ.Lib.JavaStream
import ProjZ.Lib.JavaProperties
import ProjZ.Lib.Mailbox
import ProjZ.Lib.RingBuffer
import ProjZ.Lib.Uart
import ProjZ.Lib.Runs
import ProjZ.Lib.Monitor
import ProjZ.Lib.Memory
import ProjZ.Firmware.State
import ProjZ.Firmware.ReceiveI2c
import ProjZ.Firmware.SendI2c
import ProjZ.Firmware.Grammar
import ProjZ.Firmware.Requests
import ProjZ.Firmware.ReplyProtocol
import ProjZ.Firmware.Language
import ProjZ.Firmware.PollingTimer
import ProjZ.Firmware.PowerHistory
import ProjZ.Firmware.PowerButton
import ProjZ.Firmware.Mirror
import ProjZ.Firmware.Interference
import ProjZ.Firmware.Validation
import ProjZ.Firmware.SoftwareSerial
import ProjZ.Firmware.SerialModes
import ProjZ.Firmware.ReceiveBuffer
import ProjZ.Firmware.LineCoding
import ProjZ.Firmware.ConsoleRelay
import ProjZ.Firmware.SerialRuns
import ProjZ.Server.ZServer
import ProjZ.Server.ReplyLoop
import ProjZ.Server.Exchange
import ProjZ.Server.Receive
import ProjZ.Server.Reachable
import ProjZ.Server.Reassembly
import ProjZ.Server.Overlong
import ProjZ.Server.CmdStores
import ProjZ.Server.Isolation
import ProjZ.Server.Replies
import ProjZ.Server.SafeState
import ProjZ.Server.Ticking
import ProjZ.Client.ZClientService
import ProjZ.Client.EndToEnd
import ProjZ.Client.MjpegInputStream
import ProjZ.Client.MarkerScan
import ProjZ.Client.MjpegFrames
import ProjZ.Client.MjpegExceptions
import ProjZ.Client.MjpegEnd
import ProjZ.Client.MjpegView
import ProjZ.Streamer.Multipart
import ProjZ.Streamer.InputUvc
import ProjZ.Streamer.JpegUtils
import ProjZ.Streamer.FrameBuffer
import ProjZ.Streamer.SentFrames
import ProjZ.Streamer.Delivery
import ProjZ.Streamer.BufferSafety
import ProjZ.Streamer.Viewing
import ProjZ.Streamer.Decoding
import ProjZ.Streamer.RequestReader
import ProjZ.Streamer.ClientThread
import ProjZ.Streamer.Conversation
import ProjZ.Streamer.Serving
import ProjZ.Streamer.ClientFaults
import ProjZ.Streamer.StreamRequest
