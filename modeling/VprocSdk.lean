import VprocSdk.Lib.Prog
import VprocSdk.Lib.Python
import VprocSdk.Lib.Machine
import VprocSdk.Hbi.Types
import VprocSdk.Tw.Access
import VprocSdk.Tw.Commands
import VprocSdk.Tw.BootMode
import VprocSdk.Tw.Mailbox
import VprocSdk.Tw.MailboxContract
import VprocSdk.Tw.MailboxSafety
import VprocSdk.Tw.MailboxRuns
import VprocSdk.Lib.Slots
import VprocSdk.Hbi.Ssl
import VprocSdk.Hbi.Core
import VprocSdk.Hbi.Tables
import VprocSdk.Hbi.Calls
import VprocSdk.Hbi.Isolation
import VprocSdk.Hbi.HandleCalls
import VprocSdk.Hbi.Concurrent
import VprocSdk.Tw.Registers
import VprocSdk.Lib.Trace
import VprocSdk.Hbi.RegisterStore
import VprocSdk.Image.Delivery
import VprocSdk.Apps.FlashScript
import VprocSdk.Apps.FlashParts
import VprocSdk.Apps.FlashSafety
import VprocSdk.Apps.FlashEnds
import VprocSdk.Tw.Frames
import VprocSdk.Hbi.Lengths
import VprocSdk.Hbi.FailedOpen
import VprocSdk.Tw.SharedBuffer
import VprocSdk.Tw.Endianness
import VprocSdk.Tw.EndiannessRuns
import VprocSdk.Lnx.OpenFiles
import VprocSdk.Lnx.UserCommand
import VprocSdk.Lib.Regions
import VprocSdk.Image.Header
import VprocSdk.Image.Loaders
import VprocSdk.Image.ProcLoad
import VprocSdk.Image.ProcUploads
import VprocSdk.Image.ProcHistory
import VprocSdk.Lib.Packing
import VprocSdk.Converter.Stream
import VprocSdk.Converter.Format
import VprocSdk.Converter.Blocks
import VprocSdk.Converter.Images
import VprocSdk.Converter.Text
import VprocSdk.Converter.Config
import VprocSdk.Converter.History
import VprocSdk.Converter.BlockBytes
import VprocSdk.Converter.PageLayout
import VprocSdk.Converter.Exceptions
import VprocSdk.Converter.Segments
import VprocSdk.Converter.SegmentLengths
import VprocSdk.Image.HeaderCodec
import VprocSdk.Image.WrBin
import VprocSdk.Image.BootImage
import VprocSdk.Image.ScriptLoad
import VprocSdk.Apps.MiTunerServer
import VprocSdk.Apps.HexText
import VprocSdk.Apps.MiTunerCommands
import VprocSdk.Apps.MiTunerStream
import VprocSdk.Apps.MiTunerRegisters
import VprocSdk.Apps.MiTunerUploads
import VprocSdk.Lib.Ring
import VprocSdk.Apps.AlexaBuffer
import VprocSdk.Hbi.Undo
import VprocSdk.Lnx.DeviceList
import VprocSdk.Apps.ConfigRecord
import VprocSdk.Lnx.RegisterDump
import VprocSdk.Lnx.Cr2Lines
import VprocSdk.Apps.Cr2Paths
import VprocSdk.Apps.ProcRegisters
import VprocSdk.Lnx.ProcText
import VprocSdk.Lib.BitField
import VprocSdk.Lnx.Mixer
import VprocSdk.Hbi.SslLocks
import VprocSdk.Apps.AlexaDoa
import VprocSdk.Hbi.BoardDevices
import VprocSdk.Lnx.ModuleLoad
import VprocSdk.Hbi.FailedClose
import VprocSdk.Hbi.UserList
import VprocSdk.Tw.ResultStatus
import VprocSdk.Lib.Stride
import VprocSdk.Image.StaticLoad
import VprocSdk.Lib.Digits
import VprocSdk.Lnx.Digits
import VprocSdk.Lnx.HexParsing
import VprocSdk.Lnx.DumpReads
import VprocSdk.Lib.PyText
import VprocSdk.Converter.BlockLengths
import VprocSdk.Converter.SourceFiles
