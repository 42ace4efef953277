import FpgaDatabase.Library.Execution
import FpgaDatabase.Library.Quota
import FpgaDatabase.Library.RingBuffer
import FpgaDatabase.Library.BoundedQueue
import FpgaDatabase.Library.Words
import FpgaDatabase.Library.Framing
import FpgaDatabase.Hardware.Fifo
import FpgaDatabase.Hardware.FifoQueue
import FpgaDatabase.Hardware.Stages
import FpgaDatabase.Hardware.Pipeline
import FpgaDatabase.Hardware.Streaming
import FpgaDatabase.Hardware.Program
import FpgaDatabase.Hardware.Refinement
import FpgaDatabase.Hardware.Pacing
import FpgaDatabase.Hardware.UserHw
import FpgaDatabase.Firmware.Driver
import FpgaDatabase.Firmware.Pace
import FpgaDatabase.Firmware.FeedInvariant
import FpgaDatabase.Firmware.FeedStep
import FpgaDatabase.Firmware.FeedRun
import FpgaDatabase.Firmware.CString
import FpgaDatabase.Firmware.Request
import FpgaDatabase.Firmware.Keywords
import FpgaDatabase.Firmware.Clauses
import FpgaDatabase.Firmware.Compile
import FpgaDatabase.Firmware.Emitted
import FpgaDatabase.Firmware.Conditions
import FpgaDatabase.Firmware.WhereText
import FpgaDatabase.Firmware.WhereRoundTrip
import FpgaDatabase.Firmware.NumberLiterals
import FpgaDatabase.Firmware.Tokens
import FpgaDatabase.Firmware.ScanBounds
import FpgaDatabase.Firmware.FeedOutcome
import FpgaDatabase.Firmware.LimitWidth
import FpgaDatabase.Reference.Agreement
import FpgaDatabase.Firmware.Admission
import FpgaDatabase.Firmware.Isolation
import FpgaDatabase.Firmware.Replies
import FpgaDatabase.Firmware.Segmentation
import FpgaDatabase.Firmware.Fat32
import FpgaDatabase.Firmware.SdTermination
import FpgaDatabase.Firmware.SdPlan
import FpgaDatabase.Firmware.SdErrors
import FpgaDatabase.Hardware.Latency
import FpgaDatabase.Hardware.BackPressure
import FpgaDatabase.Hardware.BusWrites
import FpgaDatabase.Firmware.TableNames
import FpgaDatabase.Reference.WrittenTables
import FpgaDatabase.Reference.ClientRoundTrip
import FpgaDatabase.Firmware.Aggregates
import FpgaDatabase.Firmware.SumCheck
import FpgaDatabase.Firmware.UnknownColumns
import FpgaDatabase.Firmware.Malformed
import FpgaDatabase.Firmware.LowerCase
import FpgaDatabase.Firmware.KeywordCase
import FpgaDatabase.Firmware.AliasOrder
import FpgaDatabase.Firmware.AnswerSize
import FpgaDatabase.Firmware.Timeouts
import FpgaDatabase.Firmware.Capture
import FpgaDatabase.Firmware.SdSpi
import FpgaDatabase.Firmware.SdInit
import FpgaDatabase.Reference.AggregateLimit
import FpgaDatabase.Reference.ClientRequest
import FpgaDatabase.Reference.AnswerRows
import FpgaDatabase.Reference.TableFiles
import FpgaDatabase.Reference.SqlMatches
import FpgaDatabase.Reference.QueryText
import FpgaDatabase.Reference.QueryRead
import FpgaDatabase.Reference.EndToEnd
import FpgaDatabase.Reference.Service
import FpgaDatabase.Reference.TestScript
import FpgaDatabase.Reference.Harness
import FpgaDatabase.Reference.MockServer
import FpgaDatabase.Library.LinkedQueue
import FpgaDatabase.Network.EthernetDriver
import FpgaDatabase.Network.Traffic
