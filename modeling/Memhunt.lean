import Memhunt.Lib.Rust
import Memhunt.Lib.Vec
import Memhunt.Lib.Bytes
import Memhunt.Lib.Windows
import Memhunt.Lib.Workers
import Memhunt.Lib.Collect
import Memhunt.Lib.Modes
import Memhunt.Lib.Counter
import Memhunt.Lib.Utf8
import Memhunt.Lib.Utf16
import Memhunt.Lib.Lossy
import Memhunt.Lib.Varint
import Memhunt.Lib.Hex
import Memhunt.Lib.Base64
import Memhunt.Lib.Padding
import Memhunt.Lib.Text
import Memhunt.Lib.SortDedup
import Memhunt.Lib.Lines
import Memhunt.Lib.Json
import Memhunt.Lib.JsonText
import Memhunt.Lib.JsonRead
import Memhunt.Lib.JsonSorted
import Memhunt.Lib.Recurrence
import Memhunt.Lib.Rijndael
import Memhunt.Lib.Sm4
import Memhunt.Report
import Memhunt.Oracle
import Memhunt.OracleSpec
import Memhunt.CipherAdapter
import Memhunt.Engine.Config
import Memhunt.Engine.CipherList
import Memhunt.Engine.Finalize
import Memhunt.Engine.Stream
import Memhunt.Engine.Hunt
import Memhunt.Engine.Scan
import Memhunt.Spec.Stream
import Memhunt.Spec.Block
import Memhunt.Spec.Verdict
import Memhunt.Spec.Scan
import Memhunt.Spec.Tokens
import Memhunt.Spec.Vectors
import Memhunt.Scan.Rejection
import Memhunt.Scan.Composition
import Memhunt.Scan.Planted
import Memhunt.Scan.Completeness
import Memhunt.Scan.Text
import Memhunt.Scan.Oracles
import Memhunt.Scan.Lists
import Memhunt.Scan.Acceptance
import Memhunt.Scan.PaddingLabels
import Memhunt.Scan.CounterMode
import Memhunt.Scan.IvRanking
import Memhunt.Scan.KnownFragment
import Memhunt.Scan.Replay
import Memhunt.Scan.JsonContainers
import Memhunt.Scan.ZeroPadding
import Memhunt.Scan.Varint
import Memhunt.Scan.Parallel
import Memhunt.Scan.Pieces
import Memhunt.Scan.Selections
import Memhunt.Scan.Keystreams
import Memhunt.Scan.IvRecovery
import Memhunt.Scan.IvReplay
import Memhunt.Scan.Protobuf
import Memhunt.Hash.Scan
import Memhunt.Hash.Hits
import Memhunt.Hash.Search
import Memhunt.Hash.Outcome
import Memhunt.Hash.Parallel
import Memhunt.Hash.Pieces
import Memhunt.KeySchedule.Scan
import Memhunt.KeySchedule.Exact
import Memhunt.KeySchedule.Interior
import Memhunt.KeySchedule.Sm4
import Memhunt.KeySchedule.Parallel
import Memhunt.KeySchedule.Pieces
import Memhunt.Cli
import Memhunt.Cli.Output
import Memhunt.Cli.Human
import Memhunt.Cli.Command
import Memhunt.Mcp.Tools
import Memhunt.Mcp.Decoders
import Memhunt.Mcp.Server
import Memhunt.Mcp.Session
import Memhunt.Hash.Fronts
import Memhunt.Hash.ZeroLength
import Memhunt.Cli.Certified
import Memhunt.Mcp.ScanTools
import Memhunt.Mcp.Answers
import Memhunt.Statistics
