import PrimiHub.Lib.Run
import PrimiHub.Aby3.Basic
import PrimiHub.Aby3.Proofs.Homomorphism
import PrimiHub.Aby3.Compare
import PrimiHub.Aby3.Proofs.Compare
import PrimiHub.Lib.Residue
import PrimiHub.Node.Channel
import PrimiHub.Node.Proofs.Cleanup
import PrimiHub.Node.Proofs.Completion
import PrimiHub.Node.Proofs.Delivery
import PrimiHub.Node.Proofs.Reporting
import PrimiHub.Pir.Keyword
import PrimiHub.Pir.Proofs.Fetched
import PrimiHub.Paillier.Basic
import PrimiHub.Paillier.Pack
import PrimiHub.Paillier.Proofs.Decrypt
import PrimiHub.Paillier.Proofs.Encrypt
import PrimiHub.Paillier.Proofs.Pack
import PrimiHub.Algorithm.Arithmetic
import PrimiHub.Algorithm.Proofs.Arithmetic
import PrimiHub.Algorithm.Missing
import PrimiHub.Algorithm.Proofs.Missing
import PrimiHub.Algorithm.Piecewise
import PrimiHub.Algorithm.Proofs.Piecewise
import PrimiHub.Lib.SortedMap
import PrimiHub.Task.Party
import PrimiHub.Task.Proofs.Ring
import PrimiHub.Lib.Strtol
import PrimiHub.Lib.SqlLiteral
import PrimiHub.Task.Dataset
import PrimiHub.Task.Proofs.Resolve
import PrimiHub.Lib.Split
import PrimiHub.Psi.Dataset
import PrimiHub.Psi.Proofs.JoinKey
import PrimiHub.DataStore.Sqlite
import PrimiHub.DataStore.Proofs.Rows
import PrimiHub.DataStore.Proofs.Abnormal
import PrimiHub.Executor.Columns
import PrimiHub.Executor.Cursor
import PrimiHub.Executor.Evaluate
import PrimiHub.Executor.Proofs.Compile
import PrimiHub.Executor.Proofs.Meaning
import PrimiHub.Executor.Proofs.Secure
import PrimiHub.Network.Link
import PrimiHub.Network.Proofs.Shutdown
import PrimiHub.Network.Exchange
import PrimiHub.Network.Proofs.Exchange
import PrimiHub.Network.Receive
import PrimiHub.Network.Proofs.Pops
import PrimiHub.Network.Proofs.Authentic
import PrimiHub.Lib.Bytes
import PrimiHub.Psi.Operator
import PrimiHub.Psi.Proofs.Operation
import PrimiHub.Psi.Proofs.Sync
import PrimiHub.Pir.Labels
import PrimiHub.Pir.Proofs.Labels
import PrimiHub.FL.Alignment
import PrimiHub.FL.Proofs.Alignment
import PrimiHub.Lib.Process
import PrimiHub.FL.Tree
import PrimiHub.FL.Boost
import PrimiHub.FL.Proofs.Construct
import PrimiHub.FL.Proofs.LockStep
import PrimiHub.FL.Histogram
import PrimiHub.FL.Proofs.Histogram
import PrimiHub.Executor.Grammar
import PrimiHub.Executor.Proofs.Accept
import PrimiHub.Executor.Proofs.Cursor
import PrimiHub.Executor.Proofs.Grammar
import PrimiHub.Lib.Slices
import PrimiHub.FL.Loader
import PrimiHub.FL.Proofs.Loader
import PrimiHub.Lib.Network
import PrimiHub.FL.Ckks
import PrimiHub.FL.Proofs.Refresh
import PrimiHub.FL.Proofs.Ckks
import PrimiHub.FL.Predict
import PrimiHub.FL.Proofs.Predict
import PrimiHub.Lib.Traverse
import PrimiHub.Align.Mysql
import PrimiHub.Align.Proofs.Ranges
import PrimiHub.Align.Proofs.Mysql
import PrimiHub.Lib.Sorting
import PrimiHub.Align.Csv
import PrimiHub.Align.Proofs.Csv
import PrimiHub.Align.Proofs.LinesUp
import PrimiHub.Align.Proofs.KeyColumns
import PrimiHub.Pir.Cache
import PrimiHub.Pir.Proofs.Cache
import PrimiHub.Lib.Descriptive
import PrimiHub.FL.Horizontal
import PrimiHub.FL.Stats
import PrimiHub.FL.Proofs.Stats
import PrimiHub.Lib.Tally
import PrimiHub.FL.Encoder
import PrimiHub.FL.Proofs.Categories
import PrimiHub.FL.Proofs.Grouping
import PrimiHub.FL.Proofs.Encoder
import PrimiHub.FL.Proofs.Infrequent
import PrimiHub.FL.Logistic
import PrimiHub.FL.Proofs.OutputDim
import PrimiHub.FL.Proofs.GlobalRound
import PrimiHub.FL.TargetEncoder
import PrimiHub.FL.Proofs.CrossFit
import PrimiHub.FL.Proofs.HeldOut
import PrimiHub.FL.Pipeline
import PrimiHub.FL.Proofs.Pipeline
import PrimiHub.Lib.Binary64
import PrimiHub.Executor.Statistics
import PrimiHub.Executor.Proofs.Statistics
import PrimiHub.Lib.Grid
import PrimiHub.Lib.Overwrite
import PrimiHub.Algorithm.Replace
import PrimiHub.Algorithm.Proofs.Scan
import PrimiHub.Algorithm.Proofs.Replace
import PrimiHub.Task.Dispatch
import PrimiHub.Task.Proofs.Dispatch
import PrimiHub.Lib.InTurn
import PrimiHub.Network.MessageInterface
import PrimiHub.Network.Proofs.Fifo
import PrimiHub.Lib.Json
import PrimiHub.DataStore.AccessInfo
import PrimiHub.DataStore.Proofs.HandOn
import PrimiHub.Executor.Proofs.Leftover
import PrimiHub.Executor.Proofs.RunMode
import PrimiHub.Executor.Proofs.Feed
import PrimiHub.Algorithm.LoadDataset
import PrimiHub.Algorithm.Proofs.LoadDataset
import PrimiHub.Lib.BitSearch
import PrimiHub.Aby3.Division
import PrimiHub.Aby3.Proofs.Division
import PrimiHub.Executor.SumOrAvg
import PrimiHub.Executor.Proofs.SumOrAvg
import PrimiHub.Algorithm.LogisticRegression
import PrimiHub.Algorithm.Proofs.LogisticRegression
import PrimiHub.Algorithm.Regression
import PrimiHub.Algorithm.Proofs.Regression
import PrimiHub.FL.MergeGh
import PrimiHub.FL.Proofs.MergeGh
import PrimiHub.Align.Failure
import PrimiHub.Align.Proofs.Failure
import PrimiHub.Psi.Extract
import PrimiHub.Psi.Proofs.Extract
import PrimiHub.Psi.Frames
import PrimiHub.Psi.Proofs.Frames
import PrimiHub.Psi.Task
import PrimiHub.Psi.Proofs.Task
import PrimiHub.Network.Command
import PrimiHub.Network.Proofs.Command
import PrimiHub.Node.DuplicateTask
import PrimiHub.Node.Proofs.DuplicateTask
import PrimiHub.DataStore.Fetch
import PrimiHub.DataStore.Proofs.Fetch
import PrimiHub.DataStore.CsvHeader
import PrimiHub.DataStore.Proofs.CsvHeader
import PrimiHub.FL.RocMerge
import PrimiHub.FL.Proofs.RocMerge
import PrimiHub.FL.RowStats
import PrimiHub.FL.Proofs.RowStats
import PrimiHub.FL.PowerMax
import PrimiHub.FL.Proofs.PowerMax
import PrimiHub.Lib.Meet
import PrimiHub.FL.Scores
import PrimiHub.FL.Proofs.Scores
import PrimiHub.FL.Proofs.KeyErrors
import PrimiHub.FL.Proofs.RowLabels
import PrimiHub.Network.Chunk
import PrimiHub.Network.Proofs.Chunk
import PrimiHub.FL.Serde
import PrimiHub.FL.Proofs.Serde
import PrimiHub.Lib.EraseScan
import PrimiHub.Algorithm.Sort
import PrimiHub.Algorithm.Proofs.Sort
import PrimiHub.Algorithm.Proofs.Unique
import PrimiHub.FL.Linear
import PrimiHub.FL.Proofs.Linear
import PrimiHub.FL.LinearVertical
import PrimiHub.FL.Proofs.LinearVertical
import PrimiHub.Node.Download
import PrimiHub.Node.Proofs.Download
import PrimiHub.Executor.Replicated
import PrimiHub.Executor.Proofs.Replicated
import PrimiHub.FL.JointTrees
import PrimiHub.FL.Proofs.JointTrees
