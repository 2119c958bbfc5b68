/-
Downloading files from a node: `DataServiceImpl::DownloadData`
(node/ds.cc) with its two threads, `GrpcChannel::DownloadData`
(util/network/grpc_link_context.cc) at the other end of the stream, and
the client that asks for one file after the other and saves them
(cli/task_config_parser.cc, cli/cli.cc).

# Two threads and a queue

One thread reads the files and pushes their blocks; after each file it
pushes a block that says so. The other pops the blocks and writes them
into the stream. The first tells the second of an exception through
`error` and by shutting the queue down: the text, the flag, the store to
`stop_` and its notification are steps of their own, and so are the second
one's pop and its two loads of `error`.

`wait_and_pop` tests its condition and goes to sleep in two steps, with the
mutex held between them. A push needs the mutex, so it finds the other
thread before the test or asleep; it is one step with its notification, for
nothing happens to a sleeper in between. `shutdown` takes no mutex: its
notification may fall between the test and the sleep, and is lost then. A
sleeper that wakes up by itself only tests again, which is left out.

The lambda of the reading thread is to return a `retcode` and does not
after an exception; from there on C++ defines nothing, and `read_fut` is
given no value here. The steps of the threads are taken to be seen in one
order by both.

# The stream

gRPC delivers what was written, in order. A call whose status is OK has
delivered everything; any other may have delivered only the front of it,
also while the server still writes.

# The files

Files do not change while they are read, and no path is a directory. The
client makes the directory of a file through the shell and does not look
at what its writes return: where a directory or a file can be written is
the disk's `canWrite`, and a disk that fills up is left out.
-/
import Mathlib.Logic.Function.Basic
import PrimiHub.Lib.Slices
import PrimiHub.Network.Link

namespace PrimiHub.Node.Download

open Lib
open Network (ThreadSafeQueue)

-- ================================================================== files

/-- What there is at a path. -/
inductive FileAt
  | missing
  /-- it exists and cannot be opened -/
  | unreadable
  | readable (content : Bytes)
  deriving DecidableEq, Repr

/-- The files of the node, and `StoragePath()`. -/
structure Store where
  storagePath : String
  file : String → FileAt

/-- `CompletePath`. -/
def completePath (storagePath filePath : String) : String :=
  if filePath = "" then ""
  else if filePath.toList.head? = some '/' then filePath
  else if storagePath = "" then filePath
  else storagePath ++ "/" ++ filePath

/-- `FileExists`. -/
def Store.fileExists (store : Store) (filePath : String) : Bool :=
  filePath ≠ "" ∧ store.file filePath ≠ .missing

/-- `DataBlock`. -/
structure DataBlock where
  data : Bytes
  isLastBlock : Bool
  fileName : String
  deriving DecidableEq, Repr

/-- `DataBlock data_block;`. -/
def DataBlock.fresh : DataBlock := ⟨[], false, ""⟩

/-- The blocks of a file with this content: full ones, what is left, and
the end flag. -/
def fileBlocks (blockSize : Nat) (fileName : String) (content : Bytes) :
    List DataBlock :=
  let blockNum := content.length / blockSize
  let lastBlockSize := content.length % blockSize
  (slices blockSize content blockNum).map (⟨·, false, fileName⟩)
  ++ (if lastBlockSize ≠ 0 then
      [⟨(content.drop (blockNum * blockSize)).take lastBlockSize, false,
        fileName⟩]
    else [])
  ++ [{ DataBlock.fresh with isLastBlock := true }]

/-- A turn of the loop of `DownloadDataImpl`. -/
def readFile (store : Store) (blockSize : Nat) (fileName : String) :
    Except String (List DataBlock) :=
  let filePath := completePath store.storagePath fileName
  if !store.fileExists filePath then
    .error ("file: " ++ filePath ++ " is not exist")
  else
    match store.file filePath with
    | .readable content => .ok (fileBlocks blockSize fileName content)
    | _ => .error ("open file " ++ filePath ++ " failed")

/-- `DownloadDataImpl`: the blocks it pushes, in this order, and the text
of the exception it ends with, if it does. -/
def downloadDataImpl (store : Store) (blockSize : Nat) :
    List String → List DataBlock × Option String
  | [] => ([], none)
  | fileName :: fileList =>
      match readFile store blockSize fileName with
      | .error what => ([], some what)
      | .ok blocks =>
          let (rest, thrown) := downloadDataImpl store blockSize fileList
          (blocks ++ rest, thrown)

-- ================================================================= server

/-- `rpc::DownloadRespone`; nobody sets `is_end`. -/
structure DownloadRespone where
  fileName : String
  code : Retcode
  info : String
  data : Bytes
  deriving DecidableEq, Repr

/-- The response with a block. -/
def DownloadRespone.ofBlock (block : DataBlock) : DownloadRespone :=
  ⟨block.fileName, .success, "SUCCESS", block.data⟩

/-- The response with an error. -/
def DownloadRespone.ofError (info : String) : DownloadRespone :=
  ⟨"", .fail, info, []⟩

/-- Where the reading thread stands. -/
inductive Reader
  /-- the blocks still to push, and what is thrown after them -/
  | reading (blocks : List DataBlock) (thrown : Option String)
  /-- `error_msg` is set -/
  | storing
  /-- `error` is set -/
  | stopping
  /-- `stop_` is set -/
  | notifying
  /-- past the end of the lambda, without a value -/
  | fellOff
  | ended
  deriving DecidableEq, Repr

/-- Where the thread of the call stands. -/
inductive Writer
  /-- before the test of `wait_and_pop` -/
  | popping
  /-- after a test that failed, with the mutex -/
  | tested
  | asleep
  /-- before the first load of `error` -/
  | popped (block : DataBlock)
  /-- before the second load -/
  | checking
  /-- before `read_fut.get()` returns -/
  | joining
  | returned
  deriving DecidableEq, Repr

/-- A call: what its threads share, where they stand, and the responses
written so far. -/
structure Server where
  queue : ThreadSafeQueue DataBlock
  error : Bool
  errorMsg : String
  reader : Reader
  writer : Writer
  written : List DownloadRespone

/-- `DownloadData` up to the start of its reading thread. -/
def start (store : Store) (blockSize : Nat) (fileList : List String) :
    Server :=
  if fileList = [] then
    { queue := .empty, error := false, errorMsg := ""
      reader := .ended, writer := .returned
      written := [.ofError
        "download list is empty, no data file for download"] }
  else
    let (blocks, thrown) := downloadDataImpl store blockSize fileList
    { queue := .empty, error := false, errorMsg := ""
      reader := .reading blocks thrown, writer := .popping, written := [] }

/-- `m_cv.notify_one()`, to the one thread that waits. -/
def Writer.notified : Writer → Writer
  | .asleep => .popping
  | writer => writer

/-- The next step of the reading thread. -/
def Server.readerStep (s : Server) : Option Server :=
  match s.reader with
  | .reading (block :: blocks) thrown =>
      -- the mutex is the other thread's
      if s.writer = .tested then none
      else
        some { s with
          queue := s.queue.push block
          reader := .reading blocks thrown
          writer := s.writer.notified }
  | .reading [] none => some { s with reader := .ended }
  | .reading [] (some what) =>
      some { s with errorMsg := what, reader := .storing }
  | .storing => some { s with error := true, reader := .stopping }
  | .stopping =>
      some { s with queue := s.queue.shutdown, reader := .notifying }
  | .notifying =>
      some { s with reader := .fellOff, writer := s.writer.notified }
  | .fellOff | .ended => none

/-- The next step of the thread that writes. -/
def Server.writerStep (s : Server) : Option Server :=
  match s.writer with
  | .popping =>
      match s.queue.waitAndPop .fresh with
      | none => some { s with writer := .tested }
      | some (queue, block) =>
          some { s with
            queue := queue
            writer := if block.isLastBlock then .joining else .popped block }
  | .tested => some { s with writer := .asleep }
  | .asleep => none
  | .popped block =>
      let resp := if s.error then DownloadRespone.ofError s.errorMsg
        else .ofBlock block
      some { s with written := s.written ++ [resp], writer := .checking }
  | .checking =>
      some { s with writer := if s.error then .joining else .popping }
  | .joining =>
      if s.reader = .ended then some { s with writer := .returned } else none
  | .returned => none

/-- The threads of a call. -/
inductive Thread
  | reader
  | writer
  deriving DecidableEq, Repr

/-- A step of one of the threads. -/
def step (s : Server) : Thread → Option Server
  | .reader => s.readerStep
  | .writer => s.writerStep

-- ================================================================= client

/-- The loop around `client_reader->Read(&response)`: the data, and
whether it broke off at an error. -/
def readResponses : List DownloadRespone → List Bytes × Bool
  | [] => ([], false)
  | response :: rest =>
      if response.code ≠ .success then ([], true)
      else
        let (data, hasError) := readResponses rest
        (response.data :: data, hasError)

/-- `GrpcChannel::DownloadData`, on what the stream delivers. -/
def grpcDownloadData (stream : List DownloadRespone) (statusOk : Bool) :
    Retcode × List Bytes :=
  let (data, hasError) := readResponses stream
  (if !statusOk then .fail else if hasError then .fail else .success, data)

/-- A request for these files may come back with this. -/
def Answered (store : Store) (blockSize : Nat) (fileList : List String)
    (ret : Retcode) (data : List Bytes) : Prop :=
  ∃ (schedule : List Thread) (s : Server) (stream : List DownloadRespone)
    (statusOk : Bool),
    run step (start store blockSize fileList) schedule = some s
    ∧ stream <+: s.written
    ∧ (statusOk = true → s.writer = .returned ∧ stream = s.written)
    ∧ grpcDownloadData stream statusOk = (ret, data)

/-- `DownloadFileInfo`. -/
structure DownloadFileInfo where
  remoteFilePath : String
  saveAs : String
  deriving DecidableEq, Repr

/-- The client's files, and where it can write one: the directory is
there or can be made, and the file opens. -/
structure Disk where
  canWrite : String → Bool
  file : String → Option Bytes

/-- The file has this content now. -/
def Disk.write (disk : Disk) (path : String) (content : Bytes) : Disk :=
  { disk with file := Function.update disk.file path (some content) }

/-- `SDKClient::SaveData`. -/
def saveData (disk : Disk) (fileName : String) (recvData : List Bytes) :
    Retcode × Disk :=
  if fileName = "" then (.fail, disk)
  else if disk.canWrite fileName then
    (.success, disk.write fileName recvData.flatten)
  else (.fail, disk)

/-- `DownloadData` of the client: what it may return, and the files it
then has. -/
inductive DownloadData (store : Store) (blockSize : Nat) :
    List DownloadFileInfo → Disk → Retcode → Disk → Prop
  | done {disk : Disk} : DownloadData store blockSize [] disk .success disk
  | downloadFailed {cfg : DownloadFileInfo} {rest : List DownloadFileInfo}
      {disk : Disk} {data : List Bytes}
      (answer : Answered store blockSize [cfg.remoteFilePath] .fail data) :
      DownloadData store blockSize (cfg :: rest) disk .fail disk
  | saveFailed {cfg : DownloadFileInfo} {rest : List DownloadFileInfo}
      {disk disk' : Disk} {data : List Bytes}
      (answer : Answered store blockSize [cfg.remoteFilePath] .success data)
      (save : saveData disk cfg.saveAs data = (.fail, disk')) :
      DownloadData store blockSize (cfg :: rest) disk .fail disk'
  | saved {cfg : DownloadFileInfo} {rest : List DownloadFileInfo}
      {disk disk' disk'' : Disk} {data : List Bytes} {ret : Retcode}
      (answer : Answered store blockSize [cfg.remoteFilePath] .success data)
      (save : saveData disk cfg.saveAs data = (.success, disk'))
      (next : DownloadData store blockSize rest disk' ret disk'') :
      DownloadData store blockSize (cfg :: rest) disk ret disk''

-- ========================================================== what it is for

/-- A request for the file finds this content. -/
def Store.Has (store : Store) (fileName : String) (content : Bytes) : Prop :=
  completePath store.storagePath fileName ≠ ""
  ∧ store.file (completePath store.storagePath fileName) = .readable content

/-- The client's disk with these files saved, one after the other. -/
inductive Saved (store : Store) :
    List DownloadFileInfo → Disk → Disk → Prop
  | nil {disk : Disk} : Saved store [] disk disk
  | cons {cfg : DownloadFileInfo} {rest : List DownloadFileInfo}
      {disk disk' : Disk} {content : Bytes}
      (has : store.Has cfg.remoteFilePath content)
      (next : Saved store rest (disk.write cfg.saveAs content) disk') :
      Saved store (cfg :: rest) disk disk'

end PrimiHub.Node.Download
