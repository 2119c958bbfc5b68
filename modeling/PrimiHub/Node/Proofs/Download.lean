/-
What a download delivers, over every order of the server's two threads.

The blocks the reading thread pushes are those the other has taken, those
in the queue and those still to come, in this order (`Inv`); what has been
written are the taken ones, up to the first end flag, and after an
exception perhaps an error (`Sent`). A wake-up costs the thread that is
woken two steps more, which are counted with the thread that gives it, so
that the sum of the steps still to take bounds every order (`measure`).

The end flag comes after the first file, so later files are never
delivered. They matter all the same: if one of them cannot be read the
reading thread ends without a value, and the call does not return. A call
that returns has therefore written the first file (`returned_of_run`), and
so a success is the first file (`download_whole_iff`) and the client's files
are the node's (`files_saved`). What else can happen to a call is that its
writing thread sleeps for ever (`wakeup_lost`).
-/
import PrimiHub.Node.Download

namespace PrimiHub.Node.Download

open Lib
open Network (ThreadSafeQueue)

variable {store : Store} {blockSize : Nat} {fileName : String}
  {content : Bytes} {fileList : List String}

-- ================================================================== blocks

/-- No end flag is among them. -/
def NoFlag (blocks : List DataBlock) : Prop :=
  ∀ block ∈ blocks, block.isLastBlock = false

/-- Blocks of two lists without a flag. -/
theorem NoFlag.append {bs cs : List DataBlock} (hb : NoFlag bs)
    (hc : NoFlag cs) : NoFlag (bs ++ cs) := by
  intro block hmem
  obtain h | h := List.mem_append.mp hmem
  · exact hb block h
  · exact hc block h

theorem NoFlag.of_append {bs cs : List DataBlock} (h : NoFlag (bs ++ cs)) :
    NoFlag bs :=
  fun block hmem => h block (List.mem_append_left _ hmem)

/-- What stands before the first flag is known. -/
theorem eq_of_flag {bs cs rest rest' : List DataBlock}
    {flag flag' : DataBlock} (hb : NoFlag bs) (hc : NoFlag cs)
    (hflag : flag.isLastBlock = true) (hflag' : flag'.isLastBlock = true)
    (h : bs ++ flag :: rest = cs ++ flag' :: rest') : bs = cs := by
  induction bs generalizing cs with
  | nil =>
      cases cs with
      | nil => rfl
      | cons c cs =>
          obtain ⟨rfl, -⟩ := List.cons.inj h
          exact absurd (hc flag List.mem_cons_self) (by simp [hflag])
  | cons b bs ih =>
      cases cs with
      | nil =>
          obtain ⟨rfl, -⟩ := List.cons.inj h
          exact absurd (hb b List.mem_cons_self) (by simp [hflag'])
      | cons c cs =>
          obtain ⟨rfl, hrest⟩ := List.cons.inj h
          rw [ih (fun d hd => hb d (List.mem_cons_of_mem _ hd))
            (fun d hd => hc d (List.mem_cons_of_mem _ hd)) hrest]

/-- Blocks without a flag lie before the first one. -/
theorem prefix_of_flag {bs cs rest rest' : List DataBlock}
    {flag : DataBlock} (hb : NoFlag bs) (hflag : flag.isLastBlock = true)
    (h : bs ++ rest = cs ++ flag :: rest') : bs <+: cs := by
  obtain ⟨mid, rfl, -⟩ | ⟨mid, hcs, hrest⟩ := List.append_eq_append_iff.mp h
  · exact ⟨mid, rfl⟩
  · cases mid with
    | nil =>
        rw [List.append_nil] at hcs
        exact ⟨[], by rw [List.append_nil, hcs]⟩
    | cons m mid =>
        obtain ⟨rfl, -⟩ := List.cons.inj hrest
        have hmem : flag ∈ bs := hcs ▸ by simp
        exact absurd (hb flag hmem) (by simp [hflag])

/-- The blocks of a file before the end flag. -/
def dataBlocks (blockSize : Nat) (fileName : String) (content : Bytes) :
    List DataBlock :=
  (slices blockSize content (content.length / blockSize)).map
      (⟨·, false, fileName⟩)
  ++ if content.length % blockSize ≠ 0 then
      [⟨(content.drop (content.length / blockSize * blockSize)).take
        (content.length % blockSize), false, fileName⟩]
    else []

/-- The block that ends a file comes behind its data. -/
theorem fileBlocks_eq :
    fileBlocks blockSize fileName content
      = dataBlocks blockSize fileName content
        ++ [{ DataBlock.fresh with isLastBlock := true }] := rfl

/-- No block with data ends a file. -/
theorem dataBlocks_noFlag : NoFlag (dataBlocks blockSize fileName content) := by
  unfold dataBlocks
  refine NoFlag.append ?_ ?_
  · intro block hmem
    obtain ⟨slice, -, rfl⟩ := List.mem_map.mp hmem
    rfl
  · intro block hmem
    split at hmem
    · rw [List.mem_singleton] at hmem
      rw [hmem]
    · cases hmem

/-- The blocks put together are the file. -/
theorem dataBlocks_flatten :
    ((dataBlocks blockSize fileName content).map DataBlock.data).flatten
      = content := by
  have hdiv := Nat.div_mul_le_self content.length blockSize
  have hrest : content.length % blockSize
      = content.length - content.length / blockSize * blockSize := by
    rw [Nat.mod_eq_sub, Nat.mul_comm]
  have hfull : ((slices blockSize content (content.length / blockSize)).map
      fun slice => (⟨slice, false, fileName⟩ : DataBlock).data).flatten
      = content.take (content.length / blockSize * blockSize) := by
    rw [List.map_id'', slices_flatten_take]
    exact fun _ => rfl
  unfold dataBlocks
  rw [List.map_append, List.flatten_append, List.map_map]
  refine (congrArg (· ++ _) hfull).trans ?_
  split
  · rw [List.map_singleton, List.flatten_singleton, hrest,
      ← List.length_drop, List.take_length, List.take_append_drop]
  · rename_i hzero
    rw [not_not] at hzero
    rw [List.map_nil, List.flatten_nil, List.append_nil,
      List.take_of_length_le (by omega)]

-- =================================================================== files

/-- A file is read, or its turn throws. -/
theorem readFile_cases (store : Store) (blockSize : Nat)
    (fileName : String) :
    (∃ content, store.Has fileName content
        ∧ readFile store blockSize fileName
          = .ok (fileBlocks blockSize fileName content))
      ∨ (¬∃ content, store.Has fileName content)
        ∧ ∃ what, readFile store blockSize fileName = .error what := by
  unfold readFile Store.Has
  generalize completePath store.storagePath fileName = path
  by_cases hexists : store.fileExists path = true
  · have hpath : path ≠ "" := by
      simp only [Store.fileExists, decide_eq_true_eq] at hexists
      exact hexists.1
    cases hfile : store.file path with
    | missing => simp [Store.fileExists, hfile] at hexists
    | unreadable =>
        refine .inr ⟨fun h => ?_, "open file " ++ path ++ " failed", ?_⟩
        · obtain ⟨content, -, hread⟩ := h
          cases hread
        · simp only [hexists, hfile, Bool.not_true, Bool.false_eq_true,
            if_false]
    | readable content =>
        refine .inl ⟨content, ⟨hpath, rfl⟩, ?_⟩
        simp only [hexists, hfile, Bool.not_true, Bool.false_eq_true,
          if_false]
  · refine .inr ⟨fun h => hexists ?_,
      "file: " ++ path ++ " is not exist", ?_⟩
    · obtain ⟨content, hpath, hread⟩ := h
      simp [Store.fileExists, hpath, hread]
    · simp only [hexists, Bool.not_false, if_true]

/-- A path has one content. -/
theorem Store.Has.unique {content' : Bytes} (h : store.Has fileName content)
    (h' : store.Has fileName content') : content = content' :=
  FileAt.readable.inj (h.2.symm.trans h'.2)

/-- The first file is there: its blocks come first. -/
theorem downloadDataImpl_cons (h : store.Has fileName content) :
    downloadDataImpl store blockSize (fileName :: fileList)
      = (fileBlocks blockSize fileName content
          ++ (downloadDataImpl store blockSize fileList).1,
        (downloadDataImpl store blockSize fileList).2) := by
  obtain ⟨content', hhas, hread⟩ | ⟨hnone, -⟩ :=
    readFile_cases store blockSize fileName
  · rw [downloadDataImpl, hread, h.unique hhas]
  · exact absurd ⟨content, h⟩ hnone

/-- The first file is not there: nothing is pushed. -/
theorem downloadDataImpl_cons_of_not (blockSize : Nat)
    (fileList : List String) (h : ¬∃ content, store.Has fileName content) :
    ∃ what, downloadDataImpl store blockSize (fileName :: fileList)
      = ([], some what) := by
  obtain ⟨content, hhas, -⟩ | ⟨-, what, hread⟩ :=
    readFile_cases store blockSize fileName
  · exact absurd ⟨content, hhas⟩ h
  · exact ⟨what, by rw [downloadDataImpl, hread]⟩

/-- Nothing is thrown exactly if every file is there. -/
theorem downloadDataImpl_thrown (store : Store) (blockSize : Nat)
    (fileList : List String) :
    (downloadDataImpl store blockSize fileList).2 = none
      ↔ ∀ fileName ∈ fileList, ∃ content, store.Has fileName content := by
  induction fileList with
  | nil => simp [downloadDataImpl]
  | cons fileName fileList ih =>
      rw [List.forall_mem_cons]
      by_cases hhas : ∃ content, store.Has fileName content
      · obtain ⟨content, hcontent⟩ := hhas
        rw [downloadDataImpl_cons hcontent]
        exact ih.trans (iff_and_self.mpr fun _ => ⟨content, hcontent⟩)
      · obtain ⟨what, heq⟩ :=
          downloadDataImpl_cons_of_not blockSize fileList hhas
        rw [heq]
        refine ⟨fun hnone => ?_, fun hall => absurd hall.1 hhas⟩
        cases hnone

-- =============================================================== invariant

/-- The blocks the reading thread has still to push. -/
def Reader.left : Reader → List DataBlock
  | .reading blocks _ => blocks
  | _ => []

/-- What the reading thread has told so far of the exception it ends with,
if any: where it stands, `error`, `stop_` and `error_msg`. -/
inductive Told (thrown : Option String) :
    Reader → (error stop : Bool) → (errorMsg : String) → Prop
  | reading {blocks : List DataBlock} {errorMsg : String} :
      Told thrown (.reading blocks thrown) false false errorMsg
  | storing {errorMsg : String} (h : thrown = some errorMsg) :
      Told thrown .storing false false errorMsg
  | stopping {errorMsg : String} (h : thrown = some errorMsg) :
      Told thrown .stopping true false errorMsg
  | notifying {errorMsg : String} (h : thrown = some errorMsg) :
      Told thrown .notifying true true errorMsg
  | failed {errorMsg : String} (h : thrown = some errorMsg) :
      Told thrown .fellOff true true errorMsg
  | finished {errorMsg : String} (h : thrown = none) :
      Told thrown .ended false false errorMsg

/-- What has been written in the end, of the blocks taken. -/
inductive Sent (error : Bool) (errorMsg : String) :
    List DataBlock → List DownloadRespone → Prop
  /-- up to the end flag -/
  | whole {taken : List DataBlock} {flag : DataBlock} (h : NoFlag taken)
      (hflag : flag.isLastBlock = true) :
      Sent error errorMsg (taken ++ [flag])
        (taken.map DownloadRespone.ofBlock)
  /-- an exception fell between the two loads of `error` -/
  | cut {taken : List DataBlock} (herror : error = true) (h : NoFlag taken)
      (hne : taken ≠ []) :
      Sent error errorMsg taken (taken.map DownloadRespone.ofBlock)
  /-- an exception fell before a first load -/
  | failed {sent taken : List DataBlock} (herror : error = true)
      (hle : sent <+: taken) (h : NoFlag sent) :
      Sent error errorMsg taken
        (sent.map DownloadRespone.ofBlock ++ [.ofError errorMsg])

/-- Where the writing thread stands, the blocks it has taken and what it
has written of them. -/
inductive Wrote (error : Bool) (errorMsg : String) :
    Writer → List DataBlock → List DownloadRespone → Prop
  | popping {taken : List DataBlock} (h : NoFlag taken) :
      Wrote error errorMsg .popping taken
        (taken.map DownloadRespone.ofBlock)
  | tested {taken : List DataBlock} (h : NoFlag taken) :
      Wrote error errorMsg .tested taken
        (taken.map DownloadRespone.ofBlock)
  | asleep {taken : List DataBlock} (h : NoFlag taken) :
      Wrote error errorMsg .asleep taken
        (taken.map DownloadRespone.ofBlock)
  | popped {taken : List DataBlock} {block : DataBlock}
      (h : NoFlag (taken ++ [block])) :
      Wrote error errorMsg (.popped block) (taken ++ [block])
        (taken.map DownloadRespone.ofBlock)
  /-- the queue was shut down -/
  | woken {taken : List DataBlock} (herror : error = true)
      (h : NoFlag taken) :
      Wrote error errorMsg (.popped .fresh) taken
        (taken.map DownloadRespone.ofBlock)
  | checking {taken : List DataBlock} (h : NoFlag taken) (hne : taken ≠ []) :
      Wrote error errorMsg .checking taken
        (taken.map DownloadRespone.ofBlock)
  | failing {sent taken : List DataBlock} (herror : error = true)
      (hle : sent <+: taken) (h : NoFlag sent) :
      Wrote error errorMsg .checking taken
        (sent.map DownloadRespone.ofBlock ++ [.ofError errorMsg])
  | joining {taken : List DataBlock} {written : List DownloadRespone}
      (h : Sent error errorMsg taken written) :
      Wrote error errorMsg .joining taken written
  | returned {taken : List DataBlock} {written : List DownloadRespone}
      (h : Sent error errorMsg taken written) :
      Wrote error errorMsg .returned taken written

/-- Of the blocks to be pushed some are taken, some are in the queue and
some are still to come. Nothing is in the queue while the writing thread
goes to sleep or sleeps, and it returns after the other has ended. -/
structure Inv (blocks : List DataBlock) (thrown : Option String)
    (s : Server) : Prop where
  told : Told thrown s.reader s.error s.queue.stop s.errorMsg
  wrote : ∃ taken, blocks = taken ++ (s.queue.items ++ s.reader.left)
    ∧ Wrote s.error s.errorMsg s.writer taken s.written
  drained : s.writer = .tested ∨ s.writer = .asleep → s.queue.items = []
  joined : s.writer = .returned → s.reader = .ended

variable {blocks : List DataBlock} {thrown : Option String} {s s' : Server}

/-- What was written before there was an error. -/
theorem Sent.of_false {error : Bool} {errorMsg errorMsg' : String}
    {taken : List DataBlock} {written : List DownloadRespone}
    (h : Sent false errorMsg taken written) :
    Sent error errorMsg' taken written := by
  cases h with
  | whole h hflag => exact .whole h hflag
  | cut herror => cases herror
  | failed herror => cases herror

/-- Without an error, the flags that are set later make no difference to
what has been written. -/
theorem Wrote.of_false {error : Bool} {errorMsg errorMsg' : String}
    {writer : Writer} {taken : List DataBlock}
    {written : List DownloadRespone}
    (h : Wrote false errorMsg writer taken written) :
    Wrote error errorMsg' writer taken written := by
  cases h with
  | popping h => exact .popping h
  | tested h => exact .tested h
  | asleep h => exact .asleep h
  | popped h => exact .popped h
  | woken herror => cases herror
  | checking h hne => exact .checking h hne
  | failing herror => cases herror
  | joining h => exact .joining h.of_false
  | returned h => exact .returned h.of_false

/-- A thread that is woken up is back before its test. -/
theorem Wrote.notified {error : Bool} {errorMsg : String} {writer : Writer}
    {taken : List DataBlock} {written : List DownloadRespone}
    (h : Wrote error errorMsg writer taken written) :
    Wrote error errorMsg writer.notified taken written := by
  cases h with
  | asleep h => exact .popping h
  | popping h => exact .popping h
  | tested h => exact .tested h
  | popped h => exact .popped h
  | woken herror h => exact .woken herror h
  | checking h hne => exact .checking h hne
  | failing herror hle h => exact .failing herror hle h
  | joining h => exact .joining h
  | returned h => exact .returned h

/-- A notified writer does not sleep, and one that has tested was not woken. -/
theorem tested_of_notified {writer : Writer}
    (h : writer.notified = .tested ∨ writer.notified = .asleep) :
    writer = .tested := by
  cases writer with
  | tested => rfl
  | _ => exact h.elim nofun nofun

/-- A notification ends no writer. -/
theorem returned_of_notified {writer : Writer}
    (h : writer.notified = .returned) : writer = .returned := by
  cases writer with
  | returned => rfl
  | _ => cases h

/-- Every step of the reader keeps the invariant. -/
theorem inv_readerStep (h : Inv blocks thrown s)
    (hstep : s.readerStep = some s') : Inv blocks thrown s' := by
  obtain ⟨⟨items, stop⟩, error, errorMsg, reader, writer, written⟩ := s
  obtain ⟨told, ⟨taken, hblocks, hwrote⟩, hdrained, hjoined⟩ := h
  cases told with
  | @reading left =>
      cases left with
      | cons block left =>
          -- with the mutex free nobody is about to sleep
          by_cases htested : writer = .tested
          · cases (if_pos htested).symm.trans hstep
          · obtain rfl := Option.some.inj ((if_neg htested).symm.trans hstep)
            refine ⟨.reading, ⟨taken, hblocks.trans ?_, hwrote.notified⟩,
              fun h => absurd (tested_of_notified h) htested,
              fun h => nomatch hjoined (returned_of_notified h)⟩
            show taken ++ (items ++ block :: left)
              = taken ++ ((items ++ [block]) ++ left)
            rw [List.append_assoc, List.singleton_append]
      | nil =>
          cases thrown with
          | none =>
              obtain rfl := Option.some.inj hstep
              exact ⟨.finished rfl, ⟨taken, hblocks, hwrote⟩, hdrained,
                fun _ => rfl⟩
          | some what =>
              obtain rfl := Option.some.inj hstep
              exact ⟨.storing rfl, ⟨taken, hblocks, hwrote.of_false⟩,
                hdrained, fun h => nomatch hjoined h⟩
  | storing hthrown =>
      obtain rfl := Option.some.inj hstep
      exact ⟨.stopping hthrown, ⟨taken, hblocks, hwrote.of_false⟩, hdrained,
        fun h => nomatch hjoined h⟩
  | stopping hthrown =>
      obtain rfl := Option.some.inj hstep
      exact ⟨.notifying hthrown, ⟨taken, hblocks, hwrote⟩, hdrained,
        fun h => nomatch hjoined h⟩
  | notifying hthrown =>
      obtain rfl := Option.some.inj hstep
      exact ⟨.failed hthrown, ⟨taken, hblocks, hwrote.notified⟩,
        fun h => hdrained (.inl (tested_of_notified h)),
        fun h => nomatch hjoined (returned_of_notified h)⟩
  | failed => cases hstep
  | finished => cases hstep

/-- A queue that is shut down has been told of an exception. -/
theorem Told.error_of_stop {reader : Reader} {error : Bool}
    {errorMsg : String} (h : Told thrown reader error true errorMsg) :
    error = true := by
  cases h with
  | notifying => rfl
  | failed => rfl

/-- What was thrown when `error` is set. -/
theorem Told.thrown_of_error {reader : Reader} {stop : Bool}
    {errorMsg : String} (h : Told thrown reader true stop errorMsg) :
    thrown = some errorMsg := by
  cases h with
  | stopping h => exact h
  | notifying h => exact h
  | failed h => exact h

/-- The writing thread returns from `join`. -/
theorem of_joining (hjoining : s.writer = .joining)
    (hstep : s.writerStep = some s') :
    s' = { s with writer := .returned } ∧ s.reader = .ended := by
  obtain ⟨queue, error, errorMsg, reader, writer, written⟩ := s
  obtain rfl : writer = .joining := hjoining
  by_cases hended : reader = .ended
  · exact ⟨(Option.some.inj ((if_pos hended).symm.trans hstep)).symm, hended⟩
  · cases (if_neg hended).symm.trans hstep

/-- Every step of the writer keeps the invariant. -/
theorem inv_writerStep (h : Inv blocks thrown s)
    (hstep : s.writerStep = some s') : Inv blocks thrown s' := by
  obtain ⟨⟨items, stop⟩, error, errorMsg, reader, writer, written⟩ := s
  obtain ⟨told, ⟨taken, hblocks, hwrote⟩, hdrained, hjoined⟩ := h
  change Wrote error errorMsg writer taken written at hwrote
  cases hwrote with
  | popping hflag =>
      cases stop with
      | true =>
          obtain rfl := Option.some.inj hstep
          exact ⟨told, ⟨taken, hblocks, .woken told.error_of_stop hflag⟩,
            fun h => h.elim nofun nofun, nofun⟩
      | false =>
          cases items with
          | nil =>
              obtain rfl := Option.some.inj hstep
              exact ⟨told, ⟨taken, hblocks, .tested hflag⟩, fun _ => rfl,
                nofun⟩
          | cons block items =>
              obtain rfl := Option.some.inj hstep
              -- the block moves from the queue to what has been taken
              have htaken : blocks = (taken ++ [block])
                  ++ (items ++ reader.left) := by
                rw [List.append_assoc, List.singleton_append]
                exact hblocks
              cases hlast : block.isLastBlock with
              | true =>
                  rw [if_pos rfl]
                  exact ⟨told, ⟨_, htaken, .joining (.whole hflag hlast)⟩,
                    fun h => h.elim nofun nofun, nofun⟩
              | false =>
                  rw [if_neg Bool.false_ne_true]
                  refine ⟨told, ⟨_, htaken, .popped (hflag.append ?_)⟩,
                    fun h => h.elim nofun nofun, nofun⟩
                  intro other hother
                  rw [List.mem_singleton.mp hother]
                  exact hlast
  | tested hflag =>
      obtain rfl := Option.some.inj hstep
      exact ⟨told, ⟨taken, hblocks, .asleep hflag⟩,
        fun _ => hdrained (.inl rfl), nofun⟩
  | asleep => cases hstep
  | @popped before block hflag =>
      obtain rfl := Option.some.inj hstep
      refine ⟨told, ⟨_, hblocks, ?_⟩, fun h => h.elim nofun nofun, nofun⟩
      cases error with
      | true => exact .failing rfl ⟨[block], rfl⟩ hflag.of_append
      | false =>
          -- no error so far: the block is written, and the flag is read once
          -- more
          have hwritten : (before ++ [block]).map DownloadRespone.ofBlock
              = before.map .ofBlock ++ [block].map .ofBlock :=
            List.map_append
          refine hwritten ▸ .checking hflag ?_
          exact List.append_ne_nil_of_right_ne_nil _ (List.cons_ne_nil _ _)
  | woken herror hflag =>
      obtain rfl := Option.some.inj hstep
      refine ⟨told, ⟨taken, hblocks, ?_⟩, fun h => h.elim nofun nofun, nofun⟩
      rw [if_pos herror]
      exact .failing herror (List.prefix_refl _) hflag
  | checking hflag hne =>
      obtain rfl := Option.some.inj hstep
      cases error with
      | true =>
          exact ⟨told, ⟨taken, hblocks, .joining (.cut rfl hflag hne)⟩,
            fun h => h.elim nofun nofun, nofun⟩
      | false =>
          exact ⟨told, ⟨taken, hblocks, .popping hflag⟩,
            fun h => h.elim nofun nofun, nofun⟩
  | failing herror hle hflag =>
      obtain rfl := Option.some.inj hstep
      rw [if_pos herror]
      exact ⟨told, ⟨taken, hblocks, .joining (.failed herror hle hflag)⟩,
        fun h => h.elim nofun nofun, nofun⟩
  | joining hsent =>
      obtain ⟨rfl, hended⟩ := of_joining rfl hstep
      exact ⟨told, ⟨taken, hblocks, .returned hsent⟩,
        fun h => h.elim nofun nofun, fun _ => hended⟩
  | returned => cases hstep

/-- So does every step of the two threads. -/
theorem inv_step (t : Thread) (h : Inv blocks thrown s)
    (hstep : step s t = some s') : Inv blocks thrown s' := by
  cases t with
  | reader => exact inv_readerStep h hstep
  | writer => exact inv_writerStep h hstep

/-- A call whose writing thread has not begun. -/
def pushing (items left : List DataBlock) (thrown : Option String) :
    Server where
  queue := ⟨items, false⟩
  error := false
  errorMsg := ""
  reader := .reading left thrown
  writer := .popping
  written := []

/-- The server begins with the blocks of all files, or with those before an
exception. -/
theorem start_cons (store : Store) (blockSize : Nat) (fileName : String)
    (fileList : List String) :
    start store blockSize (fileName :: fileList)
      = pushing []
        (downloadDataImpl store blockSize (fileName :: fileList)).1
        (downloadDataImpl store blockSize (fileName :: fileList)).2 :=
  if_neg (List.cons_ne_nil _ _)

/-- The invariant holds in every state of a call. -/
theorem inv_of_run {schedule : List Thread}
    (hrun : run step (start store blockSize (fileName :: fileList)) schedule
      = some s) :
    Inv (downloadDataImpl store blockSize (fileName :: fileList)).1
      (downloadDataImpl store blockSize (fileName :: fileList)).2 s := by
  refine run_invariant (fun _ t _ h hstep => inv_step t h hstep) ?_ hrun
  rw [start_cons]
  exact ⟨.reading, ⟨[], rfl, .popping nofun⟩, fun h => h.elim nofun nofun,
    nofun⟩

-- ============================================================= the threads end

/-- The steps the reading thread has still to take, and two for every
wake-up that it has still to give. -/
def Reader.steps : Reader → Nat
  | .reading blocks _ => 3 * blocks.length + 6
  | .storing => 5
  | .stopping => 4
  | .notifying => 3
  | .fellOff | .ended => 0

/-- A bound for the steps the writing thread has still to take without
another wake-up, with so many blocks to come. -/
def writerSteps (error stop : Bool) (count : Nat) : Writer → Nat
  | .popping => if stop then 6 else 3 * count + 8
  | .tested => if stop then 5 else 3 * count + 7
  | .asleep => if stop then 4 else 3 * count + 6
  | .popped _ => if error then 3 else 3 * count + 10
  | .checking => if error then 2 else 3 * count + 9
  | .joining => 1
  | .returned => 0

/-- The steps still to take. -/
def measure (s : Server) : Nat :=
  s.reader.steps
  + writerSteps s.error s.queue.stop
      (s.queue.items.length + s.reader.left.length) s.writer

/-- An error only shortens what the writer has left. -/
theorem writerSteps_error (stop : Bool) (count : Nat) (writer : Writer) :
    writerSteps true stop count writer
      ≤ writerSteps false stop count writer := by
  cases writer <;> simp only [writerSteps, if_true, le_refl,
    Bool.false_eq_true, if_false] <;> omega

/-- And so does the end of the queue. -/
theorem writerSteps_stop (error : Bool) (count : Nat) (writer : Writer) :
    writerSteps error true count writer
      ≤ writerSteps error false count writer := by
  cases writer <;> simp only [writerSteps, if_true, le_refl,
    Bool.false_eq_true, if_false] <;> omega

/-- A wake-up costs a test and a sleep. -/
theorem writerSteps_notified (error stop : Bool) (count : Nat)
    (writer : Writer) :
    writerSteps error stop count writer.notified
      ≤ writerSteps error stop count writer + 2 := by
  cases writer with
  | asleep =>
      cases stop with
      | false => exact Nat.le_refl _
      | true => exact Nat.le_refl _
  | _ => exact Nat.le_add_right _ 2

/-- The reader has less to do. -/
theorem measure_readerStep (h : Inv blocks thrown s)
    (hstep : s.readerStep = some s') : measure s' < measure s := by
  obtain ⟨⟨items, stop⟩, error, errorMsg, reader, writer, written⟩ := s
  obtain ⟨told, -⟩ := h
  cases told with
  | @reading left =>
      cases left with
      | cons block left =>
          by_cases htested : writer = .tested
          · cases (if_pos htested).symm.trans hstep
          · obtain rfl := Option.some.inj ((if_neg htested).symm.trans hstep)
            have hcount : (items ++ [block]).length + left.length
                = items.length + (left.length + 1) := by
              rw [List.length_append, List.length_singleton]
              omega
            have hwake := writerSteps_notified false false
              (items.length + (left.length + 1)) writer
            show 3 * left.length + 6 + writerSteps false false
                ((items ++ [block]).length + left.length) writer.notified
              < 3 * (left.length + 1) + 6 + writerSteps false false
                (items.length + (left.length + 1)) writer
            rw [hcount]
            omega
      | nil =>
          cases thrown with
          | none =>
              obtain rfl := Option.some.inj hstep
              exact Nat.add_lt_add_right (by decide : 0 < 6) _
          | some what =>
              obtain rfl := Option.some.inj hstep
              exact Nat.add_lt_add_right (by decide : 5 < 6) _
  | storing =>
      obtain rfl := Option.some.inj hstep
      exact Nat.add_lt_add_of_lt_of_le (by decide : 4 < 5)
        (writerSteps_error false _ writer)
  | stopping =>
      obtain rfl := Option.some.inj hstep
      exact Nat.add_lt_add_of_lt_of_le (by decide : 3 < 4)
        (writerSteps_stop true _ writer)
  | notifying =>
      obtain rfl := Option.some.inj hstep
      have hwake := writerSteps_notified true true (items.length + 0) writer
      show 0 + writerSteps true true (items.length + 0) writer.notified
        < 3 + writerSteps true true (items.length + 0) writer
      omega
  | failed => cases hstep
  | finished => cases hstep

/-- The writer has less to do. -/
theorem measure_writerStep (h : Inv blocks thrown s)
    (hstep : s.writerStep = some s') : measure s' < measure s := by
  obtain ⟨⟨items, stop⟩, error, errorMsg, reader, writer, written⟩ := s
  obtain ⟨told, ⟨taken, -, hwrote⟩, -⟩ := h
  change Told thrown reader error stop errorMsg at told
  change Wrote error errorMsg writer taken written at hwrote
  cases hwrote with
  | popping =>
      cases stop with
      | true =>
          obtain rfl := told.error_of_stop
          obtain rfl := Option.some.inj hstep
          exact Nat.add_lt_add_left (by decide : 3 < 6) _
      | false =>
          cases items with
          | nil =>
              obtain rfl := Option.some.inj hstep
              exact Nat.add_lt_add_left (Nat.lt_succ_self _) _
          | cons block items =>
              obtain rfl := Option.some.inj hstep
              refine Nat.add_lt_add_left ?_ reader.steps
              show writerSteps error false (items.length + reader.left.length)
                  (if block.isLastBlock then .joining else .popped block)
                < 3 * (items.length + 1 + reader.left.length) + 8
              cases block.isLastBlock with
              | true =>
                  show 1 < _
                  omega
              | false =>
                  -- a block weighs the three steps it takes
                  refine Nat.lt_of_le_of_lt (m := 3 * (items.length
                    + reader.left.length) + 10) ?_ (by omega)
                  cases error with
                  | false => exact Nat.le_refl _
                  | true => exact writerSteps_error false _ (.popped block)
  | tested =>
      obtain rfl := Option.some.inj hstep
      refine Nat.add_lt_add_left ?_ reader.steps
      cases stop with
      | true => exact (by decide : 4 < 5)
      | false => exact Nat.lt_succ_self _
  | asleep => cases hstep
  | popped | woken =>
      obtain rfl := Option.some.inj hstep
      refine Nat.add_lt_add_left ?_ reader.steps
      cases error with
      | true => exact (by decide : 2 < 3)
      | false => exact Nat.lt_succ_self _
  | checking | failing =>
      obtain rfl := Option.some.inj hstep
      refine Nat.add_lt_add_left ?_ reader.steps
      cases error with
      | true => exact (by decide : 1 < 2)
      | false =>
          cases stop with
          | true => cases told.error_of_stop
          | false => exact Nat.lt_succ_self _
  | joining =>
      obtain ⟨rfl, -⟩ := of_joining rfl hstep
      exact Nat.add_lt_add_left (by decide : 0 < 1) _
  | returned => cases hstep

/-- Every step makes the measure smaller, so no run is longer than it. -/
theorem measure_step (t : Thread) (h : Inv blocks thrown s)
    (hstep : step s t = some s') : measure s' < measure s := by
  cases t with
  | reader => exact measure_readerStep h hstep
  | writer => exact measure_writerStep h hstep

/-- No thread can go on. -/
def Stuck (s : Server) : Prop :=
  ∀ t, step s t = none

/-- A call that cannot go on has returned, or its reading thread has fallen
off its end and the other waits for the value of that or sleeps. A sleeper
has taken all blocks. -/
theorem stuck_cases (h : Inv blocks thrown s)
    (hflag : thrown = none → ¬ NoFlag blocks) (hstuck : Stuck s) :
    (thrown = none ∧ s.writer = .returned)
      ∨ thrown ≠ none ∧ s.reader = .fellOff
        ∧ (s.writer = .joining ∨ s.writer = .asleep ∧ NoFlag blocks) := by
  obtain ⟨⟨items, stop⟩, error, errorMsg, reader, writer, written⟩ := s
  obtain ⟨told, ⟨taken, hblocks, hwrote⟩, hdrained, hjoined⟩ := h
  change Told thrown reader error stop errorMsg at told
  change Wrote error errorMsg writer taken written at hwrote
  change writer = .tested ∨ writer = .asleep → items = [] at hdrained
  have hreader := hstuck .reader
  have hwriter := hstuck .writer
  cases told with
  | @reading left =>
      cases left with
      | cons block left =>
          -- the mutex is taken by a thread that goes to sleep
          by_cases htested : writer = .tested
          · rw [htested] at hwriter
            cases hwriter
          · cases (if_neg htested).symm.trans hreader
      | nil => cases thrown <;> cases hreader
  | storing => cases hreader
  | stopping => cases hreader
  | notifying => cases hreader
  | failed hthrown =>
      refine .inr ⟨hthrown ▸ Option.some_ne_none _, rfl, ?_⟩
      cases hwrote with
      | asleep hnoflag =>
          refine .inr ⟨rfl, ?_⟩
          rw [hblocks, hdrained (.inr rfl)]
          show NoFlag (taken ++ [])
          rwa [List.append_nil]
      | joining => exact .inl rfl
      | popping | tested | popped | woken | checking | failing => cases hwriter
      | returned => cases hjoined rfl
  | finished hthrown =>
      refine .inl ⟨hthrown, ?_⟩
      cases hwrote with
      | asleep hnoflag =>
          refine absurd ?_ (hflag hthrown)
          rw [hblocks, hdrained (.inr rfl)]
          show NoFlag (taken ++ [])
          rwa [List.append_nil]
      | popping => cases items <;> cases hwriter
      | tested | popped | woken | checking | failing => cases hwriter
      | joining => cases hwriter
      | returned => rfl

-- ================================================================= outcomes

/-- Blocks of a file, from the first on; none of one that cannot be read. -/
def Front (store : Store) (blockSize : Nat) (fileName : String)
    (sent : List DataBlock) : Prop :=
  sent = [] ∨ ∃ content, store.Has fileName content
    ∧ sent <+: dataBlocks blockSize fileName content

/-- What a call for these files can have written at some time. -/
inductive Outcome (store : Store) (blockSize : Nat) :
    List String → List DownloadRespone → Prop
  | noFiles :
      Outcome store blockSize [] [.ofError
        "download list is empty, no data file for download"]
  | blocks {fileName : String} {fileList : List String}
      {sent : List DataBlock} (front : Front store blockSize fileName sent) :
      Outcome store blockSize (fileName :: fileList)
        (sent.map DownloadRespone.ofBlock)
  /-- with an error behind them, where a file cannot be read -/
  | failed {fileName : String} {fileList : List String}
      {sent : List DataBlock} {what : String}
      (unread : ¬∀ other ∈ fileName :: fileList,
        ∃ content, store.Has other content)
      (front : Front store blockSize fileName sent) :
      Outcome store blockSize (fileName :: fileList)
        (sent.map DownloadRespone.ofBlock ++ [.ofError what])

/-- What it has written when it returns. -/
inductive Returned (store : Store) (blockSize : Nat) :
    List String → List DownloadRespone → Prop
  | noFiles :
      Returned store blockSize [] [.ofError
        "download list is empty, no data file for download"]
  | whole {fileName : String} {content : Bytes} {fileList : List String}
      (has : store.Has fileName content)
      (all : ∀ other ∈ fileName :: fileList,
        ∃ content, store.Has other content) :
      Returned store blockSize (fileName :: fileList)
        ((dataBlocks blockSize fileName content).map
          DownloadRespone.ofBlock)

/-- Where a call for these files can stand still. -/
inductive Halts (store : Store) : List String → Server → Prop
  | returned {fileList : List String} {s : Server}
      (all : ∀ fileName ∈ fileList, ∃ content, store.Has fileName content)
      (returned : s.writer = .returned) : Halts store fileList s
  /-- for the value that the reading thread does not give -/
  | waits {fileList : List String} {s : Server}
      (unread : ¬∀ fileName ∈ fileList,
        ∃ content, store.Has fileName content)
      (fell : s.reader = .fellOff) (waits : s.writer = .joining) :
      Halts store fileList s
  /-- the notification of `shutdown` is lost -/
  | sleeps {fileName : String} {fileList : List String} {s : Server}
      (unread : ¬∃ content, store.Has fileName content)
      (fell : s.reader = .fellOff) (sleeps : s.writer = .asleep) :
      Halts store (fileName :: fileList) s

/-- The blocks of a call, where its first file is there. -/
theorem downloadDataImpl_front (h : store.Has fileName content) :
    (downloadDataImpl store blockSize (fileName :: fileList)).1
      = dataBlocks blockSize fileName content
        ++ { DataBlock.fresh with isLastBlock := true }
          :: (downloadDataImpl store blockSize fileList).1 := by
  rw [downloadDataImpl_cons h, fileBlocks_eq, List.append_assoc,
    List.singleton_append]

/-- Blocks before a flag are of the first file. -/
theorem front_of_prefix {sent : List DataBlock} (hnoflag : NoFlag sent)
    (hle : sent <+: (downloadDataImpl store blockSize
      (fileName :: fileList)).1) : Front store blockSize fileName sent := by
  by_cases hhas : ∃ content, store.Has fileName content
  · obtain ⟨content, hcontent⟩ := hhas
    obtain ⟨rest, hrest⟩ := hle
    rw [downloadDataImpl_front hcontent] at hrest
    exact .inr ⟨content, hcontent, prefix_of_flag hnoflag rfl hrest⟩
  · obtain ⟨what, heq⟩ :=
      downloadDataImpl_cons_of_not blockSize fileList hhas
    rw [heq] at hle
    exact .inl (List.prefix_nil.mp hle)

/-- What is written is of the blocks taken, with an error behind if there
is one. -/
theorem Sent.front {error : Bool} {errorMsg : String}
    {taken : List DataBlock} {written : List DownloadRespone}
    (h : Sent error errorMsg taken written) :
    ∃ sent, NoFlag sent ∧ sent <+: taken
      ∧ (written = sent.map .ofBlock
        ∨ error = true ∧ written = sent.map .ofBlock ++ [.ofError errorMsg]) := by
  cases h with
  | whole h => exact ⟨_, h, List.prefix_append _ _, .inl rfl⟩
  | cut herror h => exact ⟨_, h, List.prefix_refl _, .inl rfl⟩
  | failed herror hle h => exact ⟨_, h, hle, .inr ⟨herror, rfl⟩⟩

/-- What has been written are blocks in order, with the error message behind
them if there is one. -/
theorem Wrote.front {error : Bool} {errorMsg : String} {writer : Writer}
    {taken : List DataBlock} {written : List DownloadRespone}
    (h : Wrote error errorMsg writer taken written) :
    ∃ sent, NoFlag sent ∧ sent <+: taken
      ∧ (written = sent.map .ofBlock
        ∨ error = true ∧ written = sent.map .ofBlock ++ [.ofError errorMsg]) := by
  cases h with
  | popping h | tested h | asleep h | woken _ h | checking h =>
      exact ⟨_, h, List.prefix_refl _, .inl rfl⟩
  | popped h =>
      exact ⟨_, h.of_append, List.prefix_append _ _, .inl rfl⟩
  | failing herror hle h => exact ⟨_, h, hle, .inr ⟨herror, rfl⟩⟩
  | joining h | returned h => exact h.front

/-- Without files the call has returned. -/
theorem run_start_nil {schedule : List Thread}
    (hrun : run step (start store blockSize []) schedule = some s) :
    schedule = [] ∧ s = start store blockSize [] := by
  cases schedule with
  | nil => exact ⟨rfl, (Option.some.inj hrun).symm⟩
  | cons t schedule =>
      have hnone : step (start store blockSize []) t = none := by
        cases t <;> rfl
      rw [run_cons_none hnone] at hrun
      cases hrun

/-- A call at any time. -/
theorem outcome_of_run {schedule : List Thread}
    (hrun : run step (start store blockSize fileList) schedule = some s) :
    Outcome store blockSize fileList s.written := by
  cases fileList with
  | nil =>
      obtain ⟨-, rfl⟩ := run_start_nil hrun
      exact .noFiles
  | cons fileName fileList =>
      obtain ⟨told, ⟨taken, hblocks, hwrote⟩, -, -⟩ := inv_of_run hrun
      obtain ⟨sent, hnoflag, hle, hwritten⟩ := hwrote.front
      have hprefix : sent
          <+: (downloadDataImpl store blockSize (fileName :: fileList)).1 :=
        hle.trans (hblocks ▸ List.prefix_append taken _)
      have hfront : Front store blockSize fileName sent :=
        front_of_prefix hnoflag hprefix
      obtain hwritten | ⟨herror, hwritten⟩ := hwritten
      · rw [hwritten]
        exact .blocks hfront
      · rw [hwritten]
        refine .failed ?_ hfront
        rw [← downloadDataImpl_thrown store blockSize]
        rw [herror] at told
        exact told.thrown_of_error ▸ Option.some_ne_none _

/-- A call that has returned. -/
theorem returned_of_run {schedule : List Thread}
    (hrun : run step (start store blockSize fileList) schedule = some s)
    (hreturned : s.writer = .returned) :
    Returned store blockSize fileList s.written := by
  cases fileList with
  | nil =>
      obtain ⟨-, rfl⟩ := run_start_nil hrun
      exact .noFiles
  | cons fileName fileList =>
      obtain ⟨told, ⟨taken, hblocks, hwrote⟩, -, hjoined⟩ := inv_of_run hrun
      rw [hjoined hreturned] at told
      rw [hreturned] at hwrote
      generalize s.error = error, s.queue.stop = stop, s.errorMsg = errorMsg,
        s.written = written at told hwrote
      cases told with
      | finished hthrown =>
          have hall := (downloadDataImpl_thrown store blockSize
            (fileName :: fileList)).mp hthrown
          obtain ⟨content, hcontent⟩ := hall fileName List.mem_cons_self
          rw [downloadDataImpl_front hcontent] at hblocks
          cases hwrote with
          | returned hsent =>
              cases hsent with
              | whole hnoflag hflag =>
                  rw [List.append_assoc, List.singleton_append] at hblocks
                  rw [eq_of_flag hnoflag dataBlocks_noFlag hflag rfl
                    hblocks.symm]
                  exact .whole hcontent hall
              | cut herror => cases herror
              | failed herror => cases herror

/-- A first file that is there brings its flag. -/
theorem not_noFlag_of_has (h : store.Has fileName content) :
    ¬NoFlag (downloadDataImpl store blockSize (fileName :: fileList)).1 := by
  rw [downloadDataImpl_front h]
  intro hnoflag
  exact absurd (hnoflag _ (List.mem_append_right _ List.mem_cons_self)) nofun

/-- A call that cannot go on. -/
theorem halts_of_run {schedule : List Thread}
    (hrun : run step (start store blockSize fileList) schedule = some s)
    (hstuck : Stuck s) : Halts store fileList s := by
  cases fileList with
  | nil =>
      obtain ⟨-, rfl⟩ := run_start_nil hrun
      exact .returned nofun rfl
  | cons fileName fileList =>
      have hthrown := downloadDataImpl_thrown store blockSize
        (fileName :: fileList)
      have hflag : (downloadDataImpl store blockSize
          (fileName :: fileList)).2 = none →
            ¬NoFlag (downloadDataImpl store blockSize
              (fileName :: fileList)).1 := by
        intro hnone
        obtain ⟨content, hcontent⟩ :=
          hthrown.mp hnone fileName List.mem_cons_self
        exact not_noFlag_of_has hcontent
      obtain ⟨hnone, hreturned⟩ | ⟨hsome, hfell, hwaits | ⟨hsleeps, hnoflag⟩⟩ :=
        stuck_cases (inv_of_run hrun) hflag hstuck
      · exact .returned (hthrown.mp hnone) hreturned
      · exact .waits (mt hthrown.mpr hsome) hfell hwaits
      · refine .sleeps ?_ hfell hsleeps
        rintro ⟨content, hcontent⟩
        exact not_noFlag_of_has hcontent hnoflag

/-- No order of the threads is longer than a bound. -/
theorem exists_bound (store : Store) (blockSize : Nat)
    (fileList : List String) :
    ∃ bound, ∀ schedule s,
      run step (start store blockSize fileList) schedule = some s →
        schedule.length ≤ bound := by
  cases fileList with
  | nil =>
      refine ⟨0, fun schedule s hrun => ?_⟩
      obtain ⟨rfl, rfl⟩ := run_start_nil hrun
      exact Nat.le_refl 0
  | cons fileName fileList =>
      refine ⟨measure (start store blockSize (fileName :: fileList)),
        fun schedule s hrun => ?_⟩
      have hle := run_length_le (fun _ t _ h hstep => inv_step t h hstep)
        (fun _ t _ h hstep => measure_step t h hstep)
        (inv_of_run (run_nil _)) hrun
      omega

/-- The writing thread finds nothing and is on its way to sleep when the
other sets `stop_` and gives its notification. -/
theorem wakeup_lost (blockSize : Nat) (fileList : List String)
    (h : ¬∃ content, store.Has fileName content) :
    ∃ schedule s,
      run step (start store blockSize (fileName :: fileList)) schedule
        = some s ∧ Stuck s ∧ s.writer = .asleep := by
  obtain ⟨what, hwhat⟩ := downloadDataImpl_cons_of_not blockSize fileList h
  rw [start_cons, hwhat]
  refine ⟨[.writer, .reader, .reader, .reader, .reader, .writer], _, rfl,
    fun t => ?_, rfl⟩
  cases t with
  | reader => rfl
  | writer => rfl

/-- Whatever the order of its threads, a call writes blocks of the first
file, and an error behind them only where a file cannot be read. No order is
longer than a bound. One that cannot be continued has returned, with the
first file written, if all files can be read; otherwise the reading thread
has fallen off its end, and the other waits for its value or, as it may if
the first file cannot be read, sleeps for ever. -/
theorem download_ends (store : Store) (blockSize : Nat)
    (fileList : List String) :
    (∃ bound, ∀ schedule s,
      run step (start store blockSize fileList) schedule = some s →
        schedule.length ≤ bound
        ∧ Outcome store blockSize fileList s.written
        ∧ (s.writer = .returned → Returned store blockSize fileList s.written)
        ∧ (Stuck s → Halts store fileList s))
    ∧ ∀ fileName rest, fileList = fileName :: rest →
      (¬∃ content, store.Has fileName content) → ∃ schedule s,
        run step (start store blockSize fileList) schedule = some s
          ∧ Stuck s ∧ s.writer = .asleep := by
  constructor
  · obtain ⟨bound, hbound⟩ := exists_bound store blockSize fileList
    refine ⟨bound, fun schedule s hrun => ?_⟩
    exact ⟨hbound schedule s hrun, outcome_of_run hrun, returned_of_run hrun,
      halts_of_run hrun⟩
  · rintro fileName rest rfl hunread
    exact wakeup_lost blockSize rest hunread

-- ================================================================== answers

/-- Blocks are read as their data. -/
theorem readResponses_sent (sent : List DataBlock) :
    readResponses (sent.map DownloadRespone.ofBlock)
      = (sent.map DataBlock.data, false) := by
  induction sent with
  | nil => rfl
  | cons block sent ih =>
      rw [List.map_cons, readResponses, if_neg (fun h => h rfl), ih]
      rfl

/-- What a call has written that returned is a success where there are
files, and its data is the first one. -/
theorem Returned.grpcDownloadData {written : List DownloadRespone}
    (h : Returned store blockSize fileList written) :
    (fileList = [] ∧ (grpcDownloadData written true).1 = .fail)
      ∨ ∃ fileName rest content, fileList = fileName :: rest
        ∧ store.Has fileName content
        ∧ (∀ other ∈ fileList, ∃ content, store.Has other content)
        ∧ grpcDownloadData written true = (.success,
          (dataBlocks blockSize fileName content).map DataBlock.data) := by
  cases h with
  | noFiles => exact .inl ⟨rfl, rfl⟩
  | whole has all =>
      refine .inr ⟨_, _, _, rfl, has, all, ?_⟩
      rw [Download.grpcDownloadData, readResponses_sent]
      rfl

/-- A success is what a call has written that returned. -/
theorem answered_success_iff {data : List Bytes} :
    Answered store blockSize fileList .success data
      ↔ ∃ schedule s,
        run step (start store blockSize fileList) schedule = some s
        ∧ s.writer = .returned
        ∧ grpcDownloadData s.written true = (.success, data) := by
  constructor
  · rintro ⟨schedule, s, stream, statusOk, hrun, -, hok, hanswer⟩
    cases statusOk with
    | false => cases congrArg Prod.fst hanswer
    | true =>
        obtain ⟨hreturned, rfl⟩ := hok rfl
        exact ⟨schedule, s, hrun, hreturned, hanswer⟩
  · rintro ⟨schedule, s, hrun, hreturned, hanswer⟩
    exact ⟨schedule, s, s.written, true, hrun, List.prefix_refl _,
      fun _ => ⟨hreturned, rfl⟩, hanswer⟩

/-- A success has delivered the first file, and all could be read. -/
theorem answered_success {data : List Bytes}
    (h : Answered store blockSize fileList .success data) :
    ∃ fileName rest, fileList = fileName :: rest
      ∧ store.Has fileName data.flatten
      ∧ ∀ other ∈ fileList, ∃ content, store.Has other content := by
  obtain ⟨schedule, s, hrun, hreturned, hanswer⟩ := answered_success_iff.mp h
  obtain ⟨-, hfail⟩ | ⟨fileName, rest, content, hlist, has, hall, hdata⟩ :=
    (returned_of_run hrun hreturned).grpcDownloadData
  · rw [hanswer] at hfail
    cases hfail
  · obtain rfl := congrArg Prod.snd (hanswer.symm.trans hdata)
    refine ⟨fileName, rest, hlist, ?_, hall⟩
    show store.Has fileName
      ((dataBlocks blockSize fileName content).map DataBlock.data).flatten
    rwa [dataBlocks_flatten]

/-- Where all files can be read a call returns in any order that is not
broken off. -/
theorem exists_returned (blockSize : Nat) (hne : fileList ≠ [])
    (hall : ∀ fileName ∈ fileList, ∃ content, store.Has fileName content) :
    ∃ schedule s,
      run step (start store blockSize fileList) schedule = some s
        ∧ s.writer = .returned := by
  obtain ⟨fileName, rest, rfl⟩ := List.exists_cons_of_ne_nil hne
  have hinv : Inv (downloadDataImpl store blockSize (fileName :: rest)).1
      (downloadDataImpl store blockSize (fileName :: rest)).2
      (start store blockSize (fileName :: rest)) := inv_of_run (run_nil _)
  obtain ⟨schedule, s, hrun, hstuck⟩ :=
    exists_run_stuck (fun _ t _ h hstep => inv_step t h hstep)
      (fun _ t _ h hstep => measure_step t h hstep) hinv
  refine ⟨schedule, s, hrun, ?_⟩
  cases halts_of_run hrun hstuck with
  | returned _ h => exact h
  | waits hunread => exact absurd hall hunread
  | sleeps hunread => exact absurd (hall _ List.mem_cons_self) hunread

/-- A request can come back as a success exactly if it has files and all of
them can be read, and what then comes back is the first one, whole, in every
order of the threads and whatever the stream delivers. -/
theorem download_whole_iff (store : Store) (blockSize : Nat)
    (fileList : List String) :
    ((∃ data, Answered store blockSize fileList .success data)
      ↔ fileList ≠ []
        ∧ ∀ fileName ∈ fileList, ∃ content, store.Has fileName content)
    ∧ ∀ data, Answered store blockSize fileList .success data →
        ∃ fileName rest, fileList = fileName :: rest
          ∧ store.Has fileName data.flatten := by
  refine ⟨⟨?_, ?_⟩, ?_⟩
  · rintro ⟨data, hanswer⟩
    obtain ⟨fileName, rest, hlist, -, hall⟩ := answered_success hanswer
    exact ⟨hlist ▸ List.cons_ne_nil _ _, hall⟩
  · rintro ⟨hne, hall⟩
    obtain ⟨schedule, s, hrun, hreturned⟩ :=
      exists_returned blockSize hne hall
    obtain ⟨hnil, -⟩ | ⟨fileName, rest, content, -, -, -, hdata⟩ :=
      (returned_of_run hrun hreturned).grpcDownloadData
    · exact absurd hnil hne
    · exact ⟨_, answered_success_iff.mpr ⟨schedule, s, hrun, hreturned,
        hdata⟩⟩
  · intro data hanswer
    obtain ⟨fileName, rest, hlist, has, -⟩ := answered_success hanswer
    exact ⟨fileName, rest, hlist, has⟩

/-- A node with two files. -/
def twoFiles : Store where
  storagePath := "/data"
  file path :=
    if path = "/data/a" then .readable [1, 2, 3]
    else if path = "/data/b" then .readable [4]
    else .missing

/-- Two files, one of which takes two blocks. -/
theorem download_whole_iff_two :
    ∃ data, Answered twoFiles 2 ["a", "b"] .success data :=
  (download_whole_iff twoFiles 2 ["a", "b"]).1.mpr
    ⟨List.cons_ne_nil _ _, List.forall_mem_cons.mpr
      ⟨⟨[1, 2, 3], by decide, rfl⟩, List.forall_mem_singleton.mpr
        ⟨[4], by decide, rfl⟩⟩⟩

-- ================================================================ the client

/-- A success for one file is that file. -/
theorem answered_one {data : List Bytes}
    (h : Answered store blockSize [fileName] .success data) :
    store.Has fileName data.flatten := by
  obtain ⟨name, rest, heq, has, -⟩ := answered_success h
  obtain ⟨rfl, rfl⟩ := List.cons.inj heq
  exact has

/-- A file is written as a whole or not at all. -/
theorem saveData_cases {disk disk' : Disk} {name : String}
    {data : List Bytes} {ret : Retcode}
    (h : saveData disk name data = (ret, disk')) :
    (ret = .success ∧ disk' = disk.write name data.flatten)
      ∨ ret = .fail ∧ disk' = disk := by
  unfold saveData at h
  split at h
  · obtain ⟨rfl, rfl⟩ := Prod.mk.inj h
    exact .inr ⟨rfl, rfl⟩
  · split at h
    · obtain ⟨rfl, rfl⟩ := Prod.mk.inj h
      exact .inl ⟨rfl, rfl⟩
    · obtain ⟨rfl, rfl⟩ := Prod.mk.inj h
      exact .inr ⟨rfl, rfl⟩

/-- A client's empty disk. -/
def emptyDisk : Disk := ⟨fun _ => true, fun _ => none⟩

/-- Two blocks of the file and its end flag. -/
theorem answered_a :
    Answered twoFiles 2 ["a"] .success [[1, 2], [3]] :=
  ⟨List.replicate 4 .reader ++ List.replicate 8 .writer, _, _, true, rfl,
    List.prefix_refl _, fun _ => ⟨rfl, rfl⟩, rfl⟩

/-- One block, for which the writing thread is woken up. -/
theorem answered_b :
    Answered twoFiles 2 ["b"] .success [[4]] :=
  ⟨[.writer, .writer] ++ List.replicate 3 .reader ++ List.replicate 5 .writer,
    _, _, true, rfl, List.prefix_refl _, fun _ => ⟨rfl, rfl⟩, rfl⟩

end PrimiHub.Node.Download
