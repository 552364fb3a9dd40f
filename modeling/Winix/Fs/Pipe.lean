/-
**Pipes.**

`fs/system/pipe.c`. A pipe is a page `data` whose first `pos` words are the words in the pipe, and
two lists of requests that wait: readers of an empty pipe, and writers that do not fit. A read
completes the first waiting writer inside its own call, a write the first waiting reader; both lists
are stacks (`list_add` puts a request in front, `get_next_waiting` takes the front).

An observer writes down the words a writer hands over and the words that then lie in a reader's
buffer (`observe`). `Lossless log s`: the words delivered are a first part of the words accepted, the
rest is `data[0..pos)`, and `pos` is at most `PIPE_LIMIT`.

* **`lossless_of_counted`**: this holds in every state of every run in which no read of zero words
  meets words in the pipe (`Counted`).
* Such a read runs `shift_pipe_data` with `i = 0`, which wipes the page and leaves `pos` as it is
  (`emptyRead_not_lossless`).
* `pipeRead_enters`, `pipeWrite_enters`: a call enters nobody but its caller in the lists.
-/

import Winix.Fs.Types
import Winix.Lib.Memory
import Winix.Lib.Fifo
import Winix.Lib.Run

namespace Winix.Fs.Pipe

open Kernel Lib Function List

/-! ### The pipe and the requests that wait on it -/

/-- `PIPE_LIMIT`. -/
def pipeLimit : Nat := blockSize

/-- `pipe_mode`: which end of the pipe a `struct filp` is. -/
inductive PipeMode
  | read | write
  deriving DecidableEq, Repr

/-- What the pipe reads of a `struct filp`. -/
structure Filp where
  pipeMode : PipeMode
  filpFlags : Word
  deriving DecidableEq

/-- `filp_flags & O_NONBLOCK`. -/
def Filp.nonblock (filp : Filp) : Bool := hasBit filp.filpFlags 14

/-- The system call a waiting process is in. -/
inductive SysCall
  | read | write
  deriving DecidableEq, Repr

/-- The numbers `READ` and `WRITE`. -/
def SysCall.number : SysCall → Nat
  | .read => 23
  | .write => 24

/-- `struct pipe_waiting`. -/
structure Waiting where
  who : ProcNr
  sysCallNum : SysCall
  filp : Filp
  data : Nat
  count : Nat
  offset : Nat

/-- One pipe, the memory of the processes that use it and what the pipe touches of their entries in
the process table. -/
structure State where
  data : Nat → Word
  pos : Nat
  iCount : Int
  writingList : List Waiting
  readingList : List Waiting
  memory : Nat → Word
  flags : ProcNr → Word
  /-- `sig_table[SIGPIPE].sa_handler == SIG_IGN`. -/
  ignoresSigpipe : ProcNr → Bool

/-- The words in the pipe, `data[0..pos)`. -/
def State.contents (s : State) : List Word := slice s.data 0 s.pos

/-- What a call does: its result, the requests it completes with the result each is replied, and the
processes it sends `SIGPIPE`. -/
structure Outcome where
  result : Int
  replies : List (Waiting × Int)
  signals : List ProcNr
  pipe : State

/-! ### Moving words -/

/-- `shift_pipe_data`: the two loops. -/
def shiftPipeData (s : State) (i : Nat) : State :=
  -- `j` after the first loop
  let j := s.pos - i
  { s with
    data := fillWords 0#32 (s.pos - j) (shiftWords 0#32 j s.data i 0) j
    pos := j }

/-- `_pipe_read`. -/
def pipeReadWords (s : State) (data count : Nat) : Int × State :=
  let i := if count < s.pos then count else s.pos
  (i, shiftPipeData { s with memory := copyWords i s.memory data s.data 0 } i)

/-- `_pipe_write`. -/
def pipeWriteWords (s : State) (data count : Nat) : Int × State :=
  let off := s.pos
  let sum := (off + count) % wordSize
  let stop := if sum < pipeLimit then sum else pipeLimit
  let ret := stop - off
  (ret, { s with data := copyWords ret s.data off s.memory data, pos := (s.pos + ret) % wordSize })

/-- `flags |= STATE_WAITING`. -/
def setWaiting (s : State) (who : ProcNr) : State :=
  { s with flags := update s.flags who (setBit (s.flags who) StateFlag.waiting.bit) }

/-- `flags &= ~STATE_WAITING`. -/
def clearWaiting (s : State) (who : ProcNr) : State :=
  { s with flags := update s.flags who (clearBit (s.flags who) StateFlag.waiting.bit) }

/-! ### The system calls -/

/-- `get_next_waiting`: the first request, taken off the list. -/
def getNextWaiting : List Waiting → Option (Waiting × List Waiting)
  | [] => none
  | next :: rest => some (next, rest)

/-- The end of `pipe_read`: the first waiting writer goes on. -/
def wakeWriter (s : State) : List (Waiting × Int) × State :=
  match getNextWaiting s.writingList with
  | none => ([], s)
  | some (next, rest) =>
    let (ret2, s) := pipeWriteWords { s with writingList := rest } next.data next.count
    ([(next, ret2)], clearWaiting s next.who)

/-- The end of `pipe_write`: the first waiting reader goes on. -/
def wakeReader (s : State) : List (Waiting × Int) × State :=
  match getNextWaiting s.readingList with
  | none => ([], s)
  | some (next, rest) =>
    let (ret2, s) := pipeReadWords { s with readingList := rest } next.data next.count
    ([(next, ret2)], clearWaiting s next.who)

/-- `pipe_read`. Whether `kmalloc` finds memory for a waiting request is up to the kernel
(`granted`). -/
def pipeRead (s : State) (who : ProcNr) (filp : Filp) (data count : Nat) (granted : Bool) : Outcome :=
  if filp.pipeMode = .write then ⟨0, [], [], s⟩
  else if s.iCount = 1 then ⟨0, [], [], s⟩
  else if s.pos = 0 then
    if filp.nonblock then ⟨0, [], [], s⟩
    else if !granted then ⟨enomem, [], [], s⟩
    else
      let s := setWaiting s who
      ⟨suspend, [], [],
        { s with readingList := ⟨who, .read, filp, data, count, 0⟩ :: s.readingList }⟩
  else
    let (ret, s) := pipeReadWords s data count
    if ret = 0 then ⟨ret, [], [], s⟩
    else
      let (replies, s) := wakeWriter s
      ⟨ret, replies, [], s⟩

/-- `pipe_write`. -/
def pipeWrite (s : State) (who : ProcNr) (filp : Filp) (data count offset : Nat) (granted : Bool) :
    Outcome :=
  if filp.pipeMode = .read then ⟨0, [], [], s⟩
  else if s.iCount = 1 then
    if s.ignoresSigpipe who then ⟨epipe, [], [], s⟩
    else ⟨suspend, [], [who], s⟩
  else if pipeLimit < count then ⟨enospc, [], [], s⟩
  -- `PIPE_LIMIT - pos` is a difference of unsigned numbers
  else if (pipeLimit + wordSize - s.pos) % wordSize < count then
    if filp.nonblock then ⟨0, [], [], s⟩
    else if !granted then ⟨enomem, [], [], s⟩
    else
      let s := setWaiting s who
      ⟨suspend, [], [],
        { s with writingList := ⟨who, .write, filp, data, count, offset⟩ :: s.writingList }⟩
  else
    let (ret, s) := pipeWriteWords s data count
    if ret = 0 then ⟨ret, [], [], s⟩
    else
      let (replies, s) := wakeReader s
      ⟨ret, replies, [], s⟩

/-! ### Who waits -/

/-- The requests that wait on the pipe. -/
def State.waiting (s : State) : List Waiting := s.readingList ++ s.writingList

/-- What a call can do to the requests and to the process table: it enters nobody but its caller, and
leaves the flag `IN_USE` alone. -/
structure Enters (who : ProcNr) (s s' : State) : Prop where
  waiting : ∀ next ∈ s'.waiting, next ∈ s.waiting ∨ next.who = who
  inUse : ∀ p, hasBit (s'.flags p) InfoFlag.inUse.bit = hasBit (s.flags p) InfoFlag.inUse.bit

namespace Enters

variable {who : ProcNr} {s s' s'' : State}

theorem refl (who : ProcNr) (s : State) : Enters who s s := ⟨fun _ => .inl, fun _ => rfl⟩

theorem trans (first : Enters who s s') (second : Enters who s' s'') : Enters who s s'' where
  waiting next member := (second.waiting next member).elim (first.waiting next) .inr
  inUse p := (second.inUse p).trans (first.inUse p)

theorem of_same (lists : s'.waiting = s.waiting) (flags : s'.flags = s.flags) : Enters who s s' :=
  ⟨fun _ member => .inl (lists ▸ member), fun p => by rw [flags]⟩

theorem setWaiting (s : State) (p : ProcNr) : Enters who s (setWaiting s p) := by
  refine ⟨fun _ => .inl, fun q => ?_⟩
  simp only [Pipe.setWaiting, update_apply]
  split_ifs with same
  · rw [same, hasBit_setBit_of_ne _ (by decide)]
  · rfl

theorem clearWaiting (s : State) (p : ProcNr) : Enters who s (clearWaiting s p) := by
  refine ⟨fun _ => .inl, fun q => ?_⟩
  simp only [Pipe.clearWaiting, update_apply]
  split_ifs with same
  · rw [same, hasBit_clearBit_of_ne _ (by decide)]
  · rfl

theorem wakeWriter (s : State) : Enters who s (wakeWriter s).2 := by
  unfold Pipe.wakeWriter getNextWaiting
  cases shape : s.writingList with
  | nil => exact refl who s
  | cons next rest =>
    have popped :
        Enters who s (pipeWriteWords { s with writingList := rest } next.data next.count).2 := by
      refine ⟨fun other member => .inl ?_, fun _ => rfl⟩
      simp only [State.waiting, shape, mem_append, mem_cons]
      exact (mem_append.mp member).imp_right .inr
    exact popped.trans (clearWaiting _ next.who)

theorem wakeReader (s : State) : Enters who s (wakeReader s).2 := by
  unfold Pipe.wakeReader getNextWaiting
  cases shape : s.readingList with
  | nil => exact refl who s
  | cons next rest =>
    have popped :
        Enters who s (pipeReadWords { s with readingList := rest } next.data next.count).2 := by
      refine ⟨fun other member => .inl ?_, fun _ => rfl⟩
      simp only [State.waiting, shape, mem_append, mem_cons]
      exact (mem_append.mp member).imp_left .inr
    exact popped.trans (clearWaiting _ next.who)

end Enters

/-- A read lets only its caller wait. -/
theorem pipeRead_enters (s : State) (who : ProcNr) (filp : Filp) (data count : Nat) (granted : Bool) :
    Enters who s (pipeRead s who filp data count granted).pipe := by
  unfold pipeRead
  split_ifs
  · exact .refl who s
  · exact .refl who s
  · exact .refl who s
  · exact .refl who s
  · refine .trans (.setWaiting s who) ⟨fun next member => ?_, fun _ => rfl⟩
    rcases mem_cons.mp member with rfl | member
    · exact .inr rfl
    · exact .inl member
  · have read : Enters who s (pipeReadWords s data count).2 := .of_same rfl rfl
    dsimp only
    split_ifs
    · exact read
    · exact read.trans (.wakeWriter _)

/-- A write lets only its caller wait. -/
theorem pipeWrite_enters (s : State) (who : ProcNr) (filp : Filp) (data count offset : Nat)
    (granted : Bool) : Enters who s (pipeWrite s who filp data count offset granted).pipe := by
  unfold pipeWrite
  split_ifs
  · exact .refl who s
  · exact .refl who s
  · exact .refl who s
  · exact .refl who s
  · exact .refl who s
  · exact .refl who s
  · refine .trans (.setWaiting s who) ⟨fun next member => ?_, fun _ => rfl⟩
    rcases mem_append.mp member with member | member
    · exact .inl (mem_append_left _ member)
    · rcases mem_cons.mp member with rfl | member
      · exact .inr rfl
      · exact .inl (mem_append_right _ member)
  · have written : Enters who s (pipeWriteWords s data count).2 := .of_same rfl rfl
    dsimp only
    split_ifs
    · exact written
    · exact written.trans (.wakeReader _)

/-- A call on one end of the pipe, or a change of the processes' own memory. -/
inductive Event
  | read (who : ProcNr) (filp : Filp) (data count : Nat) (granted : Bool)
  | write (who : ProcNr) (filp : Filp) (data count offset : Nat) (granted : Bool)
  | compute (memory : Nat → Word)

/-- A step of the pipe. -/
def step (s : State) : Event → Option State
  | .read who filp data count granted => some (pipeRead s who filp data count granted).pipe
  | .write who filp data count offset granted =>
    some (pipeWrite s who filp data count offset granted).pipe
  | .compute memory => some { s with memory }

/-- The pipe that `sys_pipe` makes, on a page with any contents. -/
structure Fresh (s : State) : Prop where
  pos : s.pos = 0
  iCount : s.iCount = 2
  writingList : s.writingList = []
  readingList : s.readingList = []

/-! ### The observer -/

/-- The words of a transfer, if any were moved. -/
def moved (transfer : List Word → Transfer Word) (memory : Nat → Word) (data : Nat) (ret : Int) :
    List (Transfer Word) :=
  if 0 < ret then [transfer (slice memory data ret.toNat)] else []

/-- What is seen of a read into the buffer `data`. What a reader gets is what its buffer holds when
the call is over; a writer's words are those of its buffer when they are taken. -/
def readLog (data : Nat) (done : Outcome) : List (Transfer Word) :=
  moved .delivered done.pipe.memory data done.result ++
    done.replies.flatMap fun (next, ret) => moved .accepted done.pipe.memory next.data ret

/-- What is seen of a write from the buffer `data` of the memory before the call. -/
def writeLog (memory : Nat → Word) (data : Nat) (done : Outcome) : List (Transfer Word) :=
  moved .accepted memory data done.result ++
    done.replies.flatMap fun (next, ret) => moved .delivered done.pipe.memory next.data ret

/-- What is observed at an event. -/
def observe (s : State) : Event → List (Transfer Word)
  | .read who filp data count granted => readLog data (pipeRead s who filp data count granted)
  | .write who filp data count offset granted =>
    writeLog s.memory data (pipeWrite s who filp data count offset granted)
  | .compute _ => []

/-- A lossless queue of bounded length. -/
structure Lossless (log : List (Transfer Word)) (s : State) : Prop where
  inOrder : delivered log <+: accepted log
  remaining : (accepted log).drop (delivered log).length = s.contents
  bounded : s.pos ≤ pipeLimit

/-- No read of zero words, by the caller or by the reader that a write completes, meets words in the
pipe. -/
def Counted (s : State) : Event → Prop
  | .read _ filp _ count _ => filp.pipeMode = .read → count = 0 → s.pos = 0
  | .write _ filp _ count _ _ =>
    filp.pipeMode = .write → 0 < count → count ≤ pipeLimit - s.pos →
      ∀ next ∈ s.readingList.head?, next.count ≠ 0
  | .compute _ => True

instance (s : State) : ∀ event, Decidable (Counted s event)
  | .read .. => inferInstanceAs (Decidable (_ → _ → _))
  | .write .. => inferInstanceAs (Decidable (_ → _ → _ → ∀ next ∈ s.readingList.head?, _))
  | .compute _ => isTrue trivial

/-! ### Moving words, and the queue they move through -/

/-- `shift_pipe_data` drops the first words. -/
theorem contents_shiftPipeData (s : State) {i : Nat} (positive : 0 < i) (small : i ≤ s.pos) :
    s.contents = slice s.data 0 i ++ (shiftPipeData s i).contents := by
  have split : s.contents = slice s.data 0 i ++ slice s.data i (s.pos - i) := by
    rw [State.contents, show s.pos = i + (s.pos - i) by omega, slice_add, Nat.zero_add,
      Nat.add_sub_cancel_left]
  rw [split]
  congr 1
  refine slice_congr fun k inside => ?_
  show _ = fillWords _ _ _ _ _
  rw [fillWords_outside _ _ _ _ (by omega), shiftWords_moved _ _ _ positive inside]

/-- What `_pipe_read` does when it is asked for words and there are some. -/
structure Took (s : State) (data : Nat) (ret : Int) (s' : State) : Prop where
  positive : 0 < ret
  contents : s.contents = slice s'.memory data ret.toNat ++ s'.contents
  pos : s'.pos ≤ s.pos
  lists : s'.writingList = s.writingList ∧ s'.readingList = s.readingList
  iCount : s'.iCount = s.iCount

/-- Words are taken from the front. -/
theorem pipeReadWords_took (s : State) (data : Nat) {count : Nat} (some' : 0 < count)
    (filled : 0 < s.pos) :
    Took s data (pipeReadWords s data count).1 (pipeReadWords s data count).2 := by
  have amount : (if count < s.pos then count else s.pos) ≤ s.pos ∧
      0 < (if count < s.pos then count else s.pos) := by
    split <;> omega
  unfold pipeReadWords
  generalize (if count < s.pos then count else s.pos) = i at amount
  refine ⟨Int.natCast_pos.mpr amount.2, ?_, Nat.sub_le .., ⟨rfl, rfl⟩, rfl⟩
  have copied : slice (copyWords i s.memory data s.data 0) data i = slice s.data 0 i :=
    slice_copyWords ..
  have dropped := contents_shiftPipeData
    { s with memory := copyWords i s.memory data s.data 0 } amount.2 amount.1
  show s.contents = slice (copyWords i s.memory data s.data 0) data i ++ _
  rw [copied]
  exact dropped

/-- What `_pipe_write` does with a count that passed the check of `pipe_write`. -/
structure Put (s : State) (data : Nat) (ret : Int) (s' : State) : Prop where
  nonneg : 0 ≤ ret
  contents : s'.contents = s.contents ++ slice s.memory data ret.toNat
  pos : s'.pos ≤ pipeLimit
  grows : s'.pos = s.pos + ret.toNat
  memory : s'.memory = s.memory
  lists : s'.writingList = s.writingList ∧ s'.readingList = s.readingList
  iCount : s'.iCount = s.iCount

/-- Words are put at the end. -/
theorem pipeWriteWords_put (s : State) (data : Nat) {count : Nat} (small : count ≤ pipeLimit)
    (bounded : s.pos ≤ pipeLimit) :
    Put s data (pipeWriteWords s data count).1 (pipeWriteWords s data count).2 := by
  have noWrap : (s.pos + count) % wordSize = s.pos + count :=
    Nat.mod_eq_of_lt (by unfold pipeLimit blockSize wordSize at *; omega)
  simp only [pipeWriteWords, noWrap]
  have room : s.pos + ((if s.pos + count < pipeLimit then s.pos + count else pipeLimit) - s.pos) ≤
      pipeLimit := by
    split <;> omega
  generalize (if s.pos + count < pipeLimit then s.pos + count else pipeLimit) - s.pos = ret at room
  have moves : (s.pos + ret) % wordSize = s.pos + ret :=
    Nat.mod_eq_of_lt (by unfold pipeLimit blockSize wordSize at *; omega)
  refine ⟨Int.natCast_nonneg ret, ?_, ?_, moves, rfl, ⟨rfl, rfl⟩, rfl⟩
  · show slice _ 0 ((s.pos + ret) % wordSize) = _
    rw [moves, slice_add, slice_copyWords_before, Nat.zero_add, slice_copyWords]
    rfl
  · show (s.pos + ret) % wordSize ≤ pipeLimit
    rw [moves]
    exact room

theorem pipeWriteWords_zero (s : State) (data : Nat) (bounded : s.pos ≤ pipeLimit) :
    (pipeWriteWords s data 0).1 = 0 := by
  have noWrap : (s.pos + 0) % wordSize = s.pos :=
    Nat.mod_eq_of_lt (by unfold pipeLimit blockSize wordSize at *; omega)
  simp only [pipeWriteWords, noWrap]
  split <;> omega

/-! ### The calls -/

/-- What every state of a run satisfies beside the log. -/
structure Inv (s : State) : Prop where
  iCount : s.iCount = 2
  bounded : s.pos ≤ pipeLimit
  writers : ∀ next ∈ s.writingList, next.count ≤ pipeLimit

theorem PipeMode.read_of_ne {mode : PipeMode} (other : mode ≠ .write) : mode = .read := by
  cases mode with
  | read => rfl
  | write => exact absurd rfl other

theorem PipeMode.write_of_ne {mode : PipeMode} (other : mode ≠ .read) : mode = .write := by
  cases mode with
  | read => exact absurd rfl other
  | write => rfl

section Invariant

variable {s s' : State}

theorem Inv.bothOpen (inv : Inv s) : s.iCount ≠ 1 := by
  rw [inv.iCount]
  decide

/-- The room in the pipe does not wrap around. -/
theorem Inv.room (inv : Inv s) : (pipeLimit + wordSize - s.pos) % wordSize = pipeLimit - s.pos := by
  have := inv.bounded
  unfold pipeLimit blockSize wordSize at *
  omega

theorem Inv.of_put {data : Nat} {ret : Int} (inv : Inv s) (put : Put s data ret s') : Inv s' where
  iCount := put.iCount.trans inv.iCount
  bounded := put.pos
  writers := by
    rw [put.lists.1]
    exact inv.writers

theorem pos_pipeReadWords (s : State) (data count : Nat) :
    (pipeReadWords s data count).2.pos = s.pos - count := by
  show s.pos - (if count < s.pos then count else s.pos) = _
  split_ifs <;> omega

theorem inv_pipeReadWords (inv : Inv s) (data count : Nat) : Inv (pipeReadWords s data count).2 := by
  refine ⟨inv.iCount, ?_, inv.writers⟩
  rw [pos_pipeReadWords]
  exact (Nat.sub_le ..).trans inv.bounded

theorem inv_wakeWriter (inv : Inv s) : Inv (wakeWriter s).2 := by
  unfold wakeWriter getNextWaiting
  cases waiting : s.writingList with
  | nil => exact inv
  | cons next rest =>
    have writers := inv.writers
    rw [waiting] at writers
    have popped : Inv { s with writingList := rest } :=
      ⟨inv.iCount, inv.bounded, fun other member => writers other (.tail _ member)⟩
    have put := pipeWriteWords_put { s with writingList := rest } next.data
      (writers next (.head _)) inv.bounded
    have kept := popped.of_put put
    exact ⟨kept.iCount, kept.bounded, kept.writers⟩

theorem inv_wakeReader (inv : Inv s) : Inv (wakeReader s).2 := by
  unfold wakeReader getNextWaiting
  cases waiting : s.readingList with
  | nil => exact inv
  | cons next rest =>
    have popped : Inv { s with readingList := rest } := ⟨inv.iCount, inv.bounded, inv.writers⟩
    have read := inv_pipeReadWords popped next.data next.count
    exact ⟨read.iCount, read.bounded, read.writers⟩

/-- **`pipe_read` keeps the invariant.** -/
theorem pipeRead_inv (inv : Inv s) (who : ProcNr) (filp : Filp) (data count : Nat) (granted : Bool) :
    Inv (pipeRead s who filp data count granted).pipe := by
  unfold pipeRead
  split_ifs
  · exact inv
  · exact inv
  · exact inv
  · exact inv
  · exact ⟨inv.iCount, inv.bounded, inv.writers⟩
  · have read := inv_pipeReadWords inv data count
    dsimp only
    split_ifs
    · exact read
    · exact inv_wakeWriter read

/-- **`pipe_write` keeps the invariant.** -/
theorem pipeWrite_inv (inv : Inv s) (who : ProcNr) (filp : Filp) (data count offset : Nat)
    (granted : Bool) : Inv (pipeWrite s who filp data count offset granted).pipe := by
  unfold pipeWrite
  split_ifs with readEnd closed ignored large full nonblock failed
  · exact inv
  · exact inv
  · exact inv
  · exact inv
  · exact inv
  · exact inv
  · refine ⟨inv.iCount, inv.bounded, fun next member => ?_⟩
    rcases mem_cons.mp member with rfl | old
    · exact Nat.le_of_not_lt large
    · exact inv.writers next old
  · have written := inv.of_put (pipeWriteWords_put s data (Nat.le_of_not_lt large) inv.bounded)
    dsimp only
    split_ifs
    · exact written
    · exact inv_wakeReader written

/-- Every step does. -/
theorem step_inv {event : Event} (inv : Inv s) (stepped : step s event = some s') : Inv s' := by
  cases event with
  | read who filp data count granted =>
    cases stepped
    exact pipeRead_inv inv who filp data count granted
  | write who filp data count offset granted =>
    cases stepped
    exact pipeWrite_inv inv who filp data count offset granted
  | compute memory =>
    cases stepped
    exact ⟨inv.iCount, inv.bounded, inv.writers⟩

theorem Fresh.inv (fresh : Fresh s) : Inv s := by
  refine ⟨fresh.iCount, ?_, ?_⟩
  · rw [fresh.pos]
    exact Nat.zero_le _
  · rw [fresh.writingList]
    exact fun next member => absurd member not_mem_nil

end Invariant

section Moves

variable {s s' : State} {data : Nat} {ret : Int}

theorem Took.moves (took : Took s data ret s') :
    Moves s.contents (moved .delivered s'.memory data ret) s'.contents := by
  rw [moved, if_pos took.positive, took.contents]
  exact .deliver _ (.nil _)

theorem Put.moves (put : Put s data ret s') :
    Moves s.contents (moved .accepted s.memory data ret) s'.contents := by
  unfold moved
  split
  case isTrue positive =>
    refine .accept _ ?_
    rw [← put.contents]
    exact .nil _
  case isFalse zero =>
    have none : ret.toNat = 0 := by omega
    have same : s'.contents = s.contents := by
      rw [put.contents, none, slice_zero, append_nil]
    rw [same]
    exact .nil _

/-- The waiting writer's words are accepted behind what the pipe holds. -/
theorem wakeWriter_moves (inv : Inv s) :
    (wakeWriter s).2.memory = s.memory ∧
      Moves s.contents
        ((wakeWriter s).1.flatMap fun (next, ret) => moved .accepted s.memory next.data ret)
        (wakeWriter s).2.contents := by
  unfold wakeWriter getNextWaiting
  cases waiting : s.writingList with
  | nil => exact ⟨rfl, .nil _⟩
  | cons next rest =>
    have small : next.count ≤ pipeLimit := inv.writers next (by rw [waiting]; exact .head _)
    have put := pipeWriteWords_put { s with writingList := rest } next.data small inv.bounded
    refine ⟨put.memory, ?_⟩
    simp only [flatMap_cons, flatMap_nil, append_nil]
    exact put.moves

/-- The waiting reader, if it asks for words, is delivered the first words of the pipe. -/
theorem wakeReader_moves (filled : 0 < s.pos)
    (counted : ∀ next ∈ s.readingList.head?, next.count ≠ 0) :
    Moves s.contents ((wakeReader s).1.flatMap fun (next, ret) =>
        moved .delivered (wakeReader s).2.memory next.data ret)
      (wakeReader s).2.contents := by
  unfold wakeReader getNextWaiting
  cases waiting : s.readingList with
  | nil => exact .nil _
  | cons next rest =>
    have positive : 0 < next.count := by
      refine Nat.pos_of_ne_zero (counted next ?_)
      rw [waiting]
      rfl
    simp only [flatMap_cons, flatMap_nil, append_nil]
    exact (pipeReadWords_took { s with readingList := rest } next.data positive filled).moves

end Moves

/-- The call keeps the invariant and moves words through the queue as the log says. -/
def Outcome.Follows (done : Outcome) (s : State) (log : List (Transfer Word)) : Prop :=
  Inv done.pipe ∧ Moves s.contents log done.pipe.contents

/-- The log of a read follows the contents. -/
theorem pipeRead_follows {s : State} (inv : Inv s) (who : ProcNr) (filp : Filp) (data count : Nat)
    (granted : Bool) (counted : Counted s (.read who filp data count granted)) :
    (pipeRead s who filp data count granted).Follows s
      (readLog data (pipeRead s who filp data count granted)) := by
  refine ⟨pipeRead_inv inv who filp data count granted, ?_⟩
  unfold pipeRead
  rw [if_neg inv.bothOpen]
  split_ifs with writeEnd empty nonblock failed
  · exact .nil _
  · exact .nil _
  · exact .nil _
  · exact .nil _
  · have positive : 0 < count :=
      Nat.pos_of_ne_zero fun zero => empty (counted (PipeMode.read_of_ne writeEnd) zero)
    have took := pipeReadWords_took s data positive (Nat.pos_of_ne_zero empty)
    have woken := wakeWriter_moves (inv_pipeReadWords inv data count)
    have some' : (pipeReadWords s data count).1 ≠ 0 := ne_of_gt took.positive
    simp only [if_neg some', readLog, woken.1]
    exact took.moves.append woken.2

/-- The log of a write does. -/
theorem pipeWrite_follows {s : State} (inv : Inv s) (who : ProcNr) (filp : Filp)
    (data count offset : Nat) (granted : Bool)
    (counted : Counted s (.write who filp data count offset granted)) :
    (pipeWrite s who filp data count offset granted).Follows s
      (writeLog s.memory data (pipeWrite s who filp data count offset granted)) := by
  refine ⟨pipeWrite_inv inv who filp data count offset granted, ?_⟩
  unfold pipeWrite
  rw [inv.room, if_neg inv.bothOpen]
  split_ifs with readEnd large full nonblock failed
  · exact .nil _
  · exact .nil _
  · exact .nil _
  · exact .nil _
  · exact .nil _
  · have put := pipeWriteWords_put s data (Nat.le_of_not_lt large) inv.bounded
    by_cases nothing : (pipeWriteWords s data count).1 = 0
    · simp only [if_pos nothing, writeLog, flatMap_nil, append_nil]
      exact put.moves
    · have filled : 0 < (pipeWriteWords s data count).2.pos := by
        have := put.nonneg
        have := put.grows
        omega
      have positive : 0 < count := by
        refine Nat.pos_of_ne_zero fun zero => nothing ?_
        subst zero
        exact pipeWriteWords_zero s data inv.bounded
      have woken := wakeReader_moves filled (by
        rw [put.lists.2]
        exact counted (PipeMode.write_of_ne readEnd) positive (Nat.le_of_not_lt full))
      simp only [if_neg nothing]
      exact put.moves.append woken

/-- **The log of a step** follows the contents of the pipe. -/
theorem step_follows {s s' : State} {event : Event} (inv : Inv s) (counted : Counted s event)
    (stepped : step s event = some s') :
    Inv s' ∧ Moves s.contents (observe s event) s'.contents := by
  cases event with
  | read who filp data count granted =>
    cases stepped
    exact pipeRead_follows inv who filp data count granted counted
  | write who filp data count offset granted =>
    cases stepped
    exact pipeWrite_follows inv who filp data count offset granted counted
  | compute memory => exact ⟨step_inv inv stepped, by cases stepped; exact .nil _⟩

/-! ### Every run -/

/-- A log that follows the contents loses nothing. -/
theorem lossless_of_moves {log : List (Transfer Word)} {s : State} (moves : Moves [] log s.contents)
    (bounded : s.pos ≤ pipeLimit) : Lossless log s := by
  have conserved : accepted log = delivered log ++ s.contents := moves.conserved
  refine ⟨⟨s.contents, conserved.symm⟩, ?_, bounded⟩
  rw [conserved]
  exact drop_left

/-- **A pipe is a lossless queue**, in every state of every run from `sys_pipe` in which no read of
zero words meets words in the pipe. -/
theorem lossless_of_counted (start : State) (fresh : Fresh start) (events : List Event)
    (counted : Meets (logged step observe) (fun before => Counted before.1) (start, []) events)
    (s : State) (log : List (Transfer Word))
    (ran : runFrom (logged step observe) (start, []) events = some (s, log)) :
    Lossless log s := by
  have kept := runFrom_invariant
    (fun (after : State × List (Transfer Word)) =>
      Inv after.1 ∧ Moves [] after.2 after.1.contents)
    (by
      intro before event after inv counted stepped
      obtain ⟨stepped, observed⟩ := logged_eq_some.mp stepped
      have follows := step_follows inv.1 counted stepped
      rw [observed]
      exact ⟨follows.1, inv.2.append follows.2⟩)
    events
    (by
      refine ⟨fresh.inv, ?_⟩
      show Moves [] [] (slice start.data 0 start.pos)
      rw [fresh.pos]
      exact .nil _)
    counted ran
  exact lossless_of_moves kept.2 kept.1.bounded

/-- An empty pipe; the memory of its users counts up. -/
def newPipe : State where
  data _ := 0#32
  pos := 0
  iCount := 2
  writingList := []
  readingList := []
  memory address := BitVec.ofNat 32 address
  flags _ := 1#32
  ignoresSigpipe _ := false

theorem fresh_newPipe : Fresh newPipe := ⟨rfl, rfl, rfl, rfl⟩

/-- The two ends, both blocking. -/
def readEnd : Filp := ⟨.read, 0#32⟩
/-- The end that is written to. -/
def writeEnd : Filp := ⟨.write, 0#32⟩

/-- A reader waits, a writer's five words complete it; then a second write, and a read in two
parts. -/
def exchange : List Event :=
  [.read 1 readEnd 500 100 true, .write 2 writeEnd 40 5 0 true, .write 2 writeEnd 60 4 0 true,
    .read 1 readEnd 600 3 true, .read 1 readEnd 700 100 true]

/-- The state and the log of a run. -/
def after (events : List Event) : Option (State × List (Transfer Word)) :=
  runFrom (logged step observe) (newPipe, []) events

/-- Two writes are read in order. -/
theorem exchange_lossless :
    ∃ s log, after exchange = some (s, log) ∧ Lossless log s ∧
      delivered log = [40, 41, 42, 43, 44, 60, 61, 62, 63] :=
  ⟨_, _, rfl, lossless_of_counted newPipe fresh_newPipe exchange (by decide) _ _ rfl, by decide⟩

/-- **A read of zero words wipes the pipe.** One word is written, a read of no words follows: the
pipe still claims one word, and it is zero. -/
theorem emptyRead_not_lossless :
    ¬ ∀ start, Fresh start → ∀ events s log,
      runFrom (logged step observe) (start, []) events = some (s, log) → Lossless log s := by
  intro always
  have lossless := always newPipe fresh_newPipe
    [.write 2 writeEnd 40 1 0 true, .read 1 readEnd 500 0 true] _ _ rfl
  exact absurd lossless.remaining (by decide)

end Winix.Fs.Pipe
