/-
**The process table and the ready queues.**

`include/kernel/proc.h` and the queue part of `kernel/proc.c`.

* A `struct proc *` is the number of its slot in the process table, `none` being `NULL`. The queues
  (`sender_q` / `next_sender`, `ready_q` / `next`, `notify_queue`) are the pointers of the source,
  not lists.
* `state` and `flags` are words of flags.

A store through `NULL` lands in the page of the exception stack and touches no process, so it is
modelled as no change; reading a process through `NULL` is a fault (`none`).
-/

import Winix.Kernel.Message
import Winix.Lib.Chain

namespace Winix.Kernel

open Lib Function

/-- The number of a process, its index in the process table. -/
abbrev ProcNr := Int

/-! ### Constants -/

/-- `NUM_TASKS`. -/
def numTasks : Int := 2
/-- `NUM_PROCS`. -/
def numProcs : Int := 8
/-- `IDLE`. -/
def idle : ProcNr := -1
/-- `SYSTEM`. -/
def system : ProcNr := 0
/-- `INIT`. -/
def init : ProcNr := 1
/-- The process number under which the scheduler's own timer is entered. -/
def clock : ProcNr := -2

/-- `NUM_QUEUES`. -/
def numQueues : Nat := 5
/-- `MAX_PRIORITY`. -/
def maxPriority : Nat := 0
/-- `MIN_PRIORITY`. -/
def minPriority : Nat := 4

/-- The slots of the process table, `proc_table - NUM_TASKS + 1` up to `proc_table + NUM_PROCS`. -/
def procSlots : List ProcNr := [-1, 0, 1, 2, 3, 4, 5, 6, 7, 8]

/-- The slots `foreach_proc` walks over. -/
def userSlots : List ProcNr := [1, 2, 3, 4, 5, 6, 7, 8]

/-- `OK`. -/
def ok : Int := 0
/-- `ERR`. -/
def err : Int := -1
/-- `ESRCH`. -/
def esrch : Int := -3
/-- `EINTR`. -/
def eintr : Int := -4
/-- `EDEADLK`. -/
def edeadlk : Int := -35
/-- The caller gets no reply yet. -/
def suspend : Int := -998

/-- The bits of `state`; a process is runnable when none is set. -/
inductive StateFlag
  | sending | receiving | waiting | pausing | vforking | stopped | killed | zombie
  deriving DecidableEq, Repr

/-- The bit number of a state flag. -/
def StateFlag.bit : StateFlag → Nat
  | .sending => 0
  | .receiving => 1
  | .waiting => 2
  | .pausing => 3
  | .vforking => 4
  | .stopped => 5
  | .killed => 6
  | .zombie => 31

theorem StateFlag.bit_lt (flag : StateFlag) : flag.bit < 32 := by
  cases flag <;> decide

theorem StateFlag.bit_injective : Function.Injective StateFlag.bit := by
  intro first second same
  cases first <;> cases second <;> first | rfl | cases same

/-- `STATE_RUNNABLE`. -/
def runnable : Word := 0#32

/-- `state & STATE_…`. -/
def has (state : Word) (flag : StateFlag) : Bool := hasBit state flag.bit

/-- `state |= STATE_…`. -/
def raise (state : Word) (flag : StateFlag) : Word := setBit state flag.bit

/-- `state &= ~STATE_…`. -/
def lower (state : Word) (flag : StateFlag) : Word := clearBit state flag.bit

@[simp] theorem has_runnable (flag : StateFlag) : has runnable flag = false := hasBit_zero _

@[simp] theorem has_raise_self (state : Word) (flag : StateFlag) :
    has (raise state flag) flag = true := hasBit_setBit_self _ flag.bit_lt

theorem has_raise_of_ne (state : Word) {flag other : StateFlag} (ne : other ≠ flag) :
    has (raise state flag) other = has state other :=
  hasBit_setBit_of_ne _ fun same => ne (StateFlag.bit_injective same)

@[simp] theorem has_lower_self (state : Word) (flag : StateFlag) :
    has (lower state flag) flag = false := hasBit_clearBit_self _ _

theorem has_lower_of_ne (state : Word) {flag other : StateFlag} (ne : other ≠ flag) :
    has (lower state flag) other = has state other :=
  hasBit_clearBit_of_ne _ fun same => ne (StateFlag.bit_injective same)

theorem ne_runnable_of_has {state : Word} {flag : StateFlag} (set : has state flag = true) :
    state ≠ runnable := ne_zero_of_hasBit set

/-- A runnable process that raises one flag and lowers it again is runnable. -/
theorem lower_raise_runnable (flag : StateFlag) : lower (raise runnable flag) flag = runnable :=
  clearBit_setBit _ (hasBit_zero _)

/-- The bits of `flags`. -/
inductive InfoFlag
  | inUse | billable | directSyscall
  deriving DecidableEq, Repr

/-- The bit number of an information flag. -/
def InfoFlag.bit : InfoFlag → Nat
  | .inUse => 0
  | .billable => 1
  | .directSyscall => 2

/-! ### The process table -/

/-- `struct list_head` inside a process: the links name the processes whose `list_head` they point
to, `none` stands for the two poison values of `list_del`. -/
structure ListHead where
  next : Option ProcNr
  prev : Option ProcNr
  deriving DecidableEq, Repr

/-- `struct k_context`: the registers saved at an exception. `regs 0` is `$1`, the result. -/
structure Context where
  regs : Nat → Word
  sp : Word
  ra : Word
  pc : Word
  rbase : Word
  ptable : Word
  cctrl : Word

/-- `struct sigaction`. -/
structure SigAction where
  handler : Word
  mask : Word
  flags : Word
  deriving DecidableEq, Repr

/-- `struct proc`, the fields the kernel's message passing, scheduling, signals and timers use. -/
structure Proc where
  ctx : Context
  state : Word
  message : Word
  stackTop : Word
  senderQ : Option ProcNr
  nextSender : Option ProcNr
  notifyQueue : ListHead
  next : Option ProcNr
  priority : Nat
  quantum : Int
  ticksLeft : Int
  timeUsed : Nat
  sysTimeUsed : Nat
  exitStatus : Word
  sigStatus : Word
  pid : Int
  procgrp : Int
  wpid : Int
  woptions : Word
  parent : ProcNr
  flags : Word
  sigPending : Word
  sigMask : Word
  sigMask2 : Word
  sigTable : Nat → SigAction
  saRestorer : Word

/-- `IS_INUSE(p)`. -/
def Proc.inUse (p : Proc) : Bool := hasBit p.flags InfoFlag.inUse.bit

/-- `IS_USER_PROC(p)`. -/
def Proc.isUserProc (p : Proc) : Bool := p.ctx.rbase != 0#32

/-- `p->ctx.m.regs[0] = value`, the value a system call returns in `$1`. -/
def Proc.setResult (p : Proc) (value : Word) : Proc :=
  { p with ctx := { p.ctx with regs := update p.ctx.regs 0 value } }

/-- A ready queue, `q[HEAD]` and `q[TAIL]`. -/
structure RunQueue where
  head : Option ProcNr
  tail : Option ProcNr
  deriving DecidableEq, Repr

/-- The timers: the scheduler's own and the `alarm` of each process. -/
inductive TimerId
  | sched
  | alarm (owner : ProcNr)
  deriving DecidableEq, Repr

/-- The functions a timer can call; a timer that has been cleared has none. -/
inductive TimerHandler
  | null | rebalanceQueues | deliverAlarm | wakeupProcess
  deriving DecidableEq, Repr

/-- `struct timer`. -/
structure Timer where
  procNr : ProcNr
  timeOut : Word
  next : Option TimerId
  handler : TimerHandler
  inUse : Bool
  deriving DecidableEq, Repr

/-- The clock and the queue of pending timers (`kernel/clock.c`, `winix/timer.c`). -/
structure Clock where
  uptime : Word
  nextTimeout : Word
  pendingTimers : Option TimerId
  timer : TimerId → Timer

/-- The state of the machine as the kernel sees it, the file system left out. The process table, the
queues and the timers lie apart from the words of `memory`: a stray write to an address of memory
does not reach them. -/
structure Machine where
  procTable : ProcNr → Proc
  readyQ : Nat → RunQueue
  currentProc : Option ProcNr
  memory : Memory
  clock : Clock
  billPtr : Option ProcNr
  /-- The address of the system task's message buffer, `curr_mesg()`. -/
  currMesg : Word
  /-- The address of the message buffer of `do_csleep.c`. -/
  sleepMesg : Word
  /-- The address of the message `send_sig` keeps on the kernel stack. -/
  sigMesg : Word

namespace Machine

/-- Change one process. -/
def updateProc (k : Machine) (p : ProcNr) (change : Proc → Proc) : Machine :=
  { k with procTable := update k.procTable p (change (k.procTable p)) }

/-- Change one ready queue. -/
def setQueue (k : Machine) (priority : Nat) (q : RunQueue) : Machine :=
  { k with readyQ := update k.readyQ priority q }

section Frame

variable (k : Machine) (p q : ProcNr) (change : Proc → Proc) (priority : Nat) (queue : RunQueue)

@[simp] theorem updateProc_same : (k.updateProc p change).procTable p = change (k.procTable p) :=
  update_self _ _ _

theorem updateProc_of_ne {k : Machine} {p q : ProcNr} {change : Proc → Proc} (ne : q ≠ p) :
    (k.updateProc p change).procTable q = k.procTable q := update_of_ne ne _ _

theorem updateProc_field {β : Type*} {k : Machine} {p : ProcNr} {change : Proc → Proc}
    (field : Proc → β) (keeps : field (change (k.procTable p)) = field (k.procTable p))
    (q : ProcNr) : field ((k.updateProc p change).procTable q) = field (k.procTable q) := by
  by_cases same : q = p
  · subst same
    rw [updateProc_same, keeps]
  · rw [updateProc_of_ne same]

/-- A field after one process has changed, as a function of the process. -/
theorem updateProc_fields {β : Type*} {k : Machine} {p : ProcNr} {change : Proc → Proc}
    (field : Proc → β) :
    (fun q => field ((k.updateProc p change).procTable q)) =
      update (fun q => field (k.procTable q)) p (field (change (k.procTable p))) := by
  funext other
  by_cases same : other = p
  · subst same
    simp
  · simp [updateProc_of_ne same, same]

@[simp] theorem updateProc_memory : (k.updateProc p change).memory = k.memory := rfl
@[simp] theorem setQueue_procTable : (k.setQueue priority queue).procTable = k.procTable := rfl

end Frame

end Machine

/-- `IS_PROCN_OK(i)`. -/
def isProcnOk (i : Int) : Bool := decide (-numTasks < i) && decide (i ≤ numProcs)

/-- The process with this number, `none` if the number is no slot or the slot is not in use. -/
def getProc (k : Machine) (procNr : Int) : Option ProcNr :=
  if isProcnOk procNr then
    if (k.procTable procNr).inUse then some procNr else none
  else none

theorem getProc_eq_some {k : Machine} {procNr : Int} {p : ProcNr} :
    getProc k procNr = some p ↔
      p = procNr ∧ isProcnOk procNr = true ∧ (k.procTable procNr).inUse = true := by
  unfold getProc
  split_ifs with inRange used
  · simp [inRange, used, eq_comm]
  · simp [used]
  · simp [inRange]

/-- The slots that `IS_PROCN_OK` accepts. -/
theorem mem_procSlots {procNr : Int} : isProcnOk procNr = true ↔ procNr ∈ procSlots := by
  simp only [isProcnOk, Bool.and_eq_true, decide_eq_true_eq]
  simp only [numTasks, numProcs, procSlots, List.mem_cons, List.not_mem_nil, or_false]
  omega

/-! ### The ready queues -/

/-- Add a process to the tail of a ready queue. -/
def enqueueTail (k : Machine) (priority : Nat) (p : ProcNr) : Machine :=
  match (k.readyQ priority).head with
  | none =>
    (k.setQueue priority ⟨some p, some p⟩).updateProc p fun proc => { proc with next := none }
  | some first =>
    -- `q[TAIL]->next = proc; q[TAIL] = proc`
    let linked := match (k.readyQ priority).tail with
      | none => k
      | some last => k.updateProc last fun proc => { proc with next := some p }
    (linked.setQueue priority ⟨some first, some p⟩).updateProc p fun proc =>
      { proc with next := none }

/-- Add a process to the head of a ready queue. -/
def enqueueHead (k : Machine) (priority : Nat) (p : ProcNr) : Machine :=
  match (k.readyQ priority).head with
  | none =>
    (k.updateProc p fun proc => { proc with next := none }).setQueue priority ⟨some p, some p⟩
  | some first =>
    (k.updateProc p fun proc => { proc with next := some first }).setQueue priority
      ⟨some p, (k.readyQ priority).tail⟩

/-- Remove the head of a ready queue. -/
def dequeue (k : Machine) (priority : Nat) : Option (ProcNr × Machine) :=
  match (k.readyQ priority).head with
  | none => none
  | some p =>
    let q : RunQueue := if (k.readyQ priority).head = (k.readyQ priority).tail then ⟨none, none⟩
      else ⟨(k.procTable p).next, (k.readyQ priority).tail⟩
    some (p, (k.setQueue priority q).updateProc p fun proc => { proc with next := none })

/-- `enqueue_schedule`. -/
def enqueueSchedule (k : Machine) (p : ProcNr) : Machine :=
  enqueueTail k (k.procTable p).priority p

end Winix.Kernel
