/-
**The system-call exception: `syscall_handler` of `kernel/exception.c`.**

The user's stack holds the operation, the destination and the address of the message, or, in a
direct system call, the number of the call and its arguments (`setMessageForSyscall` of
`kernel/system.c` copies those into a message that lies in the process's own memory).

A run of the kernel is a list of events: the running process stores to memory or moves its stack
pointer, traps, or is interrupted by the clock. The three kinds of trap that move a message and the
notification are decoded from memory, as the source does it.
-/

import Winix.Kernel.Sched

namespace Winix.Kernel

open Lib Option

/-- `WINIX_SEND`. -/
def winixSend : Word := 0x13370001#32
/-- `WINIX_RECEIVE`. -/
def winixReceive : Word := 0x13370002#32
/-- `WINIX_NOTIFY`. -/
def winixNotify : Word := 0x13370004#32
/-- `_NSYSCALL`. -/
def nsyscall : Int := 53

/-- `get_physical_addr(va, proc)`. -/
def physicalAddr (p : Proc) (va : Word) : Word := va + p.ctx.rbase

/-! ### Direct system calls -/

/-- The copies `set_message_for_syscall` makes for a system call, in order: the word of the message
that is set, and the argument on the stack it is set from. -/
def syscallArgs : Nat → List (Nat × Nat)
  -- LSEEK
  | 42 => [(4, 2), (3, 1), (2, 0)]
  -- DUP2, KILL, SETPGID
  | 35 | 11 | 20 => [(3, 1), (2, 0)]
  -- ALARM, CLOSE, DUP, UMASK, CSLEEP, GETPGID, SIGSUSPEND, SYSCONF, WINFO, SBRK
  | 7 | 25 | 34 | 43 | 47 | 21 | 17 | 16 | 13 | 50 => [(2, 0)]
  -- READ, WRITE, CREAT, MKNOD, CHOWN, CHMOD, FSTAT, GETDENT, ACCESS, MKDIR
  | 23 | 24 | 26 | 28 | 30 | 31 | 33 | 38 | 39 | 40 => [(2, 0), (5, 1), (3, 2)]
  -- STRERROR, SIGPROCMASK, WAITPID, SIGNAL, GETCWD
  | 14 | 19 | 10 | 49 | 52 => [(2, 0), (5, 1), (3, 2)]
  -- SIGACTION
  | 8 => [(2, 3), (7, 2), (6, 1), (5, 0)]
  -- EXECVE
  | 5 => [(7, 2), (6, 1), (5, 0)]
  -- STAT, LINK, STATFS
  | 32 | 36 | 51 => [(6, 1), (5, 0)]
  -- PIPE, CHDIR, UNLINK, SIGPENDING, TIMES
  | 27 | 29 | 37 | 18 | 1 => [(5, 0)]
  -- DPRINTF
  | 15 => [(2, 0), (5, 1), (6, 2)]
  -- OPEN
  | 22 => [(5, 0), (2, 1), (3, 2)]
  -- FCNTL, IOCTL
  | 44 | 45 => [(2, 0), (3, 1)]
  | _ => []

/-- OPEN, FCNTL and IOCTL take their number off the user's stack. -/
def popsNumber (operation : Nat) : Bool := operation = 22 || operation = 44 || operation = 45

/-- FCNTL and IOCTL pass the address of their remaining arguments. -/
def passesRest (operation : Nat) : Bool := operation = 44 || operation = 45

/-- Take the number of the operation from the stack. -/
def popNumber (k : Machine) (operation : Nat) (who : ProcNr) : Machine :=
  if popsNumber operation then
    k.updateProc who fun p => { p with ctx := { p.ctx with sp := p.ctx.sp + 1 } }
  else k

/-- Copy arguments from the stack to the message. -/
def copyArgs (k : Machine) (sp m : Word) : List (Nat × Nat) → Machine
  | [] => k
  | (word, arg) :: rest =>
    copyArgs (k.poke (m + BitVec.ofNat 32 word) (k.memory (sp + BitVec.ofNat 32 arg))) sp m rest

/-- `set_message_for_syscall`. -/
def setMessageForSyscall (k : Machine) (operation : Nat) (sp m : Word) (who : ProcNr) : Machine :=
  let k := copyArgs (popNumber k operation who) sp m (syscallArgs operation)
  if passesRest operation then k.poke (m + 5) (sp + 2 - (k.procTable who).ctx.rbase) else k

/-- `USER_TMP_MESSAGE(p)`. -/
def userTmpMessage (p : Proc) : Word := p.stackTop + 16

/-! ### The handler -/

/-- What the handler reads from the user's stack. -/
structure Trap where
  operation : Word
  dest : Int
  message : Word
  deriving DecidableEq, Repr

section

variable (k : Machine)

section

variable (cur : ProcNr)

/-- The machine after the message of a direct system call has been made, and the trap. -/
def decode : Machine × Trap :=
  let sp := physicalAddr (k.procTable cur) (k.procTable cur).ctx.sp
  let operation := k.memory sp
  if 0 < operation.toInt ∧ operation.toInt < nsyscall then
    let m := userTmpMessage (k.procTable cur)
    let k := k.updateProc cur fun p =>
      { p with flags := setBit p.flags InfoFlag.directSyscall.bit }
    let k := k.poke (m + 1) operation
    (setMessageForSyscall k operation.toNat (sp + 1) m cur, ⟨winixSendrec, system, m⟩)
  else
    (k, ⟨operation, (k.memory (sp + 1)).toInt,
      physicalAddr (k.procTable cur) (k.memory (sp + 2))⟩)

/-- `m->src = current_proc->proc_nr`. -/
def stamp (t : Trap) : Machine :=
  k.poke t.message (BitVec.ofInt 32 cur)

/-- `*retval = …`. -/
def setRetval (value : Int) : Machine :=
  k.updateProc cur fun p => p.setResult (BitVec.ofInt 32 value)

/-- The send of `WINIX_SEND` and `WINIX_SENDREC`; a failed one does not wait for a reply. -/
def sendOp (dest : Int) (m : Word) : Option Machine := do
  let (k, result) ← doSend k cur dest m
  let k := setRetval k cur result
  some (if result < 0 then
      k.updateProc cur fun p => { p with state := lower p.state .receiving }
    else k)

/-- `current_proc->state |= STATE_RECEIVING`. -/
def expectReply : Machine :=
  k.updateProc cur fun p => { p with state := raise p.state .receiving }

/-- The switch over the operation. -/
def perform (t : Trap) : Option Machine :=
  if t.operation = winixSendrec then
    sendOp (expectReply k cur) cur t.dest t.message
  else if t.operation = winixSend then sendOp k cur t.dest t.message
  else if t.operation = winixReceive then do
    let (k, result) ← doReceive k cur t.message
    some (setRetval k cur result)
  else if t.operation = winixNotify then do
    let (k, result) ← doNotify k (k.memory t.message).toInt t.dest t.message
    some (setRetval k cur result)
  else some (setRetval k cur err)

/-- The machine when the operation is decoded: the message is made and stamped. -/
def fetch : Machine := stamp (decode k cur).1 cur (decode k cur).2

/-- The handler up to its call of the scheduler. -/
def trap : Option Machine :=
  perform (fetch k cur) cur (decode k cur).2

end

end

/-- `syscall_handler`. -/
def syscallHandler (exitProc : ExitProc) (k : Machine) : Option Machine :=
  match k.currentProc with
  | none => none
  | some cur => do
    let k ← trap k cur
    sched exitProc k

theorem syscallHandler_eq_some {exitProc : ExitProc} {k k' : Machine} :
    syscallHandler exitProc k = some k' ↔ ∃ cur trapped, k.currentProc = some cur ∧
      trap k cur = some trapped ∧ sched exitProc trapped = some k' := by
  unfold syscallHandler
  cases k.currentProc with
  | none => simp
  | some cur => simp [bind_eq_some_iff]

/-! ### What a trap can do -/

/-- The machine in which a send looks for its destination: `WINIX_SENDREC` has raised
`STATE_RECEIVING`, and the message is saved for later. -/
def sendState (k : Machine) (cur : ProcNr) (reply : Bool) (m : Word) : Machine :=
  saveMessage (if reply then expectReply k cur else k) cur m

/-- Every way the switch over the operation can come out. -/
inductive Performed (k : Machine) (cur : ProcNr) (t : Trap) : Machine → Prop
  /-- A send to nobody, or one that would deadlock. -/
  | refused (reply : Bool) (result : Int)
      (operation : t.operation = if reply then winixSendrec else winixSend)
      (did : doSend (if reply then expectReply k cur else k) cur t.dest t.message =
        some (sendState k cur reply t.message, result))
      (why : result = esrch ∧ getProc (sendState k cur reply t.message) t.dest = none ∨
        result = edeadlk) :
      Performed k cur t ((setRetval (sendState k cur reply t.message) cur result).updateProc cur
        fun p => { p with state := lower p.state .receiving })
  /-- A send to a process that is receiving. -/
  | delivered (reply : Bool) (pDest : ProcNr)
      (operation : t.operation = if reply then winixSendrec else winixSend)
      (did : doSend (if reply then expectReply k cur else k) cur t.dest t.message =
        some (deliver (sendState k cur reply t.message) pDest t.message, ok))
      (found : getProc (sendState k cur reply t.message) t.dest = some pDest)
      (agreed : deadlocks (sendState k cur reply t.message) cur pDest = some false)
      (receiving : has ((sendState k cur reply t.message).procTable pDest).state .receiving = true) :
      Performed k cur t (setRetval (deliver (sendState k cur reply t.message) pDest t.message) cur ok)
  /-- A send to a process that is not receiving. -/
  | blocked (reply : Bool) (pDest : ProcNr)
      (operation : t.operation = if reply then winixSendrec else winixSend)
      (did : doSend (if reply then expectReply k cur else k) cur t.dest t.message =
        some (block (sendState k cur reply t.message) cur pDest, ok))
      (found : getProc (sendState k cur reply t.message) t.dest = some pDest)
      (busy : has ((sendState k cur reply t.message).procTable pDest).state .receiving = false) :
      Performed k cur t (setRetval (block (sendState k cur reply t.message) cur pDest) cur ok)
  /-- A receive that takes the message of a sender. -/
  | took (p : ProcNr) (operation : t.operation = winixReceive) (empty : notifyEmpty k cur = true)
      (first : (k.procTable cur).senderQ = some p) :
      Performed k cur t (setRetval (takeFrom k cur p t.message) cur ok)
  /-- A receive that has to wait. -/
  | waits (operation : t.operation = winixReceive) (empty : notifyEmpty k cur = true)
      (idle : (k.procTable cur).senderQ = none) :
      Performed k cur t (setRetval (await k cur t.message) cur ok)
  /-- A receive that takes a notification. -/
  | noticed (p : ProcNr) (operation : t.operation = winixReceive)
      (some : notifyEmpty k cur = false) :
      Performed k cur t (setRetval ((listDel k p).copyMessage t.message
        ((listDel k p).procTable p).message) cur ok)
  | notified (k' : Machine) (result : Int) (operation : t.operation = winixNotify)
      (done : doNotify k (k.memory t.message).toInt t.dest t.message = some (k', result)) :
      Performed k cur t (setRetval k' cur result)
  | unknown (send : t.operation ≠ winixSendrec ∧ t.operation ≠ winixSend)
      (other : t.operation ≠ winixReceive ∧ t.operation ≠ winixNotify) :
      Performed k cur t (setRetval k cur err)

theorem doSend_sendState (k : Machine) (cur : ProcNr) (reply : Bool) (dest : Int) (m : Word) :
    doSend (if reply then expectReply k cur else k) cur dest m =
      sendTo (sendState k cur reply m) cur dest m := rfl

theorem sendOp_performed {k k' : Machine} {cur : ProcNr} {t : Trap} (reply : Bool)
    (operation : t.operation = if reply then winixSendrec else winixSend)
    (sent : sendOp (if reply then expectReply k cur else k) cur t.dest t.message = some k') :
    Performed k cur t k' := by
  obtain ⟨⟨after, result⟩, sentTo, same⟩ := bind_eq_some_iff.mp sent
  have did := sentTo
  rw [doSend_sendState, sendTo] at did
  split at did
  · rename_i nobody
    cases did
    cases same
    exact .refused reply esrch operation sentTo (.inl ⟨rfl, nobody⟩)
  · rename_i pDest found
    obtain ⟨deadlock, walked, did⟩ := bind_eq_some_iff.mp did
    split_ifs at did with waiting receives
    · cases did
      cases same
      exact .refused reply edeadlk operation sentTo (.inr rfl)
    · cases did
      cases same
      rw [Bool.not_eq_true] at waiting
      exact .delivered reply pDest operation sentTo found (waiting ▸ walked) receives
    · cases did
      cases same
      exact .blocked reply pDest operation sentTo found (by simpa using receives)

/-- **The switch comes out in one of these ways.** -/
theorem perform_performed {k k' : Machine} {cur : ProcNr} {t : Trap}
    (ran : perform k cur t = some k') : Performed k cur t k' := by
  unfold perform at ran
  split_ifs at ran with sendrec send receive notify
  · exact sendOp_performed true sendrec ran
  · exact sendOp_performed false send ran
  · obtain ⟨⟨after, result⟩, did, same⟩ := bind_eq_some_iff.mp ran
    cases same
    unfold doReceive at did
    split_ifs at did with empty
    · split at did
      · rename_i p first
        cases did
        exact .took p receive empty first
      · rename_i idle
        cases did
        exact .waits receive empty idle
    · split at did
      · cases did
      · rename_i p _
        cases did
        exact .noticed p receive (by simpa using empty)
  · obtain ⟨⟨after, result⟩, did, same⟩ := bind_eq_some_iff.mp ran
    cases same
    exact .notified after result notify did
  · cases ran
    exact .unknown ⟨sendrec, send⟩ ⟨receive, notify⟩

/-! ### Runs -/

/-- What can happen to the machine: the running process computes (it stores words to memory and
changes its registers), it traps, the clock ticks, the scheduler is called. -/
inductive Event
  | user (regs : Nat → Word) (sp : Word) (stores : List (Word × Word))
  | syscall
  | tick
  | sched

/-- The memory after these stores. -/
def storeAll (memory : Memory) : List (Word × Word) → Memory
  | [] => memory
  | (address, value) :: rest => storeAll (store memory address value) rest

/-- The running process computes. -/
def compute (k : Machine) (regs : Nat → Word) (sp : Word) (stores : List (Word × Word)) :
    Option Machine :=
  match k.currentProc with
  | none => none
  | some cur =>
    some { k.updateProc cur fun p => { p with ctx := { p.ctx with regs := regs, sp := sp } } with
      memory := storeAll k.memory stores }

/-- One event. -/
def step (exitProc : ExitProc) (k : Machine) : Event → Option Machine
  | .user regs sp stores => compute k regs sp stores
  | .syscall => syscallHandler exitProc k
  | .tick => clockHandler exitProc k
  | .sched => sched exitProc k

end Winix.Kernel
