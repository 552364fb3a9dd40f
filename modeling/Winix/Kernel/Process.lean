/-
**The life of a process: `fork`, `vfork`, `exit` and `waitpid`.**

The parts of `kernel/proc.c`, `kernel/system/do_fork.c`, `do_vfork.c` and `do_exit_wait.c` that act
on the process table, the timers and the memory. What they do to the page tables and to the open
files lives elsewhere: a fork is told what `copy_mm` made for the child (`ChildImage`), and an exit
leaves the release of pages and files out.

* `getFreeProcSlot` clears a slot that is not in use with `memset`, its timer included; `copyPcb`
  copies the parent's slot over it, its timer and its sender queue included.
* `exitProc` is `exit_proc` outside of an interrupt, `exitProcInInterrupt` what it does in one.
* `doWaitpid` is the early answer, from a child that has already ended; `checkWaiting` is the late one.
-/

import Winix.Kernel.Exception

namespace Winix.Kernel

open Lib

/-- `EAGAIN`. -/
def eagain : Int := -11
/-- `ENOMEM`. -/
def enomem : Int := -12
/-- `ECHILD`. -/
def echild : Int := -10
/-- The result for which the system task does not reply, as it does not for `suspend`. -/
def dontreply : Int := -997
/-- `VFORK`. -/
def vfork : Word := 4#32
/-- `WNOHANG`. -/
def wnohang : Nat := 0
/-- `EXIT_MAGIC`. -/
def exitMagic : Word := 0x10293847#32
/-- `DEFAULT_CCTRL`. -/
def defaultCctrl : Word := 0xff9#32
/-- `DEFAULT_USER_QUANTUM`. -/
def defaultUserQuantum : Int := 8

/-! ### Slots -/

/-- A pointer to the `protection_table` inside a slot. Only that the slots have different ones
matters. -/
def protectionTable (p : ProcNr) : Word := BitVec.ofInt 32 p

/-- A slot after `proc_set_default`. -/
def defaultProc (p : ProcNr) : Proc where
  ctx := ⟨fun _ => -1#32, 0, 0, 0, 0, protectionTable p, defaultCctrl⟩
  state := -1#32
  message := 0
  stackTop := 0
  senderQ := none
  nextSender := none
  notifyQueue := ⟨some p, some p⟩
  next := none
  priority := 0
  quantum := defaultUserQuantum
  ticksLeft := 0
  timeUsed := 0
  sysTimeUsed := 0
  exitStatus := 0
  sigStatus := 0
  pid := 0
  procgrp := 0
  wpid := 0
  woptions := 0
  parent := 0
  flags := 0
  sigPending := 0
  sigMask := 0
  sigMask2 := 0
  sigTable := fun signum => ⟨if signum = sigchld then sigIgn else sigDfl, 0, 0⟩
  saRestorer := 0

/-- The timer of a slot after `proc_set_default`. -/
def defaultTimer (p : ProcNr) : Timer := ⟨p, 0, none, .null, false⟩

/-- `proc_set_default`. -/
def procSetDefault (k : Machine) (p : ProcNr) : Machine :=
  { k.updateProc p fun _ => defaultProc p with clock := k.clock.setTimer (.alarm p) (defaultTimer p) }

/-- `get_free_proc_slot`: the process numbers double as process ids. -/
def getFreeProcSlot (k : Machine) : Option (ProcNr × Machine) :=
  (userSlots.find? fun i => !(k.procTable i).inUse).map fun i =>
    (i, (procSetDefault k i).updateProc i fun p =>
      { p with state := runnable, flags := setBit 0#32 InfoFlag.inUse.bit, pid := i })

/-! ### Fork -/

/-- `copy_pcb`: the child is a copy of the parent but for its number, its id, its signals, its
protection table and its queue of notifications. -/
def copyPcb (k : Machine) (parent child : ProcNr) : Machine :=
  { k.updateProc child fun p =>
      { k.procTable parent with
        pid := p.pid
        sigPending := 0#32
        ctx := { (k.procTable parent).ctx with ptable := protectionTable child }
        notifyQueue := ⟨some child, some child⟩ } with
    clock := k.clock.setTimer (.alarm child) (k.clock.timer (.alarm parent)) }

/-- What `copy_mm` makes for a child: where its image lies, and the copy of the parent's pages. -/
structure ChildImage where
  rbase : Word
  stackTop : Word
  copy : Memory → Memory

/-- `copy_mm` and `copy_pregs`, once there are pages for the child: its message is where the
parent's third word on the stack says, in its own image. -/
def copyImage (k : Machine) (parent child : ProcNr) (image : ChildImage) : Machine :=
  let k := k.updateProc child fun p =>
    { p with ctx := { p.ctx with rbase := image.rbase }, stackTop := image.stackTop }
  let k := { k with memory := image.copy k.memory }
  let sp := physicalAddr (k.procTable parent) (k.procTable parent).ctx.sp
  k.updateProc child fun p => { p with message := physicalAddr p (k.memory (sp + 2)) }

/-- `child->time_used = child->sys_time_used = 0; child->parent = parent->proc_nr`. -/
def adopt (k : Machine) (parent child : ProcNr) : Machine :=
  k.updateProc child fun p => { p with timeUsed := 0, sysTimeUsed := 0, parent := parent }

/-- `sys_fork`: without pages for the child its slot is given back, but only a zombie's is. -/
def sysFork (k : Machine) (parent : ProcNr) (image : Option ChildImage) : Machine × Int :=
  match getFreeProcSlot k with
  | none => (k, eagain)
  | some (child, k) =>
    let k := copyPcb k parent child
    match image with
    | none => (releaseZombie k child, enomem)
    | some image => (adopt (copyImage k parent child image) parent child, child)

/-- `do_fork`: the child's call returns 0, the parent's the child's id. -/
def doFork (k : Machine) (who : ProcNr) (m : Word) (image : Option ChildImage) :
    Option (Machine × Int) :=
  let (k, child) := sysFork k who image
  if child < 0 then some (k, child)
  else do
    let (k, _) ← syscallReply2 k 0 child m
    let pnr ← getProc k child
    some (k, (k.procTable pnr).pid)

/-- `do_vfork`: the parent is blocked, and shares its memory with the child. -/
def doVfork (k : Machine) (parent : ProcNr) (m : Word) : Option (Machine × Int) :=
  match getFreeProcSlot k with
  | none => some (k, eagain)
  | some (child, k) => do
    let k := adopt (copyPcb k parent child) parent child
    let (k, _) ← syscallReply2 k 0 child m
    some (k.updateProc parent fun p => { p with state := raise p.state .vforking }, suspend)

/-! ### Exit -/

/-- `zombify`. -/
def zombify (k : Machine) (p : ProcNr) : Option Machine :=
  dequeueSchedule (k.updateProc p fun proc => { proc with state := raise proc.state .zombie }) p

/-- The walk of `clear_sending_mesg` over one sender queue: the cell before the process, and whether
the process is there. -/
def findSender (k : Machine) (who : ProcNr) :
    Nat → Option ProcNr → Option ProcNr → Option (Option ProcNr × Bool)
  | _, prev, none => some (prev, false)
  | 0, _, some _ => none
  | fuel + 1, prev, some xp =>
    if xp = who then some (prev, true) else findSender k who fuel (some xp) (k.procTable xp).nextSender

/-- Take a process out of one sender queue. -/
def unqueue (k : Machine) (who rp : ProcNr) : Option Machine := do
  let (prev, found) ← findSender k who procSlots.length none (k.procTable rp).senderQ
  if found then
    match prev with
    | none => some (k.updateProc rp fun p => { p with senderQ := (k.procTable who).nextSender })
    | some prev =>
      some (k.updateProc prev fun p => { p with nextSender := (k.procTable who).nextSender })
  else some k

/-- `clear_sending_mesg`: take a process out of every sender queue. -/
def clearSendingMesg (k : Machine) (who : ProcNr) : Option Machine :=
  procSlots.foldlM (fun k rp => if (k.procTable rp).inUse then unqueue k who rp else some k) k

/-- `foreach_child(mp, who) mp->parent = INIT`. -/
def reparent (k : Machine) (who : ProcNr) : Machine :=
  { k with procTable := fun p =>
    if p ∈ userSlots ∧ (k.procTable p).inUse ∧ (k.procTable p).parent = who then
      { k.procTable p with parent := init }
    else k.procTable p }

/-- A parent that is blocked by `vfork` goes on. Any child's end does this. -/
def endVfork (k : Machine) (who parent : ProcNr) : Option Machine :=
  if has (k.procTable parent).state .vforking then do
    let k := k.updateProc parent fun p => { p with state := lower p.state .vforking }
    let k := k.poke (k.currMesg + 1) vfork
    let (k, _) ← syscallReply2 k (k.procTable who).pid parent k.currMesg
    some k
  else some k

/-- `exit_proc` up to `check_waiting`; the parent is read through `NULL` if its slot is not in use. -/
def endProc (k : Machine) (who : ProcNr) (status : Word) (signum : Nat) :
    Option (Machine × ProcNr) := do
  let parent ← getProc k (k.procTable who).parent
  let k ← zombify k who
  let k ← clearSendingMesg k who
  let k := k.updateProc who fun p =>
    { p with exitStatus := status, sigStatus := BitVec.ofNat 32 signum }
  let k ← endVfork k who parent
  some (reparent k who, parent)

/-- `exit_proc` outside of an interrupt. -/
def exitProc (k : Machine) (who : ProcNr) (status : Word) (signum : Nat) : Option Machine := do
  let (k, parent) ← endProc k who status signum
  let k ← checkWaiting k who
  let (k, _) ← sendSig k parent sigchld
  some k

/-- The system call `EXIT`. -/
def exitCall : Word := 2#32

/-- `exit_proc_in_interrupt`: the system task is notified with an `EXIT` message of the process, put on
the process's heap. `heap` is the virtual address `copyto_user_heap` returns, `none` being its `NULL`
when the heap is full; the words that are not set are those on the exception stack. -/
def exitProcInInterrupt (heap : Option Word) (stack : Word) : ExitProc := fun k who _ signum =>
  let em := { readMessage k.memory stack with
    src := BitVec.ofInt 32 who, type := exitCall, m1i1 := 0, m1i2 := BitVec.ofNat 32 signum }
  let ptr := physicalAddr (k.procTable who) (heap.getD 0)
  let k := if heap.isSome then { k with memory := writeMessage k.memory ptr em } else k
  let k := k.updateProc who fun p => { p with state := raise p.state .killed }
  (doNotify k who system ptr).map Prod.fst

/-- `do_exit`: a process that returns from `main` has its status in `$1`. -/
def doExit (k : Machine) (who : ProcNr) (m : Word) : Option (Machine × Int) := do
  let status := k.memory (m + 2)
  let status := if status = exitMagic then (k.procTable who).ctx.regs 0 else status
  let k ← exitProc k who status (k.memory (m + 3)).toNat
  some (k, suspend)

/-! ### Waiting -/

/-- The `pid` argument of `waitpid` names this child. -/
def childMatches (pid : Int) (parent child : Proc) : Bool :=
  !(decide (0 < pid) && decide (pid ≠ child.pid)) &&
  !(decide (pid < -1) && decide (-pid ≠ child.procgrp)) &&
  !(decide (pid = 0) && decide (child.procgrp ≠ parent.procgrp))

/-- The children of a process that the `pid` argument names, in slot order. -/
def matchingChildren (k : Machine) (parent : ProcNr) (pid : Int) : List ProcNr :=
  userSlots.filter fun child =>
    (k.procTable child).inUse && decide ((k.procTable child).parent = parent) &&
    childMatches pid (k.procTable parent) (k.procTable child)

/-- The child has ended, or has stopped and the caller asks for that. -/
def reportable (options : Word) (child : Proc) : Bool :=
  has child.state .zombie || (hasBit options wuntraced && has child.state .stopped)

/-- The child that `do_waitpid` reports at once. -/
def foundChild (k : Machine) (parent : ProcNr) (mesg : Word) : Option ProcNr :=
  (matchingChildren k parent (k.memory (mesg + 2)).toInt).find? fun child =>
    reportable (k.memory (mesg + 3)) (k.procTable child)

/-- `do_waitpid`: the id that is returned is read after the slot of a zombie has been given back. -/
def doWaitpid (k : Machine) (parent : ProcNr) (mesg : Word) : Machine × Int :=
  let pid := (k.memory (mesg + 2)).toInt
  let options := k.memory (mesg + 3)
  match foundChild k parent mesg with
  | some child =>
    let k := k.poke (mesg + 3) (getWstats (k.procTable child))
    let k := releaseZombie k child
    (k, (k.procTable child).pid)
  | none =>
    if hasBit options wnohang then (k, ok)
    else if matchingChildren k parent pid = [] then (k, echild)
    else (k.updateProc parent fun p =>
      { p with wpid := pid, woptions := options, state := raise p.state .waiting }, suspend)

/-! ### The system task -/

/-- `syscall_region_begin`. -/
def syscallRegionBegin (k : Machine) (who : ProcNr) : Machine :=
  let k := { k with billPtr := some who }
  let k := k.updateProc system fun p => { p with flags := setBit p.flags InfoFlag.billable.bit }
  expectReply k who

/-- `syscall_region_end`. -/
def syscallRegionEnd (k : Machine) : Machine :=
  let k := k.updateProc system fun p => { p with flags := clearBit p.flags InfoFlag.billable.bit }
  { k with memory := writeWords k.memory k.currMesg messageLen fun _ => 0#32 }

/-- The machine when the system task calls the handler for a message it has received. -/
def takeUp (k : Machine) (who : ProcNr) (message : Message) : Machine :=
  syscallRegionBegin { k with memory := writeMessage k.memory k.currMesg message } who

/-- The end of a turn of the loop of `system_main`: the caller is answered unless the handler says
not to. -/
def answer (k : Machine) (who : ProcNr) (reply : Int) : Option Machine :=
  if reply = suspend ∨ reply = dontreply then some k
  else (syscallReply2 k reply who k.currMesg).map Prod.fst

/-- One turn of the loop of `system_main`. A caller whose slot is not in use fails an assertion. -/
def serve (handler : Machine → ProcNr → Word → Option (Machine × Int)) (k : Machine) (who : ProcNr)
    (message : Message) : Option Machine := do
  let who ← getProc k who
  let (k, reply) ← handler (takeUp k who message) who k.currMesg
  let k ← answer k who reply
  some (syscallRegionEnd k)

end Winix.Kernel
