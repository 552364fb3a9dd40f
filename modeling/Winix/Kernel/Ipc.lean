/-
**Message passing: `kernel/wini_ipc.c`.**

`doSend`, `doReceive` and `doNotify` are the three operations on the processes' message pointers,
sender queues and notification queues, with `syscallReply2` (`kernel/system.c`), which answers a
system call through `doNotify`.

* A send copies the message at once when the destination is receiving (`deliver`), and otherwise
  queues the sender at the head of the destination's `sender_q` (`block`).
* The deadlock check walks `current_proc->sender_q`. A walk that does not end inside the table is
  a kernel that hangs, `none`.
* The links of a notification queue are the `notify_queue` fields of the processes themselves: the
  same field is a process's own list head and its entry in somebody else's list.

Every operation is written in the order of the source's statements, as the pointers may alias.
-/

import Winix.Kernel.Proc

namespace Winix.Kernel

open Lib

/-- `GETCWD`. -/
def getcwd : Word := 52#32

/-- Write one word of memory. -/
def Machine.poke (k : Machine) (address value : Word) : Machine :=
  { k with memory := store k.memory address value }

/-- `*dst = *src`. -/
def Machine.copyMessage (k : Machine) (dst src : Word) : Machine :=
  { k with memory := writeMessage k.memory dst (readMessage k.memory src) }

section Frame

variable (k : Machine) (dst src : Word)

@[simp] theorem poke_procTable : (k.poke dst src).procTable = k.procTable := rfl
@[simp] theorem copyMessage_procTable : (k.copyMessage dst src).procTable = k.procTable := rfl

end Frame

/-! ### Sending -/

/-- The walk over a sender queue: is the process in it? -/
def inSenderQ (k : Machine) (target : ProcNr) : Nat → Option ProcNr → Option Bool
  | _, none => some false
  | 0, some _ => none
  | fuel + 1, some xp =>
    if xp = target then some true else inSenderQ k target fuel (k.procTable xp).nextSender

/-- The destination may itself be waiting for the current process. -/
def deadlocks (k : Machine) (cur pDest : ProcNr) : Option Bool :=
  if has (k.procTable pDest).state .sending then
    inSenderQ k pDest procSlots.length (k.procTable cur).senderQ
  else some false

/-- Copy the message at `m` to a process that is receiving, and unblock it. -/
def handOver (k : Machine) (pDest : ProcNr) (m : Word) : Machine :=
  let k := k.copyMessage (k.procTable pDest).message m
  let k := k.updateProc pDest fun p => { p with state := lower p.state .receiving }
  k.updateProc pDest fun p => p.setResult (k.memory (m + 1))

/-- Hand the message over and make the receiver ready. -/
def deliver (k : Machine) (pDest : ProcNr) (m : Word) : Machine :=
  let k := handOver k pDest m
  enqueueHead k (k.procTable pDest).priority pDest

/-- Block the sender and put it at the head of the destination's sender queue. -/
def block (k : Machine) (cur pDest : ProcNr) : Machine :=
  let k := k.updateProc cur fun p => { p with state := raise p.state .sending }
  let k := k.updateProc cur fun p => { p with nextSender := (k.procTable pDest).senderQ }
  k.updateProc pDest fun p => { p with senderQ := some cur }

/-- `current_proc->message = m`. -/
def saveMessage (k : Machine) (cur : ProcNr) (m : Word) : Machine :=
  k.updateProc cur fun p => { p with message := m }

/-- The rest of `do_send`. -/
def sendTo (k : Machine) (cur : ProcNr) (dest : Int) (m : Word) : Option (Machine × Int) :=
  match getProc k dest with
  | none => some (k, esrch)
  | some pDest => do
    let deadlock ← deadlocks k cur pDest
    if deadlock then some (k, edeadlk)
    else if has (k.procTable pDest).state .receiving then some (deliver k pDest m, ok)
    else some (block k cur pDest, ok)

/-- `do_send`: `cur` is `current_proc`. -/
def doSend (k : Machine) (cur : ProcNr) (dest : Int) (m : Word) : Option (Machine × Int) :=
  sendTo (saveMessage k cur m) cur dest m

/-! ### Notification queues -/

/-- `list_empty(&p->notify_queue)`. -/
def notifyEmpty (k : Machine) (p : ProcNr) : Bool := (k.procTable p).notifyQueue.next = some p

/-- Link an entry of a notification queue to the next. -/
def setNotifyNext (k : Machine) (entry next : Option ProcNr) : Machine :=
  match entry with
  | none => k
  | some p =>
    k.updateProc p fun proc => { proc with notifyQueue := { proc.notifyQueue with next := next } }

/-- Link it to the one before. -/
def setNotifyPrev (k : Machine) (entry prev : Option ProcNr) : Machine :=
  match entry with
  | none => k
  | some p =>
    k.updateProc p fun proc => { proc with notifyQueue := { proc.notifyQueue with prev := prev } }

/-- `list_add(&new->notify_queue, &head->notify_queue)`. -/
def listAdd (k : Machine) (new head : ProcNr) : Machine :=
  let k := setNotifyPrev k (k.procTable head).notifyQueue.next (some new)
  let k := setNotifyNext k (some new) (k.procTable head).notifyQueue.next
  let k := setNotifyPrev k (some new) (some head)
  setNotifyNext k (some head) (some new)

/-- `list_del(&entry->notify_queue)`: unlink, then poison the entry's own links. -/
def listDel (k : Machine) (entry : ProcNr) : Machine :=
  let k := setNotifyPrev k (k.procTable entry).notifyQueue.next (k.procTable entry).notifyQueue.prev
  let k := setNotifyNext k (k.procTable entry).notifyQueue.prev (k.procTable entry).notifyQueue.next
  let k := setNotifyNext k (some entry) none
  setNotifyPrev k (some entry) none

/-! ### Receiving -/

/-- Take the message of the first queued sender and unblock that sender. -/
def collect (k : Machine) (cur p : ProcNr) (m : Word) : Machine :=
  let k := k.updateProc cur fun proc => { proc with senderQ := (k.procTable p).nextSender }
  let k := k.copyMessage m (k.procTable p).message
  k.updateProc p fun proc => { proc with state := lower proc.state .sending }

/-- Take the message of the first queued sender and make the sender ready, unless it waits for a
reply. -/
def takeFrom (k : Machine) (cur p : ProcNr) (m : Word) : Machine :=
  let k := collect k cur p m
  if (k.procTable p).state = runnable then enqueueHead k (k.procTable p).priority p else k

/-- Wait for a message. -/
def await (k : Machine) (cur : ProcNr) (m : Word) : Machine :=
  let k := saveMessage k cur m
  k.updateProc cur fun p => { p with state := raise p.state .receiving }

/-- `do_receive`: pending notifications first, then queued senders, else wait. -/
def doReceive (k : Machine) (cur : ProcNr) (m : Word) : Option (Machine × Int) :=
  if notifyEmpty k cur then
    match (k.procTable cur).senderQ with
    | some p => some (takeFrom k cur p m, ok)
    | none => some (await k cur m, ok)
  else
    -- the first entry of a poisoned list is read through `NULL`
    match (k.procTable cur).notifyQueue.next with
    | none => none
    | some p =>
      let k := listDel k p
      some (k.copyMessage m (k.procTable p).message, ok)

/-! ### Notifying -/

/-- `set_reply_res_errno`: a negative result of a direct system call goes to `errno`. -/
def setReplyResErrno (k : Machine) (who : ProcNr) (m : Word) : Machine :=
  if (k.memory (m + 1)).toInt < 0 then
    let k := k.poke ((k.procTable who).stackTop + 1) (-(k.memory (m + 1)))
    if k.memory (m + 1) = getcwd then k.poke (m + 1) 0#32 else k.poke (m + 1) (-1#32)
  else k

/-- The reply of a direct system call is translated before it is delivered. -/
def finishDirect (k : Machine) (pDest : ProcNr) (m : Word) : Machine :=
  if hasBit (k.procTable pDest).flags InfoFlag.directSyscall.bit then
    let k := setReplyResErrno k pDest m
    k.updateProc pDest fun p => { p with flags := clearBit p.flags InfoFlag.directSyscall.bit }
  else k

/-- `do_notify`: deliver to a process that is receiving and nothing else, or leave the message
pending. -/
def doNotify (k : Machine) (src dest : Int) (m : Word) : Option (Machine × Int) :=
  match getProc k dest with
  | none => some (k, esrch)
  | some pDest =>
    if has (k.procTable pDest).state .killed then some (k, err)
    else if (k.procTable pDest).state = raise runnable .receiving then
      some (deliver (finishDirect k pDest m) pDest m, ok)
    else
      match getProc k src with
      | none => none
      | some pSrc =>
        some (listAdd (saveMessage k pSrc m) pSrc pDest, ok)

/-- Every way a notification can come out. -/
inductive Notified (k : Machine) (src dest : Int) (m : Word) : Machine → Int → Prop
  | nobody (absent : getProc k dest = none) : Notified k src dest m k esrch
  | killed (pDest : ProcNr) (found : getProc k dest = some pDest)
      (dying : has (k.procTable pDest).state .killed = true) : Notified k src dest m k err
  | delivered (pDest : ProcNr) (found : getProc k dest = some pDest)
      (exactly : (k.procTable pDest).state = raise runnable .receiving) :
      Notified k src dest m (deliver (finishDirect k pDest m) pDest m) ok
  | pending (pDest pSrc : ProcNr) (found : getProc k dest = some pDest)
      (source : getProc k src = some pSrc)
      (busy : (k.procTable pDest).state ≠ raise runnable .receiving) :
      Notified k src dest m (listAdd (saveMessage k pSrc m) pSrc pDest) ok

/-- **`do_notify`** does one of these things. -/
theorem doNotify_notified {k k' : Machine} {src dest result : Int} {m : Word}
    (ran : doNotify k src dest m = some (k', result)) : Notified k src dest m k' result := by
  unfold doNotify at ran
  split at ran
  · rename_i absent
    cases ran
    exact .nobody absent
  · rename_i pDest found
    split_ifs at ran with dying exactly
    · cases ran
      exact .killed pDest found dying
    · cases ran
      exact .delivered pDest found exactly
    · split at ran
      · cases ran
      · rename_i pSrc source
        cases ran
        exact .pending pDest pSrc found source exactly

/-- `syscall_reply2`: answer a system call. -/
def syscallReply2 (k : Machine) (reply : Int) (dest : Int) (m : Word) : Option (Machine × Int) :=
  match getProc k dest with
  | none => some (k, err)
  | some _ => doNotify (k.poke (m + 1) (BitVec.ofInt 32 reply)) system dest m

end Winix.Kernel
