/-
**Timers, the clock and the scheduler: `winix/timer.c`, `kernel/clock.c`, `kernel/sched.c`.**

* `pendingTimers` is a list of timers linked by their `next` field, ordered by `timeOut`;
  `nextTimeout` caches the first of them.
* `doTicks` runs every timer that is due. Its loop is bounded by the number of timers: it goes round
  more often only when the scheduler's timer is due again at once, which repeats for ever.
* `sched` puts the running process back, picks the first process of the first non-empty ready queue
  and acts on one of its signals, until it has found one that can run.
-/

import Winix.Kernel.Signal

namespace Winix.Kernel

open Lib

/-- `TIMER_NEVER`. -/
def timerNever : Word := 0x7FFFFFFF#32
/-- `REBALANCE_TIMEOUT`. -/
def rebalanceTimeout : Word := 36#32

/-- The number of timers there are. -/
def numTimers : Nat := procSlots.length + 1

/-! ### Timers -/

namespace Clock

/-- Change a timer. -/
def setTimer (c : Clock) (t : TimerId) (timer : Timer) : Clock :=
  { c with timer := Function.update c.timer t timer }

/-- The walk of `insert_timer`: the last timer before the place of the new one, and the next. -/
def findPlace (c : Clock) (newTimeout : Word) :
    Nat → Option TimerId → Option TimerId → Option (Option TimerId × Option TimerId)
  | _, prev, none => some (prev, none)
  | 0, _, some _ => none
  | fuel + 1, prev, some curr =>
    if (c.timer curr).timeOut < newTimeout then
      findPlace c newTimeout fuel (some curr) (c.timer curr).next
    else some (prev, some curr)

/-- `insert_timer`. -/
def insertTimer (c : Clock) (t : TimerId) : Option Clock := do
  let (prev, curr) ← findPlace c (c.timer t).timeOut numTimers none c.pendingTimers
  match prev with
  | some prev =>
    let c := c.setTimer prev { c.timer prev with next := some t }
    some (c.setTimer t { c.timer t with next := curr })
  | none =>
    let c := c.setTimer t { c.timer t with next := c.pendingTimers }
    some { c with pendingTimers := some t, nextTimeout := (c.timer t).timeOut }

/-- `new_timer`; the timer is left alone if it is pending. -/
def newTimer (c : Clock) (procNr : ProcNr) (t : TimerId) (timeout : Word)
    (watchdog : TimerHandler) : Option Clock :=
  if timeout = 0#32 then some c
  else if (c.timer t).inUse then some c
  else
    (c.setTimer t
      { procNr := procNr, timeOut := c.uptime + timeout, next := none, handler := watchdog
        inUse := true }).insertTimer t

/-- `dequeue_alarm`; an empty queue is a panic. -/
def dequeueAlarm (c : Clock) : Option (TimerId × Clock) :=
  match c.pendingTimers with
  | none => none
  | some mq =>
    let next := (c.timer mq).next
    let c := { c with
      pendingTimers := next
      nextTimeout := match next with
        | some first => (c.timer first).timeOut
        | none => timerNever }
    some (mq, c.setTimer mq { c.timer mq with inUse := false, next := none })

end Clock

/-! ### The clock -/

/-- `rebalance_queues`: every process is at the highest priority again. The processes stay in the
queues they are in. -/
def rebalanceQueues (k : Machine) : Option Machine := do
  let k := { k with procTable := fun p =>
    if p ∈ userSlots ∧ (k.procTable p).inUse then { k.procTable p with priority := maxPriority }
    else k.procTable p }
  let c ← k.clock.newTimer clock .sched rebalanceTimeout .rebalanceQueues
  some { k with clock := c }

/-- `deliver_alarm`. -/
def deliverAlarm (k : Machine) (procNr : ProcNr) : Option Machine :=
  match getProc k procNr with
  | none => some k
  | some who => (sendSig k who sigalrm).map Prod.fst

/-- `wakeup_process`. -/
def wakeupProcess (k : Machine) (procNr : ProcNr) : Option Machine :=
  match getProc k procNr with
  | none => some k
  | some p =>
    if has (k.procTable p).state .zombie then some k
    else (syscallReply2 k 0 procNr k.sleepMesg).map Prod.fst

/-- `next_timer->handler(next_timer->proc_nr, next_timer->time_out)`. -/
def runTimer (k : Machine) (t : Timer) : Option Machine :=
  match t.handler with
  | .null => none
  | .rebalanceQueues => rebalanceQueues k
  | .deliverAlarm => deliverAlarm k t.procNr
  | .wakeupProcess => wakeupProcess k t.procNr

/-- `do_ticks`. -/
def doTicks : Nat → Machine → Option Machine
  | 0, k => if k.clock.nextTimeout ≤ k.clock.uptime then none else some k
  | fuel + 1, k =>
    if k.clock.nextTimeout ≤ k.clock.uptime then do
      let (t, c) ← k.clock.dequeueAlarm
      let k ← runTimer { k with clock := c } (c.timer t)
      doTicks fuel k
    else some k

/-! ### The scheduler -/

/-- The first non-empty queue from this one on, and its head taken out. -/
def pickFrom (k : Machine) : List Nat → Option (ProcNr × Machine)
  | [] => none
  | i :: rest => (dequeue k i).orElse fun _ => pickFrom k rest

/-- `pick_proc`; no process left is a panic. -/
def pickProc (k : Machine) : Option (ProcNr × Machine) := pickFrom k (List.range numQueues)

/-- Put the current process back, if it can run: at the head of its queue while it has ticks left,
else at the tail of the next lower one. -/
def requeue (k : Machine) : Machine :=
  match k.currentProc with
  | none => k
  | some cur =>
    let p := k.procTable cur
    if p.state = runnable then
      if 0 < p.ticksLeft then enqueueHead k p.priority cur
      else
        let k := if p.isUserProc ∧ p.priority < minPriority then
            k.updateProc cur fun p => { p with priority := p.priority + 1 }
          else k
        enqueueSchedule k cur
    else k

/-- The loop of `sched`: pick, act on a signal, until the process picked can run. -/
def pickRunnable (exitProc : ExitProc) : Nat → Machine → Option Machine
  | 0, _ => none
  | fuel + 1, k => do
    let (p, k) ← pickProc k
    let k := { k with currentProc := some p }
    let signum := isSigpending (k.procTable p)
    let k ← if signum = 0 then some k else handleSig exitProc k p signum
    if (k.procTable p).state = runnable then some k else pickRunnable exitProc fuel k

/-- Every turn of the loop takes a process out of a queue or a signal off a process. -/
def pickFuel : Nat := procSlots.length * (nsig + 1)

/-- Start a new quantum when the old one is used up. -/
def refill (k : Machine) : Machine :=
  match k.currentProc with
  | none => k
  | some cur =>
    k.updateProc cur fun p => { p with ticksLeft := if p.ticksLeft ≤ 0 then p.quantum else p.ticksLeft }

/-- `sched`. -/
def sched (exitProc : ExitProc) (k : Machine) : Option Machine :=
  (pickRunnable exitProc pickFuel (requeue k)).map refill

/-- The accounting of a clock interrupt. -/
def account (k : Machine) (cur : ProcNr) : Machine :=
  let k := { k with clock := { k.clock with uptime := k.clock.uptime + 1 } }
  let k := k.updateProc cur fun p =>
    { p with timeUsed := p.timeUsed + 1, ticksLeft := p.ticksLeft - 1 }
  if hasBit (k.procTable cur).flags InfoFlag.billable.bit then
    match k.billPtr with
    | none => k
    | some payer => k.updateProc payer fun p => { p with sysTimeUsed := p.sysTimeUsed + 1 }
  else k

/-- `clock_handler`, the timer interrupt. -/
def clockHandler (exitProc : ExitProc) (k : Machine) : Option Machine :=
  match k.currentProc with
  | none => none
  | some cur => do
    let k ← doTicks numTimers (account k cur)
    sched exitProc k

end Winix.Kernel
