/-
**The timers of processes.**

`remove_timer` of `winix/timer.c`, and the system calls `alarm` and `csleep` that use the timer inside
a process's slot. `Listed c cells` says that the list of pending timers is `cells` and that the timers
in use are exactly those in it.

* `Clock.newTimer_listed`, `Clock.dequeueAlarm_listed`, `Clock.removeTimer_listed`: what the
  operations on the list do to it;
* **`timers_listed_of_idle`**: this holds in every run in which a process forks only while it and the
  slot it takes have no timer in use (`Idle`).
* `fork` copies the timer with the slot, and clears the slot without looking for its timer in the
  list (**`fork_breaks_timers`**).
-/

import Winix.Kernel.Handle
import Winix.Kernel.Spawn
import Winix.Kernel.Boot
import Winix.Lib.Walk

namespace Winix.Kernel

open Lib Function List Option

/-- `get_hz()`. -/
def hz : Word := 60#32

/-! ### `remove_timer`, `alarm` and `csleep` -/

namespace Clock

/-- The timer that follows in the list. -/
def next (c : Clock) (t : TimerId) : Option TimerId := (c.timer t).next

/-- `pending_timers = pending_timers->next`; the cached timeout of an emptied list stays. -/
def dropFirst (c : Clock) : Option Clock :=
  c.pendingTimers.map fun first => { c with
    pendingTimers := c.next first
    nextTimeout := match c.next first with
      | some second => (c.timer second).timeOut
      | none => c.nextTimeout }

/-- `prev->next = curr->next`, read through `NULL` if the timer is not in the list. -/
def skip (c : Clock) (prev : TimerId) (curr : Option TimerId) : Option Clock :=
  curr.map fun curr => c.setTimer prev { c.timer prev with next := c.next curr }

/-- The two ways a timer is taken out of the list. -/
def unlink (c : Clock) (prev curr : Option TimerId) : Option Clock :=
  match prev with
  | some prev => c.skip prev curr
  | none => c.dropFirst

/-- `remove_timer`. -/
def removeTimer (c : Clock) (t : TimerId) : Option Clock := do
  let (prev, curr) ← walk (fun s => s = t) c.next numTimers none c.pendingTimers
  let c ← c.unlink prev curr
  some (c.setTimer t { c.timer t with inUse := false })

end Clock

/-- A pending alarm is cancelled. -/
def cancelAlarm (c : Clock) (who : ProcNr) : Option Clock :=
  if (c.timer (.alarm who)).inUse then c.removeTimer (.alarm who) else some c

/-- `alarm(0)` sets none. -/
def setAlarm (c : Clock) (who : ProcNr) (seconds : Word) : Option Clock :=
  if seconds = 0#32 then some c else c.newTimer who (.alarm who) (seconds * hz) .deliverAlarm

/-- `do_alarm`: the result is the time of the previous alarm. -/
def doAlarm (k : Machine) (who : ProcNr) (m : Word) : Option (Machine × Int) :=
  let seconds := k.memory (m + 2)
  if seconds.toInt < 0 then some (k, einval)
  else do
    let c ← cancelAlarm k.clock who
    let c ← setAlarm c who seconds
    some ({ k with clock := c }, (k.clock.timer (.alarm who)).timeOut.toInt)

/-- `do_csleep`: a process that has an alarm cannot sleep. -/
def doCsleep (k : Machine) (who : ProcNr) (m : Word) : Option (Machine × Int) :=
  if (k.clock.timer (.alarm who)).inUse then some (k, einval)
  else do
    let c ← k.clock.newTimer who (.alarm who) (k.memory (m + 2)) .wakeupProcess
    some ({ k with clock := c }, suspend)

/-! ### The list -/

/-- The list of pending timers is `cells`, and the timers in use are those in it. -/
structure Listed (c : Clock) (cells : List TimerId) : Prop where
  chain : Chain c.next c.pendingTimers cells
  inUse : ∀ t, (c.timer t).inUse = true ↔ t ∈ cells

namespace Clock

variable {c c' : Clock} {t : TimerId} {cells : List TimerId}
variable {before after : List TimerId}

theorem setTimer_next (c : Clock) (t : TimerId) (timer : Timer) :
    (c.setTimer t timer).next = update c.next t timer.next := by
  funext s
  simp only [next, setTimer, update_apply]
  split_ifs <;> rfl

theorem setTimer_inUse (c : Clock) (t s : TimerId) (timer : Timer) :
    ((c.setTimer t timer).timer s).inUse = if s = t then timer.inUse else (c.timer s).inUse := by
  simp only [setTimer, update_apply]
  split_ifs <;> rfl

theorem setNext_inUse (c : Clock) (t s : TimerId) (next : Option TimerId) :
    ((c.setTimer t { c.timer t with next := next }).timer s).inUse = (c.timer s).inUse := by
  rw [setTimer_inUse]
  split_ifs with here
  · rw [here]
  · rfl

theorem findPlace_eq_walk (c : Clock) (timeout : Word) : ∀ (fuel : Nat) (prev curr : Option TimerId),
    c.findPlace timeout fuel prev curr =
      walk (fun s => !decide ((c.timer s).timeOut < timeout)) c.next fuel prev curr
  | _, _, none => by simp only [findPlace, walk]
  | 0, _, some _ => rfl
  | fuel + 1, prev, some curr => by
      simp only [findPlace, walk]
      by_cases earlier : (c.timer curr).timeOut < timeout
      · simp only [earlier, ↓reduceIte, decide_true, Bool.not_true, Bool.false_eq_true]
        exact findPlace_eq_walk c timeout fuel _ _
      · simp only [earlier, ↓reduceIte, decide_false, Bool.not_false]

/-- A timer outside the list may be overwritten, as long as it is not in use. -/
theorem setTimer_listed {timer : Timer} (listed : Listed c cells) (outside : t ∉ cells)
    (unused : timer.inUse = false) : Listed (c.setTimer t timer) cells where
  chain := by
    rw [setTimer_next]
    exact listed.chain.update_of_notMem outside
  inUse s := by
    rw [setTimer_inUse]
    split_ifs with same
    · subst same
      simp [unused, outside]
    · exact listed.inUse s

/-- **`insert_timer` adds the timer to the list**; it is in use already. -/
theorem insertTimer_listed (chain : Chain c.next c.pendingTimers cells) (outside : t ∉ cells)
    (inUse : ∀ s, (c.timer s).inUse = true ↔ s = t ∨ s ∈ cells)
    (ran : c.insertTimer t = some c') :
    ∃ cells', Listed c' cells' ∧ ∀ s, s ∈ cells' ↔ s = t ∨ s ∈ cells := by
  obtain ⟨⟨prev, curr⟩, found, ran⟩ := bind_eq_some_iff.mp ran
  rw [findPlace_eq_walk] at found
  obtain ⟨before, after, rfl, rfl, last, -, -⟩ := walk_spec chain found
  rw [or_none] at last
  subst last
  rcases eq_nil_or_concat before with rfl | ⟨front, prev, rfl⟩
  · simp only [getLast?_nil, Option.some.injEq] at ran
    subst ran
    refine ⟨t :: after, ⟨?_, fun s => ?_⟩, fun s => by simp⟩
    · show Chain (c.setTimer t { c.timer t with next := c.pendingTimers }).next (some t) _
      rw [setTimer_next]
      exact chain.push outside
    · show ((c.setTimer t { c.timer t with next := c.pendingTimers }).timer s).inUse = true ↔ _
      rw [setNext_inUse, inUse s]
      simp
  · simp only [concat_eq_append, getLast?_append, getLast?_singleton, some_or, Option.some.injEq] at ran
    subst ran
    have split : front.concat prev ++ after = front ++ prev :: after := by simp
    rw [split] at chain outside inUse
    have added : ∀ s, s ∈ front ++ prev :: t :: after ↔ s = t ∨ s ∈ front ++ prev :: after := by
      intro s
      simp only [mem_append, mem_cons]
      tauto
    refine ⟨front ++ prev :: t :: after, ⟨?_, fun s => ?_⟩, fun s => by rw [added, split]⟩
    · rw [setTimer_next, setTimer_next]
      exact chain.insert outside
    · rw [setNext_inUse, setNext_inUse, added, inUse s]

/-- **`new_timer` adds the timer to the list**, unless it is there or its time is 0. -/
theorem newTimer_listed {procNr : ProcNr} {timeout : Word} {watchdog : TimerHandler}
    (listed : Listed c cells) (ran : c.newTimer procNr t timeout watchdog = some c') :
    ∃ cells', Listed c' cells' ∧ ∀ s, s ∈ cells → s ∈ cells' := by
  unfold newTimer at ran
  split_ifs at ran with zero used
  · cases ran
    exact ⟨cells, listed, fun _ member => member⟩
  · cases ran
    exact ⟨cells, listed, fun _ member => member⟩
  · have outside : t ∉ cells := fun member => used ((listed.inUse t).mpr member)
    have chain : Chain (update c.next t none) c.pendingTimers cells :=
      listed.chain.update_of_notMem outside
    rw [← setTimer_next c t ⟨procNr, c.uptime + timeout, none, watchdog, true⟩] at chain
    obtain ⟨cells', listed', added⟩ := insertTimer_listed chain outside (fun s => by
      rw [setTimer_inUse]
      split_ifs with same
      · simp [same]
      · rw [listed.inUse s]
        simp [same]) ran
    exact ⟨cells', listed', fun s member => (added s).mpr (.inr member)⟩

/-- **`dequeue_alarm` takes the first timer out of the list.** -/
theorem dequeueAlarm_listed (listed : Listed c cells) (ran : c.dequeueAlarm = some (t, c')) :
    ∃ rest, cells = t :: rest ∧ Listed c' rest := by
  unfold dequeueAlarm at ran
  split at ran
  · cases ran
  · rename_i first pending
    cases ran
    have chain := listed.chain
    rw [pending] at chain
    obtain ⟨rest, rfl, -⟩ := chain.eq_cons_of_some
    have outside := (nodup_cons.mp chain.nodup).1
    refine ⟨rest, rfl, ?_, fun s => ?_⟩
    · rw [setTimer_next]
      exact chain.pop
    · rw [setTimer_inUse]
      split_ifs with same
      · subst same
        simp [outside]
      · exact (listed.inUse s).trans (by simp [same])

theorem unlink_chain (chain : Chain c.next c.pendingTimers (before ++ t :: after))
    (ran : c.unlink before.getLast? (some t) = some c') :
    Chain c'.next c'.pendingTimers (before ++ after) ∧ ∀ s, (c'.timer s).inUse = (c.timer s).inUse := by
  rcases eq_nil_or_concat before with rfl | ⟨front, prev, rfl⟩
  · obtain ⟨first, pending, rfl⟩ := map_eq_some_iff.mp ran
    rw [pending] at chain
    obtain ⟨same, tail⟩ := chain
    cases same
    exact ⟨tail, fun _ => rfl⟩
  · simp only [unlink, skip, concat_eq_append, getLast?_append, getLast?_singleton,
      some_or, map_some, Option.some.injEq] at ran
    subst ran
    refine ⟨?_, fun s => setNext_inUse _ _ _ _⟩
    rw [setTimer_next]
    simp only [concat_eq_append, append_assoc, cons_append, nil_append] at chain ⊢
    exact chain.bypass

/-- **`remove_timer` takes a timer that is in use out of the list**, and no other. -/
theorem removeTimer_listed (listed : Listed c cells) (used : (c.timer t).inUse = true)
    (ran : c.removeTimer t = some c') :
    ∃ cells', Listed c' cells' ∧ ∀ s, s ∈ cells' ↔ s ∈ cells ∧ s ≠ t := by
  obtain ⟨⟨prev, curr⟩, found, removed⟩ := bind_eq_some_iff.mp ran
  obtain ⟨unlinked, unlinking, ended⟩ := bind_eq_some_iff.mp removed
  cases ended
  obtain ⟨before, after, rfl, rfl, last, passed, stopped⟩ := walk_spec listed.chain found
  rw [or_none] at last
  subst last
  -- the walk stops at the timer: it is in the list, and not before the stop
  have member : t ∈ after := by
    rcases mem_append.mp ((listed.inUse t).mp used) with early | member
    · simpa using passed t early
    · exact member
  cases after with
  | nil => cases member
  | cons first after =>
    obtain rfl : first = t := by simpa using stopped first rfl
    have gone := Chain.mem_split listed.chain.nodup
    obtain ⟨chain, same⟩ := unlink_chain listed.chain unlinking
    refine ⟨before ++ after, ⟨?_, fun s => ?_⟩, gone⟩
    · rw [setTimer_next]
      refine chain.congr fun s member => ?_
      exact update_of_ne ((gone s).mp member).2 _ _
    · rw [setTimer_inUse, gone s]
      split_ifs with here
      · simp [here]
      · rw [same s, listed.inUse s]
        simp [here]

end Clock

/-! ### The calls -/

section Calls

variable {k k' : Machine} {who : ProcNr} {m : Word} {result : Int} {cells : List TimerId}

/-- Every timer of the list but the caller's own stays in it. -/
def Spares (who : ProcNr) (cells cells' : List TimerId) : Prop :=
  ∀ t ∈ cells, t ≠ .alarm who → t ∈ cells'

theorem cancelAlarm_listed {c c' : Clock} (listed : Listed c cells)
    (ran : cancelAlarm c who = some c') :
    ∃ cells', Listed c' cells' ∧ Spares who cells cells' := by
  unfold cancelAlarm at ran
  split_ifs at ran with used
  · obtain ⟨cells', listed', gone⟩ := Clock.removeTimer_listed listed used ran
    exact ⟨cells', listed', fun t member other => (gone t).mpr ⟨member, other⟩⟩
  · cases ran
    exact ⟨cells, listed, fun _ member _ => member⟩

theorem setAlarm_listed {c c' : Clock} {seconds : Word} (listed : Listed c cells)
    (ran : setAlarm c who seconds = some c') :
    ∃ cells', Listed c' cells' ∧ ∀ t ∈ cells, t ∈ cells' := by
  unfold setAlarm at ran
  split_ifs at ran
  · cases ran
    exact ⟨cells, listed, fun _ member => member⟩
  · exact Clock.newTimer_listed listed ran

theorem doAlarm_listed (listed : Listed k.clock cells) (ran : doAlarm k who m = some (k', result)) :
    ∃ cells', Listed k'.clock cells' ∧ Spares who cells cells' := by
  unfold doAlarm at ran
  dsimp only at ran
  split_ifs at ran
  · cases ran
    exact ⟨cells, listed, fun _ member _ => member⟩
  · obtain ⟨cancelled, cancelling, ran⟩ := bind_eq_some_iff.mp ran
    obtain ⟨set, setting, ran⟩ := bind_eq_some_iff.mp ran
    cases ran
    obtain ⟨left, listed, spares⟩ := cancelAlarm_listed listed cancelling
    obtain ⟨cells', listed', more⟩ := setAlarm_listed listed setting
    exact ⟨cells', listed', fun t member other => more t (spares t member other)⟩

theorem doCsleep_listed (listed : Listed k.clock cells) (ran : doCsleep k who m = some (k', result)) :
    ∃ cells', Listed k'.clock cells' ∧ Spares who cells cells' := by
  unfold doCsleep at ran
  split_ifs at ran
  · cases ran
    exact ⟨cells, listed, fun _ member _ => member⟩
  · obtain ⟨c, added, ran⟩ := bind_eq_some_iff.mp ran
    cases ran
    obtain ⟨cells', listed', more⟩ := Clock.newTimer_listed listed added
    exact ⟨cells', listed', fun t member _ => more t member⟩

/-- A child's timer is a copy of its parent's: neither may be in use. -/
theorem Spawned.listed {parent child : ProcNr} (spawned : Spawned k parent child k')
    (listed : Listed k.clock cells)
    (parentIdle : (k.clock.timer (.alarm parent)).inUse = false)
    (slotIdle : (k.clock.timer (.alarm child)).inUse = false) : Listed k'.clock cells := by
  rw [spawned.clock, copyTimer]
  refine Clock.setTimer_listed listed (fun member => ?_) parentIdle
  rw [(listed.inUse _).mpr member] at slotIdle
  cases slotIdle

theorem doWaitpid_clock (k : Machine) (who : ProcNr) (m : Word) :
    (doWaitpid k who m).1.clock = k.clock := by
  unfold doWaitpid
  split
  · exact (releaseZombie_outlived _ _).clock
  · dsimp only
    split_ifs <;> rfl

end Calls

/-! ### The clock -/

section Ticks

variable {k k' : Machine} {cells : List TimerId}

theorem runTimer_listed {t : Timer} (listed : Listed k.clock cells) (ran : runTimer k t = some k') :
    ∃ cells', Listed k'.clock cells' := by
  rcases runTimer_cases ran with ran | roused
  · obtain ⟨c, added, ran⟩ := bind_eq_some_iff.mp ran
    cases ran
    obtain ⟨cells', listed', -⟩ := Clock.newTimer_listed listed added
    exact ⟨cells', listed'⟩
  · exact ⟨cells, roused.clock ▸ listed⟩

/-- **Running the timers that are due.** -/
theorem doTicks_listed {fuel : Nat} (listed : Listed k.clock cells) (ran : doTicks fuel k = some k') :
    ∃ cells', Listed k'.clock cells' := by
  refine doTicks_invariant (fun k => ∃ cells, Listed k.clock cells) ?_ ⟨cells, listed⟩ ran
  rintro k fired t c ⟨cells, listed⟩ dequeued fires
  obtain ⟨rest, -, listed⟩ := Clock.dequeueAlarm_listed listed dequeued
  exact runTimer_listed listed fires

theorem catchSig_clock (k : Machine) (who : ProcNr) (signum : Nat) :
    (catchSig k who signum).clock = k.clock := by
  simp only [catchSig]
  split_ifs <;> rfl

theorem clock_closed : Closed exitProc fun k k' => k'.clock = k.clock :=
  ⟨fun first second => second.trans first, fun same => same.clock,
    fun ran => (exitProc_outlived ran).clock, fun _ => catchSig_clock _ _ _⟩

theorem clockHandler_listed (listed : Listed k.clock cells)
    (ran : clockHandler exitProc k = some k') : ∃ cells', Listed k'.clock cells' := by
  unfold clockHandler at ran
  split at ran
  · cases ran
  · rename_i cur _
    obtain ⟨ticked, ticking, ran⟩ := bind_eq_some_iff.mp ran
    have counted : Listed (account k cur).clock cells := by
      rw [(account_frame k cur).2.2.2]
      exact ⟨listed.chain, listed.inUse⟩
    obtain ⟨cells', listed'⟩ := doTicks_listed counted ticking
    exact ⟨cells', clock_closed.sched ran ▸ listed'⟩

end Ticks

/-! ### Runs -/

/-- What happens in a run. A process ends by `exit` or by a signal. -/
inductive TimerEvent
  | alarm (who : ProcNr) (message : Message)
  | csleep (who : ProcNr) (message : Message)
  | fork (who : ProcNr) (message : Message) (image : Option ChildImage)
  | vfork (who : ProcNr) (message : Message)
  | exit (who : ProcNr) (status : Word) (signum : Nat)
  | wait (who : ProcNr) (message : Message)
  | tick

/-- The handlers behind the events. -/
def timerStep (k : Machine) : TimerEvent → Option Machine
  | .alarm who message => serve doAlarm k who message
  | .csleep who message => serve doCsleep k who message
  | .fork who message image => serve (fun k who m => doFork k who m image) k who message
  | .vfork who message => serve doVfork k who message
  | .exit who status signum => exitProc k who status signum
  | .wait who message => serve (fun k who m => some (doWaitpid k who m)) k who message
  | .tick => clockHandler exitProc k

/-- The process that an event is an operation on. -/
def TimerEvent.subject : TimerEvent → Option ProcNr
  | .alarm who _ | .csleep who _ | .fork who .. | .vfork who _ | .exit who .. | .wait who _ => some who
  | .tick => none

/-- A process forks while neither its own timer nor the timer of the slot it takes is in use. -/
def Idle (k : Machine) : TimerEvent → Prop
  | .fork who .. | .vfork who _ => ∀ slot ∈ freeSlot k,
      (k.clock.timer (.alarm who)).inUse = false ∧ (k.clock.timer (.alarm slot)).inUse = false
  | _ => True

section Runs

variable {k k' : Machine} {cells : List TimerId}

theorem serve_listed {handler : Machine → ProcNr → Word → Option (Machine × Int)} {who : ProcNr}
    {message : Message} (listed : Listed k.clock cells)
    (handles : ∀ {called middle : Machine} {reply : Int}, Nudged k called →
      (called.procTable who).inUse = true → Listed called.clock cells →
      handler called who called.currMesg = some (middle, reply) →
      ∃ cells', Listed middle.clock cells' ∧ Spares who cells cells')
    (ran : serve handler k who message = some k') :
    ∃ cells', Listed k'.clock cells' ∧ Spares who cells cells' := by
  obtain ⟨used, middle, reply, handled, nudged⟩ := serve_handled ran
  have called := Nudged.takeUp k who message
  rw [← called.currMesg] at handled
  obtain ⟨cells', listed', spares⟩ := handles called ((called.inUse who).trans used)
    (called.clock ▸ listed) handled
  exact ⟨cells', nudged.clock ▸ listed', spares⟩

theorem spawned_listed {who : ProcNr} {called middle : Machine}
    (idle : ∀ slot ∈ freeSlot k, (k.clock.timer (.alarm who)).inUse = false ∧
      (k.clock.timer (.alarm slot)).inUse = false) (nudged : Nudged k called)
    (listed : Listed called.clock cells)
    (spawned : middle = called ∨ ∃ child, Spawned called who child middle) :
    ∃ cells', Listed middle.clock cells' ∧ Spares who cells cells' := by
  refine ⟨cells, ?_, fun _ member _ => member⟩
  rcases spawned with rfl | ⟨child, spawned⟩
  · exact listed
  · obtain ⟨parentIdle, slotIdle⟩ := idle child (nudged.freeSlot ▸ spawned.taken)
    rw [← nudged.clock] at parentIdle slotIdle
    exact spawned.listed listed parentIdle slotIdle

/-- **Every event keeps the list and the timers in use in step**, and the timers of others in it. -/
theorem timerStep_listed {event : TimerEvent} (listed : Listed k.clock cells) (idle : Idle k event)
    (ran : timerStep k event = some k') :
    ∃ cells', Listed k'.clock cells' ∧ ∀ who ∈ event.subject, Spares who cells cells' := by
  have ofCaller : ∀ {who : ProcNr}, event.subject = some who →
      (∃ cells', Listed k'.clock cells' ∧ Spares who cells cells') →
      ∃ cells', Listed k'.clock cells' ∧ ∀ who ∈ event.subject, Spares who cells cells' := by
    rintro who caller ⟨cells', listed', spares⟩
    refine ⟨cells', listed', fun other same => ?_⟩
    rw [caller] at same
    cases same
    exact spares
  unfold timerStep at ran
  cases event with
  | alarm who message =>
    exact ofCaller rfl (serve_listed listed (fun _ _ listed ran => doAlarm_listed listed ran) ran)
  | csleep who message =>
    exact ofCaller rfl (serve_listed listed (fun _ _ listed ran => doCsleep_listed listed ran) ran)
  | fork who message image =>
    exact ofCaller rfl (serve_listed listed (fun nudged used listed ran =>
      spawned_listed idle nudged listed (doFork_spawned used ran)) ran)
  | vfork who message =>
    exact ofCaller rfl (serve_listed listed (fun nudged used listed ran =>
      spawned_listed idle nudged listed (doVfork_spawned used ran)) ran)
  | exit who status signum =>
    exact ofCaller rfl ⟨cells, (exitProc_outlived ran).clock ▸ listed, fun _ member _ => member⟩
  | wait who message =>
    refine ofCaller rfl (serve_listed listed (fun {called middle _} _ _ listed ran => ?_) ran)
    refine ⟨cells, ?_, fun _ member _ => member⟩
    rw [← show (doWaitpid called who called.currMesg).1 = middle by rw [Option.some.inj ran],
      doWaitpid_clock]
    exact listed
  | tick =>
    obtain ⟨cells', listed'⟩ := clockHandler_listed listed ran
    exact ⟨cells', listed', nofun⟩

/-- The timers at the boot: the scheduler's own is pending, no other is in use. -/
structure BootTimers (c : Clock) : Prop where
  pending : c.pendingTimers = some .sched
  last : c.next .sched = none
  inUse : ∀ t, (c.timer t).inUse = true ↔ t = .sched

theorem BootTimers.listed {c : Clock} (boot : BootTimers c) : Listed c [.sched] :=
  ⟨⟨boot.pending, boot.last⟩, fun t => (boot.inUse t).trans mem_singleton.symm⟩

/-- **The timers in use are those in the list, each once**, in every state that a run with idle forks
reaches from the boot, and the next operation on a process leaves the timers of all others, and the
scheduler's, in the list. -/
theorem timers_listed_of_idle {events : List TimerEvent} (boot : BootTimers k.clock)
    (idle : Meets timerStep Idle k events) (ran : runFrom timerStep k events = some k') :
    ∃ cells, Listed k'.clock cells ∧ cells.Nodup ∧
      ∀ event k'', Idle k' event → timerStep k' event = some k'' →
        ∃ cells', Listed k''.clock cells' ∧ ∀ who ∈ event.subject, Spares who cells cells' := by
  obtain ⟨cells, listed⟩ := runFrom_invariant (fun k => ∃ cells, Listed k.clock cells)
    (fun _ _ _ ⟨_, listed⟩ idle ran =>
      let ⟨cells', listed', _⟩ := timerStep_listed listed idle ran
      ⟨cells', listed'⟩) events ⟨_, boot.listed⟩ idle ran
  exact ⟨cells, listed, listed.chain.nodup, fun event k'' idle ran => timerStep_listed listed idle ran⟩

instance (k : Machine) : ∀ event, Decidable (Idle k event)
  | .fork .. | .vfork .. => inferInstanceAs (Decidable (∀ slot ∈ freeSlot k, _))
  | .alarm .. | .csleep .. | .exit .. | .wait .. | .tick => isTrue trivial

/-- The clock at the boot. -/
def bootClock : Clock :=
  ⟨0, rebalanceTimeout, some .sched, fun
    | .sched => ⟨clock, rebalanceTimeout, none, .rebalanceQueues, true⟩
    | .alarm p => defaultTimer p⟩

theorem bootTimers_bootClock : BootTimers bootClock :=
  ⟨rfl, rfl, fun
    | .sched => iff_of_true rfl rfl
    | .alarm _ => iff_of_false Bool.false_ne_true nofun⟩

/-- The system task and process 1, with the clock of the boot. -/
def timerMachine : Machine := { stacked [0, 1] [] with clock := bootClock, currentProc := some 1 }

/-- Process 1 forks, both processes set an alarm, and the clock ticks. -/
def idleForks : List TimerEvent :=
  [.fork 1 ⟨0, 0, 0, 0, 0, 0, 0, 0⟩ (some ⟨imageBase 2, 0, id⟩), .alarm 2 ⟨0, 0, 1, 0, 0, 0, 0, 0⟩,
    .alarm 1 ⟨0, 0, 2, 0, 0, 0, 0, 0⟩, .tick]

/-- Both alarms are in the list. -/
theorem idleForks_listed : ∃ k', runFrom timerStep timerMachine idleForks = some k' ∧
    ∃ cells, Listed k'.clock cells ∧ cells.Nodup ∧ TimerId.alarm 1 ∈ cells ∧
      TimerId.alarm 2 ∈ cells := by
  obtain ⟨k', ran, one, two⟩ := exists_of_any (by decide +kernel :
    (runFrom timerStep timerMachine idleForks).any (fun k' =>
      decide ((k'.clock.timer (.alarm 1)).inUse = true ∧
        (k'.clock.timer (.alarm 2)).inUse = true)) = true)
  obtain ⟨cells, listed, nodup, -⟩ :=
    timers_listed_of_idle bootTimers_bootClock (by decide +kernel) ran
  exact ⟨k', ran, cells, listed, nodup, (listed.inUse _).mp one, (listed.inUse _).mp two⟩

/-- Process 1 sets an alarm and forks. -/
def alarmThenFork : List TimerEvent :=
  [.alarm 1 ⟨0, 0, 1, 0, 0, 0, 0, 0⟩, .fork 1 ⟨0, 0, 0, 0, 0, 0, 0, 0⟩ (some ⟨imageBase 2, 0, id⟩)]

/-- A child sleeps for ten ticks, is killed and reaped, and its slot is taken again. -/
def reuseSleeper : List TimerEvent :=
  [.fork 1 ⟨0, 0, 0, 0, 0, 0, 0, 0⟩ (some ⟨imageBase 2, 0, id⟩),
    .csleep 2 ⟨0, 0, 10, 0, 0, 0, 0, 0⟩, .exit 2 0 9, .wait 1 ⟨0, 0, -1, 0, 0, 0, 0, 0⟩,
    .fork 1 ⟨0, 0, 0, 0, 0, 0, 0, 0⟩ (some ⟨imageBase 2, 0, id⟩)]

theorem not_listed {c : Clock} {t : TimerId} (chain : Chain c.next c.pendingTimers cells)
    (used : (c.timer t).inUse = true) (outside : t ∉ cells) : ¬ ∃ cells, Listed c cells := by
  rintro ⟨cells', listed⟩
  rw [chain.unique listed.chain] at outside
  exact outside ((listed.inUse t).mp used)

/-- **A fork breaks the list of timers.** The child of a process with an alarm has a timer in use that
is not in the list. The slot of a process that was killed in its sleep is cleared while its timer is
the first of the list: the scheduler's timer is in the list no more. -/
theorem fork_breaks_timers :
    BootTimers timerMachine.clock ∧
    (∃ k', runFrom timerStep timerMachine alarmThenFork = some k' ∧
      (k'.clock.timer (.alarm 2)).inUse = true ∧
      Chain k'.clock.next k'.clock.pendingTimers [.sched, .alarm 1] ∧
      ¬ ∃ cells, Listed k'.clock cells) ∧
    ∃ k', runFrom timerStep timerMachine reuseSleeper = some k' ∧
      (k'.clock.timer .sched).inUse = true ∧
      Chain k'.clock.next k'.clock.pendingTimers [.alarm 2] ∧
      ¬ ∃ cells, Listed k'.clock cells := by
  refine ⟨bootTimers_bootClock, ?_, ?_⟩
  · obtain ⟨k', ran, used, first, second, last⟩ := exists_of_any (by decide +kernel :
      (runFrom timerStep timerMachine alarmThenFork).any (fun k' =>
        decide ((k'.clock.timer (.alarm 2)).inUse = true ∧ k'.clock.pendingTimers = some .sched ∧
          k'.clock.next .sched = some (.alarm 1) ∧ k'.clock.next (.alarm 1) = none)) = true)
    have chain : Chain k'.clock.next k'.clock.pendingTimers [.sched, .alarm 1] :=
      ⟨first, second, last⟩
    exact ⟨k', ran, used, chain, not_listed chain used (by decide)⟩
  · obtain ⟨k', ran, used, first, last⟩ := exists_of_any (by decide +kernel :
      (runFrom timerStep timerMachine reuseSleeper).any (fun k' =>
        decide ((k'.clock.timer .sched).inUse = true ∧ k'.clock.pendingTimers = some (.alarm 2) ∧
          k'.clock.next (.alarm 2) = none)) = true)
    have chain : Chain k'.clock.next k'.clock.pendingTimers [.alarm 2] := ⟨first, last⟩
    exact ⟨k', ran, used, chain, not_listed chain used (by decide)⟩

end Runs

end Winix.Kernel
