/-
**Replies to system calls.**

A process that makes a system call has `STATE_RECEIVING` set until a message arrives in its buffer.
Nothing records whom it waits for. A `Ledger` beside the machine does: which processes wait in a
`WINIX_SENDREC` to the system task, with which buffer, and how many such calls each has made.

A run is any sequence of the kernel's operations (`Action`): the running process computes or traps,
the scheduler dispatches, the clock ticks, the system task takes up a request, a reply is issued for
one of the calls of a process, system calls suspend and resume processes, and signals stop, continue
or interrupt them. Every process that is taken out of such a call, other than into a signal handler
or back from one, is written down (`Resumed`).

* **`replies_authentic`**: in every run that is `Proper`, every process is resumed by the reply to the
  call it waits in, its buffer and its result register hold that reply, and no reply to a stopped
  process is lost. The last (`NotLost`) is so because `Proper` allows no reply to a stopped process at
  all. For which call a reply is issued the code does not record: the label of `Action.reply` says
  so, and that it is the right one for a reply that is delivered is part of the condition
  (`ProperReply`).
* `do_send` looks at `STATE_RECEIVING` only, so a message of another process is taken for the reply;
  `do_notify` wants no other flag to be set, so the reply to a stopped process stays pending, and it
  is not looked for when the process goes on (`forged_and_lost`).
-/

import Winix.Kernel.Rendezvous
import Winix.Kernel.Sigcalls

namespace Winix.Kernel

open Lib Function Machine Option

/-! ### The operations of the kernel -/

/-- The flags with which system calls and the end of a process keep it from running. -/
inductive Suspension
  | waiting | pausing | vforking | killed | zombie
  deriving DecidableEq, Repr

/-- The flag of a process that is suspended. -/
def Suspension.flag : Suspension → StateFlag
  | .waiting => .waiting
  | .pausing => .pausing
  | .vforking => .vforking
  | .killed => .killed
  | .zombie => .zombie

/-- The operations of the kernel. -/
inductive Action
  | compute (regs : Nat → Word) (sp : Word) (stores : List (Word × Word))
  | trap
  | dispatch
  | tick
  /-- `syscall_region_begin`: the system task takes up a request. -/
  | begin (who : ProcNr)
  /-- `syscall_reply2(…, result, dest, m)`, issued for this call of the process. -/
  | reply (call : Nat) (result : Int) (dest : ProcNr) (m : Word)
  | suspend (who : ProcNr) (why : Suspension)
  | resume (who : ProcNr) (why : Suspension)
  /-- The default action of `SIGSTOP` and `SIGTSTP`. -/
  | stop (who : ProcNr) (signum : Nat)
  /-- The default action of `SIGCONT`. -/
  | cont (who : ProcNr)
  /-- A signal that is caught, by the process the scheduler has picked or, if `blocked`, by one that
  `sys_kill` makes ready. -/
  | interrupt (who : ProcNr) (signum : Nat) (blocked : Bool)
  /-- `do_sigreturn` up to its reply: the process goes back to the context before the handler. -/
  | sigreturn (who : ProcNr) (signum : Nat)

section

variable (k : Machine)

/-- The process whose context is loaded: `sched` does not leave its loop before `current_proc`, an
entry of the process table, has no state flag. -/
def running : Option ProcNr :=
  k.currentProc.filter fun cur => cur ∈ procSlots ∧ (k.procTable cur).state = runnable

/-- One turn of the loop of `sched`, and its end if the process picked can run; acting on a signal
is an operation of its own. -/
def dispatch : Option Machine :=
  (pickProc (requeue k)).map fun (p, k) =>
    let k := { k with currentProc := some p }
    if (k.procTable p).state = runnable then refill k else k

/-- What `SIGSTOP` does to the process. -/
def stopProc (who : ProcNr) (signum : Nat) : Option Machine :=
  dequeueSchedule (k.updateProc who fun p =>
    { p with state := raise p.state .stopped, sigStatus := BitVec.ofNat 32 signum }) who

/-- What `SIGCONT` does to the process. -/
def contProc (who : ProcNr) : Machine :=
  if has (k.procTable who).state .stopped then
    enqueueSchedule (k.updateProc who fun p => { p with state := lower p.state .stopped }) who
  else k

/-- A process that waits in a system call again has no other flag left, so that the reply `EINTR`
reaches it. -/
def goOn (who : ProcNr) (signum : Nat) : Machine :=
  if has (k.procTable who).state .receiving then
    k.updateProc who fun p => { p with state := raise runnable .receiving }
  else if signum ≠ sigabrt ∧ (k.procTable who).state = runnable then enqueueSchedule k who
  else k

/-- What `do_sigreturn` does to the process. -/
def doSigreturn (who : ProcNr) (signum : Nat) : Machine :=
  goOn (takeBack k who) who signum

/-- One operation. -/
def operate : Action → Option Machine
  | .compute regs sp stores => (running k).bind fun _ => compute k regs sp stores
  | .trap => (running k).bind fun cur => trap k cur
  | .dispatch => dispatch k
  | .tick => k.currentProc.map fun cur => account k cur
  | .begin who => some (expectReply k who)
  | .reply _ result dest m => (syscallReply2 k result dest m).map Prod.fst
  | .suspend who why => some (k.updateProc who fun p => { p with state := raise p.state why.flag })
  | .resume who why => some (k.updateProc who fun p => { p with state := lower p.state why.flag })
  | .stop who signum => stopProc k who signum
  | .cont who => some (contProc k who)
  | .interrupt who signum blocked =>
    let k := catchSig k who signum
    some (if blocked then enqueueSchedule k who else k)
  | .sigreturn who signum => some (doSigreturn k who signum)

end

/-! ### The ledger -/

/-- Of every process: the system calls it has made, the buffer of the one it waits in, and whether
the reply to it was issued while the process was stopped. -/
structure Ledger where
  made : ProcNr → Nat
  waiting : ProcNr → Option Word
  owed : ProcNr → Bool

/-- Nobody has made a system call. -/
def Ledger.empty : Ledger := ⟨fun _ => 0, fun _ => none, fun _ => false⟩

/-- The running process is about to make a system call with this buffer. -/
def asks (k : Machine) : Option (ProcNr × Word) :=
  (running k).bind fun cur =>
    let t := (decode k cur).2
    if t.operation = winixSendrec ∧ t.dest = system then some (cur, t.message) else none

/-- The processes that have `STATE_RECEIVING` still wait. -/
def Ledger.settle (l : Ledger) (k : Machine) : Ledger :=
  { l with waiting := fun p => if has (k.procTable p).state .receiving then l.waiting p else none }

/-- A process waits in a new call. -/
def Ledger.enter (l : Ledger) (p : ProcNr) (buffer : Word) : Ledger where
  made := update l.made p (l.made p + 1)
  waiting := update l.waiting p (some buffer)
  owed := update l.owed p false

/-- A process that waited in `sigreturn` waits, if at all, with the buffer it is given back. -/
def Ledger.rejoin (l : Ledger) (p : ProcNr) (buffer : Word) : Ledger :=
  { l with waiting := update l.waiting p ((l.waiting p).map fun _ => buffer) }

/-- The ledger after an operation that took the machine from `k` to `k'`. -/
def Ledger.record (l : Ledger) (k k' : Machine) : Action → Ledger
  | .trap =>
    match asks k with
    | some (cur, buffer) =>
      if has (k'.procTable cur).state .receiving then (l.settle k').enter cur buffer
      else l.settle k'
    | none => l.settle k'
  | .reply _ _ dest _ =>
    if (l.waiting dest).isSome && has (k.procTable dest).state .stopped then
      { l.settle k' with owed := update l.owed dest true }
    else l.settle k'
  | .sigreturn who _ => (l.settle k').rejoin who (k'.procTable who).message
  | _ => l.settle k'

/-! ### What is observed -/

/-- The message a reply carries: `*m` with the result, which `set_reply_res_errno` replaces for a
direct system call that fails. -/
def replyMessage (k : Machine) (dest : ProcNr) (result : Int) (m : Word) : Message :=
  readMessage (finishDirect (k.poke (m + 1) (BitVec.ofInt 32 result)) dest m).memory m

/-- The reply an operation issues to this process. -/
def Action.replyTo (k : Machine) (p : ProcNr) : Action → Option (Nat × Message)
  | .reply call result dest m => if dest = p then some (call, replyMessage k p result m) else none
  | _ => none

/-- The operation gives the process the context of a signal handler, or the one from before. -/
def Action.switches (p : ProcNr) : Action → Bool
  | .interrupt who _ _ => who = p
  | .sigreturn who _ => who = p
  | _ => false

/-- A process that waited in a system call can go on after it. -/
structure Resumed where
  who : ProcNr
  /-- Which of its system calls it is. -/
  call : Nat
  /-- The reply that is being issued to the process, and for which call. -/
  reply : Option (Nat × Message)
  /-- What the buffer and the register of the result hold. -/
  contents : Message
  register : Word
  deriving DecidableEq

/-- The processes an operation takes out of their system calls. -/
def resumed (l : Ledger) (k k' : Machine) (action : Action) : List Resumed :=
  procSlots.filterMap fun p =>
    match l.waiting p with
    | none => none
    | some buffer =>
      if has (k'.procTable p).state .receiving || action.switches p then none
      else some ⟨p, l.made p, action.replyTo k p, readMessage k'.memory buffer,
        (k'.procTable p).ctx.regs 0⟩

/-- One operation, with the ledger. -/
def callStep (s : Machine × Ledger) (action : Action) : Option (Machine × Ledger) :=
  (operate s.1 action).map fun k' => (k', s.2.record s.1 k' action)

/-- The processes that an action resumes. -/
def callSeen (s : Machine × Ledger) (action : Action) : List Resumed :=
  match operate s.1 action with
  | none => []
  | some k' => resumed s.2 s.1 k' action

/-- The process goes on by the reply to the call it waited in, and has it. -/
def Resumed.Authentic (e : Resumed) : Prop :=
  ∃ message, e.reply = some (e.call, message) ∧ e.contents = message ∧ e.register = message.type

/-- A process to which a reply was issued while it was stopped has got it, or is still stopped. -/
def NotLost (k : Machine) (l : Ledger) : Prop :=
  ∀ p, (l.waiting p).isSome → l.owed p = true → has (k.procTable p).state .stopped = true

/-! ### The condition -/

/-- The trap delivers nothing to a process that waits for the system task. -/
def ProperTrap (k : Machine) (l : Ledger) (cur : ProcNr) (t : Trap) : Prop :=
  (l.waiting t.dest).isSome →
    (t.operation = winixSendrec →
      deadlocks (sendState k cur true t.message) cur t.dest ≠ some false) ∧
    (t.operation = winixSend →
      deadlocks (sendState k cur false t.message) cur t.dest ≠ some false) ∧
    (t.operation = winixNotify → (k.procTable t.dest).state ≠ raise runnable .receiving)

instance (k : Machine) (l : Ledger) (cur : ProcNr) (t : Trap) : Decidable (ProperTrap k l cur t) :=
  inferInstanceAs (Decidable ((l.waiting t.dest).isSome = true → _))

/-- A reply to a process that waits is issued while it is not stopped and, if it is delivered, for
the call it waits in, with a message whose result its buffer does not overwrite. -/
def ProperReply (k : Machine) (l : Ledger) (call : Nat) (dest : ProcNr) (m : Word) : Prop :=
  ∀ buffer ∈ l.waiting dest,
    has (k.procTable dest).state .stopped = false ∧
    ((k.procTable dest).state = raise runnable .receiving →
      call = l.made dest ∧ (InBuffer buffer (m + 1) → buffer = m))

-- the instance for all words of 32 bits would be found first
instance (k : Machine) (l : Ledger) (call : Nat) (dest : ProcNr) (m : Word) :
    Decidable (ProperReply k l call dest m) :=
  match found : l.waiting dest with
  | none => isTrue fun buffer member => by cases found.symm.trans member
  | some buffer =>
    decidable_of_iff (has (k.procTable dest).state .stopped = false ∧
      ((k.procTable dest).state = raise runnable .receiving →
        call = l.made dest ∧ (InBuffer buffer (m + 1) → buffer = m)))
      (by simp [ProperReply, found])

/-- The operation neither forges a reply nor loses one. -/
def Proper (s : Machine × Ledger) : Action → Prop
  | .trap => ∀ cur ∈ running s.1, ProperTrap (fetch s.1 cur) s.2 cur (decode s.1 cur).2
  | .reply call _ dest m => ProperReply s.1 s.2 call dest m
  | _ => True

instance (s : Machine × Ledger) : ∀ action, Decidable (Proper s action)
  | .trap => inferInstanceAs (Decidable (∀ cur ∈ running s.1, _))
  | .reply call _ dest m => inferInstanceAs (Decidable (ProperReply s.1 s.2 call dest m))
  | .compute .. | .dispatch | .tick | .begin _ | .suspend .. | .resume .. | .stop .. | .cont _
  | .interrupt .. | .sigreturn .. => isTrue trivial

/-! ### What the operations do to a call -/

/-- What a waiting process depends on: `STATE_RECEIVING` and its buffer. -/
def Proc.call (p : Proc) : Bool × Word := (has p.state .receiving, p.message)

theorem call_of_sameIpc {k k' : Machine} (same : SameIpc k k') (p : ProcNr) :
    (k'.procTable p).call = (k.procTable p).call :=
  same.field Proc.call (fun _ => rfl) p

section Calls

variable {k k' : Machine} {cur p pDest : ProcNr} {m : Word} {t : Trap}

theorem fetch_call : ((fetch k cur).procTable p).call = (k.procTable p).call :=
  fetch_field Proc.call (fun _ _ _ => rfl) p

theorem setRetval_call (value : Int) :
    ((setRetval k cur value).procTable p).call = (k.procTable p).call :=
  updateProc_field Proc.call rfl p

theorem sendState_call (reply : Bool) (other : p ≠ cur) :
    ((sendState k cur reply m).procTable p).call = (k.procTable p).call := by
  rw [sendState, saveMessage, updateProc_of_ne other]
  split_ifs
  · rw [expectReply, updateProc_of_ne other]
  · rfl

theorem handOver_procTable (other : p ≠ pDest) : (handOver k pDest m).procTable p = k.procTable p := by
  rw [handOver, updateProc_of_ne other, updateProc_of_ne other, copyMessage_procTable]

theorem deliver_call (other : p ≠ pDest) :
    ((deliver k pDest m).procTable p).call = (k.procTable p).call := by
  rw [deliver, call_of_sameIpc (enqueueHead_sameIpc _ _ _), handOver_procTable other]

theorem block_call (other : p ≠ cur) :
    ((block k cur pDest).procTable p).call = (k.procTable p).call := by
  rw [Proc.call, Proc.call, block_message, block_state, if_neg other]

theorem takeFrom_call {q : ProcNr} :
    ((takeFrom k cur q m).procTable p).call = (k.procTable p).call := by
  have receiving : has ((collect k cur q m).procTable p).state .receiving =
      has (k.procTable p).state .receiving := by
    rw [collect_state]
    split_ifs
    · exact has_lower_of_ne _ (by decide)
    · rfl
  rw [Proc.call, Proc.call, takeFrom_message, (takeFrom_sameIpc k cur q m).state, receiving]

theorem OnlyLinks.call (same : OnlyLinks k k') : (k'.procTable p).call = (k.procTable p).call := by
  obtain ⟨links, rfl⟩ := same
  rfl

theorem finishDirect_call : ((finishDirect k pDest m).procTable p).call = (k.procTable p).call := by
  have errno : (setReplyResErrno k pDest m).procTable = k.procTable := by
    simp only [setReplyResErrno]
    split_ifs <;> rfl
  unfold finishDirect
  split_ifs
  · rw [updateProc_field Proc.call rfl p, errno]
  · rfl

/-- A notification either delivers, or leaves every call alone but the source's. -/
theorem doNotify_call {src dest result : Int} (ran : doNotify k src dest m = some (k', result))
    (notSource : p ≠ src)
    (undelivered : dest = p → (k.procTable dest).state ≠ raise runnable .receiving) :
    (k'.procTable p).call = (k.procTable p).call := by
  cases doNotify_notified ran with
  | nobody => rfl
  | killed => rfl
  | delivered pDest found exactly =>
    obtain ⟨rfl, -, -⟩ := getProc_eq_some.mp found
    have other : p ≠ pDest := fun same => undelivered same.symm exactly
    rw [deliver_call other, finishDirect_call]
  | pending pDest pSrc found source busy =>
    obtain ⟨rfl, -, -⟩ := getProc_eq_some.mp source
    rw [(listAdd_onlyLinks _ _ _).call, saveMessage, updateProc_of_ne notSource]

/-- **A trap leaves the call of a waiting process alone.** -/
theorem perform_call {l : Ledger} (ran : perform k cur t = some k') (other : p ≠ cur)
    (stamped : (k.memory t.message).toInt = cur) (waiting : (l.waiting p).isSome)
    (proper : ProperTrap k l cur t) : (k'.procTable p).call = (k.procTable p).call := by
  cases perform_performed ran with
  | refused reply result =>
    rw [updateProc_of_ne other, setRetval_call, sendState_call reply other]
  | delivered reply pDest operation _ found agreed _ =>
    obtain ⟨rfl, -, -⟩ := getProc_eq_some.mp found
    have notDest : p ≠ t.dest := by
      rintro rfl
      obtain ⟨sendrec, send, -⟩ := proper waiting
      cases reply with
      | true => exact sendrec operation agreed
      | false => exact send operation agreed
    rw [setRetval_call, deliver_call notDest, sendState_call reply other]
  | blocked reply pDest =>
    rw [setRetval_call, block_call other, sendState_call reply other]
  | took q => rw [setRetval_call, takeFrom_call]
  | waits =>
    rw [setRetval_call, await, updateProc_of_ne other, saveMessage, updateProc_of_ne other]
  | noticed q => rw [setRetval_call, copyMessage_procTable, (listDel_onlyLinks _ _).call]
  | notified after result operation done =>
    rw [setRetval_call]
    refine doNotify_call done (stamped ▸ other) fun same => ?_
    exact (proper (same ▸ waiting)).2.2 operation
  | unknown => exact setRetval_call _

theorem deliver_state_self :
    ((deliver k pDest m).procTable pDest).state = lower (k.procTable pDest).state .receiving := by
  rw [deliver, (enqueueHead_sameIpc _ _ _).state, handOver, updateProc_field Proc.state rfl,
    updateProc_same, copyMessage_procTable]

theorem sendState_receiving_self :
    has ((sendState k cur true m).procTable cur).state .receiving = true := by
  rw [sendState, saveMessage, updateProc_field Proc.state rfl, if_pos rfl, expectReply, updateProc_same]
  exact has_raise_self _ _

/-- The buffer of a system call that waits is the one it was made with, and the system task does
not call itself. -/
theorem perform_enters (ran : perform k cur t = some k') (sendrec : t.operation = winixSendrec)
    (toSystem : t.dest = system) (waits : has (k'.procTable cur).state .receiving = true) :
    (k'.procTable cur).message = t.message ∧ cur ≠ system := by
  cases perform_performed ran with
  | refused reply result =>
    rw [updateProc_same] at waits
    simp at waits
  | delivered reply pDest operation _ found _ _ =>
    obtain ⟨rfl, -, -⟩ := getProc_eq_some.mp found
    refine ⟨?_, fun same => ?_⟩
    · rw [setRetval, updateProc_field Proc.message rfl, deliver_message, sendState_message_self]
    · -- a message to itself would have ended the wait
      rw [setRetval, updateProc_field Proc.state rfl, toSystem, ← same, deliver_state_self] at waits
      simp at waits
  | blocked reply pDest operation _ found busy =>
    obtain ⟨rfl, -, -⟩ := getProc_eq_some.mp found
    refine ⟨?_, fun same => ?_⟩
    · rw [setRetval, updateProc_field Proc.message rfl, block_message, sendState_message_self]
    · cases reply with
      | true =>
        rw [toSystem, ← same, sendState_receiving_self] at busy
        cases busy
      | false =>
        rw [sendrec] at operation
        exact absurd operation (by decide)
  | took q operation => exact absurd (sendrec.symm.trans operation) (by decide)
  | waits operation => exact absurd (sendrec.symm.trans operation) (by decide)
  | noticed q operation => exact absurd (sendrec.symm.trans operation) (by decide)
  | notified after result operation => exact absurd (sendrec.symm.trans operation) (by decide)
  | unknown send => exact absurd sendrec send.1

/-- The word with the source of the message is stamped with the caller. -/
theorem fetch_stamped (inTable : cur ∈ procSlots) :
    ((fetch k cur).memory (decode k cur).2.message).toInt = cur := by
  have stamped : (fetch k cur).memory (decode k cur).2.message = BitVec.ofInt 32 cur :=
    update_self ..
  rw [stamped]
  simp only [procSlots, List.mem_cons, List.not_mem_nil, or_false] at inTable
  rcases inTable with rfl | rfl | rfl | rfl | rfl | rfl | rfl | rfl | rfl | rfl <;> decide

end Calls

/-! ### Operations other than traps and replies -/

theorem dispatch_sameIpc {k k' : Machine} (ran : dispatch k = some k') : SameIpc k k' := by
  obtain ⟨⟨p, picked⟩, found, rfl⟩ := map_eq_some_iff.mp ran
  have same := (requeue_sameIpc k).trans (pickProc_sameIpc found).1
  have chosen : SameIpc picked { picked with currentProc := some p } := ⟨rfl, fun _ => rfl⟩
  dsimp only
  split_ifs
  · exact (same.trans chosen).trans (refill_sameIpc _)
  · exact same.trans chosen

theorem doSigreturn_call {k : Machine} {who p : ProcNr} (other : p ≠ who) (signum : Nat) :
    ((doSigreturn k who signum).procTable p).call = (k.procTable p).call := by
  have taken : (takeBack k who).procTable p = k.procTable p := updateProc_of_ne other
  unfold doSigreturn goOn
  split_ifs
  · rw [updateProc_of_ne other, taken]
  · rw [call_of_sameIpc (enqueueSchedule_sameIpc _ _), taken]
  · rw [taken]

/-- A change of one process that keeps its buffer and `STATE_RECEIVING`. -/
theorem updateProc_call {k : Machine} {who : ProcNr} {change : Proc → Proc}
    (message : (change (k.procTable who)).message = (k.procTable who).message)
    (receiving : has (change (k.procTable who)).state .receiving =
      has (k.procTable who).state .receiving) (p : ProcNr) :
    ((k.updateProc who change).procTable p).call = (k.procTable p).call :=
  updateProc_field Proc.call (by rw [Proc.call, Proc.call, message, receiving]) p

theorem Suspension.flag_ne (why : Suspension) : why.flag ≠ .receiving := by
  cases why <;> decide

/-! ### Every operation -/

/-- Every process that waits has `STATE_RECEIVING` and the buffer it called with. -/
structure CallInv (k : Machine) (l : Ledger) : Prop where
  call : ∀ p buffer, l.waiting p = some buffer → (k.procTable p).call = (true, buffer)
  user : ∀ p, (l.waiting p).isSome → p ≠ system
  paid : ∀ p, l.owed p = false

section Operations

variable {k k' : Machine} {l : Ledger} {p cur : ProcNr} {action : Action}
variable {buffer : Word}

theorem running_eq_some (found : running k = some cur) :
    k.currentProc = some cur ∧ cur ∈ procSlots ∧ (k.procTable cur).state = runnable := by
  obtain ⟨current, able⟩ := filter_eq_some_iff.mp found
  exact ⟨current, by simpa using able⟩

theorem CallInv.not_running (inv : CallInv k l) (waiting : (l.waiting p).isSome)
    (found : running k = some cur) : p ≠ cur := by
  rintro rfl
  obtain ⟨buffer, buffered⟩ := isSome_iff_exists.mp waiting
  have call := inv.call p buffer buffered
  rw [Proc.call, (running_eq_some found).2.2, has_runnable] at call
  cases call

/-- **Only a reply or a signal handler takes a process out of its call.** -/
theorem operate_call (inv : CallInv k l) (proper : Proper (k, l) action)
    (ran : operate k action = some k') (waiting : (l.waiting p).isSome)
    (noReply : action.replyTo k p = none) (stays : action.switches p = false) :
    (k'.procTable p).call = (k.procTable p).call := by
  cases action with
  | compute regs sp stores =>
    obtain ⟨cur, -, ran⟩ := bind_eq_some_iff.mp ran
    exact (compute_frame ran).2 Proc.call (fun _ _ => rfl) p
  | trap =>
    obtain ⟨cur, found, ran⟩ := bind_eq_some_iff.mp ran
    have kept := perform_call ran (inv.not_running waiting found)
      (fetch_stamped (running_eq_some found).2.1) waiting (proper cur found)
    exact kept.trans fetch_call
  | dispatch => exact call_of_sameIpc (dispatch_sameIpc ran) p
  | tick =>
    obtain ⟨cur, -, rfl⟩ := map_eq_some_iff.mp ran
    exact call_of_sameIpc (account_sameIpc k cur) p
  | begin who =>
    cases ran
    by_cases same : p = who
    · subst same
      obtain ⟨buffer, buffered⟩ := isSome_iff_exists.mp waiting
      have receiving := congrArg Prod.fst (inv.call p buffer buffered)
      refine updateProc_call rfl ?_ p
      exact (has_raise_self _ _).trans receiving.symm
    · rw [expectReply, updateProc_of_ne same]
  | reply call result dest m =>
    obtain ⟨⟨after, returned⟩, did, same⟩ := map_eq_some_iff.mp ran
    cases same
    unfold syscallReply2 at did
    split at did
    · cases did
      rfl
    · have kept := doNotify_call did (inv.user p waiting) fun same => by
        simp [Action.replyTo, same] at noReply
      exact kept
  | suspend who why =>
    cases ran
    exact updateProc_call rfl (has_raise_of_ne _ why.flag_ne.symm) p
  | resume who why =>
    cases ran
    exact updateProc_call rfl (has_lower_of_ne _ why.flag_ne.symm) p
  | stop who signum =>
    exact (call_of_sameIpc (Requeued.dequeueSchedule ran).sameIpc p).trans
      (updateProc_call rfl (has_raise_of_ne _ (by decide)) p)
  | cont who =>
    cases ran
    unfold contProc
    split_ifs
    · exact (call_of_sameIpc (enqueueSchedule_sameIpc _ _) p).trans
        (updateProc_call rfl (has_lower_of_ne _ (by decide)) p)
    · rfl
  | interrupt who signum blocked =>
    cases ran
    have other : p ≠ who := fun same => by
      rw [Action.switches, decide_eq_false_iff_not] at stays
      exact stays same.symm
    cases blocked
    · exact congrArg Proc.call (catchSig_of_ne other signum)
    · exact (call_of_sameIpc (enqueueSchedule_sameIpc _ _) p).trans
        (congrArg Proc.call (catchSig_of_ne other signum))
  | sigreturn who signum =>
    cases ran
    have other : p ≠ who := fun same => by
      rw [Action.switches, decide_eq_false_iff_not] at stays
      exact stays same.symm
    exact doSigreturn_call other signum

theorem deliver_register (m : Word) :
    ((deliver k p m).procTable p).ctx.regs 0 =
      writeMessage k.memory (k.procTable p).message (readMessage k.memory m) (m + 1) := by
  have register := (enqueueHead_sameIpc (handOver k p m)
    ((handOver k p m).procTable p).priority p).field (fun q => q.ctx.regs 0) (fun _ => rfl) p
  rw [deliver, register, handOver, updateProc_same]
  simp only [Proc.setResult]
  rfl

/-- The result is read from the message after the copy, which must not have changed it. -/
theorem result_of_apart {memory : Memory} {buffer m : Word}
    (apart : InBuffer buffer (m + 1) → buffer = m) :
    writeMessage memory buffer (readMessage memory m) (m + 1) = (readMessage memory m).type := by
  by_cases inside : InBuffer buffer (m + 1)
  · rw [apart inside, writeMessage_readMessage]
    rfl
  · rw [writeMessage_of_not_inBuffer inside]
    rfl

/-- **A reply to a waiting process** that is not stopped: the process still waits, or it has the
reply. -/
theorem reply_delivers {call : Nat} {result : Int} {m buffer : Word} (inv : CallInv k l)
    (proper : ProperReply k l call p m) (waiting : l.waiting p = some buffer)
    (ran : operate k (.reply call result p m) = some k') :
    (k'.procTable p).call = (k.procTable p).call ∨
      has (k'.procTable p).state .receiving = false ∧ call = l.made p ∧
        readMessage k'.memory buffer = replyMessage k p result m ∧
        (k'.procTable p).ctx.regs 0 = (replyMessage k p result m).type := by
  obtain ⟨⟨after, returned⟩, did, same⟩ := map_eq_some_iff.mp ran
  cases same
  have isWaiting : (l.waiting p).isSome := by rw [waiting]; rfl
  unfold syscallReply2 at did
  split at did
  · cases did
    exact .inl rfl
  · rename_i pDest found
    by_cases exactly : (k.procTable p).state = raise runnable .receiving
    · right
      obtain ⟨same, apart⟩ := (proper buffer waiting).2 exactly
      have pointer : ((finishDirect (k.poke (m + 1) (BitVec.ofInt 32 result)) p m).procTable
          p).message = buffer := by
        have kept : ((finishDirect (k.poke (m + 1) (BitVec.ofInt 32 result)) p m).procTable
            p).call = (k.procTable p).call := finishDirect_call
        exact (congrArg Prod.snd kept).trans (congrArg Prod.snd (inv.call p buffer waiting))
      cases doNotify_notified did with
      | nobody absent =>
        rw [show getProc (k.poke (m + 1) (BitVec.ofInt 32 result)) p = getProc k p from rfl,
          found] at absent
        cases absent
      | killed pDest found dying =>
        obtain ⟨rfl, -, -⟩ := getProc_eq_some.mp found
        rw [poke_procTable, exactly] at dying
        exact absurd dying (by decide)
      | delivered pDest found _ =>
        obtain ⟨rfl, -, -⟩ := getProc_eq_some.mp found
        refine ⟨?_, same, ?_, ?_⟩
        · rw [deliver_state_self]
          simp
        · rw [deliver_memory, pointer, readMessage_writeMessage, replyMessage]
        · rw [deliver_register, pointer]
          exact result_of_apart apart
      | pending pDest pSrc found source busy =>
        obtain ⟨rfl, -, -⟩ := getProc_eq_some.mp found
        exact absurd exactly busy
    · have kept := doNotify_call did (inv.user p isWaiting) fun _ => exactly
      exact .inl kept

theorem settle_waiting : (l.settle k').waiting p = some buffer ↔
    has (k'.procTable p).state .receiving = true ∧ l.waiting p = some buffer := by
  simp [Ledger.settle]

theorem enter_waiting : (l.enter cur buffer).waiting p = if p = cur then some buffer else l.waiting p :=
  update_apply ..

theorem rejoin_waiting : (l.rejoin cur buffer).waiting p =
    if p = cur then (l.waiting cur).map fun _ => buffer else l.waiting p :=
  update_apply ..

/-- A process that waits after an operation waited before it, has made a call by it, or is back from
a signal handler. -/
theorem record_waiting (after : (l.record k k' action).waiting p = some buffer) :
    has (k'.procTable p).state .receiving = true ∧
      (l.waiting p = some buffer ∨ action = .trap ∧ asks k = some (p, buffer) ∨
        (∃ signum, action = .sigreturn p signum) ∧ (l.waiting p).isSome ∧
          buffer = (k'.procTable p).message) := by
  cases action with
  | trap =>
    simp only [Ledger.record] at after
    split at after
    · rename_i cur called asked
      split_ifs at after with entered
      · by_cases same : p = cur
        · subst same
          rw [enter_waiting, if_pos rfl] at after
          cases after
          exact ⟨entered, .inr (.inl ⟨rfl, asked⟩)⟩
        · rw [enter_waiting, if_neg same] at after
          exact (settle_waiting.mp after).imp_right .inl
      · exact (settle_waiting.mp after).imp_right .inl
    · exact (settle_waiting.mp after).imp_right .inl
  | reply call result dest m =>
    simp only [Ledger.record] at after
    split_ifs at after
    all_goals exact (settle_waiting.mp after).imp_right .inl
  | sigreturn who signum =>
    by_cases same : p = who
    · subst same
      rw [Ledger.record, rejoin_waiting, if_pos rfl] at after
      obtain ⟨former, before, rfl⟩ := map_eq_some_iff.mp after
      obtain ⟨receiving, before⟩ := settle_waiting.mp before
      exact ⟨receiving, .inr (.inr ⟨⟨signum, rfl⟩, by rw [before]; rfl, rfl⟩)⟩
    · rw [Ledger.record, rejoin_waiting, if_neg same] at after
      exact (settle_waiting.mp after).imp_right .inl
  | _ => exact (settle_waiting.mp after).imp_right .inl

theorem asks_eq_some (asked : asks k = some (p, buffer)) :
    running k = some p ∧ (decode k p).2.operation = winixSendrec ∧
      (decode k p).2.dest = system ∧ (decode k p).2.message = buffer := by
  obtain ⟨cur, found, asked⟩ := bind_eq_some_iff.mp asked
  dsimp only at asked
  split_ifs at asked with sendrec
  cases asked
  exact ⟨found, sendrec.1, sendrec.2, rfl⟩

/-- **A process that waits before and after an operation** other than a return from a signal handler
waits with the same buffer. -/
theorem operate_keeps (inv : CallInv k l) (proper : Proper (k, l) action)
    (ran : operate k action = some k') (before : l.waiting p = some buffer)
    (receiving : has (k'.procTable p).state .receiving = true)
    (back : ∀ signum, action ≠ .sigreturn p signum) :
    (k'.procTable p).call = (k.procTable p).call := by
  have waiting : (l.waiting p).isSome := by rw [before]; rfl
  cases replied : action.replyTo k p with
  | none =>
    cases stays : action.switches p with
    | false => exact operate_call inv proper ran waiting replied stays
    | true =>
      cases action with
      | interrupt who signum blocked =>
        obtain rfl : who = p := of_decide_eq_true stays
        cases ran
        cases blocked
        · rw [if_neg Bool.false_ne_true, catchSig_state, has_runnable] at receiving
          cases receiving
        · rw [if_pos rfl, (enqueueSchedule_sameIpc _ _).state, catchSig_state,
            has_runnable] at receiving
          cases receiving
      | sigreturn who signum =>
        obtain rfl : who = p := of_decide_eq_true stays
        exact absurd rfl (back signum)
      | _ => cases stays
  | some issued =>
    cases action with
    | reply call result dest m =>
      simp only [Action.replyTo] at replied
      split_ifs at replied with same
      subst same
      obtain kept | ⟨ended, -⟩ := reply_delivers inv proper before ran
      · exact kept
      · rw [ended] at receiving
        cases receiving
    | _ => cases replied

theorem enter_owed : (l.enter cur buffer).owed p = if p = cur then false else l.owed p :=
  update_apply ..

/-- A reply that is issued properly is not owed afterwards, nor is any other. -/
theorem record_owed (proper : Proper (k, l) action) (paid : l.owed p = false) :
    (l.record k k' action).owed p = false := by
  cases action with
  | trap =>
    simp only [Ledger.record]
    split
    · split_ifs
      · rw [enter_owed]
        split_ifs
        · rfl
        · exact paid
      · exact paid
    · exact paid
  | reply call result dest m =>
    have unstopped : ((l.waiting dest).isSome && has (k.procTable dest).state .stopped) = false := by
      cases waiting : l.waiting dest with
      | none => rfl
      | some buffer => exact (proper buffer waiting).1
    simp only [Ledger.record, unstopped, Bool.false_eq_true, if_false]
    exact paid
  | _ => exact paid

/-- A process that has just made a call waits with the buffer it gave; it is not the system task. -/
theorem trap_enters (ran : operate k .trap = some k') (asked : asks k = some (p, buffer))
    (receiving : has (k'.procTable p).state .receiving = true) :
    (k'.procTable p).message = buffer ∧ p ≠ system := by
  obtain ⟨found, sendrec, toSystem, given⟩ := asks_eq_some asked
  obtain ⟨cur, found', ran⟩ := bind_eq_some_iff.mp ran
  cases found.symm.trans found'
  rw [← given]
  exact perform_enters ran sendrec toSystem receiving

/-- **Every proper operation keeps the ledger right.** -/
theorem CallInv.step (inv : CallInv k l) (proper : Proper (k, l) action)
    (ran : operate k action = some k') : CallInv k' (l.record k k' action) := by
  refine ⟨fun p buffer after => ?_, fun p after => ?_, fun p => record_owed proper (inv.paid p)⟩
  · obtain ⟨receiving, origin⟩ := record_waiting after
    refine Prod.ext receiving ?_
    show (k'.procTable p).message = buffer
    obtain before | ⟨rfl, asked⟩ | ⟨-, -, given⟩ := origin
    · by_cases back : ∃ signum, action = .sigreturn p signum
      · obtain ⟨signum, rfl⟩ := back
        rw [Ledger.record, rejoin_waiting, if_pos rfl] at after
        obtain ⟨former, -, given⟩ := map_eq_some_iff.mp after
        exact given
      · have kept := operate_keeps inv proper ran before receiving (not_exists.mp back)
        exact congrArg Prod.snd (kept.trans (inv.call p buffer before))
    · exact (trap_enters ran asked receiving).1
    · exact given.symm
  · obtain ⟨buffer, after⟩ := isSome_iff_exists.mp after
    obtain ⟨receiving, before | ⟨rfl, asked⟩ | ⟨-, waiting, -⟩⟩ := record_waiting after
    · exact inv.user p (by rw [before]; rfl)
    · exact (trap_enters ran asked receiving).2
    · exact inv.user p waiting

/-- **Every process that goes on has the reply to its call.** -/
theorem resumed_authentic (inv : CallInv k l) (proper : Proper (k, l) action)
    (ran : operate k action = some k') : ∀ e ∈ resumed l k k' action, e.Authentic := by
  intro e member
  obtain ⟨p, -, found⟩ := List.mem_filterMap.mp member
  split at found
  · cases found
  rename_i buffer waiting
  split_ifs at found with waits
  cases found
  simp only [Bool.or_eq_true, not_or, Bool.not_eq_true] at waits
  obtain ⟨ended, stays⟩ := waits
  have isWaiting : (l.waiting p).isSome := by rw [waiting]; rfl
  have receiving : has (k.procTable p).state .receiving = true :=
    congrArg Prod.fst (inv.call p buffer waiting)
  -- a process whose call is unchanged would still wait
  have changed : (k'.procTable p).call ≠ (k.procTable p).call := fun kept => by
    have still := (congrArg Prod.fst kept).trans receiving
    exact Bool.false_ne_true (ended.symm.trans still)
  cases replied : action.replyTo k p with
  | none => exact absurd (operate_call inv proper ran isWaiting replied stays) changed
  | some issued =>
    cases action with
    | reply call result dest m =>
      simp only [Action.replyTo] at replied
      split_ifs at replied with same
      subst same
      cases replied
      obtain kept | ⟨-, same, holds, register⟩ := reply_delivers inv proper waiting ran
      · exact absurd kept changed
      · exact ⟨_, congrArg (fun n => some (n, _)) same, holds, register⟩
    | _ => cases replied

end Operations

/-! ### Runs -/

theorem callStep_inv (s : (Machine × Ledger) × List Resumed) (action : Action)
    (s' : (Machine × Ledger) × List Resumed)
    (inv : CallInv s.1.1 s.1.2 ∧ ∀ e ∈ s.2, e.Authentic) (proper : Proper s.1 action)
    (ran : logged callStep callSeen s action = some s') :
    CallInv s'.1.1 s'.1.2 ∧ ∀ e ∈ s'.2, e.Authentic := by
  obtain ⟨stepped, log⟩ := logged_eq_some.mp ran
  obtain ⟨k', operated, after⟩ := map_eq_some_iff.mp stepped
  rw [log, ← after, callSeen, operated]
  refine ⟨inv.1.step proper operated, fun e member => ?_⟩
  rcases List.mem_append.mp member with old | new
  · exact inv.2 e old
  · exact resumed_authentic inv.1 proper operated e new

/-- **Replies are authentic and none is lost**, in every run of proper operations. -/
theorem replies_authentic (k : Machine) (actions : List Action) (s : Machine × Ledger)
    (log : List Resumed)
    (proper : Meets (logged callStep callSeen) (fun before => Proper before.1)
      ((k, .empty), []) actions)
    (ran : runFrom (logged callStep callSeen) ((k, .empty), []) actions = some (s, log)) :
    (∀ e ∈ log, e.Authentic) ∧ NotLost s.1 s.2 := by
  have start : CallInv k .empty := by
    refine ⟨fun p buffer waiting => ?_, fun p waiting => ?_, fun _ => rfl⟩
    · cases waiting
    · cases waiting
  obtain ⟨inv, authentic⟩ := runFrom_invariant
    (fun s : (Machine × Ledger) × List Resumed => CallInv s.1.1 s.1.2 ∧ ∀ e ∈ s.2, e.Authentic)
    callStep_inv actions (s := ((k, .empty), [])) ⟨start, by simp⟩ proper ran
  exact ⟨authentic, fun p _ owed => absurd (owed.symm.trans (inv.paid p)) (by decide)⟩

/-! ### Three runs -/

/-- The system task waits for requests and process 1 makes one. -/
def request : Machine :=
  stacked [0, 1] (onStack 0 winixReceive 0 512 ++ onStack 1 winixSendrec 0 4608)

/-- Process 1 is answered and goes on with the answer. -/
theorem request_authentic :
    ∃ s log, runFrom (logged callStep callSeen) ((request, .empty), [])
      [.dispatch, .trap, .dispatch, .trap, .begin 1, .reply 1 7 1 512] = some (s, log) ∧
        log ≠ [] ∧ (∀ e ∈ log, e.Authentic) ∧ NotLost s.1 s.2 := by
  obtain ⟨⟨s, log⟩, ran, summary⟩ := map_eq_some_iff.mp (by decide +kernel :
    (runFrom (logged callStep callSeen) ((request, .empty), [])
      [.dispatch, .trap, .dispatch, .trap, .begin 1, .reply 1 7 1 512]).map
        (fun s => decide (s.2 ≠ [])) = some true)
  exact ⟨s, log, ran, of_decide_eq_true summary,
    replies_authentic request _ s log (by decide +kernel) ran⟩

/-- Process 2 sends to process 1, which has made a request. -/
def forged : Machine :=
  stacked [0, 1, 2] (onStack 0 winixReceive 0 512 ++ onStack 1 winixSendrec 0 4608 ++
    onStack 2 winixSend 1 4608)

/-- **A message is taken for a reply, and a reply is lost**: process 1 waits for the system task and
goes on with the message of process 2; and it is stopped, answered and continued, and waits for the
answer that was given. -/
theorem forged_and_lost :
    (Boot forged ∧ ∃ s log, runFrom (logged callStep callSeen) ((forged, .empty), [])
      [.dispatch, .trap, .dispatch, .trap, .dispatch, .begin 1, .trap, .dispatch, .trap] =
        some (s, log) ∧ ¬ ∀ e ∈ log, e.Authentic) ∧
    (Boot request ∧ ∃ s log, runFrom (logged callStep callSeen) ((request, .empty), [])
      [.dispatch, .trap, .dispatch, .trap, .begin 1, .stop 1 sigstop, .reply 1 7 1 512, .cont 1] =
        some (s, log) ∧ ¬ NotLost s.1 s.2) := by
  refine ⟨⟨boot_bootMachine (by decide) (by decide) _ _ _, ?_⟩,
    boot_bootMachine (by decide) (by decide) _ _ _, ?_⟩
  · obtain ⟨⟨s, log⟩, ran, summary⟩ := map_eq_some_iff.mp (by decide +kernel :
      (runFrom (logged callStep callSeen) ((forged, .empty), [])
        [.dispatch, .trap, .dispatch, .trap, .dispatch, .begin 1, .trap, .dispatch, .trap]).map
          (fun s => s.2.map fun e => (e.who, e.reply, e.contents.src)) = some [(1, none, 2)])
    refine ⟨s, log, ran, fun authentic => ?_⟩
    obtain ⟨e, only⟩ := List.length_eq_one_iff.mp (by simpa using congrArg List.length summary)
    dsimp only at summary only
    rw [only] at summary authentic
    obtain ⟨message, issued, -⟩ := authentic e List.mem_cons_self
    rw [List.map_singleton, issued] at summary
    simp at summary
  · obtain ⟨⟨s, log⟩, ran, summary⟩ := map_eq_some_iff.mp (by decide +kernel :
      (runFrom (logged callStep callSeen) ((request, .empty), [])
        [.dispatch, .trap, .dispatch, .trap, .begin 1, .stop 1 sigstop, .reply 1 7 1 512,
          .cont 1]).map (fun s => ((s.1.2.waiting 1).isSome, s.1.2.owed 1,
            has (s.1.1.procTable 1).state .stopped)) = some (true, true, false))
    refine ⟨s, log, ran, fun notLost => ?_⟩
    simp only [Prod.mk.injEq] at summary
    obtain ⟨waiting, owed, unstopped⟩ := summary
    have stopped := notLost 1 waiting owed
    exact Bool.false_ne_true (unstopped.symm.trans stopped)

end Winix.Kernel
