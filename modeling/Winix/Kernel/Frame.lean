/-
**What scheduling leaves alone.**

The scheduler moves processes between queues, changes priorities and counts ticks. Everything message
passing depends on stays as it is: `SameIpc k k'` says that memory is the same and that every process
is the same up to the fields the scheduler owns.

* `sched_sameIpc`, `clockHandler_sameIpc`: as long as no signal is pending and the scheduler's own
  timer is the only one, scheduling and clock ticks change nothing else;
* `SameQueues` is the same for message passing: its copies and bookkeeping leave the states and the
  queues alone;
* `doTicks_rebalanced`: the timers that are due only raise priorities.
-/

import Winix.Kernel.Exception

namespace Winix.Kernel

variable {k k' : Machine} {p : ProcNr}

open Lib Machine Option

/-- A process without the fields the scheduler owns. -/
def Proc.unscheduled (p : Proc) : Proc :=
  { p with next := none, priority := 0, ticksLeft := 0, timeUsed := 0, sysTimeUsed := 0 }

/-- The same machine, up to scheduling. -/
structure SameIpc (k k' : Machine) : Prop where
  memory : k'.memory = k.memory
  proc : ∀ p, (k'.procTable p).unscheduled = (k.procTable p).unscheduled

namespace SameIpc

variable {k k' k'' : Machine}

theorem refl (k : Machine) : SameIpc k k := ⟨rfl, fun _ => rfl⟩

theorem trans (first : SameIpc k k') (second : SameIpc k' k'') : SameIpc k k'' :=
  ⟨second.memory.trans first.memory, fun p => (second.proc p).trans (first.proc p)⟩

section

variable (same : SameIpc k k')
include same

theorem field {β : Type*} (field : Proc → β) (unowned : ∀ p : Proc, field p.unscheduled = field p)
    (p : ProcNr) : field (k'.procTable p) = field (k.procTable p) := by
  rw [← unowned, same.proc, unowned]

section

variable (p : ProcNr)

theorem state : (k'.procTable p).state = (k.procTable p).state :=
  same.field Proc.state (fun _ => rfl) p

theorem message : (k'.procTable p).message = (k.procTable p).message :=
  same.field Proc.message (fun _ => rfl) p

theorem senderQ : (k'.procTable p).senderQ = (k.procTable p).senderQ :=
  same.field Proc.senderQ (fun _ => rfl) p

theorem nextSender : (k'.procTable p).nextSender = (k.procTable p).nextSender :=
  same.field Proc.nextSender (fun _ => rfl) p

theorem inUse : (k'.procTable p).inUse = (k.procTable p).inUse :=
  same.field Proc.inUse (fun _ => rfl) p

theorem sigPending : (k'.procTable p).sigPending = (k.procTable p).sigPending :=
  same.field Proc.sigPending (fun _ => rfl) p

end

end

theorem updateProc {p : ProcNr} {change : Proc → Proc}
    (keeps : (change (k.procTable p)).unscheduled = (k.procTable p).unscheduled) :
    SameIpc k (k.updateProc p change) :=
  ⟨rfl, updateProc_field Proc.unscheduled keeps⟩

end SameIpc

/-! ### The ready queues -/

/-- From `k` to `k'` only the ready queues and their links change. -/
def Requeued (k k' : Machine) : Prop :=
  ∃ readyQ, ∃ next : ProcNr → Option ProcNr,
    k' = { k with readyQ, procTable := fun p => { k.procTable p with next := next p } }

namespace Requeued

variable {k'' : Machine}

theorem refl (k : Machine) : Requeued k k := ⟨_, _, rfl⟩

theorem trans (first : Requeued k k') (second : Requeued k' k'') : Requeued k k'' := by
  obtain ⟨_, _, rfl⟩ := first
  obtain ⟨readyQ, next, rfl⟩ := second
  exact ⟨readyQ, next, rfl⟩

variable (k)

theorem setQueue (i : Nat) (q : RunQueue) : Requeued k (k.setQueue i q) := ⟨_, _, rfl⟩

theorem updateProc (p : ProcNr) (next : Option ProcNr) :
    Requeued k (k.updateProc p fun q => { q with next }) := by
  refine ⟨k.readyQ, Function.update (fun q => (k.procTable q).next) p next,
    congrArg (fun procTable => { k with procTable }) (funext fun q => ?_)⟩
  by_cases same : q = p
  · subst same
    simp
  · simp [same]

theorem enqueueHead (i : Nat) (p : ProcNr) : Requeued k (enqueueHead k i p) := by
  unfold Kernel.enqueueHead
  split <;> exact (updateProc _ _ _).trans (.setQueue _ _ _)

theorem enqueueTail (i : Nat) (p : ProcNr) : Requeued k (enqueueTail k i p) := by
  unfold Kernel.enqueueTail
  split
  · exact (setQueue _ _ _).trans (.updateProc _ _ _)
  · refine trans ?_ ((setQueue _ _ _).trans (.updateProc _ _ _))
    split
    · exact .refl k
    · exact .updateProc _ _ _

variable {k}

theorem dequeue {i : Nat} (took : dequeue k i = some (p, k')) : Requeued k k' := by
  unfold Kernel.dequeue at took
  split at took
  · cases took
  · cases took
    exact (setQueue _ _ _).trans (.updateProc _ _ _)

theorem dequeueSchedule {h : ProcNr} (ran : dequeueSchedule k h = some k') : Requeued k k' := by
  obtain ⟨⟨prev, curr⟩, -, ran⟩ := bind_eq_some_iff.mp ran
  dsimp only at ran
  split at ran
  · cases ran
    exact .refl k
  · cases ran
    exact .setQueue _ _ _
  · cases ran
    exact .updateProc _ _ _

theorem sameIpc (same : Requeued k k') : SameIpc k k' := by
  obtain ⟨_, _, rfl⟩ := same
  exact ⟨rfl, fun _ => rfl⟩

theorem frame (same : Requeued k k') : k'.clock = k.clock ∧ k'.currentProc = k.currentProc ∧
    ∀ q, (k'.procTable q).priority = (k.procTable q).priority := by
  obtain ⟨_, _, rfl⟩ := same
  exact ⟨rfl, rfl, fun _ => rfl⟩

end Requeued

theorem enqueueHead_sameIpc (k : Machine) (priority : Nat) (p : ProcNr) :
    SameIpc k (enqueueHead k priority p) := (Requeued.enqueueHead k priority p).sameIpc

theorem enqueueSchedule_sameIpc (k : Machine) (p : ProcNr) : SameIpc k (enqueueSchedule k p) :=
  (Requeued.enqueueTail k _ p).sameIpc

theorem pickFrom_eq_some :
    ∀ {queues : List Nat}, pickFrom k queues = some (p, k') → ∃ i ∈ queues, dequeue k i = some (p, k')
  | i :: rest, picked => by
      unfold pickFrom at picked
      cases took : dequeue k i with
      | some found =>
        rw [took] at picked
        cases picked
        exact ⟨i, List.mem_cons_self, took⟩
      | none =>
        rw [took] at picked
        obtain ⟨j, member, found⟩ := pickFrom_eq_some picked
        exact ⟨j, List.mem_cons_of_mem _ member, found⟩

theorem pickProc_sameIpc (picked : pickProc k = some (p, k')) : SameIpc k k' ∧ k'.clock = k.clock :=
  let ⟨_, _, took⟩ := pickFrom_eq_some picked
  ⟨(Requeued.dequeue took).sameIpc, (Requeued.dequeue took).frame.1⟩

theorem requeue_sameIpc (k : Machine) : SameIpc k (requeue k) := by
  unfold requeue
  split
  · exact SameIpc.refl k
  · dsimp only
    split_ifs
    · exact enqueueHead_sameIpc _ _ _
    · exact (SameIpc.updateProc rfl).trans (Requeued.enqueueTail _ _ _).sameIpc
    · exact (Requeued.enqueueTail _ _ _).sameIpc
    · exact SameIpc.refl k

theorem refill_sameIpc (k : Machine) : SameIpc k (refill k) := by
  unfold refill
  split
  · exact SameIpc.refl k
  · exact SameIpc.updateProc rfl

/-! ### What message passing leaves alone -/

/-- From `k` to `k'` only links of the notification queues change. -/
def OnlyLinks (k k' : Machine) : Prop :=
  ∃ links : ProcNr → ListHead,
    k' = { k with procTable := fun p => { k.procTable p with notifyQueue := links p } }

theorem OnlyLinks.trans {k'' : Machine} (first : OnlyLinks k k') (second : OnlyLinks k' k'') :
    OnlyLinks k k'' := by
  obtain ⟨_, rfl⟩ := first
  obtain ⟨links, rfl⟩ := second
  exact ⟨links, rfl⟩

variable (k)

theorem OnlyLinks.updateProc (p : ProcNr) (change : ListHead → ListHead) :
    OnlyLinks k (k.updateProc p fun q => { q with notifyQueue := change q.notifyQueue }) := by
  refine ⟨Function.update (fun q => (k.procTable q).notifyQueue) p
    (change (k.procTable p).notifyQueue), ?_⟩
  refine congrArg (fun procTable => { k with procTable }) (funext fun q => ?_)
  by_cases same : q = p
  · subst same
    simp
  · simp [same]

theorem setNotifyNext_onlyLinks (entry target : Option ProcNr) :
    OnlyLinks k (setNotifyNext k entry target) := by
  cases entry with
  | none => exact ⟨_, rfl⟩
  | some p => exact .updateProc k p fun links => { links with next := target }

theorem setNotifyPrev_onlyLinks (entry target : Option ProcNr) :
    OnlyLinks k (setNotifyPrev k entry target) := by
  cases entry with
  | none => exact ⟨_, rfl⟩
  | some p => exact .updateProc k p fun links => { links with prev := target }

theorem listAdd_onlyLinks (new head : ProcNr) : OnlyLinks k (listAdd k new head) := by
  unfold listAdd
  exact (((setNotifyPrev_onlyLinks _ _ _).trans (setNotifyNext_onlyLinks _ _ _)).trans
    (setNotifyPrev_onlyLinks _ _ _)).trans (setNotifyNext_onlyLinks _ _ _)

theorem listDel_onlyLinks (entry : ProcNr) : OnlyLinks k (listDel k entry) := by
  unfold listDel
  exact (((setNotifyPrev_onlyLinks _ _ _).trans (setNotifyNext_onlyLinks _ _ _)).trans
    (setNotifyNext_onlyLinks _ _ _)).trans (setNotifyPrev_onlyLinks _ _ _)

variable {k}

/-- The same queues and states: everything is the same up to memory, registers, message pointers,
notification links and the flags other than `IN_USE`. -/
structure SameQueues (k k' : Machine) : Prop where
  readyQ : k'.readyQ = k.readyQ
  currentProc : k'.currentProc = k.currentProc
  clock : k'.clock = k.clock
  proc : ∀ p, ∃ ctx flags message links, k'.procTable p =
    { k.procTable p with ctx := ctx, flags := flags, message := message, notifyQueue := links }
  inUse : ∀ p, (k'.procTable p).inUse = (k.procTable p).inUse

namespace SameQueues

variable {k k' k'' : Machine}

theorem of_procTable (procs : k'.procTable = k.procTable) (ready : k'.readyQ = k.readyQ)
    (current : k'.currentProc = k.currentProc) (clockEq : k'.clock = k.clock) :
    SameQueues k k' :=
  ⟨ready, current, clockEq, fun p => ⟨_, _, _, _, congrFun procs p⟩, fun p => by rw [procs]⟩

theorem refl (k : Machine) : SameQueues k k := of_procTable rfl rfl rfl rfl

theorem trans (first : SameQueues k k') (second : SameQueues k' k'') : SameQueues k k'' := by
  refine ⟨second.readyQ.trans first.readyQ, second.currentProc.trans first.currentProc,
    second.clock.trans first.clock, fun p => ?_, fun p => (second.inUse p).trans (first.inUse p)⟩
  obtain ⟨_, _, _, _, eq⟩ := first.proc p
  obtain ⟨ctx, flags, message, links, eq'⟩ := second.proc p
  exact ⟨ctx, flags, message, links, by rw [eq', eq]⟩

theorem poke (k : Machine) (address value : Word) : SameQueues k (k.poke address value) :=
  of_procTable rfl rfl rfl rfl

theorem copyMessage (k : Machine) (dst src : Word) : SameQueues k (k.copyMessage dst src) :=
  of_procTable rfl rfl rfl rfl

theorem updateProc {p : ProcNr} {change : Proc → Proc}
    (same : ∃ ctx flags message links, change (k.procTable p) =
      { k.procTable p with ctx := ctx, flags := flags, message := message, notifyQueue := links })
    (used : (change (k.procTable p)).inUse = (k.procTable p).inUse) :
    SameQueues k (k.updateProc p change) := by
  refine ⟨rfl, rfl, rfl, fun q => ?_, updateProc_field Proc.inUse used⟩
  by_cases here : q = p
  · subst here
    rw [updateProc_same]
    exact same
  · rw [updateProc_of_ne here]
    exact ⟨_, _, _, _, rfl⟩

theorem of_onlyLinks (same : OnlyLinks k k') : SameQueues k k' := by
  obtain ⟨links, rfl⟩ := same
  exact ⟨rfl, rfl, rfl, fun p => ⟨_, _, _, _, rfl⟩, fun _ => rfl⟩

theorem copyArgs (sp m : Word) : ∀ (args : List (Nat × Nat)) (k : Machine),
    SameQueues k (copyArgs k sp m args)
  | [], k => refl k
  | _ :: rest, _ => trans (poke _ _ _) (copyArgs sp m rest _)

variable (k)

theorem saveMessage (cur : ProcNr) (m : Word) : SameQueues k (saveMessage k cur m) :=
  updateProc ⟨_, _, _, _, rfl⟩ rfl

theorem setRetval (cur : ProcNr) (value : Int) : SameQueues k (setRetval k cur value) :=
  updateProc ⟨_, _, _, _, rfl⟩ rfl

theorem listAdd (new head : ProcNr) : SameQueues k (listAdd k new head) :=
  of_onlyLinks (listAdd_onlyLinks k new head)

theorem listDel (entry : ProcNr) : SameQueues k (listDel k entry) :=
  of_onlyLinks (listDel_onlyLinks k entry)

theorem finishDirect (pDest : ProcNr) (m : Word) :
    SameQueues k (finishDirect k pDest m) := by
  unfold Kernel.finishDirect
  split_ifs
  · refine trans ?_ (updateProc ⟨_, _, _, _, rfl⟩ (hasBit_clearBit_of_ne _ (by decide)))
    simp only [setReplyResErrno]
    split_ifs
    · exact trans (poke _ _ _) (poke _ _ _)
    · exact trans (poke _ _ _) (poke _ _ _)
    · exact refl k
  · exact refl k

theorem setMessageForSyscall (operation : Nat) (sp m : Word) (who : ProcNr) :
    SameQueues k (setMessageForSyscall k operation sp m who) := by
  simp only [Kernel.setMessageForSyscall]
  have popped : SameQueues k (popNumber k operation who) := by
    unfold popNumber
    split_ifs
    · exact updateProc ⟨_, _, _, _, rfl⟩ rfl
    · exact refl k
  have copied := popped.trans (copyArgs sp m (syscallArgs operation) _)
  split_ifs
  · exact copied.trans (poke _ _ _)
  · exact copied

theorem decode (cur : ProcNr) : SameQueues k (decode k cur).1 := by
  simp only [Kernel.decode]
  split_ifs
  · refine trans ?_ (setMessageForSyscall _ _ _ _ _)
    refine trans ?_ (poke _ _ _)
    exact updateProc ⟨_, _, _, _, rfl⟩ (hasBit_setBit_of_ne _ (by decide))
  · exact refl k

theorem fetch (cur : ProcNr) : SameQueues k (fetch k cur) :=
  (decode k cur).trans (poke _ _ _)

variable {k}

section

variable (same : SameQueues k k')
include same

theorem field {β : Type*} (field : Proc → β) (other : ∀ (p : Proc) ctx flags message links,
      field { p with ctx := ctx, flags := flags, message := message, notifyQueue := links } = field p)
    (p : ProcNr) : field (k'.procTable p) = field (k.procTable p) := by
  obtain ⟨ctx, flags, message, links, eq⟩ := same.proc p
  rw [eq, other]

theorem state (p : ProcNr) : (k'.procTable p).state = (k.procTable p).state :=
  same.field Proc.state (fun _ _ _ _ _ => rfl) p

theorem senderQ (p : ProcNr) : (k'.procTable p).senderQ = (k.procTable p).senderQ :=
  same.field Proc.senderQ (fun _ _ _ _ _ => rfl) p

theorem nextSender (p : ProcNr) : (k'.procTable p).nextSender = (k.procTable p).nextSender :=
  same.field Proc.nextSender (fun _ _ _ _ _ => rfl) p

theorem getProc (procNr : Int) : getProc k' procNr = getProc k procNr := by
  rw [Kernel.getProc, Kernel.getProc, same.inUse]

end

end SameQueues

/-- A process without the fields message passing writes; of the flags, `IN_USE` is kept. -/
def Proc.constant (p : Proc) : Proc :=
  { p with
    ctx := ⟨fun _ => 0, 0, 0, 0, 0, 0, 0⟩, flags := if p.inUse then 1 else 0, message := 0
    state := 0, senderQ := none, nextSender := none, notifyQueue := ⟨none, none⟩, next := none }

/-- The fields that message passing never writes are the same. -/
structure SameConst (k k' : Machine) : Prop where
  currentProc : k'.currentProc = k.currentProc
  clock : k'.clock = k.clock
  proc : ∀ p, (k'.procTable p).constant = (k.procTable p).constant

namespace SameConst

variable {k k' k'' : Machine}

theorem refl (k : Machine) : SameConst k k := ⟨rfl, rfl, fun _ => rfl⟩

theorem trans (first : SameConst k k') (second : SameConst k' k'') : SameConst k k'' :=
  ⟨second.currentProc.trans first.currentProc, second.clock.trans first.clock,
    fun p => (second.proc p).trans (first.proc p)⟩

theorem of_sameQueues (same : SameQueues k k') : SameConst k k' :=
  ⟨same.currentProc, same.clock, fun p => by
    obtain ⟨_, _, _, _, eq⟩ := same.proc p
    rw [Proc.constant, same.inUse, eq]
    rfl⟩

theorem updateProc {p : ProcNr} {change : Proc → Proc}
    (keeps : (change (k.procTable p)).constant = (k.procTable p).constant) :
    SameConst k (k.updateProc p change) :=
  ⟨rfl, rfl, updateProc_field Proc.constant keeps⟩

theorem sigPending (same : SameConst k k') (p : ProcNr) :
    (k'.procTable p).sigPending = (k.procTable p).sigPending := by
  have eq := congrArg Proc.sigPending (same.proc p)
  exact eq

theorem inUse (same : SameConst k k') (p : ProcNr) :
    (k'.procTable p).inUse = (k.procTable p).inUse := by
  have eq : (if (k'.procTable p).inUse then (1 : Word) else 0) =
      if (k.procTable p).inUse then 1 else 0 := congrArg Proc.flags (same.proc p)
  cases new : (k'.procTable p).inUse <;> cases old : (k.procTable p).inUse <;> simp [new, old] at eq ⊢

variable (k)

theorem enqueueHead (i : Nat) (p : ProcNr) : SameConst k (enqueueHead k i p) := by
  obtain ⟨_, _, same⟩ := Requeued.enqueueHead k i p
  rw [same]
  exact ⟨rfl, rfl, fun _ => rfl⟩

theorem sendState (cur : ProcNr) (reply : Bool) (m : Word) :
    SameConst k (sendState k cur reply m) := by
  unfold Kernel.sendState expectReply
  refine trans ?_ (of_sameQueues (.saveMessage _ _ _))
  split_ifs
  · exact updateProc rfl
  · exact refl k

theorem deliver (pDest : ProcNr) (m : Word) : SameConst k (deliver k pDest m) := by
  refine trans ?_ (enqueueHead _ _ _)
  unfold handOver
  refine trans ?_ (updateProc rfl)
  exact trans (of_sameQueues (.copyMessage _ _ _)) (updateProc rfl)

theorem block (cur pDest : ProcNr) : SameConst k (block k cur pDest) := by
  unfold Kernel.block
  exact trans (trans (updateProc rfl) (updateProc rfl)) (updateProc rfl)

theorem takeFrom (cur p : ProcNr) (m : Word) : SameConst k (takeFrom k cur p m) := by
  have collected : SameConst k (collect k cur p m) := by
    unfold collect
    refine trans ?_ (updateProc rfl)
    exact trans (updateProc rfl) (of_sameQueues (.copyMessage _ _ _))
  simp only [Kernel.takeFrom]
  split_ifs
  · exact collected.trans (enqueueHead _ _ _)
  · exact collected

variable {k}

theorem doNotify {src dest result : Int} {m : Word}
    (ran : doNotify k src dest m = some (k', result)) : SameConst k k' := by
  cases doNotify_notified ran with
  | nobody => exact refl k
  | killed => exact refl k
  | delivered pDest => exact trans (of_sameQueues (.finishDirect _ _ _)) (deliver _ _ _)
  | pending => exact of_sameQueues ((SameQueues.saveMessage _ _ _).trans (.listAdd _ _ _))

/-- **A system call writes message-passing fields only.** -/
theorem perform {cur : ProcNr} {t : Trap} (ran : perform k cur t = some k') : SameConst k k' := by
  cases perform_performed ran with
  | refused reply result =>
    refine trans (trans (sendState _ _ _ _) (of_sameQueues (.setRetval _ _ _))) (updateProc rfl)
  | delivered reply pDest =>
    exact trans (trans (sendState _ _ _ _) (deliver _ _ _)) (of_sameQueues (.setRetval _ _ _))
  | blocked reply pDest =>
    exact trans (trans (sendState _ _ _ _) (block _ _ _)) (of_sameQueues (.setRetval _ _ _))
  | took p => exact trans (takeFrom _ _ _ _) (of_sameQueues (.setRetval _ _ _))
  | waits =>
    exact trans (trans (of_sameQueues (.saveMessage _ _ _)) (updateProc rfl))
      (of_sameQueues (.setRetval _ _ _))
  | noticed p =>
    exact trans (of_sameQueues ((SameQueues.listDel k p).trans (.copyMessage _ _ _)))
      (of_sameQueues (.setRetval _ _ _))
  | notified after result operation done =>
    exact trans (doNotify done) (of_sameQueues (.setRetval _ _ _))
  | unknown => exact of_sameQueues (.setRetval _ _ _)

end SameConst

/-! ### The scheduler -/

/-- No signal is pending for any process. -/
def NoSignals (k : Machine) : Prop := ∀ p, (k.procTable p).sigPending = 0#32

theorem NoSignals.sameIpc (quiet : NoSignals k) (same : SameIpc k k') : NoSignals k' :=
  fun p => (same.sigPending p).trans (quiet p)

section Sched

variable {exitProc : ExitProc} {k k' : Machine}

/-- One turn of the loop of `sched` when no signal is pending. -/
theorem pickRunnable_succ (quiet : NoSignals k) {fuel : Nat} :
    pickRunnable exitProc (fuel + 1) k = some k' ↔
      ∃ p picked, pickProc k = some (p, picked) ∧
        (if (picked.procTable p).state = runnable then some { picked with currentProc := some p }
          else pickRunnable exitProc fuel { picked with currentProc := some p }) = some k' := by
  simp only [pickRunnable, bind_eq_bind, bind_eq_some_iff, Prod.exists]
  refine exists_congr fun p => exists_congr fun picked => and_congr_right fun took => ?_
  have none : isSigpending (picked.procTable p) = 0 :=
    isSigpending_of_zero ((pickProc_sameIpc took).1.sigPending p ▸ quiet p)
  simp only [none, ↓reduceIte, bind_some]

/-- The loop of `sched` ends with a runnable process and leaves the rest alone. -/
theorem pickRunnable_spec : ∀ {fuel : Nat} {k : Machine}, NoSignals k →
    pickRunnable exitProc fuel k = some k' →
      SameIpc k k' ∧ k'.clock = k.clock ∧
        ∃ cur, k'.currentProc = some cur ∧ (k'.procTable cur).state = runnable
  | 0, k, _, ran => by cases ran
  | fuel + 1, k, quiet, ran => by
      obtain ⟨p, picked, took, rest⟩ := (pickRunnable_succ quiet).mp ran
      obtain ⟨same, clockEq⟩ := pickProc_sameIpc took
      split_ifs at rest with canRun
      · cases rest
        exact ⟨same.trans ⟨rfl, fun _ => rfl⟩, clockEq, p, rfl, canRun⟩
      · have same' : SameIpc k { picked with currentProc := some p } :=
          same.trans ⟨rfl, fun _ => rfl⟩
        obtain ⟨again, clockEq', current⟩ := pickRunnable_spec (quiet.sameIpc same') rest
        exact ⟨same'.trans again, clockEq'.trans clockEq, current⟩

theorem requeue_clock (k : Machine) : (requeue k).clock = k.clock := by
  unfold requeue
  split
  · rfl
  · dsimp only
    split_ifs
    · exact (Requeued.enqueueHead _ _ _).frame.1
    · exact (Requeued.enqueueTail _ _ _).frame.1
    · exact (Requeued.enqueueTail _ _ _).frame.1
    · rfl

/-- **Scheduling leaves message passing alone**, and a runnable process runs afterwards. -/
theorem sched_sameIpc (quiet : NoSignals k) (ran : sched exitProc k = some k') :
    SameIpc k k' ∧ k'.clock = k.clock ∧
      ∃ cur, k'.currentProc = some cur ∧ (k'.procTable cur).state = runnable := by
  obtain ⟨picked, found, rfl⟩ := map_eq_some_iff.mp ran
  have requeued := requeue_sameIpc k
  obtain ⟨same, clockEq, cur, current, canRun⟩ :=
    pickRunnable_spec (quiet.sameIpc requeued) found
  refine ⟨(requeued.trans same).trans (refill_sameIpc _), ?_, cur, ?_, ?_⟩
  · rw [← requeue_clock k, ← clockEq]
    unfold refill
    split <;> rfl
  · unfold refill
    rw [current]
    exact current
  · rw [(refill_sameIpc picked).state, canRun]

end Sched

/-! ### The clock -/

/-- The scheduler's own timer is the only one pending. -/
structure OnlySched (c : Clock) : Prop where
  pending : c.pendingTimers = some .sched
  last : (c.timer .sched).next = none
  handler : (c.timer .sched).handler = .rebalanceQueues

/-- The same machine, up to the clock and some processes back at the highest priority. -/
structure Rebalanced (k k' : Machine) : Prop where
  memory : k'.memory = k.memory
  readyQ : k'.readyQ = k.readyQ
  currentProc : k'.currentProc = k.currentProc
  proc : ∀ p, k'.procTable p = k.procTable p ∨
    k'.procTable p = { k.procTable p with priority := maxPriority }

namespace Rebalanced

variable {k k' k'' : Machine}

theorem refl (k : Machine) : Rebalanced k k := ⟨rfl, rfl, rfl, fun _ => .inl rfl⟩

theorem trans (first : Rebalanced k k') (second : Rebalanced k' k'') : Rebalanced k k'' := by
  refine ⟨second.memory.trans first.memory, second.readyQ.trans first.readyQ,
    second.currentProc.trans first.currentProc, fun p => ?_⟩
  rcases second.proc p with same | top <;> rcases first.proc p with same' | top'
  · exact .inl (same.trans same')
  · exact .inr (same.trans top')
  · exact .inr (by rw [top, same'])
  · exact .inr (by rw [top, top'])

theorem sameIpc (same : Rebalanced k k') : SameIpc k k' := by
  refine ⟨same.memory, fun p => ?_⟩
  rcases same.proc p with eq | eq <;> rw [eq]
  rfl

end Rebalanced

/-- The scheduler's timer, once taken off the queue, puts itself back. -/
theorem rebalanceQueues_spec (idle : k.clock.pendingTimers = none)
    (free : (k.clock.timer .sched).inUse = false) (ran : rebalanceQueues k = some k') :
    Rebalanced k k' ∧ OnlySched k'.clock := by
  simp only [rebalanceQueues, Clock.newTimer, free, Clock.insertTimer, bind_eq_bind,
    bind_eq_some_iff, Option.some.injEq] at ran
  obtain ⟨c, made, rfl⟩ := ran
  rw [if_neg (by decide), if_neg (by decide)] at made
  simp only [Clock.setTimer, idle, Clock.findPlace, bind_some, Option.some.injEq] at made
  subst made
  refine ⟨⟨rfl, rfl, rfl, fun p => ?_⟩, ?_⟩
  · dsimp only
    split_ifs
    · exact .inr rfl
    · exact .inl rfl
  · constructor <;> simp

/-- What every timer that is taken off the queue and run preserves, `do_ticks` preserves. -/
theorem doTicks_invariant {fuel : Nat} (Inv : Machine → Prop)
    (fires : ∀ {k fired : Machine} {t : TimerId} {c : Clock}, Inv k →
      k.clock.dequeueAlarm = some (t, c) → runTimer { k with clock := c } (c.timer t) = some fired →
      Inv fired)
    (inv : Inv k) (ran : doTicks fuel k = some k') : Inv k' := by
  induction fuel generalizing k with
  | zero =>
    unfold doTicks at ran
    split_ifs at ran
    cases ran
    exact inv
  | succ fuel ih =>
    unfold doTicks at ran
    split_ifs at ran
    · obtain ⟨⟨t, c⟩, dequeued, ran⟩ := bind_eq_some_iff.mp ran
      obtain ⟨fired, firing, ran⟩ := bind_eq_some_iff.mp ran
      exact ih (fires inv dequeued firing) ran
    · cases ran
      exact inv

/-- **Running the timers that are due** only raises priorities. -/
theorem doTicks_rebalanced {fuel : Nat} (only : OnlySched k.clock) (ran : doTicks fuel k = some k') :
    Rebalanced k k' ∧ OnlySched k'.clock := by
  refine doTicks_invariant (fun k' => Rebalanced k k' ∧ OnlySched k'.clock) ?_ ⟨.refl k, only⟩ ran
  rintro k' fired t c ⟨before, only⟩ dequeued fires
  simp only [Clock.dequeueAlarm, only.pending, only.last, some_inj, Prod.mk.injEq] at dequeued
  obtain ⟨rfl, rfl⟩ := dequeued
  simp only [runTimer, Clock.setTimer, Function.update_self, only.handler] at fires
  obtain ⟨now, only'⟩ := rebalanceQueues_spec rfl (by simp) fires
  exact ⟨before.trans ⟨now.memory, now.readyQ, now.currentProc, now.proc⟩, only'⟩

theorem account_proc (k : Machine) (cur p : ProcNr) :
    ∃ time sys ticks, (account k cur).procTable p =
      { k.procTable p with timeUsed := time, sysTimeUsed := sys, ticksLeft := ticks } := by
  have counted : ∀ k : Machine, ∃ time ticks, (k.updateProc cur fun p =>
        { p with timeUsed := p.timeUsed + 1, ticksLeft := p.ticksLeft - 1 }).procTable p =
        { k.procTable p with timeUsed := time, ticksLeft := ticks } := by
    intro k
    by_cases same : p = cur
    · subst same
      exact ⟨_, _, updateProc_same _ _ _⟩
    · exact ⟨_, _, updateProc_of_ne same⟩
  obtain ⟨time, ticks, eq⟩ := counted { k with clock := { k.clock with uptime := k.clock.uptime + 1 } }
  simp only [account]
  split_ifs
  · split
    · exact ⟨time, _, ticks, eq⟩
    · rename_i payer _
      by_cases same : p = payer
      · subst same
        refine ⟨time, (k.procTable p).sysTimeUsed + 1, ticks, ?_⟩
        rw [updateProc_same, eq]
      · refine ⟨time, (k.procTable p).sysTimeUsed, ticks, ?_⟩
        rw [updateProc_of_ne same, eq]
  · exact ⟨time, _, ticks, eq⟩

theorem account_frame (k : Machine) (cur : ProcNr) :
    (account k cur).memory = k.memory ∧ (account k cur).readyQ = k.readyQ ∧
      (account k cur).currentProc = k.currentProc ∧
      (account k cur).clock = { k.clock with uptime := k.clock.uptime + 1 } := by
  simp only [account]
  split_ifs
  · split <;> exact ⟨rfl, rfl, rfl, rfl⟩
  · exact ⟨rfl, rfl, rfl, rfl⟩

theorem account_sameIpc (k : Machine) (cur : ProcNr) : SameIpc k (account k cur) := by
  refine ⟨(account_frame k cur).1, fun p => ?_⟩
  obtain ⟨time, sys, ticks, eq⟩ := account_proc k cur p
  rw [eq]
  rfl

/-- A clock tick: the accounting, the timers, then the scheduler. -/
theorem clockHandler_ticked {exitProc : ExitProc} (quiet : NoSignals k) (only : OnlySched k.clock)
    (ran : clockHandler exitProc k = some k') :
    ∃ ticked, NoSignals ticked ∧ OnlySched ticked.clock ∧
      (∃ cur, Rebalanced (account k cur) ticked) ∧ sched exitProc ticked = some k' := by
  unfold clockHandler at ran
  split at ran
  · cases ran
  · rename_i cur _
    obtain ⟨ticked, didTicks, ran⟩ := bind_eq_some_iff.mp ran
    have only' : OnlySched (account k cur).clock := by
      rw [(account_frame k cur).2.2.2]
      exact ⟨only.pending, only.last, only.handler⟩
    obtain ⟨rebalanced, only''⟩ := doTicks_rebalanced only' didTicks
    have quiet' := quiet.sameIpc ((account_sameIpc k cur).trans rebalanced.sameIpc)
    exact ⟨ticked, quiet', only'', ⟨cur, rebalanced⟩, ran⟩

/-- **A clock tick leaves message passing alone.** -/
theorem clockHandler_sameIpc {exitProc : ExitProc} (quiet : NoSignals k) (only : OnlySched k.clock)
    (ran : clockHandler exitProc k = some k') :
    SameIpc k k' ∧ OnlySched k'.clock ∧
      ∃ cur, k'.currentProc = some cur ∧ (k'.procTable cur).state = runnable := by
  obtain ⟨ticked, quiet', only', ⟨cur, rebalanced⟩, ran⟩ := clockHandler_ticked quiet only ran
  obtain ⟨same, clockEq, current⟩ := sched_sameIpc quiet' ran
  exact ⟨((account_sameIpc k cur).trans rebalanced.sameIpc).trans same, clockEq ▸ only', current⟩

end Winix.Kernel
