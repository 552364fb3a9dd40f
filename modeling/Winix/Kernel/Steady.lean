/-
**What holds in every state of a run of system calls and clock ticks.**

`Steady k`: no signal is pending, the scheduler's timer is the only one, every process that a queue
mentions is in use, the running process is runnable, and the sender queues are well formed.

* **`step_steady`**: every event keeps it, whatever the processes send to whom.
-/

import Winix.Kernel.Ready

namespace Winix.Kernel

open Lib Machine

/-! ### The slots in the queues are in use -/

/-- Every process the ready queues mention is in use. -/
structure Slots (k : Machine) : Prop where
  head : ∀ i p, (k.readyQ i).head = some p → (k.procTable p).inUse = true
  next : ∀ p q, (k.procTable p).next = some q → (k.procTable q).inUse = true
  current : ∀ p, k.currentProc = some p → (k.procTable p).inUse = true

section Slots

variable {k k' : Machine} {p : ProcNr} {i : Nat}

theorem Slots.congr (slots : Slots k) (ready : k'.readyQ = k.readyQ)
    (current : k'.currentProc = k.currentProc)
    (next : ∀ p, (k'.procTable p).next = (k.procTable p).next)
    (used : ∀ p, (k'.procTable p).inUse = (k.procTable p).inUse) : Slots k' := by
  refine ⟨fun i p first => ?_, fun p q linked => ?_, fun p running => ?_⟩ <;> rw [used]
  · exact slots.head i p (ready ▸ first)
  · exact slots.next p q (next p ▸ linked)
  · exact slots.current p (current ▸ running)

theorem SameQueues.slots (same : SameQueues k k') (slots : Slots k) : Slots k' :=
  slots.congr same.readyQ same.currentProc (same.field Proc.next fun _ _ _ _ _ => rfl) same.inUse

theorem SameReady.slots {loose : ProcNr → Prop} (same : SameReady loose k k') (slots : Slots k) :
    Slots k' := slots.congr same.readyQ same.currentProc same.next same.inUse

section

variable (slots : Slots k)
include slots

theorem Slots.setNext {target : Option ProcNr}
    (used : ∀ q, target = some q → (k.procTable q).inUse = true) :
    Slots (k.updateProc p fun proc => { proc with next := target }) := by
  have same : ∀ q, ((k.updateProc p fun proc => { proc with next := target }).procTable q).inUse =
      (k.procTable q).inUse := updateProc_field Proc.inUse rfl
  refine ⟨fun i q first => ?_, fun q r linked => ?_, fun q running => ?_⟩
  · rw [same]
    exact slots.head i q first
  · rw [same]
    by_cases here : q = p
    · subst here
      rw [updateProc_same] at linked
      exact used r linked
    · rw [updateProc_of_ne here] at linked
      exact slots.next q r linked
  · rw [same]
    exact slots.current q running

theorem Slots.clearNext (p : ProcNr) : Slots (k.updateProc p fun proc => { proc with next := none }) :=
  slots.setNext fun _ absurd => by cases absurd

theorem Slots.setQueue {q : RunQueue} (used : ∀ p, q.head = some p → (k.procTable p).inUse = true) :
    Slots (k.setQueue i q) := by
  refine ⟨fun j p first => ?_, slots.next, slots.current⟩
  by_cases here : j = i
  · subst here
    simp only [Machine.setQueue, Function.update_self] at first
    exact used p first
  · simp only [Machine.setQueue, Function.update_of_ne here] at first
    exact slots.head j p first

theorem Slots.enqueueHead (used : (k.procTable p).inUse = true) : Slots (enqueueHead k i p) := by
  have same : ∀ target q, ((k.updateProc p fun proc => { proc with next := target }).procTable
      q).inUse = (k.procTable q).inUse := fun _ => updateProc_field Proc.inUse rfl
  unfold Kernel.enqueueHead
  split
  · refine (slots.clearNext p).setQueue fun q first => ?_
    cases first
    exact (same _ p).trans used
  · rename_i first eq
    refine (slots.setNext fun q some => ?_).setQueue fun q some => ?_
    · cases some
      exact slots.head i first eq
    · cases some
      exact (same _ p).trans used

theorem Slots.enqueueTail (used : (k.procTable p).inUse = true) : Slots (enqueueTail k i p) := by
  unfold Kernel.enqueueTail
  split
  · refine (slots.setQueue fun q first => ?_).clearNext p
    cases first
    exact used
  · rename_i first eq
    dsimp only
    split
    · refine (slots.setQueue fun q some => ?_).clearNext p
      cases some
      exact slots.head i first eq
    · rename_i last _
      have linked : Slots (k.updateProc last fun proc => { proc with next := some p }) :=
        slots.setNext fun q same => by cases same; exact used
      refine (linked.setQueue fun q same => ?_).clearNext p
      cases same
      rw [updateProc_field Proc.inUse rfl]
      exact slots.head i first eq

theorem Slots.dequeue (took : dequeue k i = some (p, k')) :
    Slots k' ∧ (k'.procTable p).inUse = true := by
  unfold Kernel.dequeue at took
  split at took
  · cases took
  · rename_i head first
    cases took
    refine ⟨(slots.setQueue fun q same => ?_).clearNext p, ?_⟩
    · split_ifs at same
      exact slots.next p q same
    · rw [updateProc_field Proc.inUse rfl]
      exact slots.head i p first

end

end Slots

/-! ### Scheduling and clock ticks -/

section Sched

variable {exitProc : ExitProc} {k k' : Machine}

theorem requeue_slots (slots : Slots k) : Slots (requeue k) := by
  unfold requeue
  split
  · exact slots
  · rename_i cur running
    have used := slots.current cur running
    dsimp only
    split_ifs
    · exact slots.enqueueHead used
    · have lowered : Slots (k.updateProc cur fun p => { p with priority := p.priority + 1 }) :=
        slots.congr rfl rfl (updateProc_field Proc.next rfl) (updateProc_field Proc.inUse rfl)
      refine lowered.enqueueTail ?_
      rw [updateProc_field Proc.inUse rfl]
      exact used
    · exact slots.enqueueTail used
    · exact slots

/-- The loop of `sched` picks processes that are in use. -/
theorem pickRunnable_slots : ∀ {fuel : Nat} {k : Machine}, NoSignals k → Slots k →
    pickRunnable exitProc fuel k = some k' → Slots k'
  | 0, _, _, _, ran => by cases ran
  | fuel + 1, k, quiet, slots, ran => by
      obtain ⟨p, picked, took, rest⟩ := (pickRunnable_succ quiet).mp ran
      obtain ⟨i, -, dequeued⟩ := pickFrom_eq_some took
      obtain ⟨left, used⟩ := slots.dequeue dequeued
      have running : Slots { picked with currentProc := some p } :=
        ⟨left.head, left.next, fun q same => by cases same; exact used⟩
      have same : SameIpc k { picked with currentProc := some p } :=
        (Requeued.dequeue dequeued).sameIpc.trans ⟨rfl, fun _ => rfl⟩
      split_ifs at rest
      · cases rest
        exact running
      · exact pickRunnable_slots (quiet.sameIpc same) running rest

theorem sched_slots (slots : Slots k) (quiet : NoSignals k) (ran : sched exitProc k = some k') :
    Slots k' := by
  obtain ⟨picked, found, rfl⟩ := Option.map_eq_some_iff.mp ran
  exact (refill_sameReady picked).slots
    (pickRunnable_slots (quiet.sameIpc (requeue_sameIpc k)) (requeue_slots slots) found)

theorem Rebalanced.slots (same : Rebalanced k k') (slots : Slots k) : Slots k' := by
  refine slots.congr same.readyQ same.currentProc (fun p => ?_) same.sameIpc.inUse
  rcases same.proc p with eq | eq <;> rw [eq]

end Sched

/-! ### System calls -/

section Trap

variable {k k' : Machine} {cur : ProcNr}

theorem Slots.deliver {pDest : ProcNr} {m : Word} (slots : Slots k)
    (used : (k.procTable pDest).inUse = true) : Slots (deliver k pDest m) := by
  have handed : SameReady (fun _ => True) k (handOver k pDest m) := handOver_sameReady trivial
  exact (handed.slots slots).enqueueHead ((handed.inUse pDest).trans used)

theorem doNotify_slots {src dest result : Int} {m : Word} (slots : Slots k)
    (ran : doNotify k src dest m = some (k', result)) : Slots k' := by
  cases doNotify_notified ran with
  | nobody => exact slots
  | killed => exact slots
  | delivered pDest found =>
    obtain ⟨rfl, -, used⟩ := getProc_eq_some.mp found
    have finished := SameQueues.finishDirect k pDest m
    exact (finished.slots slots).deliver ((finished.inUse pDest).trans used)
  | pending =>
    exact ((SameQueues.saveMessage _ _ _).trans (.listAdd _ _ _)).slots slots

theorem setState_slots {p : ProcNr} (change : Word → Word) (slots : Slots k) :
    Slots (k.updateProc p fun proc => { proc with state := change proc.state }) :=
  slots.congr rfl rfl (updateProc_field Proc.next rfl) (updateProc_field Proc.inUse rfl)

theorem perform_slots {t : Trap} {queues : ProcNr → List ProcNr} (slots : Slots k)
    (senders : Senders k queues) (ran : perform k cur t = some k') : Slots k' := by
  have setRetval_slots : ∀ {k : Machine} value, Slots k → Slots (setRetval k cur value) :=
    fun value slots => (SameQueues.setRetval _ cur value).slots slots
  cases perform_performed ran with
  | refused reply result =>
    exact setState_slots (lower · .receiving)
      (setRetval_slots result ((sendState_sameReady k cur reply t.message).slots slots))
  | delivered reply pDest operation did found =>
    obtain ⟨rfl, -, used⟩ := getProc_eq_some.mp found
    exact setRetval_slots _ (((sendState_sameReady k cur reply _).slots slots).deliver used)
  | blocked reply pDest =>
    exact setRetval_slots _
      ((block_sameReady _).slots ((sendState_sameReady k cur reply _).slots slots))
  | took p operation empty first =>
    obtain ⟨rest, shape, -⟩ := senders.cells_of_head_some first
    have used := ((senders.sending p).mpr ⟨cur, shape ▸ List.mem_cons_self⟩).1
    have collected := collect_sameReady k cur p t.message
    refine setRetval_slots _ ?_
    simp only [takeFrom]
    split_ifs
    · exact (collected.slots slots).enqueueHead ((collected.inUse p).trans used)
    · exact collected.slots slots
  | waits =>
    refine setRetval_slots _ ?_
    exact setState_slots (raise · .receiving) ((SameQueues.saveMessage _ _ _).slots slots)
  | noticed p =>
    refine setRetval_slots _ ?_
    exact ((SameQueues.listDel k p).trans (.copyMessage _ _ _)).slots slots
  | notified after result operation done => exact setRetval_slots _ (doNotify_slots slots done)
  | unknown => exact setRetval_slots _ slots

end Trap

/-! ### Every event -/

/-- What holds in every state of a run. -/
structure Steady (k : Machine) : Prop where
  table : ∀ p, (k.procTable p).inUse = true → p ∈ procSlots
  noSignals : NoSignals k
  onlySched : OnlySched k.clock
  slots : Slots k
  able : ∀ cur, k.currentProc = some cur → (k.procTable cur).state = runnable
  senders : ∃ queues, Senders k queues

section Step

variable {exitProc : ExitProc} {k k' : Machine} {cur : ProcNr}
variable {stores : List (Word × Word)}

/-- The machine between a system call and the scheduler. -/
structure Trapped (k : Machine) : Prop where
  table : ∀ p, (k.procTable p).inUse = true → p ∈ procSlots
  noSignals : NoSignals k
  onlySched : OnlySched k.clock
  slots : Slots k
  senders : ∃ queues, Senders k queues

theorem not_isSending_of_runnable (able : (k.procTable cur).state = runnable) : ¬ IsSending k cur := by
  rintro ⟨-, sending⟩
  rw [able, has_runnable] at sending
  cases sending

theorem SameQueues.steady (same : SameQueues k k') (steady : Steady k) : Steady k' := by
  obtain ⟨queues, senders⟩ := steady.senders
  refine ⟨fun p => by rw [same.inUse]; exact steady.table p, fun p => ?_,
    same.clock ▸ steady.onlySched,
    same.slots steady.slots, fun p current => ?_,
    queues, (SameSenders.of_sameQueues same).senders senders⟩
  · rw [(SameConst.of_sameQueues same).sigPending]
    exact steady.noSignals p
  · rw [same.state]
    exact steady.able p (same.currentProc ▸ current)

theorem trap_trapped (steady : Steady k) (running : k.currentProc = some cur)
    (ran : trap k cur = some k') : Trapped k' := by
  have fetched := (SameQueues.fetch k cur).steady steady
  have running' : (fetch k cur).currentProc = some cur :=
    (SameQueues.fetch k cur).currentProc.trans running
  obtain ⟨queues, senders⟩ := fetched.senders
  have same := SameConst.perform ran
  refine ⟨fun p => by rw [same.inUse]; exact fetched.table p,
    fun p => (same.sigPending p).trans (fetched.noSignals p), same.clock ▸ fetched.onlySched,
    perform_slots fetched.slots senders ran, ?_⟩
  obtain ⟨queues', -, senders'⟩ := perform_queues senders (fetched.slots.current cur running')
    (not_isSending_of_runnable (fetched.able cur running')) ran
  exact ⟨queues', senders'⟩

/-- **Scheduling makes a trapped machine steady.** -/
theorem sched_steady (trapped : Trapped k) (ran : sched exitProc k = some k') : Steady k' := by
  obtain ⟨same, clockEq, cur, current, able⟩ := sched_sameIpc trapped.noSignals ran
  obtain ⟨queues, senders⟩ := trapped.senders
  refine ⟨fun p => by rw [same.inUse]; exact trapped.table p, trapped.noSignals.sameIpc same,
    clockEq ▸ trapped.onlySched,
    sched_slots trapped.slots trapped.noSignals ran, fun p eq => ?_,
    queues, (SameSenders.of_sameIpc same).senders senders⟩
  rw [current] at eq
  cases eq
  exact able

theorem Steady.trapped (steady : Steady k) : Trapped k :=
  ⟨steady.table, steady.noSignals, steady.onlySched, steady.slots, steady.senders⟩

theorem compute_frame {regs : Nat → Word} {sp : Word} (ran : compute k regs sp stores = some k') :
    k'.memory = storeAll k.memory stores ∧ ∀ {β : Type} (field : Proc → β),
      (∀ (p : Proc) ctx, field { p with ctx := ctx } = field p) →
        ∀ p, field (k'.procTable p) = field (k.procTable p) := by
  unfold compute at ran
  split at ran
  · cases ran
  · cases ran
    refine ⟨rfl, fun field other p => ?_⟩
    have kept := fun cur => @Machine.updateProc_field _ k cur
      (fun p => { p with ctx := { p.ctx with regs := regs, sp := sp } }) field (other _ _) p
    exact kept _

theorem compute_sameQueues {regs : Nat → Word} {sp : Word}
    (ran : compute k regs sp stores = some k') : SameQueues k k' := by
  unfold compute at ran
  split at ran
  · cases ran
  · rename_i cur _
    cases ran
    have changed : SameQueues k (k.updateProc cur fun p =>
      { p with ctx := { p.ctx with regs := regs, sp := sp } }) := .updateProc ⟨_, _, _, _, rfl⟩ rfl
    exact changed.trans (.of_procTable rfl rfl rfl rfl)

/-- **Every event keeps the machine steady.** -/
theorem step_steady (steady : Steady k) {event : Event} (ran : step exitProc k event = some k') :
    Steady k' := by
  cases event with
  | user regs sp stores => exact (compute_sameQueues ran).steady steady
  | syscall =>
    obtain ⟨cur, trapped, running, did, scheduled⟩ := syscallHandler_eq_some.mp ran
    exact sched_steady (trap_trapped steady running did) scheduled
  | tick =>
    obtain ⟨ticked, quiet, only, ⟨cur, rebalanced⟩, scheduled⟩ :=
      clockHandler_ticked steady.noSignals steady.onlySched ran
    obtain ⟨queues, senders⟩ := steady.senders
    have same := (account_sameIpc k cur).trans rebalanced.sameIpc
    exact sched_steady ⟨fun p => by rw [same.inUse]; exact steady.table p, quiet, only,
      rebalanced.slots ((account_sameReady cur).slots steady.slots),
      queues, (SameSenders.of_sameIpc same).senders senders⟩ scheduled
  | sched => exact sched_steady steady.trapped ran

end Step

end Winix.Kernel
