/-
**The ready queues over whole runs.**

`InOrder k`: every ready queue is a null-terminated chain, no process is in the queues twice, and
every process that is in use, runnable and not running is in them once.

* **`inOrder_of_orderly`**: it holds in every run from the boot in which every system call is `Orderly`.
* `Orderly` excludes two system calls. A process that asks itself for a reply is put into a queue
  while it runs; a message delivered to a process that is also sending or stopped puts a process
  into a queue that cannot run. `selfReply_not_inOrder` is a run with the first one.
-/

import Mathlib.Tactic.IntervalCases
import Winix.Kernel.Boot

namespace Winix.Kernel

open Lib

/-! ### Orderly system calls -/

/-- The system call does not ask the caller itself for a reply, and delivers a message only to a
process that waits for a message and nothing else. -/
def OrderlyTrap (k : Machine) (cur : ProcNr) (t : Trap) : Prop :=
  (t.operation = winixSendrec → t.dest ≠ cur) ∧
  (t.operation = winixSendrec ∨ t.operation = winixSend → ∀ pDest ∈ getProc k t.dest,
    has (k.procTable pDest).state .receiving = true → deadlocks k cur pDest = some false →
      (k.procTable pDest).state = raise runnable .receiving)

/-- The event is no system call, or an orderly one. -/
def Orderly (k : Machine) : Event → Prop
  | .syscall => ∀ cur ∈ k.currentProc, OrderlyTrap k cur (decode k cur).2
  | _ => True

instance (k : Machine) (cur : ProcNr) (t : Trap) : Decidable (OrderlyTrap k cur t) :=
  inferInstanceAs (Decidable (_ ∧ _))

instance (k : Machine) : ∀ event, Decidable (Orderly k event)
  | .syscall => inferInstanceAs (Decidable (∀ cur ∈ k.currentProc, _))
  | .user .. | .tick | .sched => isTrue trivial

section Trap

variable {k k' : Machine} {cur : ProcNr} {t : Trap}

/-- What is orderly before the message is made is orderly afterwards. -/
theorem OrderlyTrap.of_sameQueues (orderly : OrderlyTrap k cur t) (same : SameQueues k k') :
    OrderlyTrap k' cur t := by
  refine ⟨orderly.1, fun sends pDest found receiving agreed => ?_⟩
  rw [same.getProc] at found
  rw [same.state] at receiving ⊢
  rw [deadlocks_congr (.of_sameQueues same)] at agreed
  exact orderly.2 sends pDest found receiving agreed

theorem perform_readyInv {queues : ProcNr → List ProcNr} (inv : ReadyInv k)
    (senders : Senders k queues) (running : k.currentProc = some cur)
    (able : (k.procTable cur).state = runnable) (orderly : OrderlyTrap k cur t)
    (ran : perform k cur t = some k') : ReadyInv k' := by
  have setRetval_readyInv : ∀ {k : Machine} value, ReadyInv k → ReadyInv (setRetval k cur value) :=
    fun value inv => (SameReady.of_sameQueues (.setRetval _ cur value)).of_tight inv
  have alone : ∀ p, p = cur → k.currentProc = some p := fun _ here => here ▸ running
  cases perform_performed ran with
  | refused reply result =>
    have sent := sendState_sameReady k cur reply t.message
    refine SameReady.readyInv ((sent.trans (.of_sameQueues (.setRetval _ cur result))).trans
      (.setState (lower · .receiving) rfl)) alone inv
  | delivered reply pDest operation did found agreed receiving =>
    have sent := sendState_sameReady k cur reply t.message
    have sends : t.operation = winixSendrec ∨ t.operation = winixSend := by
      cases reply
      · exact .inr operation
      · exact .inl operation
    rw [sent.getProc] at found
    obtain ⟨rfl, -, used⟩ := getProc_eq_some.mp found
    have other : t.dest ≠ cur := by
      intro self
      cases reply
      · -- the sender itself can run, so it is not receiving
        rw [self, sendState, saveMessage, Machine.updateProc_field Proc.state rfl] at receiving
        simp [able] at receiving
      · exact orderly.1 operation self
    rw [sent.state _ other] at receiving
    rw [deadlocks_congr (sendState_sameSenders k cur reply _)] at agreed
    exact setRetval_readyInv _ (inv.deliver running sent other used
      (orderly.2 sends _ found receiving agreed))
  | blocked reply pDest =>
    have sent := sendState_sameReady k cur reply t.message
    exact setRetval_readyInv _ ((sent.trans (block_sameReady _)).readyInv alone inv)
  | took p operation empty first =>
    obtain ⟨rest, shape, -⟩ := senders.cells_of_head_some first
    have sending := (senders.sending p).mpr ⟨cur, shape ▸ List.mem_cons_self⟩
    refine setRetval_readyInv _ (inv.unblock running (collect_sameReady k cur p _) ?_ sending.1
      (ne_runnable_of_has sending.2))
    rintro rfl
    exact not_isSending_of_runnable able sending
  | waits =>
    refine setRetval_readyInv _ (SameReady.readyInv ?_ alone inv)
    exact (SameReady.of_sameQueues (.saveMessage _ _ _)).trans (.setState (raise · .receiving) rfl)
  | noticed p =>
    refine setRetval_readyInv _ (SameReady.of_tight (.of_sameQueues ?_) inv)
    exact (SameQueues.listDel k p).trans (.copyMessage _ _ _)
  | notified after result operation done =>
    exact setRetval_readyInv _ (doNotify_readyInv inv running able done)
  | unknown => exact setRetval_readyInv _ inv

end Trap

/-! ### Runs -/

/-- The machine is steady and its ready queues are in order. -/
structure SchedInv (k : Machine) : Prop extends Steady k, ReadyInv k

/-- **Every event keeps the ready queues in order, provided it is orderly.** -/
theorem step_schedInv {exitProc : ExitProc} (k : Machine) (event : Event) (k' : Machine)
    (inv : SchedInv k) (orderly : Orderly k event) (ran : step exitProc k event = some k') :
    SchedInv k' := by
  refine ⟨step_steady inv.toSteady ran, ?_⟩
  cases event with
  | user regs sp stores =>
    exact (SameReady.of_sameQueues (compute_sameQueues ran)).of_tight inv.toReadyInv
  | syscall =>
    obtain ⟨cur, trapped, running, did, scheduled⟩ := syscallHandler_eq_some.mp ran
    have same := SameQueues.fetch k cur
    have fetched := same.steady inv.toSteady
    have running' : (fetch k cur).currentProc = some cur := same.currentProc.trans running
    obtain ⟨queues, senders⟩ := fetched.senders
    have ready := perform_readyInv ((SameReady.of_sameQueues same).of_tight inv.toReadyInv) senders
      running' (fetched.able cur running') ((orderly cur running).of_sameQueues same) did
    exact sched_readyInv ready (trap_trapped inv.toSteady running did).noSignals scheduled
  | tick => exact clockHandler_readyInv inv.toReadyInv inv.noSignals inv.onlySched ran
  | sched => exact sched_readyInv inv.toReadyInv inv.noSignals ran

/-- Every ready queue is a null-terminated chain, no process is in them twice, and every process
that is in use, runnable and not running is in them exactly once. -/
def InOrder (k : Machine) : Prop :=
  ∃ queues : Nat → List ProcNr,
    (∀ i < numQueues, Chain (nextReady k) (readyHead k i) (queues i)) ∧
    ((List.range numQueues).flatMap queues).Nodup ∧
    ∀ p, (k.procTable p).inUse = true → (k.procTable p).state = runnable →
      k.currentProc ≠ some p → ((List.range numQueues).flatMap queues).count p = 1

theorem ReadyInv.inOrder {k : Machine} (inv : ReadyInv k) : InOrder k := by
  obtain ⟨queues, inQueues⟩ := inv.queued
  have nodup : ((List.range numQueues).flatMap queues).Nodup := by
    rw [List.nodup_flatMap]
    refine ⟨fun i _ => (inQueues.chain i).nodup, List.nodup_range.imp fun {i j} ne => ?_⟩
    exact fun p inI inJ => ne (inQueues.apart inI inJ)
  refine ⟨queues, fun i _ => inQueues.chain i, nodup, fun p used able other => ?_⟩
  obtain ⟨i, member⟩ := (inQueues.exactly p).mp ⟨used, able, other⟩
  exact List.count_eq_one_of_mem nodup
    (List.mem_flatMap.mpr ⟨i, List.mem_range.mpr (inQueues.inRange member), member⟩)

/-- **The ready queues are in order** in every state that orderly system calls, clock ticks and calls
of the scheduler reach from the boot. -/
theorem inOrder_of_orderly {exitProc : ExitProc} {k k' : Machine} {events : List Event}
    (boot : Boot k) (orderly : Meets (step exitProc) Orderly k events)
    (ran : runFrom (step exitProc) k events = some k') : InOrder k' :=
  (runFrom_invariant SchedInv step_schedInv events ⟨boot.steady, boot.readyInv⟩ orderly
    ran).toReadyInv.inOrder

/-! ### Two runs -/

/-- Process 1 receives, process 2 asks it for a reply. -/
def exchange : Machine :=
  stacked [1, 2] (onStack 1 winixReceive 0 512 ++ onStack 2 winixSendrec 1 512)

/-- An orderly run: process 1 waits, process 2 sends to it and waits for the reply, the clock ticks. -/
theorem exchange_inOrder :
    ∃ k', runFrom (step noExit) exchange [.sched, .syscall, .syscall, .tick] = some k' ∧
      InOrder k' := by
  obtain ⟨k', ran⟩ := Option.isSome_iff_exists.mp (by decide +kernel :
    (runFrom (step noExit) exchange [.sched, .syscall, .syscall, .tick]).isSome = true)
  exact ⟨k', ran, inOrder_of_orderly (boot_bootMachine (by decide) (by decide) _ _ _)
    (by decide +kernel) ran⟩

/-- Process 1 asks itself for a reply, process 2 is ready. -/
def selfReply : Machine := stacked [1, 2] (onStack 1 winixSendrec 1 512)

/-- What `selfReply` has come to after the system call. -/
theorem selfReply_run : (runFrom (step noExit) selfReply [.sched, .syscall]).map (fun k =>
      ((List.range numQueues).map (readyHead k), nextReady k 1, k.currentProc,
        (k.procTable 2).inUse, (k.procTable 2).state)) =
      some ([some 1, none, none, none, none], none, some 1, true, runnable) := by
  decide +kernel

/-- **A process that asks itself for a reply loses the rest of its queue**: it is put at the head of
the queue while it runs, and once more by the scheduler, so its `next` points to itself when it is
taken out. Process 2 can run and is in no queue. -/
theorem selfReply_not_inOrder :
    Boot selfReply ∧
      ∃ k', runFrom (step noExit) selfReply [.sched, .syscall] = some k' ∧ ¬ InOrder k' := by
  refine ⟨boot_bootMachine (by decide) (by decide) _ _ _, ?_⟩
  obtain ⟨k', ran, summary⟩ := Option.map_eq_some_iff.mp selfReply_run
  refine ⟨k', ran, ?_⟩
  simp only [Prod.mk.injEq] at summary
  obtain ⟨heads, ends, running, used, able⟩ := summary
  simp only [numQueues, List.range, List.range.loop, List.map_cons, List.map_nil, List.cons.injEq,
    and_true] at heads
  obtain ⟨head0, head1, head2, head3, head4⟩ := heads
  rintro ⟨queues, chains, -, once⟩
  have queue0 : queues 0 = [1] := by
    have chain := chains 0 (by decide)
    rw [head0] at chain
    obtain ⟨rest, shape, chain⟩ := chain.eq_cons_of_some
    rw [ends] at chain
    rw [shape, chain.eq_nil_of_none]
  have empty : ∀ i, 0 < i → i < numQueues → queues i = [] := by
    intro i positive small
    have chain := chains i small
    have headNone : readyHead k' i = none := by
      simp only [numQueues] at small
      interval_cases i <;> assumption
    rw [headNone] at chain
    exact chain.eq_nil_of_none
  have absent := once 2 used able (by rw [running]; decide)
  simp only [numQueues, List.range, List.range.loop, List.flatMap_cons, List.flatMap_nil, queue0,
    empty 1 (by decide) (by decide), empty 2 (by decide) (by decide),
    empty 3 (by decide) (by decide), empty 4 (by decide) (by decide)] at absent
  revert absent
  decide

end Winix.Kernel
