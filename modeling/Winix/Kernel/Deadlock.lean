/-
**Blocking sends and cycles of waiting processes.**

`WaitsFor k p q`: the process `p` is sending and stands in the sender queue of `q`. A cycle of this
relation is a set of processes that none but a signal can wake.

* **`running_and_queued`**: in every run, who is sending is queued once, and the check ends;
* **`acyclic_of_unclosed`**: there is none in any run in which no send closes one behind the back of the
  check (`Unclosed`).
* The check looks at the sender's own queue only, and only when the destination is itself sending
  (`sends_close_cycles`).
-/

import Winix.Kernel.Boot
import Winix.Lib.Acyclic

namespace Winix.Kernel

open Lib Relation

/-- The process `p` is sending, and is in the sender queue of `q`. -/
def WaitsFor (k : Machine) (p q : ProcNr) : Prop :=
  IsSending k p ∧ ∃ cells, Chain (nextSender k) (senderQ k q) cells ∧ p ∈ cells

/-- A process that waits for the caller makes `do_send` return `EDEADLK`, without a change to the
sender queues. -/
def Refuses (k : Machine) : Prop :=
  ∀ (reply : Bool) (cur dest : ProcNr) (m : Word), k.currentProc = some cur → WaitsFor k dest cur →
    ∃ after, doSend (if reply then expectReply k cur else k) cur dest m = some (after, edeadlk) ∧
      senderQ after = senderQ k ∧ nextSender after = nextSender k

/-- The send is not to the caller itself, and not to a process that waits for the caller through
another one. -/
def UnclosedTrap (k : Machine) (cur : ProcNr) (t : Trap) : Prop :=
  (t.operation = winixSend → t.dest ≠ cur) ∧
  (t.operation = winixSend ∨ t.operation = winixSendrec →
    has (k.procTable t.dest).state .receiving = false →
      ∀ other, WaitsFor k t.dest other → other ≠ cur → ¬ TransGen (WaitsFor k) other cur)

/-- The event is no system call, or one that closes no cycle the check does not see. -/
def Unclosed (k : Machine) : Event → Prop
  | .syscall => ∀ cur ∈ k.currentProc, UnclosedTrap k cur (decode k cur).2
  | _ => True

section Senders

variable {k k' : Machine} {queues : ProcNr → List ProcNr}

theorem Senders.waitsFor_iff (senders : Senders k queues) {p q : ProcNr} :
    WaitsFor k p q ↔ p ∈ queues q := by
  constructor
  · rintro ⟨-, cells, chain, member⟩
    rwa [Chain.unique chain (senders.chain q)] at member
  · intro member
    exact ⟨(senders.sending p).mpr ⟨q, member⟩, queues q, senders.chain q, member⟩

theorem SameSenders.waitsFor (same : SameSenders k k') : WaitsFor k' = WaitsFor k := by
  have next : Kernel.nextSender k' = Kernel.nextSender k := funext same.nextSender
  have head : Kernel.senderQ k' = Kernel.senderQ k := funext same.senderQ
  funext p q
  rw [WaitsFor, WaitsFor, IsSending, IsSending, same.inUse, same.sending, next, head]

theorem Senders.deadlocks_eq (senders : Senders k queues)
    (table : ∀ p, (k.procTable p).inUse = true → p ∈ procSlots) {cur pDest : ProcNr}
    (waits : WaitsFor k pDest cur) : deadlocks k cur pDest = some true := by
  have inTable : queues cur ⊆ procSlots := fun p member =>
    table p ((senders.sending p).mpr ⟨cur, member⟩).1
  have short := (List.subperm_of_subset (senders.chain cur).nodup inTable).length_le
  rw [deadlocks, if_pos waits.1.2, ← senderQ, inSenderQ_eq_some pDest short (senders.chain cur),
    decide_eq_true (senders.waitsFor_iff.mp waits)]

/-- **The check refuses a send to a process that waits for the caller.** -/
theorem Senders.refuses (senders : Senders k queues)
    (table : ∀ p, (k.procTable p).inUse = true → p ∈ procSlots) : Refuses k := by
  intro reply cur dest m running waits
  have same := sendState_sameSenders k cur reply m
  have found : getProc (sendState k cur reply m) dest = some dest := by
    rw [sendState_inUse, getProc_eq_some]
    exact ⟨rfl, mem_procSlots.mpr (table dest waits.1.1), waits.1.1⟩
  refine ⟨sendState k cur reply m, ?_, funext same.senderQ, funext same.nextSender⟩
  rw [doSend_sendState, sendTo, found]
  dsimp only
  rw [deadlocks_congr same, senders.deadlocks_eq table waits]
  rfl

end Senders

/-! ### One operation -/

section Perform

variable {k k' : Machine} {cur : ProcNr} {t : Trap} {queues queues' : ProcNr → List ProcNr}

/-- A send that blocks and is not excluded does not lead back to the sender. -/
theorem UnclosedTrap.away (unclosed : UnclosedTrap k cur t) (senders : Senders k queues)
    (table : ∀ p, (k.procTable p).inUse = true → p ∈ procSlots) {reply : Bool} {pDest : ProcNr}
    (operation : t.operation = if reply then winixSendrec else winixSend)
    (found : getProc k t.dest = some pDest)
    (busy : has ((sendState k cur reply t.message).procTable pDest).state .receiving = false)
    (agreed : deadlocks k cur pDest = some false) : ¬ ReflTransGen (WaitsFor k) pDest cur := by
  obtain ⟨rfl, -, -⟩ := getProc_eq_some.mp found
  have notCur : t.dest ≠ cur := by
    intro self
    cases reply with
    | false => exact unclosed.1 operation self
    | true =>
      -- a caller that asks itself for a reply is receiving, and is not blocked
      rw [self, sendState, saveMessage, Machine.updateProc_field Proc.state rfl, if_pos rfl,
        expectReply, Machine.updateProc_same, has_raise_self] at busy
      cases busy
  rw [(sendState_sameReady k cur reply t.message).state _ notCur] at busy
  have sends : t.operation = winixSend ∨ t.operation = winixSendrec := by
    cases reply
    · exact .inl operation
    · exact .inr operation
  intro walk
  rcases reaches_cases walk with self | waits | ⟨other, waits, ne, rest⟩
  · exact notCur self
  · rw [senders.deadlocks_eq table waits] at agreed
    cases agreed
  · exact unclosed.2 sends busy other waits ne rest

/-- **No operation closes a cycle**, unless it is one of those excluded. -/
theorem QueueChange.acyclic (change : QueueChange k cur t queues queues')
    (acyclic : Acyclic (WaitsFor k)) (unclosed : UnclosedTrap k cur t) (senders : Senders k queues)
    (table : ∀ p, (k.procTable p).inUse = true → p ∈ procSlots) :
    Acyclic fun p q => p ∈ queues' q := by
  have before : Acyclic fun p q => p ∈ queues q :=
    acyclic.mono fun _ _ member => senders.waitsFor_iff.mpr member
  cases change with
  | same => exact before
  | blocked reply pDest operation found busy agreed =>
    have away := unclosed.away senders table operation found busy agreed
    refine (acyclic.add_edge away).mono fun p q member => ?_
    rcases mem_update.mp member with ⟨rfl, added⟩ | ⟨-, member⟩
    · rcases List.mem_cons.mp added with rfl | member
      · exact .inr ⟨rfl, rfl⟩
      · exact .inl (senders.waitsFor_iff.mpr member)
    · exact .inl (senders.waitsFor_iff.mpr member)
  | took p rest shape =>
    refine before.mono fun p q member => ?_
    rcases mem_update.mp member with ⟨rfl, inRest⟩ | ⟨-, inQueue⟩
    · exact shape ▸ List.mem_cons_of_mem _ inRest
    · exact inQueue

end Perform

/-! ### Runs -/

/-- The machine is steady and nobody waits in a cycle. -/
structure WaitInv (k : Machine) : Prop extends Steady k where
  acyclic : Acyclic (WaitsFor k)

theorem UnclosedTrap.of_sameQueues {k k' : Machine} {cur : ProcNr} {t : Trap}
    (unclosed : UnclosedTrap k cur t) (same : SameQueues k k') : UnclosedTrap k' cur t := by
  refine ⟨unclosed.1, fun sends busy => ?_⟩
  rw [(SameSenders.of_sameQueues same).waitsFor]
  rw [same.state] at busy
  exact unclosed.2 sends busy

/-- **Every event keeps the processes out of cycles**, unless it is one of those excluded. -/
theorem step_waitInv {exitProc : ExitProc} (k : Machine) (event : Event) (k' : Machine)
    (inv : WaitInv k) (unclosed : Unclosed k event) (ran : step exitProc k event = some k') :
    WaitInv k' := by
  refine ⟨step_steady inv.toSteady ran, ?_⟩
  cases event with
  | user regs sp stores =>
    rw [(SameSenders.of_sameQueues (compute_sameQueues ran)).waitsFor]
    exact inv.acyclic
  | syscall =>
    obtain ⟨cur, trapped, running, did, scheduled⟩ := syscallHandler_eq_some.mp ran
    have same := SameQueues.fetch k cur
    have fetched := same.steady inv.toSteady
    have running' : (fetch k cur).currentProc = some cur := same.currentProc.trans running
    obtain ⟨queues, senders⟩ := fetched.senders
    obtain ⟨queues', change, senders'⟩ := perform_queues senders
      (fetched.slots.current cur running') (not_isSending_of_runnable (fetched.able cur running')) did
    have acyclic : Acyclic (WaitsFor (fetch k cur)) := by
      rw [(SameSenders.of_sameQueues same).waitsFor]
      exact inv.acyclic
    have after := change.acyclic acyclic ((unclosed cur running).of_sameQueues same) senders
      fetched.table
    obtain ⟨scheduledSame, -⟩ := sched_sameIpc
      (trap_trapped inv.toSteady running did).noSignals scheduled
    rw [(SameSenders.of_sameIpc scheduledSame).waitsFor]
    exact after.mono fun _ _ waits => senders'.waitsFor_iff.mp waits
  | tick =>
    rw [(SameSenders.of_sameIpc (clockHandler_sameIpc inv.noSignals inv.onlySched ran).1).waitsFor]
    exact inv.acyclic
  | sched =>
    rw [(SameSenders.of_sameIpc (sched_sameIpc inv.noSignals ran).1).waitsFor]
    exact inv.acyclic

/-- **Nobody waits in a cycle** in any state that events which close none behind the back of the
check reach from the boot, and a send that would close one in sight of the check is refused. -/
theorem acyclic_of_unclosed {exitProc : ExitProc} {k k' : Machine} {events : List Event}
    (boot : Boot k) (unclosed : Meets (step exitProc) Unclosed k events)
    (ran : runFrom (step exitProc) k events = some k') :
    Acyclic (WaitsFor k') ∧ Refuses k' := by
  have quiet : Acyclic (WaitsFor k) := by
    intro p cycle
    obtain ⟨q, waits, -⟩ := TransGen.head'_iff.mp cycle
    exact not_isSending_of_runnable (boot.able p waits.1.1) waits.1
  have inv := runFrom_invariant WaitInv step_waitInv events ⟨boot.steady, quiet⟩ unclosed ran
  obtain ⟨queues, senders⟩ := inv.senders
  exact ⟨inv.acyclic, senders.refuses inv.table⟩

/-! ### Two runs -/

/-- The event is no system call, or one to another process that is not itself sending. -/
def Plain (k : Machine) : Event → Prop
  | .syscall => ∀ cur ∈ k.currentProc, ((decode k cur).2.operation = winixSend →
      (decode k cur).2.dest ≠ cur) ∧ ¬ IsSending k (decode k cur).2.dest
  | _ => True

instance (k : Machine) : ∀ event, Decidable (Plain k event)
  | .syscall => inferInstanceAs (Decidable (∀ cur ∈ k.currentProc, _))
  | .user .. | .tick | .sched => isTrue trivial

/-- Nobody waits in a cycle while nobody sends to a process that is sending. -/
theorem unclosed_of_plain (k : Machine) (event : Event) (plain : Plain k event) : Unclosed k event := by
  cases event with
  | syscall =>
    intro cur running
    obtain ⟨other, idle⟩ := plain cur running
    exact ⟨other, fun _ _ _ waits => absurd waits.1 idle⟩
  | user => trivial
  | tick => trivial
  | sched => trivial

/-- Process 1 sends to process 2, which then receives; process 3 is ready. -/
def oneWay : Machine :=
  stacked [1, 2, 3] (onStack 1 winixSend 2 512 ++ onStack 2 winixReceive 0 512)

/-- A run in which a send blocks and is taken up again. -/
theorem oneWay_acyclic :
    ∃ k', runFrom (step noExit) oneWay [.sched, .syscall, .syscall, .tick] = some k' ∧
      Acyclic (WaitsFor k') ∧ Refuses k' := by
  obtain ⟨k', ran⟩ := Option.isSome_iff_exists.mp (by decide +kernel :
    (runFrom (step noExit) oneWay [.sched, .syscall, .syscall, .tick]).isSome = true)
  have plain : Meets (step noExit) Plain oneWay [.sched, .syscall, .syscall, .tick] := by
    decide +kernel
  exact ⟨k', ran, acyclic_of_unclosed (boot_bootMachine (by decide) (by decide) _ _ _)
    (plain.mono unclosed_of_plain) ran⟩

/-- **Whoever runs can run, and whoever sends is queued once**, in every state that any events reach
from the boot. The walk of the deadlock check ends, and finds out whether a process is in a queue. -/
theorem running_and_queued {exitProc : ExitProc} {k k' : Machine} {events : List Event} (boot : Boot k)
    (ran : runFrom (step exitProc) k events = some k') :
    (∀ cur ∈ k'.currentProc, (k'.procTable cur).inUse = true ∧ (k'.procTable cur).state = runnable) ∧
    ∃ queues, Senders k' queues ∧
      ∀ p q, inSenderQ k' p procSlots.length (senderQ k' q) = some (decide (p ∈ queues q)) := by
  have steady := runFrom_invariant Steady (fun _ _ _ steady _ stepped => step_steady steady stepped)
    events boot.steady (Meets.of_forall (fun _ _ => trivial) _ _) ran
  obtain ⟨queues, senders⟩ := steady.senders
  refine ⟨fun cur running => ⟨steady.slots.current cur running, steady.able cur running⟩, queues,
    senders,
    fun p q => inSenderQ_eq_some p ?_ (senders.chain q)⟩
  have inTable : queues q ⊆ procSlots := fun p member =>
    steady.table p ((senders.sending p).mpr ⟨q, member⟩).1
  exact (List.subperm_of_subset (senders.chain q).nodup inTable).length_le

/-- Process 1 sends to itself; process 2 is ready. -/
def selfSend : Machine := stacked [1, 2] (onStack 1 winixSend 1 512)

/-- A run that closes a cycle. -/
theorem selfSend_queued : ∃ k', runFrom (step noExit) selfSend [.sched, .syscall] = some k' ∧
    ∃ queues, Senders k' queues := by
  obtain ⟨k', ran⟩ := Option.isSome_iff_exists.mp (by decide +kernel :
    (runFrom (step noExit) selfSend [.sched, .syscall]).isSome = true)
  obtain ⟨-, queues, senders, -⟩ :=
    running_and_queued (boot_bootMachine (by decide) (by decide) _ _ _) ran
  exact ⟨k', ran, queues, senders⟩

/-- Processes 1, 2 and 3 send to the next one in the ring; process 4 is ready. -/
def ring : Machine :=
  stacked [1, 2, 3, 4]
    (onStack 1 winixSend 2 512 ++ onStack 2 winixSend 3 512 ++ onStack 3 winixSend 1 512)

theorem waitsFor_of_only {k : Machine} {p q : ProcNr} (sending : IsSending k p)
    (first : senderQ k q = some p) (only : nextSender k p = none) : WaitsFor k p q :=
  ⟨sending, [p], ⟨first, only⟩, List.mem_singleton.mpr rfl⟩

/-- **Two sends that close a cycle**: to oneself, and to a process that waits for the sender through
another. Both return `OK`, and the senders are in each other's queues for good. -/
theorem sends_close_cycles :
    (Boot selfSend ∧ ∃ k', runFrom (step noExit) selfSend [.sched, .syscall] = some k' ∧
      (k'.procTable 1).ctx.regs 0 = 0#32 ∧ ¬ Acyclic (WaitsFor k')) ∧
    Boot ring ∧ ∃ k', runFrom (step noExit) ring [.sched, .syscall, .syscall, .syscall] = some k' ∧
      (k'.procTable 3).ctx.regs 0 = 0#32 ∧ ¬ Acyclic (WaitsFor k') := by
  refine ⟨⟨boot_bootMachine (by decide) (by decide) _ _ _, ?_⟩,
    boot_bootMachine (by decide) (by decide) _ _ _, ?_⟩
  · obtain ⟨k', ran, sending, first, only, result⟩ := exists_of_any (by decide +kernel :
      (runFrom (step noExit) selfSend [.sched, .syscall]).any (fun k' =>
        decide (IsSending k' 1 ∧ senderQ k' 1 = some 1 ∧ nextSender k' 1 = none ∧
          (k'.procTable 1).ctx.regs 0 = 0#32)) = true)
    exact ⟨k', ran, result, fun acyclic =>
      acyclic 1 (.single (waitsFor_of_only sending first only))⟩
  · obtain ⟨k', ran, ⟨one, two, three⟩, ⟨first, second, third⟩, ⟨only, only', only''⟩, result⟩ :=
      exists_of_any (by decide +kernel :
        (runFrom (step noExit) ring [.sched, .syscall, .syscall, .syscall]).any (fun k' =>
          decide ((IsSending k' 1 ∧ IsSending k' 2 ∧ IsSending k' 3) ∧
            (senderQ k' 2 = some 1 ∧ senderQ k' 3 = some 2 ∧ senderQ k' 1 = some 3) ∧
            (nextSender k' 1 = none ∧ nextSender k' 2 = none ∧ nextSender k' 3 = none) ∧
            (k'.procTable 3).ctx.regs 0 = 0#32)) = true)
    refine ⟨k', ran, result, fun acyclic => acyclic 1 ?_⟩
    exact ((TransGen.single (waitsFor_of_only one first only)).tail
      (waitsFor_of_only two second only')).tail (waitsFor_of_only three third only'')

end Winix.Kernel
