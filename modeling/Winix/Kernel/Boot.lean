/-
**The boot.**

The kernel starts its processes, puts them into the ready queues and calls the scheduler.

* `Boot k` says what holds at that moment, for any set of processes;
* `bootMachine live rbase sp memory` is such a machine (`boot_bootMachine`), for runs on fixed
  machines.
-/

import Winix.Kernel.Steady

namespace Winix.Kernel

open Lib

/-- The machine when the kernel calls the scheduler for the first time: nobody runs, every process
that is in use can run and is in a ready queue, nobody sends. -/
structure Boot (k : Machine) : Prop where
  table : ∀ p, (k.procTable p).inUse = true → p ∈ procSlots
  idle : k.currentProc = none
  able : ∀ p, (k.procTable p).inUse = true → (k.procTable p).state = runnable
  queued : Queued k fun p => (k.procTable p).inUse = true
  priority : ∀ p, (k.procTable p).priority < numQueues
  links : ∀ p q, (k.procTable p).next = some q → (k.procTable q).inUse = true
  senderQ : ∀ p, (k.procTable p).senderQ = none
  notifyQueue : ∀ p, (k.procTable p).notifyQueue = ⟨some p, some p⟩
  noSignals : NoSignals k
  onlySched : OnlySched k.clock

namespace Boot

variable {k : Machine}

/-- At the boot nobody is queued, -/
theorem senders (boot : Boot k) : Senders k fun _ => [] := by
  refine ⟨⟨fun q => boot.senderQ q, fun member => by cases member⟩, fun p => ?_⟩
  refine iff_of_false (fun sending => ?_) (by simp)
  exact not_isSending_of_runnable (boot.able p sending.1) sending

/-- the machine is steady, -/
theorem steady (boot : Boot k) : Steady k := by
  have nobody : ∀ p, k.currentProc ≠ some p := fun p => by simp [boot.idle]
  obtain ⟨queues, inQueues⟩ := boot.queued
  refine ⟨boot.table, boot.noSignals, boot.onlySched, ⟨fun i p first => ?_, boot.links, fun p running =>
    absurd running (nobody p)⟩, fun p running => absurd running (nobody p), _, boot.senders⟩
  obtain ⟨rest, shape, -⟩ := inQueues.cells_of_head_some first
  exact (inQueues.exactly p).mpr ⟨i, shape ▸ List.mem_cons_self⟩

/-- and the ready queues are right. -/
theorem readyInv (boot : Boot k) : ReadyInv k := by
  refine ⟨boot.queued.congr (fun _ => rfl) rfl fun p => ?_, boot.priority, fun p running => ?_⟩
  · simp only [IsWaiting, boot.idle, ne_eq, reduceCtorEq, not_false_eq_true, and_true]
    exact ⟨fun waiting => waiting.1, fun used => ⟨used, boot.able p used⟩⟩
  · rw [boot.idle] at running
    cases running

end Boot

/-- A process as the boot leaves it. A slot that is not in use has every bit of its state set. -/
def freshProc (live : List ProcNr) (rbase sp : ProcNr → Word) (p : ProcNr) : Proc where
  ctx := ⟨fun _ => 0, sp p, 0, 0, rbase p, 0, 0⟩
  state := if p ∈ live then runnable else -1#32
  message := 0
  stackTop := 0
  senderQ := none
  nextSender := none
  notifyQueue := ⟨some p, some p⟩
  next := Chain.successor live p
  priority := maxPriority
  quantum := 64
  ticksLeft := 0
  timeUsed := 0
  sysTimeUsed := 0
  exitStatus := 0
  sigStatus := 0
  pid := p
  procgrp := 0
  wpid := 0
  woptions := 0
  parent := 0
  flags := if p ∈ live then setBit 0#32 InfoFlag.inUse.bit else 0#32
  sigPending := 0
  sigMask := 0
  sigMask2 := 0
  sigTable := fun _ => ⟨sigDfl, 0, 0⟩
  saRestorer := 0

/-- A machine that boots with these processes, all at the highest priority. -/
def bootMachine (live : List ProcNr) (rbase sp : ProcNr → Word) (memory : Memory) : Machine where
  procTable := freshProc live rbase sp
  readyQ := fun i => if i = maxPriority then ⟨live.head?, live.getLast?⟩ else ⟨none, none⟩
  currentProc := none
  memory := memory
  clock := ⟨0, rebalanceTimeout, some .sched,
    fun _ => ⟨clock, rebalanceTimeout, none, .rebalanceQueues, true⟩⟩
  billPtr := none
  currMesg := 0
  sleepMesg := 0
  sigMesg := 0

theorem freshProc_inUse {live : List ProcNr} {rbase sp : ProcNr → Word} {p : ProcNr} :
    (freshProc live rbase sp p).inUse = true ↔ p ∈ live := by
  unfold Proc.inUse freshProc
  by_cases member : p ∈ live
  · simp [member, hasBit_setBit_self, InfoFlag.bit]
  · simp [member]

/-- There is such a machine for any processes of the table. -/
theorem boot_bootMachine {live : List ProcNr} (nodup : live.Nodup) (inTable : live ⊆ procSlots)
    (rbase sp : ProcNr → Word) (memory : Memory) : Boot (bootMachine live rbase sp memory) where
  table _ used := inTable (freshProc_inUse.mp used)
  idle := rfl
  able p used := if_pos (freshProc_inUse.mp used)
  queued := by
    refine ⟨fun i => if i = maxPriority then live else [], ⟨⟨⟨fun i => ?_, ?_⟩, fun i => ?_⟩,
      fun p => ?_, ?_⟩⟩
    · by_cases top : i = maxPriority
      · simp only [readyHead, bootMachine, top, ↓reduceIte]
        exact Chain.of_nodup nodup
      · simp [readyHead, bootMachine, top]
    · intro p i j inI inJ
      split_ifs at inI inJ with top top'
      · exact top.trans top'.symm
      all_goals simp_all
    · by_cases top : i = maxPriority <;> simp [readyTail, bootMachine, top]
    · refine freshProc_inUse.trans ?_
      constructor
      · exact fun member => ⟨maxPriority, by simpa using member⟩
      · rintro ⟨i, member⟩
        split_ifs at member
        · exact member
        · cases member
    · intro p i member
      split_ifs at member with top
      · rw [top]
        decide
      · cases member
  priority _ := by
    show maxPriority < numQueues
    decide
  links _ _ found := freshProc_inUse.mpr (Chain.successor_mem found)
  senderQ _ := rfl
  notifyQueue _ := rfl
  noSignals _ := rfl
  onlySched := ⟨rfl, rfl, rfl⟩

/-! ### Machines to run -/

/-- No process ends. -/
def noExit : ExitProc := fun _ _ _ _ => none

/-- Where the image of a process lies in the runs on fixed machines. -/
def imageBase (p : ProcNr) : Word := BitVec.ofInt 32 (4096 * p)

/-- The three words of a system call on the stack of a process. -/
def onStack (p : ProcNr) (operation : Word) (dest : Int) (message : Word) : List (Word × Word) :=
  [(imageBase p + 256, operation), (imageBase p + 257, BitVec.ofInt 32 dest),
    (imageBase p + 258, message)]

/-- A machine that boots with these processes and these words on their stacks. -/
def stacked (live : List ProcNr) (words : List (Word × Word)) : Machine :=
  bootMachine live imageBase (fun _ => 256) (storeAll (fun _ => 0) words)

end Winix.Kernel
