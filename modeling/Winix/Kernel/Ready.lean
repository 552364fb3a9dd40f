/-
**The ready queues.**

`Queued k members` says that the ready queues are null-terminated chains, that no process is in them
twice, and that they hold exactly the processes that satisfy `members`.

* `Queued.enqueueHead`, `Queued.enqueueTail`, `Queued.dequeue` are the operations on the queues;
* `ReadyInv k` is the invariant of the scheduler: the processes in the queues are the ones that are in
  use and runnable, without the one that is running;
* `sched_readyInv`, `clockHandler_readyInv`: the scheduler and the clock keep it.
-/

import Winix.Kernel.Senders
import Winix.Lib.Run

namespace Winix.Kernel

open Lib Function Machine

/-! ### The queues -/

/-- The next process of a ready queue. -/
def nextReady (k : Machine) (p : ProcNr) : Option ProcNr := (k.procTable p).next
/-- The first process of a queue. -/
def readyHead (k : Machine) (i : Nat) : Option ProcNr := (k.readyQ i).head
/-- The last process of a queue. -/
def readyTail (k : Machine) (i : Nat) : Option ProcNr := (k.readyQ i).tail

/-- The ready queues are the lists `queues` and hold exactly the processes in `members`. -/
structure QueuedIn (k : Machine) (members : ProcNr → Prop) (queues : Nat → List ProcNr) : Prop
    extends Queues (nextReady k) (readyHead k) (readyTail k) queues where
  exactly : ∀ p, members p ↔ ∃ i, p ∈ queues i
  inRange : ∀ {p i}, p ∈ queues i → i < numQueues

/-- The ready queues are well formed and hold exactly the processes in `members`. -/
def Queued (k : Machine) (members : ProcNr → Prop) : Prop := ∃ queues, QueuedIn k members queues

namespace Queued

variable {k k' : Machine} {members members' : ProcNr → Prop} {p : ProcNr} {i : Nat}

theorem congr (queued : Queued k members) (next : ∀ p, (k'.procTable p).next = (k.procTable p).next)
    (ready : k'.readyQ = k.readyQ) (same : ∀ p, members' p ↔ members p) : Queued k' members' := by
  obtain ⟨queues, inQueues⟩ := queued
  have nexts : nextReady k' = nextReady k := funext next
  have heads : readyHead k' = readyHead k := funext fun i => by rw [readyHead, readyHead, ready]
  have tails : readyTail k' = readyTail k := funext fun i => by rw [readyTail, readyTail, ready]
  refine ⟨queues, ⟨?_, fun p => (same p).trans (inQueues.exactly p), inQueues.inRange⟩⟩
  rw [nexts, heads, tails]
  exact inQueues.toQueues

end Queued

section Operations

variable {k k' : Machine} {members : ProcNr → Prop} {p : ProcNr} {i : Nat}
variable {change : Proc → Proc}

theorem readyHead_setQueue (q : RunQueue) :
    readyHead (k.setQueue i q) = update (readyHead k) i q.head := by
  funext j
  by_cases same : j = i <;> simp [readyHead, Machine.setQueue, same]

theorem readyTail_setQueue (q : RunQueue) :
    readyTail (k.setQueue i q) = update (readyTail k) i q.tail := by
  funext j
  by_cases same : j = i <;> simp [readyTail, Machine.setQueue, same]

theorem nextReady_updateProc :
    nextReady (k.updateProc p change) = update (nextReady k) p (change (k.procTable p)).next :=
  updateProc_fields Proc.next

theorem nextReady_setQueue (q : RunQueue) : nextReady (k.setQueue i q) = nextReady k := rfl

theorem readyHead_updateProc : readyHead (k.updateProc p change) = readyHead k := rfl

theorem readyTail_updateProc : readyTail (k.updateProc p change) = readyTail k := rfl

theorem inRange_update {queues : Nat → List ProcNr} {list : List ProcNr}
    (inRange : ∀ {p i}, p ∈ queues i → i < numQueues) (small : i < numQueues) {q : ProcNr} {j : Nat}
    (member : q ∈ update queues i list j) : j < numQueues := by
  rcases mem_update.mp member with ⟨rfl, -⟩ | ⟨-, member⟩
  · exact small
  · exact inRange member

/-- **`enqueue_head` adds the process.** -/
theorem Queued.enqueueHead (queued : Queued k members) (absent : ¬ members p) (small : i < numQueues) :
    Queued (enqueueHead k i p) fun q => q = p ∨ members q := by
  obtain ⟨queues, inQueues⟩ := queued
  have outside : ∀ j, p ∉ queues j := fun j member =>
    absent ((inQueues.exactly p).mpr ⟨j, member⟩)
  refine ⟨update queues i (p :: queues i), ⟨?_, fun q => ?_,
    inRange_update inQueues.inRange small⟩⟩
  · have pushed := inQueues.pushHead (i := i) outside
    unfold Kernel.enqueueHead
    split <;> rename_i first <;>
      rw [readyHead_setQueue, readyTail_setQueue, nextReady_setQueue, nextReady_updateProc] <;>
      rw [readyHead, first] at pushed
    · exact pushed
    · exact pushed
  · rw [exists_mem_update_of_added fun _ => List.mem_cons, inQueues.exactly q]

/-- **`enqueue_tail` adds the process.** -/
theorem Queued.enqueueTail (queued : Queued k members) (absent : ¬ members p) (small : i < numQueues) :
    Queued (enqueueTail k i p) fun q => q = p ∨ members q := by
  obtain ⟨queues, inQueues⟩ := queued
  have outside : ∀ j, p ∉ queues j := fun j member =>
    absent ((inQueues.exactly p).mpr ⟨j, member⟩)
  refine ⟨update queues i (queues i ++ [p]), ⟨?_, fun q => ?_,
    inRange_update inQueues.inRange small⟩⟩
  · unfold Kernel.enqueueTail
    split
    · rename_i first
      rw [nextReady_updateProc, nextReady_setQueue, readyHead_updateProc, readyTail_updateProc,
        readyHead_setQueue, readyTail_setQueue]
      exact inQueues.pushEmpty outside first
    · rename_i other first
      obtain ⟨rest, shape, -⟩ := inQueues.cells_of_head_some first
      obtain ⟨last, lastCell⟩ : ∃ last, readyTail k i = some last := by
        rw [inQueues.last i, shape]
        exact ⟨_, List.getLast?_eq_some_getLast (List.cons_ne_nil _ _)⟩
      have pushed := inQueues.pushTail outside lastCell
      have linked : (k.readyQ i).tail = some last := lastCell
      have unchanged : update (readyHead k) i (some other) = readyHead k := by
        rw [← first]
        exact update_eq_self i (readyHead k)
      simp only [linked]
      rw [nextReady_updateProc, nextReady_setQueue, nextReady_updateProc, readyHead_updateProc,
        readyTail_updateProc, readyHead_setQueue, readyTail_setQueue, readyHead_updateProc,
        readyTail_updateProc, unchanged]
      exact pushed
  · rw [exists_mem_update_of_added fun _ => by rw [List.mem_append, List.mem_singleton, or_comm],
      inQueues.exactly q]

/-- **`dequeue` removes a member.** -/
theorem Queued.dequeue (queued : Queued k members) (took : dequeue k i = some (p, k')) :
    members p ∧ Queued k' fun q => q ≠ p ∧ members q := by
  obtain ⟨queues, inQueues⟩ := queued
  unfold Kernel.dequeue at took
  split at took
  · cases took
  · rename_i head first
    cases took
    obtain ⟨rest, shape, -⟩ := inQueues.cells_of_head_some first
    have inQueue : p ∈ queues i := shape ▸ List.mem_cons_self
    refine ⟨(inQueues.exactly p).mpr ⟨i, inQueue⟩, update queues i rest, ⟨?_, ?_, ?_⟩⟩
    · have popped := inQueues.popHead first shape
      rw [nextReady_updateProc, nextReady_setQueue, readyHead_updateProc, readyTail_updateProc,
        readyHead_setQueue, readyTail_setQueue]
      rw [apply_ite RunQueue.head, apply_ite RunQueue.tail]
      exact popped
    · intro q
      rw [inQueues.exists_mem_pop shape, inQueues.exactly q]
    · exact inRange_update inQueues.inRange (inQueues.inRange inQueue)

end Operations

/-! ### The invariant of the scheduler -/

/-- In use, able to run, and not the process that is running. -/
def IsWaiting (k : Machine) (p : ProcNr) : Prop :=
  (k.procTable p).inUse = true ∧ (k.procTable p).state = runnable ∧ k.currentProc ≠ some p

/-- The ready queues hold exactly the processes that wait for the processor. -/
structure ReadyInv (k : Machine) : Prop where
  queued : Queued k (IsWaiting k)
  priority : ∀ p, (k.procTable p).priority < numQueues
  current : ∀ cur, k.currentProc = some cur → (k.procTable cur).inUse = true

/-- What the ready queues depend on, up to the states of some processes. -/
structure SameReady (loose : ProcNr → Prop) (k k' : Machine) : Prop where
  readyQ : k'.readyQ = k.readyQ
  currentProc : k'.currentProc = k.currentProc
  next : ∀ p, (k'.procTable p).next = (k.procTable p).next
  priority : ∀ p, (k'.procTable p).priority = (k.procTable p).priority
  inUse : ∀ p, (k'.procTable p).inUse = (k.procTable p).inUse
  state : ∀ p, ¬ loose p → (k'.procTable p).state = (k.procTable p).state

namespace SameReady

variable {loose : ProcNr → Prop} {k k' k'' : Machine} {p : ProcNr}

theorem refl (k : Machine) : SameReady loose k k :=
  ⟨rfl, rfl, fun _ => rfl, fun _ => rfl, fun _ => rfl, fun _ _ => rfl⟩

theorem trans (first : SameReady loose k k') (second : SameReady loose k' k'') :
    SameReady loose k k'' :=
  ⟨second.readyQ.trans first.readyQ, second.currentProc.trans first.currentProc,
    fun p => (second.next p).trans (first.next p),
    fun p => (second.priority p).trans (first.priority p),
    fun p => (second.inUse p).trans (first.inUse p),
    fun p tight => (second.state p tight).trans (first.state p tight)⟩

theorem of_sameQueues (same : SameQueues k k') : SameReady loose k k' :=
  ⟨same.readyQ, same.currentProc, same.field Proc.next fun _ _ _ _ _ => rfl,
    same.field Proc.priority fun _ _ _ _ _ => rfl, same.inUse, fun p _ => same.state p⟩

theorem setState (change : Word → Word) (isLoose : loose p) :
    SameReady loose k (k.updateProc p fun proc => { proc with state := change proc.state }) := by
  refine ⟨rfl, rfl, updateProc_field Proc.next rfl,
    updateProc_field Proc.priority rfl, updateProc_field Proc.inUse rfl,
    fun q tight => ?_⟩
  have other : q ≠ p := fun same => tight (same ▸ isLoose)
  rw [updateProc_of_ne other]

theorem getProc (same : SameReady loose k k') (procNr : Int) :
    getProc k' procNr = getProc k procNr := by
  rw [Kernel.getProc, Kernel.getProc, same.inUse]

theorem isWaiting (same : SameReady loose k k') (tight : ¬ loose p) :
    IsWaiting k' p ↔ IsWaiting k p := by
  rw [IsWaiting, IsWaiting, same.inUse, same.currentProc, same.state p tight]

/-- While a process is running, its own state does not matter to the queues. -/
theorem readyInv (same : SameReady loose k k') (running : ∀ p, loose p → k.currentProc = some p)
    (inv : ReadyInv k) : ReadyInv k' := by
  refine ⟨inv.queued.congr same.next same.readyQ fun p => ?_, fun p => ?_, fun p current => ?_⟩
  · by_cases here : loose p
    · exact iff_of_false (fun waiting => waiting.2.2 (same.currentProc.trans (running p here)))
        fun waiting => waiting.2.2 (running p here)
    · exact same.isWaiting here
  · rw [same.priority]
    exact inv.priority p
  · rw [same.inUse]
    exact inv.current p (same.currentProc ▸ current)

theorem of_tight (same : SameReady (fun _ => False) k k') (inv : ReadyInv k) : ReadyInv k' :=
  same.readyInv (fun _ => False.elim) inv

end SameReady

/-- A blocked process is unblocked; if it can run it is put into its queue. -/
theorem ReadyInv.unblock {k k' : Machine} {cur p : ProcNr} (inv : ReadyInv k)
    (running : k.currentProc = some cur) (same : SameReady (fun q => q = cur ∨ q = p) k k')
    (other : p ≠ cur) (used : (k.procTable p).inUse = true)
    (blocked : (k.procTable p).state ≠ runnable) :
    ReadyInv (if (k'.procTable p).state = runnable then
      enqueueHead k' (k'.procTable p).priority p else k') := by
  have running' : k'.currentProc = some cur := same.currentProc.trans running
  have queued : Queued k' (IsWaiting k) := inv.queued.congr same.next same.readyQ fun _ => Iff.rfl
  have small : ∀ q, (k'.procTable q).priority < numQueues := fun q => by
    rw [same.priority]
    exact inv.priority q
  have current : ∀ q, k'.currentProc = some q → (k'.procTable q).inUse = true := fun q eq => by
    rw [same.inUse]
    exact inv.current q (same.currentProc ▸ eq)
  -- nothing changes for the processes other than the one that is unblocked
  have others : ∀ q, q ≠ p → (IsWaiting k' q ↔ IsWaiting k q) := by
    intro q ne
    by_cases isCur : q = cur
    · subst isCur
      exact iff_of_false (fun waiting => waiting.2.2 running') fun waiting => waiting.2.2 running
    · exact same.isWaiting (by simp [ne, isCur])
  have before : ¬ IsWaiting k p := fun waiting => blocked waiting.2.1
  split_ifs with able
  · have untouched := enqueueHead_sameIpc k' (k'.procTable p).priority p
    obtain ⟨-, currentEq, priorities⟩ := (Requeued.enqueueHead k' (k'.procTable p).priority p).frame
    refine ⟨?_, fun q => ?_, fun q eq => ?_⟩
    · refine (queued.enqueueHead before (small p)).congr (fun _ => rfl) rfl fun q => ?_
      rw [IsWaiting, untouched.inUse, untouched.state, currentEq, ← IsWaiting]
      by_cases here : q = p
      · subst here
        have ready : IsWaiting k' q :=
          ⟨(same.inUse q).trans used, able, by rw [running']; simpa using Ne.symm other⟩
        simp [ready]
      · rw [others q here]
        simp [here]
    · rw [priorities]
      exact small q
    · rw [untouched.inUse]
      exact current q (currentEq ▸ eq)
  · refine ⟨queued.congr (fun _ => rfl) rfl fun q => ?_, small, current⟩
    by_cases here : q = p
    · subst here
      exact iff_of_false (fun waiting => able waiting.2.1) before
    · exact others q here

/-! ### Scheduling -/

section Sched

variable {exitProc : ExitProc} {k k' : Machine}

/-- Once the running process has been put back, the queues hold every process that can run. -/
theorem requeue_queued (inv : ReadyInv k) :
    Queued (requeue k) (fun p => (k.procTable p).inUse = true ∧ (k.procTable p).state = runnable) ∧
      ∀ p, ((requeue k).procTable p).priority < numQueues := by
  unfold requeue
  split
  · rename_i nobody
    refine ⟨inv.queued.congr (fun _ => rfl) rfl fun p => ?_, inv.priority⟩
    simp [IsWaiting, nobody]
  · rename_i cur running
    have used := inv.current cur running
    have absent : ¬ IsWaiting k cur := fun waiting => waiting.2.2 running
    have everyone : (k.procTable cur).state = runnable → ∀ p,
        ((k.procTable p).inUse = true ∧ (k.procTable p).state = runnable) ↔
          p = cur ∨ IsWaiting k p := by
      intro able p
      by_cases here : p = cur
      · simp [here, used, able]
      · simp [IsWaiting, running, here, Ne.symm here]
    dsimp only
    split_ifs with able ticks lowers
    · refine ⟨(inv.queued.enqueueHead absent (inv.priority cur)).congr (fun _ => rfl) rfl
        (everyone able), fun p => ?_⟩
      rw [(Requeued.enqueueHead _ _ _).frame.2.2]
      exact inv.priority p
    · have lowered : Queued (k.updateProc cur fun p => { p with priority := p.priority + 1 })
          (IsWaiting k) :=
        inv.queued.congr (updateProc_field Proc.next rfl) rfl fun _ => Iff.rfl
      have bounded : ∀ p, ((k.updateProc cur fun p =>
          { p with priority := p.priority + 1 }).procTable p).priority < numQueues := by
        intro p
        by_cases here : p = cur
        · subst here
          rw [updateProc_same]
          exact Nat.succ_lt_succ lowers.2
        · rw [updateProc_of_ne here]
          exact inv.priority p
      refine ⟨(lowered.enqueueTail absent (bounded cur)).congr (fun _ => rfl) rfl (everyone able),
        fun p => ?_⟩
      rw [enqueueSchedule, (Requeued.enqueueTail _ _ _).frame.2.2]
      exact bounded p
    · refine ⟨(inv.queued.enqueueTail absent (inv.priority cur)).congr (fun _ => rfl) rfl
        (everyone able), fun p => ?_⟩
      rw [enqueueSchedule, (Requeued.enqueueTail _ _ _).frame.2.2]
      exact inv.priority p
    · refine ⟨inv.queued.congr (fun _ => rfl) rfl fun p => ?_, inv.priority⟩
      by_cases here : p = cur
      · subst here
        simp [able, absent]
      · simp [IsWaiting, running, Ne.symm here]

theorem dequeue_priority {i : Nat} {p : ProcNr} (took : dequeue k i = some (p, k')) (q : ProcNr) :
    (k'.procTable q).priority = (k.procTable q).priority := by
  unfold dequeue at took
  split at took
  · cases took
  · cases took
    rw [updateProc_field Proc.priority rfl, setQueue_procTable]

theorem refill_sameReady (k : Machine) : SameReady (fun _ => False) k (refill k) := by
  unfold refill
  split
  · exact .refl k
  · exact ⟨rfl, rfl, updateProc_field Proc.next rfl,
      updateProc_field Proc.priority rfl, updateProc_field Proc.inUse rfl,
      fun p _ => updateProc_field Proc.state rfl p⟩

/-- **Scheduling keeps the ready queues.** Every process in them can run, so the first one picked is
the one that runs. -/
theorem sched_readyInv (inv : ReadyInv k) (quiet : NoSignals k) (ran : sched exitProc k = some k') :
    ReadyInv k' := by
  obtain ⟨picked, found, rfl⟩ := Option.map_eq_some_iff.mp ran
  obtain ⟨queued, priorities⟩ := requeue_queued inv
  have requeued := requeue_sameIpc k
  obtain ⟨p, taken, took, rest⟩ := (pickRunnable_succ (quiet.sameIpc requeued)).mp found
  obtain ⟨i, -, dequeued⟩ := pickFrom_eq_some took
  obtain ⟨⟨used, able⟩, left⟩ := queued.dequeue dequeued
  have same := requeued.trans (Requeued.dequeue dequeued).sameIpc
  rw [if_pos ((same.state p).trans able)] at rest
  cases rest
  refine (refill_sameReady _).of_tight ⟨?_, fun q => ?_, fun q current => ?_⟩
  · refine left.congr (fun _ => rfl) rfl fun q => ?_
    rw [IsWaiting]
    simp only [same.inUse, same.state, ne_eq, Option.some.injEq]
    tauto
  · rw [dequeue_priority dequeued]
    exact priorities q
  · cases current
    exact (same.inUse p).trans used

/-- Processes back at the highest priority stay in the queues they are in. -/
theorem Rebalanced.readyInv (inv : ReadyInv k) (same : Rebalanced k k') : ReadyInv k' := by
  have next : ∀ p, (k'.procTable p).next = (k.procTable p).next := fun p => by
    rcases same.proc p with eq | eq <;> rw [eq]
  refine ⟨inv.queued.congr next same.readyQ fun p => ?_, fun p => ?_, fun p current => ?_⟩
  · rw [IsWaiting, IsWaiting, same.sameIpc.inUse, same.sameIpc.state, same.currentProc]
  · rcases same.proc p with eq | eq <;> rw [eq]
    · exact inv.priority p
    · exact (by decide : maxPriority < numQueues)
  · rw [same.sameIpc.inUse]
    exact inv.current p (same.currentProc ▸ current)

theorem account_sameReady (cur : ProcNr) : SameReady (fun _ => False) k (account k cur) := by
  obtain ⟨-, ready, current, -⟩ := account_frame k cur
  have field : ∀ {β : Type} (f : Proc → β), (∀ (p : Proc) time sys ticks,
      f { p with timeUsed := time, sysTimeUsed := sys, ticksLeft := ticks } = f p) →
      ∀ p, f ((account k cur).procTable p) = f (k.procTable p) := by
    intro β f other p
    obtain ⟨time, sys, ticks, eq⟩ := account_proc k cur p
    rw [eq, other]
  exact ⟨ready, current, field Proc.next fun _ _ _ _ => rfl, field Proc.priority fun _ _ _ _ => rfl,
    field Proc.inUse fun _ _ _ _ => rfl, fun p _ => field Proc.state (fun _ _ _ _ => rfl) p⟩

/-- **A clock tick keeps the ready queues.** -/
theorem clockHandler_readyInv (inv : ReadyInv k) (quiet : NoSignals k) (only : OnlySched k.clock)
    (ran : clockHandler exitProc k = some k') : ReadyInv k' := by
  obtain ⟨ticked, quiet', -, ⟨cur, rebalanced⟩, ran⟩ := clockHandler_ticked quiet only ran
  exact sched_readyInv (rebalanced.readyInv ((account_sameReady cur).of_tight inv)) quiet' ran

end Sched

/-! ### System calls -/

section Trap

variable {k k' : Machine} {cur pDest : ProcNr} {m : Word}

theorem handOver_sameReady {loose : ProcNr → Prop} (isLoose : loose pDest) :
    SameReady loose k (handOver k pDest m) := by
  unfold handOver
  refine SameReady.trans ?_ (.of_sameQueues (.updateProc ⟨_, _, _, _, rfl⟩ rfl))
  exact (SameReady.of_sameQueues (.copyMessage _ _ _)).trans (.setState (lower · .receiving) isLoose)

theorem handOver_state :
    ((handOver k pDest m).procTable pDest).state = lower (k.procTable pDest).state .receiving := by
  rw [handOver, updateProc_field Proc.state rfl, updateProc_same]
  rfl

theorem SameReady.weaken {loose loose' : ProcNr → Prop} (same : SameReady loose k k')
    (weaker : ∀ p, loose p → loose' p) : SameReady loose' k k' :=
  ⟨same.readyQ, same.currentProc, same.next, same.priority, same.inUse,
    fun p tight => same.state p fun isLoose => tight (weaker p isLoose)⟩

/-- **A delivery keeps the ready queues** if the receiver waits for the message and nothing else. -/
theorem ReadyInv.deliver {middle : Machine} (inv : ReadyInv k) (running : k.currentProc = some cur)
    (same : SameReady (· = cur) k middle) (other : pDest ≠ cur)
    (used : (k.procTable pDest).inUse = true)
    (exactly : (k.procTable pDest).state = raise runnable .receiving) :
    ReadyInv (deliver middle pDest m) := by
  have handed : SameReady (fun q => q = cur ∨ q = pDest) k (handOver middle pDest m) :=
    (same.weaken fun _ => .inl).trans (handOver_sameReady (.inr rfl))
  have able : ((handOver middle pDest m).procTable pDest).state = runnable := by
    rw [handOver_state, same.state pDest other, exactly, lower_raise_runnable]
  have blocked : (k.procTable pDest).state ≠ runnable := by
    rw [exactly]
    exact ne_runnable_of_has (has_raise_self _ _)
  have woken := inv.unblock running handed other used blocked
  rwa [if_pos able] at woken

theorem sendState_sameReady (k : Machine) (cur : ProcNr) (reply : Bool) (m : Word) :
    SameReady (· = cur) k (sendState k cur reply m) := by
  refine SameReady.trans ?_ (.of_sameQueues (.saveMessage _ _ _))
  cases reply
  · exact .refl k
  · exact .setState (raise · .receiving) rfl

theorem block_sameReady (k : Machine) : SameReady (· = cur) k (block k cur pDest) := by
  refine ⟨rfl, rfl, fun p => ?_, fun p => ?_, block_inUse k cur pDest, fun p tight => ?_⟩
  · rw [block, updateProc_field Proc.next rfl, updateProc_field Proc.next rfl,
      updateProc_field Proc.next rfl]
  · rw [block, updateProc_field Proc.priority rfl,
      updateProc_field Proc.priority rfl, updateProc_field Proc.priority rfl]
  · rw [block_state, if_neg tight]

theorem collect_sameReady (k : Machine) (cur p : ProcNr) (m : Word) :
    SameReady (fun q => q = cur ∨ q = p) k (collect k cur p m) := by
  unfold collect
  refine SameReady.trans ?_ (.setState (lower · .sending) (.inr rfl))
  refine SameReady.trans ?_ (.of_sameQueues (.copyMessage _ _ _))
  exact ⟨rfl, rfl, updateProc_field Proc.next rfl,
    updateProc_field Proc.priority rfl, updateProc_field Proc.inUse rfl,
    fun p _ => updateProc_field Proc.state rfl p⟩

theorem doNotify_readyInv {src dest result : Int} (inv : ReadyInv k)
    (running : k.currentProc = some cur) (able : (k.procTable cur).state = runnable)
    (ran : doNotify k src dest m = some (k', result)) : ReadyInv k' := by
  cases doNotify_notified ran with
  | nobody => exact inv
  | killed => exact inv
  | delivered pDest found exactly =>
    obtain ⟨rfl, -, used⟩ := getProc_eq_some.mp found
    refine inv.deliver running (.of_sameQueues (.finishDirect _ _ _)) ?_ used exactly
    rintro rfl
    rw [able] at exactly
    exact ne_runnable_of_has (has_raise_self _ _) exactly.symm
  | pending =>
    exact (SameReady.of_sameQueues ((SameQueues.saveMessage _ _ _).trans (.listAdd _ _ _))).of_tight inv

end Trap

end Winix.Kernel
