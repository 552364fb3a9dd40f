/-
**Rendezvous: every message is received once, or still waits.**

An observer writes down every send that `do_send` answers with `OK`, with the contents of the
sender's buffer, and every message that arrives in a receiver's buffer, with what that buffer then
holds (`observe`).

`Exact k log`: of every process, the messages it has sent are the messages received from it, in the
same order, by the process they were sent to and with the same contents; while it is sending there is
one more, it is in the sender queue of its destination once and its buffer still holds the contents.

* **`exact_of_undisturbed`**: this holds in every run in which nothing is written into the buffer of a
  process that is sending (`Undisturbed`).
* The kernel itself writes there: `do_send` delivers to any process that has `STATE_RECEIVING`, and a
  process in `WINIX_SENDREC` has it while its own message still waits (`overwrite_not_exact`).
-/

import Winix.Kernel.Boot

namespace Winix.Kernel

open Lib Machine List

/-! ### The observer -/

/-- What is seen of a run. -/
inductive Observed
  | sent (sender receiver : ProcNr) (contents : Message)
  | received (receiver sender : ProcNr) (contents : Message)
  deriving DecidableEq, Repr

/-- A send that returns `OK`, and the receipt if the receiver was waiting for it. -/
def observeSend (k : Machine) (cur : ProcNr) (dest : Int) (m : Word) : List Observed :=
  match doSend k cur dest m with
  | none => []
  | some (after, result) =>
    if result = ok then
      .sent cur dest (readMessage k.memory m) ::
        if has ((saveMessage k cur m).procTable dest).state .receiving then
          [.received dest cur (readMessage after.memory (after.procTable dest).message)]
        else []
    else []

/-- A receive that finds a sender. -/
def observeReceive (k : Machine) (cur : ProcNr) (m : Word) : List Observed :=
  match (k.procTable cur).senderQ, doReceive k cur m with
  | some p, some (after, _) =>
    if notifyEmpty k cur then [.received cur p (readMessage after.memory m)] else []
  | _, _ => []

/-- What is seen of a trap. -/
def observeTrap (k : Machine) (cur : ProcNr) (t : Trap) : List Observed :=
  if t.operation = winixSendrec then observeSend (expectReply k cur) cur t.dest t.message
  else if t.operation = winixSend then observeSend k cur t.dest t.message
  else if t.operation = winixReceive then observeReceive k cur t.message
  else []

/-- What is observed at an event. -/
def observe (k : Machine) : Event → List Observed
  | .syscall =>
    match k.currentProc with
    | none => []
    | some cur => observeTrap (fetch k cur) cur (decode k cur).2
  | _ => []

/-- The messages a process has sent, with their destinations. -/
def sends (p : ProcNr) (log : List Observed) : List (ProcNr × Message) :=
  log.filterMap fun
    | .sent sender receiver contents => if sender = p then some (receiver, contents) else none
    | .received .. => none

/-- The messages received from a process, with the processes that received them. -/
def receipts (p : ProcNr) (log : List Observed) : List (ProcNr × Message) :=
  log.filterMap fun
    | .received receiver sender contents => if sender = p then some (receiver, contents) else none
    | .sent .. => none

/-- What the message buffer of a process holds. -/
def contents (k : Machine) (p : ProcNr) : Message := readMessage k.memory (k.procTable p).message

/-- Every message was received once, as it was sent, or still waits in its sender's buffer. -/
def Exact (k : Machine) (log : List Observed) : Prop :=
  ∀ p,
    (¬ IsSending k p → sends p log = receipts p log) ∧
    (IsSending k p → ∃ q queue, Chain (nextSender k) (senderQ k q) queue ∧ queue.count p = 1 ∧
      sends p log = receipts p log ++ [(q, contents k p)])

/-! ### Undisturbed buffers -/

/-- No word of the second buffer lies in the first. -/
def Apart (first second : Word) : Prop :=
  ∀ i < messageLen, ¬ InBuffer first (second + BitVec.ofNat 32 i)

instance (first second : Word) : Decidable (Apart first second) :=
  inferInstanceAs (Decidable (∀ i < messageLen, _))

theorem Apart.not_inBuffer {first second address : Word} (apart : Apart first second)
    (inside : InBuffer second address) : ¬ InBuffer first address := by
  have outside := apart _ inside
  rwa [add_offset] at outside

/-- None of the addresses lies in the buffer. -/
def Misses (addresses : List Word) (buffer : Word) : Prop :=
  ∀ address ∈ addresses, ¬ InBuffer buffer address

-- the instance for all words of 32 bits would be found first
instance (addresses : List Word) (buffer : Word) : Decidable (Misses addresses buffer) :=
  List.decidableBAll (fun address => ¬ InBuffer buffer address) addresses

/-- The words `set_message_for_syscall` writes. -/
def argWrites (operation : Nat) (m : Word) : List Word :=
  ((syscallArgs operation).map fun arg => m + BitVec.ofNat 32 arg.1) ++
    if passesRest operation then [m + 5] else []

/-- The words the handler writes before it looks at the operation: the source of the message and,
in a direct system call, the arguments. -/
def fetchWrites (k : Machine) (cur : ProcNr) : List Word :=
  let sp := physicalAddr (k.procTable cur) (k.procTable cur).ctx.sp
  let operation := k.memory sp
  let m := (decode k cur).2.message
  if 0 < operation.toInt ∧ operation.toInt < nsyscall then
    m :: (m + 1) :: argWrites operation.toNat m
  else [m]

/-- The system call writes nothing into the buffer of a process that is sending: not before it looks
at the operation, not into the buffer of the process it delivers to, not into the caller's buffer
when it receives (unless from that process). -/
def UndisturbedTrap (k : Machine) (cur : ProcNr) (t : Trap) : Prop :=
  ∀ p ∈ procSlots, IsSending k p →
    Misses (fetchWrites k cur) (k.procTable p).message ∧
    (t.operation = winixReceive → ∀ first ∈ (k.procTable cur).senderQ, first ≠ p →
      Apart t.message (k.procTable p).message) ∧
    (t.operation = winixSendrec ∨ t.operation = winixSend → ∀ pDest ∈ getProc k t.dest,
      pDest ≠ cur → has (k.procTable pDest).state .receiving = true →
        deadlocks k cur pDest = some false → Apart (k.procTable pDest).message
          (k.procTable p).message)

instance (k : Machine) (cur : ProcNr) (t : Trap) : Decidable (UndisturbedTrap k cur t) :=
  inferInstanceAs (Decidable (∀ p ∈ procSlots, _))

/-- Nothing is written into the buffer of a process that is sending. -/
def Undisturbed (k : Machine) : Event → Prop
  | .user _ _ stores => ∀ p ∈ procSlots, IsSending k p →
      Misses (stores.map Prod.fst) (k.procTable p).message
  | .syscall => ∀ cur ∈ k.currentProc, UndisturbedTrap k cur (decode k cur).2
  | _ => True

/-- The system call is no notification. -/
def NoNotify (k : Machine) : Event → Prop
  | .syscall => ∀ cur ∈ k.currentProc, (decode k cur).2.operation ≠ winixNotify
  | _ => True

instance (k : Machine) : ∀ event, Decidable (Undisturbed k event)
  | .syscall => inferInstanceAs (Decidable (∀ cur ∈ k.currentProc, _))
  | .user .. => inferInstanceAs (Decidable (∀ p ∈ procSlots, _ → _))
  | .tick | .sched => isTrue trivial

instance (k : Machine) : ∀ event, Decidable (NoNotify k event)
  | .syscall => inferInstanceAs (Decidable (∀ cur ∈ k.currentProc, _))
  | .user .. | .tick | .sched => isTrue trivial

/-! ### What the handler writes before it looks at the operation -/

section Fetch

variable {k : Machine} {cur : ProcNr} {address : Word}

theorem copyArgs_memory (sp m : Word) : ∀ (args : List (Nat × Nat)) (k : Machine),
    (∀ arg ∈ args, address ≠ m + BitVec.ofNat 32 arg.1) →
      (copyArgs k sp m args).memory address = k.memory address
  | [], _, _ => rfl
  | (word, arg) :: rest, k, outside => by
      rw [copyArgs, copyArgs_memory sp m rest _ fun other member =>
        outside other (mem_cons_of_mem _ member)]
      exact store_of_ne (outside (word, arg) mem_cons_self)

theorem setMessageForSyscall_memory {operation : Nat} {sp m : Word}
    (outside : address ∉ argWrites operation m) (k : Machine) (who : ProcNr) :
    (setMessageForSyscall k operation sp m who).memory address = k.memory address := by
  have popped : (popNumber k operation who).memory = k.memory := by
    unfold popNumber
    split_ifs <;> rfl
  have copied : (copyArgs (popNumber k operation who) sp m (syscallArgs operation)).memory address =
      k.memory address := by
    rw [copyArgs_memory, popped]
    rintro arg member rfl
    exact outside (mem_append_left _ (mem_map_of_mem member))
  simp only [setMessageForSyscall]
  split_ifs with rest
  · refine (store_of_ne ?_).trans copied
    rintro rfl
    exact outside (mem_append_right _ (by simp [rest]))
  · exact copied

theorem fetch_memory (outside : address ∉ fetchWrites k cur) :
    (fetch k cur).memory address = k.memory address := by
  have notFirst : address ≠ (decode k cur).2.message := by
    rintro rfl
    refine outside ?_
    simp only [fetchWrites]
    split_ifs <;> exact mem_cons_self
  refine (store_of_ne notFirst).trans ?_
  unfold fetchWrites decode at outside
  unfold decode
  dsimp only at outside ⊢
  split_ifs at outside ⊢
  · simp only [mem_cons, not_or] at outside
    rw [setMessageForSyscall_memory outside.2.2]
    exact store_of_ne outside.2.1
  · rfl

theorem copyArgs_procTable (sp m : Word) : ∀ (args : List (Nat × Nat)) (k : Machine),
    (copyArgs k sp m args).procTable = k.procTable
  | [], _ => rfl
  | _ :: rest, _ => copyArgs_procTable sp m rest _

theorem fetch_field {β : Type*} (field : Proc → β)
    (other : ∀ (p : Proc) ctx flags, field { p with ctx := ctx, flags := flags } = field p)
    (p : ProcNr) : field ((fetch k cur).procTable p) = field (k.procTable p) := by
  have popped : ∀ (k : Machine) operation,
      field ((popNumber k operation cur).procTable p) = field (k.procTable p) := by
    intro k operation
    unfold popNumber
    split_ifs
    · exact updateProc_field field (other _ _ _) p
    · rfl
  rw [fetch, stamp, poke_procTable]
  unfold decode
  dsimp only
  split_ifs
  · have argued : ∀ (k : Machine) operation sp m,
        field ((setMessageForSyscall k operation sp m cur).procTable p) = field (k.procTable p) := by
      intro k operation sp m
      simp only [setMessageForSyscall]
      split_ifs <;> simp only [poke_procTable, copyArgs_procTable] <;> exact popped _ _
    rw [argued, poke_procTable]
    exact updateProc_field field (other _ _ _) p
  · rfl

end Fetch

/-! ### The balance of messages -/

@[simp] theorem sends_append (p : ProcNr) (log more : List Observed) :
    sends p (log ++ more) = sends p log ++ sends p more := filterMap_append

@[simp] theorem receipts_append (p : ProcNr) (log more : List Observed) :
    receipts p (log ++ more) = receipts p log ++ receipts p more := filterMap_append

/-- The sender queues and the log agree: a process in a queue has sent one message more than was
received from it, and holds it in its buffer. -/
structure Balanced (k : Machine) (log : List Observed) (queues : ProcNr → List ProcNr) : Prop
    extends Senders k queues where
  pending : ∀ {p q}, p ∈ queues q → sends p log = receipts p log ++ [(q, contents k p)]
  settled : ∀ {p}, ¬ IsSending k p → sends p log = receipts p log

namespace Balanced

variable {k k' : Machine} {log : List Observed} {queues : ProcNr → List ProcNr}

/-- What the balance depends on: the queues, and the buffers of the processes in them. -/
theorem congr (balanced : Balanced k log queues) (same : SameSenders k k')
    (kept : ∀ p, IsSending k p → contents k' p = contents k p) : Balanced k' log queues := by
  refine ⟨same.senders balanced.toSenders, fun {p q} member => ?_, fun {p} idle => ?_⟩
  · rw [kept p ((balanced.sending p).mpr ⟨q, member⟩)]
    exact balanced.pending member
  · refine balanced.settled fun sending => idle ?_
    rwa [IsSending, same.inUse, same.sending]

theorem exact_of_balanced (balanced : Balanced k log queues) : Exact k log := by
  refine fun p => ⟨balanced.settled, fun sending => ?_⟩
  obtain ⟨q, member⟩ := (balanced.sending p).mp sending
  exact ⟨q, queues q, balanced.chain q, count_eq_one_of_mem (balanced.chain q).nodup member,
    balanced.pending member⟩

end Balanced

/-! ### The system calls -/

section Perform

variable {k k' : Machine} {cur p pDest : ProcNr} {m : Word} {log : List Observed}
  {queues : ProcNr → List ProcNr}
variable {t : Trap}

/-- A message written elsewhere does not change the contents of a buffer. -/
theorem contents_of_apart {buffer : Word} {message : Message}
    (written : k'.memory = writeMessage k.memory buffer message)
    (pointer : (k'.procTable p).message = (k.procTable p).message)
    (apart : Apart buffer (k.procTable p).message) : contents k' p = contents k p := by
  rw [contents, contents, pointer, written]
  exact readMessage_congr fun _ inside => writeMessage_of_not_inBuffer (apart.not_inBuffer inside)

theorem contents_of_same (memory : k'.memory = k.memory)
    (pointer : (k'.procTable p).message = (k.procTable p).message) :
    contents k' p = contents k p := by
  rw [contents, contents, memory, pointer]

theorem deliver_memory : (deliver k pDest m).memory =
    writeMessage k.memory (k.procTable pDest).message (readMessage k.memory m) :=
  (enqueueHead_sameIpc _ _ _).memory

theorem deliver_message : ((deliver k pDest m).procTable p).message = (k.procTable p).message := by
  rw [deliver, (enqueueHead_sameIpc _ _ _).message, handOver, updateProc_field Proc.message rfl,
    updateProc_field Proc.message rfl, copyMessage_procTable]

theorem sendState_memory (k : Machine) (cur : ProcNr) (reply : Bool) (m : Word) :
    (sendState k cur reply m).memory = k.memory := by
  cases reply <;> rfl

theorem sendState_message (reply : Bool) (other : p ≠ cur) :
    ((sendState k cur reply m).procTable p).message = (k.procTable p).message := by
  rw [sendState, saveMessage, updateProc_of_ne other]
  split_ifs
  · rw [expectReply, updateProc_field Proc.message rfl]
  · rfl

theorem sendState_message_self (reply : Bool) :
    ((sendState k cur reply m).procTable cur).message = m := by
  rw [sendState, saveMessage, updateProc_same]

theorem block_message : ((block k cur pDest).procTable p).message = (k.procTable p).message := by
  rw [block, updateProc_field Proc.message rfl, updateProc_field Proc.message rfl,
    updateProc_field Proc.message rfl]

theorem takeFrom_memory : (takeFrom k cur p m).memory =
    writeMessage k.memory m (readMessage k.memory (k.procTable p).message) := by
  rw [(takeFrom_sameIpc k cur p m).memory, collect, updateProc_memory, Machine.copyMessage,
    updateProc_memory, updateProc_field Proc.message rfl]

theorem takeFrom_message {q : ProcNr} :
    ((takeFrom k cur p m).procTable q).message = (k.procTable q).message := by
  rw [(takeFrom_sameIpc k cur p m).message, collect, updateProc_field Proc.message rfl,
    copyMessage_procTable, updateProc_field Proc.message rfl]

theorem setRetval_contents (value : Int) : contents (setRetval k cur value) p = contents k p :=
  contents_of_same rfl (updateProc_field Proc.message rfl p)

/-- A send puts one message on record, and its receipt if it is delivered at once. -/
theorem observeTrap_send {reply : Bool}
    (operation : t.operation = if reply then winixSendrec else winixSend) :
    observeTrap k cur t =
      observeSend (if reply then expectReply k cur else k) cur t.dest t.message := by
  cases reply
  · rw [if_neg (by decide)] at operation
    rw [observeTrap, if_neg (by rw [operation]; decide), if_pos operation, if_neg (by decide)]
  · rw [if_pos rfl] at operation
    rw [observeTrap, if_pos operation, if_pos rfl]

theorem observeTrap_receive (operation : t.operation = winixReceive) :
    observeTrap k cur t = observeReceive k cur t.message := by
  rw [observeTrap, if_neg (by rw [operation]; decide), if_neg (by rw [operation]; decide),
    if_pos operation]

theorem observeSend_eq {after : Machine} {reply : Bool} {dest result : Int}
    (did : doSend (if reply then expectReply k cur else k) cur dest m = some (after, result)) :
    observeSend (if reply then expectReply k cur else k) cur dest m =
      if result = ok then
        .sent cur dest (readMessage k.memory m) ::
          if has ((sendState k cur reply m).procTable dest).state .receiving then
            [.received dest cur (readMessage after.memory (after.procTable dest).message)]
          else []
      else [] := by
  have memory : (if reply then expectReply k cur else k).memory = k.memory := by
    cases reply <;> rfl
  rw [observeSend, did, memory]
  rfl

namespace Balanced

variable (balanced : Balanced k log queues)
include balanced

/-- A process that is not sending may save a message pointer and expect a reply. -/
theorem sendState (idle : ¬ IsSending k cur) (reply : Bool) :
    Balanced (sendState k cur reply m) log queues :=
  balanced.congr (sendState_sameSenders k cur reply _) fun p sending =>
    contents_of_same (sendState_memory k cur reply m)
      (sendState_message reply fun same : p = cur => idle (same ▸ sending))

theorem setRetval (value : Int) : Balanced (setRetval k cur value) log queues :=
  balanced.congr (setRetval_sameSenders _ _ _) fun _ _ => setRetval_contents value

/-- **A message delivered at once** is on record as sent and as received. -/
theorem deliver (idle : ¬ IsSending k cur)
    (kept : ∀ p, IsSending k p → contents (deliver k pDest m) p = contents k p) (message : Message) :
    Balanced (deliver k pDest m)
      (log ++ [.sent cur pDest message, .received pDest cur message]) queues := by
  have moved := balanced.congr deliver_sameSenders kept
  have sent : ∀ p, sends p [.sent cur pDest message, .received pDest cur message] =
      receipts p [.sent cur pDest message, .received pDest cur message] := fun p => by
    by_cases same : cur = p <;> simp [sends, receipts, same]
  have outside : ∀ {p}, p ≠ cur →
      receipts p [.sent cur pDest message, .received pDest cur message] = [] := fun ne => by
    simp [receipts, Ne.symm ne]
  refine ⟨moved.toSenders, fun {p q} member => ?_, fun {p} settled => ?_⟩
  · have ne : p ≠ cur := fun same =>
      idle ((balanced.sending cur).mpr ⟨q, same ▸ member⟩)
    rw [sends_append, receipts_append, sent, outside ne, append_nil, append_nil]
    exact moved.pending member
  · rw [sends_append, receipts_append, sent, moved.settled settled]

/-- **A send that blocks** is on record as sent, and waits in the sender's buffer. -/
theorem block (used : (k.procTable cur).inUse = true) (idle : ¬ IsSending k cur) (pDest : ProcNr) :
    Balanced (block k cur pDest) (log ++ [.sent cur pDest (contents k cur)])
      (Function.update queues pDest (cur :: queues pDest)) := by
  have kept : ∀ p, contents (Kernel.block k cur pDest) p = contents k p := fun p =>
    contents_of_same rfl block_message
  have nothing : ∀ p, receipts p [.sent cur pDest (contents k cur)] = [] := fun p => rfl
  have others : ∀ {p}, p ≠ cur → sends p [.sent cur pDest (contents k cur)] = [] := fun ne => by
    simp [sends, Ne.symm ne]
  refine ⟨balanced.toSenders.block used idle pDest, fun {p q} member => ?_, fun {p} settled => ?_⟩
  · rw [sends_append, receipts_append, nothing, append_nil, kept]
    by_cases same : p = cur
    · -- the new sender is in the destination's queue and nowhere else
      subst same
      have dest : q = pDest := by
        rcases mem_update.mp member with ⟨dest, -⟩ | ⟨-, member⟩
        · exact dest
        · exact absurd ((balanced.sending p).mpr ⟨q, member⟩) idle
      rw [balanced.settled idle, dest]
      simp [sends]
    · rw [others same, append_nil]
      refine balanced.pending ?_
      rcases mem_update.mp member with ⟨rfl, member⟩ | ⟨-, member⟩
      · exact (mem_cons.mp member).resolve_left same
      · exact member
  · rw [block_isSending used, not_or] at settled
    rw [sends_append, receipts_append, nothing, others settled.1, append_nil, append_nil]
    exact balanced.settled settled.2

/-- **A receive** puts the first sender's message on record as received. -/
theorem takeFrom {rest : List ProcNr} (shape : queues cur = p :: rest)
    (apart : ∀ q ≠ p, IsSending k q → Apart m (k.procTable q).message) :
    Balanced (takeFrom k cur p m) (log ++ [.received cur p (contents k p)])
      (Function.update queues cur rest) := by
  have nothing : ∀ q, sends q [.received cur p (contents k p)] = [] := fun q => rfl
  have others : ∀ {q}, q ≠ p → receipts q [.received cur p (contents k p)] = [] := fun ne => by
    simp [receipts, Ne.symm ne]
  have first : p ∈ queues cur := shape ▸ mem_cons_self
  have senders := balanced.toSenders.takeFrom shape m
  have still : ∀ {q}, IsSending (Kernel.takeFrom k cur p m) q → q ≠ p ∧ IsSending k q := by
    intro q sending
    rwa [← collect_isSending k cur p q m, IsSending,
      ← (takeFrom_sameIpc k cur p m).inUse, ← (takeFrom_sameIpc k cur p m).state]
  refine ⟨senders, fun {q r} member => ?_, fun {q} settled => ?_⟩
  · obtain ⟨ne, sending⟩ := still ((senders.sending q).mpr ⟨r, member⟩)
    rw [sends_append, receipts_append, nothing, others ne, append_nil, append_nil,
      contents_of_apart takeFrom_memory takeFrom_message (apart q ne sending)]
    refine balanced.pending ?_
    rcases mem_update.mp member with ⟨rfl, inRest⟩ | ⟨-, inOther⟩
    · exact shape ▸ mem_cons_of_mem _ inRest
    · exact inOther
  · rw [sends_append, receipts_append, nothing, append_nil]
    by_cases same : q = p
    · subst same
      rw [balanced.pending first]
      simp [receipts]
    · rw [others same, append_nil]
      refine balanced.settled fun sending => settled ?_
      rw [IsSending, (takeFrom_sameIpc k cur p m).inUse, (takeFrom_sameIpc k cur p m).state,
        ← IsSending, collect_isSending]
      exact ⟨same, sending⟩

end Balanced

/-- **Every system call keeps the balance**, if the buffers of the senders are left alone. -/
theorem perform_balanced (balanced : Balanced k log queues) (used : (k.procTable cur).inUse = true)
    (able : (k.procTable cur).state = runnable) (unnotified : notifyEmpty k cur = true)
    (noNotify : t.operation ≠ winixNotify)
    (receives : t.operation = winixReceive → ∀ first ∈ (k.procTable cur).senderQ, ∀ p ≠ first,
      IsSending k p → Apart t.message (k.procTable p).message)
    (delivers : t.operation = winixSendrec ∨ t.operation = winixSend →
      ∀ pDest ∈ getProc k t.dest, pDest ≠ cur → has (k.procTable pDest).state .receiving = true →
        deadlocks k cur pDest = some false → ∀ p, IsSending k p →
          Apart (k.procTable pDest).message (k.procTable p).message)
    (ran : perform k cur t = some k') :
    ∃ queues', Balanced k' (log ++ observeTrap k cur t) queues' := by
  have idle : ¬ IsSending k cur := not_isSending_of_runnable able
  have sent := fun reply => balanced.sendState (m := t.message) idle reply
  have idle' : ∀ reply, ¬ IsSending (sendState k cur reply t.message) cur := fun reply => by
    rwa [IsSending, (sendState_sameSenders k cur reply _).inUse,
      (sendState_sameSenders k cur reply _).sending]
  cases perform_performed ran with
  | refused reply result operation did why =>
    have failed : result ≠ ok := by
      rcases why with ⟨rfl, -⟩ | rfl <;> decide
    rw [observeTrap_send operation, observeSend_eq did, if_neg failed, append_nil]
    exact ⟨queues, ((sent reply).setRetval result).congr (lower_sameSenders (by decide))
      fun p _ => contents_of_same rfl (updateProc_field Proc.message rfl p)⟩
  | delivered reply pDest operation did found agreed receiving =>
    obtain ⟨rfl, inTable, present⟩ := getProc_eq_some.mp found
    have arrived : readMessage (deliver (sendState k cur reply t.message) t.dest t.message).memory
        ((deliver (sendState k cur reply t.message) t.dest t.message).procTable t.dest).message =
          readMessage k.memory t.message := by
      rw [deliver_message, deliver_memory, readMessage_writeMessage, sendState_memory]
    rw [observeTrap_send operation, observeSend_eq did, if_pos rfl, if_pos receiving, arrived]
    refine ⟨queues, ((sent reply).deliver (idle' reply) (fun p sending => ?_) _).setRetval _⟩
    by_cases self : t.dest = cur
    · -- the caller's message is copied onto itself
      refine contents_of_same ?_ deliver_message
      rw [deliver_memory, self, sendState_message_self, writeMessage_readMessage]
    · rw [IsSending, (sendState_sameSenders k cur reply _).inUse,
        (sendState_sameSenders k cur reply _).sending]
        at sending
      refine contents_of_apart deliver_memory deliver_message ?_
      rw [sendState_message reply self,
        sendState_message reply fun same : p = cur => idle (same ▸ sending)]
      refine delivers ?_ t.dest ?_ self ?_ ?_ p sending
      · cases reply
        · exact .inr operation
        · exact .inl operation
      · rwa [← (sendState_sameReady k cur reply _).getProc]
      · rwa [← (sendState_sameReady k cur reply _).state _ self]
      · rwa [← deadlocks_congr (sendState_sameSenders k cur reply _)]
  | blocked reply pDest operation did found busy =>
    obtain ⟨rfl, inTable, present⟩ := getProc_eq_some.mp found
    have used' : ((sendState k cur reply t.message).procTable cur).inUse = true :=
      ((sendState_sameSenders k cur reply _).inUse cur).trans used
    have passed : contents (sendState k cur reply t.message) cur = readMessage k.memory t.message := by
      rw [contents, sendState_message_self, sendState_memory]
    rw [observeTrap_send operation, observeSend_eq did, if_pos rfl,
      if_neg (by rw [busy]; decide), ← passed]
    exact ⟨_, ((sent reply).block used' (idle' reply) t.dest).setRetval _⟩
  | took p operation empty first =>
    obtain ⟨rest, shape, -⟩ := balanced.cells_of_head_some first
    have taken := balanced.takeFrom shape fun q ne sending =>
      receives operation p first q ne sending
    have arrived : observeReceive k cur t.message = [.received cur p (contents k p)] := by
      simp [observeReceive, doReceive, empty, first, takeFrom_memory, contents]
    rw [observeTrap_receive operation, arrived]
    exact ⟨_, taken.setRetval _⟩
  | waits operation empty nobody =>
    have nothing : observeReceive k cur t.message = [] := by
      simp [observeReceive, nobody]
    rw [observeTrap_receive operation, nothing, append_nil]
    refine ⟨queues, (balanced.congr await_sameSenders fun p sending => ?_).setRetval _⟩
    refine contents_of_same rfl ?_
    rw [await, updateProc_field Proc.message rfl, saveMessage,
      updateProc_of_ne fun same : p = cur => idle (same ▸ sending)]
  | noticed p operation some =>
    rw [unnotified] at some
    cases some
  | notified after result operation => exact absurd operation noNotify
  | unknown send others =>
    rw [observeTrap, if_neg send.1, if_neg send.2, if_neg others.1, append_nil]
    exact ⟨queues, balanced.setRetval _⟩

/-- Sends and receives without notifications leave the notification queues alone. -/
theorem perform_notifyQueue (unnotified : notifyEmpty k cur = true)
    (noNotify : t.operation ≠ winixNotify) (ran : perform k cur t = some k') (p : ProcNr) :
    (k'.procTable p).notifyQueue = (k.procTable p).notifyQueue := by
  have retval : ∀ (k : Machine) value,
      ((setRetval k cur value).procTable p).notifyQueue = (k.procTable p).notifyQueue :=
    fun _ _ => updateProc_field Proc.notifyQueue rfl p
  have sent : ∀ reply, ((sendState k cur reply t.message).procTable p).notifyQueue =
      (k.procTable p).notifyQueue := by
    intro reply
    rw [sendState, saveMessage, updateProc_field Proc.notifyQueue rfl]
    split_ifs
    · rw [expectReply, updateProc_field Proc.notifyQueue rfl]
    · rfl
  have enqueued : ∀ (k : Machine) i q,
      ((enqueueHead k i q).procTable p).notifyQueue = (k.procTable p).notifyQueue :=
    fun k i q => (enqueueHead_sameIpc k i q).field Proc.notifyQueue (fun _ => rfl) p
  cases perform_performed ran with
  | refused reply => rw [updateProc_field Proc.notifyQueue rfl, retval, sent]
  | delivered reply pDest =>
    rw [retval, deliver, enqueued, handOver, updateProc_field Proc.notifyQueue rfl,
      updateProc_field Proc.notifyQueue rfl, copyMessage_procTable, sent]
  | blocked reply pDest =>
    rw [retval, block, updateProc_field Proc.notifyQueue rfl,
      updateProc_field Proc.notifyQueue rfl,
      updateProc_field Proc.notifyQueue rfl, sent]
  | took q =>
    rw [retval, (takeFrom_sameIpc k cur q _).field Proc.notifyQueue (fun _ => rfl), collect,
      updateProc_field Proc.notifyQueue rfl, copyMessage_procTable,
      updateProc_field Proc.notifyQueue rfl]
  | waits =>
    rw [retval, await, updateProc_field Proc.notifyQueue rfl, saveMessage,
      updateProc_field Proc.notifyQueue rfl]
  | noticed q operation some =>
    rw [unnotified] at some
    cases some
  | notified after result operation => exact absurd operation noNotify
  | unknown => exact retval _ _

end Perform

/-! ### Runs -/

/-- The machine is steady, nobody has a notification, and the log is balanced. -/
structure LogInv (k : Machine) (log : List Observed) : Prop where
  steady : Steady k
  unnotified : ∀ p, notifyEmpty k p = true
  balanced : ∃ queues, Balanced k log queues

section Step

variable {exitProc : ExitProc} {k k' : Machine} {log : List Observed}

theorem LogInv.of_sameIpc (inv : LogInv k log) (same : SameIpc k k') (steady : Steady k') :
    LogInv k' log := by
  obtain ⟨queues, balanced⟩ := inv.balanced
  refine ⟨steady, fun p => ?_, queues, balanced.congr (.of_sameIpc same) fun p _ =>
    contents_of_same same.memory (same.message p)⟩
  rw [notifyEmpty, same.field Proc.notifyQueue fun _ => rfl]
  exact inv.unnotified p

theorem storeAll_of_notMem {address : Word} : ∀ (stores : List (Word × Word)) (memory : Memory),
    (∀ word ∈ stores, address ≠ word.1) → storeAll memory stores address = memory address
  | [], _, _ => rfl
  | (target, value) :: rest, memory, outside => by
      rw [storeAll, storeAll_of_notMem rest _ fun word member =>
        outside word (mem_cons_of_mem _ member)]
      exact store_of_ne (outside _ mem_cons_self)

/-- The running process computes, and stays out of the buffers of the senders. -/
theorem LogInv.compute {regs : Nat → Word} {sp : Word} {stores : List (Word × Word)}
    (inv : LogInv k log) (undisturbed : Undisturbed k (.user regs sp stores))
    (ran : compute k regs sp stores = some k') : LogInv k' log := by
  obtain ⟨queues, balanced⟩ := inv.balanced
  have same := compute_sameQueues ran
  obtain ⟨memory, field⟩ := compute_frame ran
  refine ⟨same.steady inv.steady, fun p => ?_, queues, balanced.congr (.of_sameQueues same)
    fun p sending => ?_⟩
  · rw [notifyEmpty, field Proc.notifyQueue fun _ _ => rfl]
    exact inv.unnotified p
  · rw [contents, contents, field Proc.message fun _ _ => rfl, memory]
    refine readMessage_congr fun address inside => storeAll_of_notMem _ _ ?_
    rintro word member rfl
    exact undisturbed p (inv.steady.table p sending.1) sending _ (mem_map_of_mem member) inside

/-- **A system call keeps the balance** if it is no notification and leaves the buffers of the
senders alone. -/
theorem LogInv.trap {cur : ProcNr} (inv : LogInv k log) (running : k.currentProc = some cur)
    (undisturbed : UndisturbedTrap k cur (decode k cur).2)
    (noNotify : (decode k cur).2.operation ≠ winixNotify) (ran : trap k cur = some k') :
    (∀ p, notifyEmpty k' p = true) ∧
      ∃ queues, Balanced k' (log ++ observeTrap (fetch k cur) cur (decode k cur).2) queues := by
  obtain ⟨queues, balanced⟩ := inv.balanced
  have same := SameQueues.fetch k cur
  have table := fun {p} (sending : IsSending k p) => inv.steady.table p sending.1
  have message : ∀ p, ((fetch k cur).procTable p).message = (k.procTable p).message :=
    fetch_field Proc.message fun _ _ _ => rfl
  have unnotified : ∀ p, notifyEmpty (fetch k cur) p = true := fun p => by
    rw [notifyEmpty, fetch_field Proc.notifyQueue fun _ _ _ => rfl]
    exact inv.unnotified p
  have sending : ∀ p, IsSending (fetch k cur) p ↔ IsSending k p := fun p => by
    rw [IsSending, IsSending, same.inUse, same.state]
  have fetched : Balanced (fetch k cur) log queues := by
    refine balanced.congr (.of_sameQueues same) fun p isSending => ?_
    rw [contents, contents, message]
    refine readMessage_congr fun address inside => fetch_memory fun member => ?_
    exact (undisturbed p (table isSending) isSending).1 address member inside
  refine ⟨fun p => ?_, perform_balanced fetched ?_ ?_ (unnotified cur) noNotify ?_ ?_ ran⟩
  · rw [notifyEmpty, perform_notifyQueue (unnotified cur) noNotify ran]
    exact unnotified p
  · rw [same.inUse]
    exact inv.steady.slots.current cur running
  · rw [same.state]
    exact inv.steady.able cur running
  · intro operation first isFirst p other isSending
    rw [sending] at isSending
    rw [same.senderQ] at isFirst
    rw [message]
    exact (undisturbed p (table isSending) isSending).2.1 operation first isFirst (Ne.symm other)
  · intro operation pDest found other receiving agreed p isSending
    rw [sending] at isSending
    rw [same.getProc] at found
    rw [same.state] at receiving
    rw [deadlocks_congr (.of_sameQueues same)] at agreed
    rw [message, message]
    exact (undisturbed p (table isSending) isSending).2.2 operation pDest found other receiving agreed

/-- **Every event keeps the balance.** -/
theorem step_logInv (s : Machine × List Observed) (event : Event) (s' : Machine × List Observed)
    (inv : LogInv s.1 s.2) (ok : NoNotify s.1 event ∧ Undisturbed s.1 event)
    (ran : logged (step exitProc) observe s event = some s') : LogInv s'.1 s'.2 := by
  obtain ⟨k, log⟩ := s
  obtain ⟨k', log'⟩ := s'
  obtain ⟨stepped, rfl⟩ := logged_eq_some.mp ran
  have steady := step_steady inv.steady stepped
  cases event with
  | user regs sp stores =>
    simp only [observe, append_nil]
    exact inv.compute ok.2 stepped
  | syscall =>
    obtain ⟨cur, trapped, running, did, scheduled⟩ := syscallHandler_eq_some.mp stepped
    obtain ⟨unnotified, queues, balanced⟩ :=
      inv.trap running (ok.2 cur running) (ok.1 cur running) did
    have quiet := (trap_trapped inv.steady running did).noSignals
    have same := (sched_sameIpc quiet scheduled).1
    have observed : observe k .syscall = observeTrap (fetch k cur) cur (decode k cur).2 := by
      rw [observe, running]
    rw [observed]
    refine ⟨steady, fun p => ?_, queues, balanced.congr (.of_sameIpc same) fun p _ =>
      contents_of_same same.memory (same.message p)⟩
    rw [notifyEmpty, same.field Proc.notifyQueue fun _ => rfl]
    exact unnotified p
  | tick =>
    simp only [observe, append_nil]
    exact inv.of_sameIpc (clockHandler_sameIpc inv.steady.noSignals inv.steady.onlySched stepped).1
      steady
  | sched =>
    simp only [observe, append_nil]
    exact inv.of_sameIpc (sched_sameIpc inv.steady.noSignals stepped).1 steady

end Step

theorem Boot.logInv {k : Machine} (boot : Boot k) : LogInv k [] := by
  refine ⟨boot.steady, fun p => ?_, _, boot.senders, fun member => absurd member not_mem_nil,
    fun _ => rfl⟩
  rw [notifyEmpty, boot.notifyQueue]
  exact decide_eq_true rfl

/-- **Every message is received exactly once, or still waits**: in every run without notifications
in which nothing is written into the buffer of a process that is sending. -/
theorem exact_of_undisturbed {exitProc : ExitProc} {k k' : Machine} {events : List Event}
    {log : List Observed} (boot : Boot k)
    (undisturbed : Meets (logged (step exitProc) observe)
      (fun s event => NoNotify s.1 event ∧ Undisturbed s.1 event) (k, []) events)
    (ran : runFrom (logged (step exitProc) observe) (k, []) events = some (k', log)) :
    Exact k' log := by
  have inv := runFrom_invariant (fun s => LogInv s.1 s.2) step_logInv events
    (s := (k, [])) boot.logInv undisturbed ran
  obtain ⟨queues, balanced⟩ := inv.balanced
  exact balanced.exact_of_balanced

/-! ### Two runs -/

/-- Process 1 sends to process 2, which receives. -/
def handshake : Machine :=
  stacked [1, 2] (onStack 1 winixSend 2 512 ++ onStack 2 winixReceive 0 512)

/-- The message of process 1 waits in its queue and is then received. -/
theorem handshake_exact :
    ∃ k' log, runFrom (logged (step noExit) observe) (handshake, []) [.sched, .syscall, .syscall] =
      some (k', log) ∧ receipts 1 log ≠ [] ∧ Exact k' log := by
  obtain ⟨⟨k', log⟩, ran, received⟩ := Option.map_eq_some_iff.mp (by decide +kernel :
    (runFrom (logged (step noExit) observe) (handshake, []) [.sched, .syscall, .syscall]).map
      (fun s => decide (receipts 1 s.2 ≠ [])) = some true)
  exact ⟨k', log, ran, of_decide_eq_true received, exact_of_undisturbed
    (boot_bootMachine (by decide) (by decide) _ _ _) (by decide +kernel) ran⟩

/-- Process 1 asks process 3 for a reply, process 2 sends to process 1. -/
def overwrite : Machine :=
  stacked [1, 2, 3] (onStack 1 winixSendrec 3 512 ++ onStack 2 winixSend 1 512)

/-- **A message is overwritten in its sender's buffer**: process 1 is queued at process 3 and has
`STATE_RECEIVING` because it expects the reply, so the message of process 2 is delivered into the
buffer that still holds the message to process 3. -/
theorem overwrite_not_exact :
    Boot overwrite ∧ ∃ k' log,
      runFrom (logged (step noExit) observe) (overwrite, []) [.sched, .syscall, .syscall] =
        some (k', log) ∧ ¬ Exact k' log := by
  refine ⟨boot_bootMachine (by decide) (by decide) _ _ _, ?_⟩
  obtain ⟨⟨k', log⟩, ran, summary⟩ := Option.map_eq_some_iff.mp (by decide +kernel :
    (runFrom (logged (step noExit) observe) (overwrite, []) [.sched, .syscall, .syscall]).map
      (fun s => (decide (IsSending s.1 1), sends 1 s.2, receipts 1 s.2, contents s.1 1)) =
        some (true, [(3, ⟨1, 0, 0, 0, 0, 0, 0, 0⟩)], [], ⟨2, 0, 0, 0, 0, 0, 0, 0⟩))
  refine ⟨k', log, ran, fun exactly => ?_⟩
  simp only [Prod.mk.injEq, decide_eq_true_eq] at summary
  obtain ⟨sending, sent, received, holds⟩ := summary
  obtain ⟨q, queue, -, -, balance⟩ := (exactly 1).2 sending
  rw [sent, received, holds] at balance
  simp at balance

end Winix.Kernel
