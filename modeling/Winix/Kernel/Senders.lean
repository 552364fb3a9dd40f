/-
**The sender queues.**

A process that is sending is in the sender queue of one process, the one it sends to, and nowhere
else: `Senders k queues` says that `queues q` is the chain `q->sender_q` and that the processes in
the chains are the ones with `STATE_SENDING`, each once.

* `Senders.block`, `Senders.takeFrom`: a send that blocks adds the sender, a receive takes the first;
* `perform_queues`: no operation breaks the queues, whatever the state of the destination, and a
  `QueueChange` is all it can do to them. That needs only that the caller is not itself sending when
  it traps;
* `inSenderQ_eq_some`: the walk of the deadlock check ends.
-/

import Winix.Kernel.Frame
import Winix.Lib.Queues

namespace Winix.Kernel

open Lib Function Machine

/-- `next_sender` of every process. -/
def nextSender (k : Machine) (p : ProcNr) : Option ProcNr := (k.procTable p).nextSender

/-- `sender_q` of every process. -/
def senderQ (k : Machine) (q : ProcNr) : Option ProcNr := (k.procTable q).senderQ

/-- The slot is in use and `STATE_SENDING` is set. (Every bit is set in the state of a free slot.) -/
def IsSending (k : Machine) (p : ProcNr) : Prop :=
  (k.procTable p).inUse = true ∧ has (k.procTable p).state .sending = true

instance (k : Machine) (p : ProcNr) : Decidable (IsSending k p) :=
  inferInstanceAs (Decidable (_ ∧ _))

/-- The sender queues are well formed, and hold exactly the processes that are sending. -/
structure Senders (k : Machine) (queues : ProcNr → List ProcNr) : Prop
    extends Threads (nextSender k) (senderQ k) queues where
  sending : ∀ p, IsSending k p ↔ ∃ q, p ∈ queues q

theorem nextSender_copyMessage (k : Machine) (dst src : Word) :
    nextSender (k.copyMessage dst src) = nextSender k := rfl

theorem senderQ_copyMessage (k : Machine) (dst src : Word) :
    senderQ (k.copyMessage dst src) = senderQ k := rfl

section UpdateProc

variable {k : Machine} {p : ProcNr} {change : Proc → Proc}

theorem nextSender_updateProc :
    nextSender (k.updateProc p change) = update (nextSender k) p (change (k.procTable p)).nextSender :=
  updateProc_fields Proc.nextSender

theorem senderQ_updateProc :
    senderQ (k.updateProc p change) = update (senderQ k) p (change (k.procTable p)).senderQ :=
  updateProc_fields Proc.senderQ

theorem nextSender_of_keeps (keeps : (change (k.procTable p)).nextSender = nextSender k p) :
    nextSender (k.updateProc p change) = nextSender k := by
  rw [nextSender_updateProc, keeps, update_eq_self]

theorem senderQ_of_keeps (keeps : (change (k.procTable p)).senderQ = senderQ k p) :
    senderQ (k.updateProc p change) = senderQ k := by
  rw [senderQ_updateProc, keeps, update_eq_self]

end UpdateProc

/-- What the sender queues depend on. -/
structure SameSenders (k k' : Machine) : Prop where
  nextSender : ∀ p, (k'.procTable p).nextSender = (k.procTable p).nextSender
  senderQ : ∀ p, (k'.procTable p).senderQ = (k.procTable p).senderQ
  inUse : ∀ p, (k'.procTable p).inUse = (k.procTable p).inUse
  sending : ∀ p, has (k'.procTable p).state .sending = has (k.procTable p).state .sending

namespace SameSenders

variable {k k' k'' : Machine}

theorem refl (k : Machine) : SameSenders k k :=
  ⟨fun _ => rfl, fun _ => rfl, fun _ => rfl, fun _ => rfl⟩

theorem trans (first : SameSenders k k') (second : SameSenders k' k'') : SameSenders k k'' :=
  ⟨fun p => (second.nextSender p).trans (first.nextSender p),
    fun p => (second.senderQ p).trans (first.senderQ p),
    fun p => (second.inUse p).trans (first.inUse p),
    fun p => (second.sending p).trans (first.sending p)⟩

theorem updateProc {p : ProcNr} {change : Proc → Proc}
    (next : (change (k.procTable p)).nextSender = (k.procTable p).nextSender)
    (head : (change (k.procTable p)).senderQ = (k.procTable p).senderQ)
    (used : (change (k.procTable p)).inUse = (k.procTable p).inUse)
    (sending : has (change (k.procTable p)).state .sending = has (k.procTable p).state .sending) :
    SameSenders k (k.updateProc p change) :=
  ⟨updateProc_field Proc.nextSender next, updateProc_field Proc.senderQ head,
    updateProc_field Proc.inUse used, updateProc_field (fun proc => has proc.state .sending) sending⟩

theorem of_sameIpc (same : SameIpc k k') : SameSenders k k' :=
  ⟨same.nextSender, same.senderQ, same.inUse, fun p => by rw [same.state p]⟩

theorem of_sameQueues (same : SameQueues k k') : SameSenders k k' :=
  ⟨same.nextSender, same.senderQ, same.inUse, fun p => by rw [same.state p]⟩

theorem senders {queues : ProcNr → List ProcNr} (same : SameSenders k k')
    (senders : Senders k queues) : Senders k' queues := by
  have next : Kernel.nextSender k' = Kernel.nextSender k := funext same.nextSender
  have head : Kernel.senderQ k' = Kernel.senderQ k := funext same.senderQ
  refine ⟨⟨?_, senders.apart⟩, fun p => ?_⟩
  · rw [next, head]
    exact senders.chain
  · rw [← senders.sending p, IsSending, IsSending, same.inUse p, same.sending p]

end SameSenders

/-! ### The two ways the queues change -/

section Change

variable {k : Machine} {queues : ProcNr → List ProcNr} {cur : ProcNr}

theorem block_nextSender (k : Machine) (cur pDest : ProcNr) :
    nextSender (block k cur pDest) = update (nextSender k) cur (senderQ k pDest) := by
  rw [block, nextSender_of_keeps rfl, nextSender_updateProc, nextSender_of_keeps rfl]
  exact congrArg (update _ cur) (updateProc_field Proc.senderQ rfl pDest)

theorem block_senderQ (k : Machine) (cur pDest : ProcNr) :
    senderQ (block k cur pDest) = update (senderQ k) pDest (some cur) := by
  rw [block, senderQ_updateProc, senderQ_of_keeps rfl, senderQ_of_keeps rfl]

theorem block_state (k : Machine) (cur pDest p : ProcNr) :
    ((block k cur pDest).procTable p).state =
      if p = cur then raise (k.procTable p).state .sending else (k.procTable p).state := by
  rw [block, updateProc_field Proc.state rfl, updateProc_field Proc.state rfl]
  split_ifs with same
  · rw [same, updateProc_same]
  · rw [updateProc_of_ne same]

theorem block_inUse (k : Machine) (cur pDest p : ProcNr) :
    ((block k cur pDest).procTable p).inUse = (k.procTable p).inUse := by
  rw [block, updateProc_field Proc.inUse rfl, updateProc_field Proc.inUse rfl,
    updateProc_field Proc.inUse rfl]

theorem block_isSending (used : (k.procTable cur).inUse = true) (pDest p : ProcNr) :
    IsSending (block k cur pDest) p ↔ p = cur ∨ IsSending k p := by
  rw [IsSending, block_inUse, block_state]
  by_cases same : p = cur
  · subst same
    simp [used]
  · simp [same, IsSending]

/-- A send that blocks puts the sender at the head of the destination's queue. -/
theorem Senders.block (senders : Senders k queues) (used : (k.procTable cur).inUse = true)
    (idle : ¬ IsSending k cur) (pDest : ProcNr) :
    Senders (block k cur pDest) (update queues pDest (cur :: queues pDest)) := by
  have outside : ∀ q, cur ∉ queues q := fun q member => idle ((senders.sending cur).mpr ⟨q, member⟩)
  refine ⟨?_, fun p => ?_⟩
  · rw [block_nextSender, block_senderQ]
    exact senders.push outside
  · rw [block_isSending used, senders.sending p, exists_mem_update_of_added fun _ => List.mem_cons]

section

variable (k : Machine)

theorem collect_nextSender (cur p : ProcNr) (m : Word) :
    nextSender (collect k cur p m) = nextSender k := by
  rw [collect, nextSender_of_keeps rfl, nextSender_copyMessage, nextSender_of_keeps rfl]

theorem collect_senderQ (cur p : ProcNr) (m : Word) :
    senderQ (collect k cur p m) = update (senderQ k) cur (nextSender k p) := by
  rw [collect, senderQ_of_keeps rfl, senderQ_copyMessage, senderQ_updateProc]
  rfl

theorem collect_state (cur p q : ProcNr) (m : Word) :
    ((collect k cur p m).procTable q).state =
      if q = p then lower (k.procTable q).state .sending else (k.procTable q).state := by
  have kept : ∀ other, ((k.updateProc cur fun proc =>
      { proc with senderQ := (k.procTable p).nextSender }).procTable other).state =
        (k.procTable other).state := updateProc_field Proc.state rfl
  rw [collect]
  split_ifs with same
  · subst same
    rw [updateProc_same]
    exact congrArg (lower · .sending) (kept q)
  · rw [updateProc_of_ne same]
    exact kept q

theorem collect_inUse (cur p q : ProcNr) (m : Word) :
    ((collect k cur p m).procTable q).inUse = (k.procTable q).inUse := by
  rw [collect, updateProc_field Proc.inUse rfl, copyMessage_procTable, updateProc_field Proc.inUse rfl]

theorem collect_isSending (cur p q : ProcNr) (m : Word) :
    IsSending (collect k cur p m) q ↔ q ≠ p ∧ IsSending k q := by
  rw [IsSending, collect_inUse, collect_state]
  by_cases same : q = p
  · subst same
    simp
  · simp [same, IsSending]

theorem takeFrom_sameIpc (cur p : ProcNr) (m : Word) :
    SameIpc (collect k cur p m) (takeFrom k cur p m) := by
  simp only [takeFrom]
  split_ifs
  · exact enqueueHead_sameIpc _ _ _
  · exact SameIpc.refl _

end

theorem Senders.takeFrom (senders : Senders k queues) {p : ProcNr} {rest : List ProcNr}
    (shape : queues cur = p :: rest) (m : Word) :
    Senders (takeFrom k cur p m) (update queues cur rest) := by
  refine (SameSenders.of_sameIpc (takeFrom_sameIpc k cur p m)).senders ⟨?_, fun q => ?_⟩
  · rw [collect_nextSender, collect_senderQ]
    exact senders.pop shape
  · rw [collect_isSending, senders.sending q, senders.exists_mem_pop shape]

end Change

/-! ### What leaves the queues alone -/

section Same

variable {k : Machine} {p cur pDest : ProcNr} {m : Word}
variable {k' : Machine}

theorem setRetval_sameSenders (k : Machine) (cur : ProcNr) (value : Int) :
    SameSenders k (setRetval k cur value) := .of_sameQueues (.setRetval _ _ _)

/-- Raising and lowering another flag than `STATE_SENDING`. -/
theorem raise_sameSenders (flag : StateFlag) (other : StateFlag.sending ≠ flag) :
    SameSenders k (k.updateProc p fun proc => { proc with state := raise proc.state flag }) :=
  .updateProc rfl rfl rfl (has_raise_of_ne _ other)

theorem lower_sameSenders {flag : StateFlag} (other : StateFlag.sending ≠ flag) :
    SameSenders k (k.updateProc p fun proc => { proc with state := lower proc.state flag }) :=
  .updateProc rfl rfl rfl (has_lower_of_ne _ other)

theorem sendState_sameSenders (k : Machine) (cur : ProcNr) (reply : Bool) (m : Word) :
    SameSenders k (sendState k cur reply m) := by
  refine SameSenders.trans ?_ (.of_sameQueues (.saveMessage _ _ _))
  cases reply
  · exact .refl k
  · exact raise_sameSenders .receiving (by decide)

theorem await_sameSenders : SameSenders k (await k cur m) := by
  refine SameSenders.trans (.of_sameQueues (.saveMessage k cur m)) ?_
  exact raise_sameSenders .receiving (by decide)

theorem deliver_sameSenders : SameSenders k (deliver k pDest m) := by
  have handed : SameSenders k (handOver k pDest m) := by
    unfold handOver
    refine SameSenders.trans ?_ (.updateProc rfl rfl rfl rfl)
    exact (SameSenders.of_sameQueues (.copyMessage _ _ _)).trans (lower_sameSenders (by decide))
  exact handed.trans (.of_sameIpc (enqueueHead_sameIpc _ _ _))

theorem doNotify_sameSenders {src dest result : Int}
    (ran : doNotify k src dest m = some (k', result)) : SameSenders k k' := by
  cases doNotify_notified ran with
  | nobody => exact .refl k
  | killed => exact .refl k
  | delivered => exact (SameSenders.of_sameQueues (.finishDirect _ _ _)).trans deliver_sameSenders
  | pending => exact .of_sameQueues ((SameQueues.saveMessage _ _ _).trans (.listAdd _ _ _))

/-! ### The deadlock check -/

theorem inSenderQ_congr (same : SameSenders k k') (target : ProcNr) :
    ∀ (fuel : Nat) (pointer : Option ProcNr),
      inSenderQ k' target fuel pointer = inSenderQ k target fuel pointer
  | _, none => by simp only [inSenderQ]
  | 0, some _ => rfl
  | fuel + 1, some xp => by
      simp only [inSenderQ, same.nextSender xp, inSenderQ_congr same target fuel]

theorem deadlocks_congr (same : SameSenders k k') (cur pDest : ProcNr) :
    deadlocks k' cur pDest = deadlocks k cur pDest := by
  rw [deadlocks, deadlocks, same.sending, same.senderQ, inSenderQ_congr same]

/-- The walk of the deadlock check ends if it has fuel for the whole queue, and says whether the
process is in it. -/
theorem inSenderQ_eq_some (target : ProcNr) :
    ∀ {cells : List ProcNr} {fuel : Nat} {pointer : Option ProcNr}, cells.length ≤ fuel →
      Chain (nextSender k) pointer cells →
        inSenderQ k target fuel pointer = some (decide (target ∈ cells))
  | [], fuel, pointer, _, chain => by
      rw [Chain.nil_iff] at chain
      subst chain
      simp [inSenderQ]
  | cell :: cells, 0, pointer, short, _ => by simp at short
  | cell :: cells, fuel + 1, pointer, short, chain => by
      obtain ⟨rfl, rest⟩ := chain
      have walked := inSenderQ_eq_some target (Nat.le_of_succ_le_succ short) rest
      rw [inSenderQ]
      by_cases here : cell = target
      · simp [here]
      · rw [if_neg here, ← nextSender, walked]
        simp [Ne.symm here]

end Same

/-- What one operation can do to the sender queues. -/
inductive QueueChange (k : Machine) (cur : ProcNr) (t : Trap) (queues : ProcNr → List ProcNr) :
    (ProcNr → List ProcNr) → Prop
  | same : QueueChange k cur t queues queues
  /-- A send that blocks adds the caller to the queue of its destination. -/
  | blocked (reply : Bool) (pDest : ProcNr)
      (operation : t.operation = if reply then winixSendrec else winixSend)
      (found : getProc k t.dest = some pDest)
      (busy : has ((sendState k cur reply t.message).procTable pDest).state .receiving = false)
      (agreed : deadlocks k cur pDest = some false) :
      QueueChange k cur t queues (update queues pDest (cur :: queues pDest))
  /-- A receive takes the first sender out of the caller's queue. -/
  | took (p : ProcNr) (rest : List ProcNr) (shape : queues cur = p :: rest) :
      QueueChange k cur t queues (update queues cur rest)

theorem deadlocks_of_ok {k k' : Machine} {cur pDest : ProcNr} {dest : Int} {m : Word}
    (did : doSend k cur dest m = some (k', ok))
    (found : getProc (saveMessage k cur m) dest = some pDest) :
    deadlocks (saveMessage k cur m) cur pDest = some false := by
  rw [doSend, sendTo, found] at did
  obtain ⟨deadlock, walked, did⟩ := Option.bind_eq_some_iff.mp did
  cases deadlock with
  | false => exact walked
  | true =>
    simp only [↓reduceIte, Option.some.injEq, Prod.mk.injEq] at did
    exact absurd did.2 (by decide)

theorem sendState_inUse (k : Machine) (cur : ProcNr) (reply : Bool) (m : Word) (procNr : Int) :
    getProc (sendState k cur reply m) procNr = getProc k procNr := by
  rw [getProc, getProc, (sendState_sameSenders k cur reply m).inUse]

/-- **No operation breaks the sender queues**, and these are the ways it can change them. -/
theorem perform_queues {k k' : Machine} {cur : ProcNr} {t : Trap} {queues : ProcNr → List ProcNr}
    (senders : Senders k queues) (used : (k.procTable cur).inUse = true)
    (idle : ¬ IsSending k cur) (ran : perform k cur t = some k') :
    ∃ queues', QueueChange k cur t queues queues' ∧ Senders k' queues' := by
  cases perform_performed ran with
  | refused reply result =>
    exact ⟨queues, .same, (((sendState_sameSenders k cur reply _).trans
      (setRetval_sameSenders _ _ _)).trans (lower_sameSenders (by decide))).senders senders⟩
  | delivered reply pDest =>
    exact ⟨queues, .same, (((sendState_sameSenders k cur reply _).trans deliver_sameSenders).trans
      (setRetval_sameSenders _ _ _)).senders senders⟩
  | blocked reply pDest operation did found busy =>
    have prepared := sendState_sameSenders k cur reply t.message
    have still : ¬ IsSending (sendState k cur reply t.message) cur := by
      rwa [IsSending, prepared.inUse, prepared.sending]
    have queued := (prepared.senders senders).block ((prepared.inUse cur).trans used) still pDest
    have agreed : deadlocks (sendState k cur reply t.message) cur pDest = some false :=
      deadlocks_of_ok did found
    rw [deadlocks_congr prepared] at agreed
    rw [sendState_inUse] at found
    exact ⟨_, .blocked reply pDest operation found busy agreed,
      (setRetval_sameSenders _ _ _).senders queued⟩
  | took p operation empty first =>
    obtain ⟨rest, shape, -⟩ := senders.cells_of_head_some first
    exact ⟨_, .took p rest shape,
      (setRetval_sameSenders _ _ _).senders (senders.takeFrom shape t.message)⟩
  | waits =>
    exact ⟨queues, .same, (await_sameSenders.trans (setRetval_sameSenders _ _ _)).senders senders⟩
  | noticed p =>
    refine ⟨queues, .same, (SameSenders.of_sameQueues ?_).senders senders⟩
    exact ((SameQueues.listDel k p).trans (.copyMessage _ _ _)).trans (.setRetval _ _ _)
  | notified after result operation done =>
    exact ⟨queues, .same, ((doNotify_sameSenders done).trans
      (setRetval_sameSenders _ _ _)).senders senders⟩
  | unknown => exact ⟨queues, .same, (setRetval_sameSenders _ _ _).senders senders⟩

end Winix.Kernel
