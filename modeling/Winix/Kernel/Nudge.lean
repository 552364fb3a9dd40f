/-
**What a reply can change, and what the end of a process can change.**

Replies, signals and queue operations reach into processes other than the caller. `SameView view k k'`
says that the processes of the two machines look the same through `view`, and that the clock and the
addresses of the kernel's message buffers are the same.

* `Nudged k k'`: processes have been answered, notified or moved between queues and nothing else.
  Registers, `STATE_RECEIVING`, message pointers, list heads and scheduling fields may differ.
* `Outlived k k'`: processes have ended or changed state besides. What is left are the fields that
  neither a reply nor the end of a process changes: signal masks and actions, the place in memory.

The results are **`syscallReply2_nudged`**, that a reply does no more than nudge, and
**`exitProc_outlived`**.
-/

import Winix.Kernel.Frame
import Winix.Kernel.Process

namespace Winix.Kernel

variable {flag : StateFlag} {k k' : Machine}

open Lib Option

/-- The processes look the same through `view`; the clock and the buffers are the same. -/
structure SameView {β : Type*} (view : Proc → β) (k k' : Machine) : Prop where
  clock : k'.clock = k.clock
  currMesg : k'.currMesg = k.currMesg
  sigMesg : k'.sigMesg = k.sigMesg
  proc : ∀ p, view (k'.procTable p) = view (k.procTable p)

namespace SameView

variable {β γ : Type*} {view : Proc → β} {k k' k'' : Machine}

theorem refl (k : Machine) : SameView view k k := ⟨rfl, rfl, rfl, fun _ => rfl⟩

theorem trans (first : SameView view k k') (second : SameView view k' k'') : SameView view k k'' :=
  ⟨second.clock.trans first.clock, second.currMesg.trans first.currMesg,
    second.sigMesg.trans first.sigMesg, fun p => (second.proc p).trans (first.proc p)⟩

theorem coarsen {fine : Proc → Proc} {view : Proc → γ} (same : SameView fine k k')
    (unowned : ∀ p, view (fine p) = view p) : SameView view k k' := by
  refine ⟨same.clock, same.currMesg, same.sigMesg, fun p => ?_⟩
  rw [← unowned, same.proc, unowned]

theorem of_procTable (procs : k'.procTable = k.procTable) (clockEq : k'.clock = k.clock)
    (mesg : k'.currMesg = k.currMesg) (sig : k'.sigMesg = k.sigMesg) : SameView view k k' :=
  ⟨clockEq, mesg, sig, fun p => by rw [procs]⟩

theorem poke (k : Machine) (address value : Word) : SameView view k (k.poke address value) :=
  of_procTable rfl rfl rfl rfl

theorem updateProc {p : ProcNr} {change : Proc → Proc}
    (keeps : view (change (k.procTable p)) = view (k.procTable p)) :
    SameView view k (k.updateProc p change) :=
  ⟨rfl, rfl, rfl, Machine.updateProc_field view keeps⟩

end SameView

/-! ### Replies -/

/-- A process without the fields that a reply, a notification or the scheduler can change. -/
def Proc.steadfast (p : Proc) : Proc :=
  { p.unscheduled with
    ctx := { p.ctx with regs := fun _ => 0 }
    state := lower p.state .receiving
    message := 0
    notifyQueue := ⟨none, none⟩
    flags := if p.inUse then 1 else 0 }

/-- Processes have been answered, notified or moved between queues, and nothing else. -/
abbrev Nudged : Machine → Machine → Prop := SameView Proc.steadfast

theorem inUse_steadfast (p : Proc) : p.steadfast.inUse = p.inUse := by
  show hasBit (if p.inUse then 1 else 0 : Word) InfoFlag.inUse.bit = p.inUse
  cases p.inUse <;> rfl

theorem has_steadfast (other : flag ≠ .receiving) (p : Proc) :
    has p.steadfast.state flag = has p.state flag := has_lower_of_ne p.state other

/-- A change of the information flags other than `IN_USE` is a nudge. -/
theorem steadfast_flags (p : Proc) {flags : Word}
    (used : hasBit flags InfoFlag.inUse.bit = p.inUse) :
    ({ p with flags := flags } : Proc).steadfast = p.steadfast := by
  have same : ({ p with flags := flags } : Proc).inUse = p.inUse := used
  simp only [Proc.steadfast, same]
  rfl

namespace Nudged

variable {k k' : Machine}

theorem field {β : Type*} (same : Nudged k k') (field : Proc → β)
    (unowned : ∀ p : Proc, field p.steadfast = field p) (p : ProcNr) :
    field (k'.procTable p) = field (k.procTable p) :=
  (same.coarsen unowned).proc p

theorem inUse (same : Nudged k k') (p : ProcNr) :
    (k'.procTable p).inUse = (k.procTable p).inUse := same.field Proc.inUse inUse_steadfast p

theorem has (same : Nudged k k') {flag : StateFlag} (other : flag ≠ .receiving) (p : ProcNr) :
    has (k'.procTable p).state flag = has (k.procTable p).state flag :=
  same.field (fun p => Kernel.has p.state flag) (has_steadfast other) p

theorem getProc (same : Nudged k k') (procNr : Int) : getProc k' procNr = getProc k procNr := by
  rw [Kernel.getProc, Kernel.getProc, same.inUse]

theorem copyMessage (k : Machine) (dst src : Word) : Nudged k (k.copyMessage dst src) :=
  .of_procTable rfl rfl rfl rfl

theorem saveMessage (k : Machine) (p : ProcNr) (m : Word) : Nudged k (saveMessage k p m) :=
  .updateProc rfl

theorem of_onlyLinks (same : OnlyLinks k k') : Nudged k k' := by
  obtain ⟨links, rfl⟩ := same
  exact ⟨rfl, rfl, rfl, fun _ => rfl⟩

theorem of_requeued (same : Requeued k k') : Nudged k k' := by
  obtain ⟨_, _, rfl⟩ := same
  exact ⟨rfl, rfl, rfl, fun _ => rfl⟩

theorem enqueueHead (k : Machine) (i : Nat) (p : ProcNr) : Nudged k (enqueueHead k i p) :=
  of_requeued (.enqueueHead k i p)

theorem enqueueSchedule (k : Machine) (p : ProcNr) : Nudged k (enqueueSchedule k p) :=
  of_requeued (.enqueueTail k _ p)

theorem dequeueSchedule {h : ProcNr} (ran : dequeueSchedule k h = some k') : Nudged k k' :=
  of_requeued (.dequeueSchedule ran)

section

variable (k : Machine)

theorem finishDirect (pDest : ProcNr) (m : Word) : Nudged k (finishDirect k pDest m) := by
  unfold Kernel.finishDirect
  split_ifs
  · refine SameView.trans ?_ (.updateProc ?_)
    · simp only [setReplyResErrno]
      split_ifs
      · exact SameView.trans (.poke _ _ _) (.poke _ _ _)
      · exact SameView.trans (.poke _ _ _) (.poke _ _ _)
      · exact .refl k
    · exact steadfast_flags _ (hasBit_clearBit_of_ne _ (by decide))
  · exact .refl k

theorem deliver (pDest : ProcNr) (m : Word) : Nudged k (deliver k pDest m) := by
  refine SameView.trans ?_ (enqueueHead _ _ _)
  unfold handOver
  refine SameView.trans ?_ (.updateProc rfl)
  refine SameView.trans (copyMessage _ _ _) (.updateProc ?_)
  have twice : ∀ state, lower (lower state .receiving) .receiving = lower state .receiving := by
    intro state
    simp only [lower, clearBit, BitVec.and_assoc, BitVec.and_self]
  simp only [Proc.steadfast, Proc.unscheduled, twice]
  rfl

theorem expectReply (who : ProcNr) : Nudged k (expectReply k who) := by
  refine .updateProc ?_
  have undone : ∀ state, lower (raise state .receiving) .receiving = lower state .receiving := by
    intro state
    simp only [lower, raise, clearBit, setBit, BitVec.and_or_distrib_right]
    simp
  simp only [Proc.steadfast, Proc.unscheduled, undone]
  rfl

theorem bill (who : ProcNr) : Nudged k { k with billPtr := some who } :=
  .of_procTable rfl rfl rfl rfl

theorem memory (memory : Memory) : Nudged k { k with memory := memory } :=
  .of_procTable rfl rfl rfl rfl

theorem takeUp (who : ProcNr) (message : Message) : Nudged k (takeUp k who message) := by
  refine (memory k (writeMessage k.memory k.currMesg message)).trans ((bill _ who).trans ?_)
  refine SameView.trans (.updateProc ?_) (expectReply _ who)
  exact steadfast_flags _ (hasBit_setBit_of_ne _ (by decide))

theorem syscallRegionEnd : Nudged k (syscallRegionEnd k) := by
  refine SameView.trans (.updateProc ?_) (memory _ _)
  exact steadfast_flags _ (hasBit_clearBit_of_ne _ (by decide))

end

end Nudged

section Replies

variable {k k' : Machine}

/-- **A notification does no more than nudge processes.** -/
theorem doNotify_nudged {src dest result : Int} {m : Word}
    (ran : doNotify k src dest m = some (k', result)) : Nudged k k' := by
  cases doNotify_notified ran with
  | nobody => exact .refl k
  | killed => exact .refl k
  | delivered pDest => exact (Nudged.finishDirect _ _ _).trans (Nudged.deliver _ _ _)
  | pending => exact (Nudged.saveMessage _ _ _).trans (Nudged.of_onlyLinks (listAdd_onlyLinks _ _ _))

/-- **A reply does no more than nudge processes.** -/
theorem syscallReply2_nudged {reply dest result : Int} {m : Word}
    (ran : syscallReply2 k reply dest m = some (k', result)) : Nudged k k' := by
  unfold syscallReply2 at ran
  split at ran
  · cases ran
    exact .refl k
  · exact SameView.trans (.poke _ _ _) (doNotify_nudged ran)

/-- The system task does no more to other processes than the handler and a reply do. -/
theorem serve_handled {handler : Machine → ProcNr → Word → Option (Machine × Int)} {who : ProcNr}
    {message : Message} (ran : serve handler k who message = some k') :
    (k.procTable who).inUse = true ∧ ∃ middle reply,
      handler (takeUp k who message) who k.currMesg = some (middle, reply) ∧ Nudged middle k' := by
  obtain ⟨p, found, called⟩ := bind_eq_some_iff.mp ran
  obtain ⟨⟨middle, reply⟩, handled, returned⟩ := bind_eq_some_iff.mp called
  obtain ⟨answered, replied, ended⟩ := bind_eq_some_iff.mp returned
  obtain ⟨rfl, -, used⟩ := getProc_eq_some.mp found
  cases ended
  refine ⟨used, middle, reply, handled, SameView.trans ?_ (Nudged.syscallRegionEnd _)⟩
  unfold answer at replied
  split_ifs at replied
  · cases replied
    exact .refl _
  · obtain ⟨⟨after, result⟩, delivered, rfl⟩ := map_eq_some_iff.mp replied
    exact syscallReply2_nudged delivered

end Replies

/-! ### Waking up -/

/-- The bits of `state` other than those that say what a process waits for. -/
def unwaitingMask : Word := ~~~0x1e#32

/-- The flags of a process that waits for something. -/
def StateFlag.waits : StateFlag → Bool
  | .receiving | .waiting | .pausing | .vforking => true
  | _ => false

theorem lower_unwaiting (state : Word) (waits : flag.waits = true) :
    lower state flag &&& unwaitingMask = state &&& unwaitingMask := by
  have within : ~~~ BitVec.twoPow 32 flag.bit &&& unwaitingMask = unwaitingMask := by
    revert waits
    cases flag <;> decide
  rw [lower, clearBit, BitVec.and_assoc, within]

theorem raise_unwaiting (state : Word) (waits : flag.waits = true) :
    raise state flag &&& unwaitingMask = state &&& unwaitingMask := by
  have outside : BitVec.twoPow 32 flag.bit &&& unwaitingMask = 0#32 := by
    revert waits
    cases flag <;> decide
  rw [raise, setBit, BitVec.and_or_distrib_right, outside, BitVec.or_zero]

theorem has_unwaiting (state : Word) (steady : flag.waits = false) :
    has (state &&& unwaitingMask) flag = has state flag := by
  have outside : unwaitingMask.getLsbD flag.bit = true := by
    revert steady
    cases flag <;> decide
  rw [has, has, hasBit, hasBit, BitVec.getLsbD_and, outside, Bool.and_true]

/-- A process without the fields that a reply, a signal sent to it or the end of another process can
change. -/
def Proc.roused (p : Proc) : Proc :=
  { p.steadfast with
    state := p.state &&& unwaitingMask
    wpid := 0
    parent := 0
    sigPending := 0 }

/-- Processes have been woken up, signalled or adopted, and nothing else. -/
abbrev Roused : Machine → Machine → Prop := SameView Proc.roused

section Roused

variable {k k' : Machine}
variable {p : ProcNr}

theorem Nudged.roused (same : Nudged k k') : Roused k k' := by
  refine same.coarsen fun p => ?_
  have state : p.steadfast.state &&& unwaitingMask = p.state &&& unwaitingMask :=
    lower_unwaiting p.state rfl
  have used := inUse_steadfast p
  simp only [Proc.roused, state]
  simp only [Proc.steadfast, Proc.unscheduled] at used ⊢
  simp only [used]

theorem Roused.lower {flag : StateFlag} (waits : flag.waits = true) :
    Roused k (k.updateProc p fun proc => { proc with state := lower proc.state flag }) := by
  refine .updateProc ?_
  simp only [Proc.roused, lower_unwaiting _ waits]
  rfl

theorem Roused.raise {flag : StateFlag} (waits : flag.waits = true) :
    Roused k (k.updateProc p fun proc => { proc with state := raise proc.state flag }) := by
  refine .updateProc ?_
  simp only [Proc.roused, raise_unwaiting _ waits]
  rfl

theorem Roused.sigPending {change : Word → Word} :
    Roused k (k.updateProc p fun proc => { proc with sigPending := change proc.sigPending }) :=
  .updateProc rfl

theorem raiseSig_roused {who : ProcNr} {signum : Nat} {result : Int}
    (ran : raiseSig k who signum = some (k', result)) : Roused k k' := by
  unfold raiseSig at ran
  split_ifs at ran
  · simp only [bind_eq_bind, bind_some] at ran
    obtain ⟨⟨after, _⟩, replied, ran⟩ := bind_eq_some_iff.mp ran
    cases ran
    refine SameView.trans ?_ Roused.sigPending
    exact SameView.trans (SameView.trans (.poke _ _ _) (Roused.lower rfl))
      (syscallReply2_nudged replied).roused
  · cases ran
    exact Roused.sigPending

/-- **A signal that is sent wakes its target up and is pending, and does nothing else.** -/
theorem sendSig_roused {who : ProcNr} {signum : Nat} {result : Int}
    (ran : sendSig k who signum = some (k', result)) : Roused k k' := by
  unfold sendSig at ran
  split_ifs at ran
  · cases ran
    exact .refl k
  · cases ran
    exact Roused.sigPending
  · exact raiseSig_roused ran
  · cases ran
    exact .refl k

theorem endVfork_roused {who parent : ProcNr} (ran : endVfork k who parent = some k') :
    Roused k k' := by
  unfold endVfork at ran
  split_ifs at ran
  · obtain ⟨⟨after, result⟩, replied, ran⟩ := bind_eq_some_iff.mp ran
    cases ran
    exact SameView.trans (SameView.trans (Roused.lower rfl) (.poke _ _ _))
      (syscallReply2_nudged replied).roused
  · cases ran
    exact .refl k

theorem reparent_roused (k : Machine) (who : ProcNr) : Roused k (reparent k who) := by
  refine ⟨rfl, rfl, rfl, fun p => ?_⟩
  simp only [reparent]
  split_ifs <;> rfl

/-- The handler of a timer balances the queues, or sends a signal or a reply. -/
theorem runTimer_cases {t : Timer} (ran : runTimer k t = some k') :
    rebalanceQueues k = some k' ∨ Roused k k' := by
  unfold runTimer at ran
  split at ran
  · cases ran
  · exact .inl ran
  · refine .inr ?_
    unfold deliverAlarm at ran
    split at ran
    · cases ran
      exact .refl k
    · obtain ⟨⟨sent, result⟩, sending, rfl⟩ := map_eq_some_iff.mp ran
      exact sendSig_roused sending
  · refine .inr ?_
    unfold wakeupProcess at ran
    split at ran
    · cases ran
      exact .refl k
    · split_ifs at ran
      · cases ran
        exact .refl k
      · obtain ⟨⟨answered, result⟩, replied, rfl⟩ := map_eq_some_iff.mp ran
        exact (syscallReply2_nudged replied).roused

end Roused

/-! ### `check_waiting` -/

/-- The answer that `check_waiting` gives: to whom, the id and the status word. -/
structure LateAnswer where
  parent : ProcNr
  pid : Int
  status : Word

/-- The answer of `check_waiting`, if the parent waits for this process. -/
def lateAnswer (k : Machine) (who : ProcNr) : Option LateAnswer :=
  (getProc k (k.procTable who).parent).bind fun parent =>
    if (has (k.procTable parent).state .waiting && waitsFor (k.procTable parent) (k.procTable who)) &&
      !(has (k.procTable who).state .stopped && !hasBit (k.procTable parent).woptions wuntraced)
    then some ⟨parent, (k.procTable who).pid, getWstats (k.procTable who)⟩ else none

/-- The machine in which `check_waiting` replies. -/
def stopWaiting (k : Machine) (late : LateAnswer) : Machine :=
  ((k.poke (k.currMesg + 1) waitpid).poke (k.currMesg + 3) late.status).updateProc late.parent
    fun p => { p with state := lower p.state .waiting, wpid := 0 }

theorem stopWaiting_roused (k : Machine) (late : LateAnswer) : Roused k (stopWaiting k late) := by
  refine SameView.trans (.poke _ _ _) (SameView.trans (.poke _ _ _) (.updateProc ?_))
  simp only [Proc.roused, lower_unwaiting _ (show StateFlag.waiting.waits = true from rfl)]
  rfl

/-- What `check_waiting` did: nothing, or it gave the late answer and the slot of a zombie back. -/
theorem checkWaiting_late {who : ProcNr} (ran : checkWaiting k who = some k') :
    (lateAnswer k who = none ∧ k' = k) ∨ ∃ late replied result, lateAnswer k who = some late ∧
      syscallReply2 (stopWaiting k late) late.pid late.parent k.currMesg = some (replied, result) ∧
      k' = releaseZombie replied who := by
  unfold checkWaiting at ran
  unfold lateAnswer
  split at ran
  · rename_i absent
    cases ran
    rw [absent]
    exact .inl ⟨rfl, rfl⟩
  · rename_i parent found
    rw [found, bind_some]
    split_ifs at ran with waiting stopped
    · cases ran
      rw [if_neg (by simp [stopped])]
      exact .inl ⟨rfl, rfl⟩
    · obtain ⟨⟨replied, result⟩, given, ran⟩ := bind_eq_some_iff.mp ran
      cases ran
      rw [Machine.updateProc_field Proc.pid rfl] at given
      rw [if_pos (by simp [waiting, stopped])]
      refine .inr ⟨_, replied, result, rfl, given, ?_⟩
      split_ifs with zombie
      · rfl
      · rw [releaseZombie, if_neg zombie]
    · cases ran
      rw [if_neg (by simp [waiting])]
      exact .inl ⟨rfl, rfl⟩

/-! ### The end of a process -/

/-- A process without the links of the sender queues. -/
def Proc.unqueued (p : Proc) : Proc := { p with senderQ := none, nextSender := none }

theorem unqueue_unqueued {who rp : ProcNr} (ran : unqueue k who rp = some k') :
    SameView Proc.unqueued k k' := by
  obtain ⟨⟨prev, found⟩, -, ran⟩ := bind_eq_some_iff.mp ran
  dsimp only at ran
  split_ifs at ran
  · split at ran
    all_goals
      cases ran
      exact .updateProc rfl
  · cases ran
    exact .refl k

/-- `clear_sending_mesg` changes nothing but the sender queues. -/
theorem clearSendingMesg_unqueued {who : ProcNr} (ran : clearSendingMesg k who = some k') :
    SameView Proc.unqueued k k' := by
  unfold clearSendingMesg at ran
  generalize procSlots = slots at ran
  induction slots generalizing k with
  | nil =>
    cases ran
    exact .refl _
  | cons rp slots ih =>
    rw [List.foldlM_cons] at ran
    obtain ⟨middle, first, rest⟩ := bind_eq_some_iff.mp ran
    refine SameView.trans ?_ (ih rest)
    split_ifs at first
    · exact unqueue_unqueued first
    · cases first
      exact .refl k

/-- Every way `exit_proc` comes to its call of `check_waiting`. -/
structure Ending (k : Machine) (who : ProcNr) (status : Word) (signum : Nat) (k' : Machine)
    (parent : ProcNr) : Prop where
  found : getProc k (k.procTable who).parent = some parent
  ended : ∃ dead cleared,
    Nudged (k.updateProc who fun p => { p with state := raise p.state .zombie }) dead ∧
    clearSendingMesg dead who = some cleared ∧
    Roused (cleared.updateProc who fun p =>
      { p with exitStatus := status, sigStatus := BitVec.ofNat 32 signum }) k'

theorem endProc_ending {who parent : ProcNr} {status : Word} {signum : Nat}
    (ran : endProc k who status signum = some (k', parent)) :
    Ending k who status signum k' parent := by
  obtain ⟨above, found, ran⟩ := bind_eq_some_iff.mp ran
  obtain ⟨dead, zombified, ran⟩ := bind_eq_some_iff.mp ran
  obtain ⟨cleared, clearing, ran⟩ := bind_eq_some_iff.mp ran
  obtain ⟨unblocked, unblocking, ran⟩ := bind_eq_some_iff.mp ran
  cases ran
  exact ⟨found, dead, cleared, Nudged.dequeueSchedule zombified, clearing,
    (endVfork_roused unblocking).trans (reparent_roused _ _)⟩

/-- A process without the fields that the end of a process changes. -/
def Proc.outliving (p : Proc) : Proc :=
  { p.roused.unqueued with state := 0, exitStatus := 0, sigStatus := 0, pid := 0, flags := 0 }

/-- Processes have ended or changed state, and nothing else. -/
abbrev Outlived : Machine → Machine → Prop := SameView Proc.outliving

section Outlived

variable {k k' : Machine}

theorem Roused.outlived (same : Roused k k') : Outlived k k' := same.coarsen fun _ => rfl

theorem Nudged.outlived (same : Nudged k k') : Outlived k k' := same.roused.outlived

theorem releaseZombie_outlived (k : Machine) (p : ProcNr) : Outlived k (releaseZombie k p) := by
  unfold releaseZombie
  split_ifs
  · exact .updateProc rfl
  · exact .refl k

theorem checkWaiting_outlived {who : ProcNr} (ran : checkWaiting k who = some k') : Outlived k k' := by
  rcases checkWaiting_late ran with ⟨-, rfl⟩ | ⟨late, replied, result, -, given, rfl⟩
  · exact .refl k'
  · exact ((stopWaiting_roused k late).outlived.trans (syscallReply2_nudged given).outlived).trans
      (releaseZombie_outlived _ _)

theorem endProc_outlived {who parent : ProcNr} {status : Word} {signum : Nat}
    (ran : endProc k who status signum = some (k', parent)) : Outlived k k' := by
  obtain ⟨-, dead, cleared, nudged, clearing, roused⟩ := endProc_ending ran
  have quiet : Outlived dead cleared := (clearSendingMesg_unqueued clearing).coarsen fun _ => rfl
  refine SameView.trans (.updateProc rfl) (nudged.outlived.trans (quiet.trans ?_))
  exact SameView.trans (.updateProc rfl) roused.outlived

/-- **The end of a process leaves masks, actions and the place in memory alone**, its own and those
of every other process, and the clock. -/
theorem exitProc_outlived {who : ProcNr} {status : Word} {signum : Nat}
    (ran : exitProc k who status signum = some k') : Outlived k k' := by
  obtain ⟨⟨ended, parent⟩, ending, ran⟩ := bind_eq_some_iff.mp ran
  obtain ⟨checked, checking, ran⟩ := bind_eq_some_iff.mp ran
  obtain ⟨⟨sent, result⟩, sending, ran⟩ := bind_eq_some_iff.mp ran
  cases ran
  exact (endProc_outlived ending).trans
    ((checkWaiting_outlived checking).trans (sendSig_roused sending).outlived)

end Outlived

end Winix.Kernel
