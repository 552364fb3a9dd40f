/-
**Signal frames.**

`build_signal_ctx` copies the first `SIGNAL_CTX_LEN` words of `struct proc` to the stack of the process
and puts a `struct sigframe` below them: the signal number, the three words of a system call, and the
message that the call sends. The handler returns into `__sigreturn`, which drops the signal number and
traps; `do_sigreturn` copies the saved words back.

* `handleSig_frame`: the words that a caught signal leaves on the stack;
* `decode_frame`: they are a request for `sigreturn` that names the signal;
* **`sigreturn_restores`**: when the words are still there, `do_sigreturn` takes the process back to
  where it was, but for a handler of `SIGABRT`: the signal is sent again;
* **`protection_kept_iff`**: `do_sigreturn` believes whatever is on the stack, so that the base, the
  protection table and the control register are those that the process has put there.
-/

import Winix.Kernel.Boot
import Winix.Kernel.Handle
import Mathlib.Tactic.IntervalCases
import Mathlib.Tactic.Ring

namespace Winix.Kernel

open Lib Function Machine BitVec Option

/-! ### Words written in a row -/

section Words

variable {memory : Memory} {address x : Word} {len : Nat} {words : Nat → Word}

theorem writeWords_inside {i : Nat} (inside : i < len) (small : len ≤ 2 ^ 32) :
    writeWords memory address len words (address + BitVec.ofNat 32 i) = words i := by
  have place : (address + BitVec.ofNat 32 i - address).toNat = i := by
    rw [add_sub_cancel_left, toNat_ofNat]
    exact Nat.mod_eq_of_lt (lt_of_lt_of_le inside small)
  rw [writeWords, place, if_pos inside]

theorem writeWords_outside (outside : len ≤ (x - address).toNat) :
    writeWords memory address len words x = memory x := by
  rw [writeWords, if_neg (Nat.not_lt.mpr outside)]

end Words

/-! ### The frame of a caught signal -/

/-- Where the context of a process is saved. -/
def contextAt (p : Proc) : Word := physicalAddr p p.ctx.sp - BitVec.ofNat 32 signalCtxLen

/-- Where the frame below it starts. -/
def frameAt (p : Proc) : Word := contextAt p - BitVec.ofNat 32 sigframeLen

/-- The words that `handle_sig` leaves on the stack of a process, and its registers that point there. -/
structure Framed (p : Proc) (signum : Nat) (after : Machine) (who : ProcNr) : Prop where
  sp : (after.procTable who).ctx.sp = frameAt p - p.ctx.rbase
  rbase : (after.procTable who).ctx.rbase = p.ctx.rbase
  context : ∀ i < signalCtxLen, after.memory (contextAt p + BitVec.ofNat 32 i) = signalCtx p i
  operation : after.memory (frameAt p + 1) = winixSendrec
  dest : after.memory (frameAt p + 2) = 0#32
  pm : after.memory (frameAt p + 3) = frameAt p + 4 - p.ctx.rbase
  type : after.memory (frameAt p + 5) = sigret
  m1i1 : after.memory (frameAt p + 6) = BitVec.ofNat 32 signum

section Frame

variable {k k' after : Machine} {who : ProcNr} {signum : Nat}

/-- What `buildSignalCtx` leaves, for a process with this context. -/
theorem buildSignalCtx_frame (k : Machine) (who : ProcNr) (signum : Nat) :
    Framed (k.procTable who) signum (buildSignalCtx k who signum) who := by
  generalize same : k.procTable who = p
  have below : (contextAt p - p.ctx.rbase) + p.ctx.rbase - BitVec.ofNat 32 sigframeLen = frameAt p := by
    rw [sub_add_cancel]
    rfl
  have saved : ((copytoUserStack k who signalCtxLen (signalCtx p)).procTable who).ctx =
      { p.ctx with sp := contextAt p - p.ctx.rbase } := by
    rw [copytoUserStack, updateProc_same, same]
    rfl
  have memory : (copytoUserStack k who signalCtxLen (signalCtx p)).memory =
      writeWords k.memory (contextAt p) signalCtxLen (signalCtx p) := by
    rw [copytoUserStack, same]
    rfl
  have built : (buildSignalCtx k who signum).memory =
      writeWords (writeWords k.memory (contextAt p) signalCtxLen (signalCtx p)) (frameAt p)
        sigframeLen (sigframe (writeWords k.memory (contextAt p) signalCtxLen (signalCtx p)) k.sigMesg
          signum (contextAt p - p.ctx.rbase)) := by
    simp only [buildSignalCtx, updateProc_memory, same]
    rw [copytoUserStack]
    simp only [updateProc_memory, saved, memory, below]
    rfl
  have word : ∀ i < sigframeLen, (buildSignalCtx k who signum).memory
      (frameAt p + BitVec.ofNat 32 i) = sigframe (writeWords k.memory (contextAt p) signalCtxLen
        (signalCtx p)) k.sigMesg signum (contextAt p - p.ctx.rbase) i := fun i inside => by
    rw [built, writeWords_inside inside (by decide)]
  refine ⟨?_, ?_, fun i inside => ?_, word 1 (by decide), word 2 (by decide), ?_, word 5 (by decide),
    word 6 (by decide)⟩
  · simp only [buildSignalCtx, updateProc_same, same]
    rw [copytoUserStack]
    simp only [updateProc_same, saved, below]
  · simp only [buildSignalCtx, updateProc_same, same]
    rw [copytoUserStack]
    simp only [updateProc_same, saved]
  · -- the frame ends where the context starts
    rw [built, writeWords_outside, writeWords_inside inside (by decide)]
    have place : contextAt p + BitVec.ofNat 32 i - frameAt p = BitVec.ofNat 32 (sigframeLen + i) := by
      rw [frameAt, ofNat_add]
      ring
    rw [place, toNat_ofNat]
    unfold sigframeLen signalCtxLen at *
    omega
  · refine (word 3 (by decide)).trans ?_
    show contextAt p - p.ctx.rbase - BitVec.ofNat 32 messageLen = _
    have four : BitVec.ofNat 32 sigframeLen = 4 + BitVec.ofNat 32 messageLen := rfl
    rw [frameAt, four]
    ring

/-- A process whose context is another one's has the frame of that one. -/
theorem Framed.congr {p q : Proc} (same : signalCtx p = signalCtx q)
    (framed : Framed p signum after who) : Framed q signum after who := by
  have sp : p.ctx.sp = q.ctx.sp := congrFun same 13
  have rbase : p.ctx.rbase = q.ctx.rbase := congrFun same 16
  have context : contextAt p = contextAt q := by
    simp only [contextAt, physicalAddr, sp, rbase]
  have frame : frameAt p = frameAt q := congrArg (· - BitVec.ofNat 32 sigframeLen) context
  obtain ⟨sp', rbase', context', operation, dest, pm, type, m1i1⟩ := framed
  rw [frame] at sp' operation dest pm type m1i1
  rw [rbase] at sp' rbase' pm
  rw [context, same] at context'
  exact ⟨sp', rbase', context', operation, dest, pm, type, m1i1⟩

/-- The actions of a process are neither on its stack nor in its registers. -/
theorem Framed.sigTable {p : Proc} (framed : Framed p signum after who)
    (table : Proc → Nat → SigAction) :
    Framed p signum (after.updateProc who fun q => { q with sigTable := table q }) who := by
  refine ⟨?_, ?_, framed.context, framed.operation, framed.dest, framed.pm, framed.type, framed.m1i1⟩
  · rw [updateProc_same]
    exact framed.sp
  · rw [updateProc_same]
    exact framed.rbase

theorem catchSig_frame (k : Machine) (who : ProcNr) (signum : Nat) :
    Framed (k.procTable who) signum (catchSig k who signum) who := by
  have before : ∀ act, Framed (k.procTable who) signum (buildSignalCtx (k.updateProc who fun p =>
      { p with sigTable := update p.sigTable signum act }) who signum) who := by
    intro act
    refine (buildSignalCtx_frame _ who signum).congr ?_
    rw [updateProc_same]
    rfl
  by_cases oneShot : hasBit ((k.procTable who).sigTable signum).flags saResethand = true
  · simp only [catchSig, if_pos oneShot]
    exact (before _).sigTable _
  · simp only [catchSig, if_neg oneShot]
    exact before _

/-- **A caught signal leaves a frame.** -/
theorem handleSig_frame {exit : ExitProc} (caught : catches (k.procTable who) signum = true)
    (handled : handleSig exit k who signum = some after) :
    Framed (k.procTable who) signum after who := by
  rw [handleSig_caught caught handled]
  refine (catchSig_frame _ who signum).congr ?_
  rw [updateProc_same]
  rfl

end Frame

/-! ### The way back -/

/-- The process traps in `__sigreturn`: its stack pointer is just past the signal number, and the words
at and above the frame are those that `handle_sig` left. -/
structure Returning (after trapped : Machine) (who : ProcNr) : Prop where
  sp : (trapped.procTable who).ctx.sp = (after.procTable who).ctx.sp + 1
  rbase : (trapped.procTable who).ctx.rbase = (after.procTable who).ctx.rbase
  words : ∀ i < sigframeLen + signalCtxLen,
    trapped.memory (physicalAddr (after.procTable who) (after.procTable who).ctx.sp +
      BitVec.ofNat 32 i) =
    after.memory (physicalAddr (after.procTable who) (after.procTable who).ctx.sp +
      BitVec.ofNat 32 i)

/-- The message that the trap finds. -/
def foundMessage (trapped : Machine) (who : ProcNr) : Message :=
  readMessage trapped.memory (decode trapped who).2.message

/-- The request has reached `do_sigreturn`, in the buffer `m`: the process still has its stack pointer,
its base and the words that were saved. -/
structure Reaches (trapped called : Machine) (who : ProcNr) (m : Word) : Prop where
  sp : (called.procTable who).ctx.sp = (trapped.procTable who).ctx.sp
  rbase : (called.procTable who).ctx.rbase = (trapped.procTable who).ctx.rbase
  words : ∀ i < signalCtxLen,
    called.memory (physicalAddr (trapped.procTable who) (trapped.procTable who).ctx.sp +
      BitVec.ofNat 32 syscallFrameCommLen + BitVec.ofNat 32 i) =
    trapped.memory (physicalAddr (trapped.procTable who) (trapped.procTable who).ctx.sp +
      BitVec.ofNat 32 syscallFrameCommLen + BitVec.ofNat 32 i)
  signum : called.memory (m + 2) = (foundMessage trapped who).m1i1

/-- The signal that `do_sigreturn` sends again ends a `pause` or a `sigsuspend`. -/
def EndsPause (p : Proc) (called : Machine) (who : ProcNr) (signum : Nat) : Prop :=
  signum = sigabrt ∧ has p.state .pausing = true ∧ p.isUserProc = true ∧
    sigismember (called.procTable who).sigMask2 sigabrt = false

/-- The saved words are what they were, but for the state of a process that was blocked in a system
call: it is answered. -/
structure Restored (p p' : Proc) (result : Int) : Prop where
  words : ∀ i < signalCtxLen, i ≠ 19 → signalCtx p' i = signalCtx p i
  state : p'.state = if has p.state .receiving then raise runnable .receiving else p.state
  result : result = if has p.state .receiving then eintr else dontreply

section Return

variable {k k' after trapped called : Machine} {who : ProcNr} {signum : Nat} {m : Word} {p q : Proc}

theorem Framed.top (framed : Framed p signum after who) :
    physicalAddr (after.procTable who) (after.procTable who).ctx.sp = frameAt p := by
  rw [physicalAddr, framed.sp, framed.rbase, sub_add_cancel]

theorem Framed.next (framed : Framed p signum after who) (returning : Returning after trapped who) :
    physicalAddr (trapped.procTable who) (trapped.procTable who).ctx.sp = frameAt p + 1 := by
  rw [physicalAddr, returning.sp, returning.rbase, ← framed.top, physicalAddr]
  ring

/-- **The words of the frame are a request for `sigreturn`.** -/
theorem decode_frame (framed : Framed p signum after who) (returning : Returning after trapped who) :
    decode trapped who = (trapped, ⟨winixSendrec, system, frameAt p + 4⟩) ∧
    foundMessage trapped who = readMessage after.memory (frameAt p + 4) ∧
    (foundMessage trapped who).type = sigret ∧
    (foundMessage trapped who).m1i1 = BitVec.ofNat 32 signum := by
  have words := returning.words
  rw [framed.top] at words
  have base : (trapped.procTable who).ctx.rbase = p.ctx.rbase := returning.rbase.trans framed.rbase
  have operation : trapped.memory (frameAt p + 1) = winixSendrec :=
    (words 1 (by decide)).trans framed.operation
  have dest : trapped.memory (frameAt p + 1 + 1) = 0#32 := by
    rw [add_assoc]
    exact (words 2 (by decide)).trans framed.dest
  have pm : trapped.memory (frameAt p + 1 + 2) = frameAt p + 4 - p.ctx.rbase := by
    rw [add_assoc]
    exact (words 3 (by decide)).trans framed.pm
  have decoded : decode trapped who = (trapped, ⟨winixSendrec, system, frameAt p + 4⟩) := by
    have indirect : ¬ (0 < winixSendrec.toInt ∧ winixSendrec.toInt < nsyscall) := by decide
    unfold decode
    simp only [framed.next returning, operation, dest, pm]
    rw [if_neg indirect, physicalAddr, base, sub_add_cancel]
    rfl
  have message : foundMessage trapped who = readMessage after.memory (frameAt p + 4) := by
    rw [foundMessage, decoded]
    refine readMessage_congr fun address inside => ?_
    have place : address = frameAt p + BitVec.ofNat 32 (4 + (address - (frameAt p + 4)).toNat) := by
      rw [ofNat_add, ← add_assoc]
      exact (add_offset _ _).symm
    have inside : (address - (frameAt p + 4)).toNat < messageLen := inside
    rw [place]
    refine words _ ?_
    unfold messageLen at inside
    unfold sigframeLen signalCtxLen
    omega
  refine ⟨decoded, message, ?_, ?_⟩
  · rw [message]
    show after.memory (frameAt p + 4 + 1) = _
    rw [add_assoc]
    exact framed.type
  · rw [message]
    show after.memory (frameAt p + 4 + 2) = _
    rw [add_assoc]
    exact framed.m1i1

/-- The words that `do_sigreturn` copies are the words that the process then has. -/
theorem signalCtx_restoreCtx (memory : Memory) (sp : Word) (p : Proc) {i : Nat}
    (inside : i < signalCtxLen) :
    signalCtx (restoreCtx memory sp p) i = memory (sp + BitVec.ofNat 32 i) := by
  by_cases register : i < 13
  · simp only [signalCtx, restoreCtx, if_pos register]
  · unfold signalCtxLen at inside
    interval_cases i <;> rfl

/-- `do_sigreturn` finds the context where it was saved. -/
theorem takeBack_signalCtx (framed : Framed p signum after who)
    (returning : Returning after trapped who) (reaches : Reaches trapped called who m) {i : Nat}
    (inside : i < signalCtxLen) :
    signalCtx ((takeBack called who).procTable who) i = signalCtx p i := by
  have start : physicalAddr (called.procTable who) (called.procTable who).ctx.sp = frameAt p + 1 := by
    rw [physicalAddr, reaches.sp, reaches.rbase]
    exact framed.next returning
  have context : frameAt p + 1 + BitVec.ofNat 32 syscallFrameCommLen = contextAt p := by
    have twelve : BitVec.ofNat 32 sigframeLen = 1 + BitVec.ofNat 32 syscallFrameCommLen := rfl
    rw [frameAt, twelve]
    ring
  have kept := reaches.words i inside
  rw [framed.next returning, context] at kept
  have words := returning.words (sigframeLen + i) (Nat.add_lt_add_left inside _)
  have place : frameAt p + BitVec.ofNat 32 (sigframeLen + i) = contextAt p + BitVec.ofNat 32 i := by
    rw [frameAt, ofNat_add]
    ring
  rw [framed.top, place] at words
  rw [takeBack, updateProc_same]
  refine (signalCtx_restoreCtx called.memory _ (called.procTable who) inside).trans ?_
  rw [start, context, kept, words, framed.context i inside]

/-- Sending `SIGABRT` again changes none of the saved words, if it does not end a pause. -/
theorem sendSig_signalCtx (k : Machine) (who : ProcNr)
    (awake : (k.procTable who).isUserProc = true →
      sigismember (k.procTable who).sigMask sigabrt = false →
        has (k.procTable who).state .pausing = false) :
    ∃ k' result, sendSig k who sigabrt = some (k', result) ∧
      signalCtx (k'.procTable who) = signalCtx (k.procTable who) := by
  have pended : signalCtx ((k.updateProc who fun p =>
      { p with sigPending := sigaddset p.sigPending sigabrt }).procTable who) =
      signalCtx (k.procTable who) := by
    rw [updateProc_same]
    rfl
  unfold sendSig
  split_ifs with user blocked ignored
  · exact ⟨k, _, rfl, rfl⟩
  · exact ⟨_, _, rfl, pended⟩
  · have unblocked : sigismember (k.procTable who).sigMask sigabrt = false := by
      rw [Bool.eq_false_iff]
      intro member
      exact blocked (by rw [member]; rfl)
    refine ⟨_, ok, ?_, pended⟩
    rw [raiseSig, awake user unblocked]
    rfl
  · exact ⟨k, _, rfl, rfl⟩

/-- The step between the copy and the check of the state changes none of the saved words. -/
theorem abortOrGoOn_signalCtx (small : signum < nsig)
    (awake : signum = sigabrt → (k.procTable who).isUserProc = true →
      sigismember (k.procTable who).sigMask sigabrt = false →
        has (k.procTable who).state .pausing = false) :
    ∃ k', abortOrGoOn k who (BitVec.ofNat 32 signum).toInt = some k' ∧
      signalCtx (k'.procTable who) = signalCtx (k.procTable who) := by
  have number : (BitVec.ofNat 32 signum).toInt = (signum : Int) := by
    unfold nsig at small
    rw [toInt_eq_toNat_of_lt, toNat_ofNat, Nat.mod_eq_of_lt (by omega)]
    rw [toNat_ofNat]
    omega
  unfold abortOrGoOn
  rw [number]
  dsimp only
  by_cases abort : signum = sigabrt
  · rw [if_pos (by exact_mod_cast abort)]
    let reset := k.updateProc who fun p => { p with
      sigTable := update p.sigTable sigabrt
        { (k.procTable who).sigTable sigabrt with handler := sigDfl } }
    have same : reset.procTable who = { k.procTable who with
        sigTable := update (k.procTable who).sigTable sigabrt
          { (k.procTable who).sigTable sigabrt with handler := sigDfl } } := updateProc_same ..
    obtain ⟨sent, result, sending, kept⟩ := sendSig_signalCtx reset who (by
      rw [same]
      exact awake abort)
    refine ⟨sent, ?_, ?_⟩
    · show (sendSig reset who sigabrt).map Prod.fst = _
      rw [sending]
      rfl
    · rw [kept, same]
      rfl
  · rw [if_neg (by exact_mod_cast abort)]
    refine ⟨_, rfl, ?_⟩
    split_ifs
    · exact (enqueueSchedule_sameIpc k who).field signalCtx (fun _ => rfl) who
    · rfl

theorem restored_of_signalCtx (same : ∀ i < signalCtxLen, signalCtx (k.procTable who) i =
    signalCtx p i) :
    ∃ k' result, (if has (k.procTable who).state .receiving then
        some (k.updateProc who fun p => { p with state := raise runnable .receiving }, eintr)
      else some (k, dontreply)) = some (k', result) ∧ Restored p (k'.procTable who) result := by
  have state : (k.procTable who).state = p.state := same 19 (by decide)
  rw [state]
  by_cases blocked : has p.state .receiving = true
  · refine ⟨_, _, if_pos blocked, fun i inside other => ?_, ?_, (if_pos blocked).symm⟩
    · rw [← same i inside, updateProc_same]
      by_cases register : i < 13
      · simp only [signalCtx, if_pos register]
      · unfold signalCtxLen at inside
        interval_cases i <;> first | rfl | exact absurd rfl other
    · rw [updateProc_same, if_pos blocked]
  · refine ⟨_, _, if_neg blocked, fun i inside _ => same i inside, ?_, (if_neg blocked).symm⟩
    rw [state, if_neg blocked]

end Return

/-- **`sigreturn` undoes the delivery of a signal.** A process catches a signal and later traps in
`__sigreturn`, with the words at and above the frame unchanged: the message that the trap finds is
the one that was built, and `do_sigreturn` takes the process back to where it was, unless the signal
that it sends again ends a pause. -/
theorem sigreturn_restores {exit : ExitProc} {k after trapped : Machine} {who : ProcNr} {signum : Nat}
    (small : signum < nsig) (caught : catches (k.procTable who) signum = true)
    (handled : handleSig exit k who signum = some after) (returning : Returning after trapped who) :
    ((decode trapped who).1 = trapped ∧ (decode trapped who).2.operation = winixSendrec ∧
      (decode trapped who).2.dest = system ∧
      foundMessage trapped who = readMessage after.memory (decode trapped who).2.message ∧
      (foundMessage trapped who).type = sigret ∧
      (foundMessage trapped who).m1i1 = BitVec.ofNat 32 signum) ∧
    ∀ called m, Reaches trapped called who m → ¬ EndsPause (k.procTable who) called who signum →
      ∃ k' result, sigreturnResult called who m = some (k', result) ∧
        Restored (k.procTable who) (k'.procTable who) result := by
  have framed := handleSig_frame caught handled
  obtain ⟨decoded, message, type, m1i1⟩ := decode_frame framed returning
  refine ⟨⟨by rw [decoded], by rw [decoded], by rw [decoded], by rw [decoded]; exact message, type,
    m1i1⟩, fun called m reaches awake => ?_⟩
  have back : ∀ i < signalCtxLen, signalCtx ((takeBack called who).procTable who) i =
      signalCtx (k.procTable who) i := fun i inside =>
    takeBack_signalCtx framed returning reaches inside
  have rbase : ((takeBack called who).procTable who).ctx.rbase = (k.procTable who).ctx.rbase :=
    back 16 (by decide)
  have state : ((takeBack called who).procTable who).state = (k.procTable who).state :=
    back 19 (by decide)
  have mask : ((takeBack called who).procTable who).sigMask = (called.procTable who).sigMask2 := by
    rw [takeBack, updateProc_same]
  have goesOn : signum = sigabrt → ((takeBack called who).procTable who).isUserProc = true →
      sigismember ((takeBack called who).procTable who).sigMask sigabrt = false →
      has ((takeBack called who).procTable who).state .pausing = false := by
    intro abort user unblocked
    rw [Proc.isUserProc, rbase] at user
    rw [mask] at unblocked
    rw [state]
    exact Bool.eq_false_iff.mpr fun pausing => awake ⟨abort, pausing, user, unblocked⟩
  obtain ⟨gone, going, same⟩ := abortOrGoOn_signalCtx small goesOn
  have saved : ∀ i < signalCtxLen, signalCtx (gone.procTable who) i = signalCtx (k.procTable who) i :=
    fun i inside => by rw [same, back i inside]
  obtain ⟨k', result, ended, restored⟩ := restored_of_signalCtx saved
  refine ⟨k', result, ?_, restored⟩
  unfold sigreturnResult
  rw [reaches.signum, m1i1, going]
  exact ended

/-- The system task and process 1, which has handlers for `SIGABRT` and signal 1 and is in this
state. -/
def caughtMachine (state : Word) : Machine :=
  (stacked [0, 1] []).updateProc 1 fun p =>
    { p with
      state := state
      sigTable := fun signum =>
        if signum = sigabrt ∨ signum = 1 then ⟨0x100#32, 0#32, 0#32⟩ else ⟨sigDfl, 0#32, 0#32⟩ }

/-- The handler has returned: the stack pointer is just past the signal number. -/
def dropNumber (k : Machine) : Machine :=
  k.updateProc 1 fun p => { p with ctx := { p.ctx with sp := p.ctx.sp + 1 } }

theorem returning_dropNumber (k : Machine) : Returning k (dropNumber k) 1 := by
  refine ⟨?_, ?_, fun _ _ => rfl⟩
  · rw [dropNumber, updateProc_same]
  · rw [dropNumber, updateProc_same]

/-- A process that was blocked in a system call comes back from its handler, and the call is
answered. -/
theorem blocked_restored : ∃ after k' result,
    handleSig noExit (caughtMachine (raise runnable .receiving)) 1 1 = some after ∧
    sigreturnResult (dropNumber after) 1 (decode (dropNumber after) 1).2.message = some (k', result) ∧
    Restored ((caughtMachine (raise runnable .receiving)).procTable 1) (k'.procTable 1) result := by
  have caught : catches ((caughtMachine (raise runnable .receiving)).procTable 1) 1 = true := by decide
  obtain ⟨after, handled, -⟩ := exists_of_any (by decide +kernel :
    (handleSig noExit (caughtMachine (raise runnable .receiving)) 1 1).any (fun _ => decide True) =
      true)
  obtain ⟨-, restores⟩ := sigreturn_restores (by decide) caught handled (returning_dropNumber after)
  obtain ⟨k', result, ran, restored⟩ := restores (dropNumber after) _
    ⟨rfl, rfl, fun _ _ => rfl, rfl⟩ fun ends => absurd ends.1 (by decide)
  exact ⟨after, k', result, handled, ran, restored⟩

/-- **A pause does not survive a handler of `SIGABRT`.** The process was blocked in `pause`, and
when its handler returns the call has been answered and it is runnable, although its state was
`STATE_RECEIVING | STATE_PAUSING`. -/
theorem abort_ends_pause : ∃ after k' result,
    handleSig noExit (caughtMachine (raise (raise runnable .receiving) .pausing)) 1 sigabrt =
      some after ∧ Returning after (dropNumber after) 1 ∧
    Reaches (dropNumber after) (dropNumber after) 1 (decode (dropNumber after) 1).2.message ∧
    sigreturnResult (dropNumber after) 1 (decode (dropNumber after) 1).2.message = some (k', result) ∧
    (k'.procTable 1).state = runnable ∧
    ¬ Restored ((caughtMachine (raise (raise runnable .receiving) .pausing)).procTable 1)
      (k'.procTable 1) result := by
  obtain ⟨⟨after, k', result⟩, ran, state⟩ := exists_of_any (by decide +kernel :
    ((handleSig noExit (caughtMachine (raise (raise runnable .receiving) .pausing)) 1 sigabrt).bind
      fun after => (sigreturnResult (dropNumber after) 1 (decode (dropNumber after) 1).2.message).map
        fun done => (after, done)).any
      (fun ran => decide ((ran.2.1.procTable 1).state = runnable)) = true)
  obtain ⟨after, handled, ran⟩ := bind_eq_some_iff.mp ran
  obtain ⟨⟨k', result⟩, ran, same⟩ := map_eq_some_iff.mp ran
  cases same
  refine ⟨after, k', result, handled, returning_dropNumber after, ⟨rfl, rfl, fun _ _ => rfl, rfl⟩, ran,
    state, fun restored => ?_⟩
  have receiving := restored.state
  rw [state] at receiving
  exact absurd receiving (by decide)

/-! ### What a process can write into its own context -/

/-- What keeps a process inside its memory: the base, the protection table and the control register. -/
structure Protection where
  rbase : Word
  ptable : Word
  cctrl : Word
  deriving DecidableEq, Repr

/-- The registers that protect the memory. -/
def Proc.protection (p : Proc) : Protection := ⟨p.ctx.rbase, p.ctx.ptable, p.ctx.cctrl⟩

/-- The three words, where `do_sigreturn` finds them on the stack of a process. -/
def stackedProtection (k : Machine) (who : ProcNr) : Protection :=
  let p := k.procTable who
  let word (i : Nat) := k.memory (physicalAddr p p.ctx.sp + BitVec.ofNat 32 syscallFrameCommLen +
    BitVec.ofNat 32 i)
  ⟨word 16, word 17, word 18⟩

theorem takeBack_protection (k : Machine) (who : ProcNr) :
    ((takeBack k who).procTable who).protection = stackedProtection k who := by
  rw [takeBack, updateProc_same]
  rfl

section Protection

variable {k k' : Machine} {who : ProcNr} {m : Word} {result : Int}

/-- **What `do_sigreturn` leaves is what was on the stack.** -/
theorem sigreturnResult_protection (ran : sigreturnResult k who m = some (k', result)) :
    (k'.procTable who).protection = stackedProtection k who := by
  obtain ⟨gone, going, ran⟩ := bind_eq_some_iff.mp ran
  have went : (gone.procTable who).protection = ((takeBack k who).procTable who).protection := by
    unfold abortOrGoOn at going
    split_ifs at going
    · obtain ⟨⟨sent, _⟩, sending, rfl⟩ := map_eq_some_iff.mp going
      have same : SameView Proc.protection _ _ := (sendSig_roused sending).coarsen fun _ => rfl
      rw [same.proc who, updateProc_same]
      rfl
    · cases going
      exact (enqueueSchedule_sameIpc _ who).field Proc.protection (fun _ => rfl) who
    · cases going
      rfl
  rw [← takeBack_protection, ← went]
  split_ifs at ran
  · cases ran
    rw [updateProc_same]
    rfl
  · cases ran
    rfl

/-- **A process keeps its protection** through `sigreturn` if and only if it has put it on its stack. -/
theorem protection_kept_iff (ran : sigreturnResult k who m = some (k', result)) :
    (k'.procTable who).protection = (k.procTable who).protection ↔
      stackedProtection k who = (k.procTable who).protection := by
  rw [sigreturnResult_protection ran]

end Protection

/-- The system task and process 1, which has these three words where `do_sigreturn` looks for them. -/
def forgedMachine (words : Protection) : Machine :=
  stacked [0, 1] [(imageBase 1 + 256 + 27, words.rbase), (imageBase 1 + 256 + 28, words.ptable),
    (imageBase 1 + 256 + 29, words.cctrl)]

/-- A process that has written its own words to its stack keeps them. -/
theorem honest_kept : ∃ k' result,
    sigreturnResult (forgedMachine ((stacked [0, 1] []).procTable 1).protection) 1 0x300#32 =
      some (k', result) ∧
    (k'.procTable 1).protection = ((stacked [0, 1] []).procTable 1).protection := by
  obtain ⟨⟨k', result⟩, ran, -⟩ := exists_of_any (by decide +kernel :
    (sigreturnResult (forgedMachine ((stacked [0, 1] []).procTable 1).protection) 1 0x300#32).any
      (fun _ => decide True) = true)
  exact ⟨k', result, ran, (protection_kept_iff ran).mpr (by decide)⟩

/-- **A process takes over the kernel.** It was in no handler; it has written the base 0 and the control
register of the kernel to its stack, called `sigreturn`, and has them. -/
theorem protection_forged : ∃ k' result,
    sigreturnResult (forgedMachine ⟨0#32, 0#32, defaultCctrl⟩) 1 0x300#32 = some (k', result) ∧
    ((forgedMachine ⟨0#32, 0#32, defaultCctrl⟩).procTable 1).ctx.rbase = imageBase 1 ∧
    (k'.procTable 1).protection = ⟨0#32, 0#32, defaultCctrl⟩ := by
  obtain ⟨⟨k', result⟩, ran, taken⟩ := exists_of_any (by decide +kernel :
    (sigreturnResult (forgedMachine ⟨0#32, 0#32, defaultCctrl⟩) 1 0x300#32).any
      (fun ran => decide ((ran.1.procTable 1).protection = ⟨0#32, 0#32, defaultCctrl⟩)) = true)
  exact ⟨k', result, ran, rfl, taken⟩

end Winix.Kernel
