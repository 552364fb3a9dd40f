/-
**Signals: `kernel/signal.c`, with `check_waiting` and `release_zombie`.**

A signal is recorded in `sig_pending` by `sendSig` and acted upon by `handleSig`, which the
scheduler calls for the process it has picked and `sys_kill` for a process that is blocked. The
default action of most signals ends the process; ending a process closes its files and gives back
its memory, so `exitProc` is a parameter here.

Uninitialised locals (the message of `send_sig`, the frame of `build_signal_ctx`) hold whatever the
memory holds at their address on the kernel stack.
-/

import Winix.Kernel.Ipc

namespace Winix.Kernel

open Lib Machine

/-- `exit_proc(who, status, signum)`. -/
abbrev ExitProc := Machine → ProcNr → Word → Nat → Option Machine

/-- `_NSIG`. -/
def nsig : Nat := 21
/-- `SIGABRT`. -/
def sigabrt : Nat := 6
/-- `SIGKILL`. -/
def sigkill : Nat := 9
/-- `SIGALRM`. -/
def sigalrm : Nat := 14
/-- `SIGSTOP`. -/
def sigstop : Nat := 17
/-- `SIGTSTP`. -/
def sigtstp : Nat := 18
/-- `SIGCONT`. -/
def sigcont : Nat := 19
/-- `SIGCHLD`. -/
def sigchld : Nat := 20
/-- `SIG_DFL`. -/
def sigDfl : Word := 0#32
/-- `SIG_IGN`. -/
def sigIgn : Word := 1#32
/-- `SA_RESETHAND`. -/
def saResethand : Nat := 1
/-- `SA_NODEFER`. -/
def saNodefer : Nat := 2
/-- `EINVAL`. -/
def einval : Int := -22
/-- `WAITPID`. -/
def waitpid : Word := 10#32
/-- `SIGRET`. -/
def sigret : Word := 9#32
/-- `WUNTRACED`. -/
def wuntraced : Nat := 1
/-- `WINIX_SENDREC`. -/
def winixSendrec : Word := 0x13370003#32

/-! ### Signal sets -/

/-- `sigaddset`. -/
def sigaddset (set : Word) (signo : Nat) : Word := if signo ≤ nsig then setBit set signo else set
/-- `sigdelset`. -/
def sigdelset (set : Word) (signo : Nat) : Word := if signo ≤ nsig then clearBit set signo else set
/-- `sigismember` returns `-1`, which is true, for a number that is no signal. -/
def sigismember (set : Word) (signo : Nat) : Bool := !decide (signo ≤ nsig) || hasBit set signo

/-- `is_sigpending`: the lowest pending signal that is not blocked, `0` if there is none. -/
def isSigpending (p : Proc) : Nat :=
  if p.sigPending ≠ 0#32 ∧ p.sigPending ≠ p.sigMask then
    ((List.range' 1 (nsig - 1)).find? fun i => hasBit p.sigPending i && !hasBit p.sigMask i).getD 0
  else 0

theorem isSigpending_of_zero {p : Proc} (quiet : p.sigPending = 0#32) : isSigpending p = 0 := by
  rw [isSigpending, if_neg]
  exact fun both => both.1 quiet

/-! ### Stopping and reaping -/

/-- The walk of `dequeue_schedule`: the predecessor and the cell it stops at. -/
def findReady (k : Machine) (h : ProcNr) :
    Nat → Option ProcNr → Option ProcNr → Option (Option ProcNr × Option ProcNr)
  | _, prev, none => some (prev, none)
  | 0, _, some _ => none
  | fuel + 1, prev, some curr =>
    if curr = h then some (prev, some curr)
    else findReady k h fuel (some curr) (k.procTable curr).next

/-- `dequeue_schedule`: take a process out of the ready queue of its priority. -/
def dequeueSchedule (k : Machine) (h : ProcNr) : Option Machine := do
  let priority := (k.procTable h).priority
  let q := k.readyQ priority
  let (prev, curr) ← findReady k h procSlots.length none q.head
  match curr, prev with
  | none, _ => some k
  | some curr, none =>
    let next := (k.procTable curr).next
    some (k.setQueue priority ⟨next, if next = none then none else q.tail⟩)
  | some curr, some prev =>
    some (k.updateProc prev fun p => { p with next := (k.procTable curr).next })

/-- `release_zombie`: give the slot of a zombie back. -/
def releaseZombie (k : Machine) (p : ProcNr) : Machine :=
  if has (k.procTable p).state .zombie then
    k.updateProc p fun proc => { proc with flags := 0#32, pid := 0, state := -1#32 }
  else k

/-- `get_wstats`. -/
def getWstats (child : Proc) : Word := child.exitStatus <<< 8 ||| (child.sigStatus &&& 0x7f#32)

/-- The `wpid` of a waiting parent names this child. -/
def waitsFor (parent child : Proc) : Bool :=
  (decide (0 < parent.wpid) && decide (parent.wpid = child.pid)) ||
  (decide (parent.wpid < -1) && decide (-parent.wpid = child.procgrp)) ||
  (decide (parent.wpid = 0) && decide (parent.procgrp = child.procgrp)) ||
  decide (parent.wpid = -1)

/-- `check_waiting`: answer the parent if it is waiting for this process. -/
def checkWaiting (k : Machine) (who : ProcNr) : Option Machine :=
  match getProc k (k.procTable who).parent with
  | none => some k
  | some parent =>
    if has (k.procTable parent).state .waiting && waitsFor (k.procTable parent) (k.procTable who) then
      if has (k.procTable who).state .stopped && !hasBit (k.procTable parent).woptions wuntraced then
        some k
      else do
        let mesg := k.currMesg
        let k := k.poke (mesg + 1) waitpid
        let k := k.poke (mesg + 3) (getWstats (k.procTable who))
        let k := k.updateProc parent fun p => { p with state := lower p.state .waiting, wpid := 0 }
        let (k, _) ← syscallReply2 k (k.procTable who).pid parent mesg
        some (if has (k.procTable who).state .zombie then releaseZombie k who else k)
    else some k

/-! ### Sending a signal -/

/-- Record the signal and wake a process that is blocked by `pause` or `sigsuspend`. -/
def raiseSig (k : Machine) (who : ProcNr) (signum : Nat) : Option (Machine × Int) := do
  let k ← if has (k.procTable who).state .pausing then do
      let k := k.poke (k.sigMesg + 1) 0#32
      let k := k.updateProc who fun p => { p with state := lower p.state .pausing }
      let (k, _) ← syscallReply2 k eintr who k.sigMesg
      some k
    else some k
  some (k.updateProc who fun p => { p with sigPending := sigaddset p.sigPending signum }, ok)

/-- `send_sig`. -/
def sendSig (k : Machine) (who : ProcNr) (signum : Nat) : Option (Machine × Int) :=
  if ¬ (k.procTable who).isUserProc then some (k, einval)
  else if sigismember (k.procTable who).sigMask signum && signum != sigkill && signum != sigstop then
    -- a signal that is blocked and ignored is not even pending
    if ((k.procTable who).sigTable signum).handler = sigIgn then some (k, ok)
    else some (k.updateProc who fun p => { p with sigPending := sigaddset p.sigPending signum }, ok)
  else raiseSig k who signum

/-! ### Acting on a signal -/

/-- The first zombie child, in slot order. -/
def zombieChild (k : Machine) (who : ProcNr) : Option ProcNr :=
  userSlots.find? fun p => (k.procTable p).inUse && decide ((k.procTable p).parent = who) &&
    has (k.procTable p).state .zombie

/-- The default action of a signal. -/
def defaultAction (exitProc : ExitProc) (k : Machine) (who : ProcNr) (signum : Nat) :
    Option Machine :=
  if signum = sigcont then
    if has (k.procTable who).state .stopped then
      some (enqueueSchedule
        (k.updateProc who fun p => { p with state := lower p.state .stopped }) who)
    else some k
  else if signum = sigtstp ∨ signum = sigstop then do
    let k := k.updateProc who fun p =>
      { p with state := raise p.state .stopped, sigStatus := BitVec.ofNat 32 signum }
    let k ← dequeueSchedule k who
    checkWaiting k who
  else exitProc k who 0#32 signum

/-- What the system does on an ignored signal. -/
def ignoredAction (exitProc : ExitProc) (k : Machine) (who : ProcNr) (signum : Nat) :
    Option Machine :=
  if signum = sigabrt then exitProc k who 0#32 signum
  else if signum = sigchld then
    match zombieChild k who with
    | some child => some (releaseZombie k child)
    | none => some k
  else some k

/-- The words of `struct proc` that `build_signal_ctx` saves on the user stack. -/
def signalCtx (p : Proc) (i : Nat) : Word :=
  if i < 13 then p.ctx.regs i
  else match i with
    | 13 => p.ctx.sp
    | 14 => p.ctx.ra
    | 15 => p.ctx.pc
    | 16 => p.ctx.rbase
    | 17 => p.ctx.ptable
    | 18 => p.ctx.cctrl
    | 19 => p.state
    | _ => p.message

/-- `SIGNAL_CTX_LEN`. -/
def signalCtxLen : Nat := 21

/-- `memcpy` of `len` words into memory. -/
def writeWords (memory : Memory) (address : Word) (len : Nat) (words : Nat → Word) : Memory :=
  fun x => if (x - address).toNat < len then words (x - address).toNat else memory x

/-- `copyto_user_stack`. -/
def copytoUserStack (k : Machine) (who : ProcNr) (len : Nat) (words : Nat → Word) : Machine :=
  let p := k.procTable who
  let sp := p.ctx.sp + p.ctx.rbase - BitVec.ofNat 32 len
  let k := { k with memory := writeWords k.memory sp len words }
  k.updateProc who fun proc => { proc with ctx := { proc.ctx with sp := sp - proc.ctx.rbase } }

/-- The words of `struct sigframe`: the signal number, the parameters of the system call and the
message; what is not set is what the kernel stack held at `frame`. -/
def sigframe (memory : Memory) (frame : Word) (signum : Nat) (sp : Word) : Nat → Word
  | 0 => BitVec.ofNat 32 signum
  | 1 => winixSendrec
  | 2 => 0#32
  | 3 => sp - BitVec.ofNat 32 messageLen
  | 5 => sigret
  | 6 => BitVec.ofNat 32 signum
  | i => memory (frame + BitVec.ofNat 32 i)

/-- The words of a signal frame. -/
def sigframeLen : Nat := 12

/-- `build_signal_ctx`: save the context on the user stack and start the handler. -/
def buildSignalCtx (k : Machine) (who : ProcNr) (signum : Nat) : Machine :=
  let k := copytoUserStack k who signalCtxLen (signalCtx (k.procTable who))
  let k := copytoUserStack k who sigframeLen
    (sigframe k.memory k.sigMesg signum (k.procTable who).ctx.sp)
  k.updateProc who fun p =>
    { p with
      ctx := { p.ctx with pc := (p.sigTable signum).handler, ra := p.saRestorer }
      sigMask2 := p.sigMask
      sigMask := (p.sigTable signum).mask
      state := runnable }

/-- The process has a handler for the signal. -/
def catches (p : Proc) (signum : Nat) : Bool :=
  decide ((p.sigTable signum).handler ≠ sigDfl ∧ (p.sigTable signum).handler ≠ sigIgn)

/-- `sigaddset` / `sigdelset` on the action's mask, then `build_signal_ctx`, then the reset of a
one-shot handler. -/
def catchSig (k : Machine) (who : ProcNr) (signum : Nat) : Machine :=
  let act := (k.procTable who).sigTable signum
  let masked : SigAction :=
    { act with mask := if hasBit act.flags saNodefer then sigaddset act.mask signum
        else sigdelset act.mask signum }
  let k := k.updateProc who fun p =>
    { p with sigTable := Function.update p.sigTable signum masked }
  let k := buildSignalCtx k who signum
  if hasBit act.flags saResethand then
    let reset : SigAction := { masked with handler := sigDfl }
    k.updateProc who fun p => { p with sigTable := Function.update p.sigTable signum reset }
  else k

/-- `handle_sig`. -/
def handleSig (exitProc : ExitProc) (k : Machine) (who : ProcNr) (signum : Nat) : Option Machine :=
  let k := k.updateProc who fun p => { p with sigPending := sigdelset p.sigPending signum }
  let handler := ((k.procTable who).sigTable signum).handler
  if handler = sigDfl then defaultAction exitProc k who signum
  else if handler = sigIgn then ignoredAction exitProc k who signum
  else some (catchSig k who signum)

/-- `handle_pendingsig`. -/
def handlePendingsig (exitProc : ExitProc) (k : Machine) (who : ProcNr) : Option Machine :=
  let signum := isSigpending (k.procTable who)
  if signum = 0 then some k
  else do
    let k ← handleSig exitProc k who signum
    some (if (k.procTable who).state = runnable then enqueueSchedule k who else k)

/-! ### What a caught signal changes -/

theorem handleSig_caught {exitProc : ExitProc} {k k' : Machine} {who : ProcNr} {signum : Nat}
    (caught : catches (k.procTable who) signum = true)
    (ran : handleSig exitProc k who signum = some k') :
    k' = catchSig (k.updateProc who fun p => { p with sigPending := sigdelset p.sigPending signum })
      who signum := by
  simp only [catches, decide_eq_true_eq] at caught
  unfold handleSig at ran
  dsimp only at ran
  rw [Machine.updateProc_field (fun p => (p.sigTable signum).handler) rfl, if_neg caught.1,
    if_neg caught.2] at ran
  cases ran
  rfl

theorem copytoUserStack_of_ne {k : Machine} {who p : ProcNr} (other : p ≠ who) (len : Nat)
    (words : Nat → Word) : (copytoUserStack k who len words).procTable p = k.procTable p := by
  rw [copytoUserStack, updateProc_of_ne other]

theorem catchSig_of_ne {k : Machine} {who p : ProcNr} (other : p ≠ who) (signum : Nat) :
    (catchSig k who signum).procTable p = k.procTable p := by
  have built : ∀ k : Machine, (buildSignalCtx k who signum).procTable p = k.procTable p := by
    intro k
    rw [buildSignalCtx, updateProc_of_ne other, copytoUserStack_of_ne other,
      copytoUserStack_of_ne other]
  by_cases oneShot : hasBit ((k.procTable who).sigTable signum).flags saResethand = true
  · simp only [catchSig, if_pos oneShot]
    rw [updateProc_of_ne other, built, updateProc_of_ne other]
  · simp only [catchSig, if_neg oneShot]
    rw [built, updateProc_of_ne other]

theorem catchSig_state (k : Machine) (who : ProcNr) (signum : Nat) :
    ((catchSig k who signum).procTable who).state = runnable := by
  have built : ∀ k : Machine, ((buildSignalCtx k who signum).procTable who).state = runnable := by
    intro k
    rw [buildSignalCtx, updateProc_same]
  by_cases oneShot : hasBit ((k.procTable who).sigTable signum).flags saResethand = true
  · simp only [catchSig, if_pos oneShot]
    rw [updateProc_field Proc.state rfl, built]
  · simp only [catchSig, if_neg oneShot]
    rw [built]

/-- A field that is neither the state nor part of the context or the signals. -/
theorem catchSig_field {β : Type*} (field : Proc → β)
    (unowned : ∀ (p : Proc) (ctx : Context) (state mask mask2 : Word) (table : Nat → SigAction),
      field { p with ctx, state, sigMask := mask, sigMask2 := mask2, sigTable := table } = field p)
    (k : Machine) (who : ProcNr) (signum : Nat) (p : ProcNr) :
    field ((catchSig k who signum).procTable p) = field (k.procTable p) := by
  by_cases other : p ≠ who
  · rw [catchSig_of_ne other]
  obtain rfl := not_not.mp other
  have stacked : ∀ (k : Machine) (len : Nat) (words : Nat → Word),
      field ((copytoUserStack k p len words).procTable p) = field (k.procTable p) := by
    intro k len words
    rw [copytoUserStack, updateProc_same]
    exact unowned _ _ _ _ _ _
  have built : ∀ k :
      Machine, field ((buildSignalCtx k p signum).procTable p) = field (k.procTable p) := by
    intro k
    rw [buildSignalCtx, updateProc_same]
    exact (unowned _ _ _ _ _ _).trans ((stacked _ _ _).trans (stacked _ _ _))
  by_cases oneShot : hasBit ((k.procTable p).sigTable signum).flags saResethand = true
  · simp only [catchSig, if_pos oneShot]
    rw [updateProc_same]
    refine (unowned _ _ _ _ _ _).trans ((built _).trans ?_)
    rw [updateProc_same]
    exact unowned _ _ _ _ _ _
  · simp only [catchSig, if_neg oneShot]
    rw [built, updateProc_same]
    exact unowned _ _ _ _ _ _

end Winix.Kernel
