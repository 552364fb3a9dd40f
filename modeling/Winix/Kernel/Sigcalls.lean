/-
**The system calls that deal with signals.**

`kernel/system/do_sigaction.c`, `do_sigprocmask.c`, `do_sigsuspend.c`, `do_sigreturn.c` and
`do_kill.c`. Whether an address belongs to the caller depends on its page table, which lives
elsewhere: the check `is_vaddr_ok` is a parameter. The locals of `do_signal` lie on the kernel stack,
at addresses that are parameters as well.
-/

import Winix.Kernel.Process

namespace Winix.Kernel

open Lib

/-- `EACCES`. -/
def eacces : Int := -13
/-- `EFAULT`. -/
def efault : Int := -14
/-- `SIG_ERR` of `posix_include/signal.h`, with which the kernel is built. -/
def sigErr : Int := 0xffff
/-- `SIGSEGV`. -/
def sigsegv : Nat := 11
/-- `SIG_BLOCK`. -/
def sigBlock : Int := 0
/-- `SIG_UNBLOCK`. -/
def sigUnblock : Int := 1
/-- `SIG_SETMASK`. -/
def sigSetmask : Int := 2

/-- `is_vaddr_ok(addr, who)`. -/
abbrev AddressCheck := Machine → ProcNr → Word → Bool

/-! ### `sigaction` and `signal` -/

/-- `struct sigaction` in memory. -/
def readSigaction (memory : Memory) (address : Word) : SigAction :=
  ⟨memory address, memory (address + 1), memory (address + 2)⟩

/-- Write a `struct sigaction`. -/
def writeSigaction (memory : Memory) (address : Word) (act : SigAction) : Memory :=
  store (store (store memory address act.handler) (address + 1) act.mask) (address + 2) act.flags

/-- A signal that is ignored is not pending any more. -/
def dropIgnored (k : Machine) (who : ProcNr) (signum : Nat) (act : Word) : Machine :=
  if k.memory act = sigIgn then
    k.updateProc who fun p => { p with sigPending := sigdelset p.sigPending signum }
  else k

/-- The old action is copied out before the new one is read, so that the two may overlap. -/
def copyOut (k : Machine) (who : ProcNr) (signum : Nat) (oact : Option Word) : Machine :=
  match oact with
  | none => k
  | some oact =>
    { k with memory := writeSigaction k.memory oact ((k.procTable who).sigTable signum) }

/-- `SIGKILL` and `SIGSTOP` taken out of a set. -/
def spare (set : Word) : Word := sigdelset (sigdelset set sigkill) sigstop

/-- `sys_sigaction`. -/
def sysSigaction (k : Machine) (who : ProcNr) (signum : Int) (act : Word) (oact : Option Word)
    (restorer : Word) : Machine × Int :=
  if signum < 1 ∨ (nsig : Int) ≤ signum then (k, einval)
  else if signum.toNat = sigkill ∨ signum.toNat = sigstop then (k, einval)
  else if k.memory act = sigIgn ∧ signum.toNat = sigsegv then (k, einval)
  else
    let k := copyOut (dropIgnored k who signum.toNat act) who signum.toNat oact
    let k := k.poke (act + 1) (spare (k.memory (act + 1)))
    (k.updateProc who fun p =>
      { p with
        sigTable := Function.update p.sigTable signum.toNat (readSigaction k.memory act)
        saRestorer := restorer }, ok)

/-- `do_sigaction`: a null `oact` is not written to. -/
def doSigaction (isVaddrOk : AddressCheck) (k : Machine) (who : ProcNr) (m : Word) : Machine × Int :=
  let signum := (k.memory (m + 2)).toInt
  let act := k.memory (m + 5)
  let oact := k.memory (m + 6)
  let restorer := k.memory (m + 7)
  let p := k.procTable who
  if !isVaddrOk k who act then (k, efault)
  else if oact ≠ 0#32 ∧ !isVaddrOk k who oact then (k, efault)
  else if !isVaddrOk k who restorer then (k, efault)
  else sysSigaction k who signum (physicalAddr p act)
    (if oact = 0#32 then none else some (physicalAddr p oact)) restorer

/-- `do_signal`, with `sa` and `oldsa` on the kernel stack. -/
def doSignal (sa oldsa : Word) (k : Machine) (who : ProcNr) (m : Word) : Machine × Int :=
  let signum := (k.memory (m + 2)).toInt
  let restorer := k.memory (m + 5)
  let act : SigAction := ⟨k.memory (m + 3), 0xffff#32, setBit 0#32 saResethand⟩
  let (k, result) := sysSigaction { k with memory := writeSigaction k.memory sa act } who signum sa
    (some oldsa) restorer
  if result = ok then (k, (k.memory oldsa).toInt) else (k, sigErr)

/-! ### `sigprocmask` and `sigsuspend` -/

/-- `for (i = 1; i < _NSIG; i++) if (sigismember(set, i)) change(blocked, i)`. -/
def changeMembers (change : Word → Nat → Word) (set blocked : Word) : Word :=
  (List.range' 1 (nsig - 1)).foldl (fun blocked i =>
    if sigismember set i then change blocked i else blocked) blocked

/-- The new mask, `none` if `how` is none of the three modes. -/
def newMask (how : Int) (set mask : Word) : Option Word :=
  if how = sigSetmask then some set
  else if how = sigBlock then some (changeMembers sigaddset set mask)
  else if how = sigUnblock then some (changeMembers sigdelset set mask)
  else none

/-- `do_sigprocmask`. -/
def doSigprocmask (isVaddrOk : AddressCheck) (k : Machine) (who : ProcNr) (m : Word) :
    Machine × Int :=
  let how := (k.memory (m + 2)).toInt
  let oldact := k.memory (m + 5)
  let p := k.procTable who
  if !isVaddrOk k who oldact then (k, eacces)
  else
    let k := k.poke (physicalAddr p oldact) p.sigMask
    match newMask how (spare (k.memory (m + 3))) p.sigMask with
    | none => (k, einval)
    | some mask => (k.updateProc who fun p => { p with sigMask := mask }, ok)

/-- `do_sigsuspend`. -/
def doSigsuspend (k : Machine) (who : ProcNr) (m : Word) : Machine × Int :=
  let mask := spare (k.memory (m + 2))
  let k := k.updateProc who fun p => { p with sigMask2 := p.sigMask, sigMask := mask }
  if isSigpending (k.procTable who) ≠ 0 then (k, eintr)
  else (k.updateProc who fun p => { p with state := raise p.state .pausing }, suspend)

/-! ### `sigreturn` -/

/-- The words of `struct syscall_frame_comm`, above which `build_signal_ctx` left the context. -/
def syscallFrameCommLen : Nat := 11

/-- `memcpy(who, sp, SIGNAL_CTX_LEN)`: the words of `signalCtx` are taken back. -/
def restoreCtx (memory : Memory) (sp : Word) (p : Proc) : Proc :=
  let word (i : Nat) : Word := memory (sp + BitVec.ofNat 32 i)
  { p with
    ctx := ⟨fun i => if i < 13 then word i else p.ctx.regs i, word 13, word 14, word 15, word 16,
      word 17, word 18⟩
    state := word 19
    message := word 20 }

/-- The context and the mask from before the handler. -/
def takeBack (k : Machine) (who : ProcNr) : Machine :=
  k.updateProc who fun p =>
    { restoreCtx k.memory (physicalAddr p p.ctx.sp + BitVec.ofNat 32 syscallFrameCommLen) p with
      sigMask := p.sigMask2 }

/-- A process that comes back from its `SIGABRT` handler gets the signal again, to die of it; another
one goes on if nothing keeps it. -/
def abortOrGoOn (k : Machine) (who : ProcNr) (signum : Int) : Option Machine :=
  if signum = sigabrt then
    let reset : SigAction := { (k.procTable who).sigTable sigabrt with handler := sigDfl }
    let k := k.updateProc who fun p => { p with sigTable := Function.update p.sigTable sigabrt reset }
    (sendSig k who sigabrt).map Prod.fst
  else some (if (k.procTable who).state = runnable then enqueueSchedule k who else k)

/-- `do_sigreturn` with its result. -/
def sigreturnResult (k : Machine) (who : ProcNr) (m : Word) : Option (Machine × Int) := do
  let k ← abortOrGoOn (takeBack k who) who (k.memory (m + 2)).toInt
  if has (k.procTable who).state .receiving then
    some (k.updateProc who fun p => { p with state := raise runnable .receiving }, eintr)
  else some (k, dontreply)

/-! ### `kill` -/

/-- The `pid` argument of `kill` names this process. A `pid` of 0 names the other process groups. -/
def killMatches (pid : Int) (who target : Proc) : Bool :=
  !(decide (pid < -1) && decide (-pid ≠ target.procgrp)) &&
  !(decide (pid = 0) && decide (target.procgrp = who.procgrp)) &&
  !(decide (0 < pid) && decide (pid ≠ target.pid)) &&
  !(decide (pid = -1) && decide (target.pid = 1))

/-- Send a signal to one process; one that is blocked acts on it at once. -/
def killOne (exitProc : ExitProc) (k : Machine) (who target : ProcNr) (signum : Nat) :
    Option Machine := do
  let (k, _) ← sendSig k target signum
  if target ≠ who ∧ (k.procTable target).state ≠ runnable then handlePendingsig exitProc k target
  else some k

/-- The loop of `sys_kill`, with the number of its targets. -/
def killAll (exitProc : ExitProc) (who : ProcNr) (pid : Int) (signum : Nat) :
    List ProcNr → Machine × Nat → Option (Machine × Nat)
  | [], done => some done
  | target :: rest, (k, count) =>
    if (k.procTable target).inUse && killMatches pid (k.procTable who) (k.procTable target) then
      if signum = 0 then some (k, count + 1)
      else do
        let k ← killOne exitProc k who target signum
        killAll exitProc who pid signum rest (k, count + 1)
    else killAll exitProc who pid signum rest (k, count)

/-- `sys_kill`. -/
def sysKill (exitProc : ExitProc) (k : Machine) (who : ProcNr) (pid signum : Int) :
    Option (Machine × Int) :=
  if signum < 0 ∨ (nsig : Int) ≤ signum then some (k, einval)
  else if pid = 1 ∧ (signum.toNat = sigstop ∨ signum.toNat = sigkill) then some (k, einval)
  else (killAll exitProc who pid signum.toNat userSlots (k, 0)).map fun (k, count) =>
    (k, if count = 0 then esrch else ok)

/-- `do_kill`. -/
def doKill (exitProc : ExitProc) (k : Machine) (who : ProcNr) (m : Word) : Option (Machine × Int) :=
  sysKill exitProc k who (k.memory (m + 2)).toInt (k.memory (m + 3)).toInt

end Winix.Kernel
