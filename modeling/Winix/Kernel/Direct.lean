/-
**The arguments of direct system calls.**

Three places have to agree: the macros of `include/sys/syscall.h`, which push the number of a call and
its arguments (`UserCall.pushes`), the switch of `set_message_for_syscall`, which copies them into a
message (`syscallArgs`), and the handlers, which take them out of it (`UserCall.reads`). The switch has
no case for `EXIT`.

* `reads_copied`: what a handler reads is copied, by every call but `exit`;
* **`arguments_arrive_iff`**: so the arguments of every call but `exit` arrive;
* `exit_status_lost`: the status of `exit` is what the buffer held.
-/

import Winix.Kernel.Boot
import Winix.Kernel.Process

namespace Winix.Kernel

open Lib

/-! ### The three places -/

/-- The calls that `sys/syscall.h` defines as macros, with what they are given. `sigaction` and `signal`
also push the address of `__sigreturn`, `sigsuspend` and `sigprocmask` push the set that they are given
a pointer to. -/
inductive UserCall
  | sync
  | getdents (fd dirp count : Word)
  | creat (pathname mode : Word)
  | close (fd : Word)
  | read (fd buf count : Word)
  | write (fd buf count : Word)
  | pipe (pipefd : Word)
  | mknod (pathname mode dev : Word)
  | chdir (path : Word)
  | chown (pathname owner group : Word)
  | chmod (pathname mode : Word)
  | stat (pathname statbuf : Word)
  | fstat (fd statbuf : Word)
  | dup (oldfd : Word)
  | dup2 (oldfd newfd : Word)
  | link (oldpath newpath : Word)
  | unlink (pathname : Word)
  | access (pathname mode : Word)
  | mkdir (pathname mode : Word)
  | lseek (fd offset whence : Word)
  | umask (mask : Word)
  | alarm (seconds : Word)
  | csleep (ticks : Word)
  | execve (path argv envp : Word)
  | fork
  | getpgid (pid : Word)
  | getpid
  | kill (pid sig : Word)
  | dprintf (fd format arg : Word)
  | strerror (buffer len usrerr : Word)
  | setpgid (pid pgid : Word)
  | setsid
  | sigaction (signum act oact sigreturn : Word)
  | sigsuspend (mask : Word)
  | sysconf (name : Word)
  | sigprocmask (how set oldset : Word)
  | sigpending (set : Word)
  | times (buf : Word)
  | waitpid (pid wstatus option : Word)
  | winfo (what : Word)
  | vfork
  | exit (status : Word)
  | getppid
  | signal (signum handler sigreturn : Word)
  | sbrk (increment : Word)
  | statfs (path buf : Word)
  | getcwd (buf size : Word)

/-- The words that the macro of a call pushes: the number of the call first. -/
def UserCall.pushes : UserCall → List Word
  | sync => [41]
  | getdents fd dirp count => [38, fd, dirp, count]
  | creat pathname mode => [26, mode, pathname]
  | close fd => [25, fd]
  | read fd buf count => [23, fd, buf, count]
  | write fd buf count => [24, fd, buf, count]
  | pipe pipefd => [27, pipefd]
  | mknod pathname mode dev => [28, mode, pathname, dev]
  | chdir path => [29, path]
  | chown pathname owner group => [30, owner, pathname, group]
  | chmod pathname mode => [31, mode, pathname]
  | stat pathname statbuf => [32, pathname, statbuf]
  | fstat fd statbuf => [33, fd, statbuf]
  | dup oldfd => [34, oldfd]
  | dup2 oldfd newfd => [35, oldfd, newfd]
  | link oldpath newpath => [36, oldpath, newpath]
  | unlink pathname => [37, pathname]
  | access pathname mode => [39, mode, pathname]
  | mkdir pathname mode => [40, mode, pathname]
  | lseek fd offset whence => [42, fd, offset, whence]
  | umask mask => [43, mask]
  | alarm seconds => [7, seconds]
  | csleep ticks => [47, ticks]
  | execve path argv envp => [5, path, argv, envp]
  | fork => [3]
  | getpgid pid => [21, pid]
  | getpid => [12]
  | kill pid sig => [11, pid, sig]
  | dprintf fd format arg => [15, fd, format, arg]
  | strerror buffer len usrerr => [14, len, buffer, usrerr]
  | setpgid pid pgid => [20, pid, pgid]
  | setsid => [46]
  | sigaction signum act oact sigreturn => [8, act, oact, sigreturn, signum]
  | sigsuspend mask => [17, mask]
  | sysconf name => [16, name]
  | sigprocmask how set oldset => [19, how, oldset, set]
  | sigpending set => [18, set]
  | times buf => [1, buf]
  | waitpid pid wstatus option => [10, pid, wstatus, option]
  | winfo what => [13, what]
  | vfork => [4]
  | exit status => [2, status]
  | getppid => [48]
  | signal signum handler sigreturn => [49, signum, sigreturn, handler]
  | sbrk increment => [50, increment]
  | statfs path buf => [51, path, buf]
  | getcwd buf size => [52, size, buf]

/-- The fields of a message that take arguments, as words of the message. -/
inductive Field
  | m1i1 | m1i2 | m1i3 | m1p1 | m1p2 | m1p3
  deriving DecidableEq

/-- The word of the message with the field. -/
def Field.word : Field → Nat
  | m1i1 => 2
  | m1i2 => 3
  | m1i3 => 4
  | m1p1 => 5
  | m1p2 => 6
  | m1p3 => 7

/-- The fields that the handler of a call reads, each with the argument it takes it for. `do_waitpid`
does not read the address for the status. -/
def UserCall.reads : UserCall → List (Field × Word)
  | sync | fork | getpid | setsid | vfork | getppid => []
  | getdents fd dirp count => [(.m1i1, fd), (.m1p1, dirp), (.m1i2, count)]
  | creat pathname mode => [(.m1p1, pathname), (.m1i1, mode)]
  | close fd => [(.m1i1, fd)]
  | read fd buf count | write fd buf count => [(.m1i1, fd), (.m1p1, buf), (.m1i2, count)]
  | pipe pipefd => [(.m1p1, pipefd)]
  | mknod pathname mode dev => [(.m1p1, pathname), (.m1i1, mode), (.m1i2, dev)]
  | chdir path => [(.m1p1, path)]
  | chown pathname owner group => [(.m1p1, pathname), (.m1i1, owner), (.m1i2, group)]
  | chmod pathname mode => [(.m1p1, pathname), (.m1i1, mode)]
  | stat pathname statbuf => [(.m1p1, pathname), (.m1p2, statbuf)]
  | fstat fd statbuf => [(.m1i1, fd), (.m1p1, statbuf)]
  | dup oldfd => [(.m1i1, oldfd)]
  | dup2 oldfd newfd => [(.m1i1, oldfd), (.m1i2, newfd)]
  | link oldpath newpath => [(.m1p1, oldpath), (.m1p2, newpath)]
  | unlink pathname => [(.m1p1, pathname)]
  | access pathname mode | mkdir pathname mode => [(.m1p1, pathname), (.m1i1, mode)]
  | lseek fd offset whence => [(.m1i1, fd), (.m1i2, offset), (.m1i3, whence)]
  | umask mask => [(.m1i1, mask)]
  | alarm seconds => [(.m1i1, seconds)]
  | csleep ticks => [(.m1i1, ticks)]
  | execve path argv envp => [(.m1p1, path), (.m1p2, argv), (.m1p3, envp)]
  | getpgid pid => [(.m1i1, pid)]
  | kill pid sig => [(.m1i1, pid), (.m1i2, sig)]
  | dprintf fd format arg => [(.m1i1, fd), (.m1p1, format), (.m1p2, arg)]
  | strerror buffer len usrerr => [(.m1p1, buffer), (.m1i1, len), (.m1i2, usrerr)]
  | setpgid pid pgid => [(.m1i1, pid), (.m1i2, pgid)]
  | sigaction signum act oact sigreturn =>
    [(.m1i1, signum), (.m1p1, act), (.m1p2, oact), (.m1p3, sigreturn)]
  | sigsuspend mask => [(.m1i1, mask)]
  | sysconf name => [(.m1i1, name)]
  | sigprocmask how set oldset => [(.m1i1, how), (.m1p1, oldset), (.m1i2, set)]
  | sigpending set => [(.m1p1, set)]
  | times buf => [(.m1p1, buf)]
  | waitpid pid _ option => [(.m1i1, pid), (.m1i2, option)]
  | winfo what => [(.m1i1, what)]
  | exit status => [(.m1i1, status)]
  | signal signum handler sigreturn => [(.m1i1, signum), (.m1p1, sigreturn), (.m1i2, handler)]
  | sbrk increment => [(.m1i1, increment)]
  | statfs path buf => [(.m1p1, path), (.m1p2, buf)]
  | getcwd buf size => [(.m1p1, buf), (.m1i1, size)]

/-- The call does not return. -/
def UserCall.isExit : UserCall → Bool
  | exit _ => true
  | _ => false

/-- The number of a call. -/
def UserCall.number (call : UserCall) : Word := call.pushes.headD 0

/-- **The switch has the right case** for every call but `exit`: what a handler reads has been copied
from the place where the macro pushed it. -/
theorem reads_copied {call : UserCall} (other : call.isExit = false) :
    ∀ r ∈ call.reads, ∃ arg, (r.1.word, arg) ∈ syscallArgs call.number.toNat ∧
      call.pushes[arg + 1]? = some r.2 := by
  cases call with
  | exit status => cases other
  | _ => simp [UserCall.reads, UserCall.number, UserCall.pushes, syscallArgs, Field.word]

/-- The number of a call is one of a direct system call, and stays on the stack: `OPEN`, `FCNTL` and
`IOCTL` are no macros. -/
theorem number_direct (call : UserCall) : 0 < call.number.toInt ∧ call.number.toInt < nsyscall ∧
    popsNumber call.number.toNat = false ∧ passesRest call.number.toNat = false := by
  cases call <;> simp [UserCall.number, UserCall.pushes, popsNumber, passesRest, nsyscall]

/-- No word of the message is set twice, and none lies outside of it. -/
theorem syscallArgs_words (call : UserCall) :
    ((syscallArgs call.number.toNat).map Prod.fst).Nodup ∧
      ∀ copy ∈ syscallArgs call.number.toNat, copy.1 < messageLen := by
  cases call <;> simp [UserCall.number, UserCall.pushes, syscallArgs, messageLen]

/-! ### The message -/

section Message

variable {k : Machine} {cur : ProcNr} {call : UserCall} {sp m : Word}
variable {copies : List (Nat × Nat)}

theorem word_ne {word other : Nat} (small : word < messageLen) (small' : other < messageLen)
    (ne : word ≠ other) : m + BitVec.ofNat 32 word ≠ m + BitVec.ofNat 32 other := fun same => by
  have first := offset_toNat m small
  rw [same, offset_toNat m small'] at first
  exact ne first.symm

theorem copyArgs_unset (inside : ∀ copy ∈ copies, copy.1 < messageLen) {word : Nat}
    (small : word < messageLen) (unset : word ∉ copies.map Prod.fst) :
    (copyArgs k sp m copies).memory (m + BitVec.ofNat 32 word) =
      k.memory (m + BitVec.ofNat 32 word) := by
  induction copies generalizing k with
  | nil => rfl
  | cons copy copies ih =>
    obtain ⟨other, arg⟩ := copy
    rw [List.map_cons, List.mem_cons, not_or] at unset
    rw [copyArgs, ih (fun copy member => inside copy (List.mem_cons_of_mem _ member)) unset.2]
    exact store_of_ne (word_ne small (inside _ List.mem_cons_self) unset.1)

/-- **Every copy arrives**, if the arguments lie outside of the message. -/
theorem copyArgs_copied (inside : ∀ copy ∈ copies, copy.1 < messageLen)
    (once : (copies.map Prod.fst).Nodup) {word arg : Nat} (copied : (word, arg) ∈ copies)
    (clear : ¬ InBuffer m (sp + BitVec.ofNat 32 arg)) :
    (copyArgs k sp m copies).memory (m + BitVec.ofNat 32 word) =
      k.memory (sp + BitVec.ofNat 32 arg) := by
  induction copies generalizing k with
  | nil => cases copied
  | cons copy copies ih =>
    obtain ⟨fresh, rest⟩ := List.nodup_cons.mp once
    have later := fun copy member => inside copy (List.mem_cons_of_mem _ member)
    rcases List.mem_cons.mp copied with rfl | among
    · rw [copyArgs, copyArgs_unset later (inside _ List.mem_cons_self) fresh]
      exact Function.update_self ..
    · obtain ⟨other, from'⟩ := copy
      rw [copyArgs, ih later rest among]
      refine store_of_ne fun same => clear ?_
      rw [same]
      exact inBuffer_add m (inside _ List.mem_cons_self)

/-- The call is on the stack of the process, which does not reach down to the words that the kernel
uses for the message. -/
structure UserCall.Pushed (call : UserCall) (k : Machine) (cur : ProcNr) : Prop where
  words : ∀ (i : Nat) (word : Word), call.pushes[i]? = some word →
    k.memory (physicalAddr (k.procTable cur) (k.procTable cur).ctx.sp + BitVec.ofNat 32 i) = word
  clear : ∀ i < call.pushes.length, ¬ InBuffer (userTmpMessage (k.procTable cur))
    (physicalAddr (k.procTable cur) (k.procTable cur).ctx.sp + BitVec.ofNat 32 i)

/-- The message that `syscall_handler` makes of the call on the stack. -/
def directMessage (k : Machine) (cur : ProcNr) : Message :=
  readMessage (fetch k cur).memory (userTmpMessage (k.procTable cur))

/-- Every field that the handler of the call reads has the argument it takes it for. -/
def UserCall.Arrives (call : UserCall) (k : Machine) (cur : ProcNr) : Prop :=
  ∀ r ∈ call.reads, (directMessage k cur).word r.1.word = r.2

theorem UserCall.Pushed.operation (pushed : call.Pushed k cur) :
    k.memory (physicalAddr (k.procTable cur) (k.procTable cur).ctx.sp) = call.number := by
  have first := pushed.words 0 call.number (by cases call <;> rfl)
  rwa [show BitVec.ofNat 32 0 = 0#32 from rfl, BitVec.add_zero] at first

/-- The machine with the number of the call in its message. -/
def typed (k : Machine) (cur : ProcNr) (number : Word) : Machine :=
  (k.updateProc cur fun p => { p with flags := setBit p.flags InfoFlag.directSyscall.bit }).poke
    (userTmpMessage (k.procTable cur) + 1) number

theorem fetch_direct (pushed : call.Pushed k cur) :
    fetch k cur = (copyArgs (typed k cur call.number)
      (physicalAddr (k.procTable cur) (k.procTable cur).ctx.sp + 1) (userTmpMessage (k.procTable cur))
      (syscallArgs call.number.toNat)).poke (userTmpMessage (k.procTable cur))
        (BitVec.ofInt 32 cur) := by
  obtain ⟨positive, small, stays, whole⟩ := number_direct call
  simp only [fetch, decode, pushed.operation, if_pos (And.intro positive small), setMessageForSyscall,
    popNumber, stays, whole, Bool.false_eq_true, if_false]
  rfl

/-- The words of the message behind the first are those that the copies leave. -/
theorem directMessage_word (pushed : call.Pushed k cur) {word : Nat} (positive : word ≠ 0)
    (small : word < messageLen) :
    (directMessage k cur).word word = (copyArgs (typed k cur call.number)
      (physicalAddr (k.procTable cur) (k.procTable cur).ctx.sp + 1) (userTmpMessage (k.procTable cur))
      (syscallArgs call.number.toNat)).memory
        (userTmpMessage (k.procTable cur) + BitVec.ofNat 32 word) := by
  have apart := word_ne (m := userTmpMessage (k.procTable cur)) small (by decide) positive
  rw [show BitVec.ofNat 32 0 = 0#32 from rfl, BitVec.add_zero] at apart
  rw [directMessage, word_readMessage _ _ small, fetch_direct pushed]
  exact store_of_ne apart

theorem field_small (field : Field) : field.word ≠ 0 ∧ field.word < messageLen := by
  cases field <;> decide

/-- **What is copied arrives.** -/
theorem arrives_of_copied (pushed : call.Pushed k cur) {field : Field} {value : Word} {arg : Nat}
    (copied : (field.word, arg) ∈ syscallArgs call.number.toNat)
    (given : call.pushes[arg + 1]? = some value) : (directMessage k cur).word field.word = value := by
  obtain ⟨once, inside⟩ := syscallArgs_words call
  obtain ⟨positive, small⟩ := field_small field
  have place : physicalAddr (k.procTable cur) (k.procTable cur).ctx.sp + 1 + BitVec.ofNat 32 arg =
      physicalAddr (k.procTable cur) (k.procTable cur).ctx.sp + BitVec.ofNat 32 (arg + 1) := by
    rw [BitVec.add_assoc, Nat.add_comm arg 1, BitVec.ofNat_add]
    rfl
  have clear := pushed.clear (arg + 1) (List.getElem?_eq_some_iff.mp given).1
  rw [directMessage_word pushed positive small, copyArgs_copied inside once copied (place ▸ clear),
    place,
    ← pushed.words _ _ given]
  refine store_of_ne fun same => clear ?_
  rw [same]
  exact inBuffer_add _ (show 1 < messageLen by decide)

end Message

/-! ### The theorem -/

/-- A machine on which the second process, a child of the first, calls `exit`, with its stack at 256,
its message at 16 and this word in the rest of the memory. -/
def exitMachine (status stale : Word) : Machine :=
  (bootMachine [1, 2] (fun _ => 0) (fun _ => 256)
    (store (store (fun _ => stale) 256 2) 257 status)).updateProc 2 fun p => { p with parent := 1 }

theorem exitMachine_pushed (status stale : Word) :
    (UserCall.exit status).Pushed (exitMachine status stale) 2 where
  words i word given := by
    match i, given with
    | 0, given => exact Option.some.inj given
    | 1, given => exact Option.some.inj given
  clear i small := by
    have all : ∀ i : Fin 2, ¬ InBuffer 16 (256 + BitVec.ofNat 32 i) := by decide
    exact all ⟨i, small⟩

theorem exitMachine_status (status stale : Word) :
    (directMessage (exitMachine status stale) 2).m1i1 = stale :=
  directMessage_word (exitMachine_pushed status stale) (show 2 ≠ 0 by decide) (by decide)

/-- **The arguments of a call arrive**, whatever the message buffer held before, if and only if the
call is not `exit`. -/
theorem arguments_arrive_iff (call : UserCall) :
    (∀ k cur, call.Pushed k cur → call.Arrives k cur) ↔ call.isExit = false := by
  constructor
  · intro arrive
    cases call with
    | exit status =>
      have arrived := arrive _ _ (exitMachine_pushed status (status + 1)) (.m1i1, status)
        List.mem_cons_self
      have other := (exitMachine_status status (status + 1)).symm.trans arrived
      exact absurd other (by bv_omega)
    | _ => rfl
  · intro other k cur pushed r member
    obtain ⟨arg, copied, given⟩ := reads_copied other r member
    exact arrives_of_copied pushed copied given

/-- **The status of `exit` is lost**: a process calls `exit(7)`, and `do_exit` records the word that its
message buffer held. -/
theorem exit_status_lost : (UserCall.exit 7).Pushed (exitMachine 7 0) 2 ∧
    (directMessage (exitMachine 7 0) 2).m1i1 = 0 ∧
    (doExit (fetch (exitMachine 7 0) 2) 2 (userTmpMessage ((exitMachine 7 0).procTable 2))).map
      (fun r => (r.1.procTable 2).exitStatus) = some 0 :=
  ⟨exitMachine_pushed 7 0, exitMachine_status 7 0, by decide +kernel⟩

end Winix.Kernel
