/-
**`execve` and its failures.**

`kernel/system/do_execve.c`. `exec_welf` copies the arguments, drops the image of the caller and
only then opens the file; it tests nothing that `copy_stirng_array` returns. When the file is not
there it returns the error, and when anything later fails it goes on as if the program had been loaded.

* `KMem`: the memory of the copies, with the requests whose memory has been given back;
* `execBody`, `execWelf`, `doExecve`: the call, over the files, the processes and the page allocator;
* `ExecUndone`: what a failure should leave;
* **`execve_undone_iff`**: only a call that fails at its very first test leaves that.
-/

import Winix.Fs.Readdir
import Winix.Kernel.Placing
import Winix.Kernel.Vforks
import Winix.Kernel.Welf

namespace Winix.Kernel.Exec

open Lib Fs Function Option Prog

/-! ### The state -/

/-- The memory of the kernel: whether a request is granted, how many there have been, and the
requests whose memory has been given back. -/
structure KMem where
  granted : Nat → Bool
  next : Nat
  freed : List Nat

/-- The kernel with its files, and the caller: `image` without its table, which is with the others, and
`name`. -/
structure ExecState where
  world : World
  mm : Mm
  image : Image
  name : List Word
  kmem : KMem

/-- A program over the state of `execve`. -/
abbrev ExecM := Prog ExecState

/-- A call on the files and the memory. -/
def onWorld {α : Type} (x : AccessM α) : ExecM α := fun s =>
  (x.erase s.world).map fun r => (r.1, { s with world := r.2 })

/-- Assign to a process. -/
def updateCaller (who : ProcNr) (change : Proc → Proc) : ExecM PUnit :=
  modify fun s => { s with world := { s.world with kernel := s.world.kernel.updateProc who change } }

/-- Write to the words of a protection table. -/
def setWords (t : Tables) (who : ProcNr) (words : Nat → Word) : Tables :=
  { t with ptable := update t.ptable who fun i =>
      if 0 ≤ i ∧ i < ptableLen then words i.toNat else t.ptable who i }

theorem setWords_words (t : Tables) (words : Nat → Word) {who : ProcNr} {i : Nat}
    (small : i < ptableLen) :
    (setWords t who words).words who i = words i := by
  rw [Tables.words, setWords]
  dsimp only
  rw [update_self, if_pos ⟨Int.natCast_nonneg i, Int.ofNat_lt.mpr small⟩, Int.toNat_natCast]

/-- What `alloc_mem_welf` works on. -/
def ExecState.loader (s : ExecState) (who : ProcNr) : Loader where
  memory := s.world.kernel.memory
  mm := s.mm
  image := { s.image with ptable := s.world.tables.words who }
  sp := (s.world.kernel.procTable who).ctx.sp

/-- … and what it leaves. -/
def ExecState.store (s : ExecState) (who : ProcNr) (l : Loader) : ExecState :=
  let kernel := { s.world.kernel with memory := l.memory }
  { s with
    world := { s.world with
      kernel := kernel.updateProc who fun p =>
        { p with
          ctx := { p.ctx with rbase := l.image.rbase, sp := l.sp }, stackTop := l.image.stackTop }
      tables := setWords s.world.tables who l.image.ptable }
    mm := l.mm
    image := l.image }

/-- A program over the loader. -/
def onLoader {α : Type} (who : ProcNr) (x : LoadM α) : ExecM α := fun s =>
  (x.erase (s.loader who)).map fun r => (r.1, s.store who r.2)

/-- `build_user_stack` works on the kernel and the heap of the caller. -/
def onTarget {α : Type} (x : Placing.PlaceM α) : ExecM α := fun s =>
  (x.erase ⟨s.world.kernel, s.image.heapBreak, s.image.heapBottom⟩).map fun r =>
    (r.1, { s with
      world := { s.world with kernel := r.2.kernel }
      image := { s.image with heapBreak := r.2.heapBreak } })

/-! ### The copies of the arguments -/

/-- A `kmalloc` of the call. -/
def kmallocTmp : ExecM (Option Nat) := do
  let s ← get
  modify fun s => { s with kmem := { s.kmem with next := s.kmem.next + 1 } }
  return if s.kmem.granted s.kmem.next then some s.kmem.next else none

/-- `kfree` of such a block. -/
def kfreeTmp (id : Nat) : ExecM PUnit :=
  modify fun s => { s with kmem := { s.kmem with freed := s.kmem.freed ++ [id] } }

/-- … and of several. -/
def kfreeAll : List Nat → ExecM PUnit
  | [] => return ⟨⟩
  | id :: rest => do
    kfreeTmp id
    kfreeAll rest

/-- `struct string_array`: its strings, each with the request for its memory. If it is not whole,
its memory has been given back and yet its size is that of all strings. -/
structure StringArray where
  size : Nat
  array : Option Nat
  strings : List (Nat × List Word)
  whole : Bool

/-- The largest number of strings, and of characters of a string. -/
def limit : Nat := 32

/-- The pointers up to the null pointer. -/
def pointersAt (memory : Memory) : Nat → Word → List Word
  | 0, _ => []
  | count + 1, a => if memory a = 0#32 then [] else memory a :: pointersAt memory count (a + 1)

/-- The loop of `copy_stirng_array`: the strings up to the first one that there is no memory for,
and whether there was one. -/
def copyStrings (memory : Memory) (rbase : Word) : List Word → ExecM (List (Nat × List Word) × Bool)
  | [] => return ([], true)
  | p :: rest => do
    match ← kmallocTmp with
    | none => return ([], false)
    | some id => do
      let copied ← copyStrings memory rbase rest
      return ((id, stringAt memory limit (p + rbase)) :: copied.1, copied.2)

/-- `copy_stirng_array`; `rbase` is 0 if the addresses are physical. -/
def copyStirngArray (start rbase : Word) : ExecM StringArray := do
  if start = 0#32 then return ⟨0, none, [], true⟩
  else do
    let s ← get
    let memory := s.world.kernel.memory
    let pointers := pointersAt memory limit start
    match ← kmallocTmp with
    | none => return ⟨0, none, [], true⟩
    | some array => do
      let copied ← copyStrings memory rbase pointers
      if copied.2 then return ⟨pointers.length + 1, some array, copied.1, true⟩
      else do
        kfreeAll (copied.1.map Prod.fst)
        kfreeTmp array
        return ⟨pointers.length + 1, some array, copied.1, false⟩

/-- `kfree_string_array`. -/
def kfreeStringArray (arr : StringArray) : ExecM PUnit := do
  kfreeAll (arr.strings.map Prod.fst)
  match arr.array with
  | none => return ⟨⟩
  | some array => kfreeTmp array

/-- The pointers of `build_user_stack`, which are given back as soon as they have been copied:
whether there was memory for them. -/
def pointerBlock (arr : StringArray) : ExecM Bool := do
  if arr.size = 0 then return false
  else match ← kmallocTmp with
    | none => return false
    | some id => do
      kfreeTmp id
      return true

/-- What `build_user_stack` reads of an array. Memory that has been given back can hold anything. -/
def StringArray.read (arr : StringArray) : ExecM Placing.StringArray :=
  if arr.size = 0 then return none
  else if arr.whole then return some (arr.strings.map Prod.snd)
  else Prog.fault

/-- `build_user_stack`. -/
def buildUserStack (who : ProcNr) (argv env : StringArray) : ExecM PUnit := do
  let grantedArgv ← pointerBlock argv
  let grantedEnv ← pointerBlock env
  let argv ← argv.read
  let env ← env.read
  onTarget (Placing.buildUserStack who argv env grantedArgv grantedEnv)

/-! ### The call -/

/-- `EIO`. -/
def eio : Int := -5

/-- The header, as it lies in memory. -/
def elfAt (memory : Memory) (a : Word) : WinixElf :=
  ⟨memory a, memory (a + 1), memory (a + 2), memory (a + 3), memory (a + 4), memory (a + 5),
    memory (a + 6)⟩

/-- `bitmap_clear(who->ctx.ptable, PTABLE_LEN)`. -/
def clearTable (who : ProcNr) : ExecM PUnit :=
  modify fun s => { s with world := { s.world with
    tables := setWords s.world.tables who fun _ => 0#32 } }

/-- `release_proc_mem`. -/
def releaseProcMem (who : ProcNr) : ExecM PUnit := do
  modify fun s => { s with mm := { s.mm with
    memMap := bitmapClearNbits s.mm.memMap memMapLen (paddrToPaged s.image.memStart)
      ((s.image.heapBottom + 1 - s.image.memStart).toInt.tdiv 1024).toNat } }
  clearTable who

/-- `bitmap_clear_bit(who->ctx.ptable, PTABLE_LEN, bit)`. -/
def clearBit (t : Tables) (who : ProcNr) (bit : Int) : Tables :=
  if (ptableLen * 32 : Int) ≤ bit then t
  else { t with ptable := update t.ptable who (update (t.ptable who) (bit.tdiv 32)
      (t.ptable who (bit.tdiv 32) &&& ~~~t.mask (bit.tmod 32))) }

/-- `proc_memctl(who, (void *)0, PROC_NO_ACCESS)`. -/
def denyNull (who : ProcNr) : ExecM PUnit :=
  modify fun s => { s with world := { s.world with
    tables := clearBit s.world.tables who ((s.world.paddr who 0#32).toInt.tdiv pageLen) } }

/-- `PROC_NAME_LEN`. -/
def procNameLen : Nat := 16

/-- `strncpy(who->name, path, len)`. -/
def setName (path : Word) (len : Nat) : ExecM PUnit :=
  modify fun s => { s with name := stringAt s.world.kernel.memory len path }

/-- `set_proc`. -/
def setProc (who : ProcNr) (entry path : Word) : ExecM PUnit := do
  updateCaller who fun p => { p with ctx := { p.ctx with pc := entry } }
  setName path (procNameLen - 1)

/-- The program is read and started. -/
def startProgram (who : ProcNr) (fd : Int) (path : Word) (elf : WinixElf) (argv env : StringArray) :
    ExecM Int := do
  let ret ← onLoader who (allocMemWelf who elf userStackSize userHeapSize)
  if ret ≠ ok then return ret
  else do
    let s ← get
    let read ← onWorld (sysTransfer fopsRead who fd (s.world.paddr who elf.binaryOffset) elf.binarySize)
    if BitVec.ofInt 32 read ≠ elf.binarySize then do
      releaseProcMem who
      return eio
    else do
      buildUserStack who argv env
      denyNull who
      setProc who elf.binaryPc path
      return ok

/-- `exec_welf` with the file open; `header` is the address of `elf` on the kernel stack. -/
def execBody (who : ProcNr) (fd : Int) (path header : Word) (argv env : StringArray) : ExecM Int := do
  let _ ← onWorld (sysTransfer fopsRead who fd header elfLen)
  let s ← get
  startProgram who fd path (elfAt s.world.kernel.memory header) argv env

/-- The end of `exec_welf`. -/
def finish (who parent : ProcNr) (fd : Int) (m : Word) (argv env : StringArray) : ExecM PUnit := do
  let _ ← onWorld (onFiles (sysClose who fd))
  kfreeStringArray argv
  kfreeStringArray env
  fun s => (finishExec s.world.kernel who parent m
    ⟨(s.world.kernel.procTable who).ctx, (s.world.kernel.procTable who).stackTop,
      s.world.kernel.memory⟩).map
      fun r => (⟨⟩, { s with world := { s.world with kernel := r.1 } })

/-- The image of the caller is dropped: `parent->flags | STATE_VFORKING` is true whatever the flags
are. -/
def dropImage (who : ProcNr) (path : Word) : ExecM PUnit := do
  updateCaller who fun p => { p with sigPending := 0#32 }
  setName path procNameLen
  clearTable who

/-- How a call ends: what went wrong, and what the call returns. -/
structure Outcome where
  error : Int
  result : Int
  deriving DecidableEq, Repr

/-- `exec_welf` of `do_execve`. -/
def execWelf (who : ProcNr) (path argv envp header m : Word) : ExecM Outcome := do
  let s ← get
  let parent ← Prog.ofOption (getProc s.world.kernel (s.world.kernel.procTable who).parent)
  let rbase := (s.world.kernel.procTable who).ctx.rbase
  let argvCopy ← copyStirngArray argv rbase
  let envpCopy ← copyStirngArray envp rbase
  dropImage who path
  let fd ← onWorld (onFiles (sysOpen who (pathAt s.world path) oDirect 0#32))
  if fd < 0 then return ⟨fd, fd⟩
  else do
    let ret ← execBody who fd path header argvCopy envpCopy
    finish who parent fd m argvCopy envpCopy
    return ⟨ret, dontreply⟩

/-- The three pointers can be used by the caller. -/
def accessible (w : World) (who : ProcNr) (m : Message) : Bool :=
  w.checks who m.m1p1 && w.checks who m.m1p2 && w.checks who m.m1p3

/-- `do_execve`. -/
def doExecve (who : ProcNr) (msg : Message) (header m : Word) : ExecM Outcome := do
  let s ← get
  if accessible s.world who msg then
    execWelf who (s.world.paddr who msg.m1p1) (s.world.paddr who msg.m1p2)
      (s.world.paddr who msg.m1p3) header m
  else return ⟨eacces, eacces⟩

/-! ### What a failure should leave -/

/-- The memory that has been asked for since has been given back, each piece once, and no other. -/
def FreedOnce (k k' : KMem) : Prop :=
  ∃ more, k'.freed = k.freed ++ more ∧
    ∀ id, more.count id = if k.next ≤ id ∧ id < k'.next ∧ k.granted id = true then 1 else 0

/-- **Nothing has happened to the caller**, and it gets the error. -/
structure ExecUndone (who : ProcNr) (s s' : ExecState) (o : Outcome) : Prop where
  table : s'.world.tables.ptable who = s.world.tables.ptable who
  image : s'.image = s.image
  memory : ∀ a, Owns s.world.tables who a → s'.world.kernel.memory a = s.world.kernel.memory a
  registers : (s'.world.kernel.procTable who).ctx = (s.world.kernel.procTable who).ctx
  name : s'.name = s.name
  signals : (s'.world.kernel.procTable who).sigPending = (s.world.kernel.procTable who).sigPending
  fds : (s'.world.files.procs who).fpFilp = (s.world.files.procs who).fpFilp
  reply : o.result = o.error
  freed : FreedOnce s.kmem s'.kmem

section Failures

variable {who : ProcNr} {s s' : ExecState} {o : Outcome}

/-- What can go wrong with an open file. -/
def BodyError (ret : Int) : Prop := ret = ok ∨ ret = einval ∨ ret = enomem ∨ ret = eio

theorem allocMemWelf_error {elf : WinixElf} {stackSize heapSize : Word} {l l' : Loader} {ret : Int}
    (ran : (allocMemWelf who elf stackSize heapSize).erase l = some (ret, l')) : BodyError ret := by
  by_cases acc : elf.accepted stackSize = true
  · rw [Logged.erase, allocMemWelf_eq acc] at ran
    split at ran
    · cases ran
      exact .inr (.inr (.inl rfl))
    · obtain ⟨memory, laid⟩ := layOut_run who elf _ stackSize heapSize _ _
      rw [laid] at ran
      cases ran
      exact .inl rfl
  · rw [allocMemWelf, if_neg acc] at ran
    cases ran
    exact .inr (.inl rfl)

theorem startProgram_error {fd : Int} {path : Word} {elf : WinixElf} {argv env : StringArray}
    {ret : Int}
    (ran : startProgram who fd path elf argv env s = some (ret, s')) : BodyError ret := by
  obtain ⟨ret₁, s₁, loaded, ran⟩ := bind_eq_some.mp ran
  by_cases failed : ret₁ ≠ ok
  · rw [if_pos failed] at ran
    cases ran
    obtain ⟨⟨ret, l⟩, came, same⟩ := map_eq_some_iff.mp loaded
    cases same
    exact allocMemWelf_error came
  · rw [if_neg failed] at ran
    obtain ⟨_, s₂, -, ran⟩ := bind_eq_some.mp ran
    obtain ⟨read, s₃, -, ran⟩ := bind_eq_some.mp ran
    by_cases short : BitVec.ofInt 32 read ≠ elf.binarySize
    · rw [if_pos short] at ran
      obtain ⟨_, s₄, -, ran⟩ := bind_eq_some.mp ran
      cases ran
      exact .inr (.inr (.inr rfl))
    · rw [if_neg short] at ran
      obtain ⟨_, s₄, -, ran⟩ := bind_eq_some.mp ran
      obtain ⟨_, s₅, -, ran⟩ := bind_eq_some.mp ran
      obtain ⟨_, s₆, -, ran⟩ := bind_eq_some.mp ran
      cases ran
      exact .inl rfl

/-- The table is empty. -/
def Emptied (who : ProcNr) (s : ExecState) : Prop := ∀ i < ptableLen, s.world.tables.words who i = 0#32

theorem dropImage_emptied {path : Word} {a : PUnit} (ran : dropImage who path s = some (a, s')) :
    Emptied who s' := by
  cases ran
  exact fun i small => setWords_words s.world.tables (fun _ => 0#32) small

/-- **How `exec_welf` ends**: with an error and an empty table, or without a reply. -/
theorem execWelf_ends {path argv envp header m : Word}
    (ran : execWelf who path argv envp header m s = some (o, s')) :
    Emptied who s' ∨ (BodyError o.error ∧ o.result = dontreply) := by
  obtain ⟨_, _, -, ran⟩ := bind_eq_some.mp ran
  obtain ⟨parent, _, -, ran⟩ := bind_eq_some.mp ran
  obtain ⟨argvCopy, _, -, ran⟩ := bind_eq_some.mp ran
  obtain ⟨envpCopy, _, -, ran⟩ := bind_eq_some.mp ran
  obtain ⟨_, s₁, dropped, ran⟩ := bind_eq_some.mp ran
  obtain ⟨fd, s₂, opened, ran⟩ := bind_eq_some.mp ran
  by_cases missing : fd < 0
  · rw [if_pos missing] at ran
    cases ran
    obtain ⟨⟨_, w⟩, came, same⟩ := map_eq_some_iff.mp opened
    cases same
    obtain ⟨⟨_, files⟩, -, same⟩ := map_eq_some_iff.mp came
    cases same
    have emptied := dropImage_emptied dropped
    exact .inl emptied
  · rw [if_neg missing] at ran
    obtain ⟨ret, s₃, body, ran⟩ := bind_eq_some.mp ran
    obtain ⟨_, s₄, -, ran⟩ := bind_eq_some.mp ran
    cases ran
    obtain ⟨_, _, -, body⟩ := bind_eq_some.mp body
    obtain ⟨_, _, -, body⟩ := bind_eq_some.mp body
    exact .inr ⟨startProgram_error body, rfl⟩

/-- **A call that fails leaves no trace** if and only if the caller may not use one of its pointers.
A process that runs has a page. -/
theorem execve_undone_iff {msg : Message} {header m : Word}
    (runs : ∃ page, page < ptableLen * 32 ∧ bitOn (s.world.tables.words who) page = true)
    (ran : doExecve who msg header m s = some (o, s')) (failed : o.error ≠ ok) :
    ExecUndone who s s' o ↔ accessible s.world who msg = false := by
  obtain ⟨_, _, read, ran⟩ := bind_eq_some.mp ran
  cases read
  by_cases may : accessible s.world who msg = true
  · rw [if_pos may] at ran
    refine iff_of_false (fun undone => ?_) (by rw [may]; exact Bool.noConfusion)
    rcases execWelf_ends ran with emptied | ⟨error, noReply⟩
    · obtain ⟨page, small, bit⟩ := runs
      have zero : s.world.tables.words who (page / 32) = 0#32 := by
        rw [Tables.words, ← undone.table]
        exact emptied (page / 32) (by omega)
      rw [bitOn, zero] at bit
      simp [hasBit] at bit
    · have same := noReply.symm.trans undone.reply
      rcases error with done | invalid | memory | short
      · exact failed done
      · rw [invalid] at same
        exact absurd same (by decide)
      · rw [memory] at same
        exact absurd same (by decide)
      · rw [short] at same
        exact absurd same (by decide)
  · rw [if_neg may] at ran
    cases ran
    refine iff_of_true ⟨rfl, rfl,
      fun _ _ => rfl, rfl, rfl, rfl, rfl, rfl, [], (List.append_nil _).symm, fun id => ?_⟩
      (Bool.eq_false_iff.mpr may)
    rw [if_neg (by omega)]
    rfl

end Failures

/-- Process 1 has its third page and is in the root directory. All of the memory is zero, so that
its path is empty and it has no arguments. -/
def blankState : ExecState where
  world := { rootWorld with kernel := bootMachine [0, 1] (fun _ => 2048) (fun _ => 1000) fun _ => 0 }
  mm := ⟨fun _ => 0, 1⟩
  image := ⟨2048, 2048, 2048, 2048, 2048, 3071, 0, fun _ => 0⟩
  name := []
  kmem := ⟨fun _ => true, 0, []⟩

/-- `execve` with all its pointers at a virtual address. -/
def execMessage (a : Word) : Message := ⟨0, 0, 0, 0, 0, a, a, a⟩

theorem blankState_runs :
    ∃ page, page < ptableLen * 32 ∧ bitOn (blankState.world.tables.words 1) page = true :=
  ⟨2, by decide, by decide⟩

/-- The pointers are outside of the page. -/
theorem blankState_undone :
    ∃ s', doExecve 1 (execMessage 5000) 0 0 blankState = some (⟨eacces, eacces⟩, s') ∧
    ExecUndone 1 blankState s' ⟨eacces, eacces⟩ := by
  have refused : accessible blankState.world 1 (execMessage 5000) = false := by decide
  have ran : doExecve 1 (execMessage 5000) 0 0 blankState = some (⟨eacces, eacces⟩, blankState) := by
    rw [doExecve, Prog.get_bind, refused]
    rfl
  exact ⟨_, ran, (execve_undone_iff blankState_runs ran (by decide)).mpr refused⟩

/-- There is no file of that name: the table of the caller is empty, and the memory of the two
arrays is never given back. -/
theorem execve_empties_table :
    ∃ s', doExecve 1 (execMessage 100) 0 0 blankState = some (⟨enoent, enoent⟩, s') ∧
    s'.world.tables.words 1 0 = 0#32 ∧ s'.kmem.next = 2 ∧ s'.kmem.freed = [] ∧
    ¬ ExecUndone 1 blankState s' ⟨enoent, enoent⟩ := by
  obtain ⟨⟨o, s'⟩, ran, failed, empty, asked, kept⟩ := exists_of_any (show
    (doExecve 1 (execMessage 100) 0 0 blankState).any (fun r => r.1 = ⟨enoent, enoent⟩ ∧
      r.2.world.tables.words 1 0 = 0#32 ∧ r.2.kmem.next = 2 ∧ r.2.kmem.freed = []) =
        true by decide +kernel)
  obtain rfl : o = ⟨enoent, enoent⟩ := failed
  refine ⟨s', ran, empty, asked, kept, fun undone => ?_⟩
  have same := congrFun undone.table 0
  rw [show s'.world.tables.ptable 1 0 = 0#32 from empty] at same
  exact absurd same (by decide)

end Winix.Kernel.Exec
