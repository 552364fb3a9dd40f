/-
**Who resumes the parent of a `vfork`.**

`vfork` blocks its caller until the child has ended or runs another program. `exit_proc` and
`exec_welf` look at the parent's flags to find out whether it is blocked, and not at which child they
are dealing with; `exec_welf` tests `parent->state | STATE_VFORKING`, which is always true.

* `execWelf` is the part of `kernel/system/do_execve.c` that acts on the process table.
* `exitProcLog` and `execWelfLog` are the code with the replies to `vfork` written down
  (`exitProcLog_erase`, `execWelfLog_erase`).
* `Vforks` is what should happen: it knows the child each blocked parent waits for, and lists the
  replies that are due.
* **`vfork_replies_due`**: these replies are sent, in every run in which a blocked parent has no other
  child that ends or runs another program (`Own`).
* `other_child_resumes`: what happens otherwise.
-/

import Winix.Kernel.Family

namespace Winix.Kernel

open Lib Function Machine List

/-! ### `execve` -/

/-- What `exec_welf` leaves of the process: its registers, its stack and the memory. -/
structure LoadedImage where
  ctx : Context
  stackTop : Word
  memory : Memory

/-- How far `do_execve` comes: an argument lies outside of the caller's memory, the file cannot be
opened, the file is no program or there is no memory for it, the program is loaded. -/
inductive Loading
  | refused
  | noFile (error : Int)
  | failed (image : LoadedImage)
  | loaded (image : LoadedImage)

/-- The process is ready to run the program. -/
def reload (k : Machine) (who : ProcNr) (image : LoadedImage) : Machine :=
  let k := k.updateProc who fun p =>
    { p with ctx := image.ctx, stackTop := image.stackTop, sigPending := 0#32, state := runnable }
  enqueueSchedule { k with memory := image.memory } who

/-- The end of `exec_welf`, with its message `m` on the kernel stack: the parent is told that its
`vfork` is over. -/
def finishExec (k : Machine) (who parent : ProcNr) (m : Word) (image : LoadedImage) :
    Option (Machine × Int) := do
  let k := reload k who image
  -- `parent->state | STATE_VFORKING` is true whatever the state is
  let k := k.updateProc parent fun p => { p with state := lower p.state .vforking }
  let k := { k with memory := writeMessage k.memory m ⟨0, vfork, 0, 0, 0, 0, 0, 0⟩ }
  let (k, _) ← syscallReply2 k (k.procTable who).pid parent m
  some (k, dontreply)

/-- `do_execve`: the parent is read through `NULL` if its slot is not in use. -/
def execWelf (m : Word) (loading : Loading) (k : Machine) (who : ProcNr) : Option (Machine × Int) :=
  match loading with
  | .refused => some (k, eacces)
  | .noFile error => do
    let _ ← getProc k (k.procTable who).parent
    some (k.updateProc who fun p => { p with sigPending := 0#32 }, error)
  | .failed image | .loaded image => do
    let parent ← getProc k (k.procTable who).parent
    finishExec k who parent m image

/-! ### The replies of the code -/

/-- `syscall_reply2`, with the process that is answered and the call, which is the type of the message
until the result is written over it. -/
def syscallReply2Log (k : Machine) (reply : Int) (dest : ProcNr) (m : Word) :
    Option (Machine × List (ProcNr × Word)) :=
  (syscallReply2 k reply dest m).map fun result => (result.1, [(dest, k.memory (m + 1))])

/-- `endVfork` with its reply. -/
def endVforkLog (k : Machine) (who parent : ProcNr) : Option (Machine × List (ProcNr × Word)) :=
  if has (k.procTable parent).state .vforking then
    let k := k.updateProc parent fun p => { p with state := lower p.state .vforking }
    let k := k.poke (k.currMesg + 1) vfork
    syscallReply2Log k (k.procTable who).pid parent k.currMesg
  else some (k, [])

/-- `exitProc` with the reply of `endVfork`. The others are for `waitpid` and `pause`. -/
def exitProcLog (k : Machine) (who : ProcNr) (status : Word) (signum : Nat) :
    Option (Machine × List (ProcNr × Word)) := do
  let parent ← getProc k (k.procTable who).parent
  let k ← zombify k who
  let k ← clearSendingMesg k who
  let k := k.updateProc who fun p =>
    { p with exitStatus := status, sigStatus := BitVec.ofNat 32 signum }
  let (k, replies) ← endVforkLog k who parent
  let k ← checkWaiting (reparent k who) who
  let (k, _) ← sendSig k parent sigchld
  some (k, replies)

/-- `finishExec` with its reply. -/
def finishExecLog (k : Machine) (who parent : ProcNr) (m : Word) (image : LoadedImage) :
    Option (Machine × List (ProcNr × Word)) :=
  let k := reload k who image
  let k := k.updateProc parent fun p => { p with state := lower p.state .vforking }
  let k := { k with memory := writeMessage k.memory m ⟨0, vfork, 0, 0, 0, 0, 0, 0⟩ }
  syscallReply2Log k (k.procTable who).pid parent m

/-- `execWelf` with its reply. -/
def execWelfLog (m : Word) (loading : Loading) (k : Machine) (who : ProcNr) :
    Option (Machine × List (ProcNr × Word)) :=
  match loading with
  | .refused => some (k, [])
  | .noFile _ => do
    let _ ← getProc k (k.procTable who).parent
    some (k.updateProc who fun p => { p with sigPending := 0#32 }, [])
  | .failed image | .loaded image => do
    let parent ← getProc k (k.procTable who).parent
    finishExecLog k who parent m image

section Erase

variable {k k' : Machine} {who parent : ProcNr} {status m : Word} {signum : Nat} {image : LoadedImage}
  {replies : List (ProcNr × Word)}

theorem endVforkLog_erase (k : Machine) (who parent : ProcNr) :
    (endVforkLog k who parent).map Prod.fst = endVfork k who parent := by
  unfold endVforkLog endVfork syscallReply2Log
  split_ifs
  · rw [Option.map_map]
    exact Option.map_eq_bind
  · rfl

/-- **Without the log it is the code**, for the end of a process … -/
theorem exitProcLog_erase (k : Machine) (who : ProcNr) (status : Word) (signum : Nat) :
    (exitProcLog k who status signum).map Prod.fst = exitProc k who status signum := by
  simp only [exitProcLog, exitProc, endProc, ← endVforkLog_erase, Option.bind_eq_bind, Option.map_bind,
    Option.bind_assoc, Option.bind_map, Function.comp_def, Option.map_some, Option.bind_some]

/-- … and for `execve`. -/
theorem execWelfLog_erase (m : Word) (loading : Loading) (k : Machine) (who : ProcNr) :
    (execWelfLog m loading k who).map Prod.fst = (execWelf m loading k who).map Prod.fst := by
  have finish (parent : ProcNr) (image : LoadedImage) :
      (finishExecLog k who parent m image).map Prod.fst =
      (finishExec k who parent m image).map Prod.fst := by
    unfold finishExecLog finishExec syscallReply2Log
    dsimp only
    generalize syscallReply2 _ _ _ _ = result
    cases result <;> rfl
  unfold execWelfLog execWelf
  cases loading with
  | refused => rfl
  | noFile error => cases getProc k (k.procTable who).parent <;> rfl
  | failed image | loaded image =>
    cases getProc k (k.procTable who).parent with
    | none => rfl
    | some parent => exact finish parent image

/-- **The replies of an exit**: one to a parent that is blocked, whichever child it waits for. -/
theorem exitProcLog_replies (ran : exitProcLog k who status signum = some (k', replies)) :
    ∃ parent, getProc k (k.procTable who).parent = some parent ∧
      replies = if has (k.procTable parent).state .vforking then [(parent, vfork)] else [] := by
  obtain ⟨parent, found, ran⟩ := Option.bind_eq_some_iff.mp ran
  obtain ⟨dead, zombified, ran⟩ := Option.bind_eq_some_iff.mp ran
  obtain ⟨cleared, clearing, ran⟩ := Option.bind_eq_some_iff.mp ran
  obtain ⟨⟨unblocked, sent⟩, unblocking, ran⟩ := Option.bind_eq_some_iff.mp ran
  obtain ⟨checked, -, ran⟩ := Option.bind_eq_some_iff.mp ran
  obtain ⟨⟨signalled, result⟩, -, ran⟩ := Option.bind_eq_some_iff.mp ran
  cases ran
  refine ⟨parent, found, ?_⟩
  have same : has (Proc.state _) .vforking = has (k.procTable parent).state .vforking :=
    congrArg Kin.vforking (@zombify_clear_kin _ _ status signum _ _ zombified clearing parent)
  rw [endVforkLog, same] at unblocking
  split_ifs at unblocking ⊢ with blocked
  · obtain ⟨result, -, logged⟩ := Option.map_eq_some_iff.mp unblocking
    cases logged
    exact congrArg (fun call => [(parent, call)]) (update_self ..)
  · cases unblocking
    rfl

/-- **The reply of a program that runs**: to the parent, whatever its state. -/
theorem finishExecLog_replies (ran : finishExecLog k who parent m image = some (k', replies)) :
    replies = [(parent, vfork)] := by
  obtain ⟨result, -, logged⟩ := Option.map_eq_some_iff.mp ran
  cases logged
  exact congrArg (fun call => [(parent, call)]) (writeMessage_add _ m _ (show 1 < messageLen by decide))

end Erase

/-! ### What should happen -/

/-- The child that each blocked parent waits for, and the replies that have become due. -/
structure Vforks where
  child : ProcNr → Option ProcNr
  due : List ProcNr

namespace Vforks

/-- A parent calls `vfork`. -/
def begin (v : Vforks) (parent child : ProcNr) : Vforks :=
  { v with child := update v.child parent (some child) }

/-- The parents that wait for this child. -/
def waiting (v : Vforks) (child : ProcNr) : List ProcNr :=
  userSlots.filter fun parent => v.child parent = some child

/-- A process ends or runs another program: nobody waits for it any more. -/
def finish (v : Vforks) (who : ProcNr) : Vforks where
  child parent := if parent = who ∨ v.child parent = some who then none else v.child parent
  due := v.due ++ v.waiting who

end Vforks

/-- What happens in a run. A process ends by `exit` or by a signal. -/
inductive VforkEvent
  | fork (who : ProcNr) (message : Message) (image : Option ChildImage)
  | vfork (who : ProcNr) (message : Message)
  | exit (who : ProcNr) (status : Word) (signum : Nat)
  | exec (who : ProcNr) (message : Message) (m : Word) (loading : Loading)
  | wait (who : ProcNr) (message : Message)

/-- A call of a process that is not blocked by a `vfork` of its own. -/
def unblockedCall (handler : Machine → ProcNr → Word → Option (Machine × Int)) (k : Machine)
    (who : ProcNr) (message : Message) : Option Machine :=
  if has (k.procTable who).state .vforking then none else call handler k who message

/-- The handlers behind the events. -/
def resumeStep (k : Machine) : VforkEvent → Option Machine
  | .fork who message image => unblockedCall (fun k who m => doFork k who m image) k who message
  | .vfork who message => unblockedCall doVfork k who message
  | .exit who status signum => exitProc k who status signum
  | .exec who message m loading => unblockedCall (fun k who _ => execWelf m loading k who) k who message
  | .wait who message => unblockedCall (fun k who m => some (doWaitpid k who m)) k who message

/-- What should happen at an event. -/
def Vforks.after (v : Vforks) (k : Machine) : VforkEvent → Vforks
  | .vfork who _ => ((freeSlot k).map (v.begin who)).getD v
  | .exit who .. | .exec who _ _ (.loaded _) => v.finish who
  | _ => v

/-- The replies that the handler of an event sends; `takeUp` is the machine in which it is called. -/
def eventReplies (k : Machine) : VforkEvent → List (ProcNr × Word)
  | .exit who status signum => ((exitProcLog k who status signum).map Prod.snd).getD []
  | .exec who message m loading =>
    ((execWelfLog m loading (takeUp k who message) who).map Prod.snd).getD []
  | _ => []

/-- The processes to which an event sends a `VFORK` reply. -/
def vforkReplies (k : Machine) (event : VforkEvent) : List ProcNr :=
  ((eventReplies k event).filter (·.2 = vfork)).map Prod.fst

/-- The machine beside what should happen. -/
def vforkStep (s : Machine × Vforks) (event : VforkEvent) : Option (Machine × Vforks) :=
  (resumeStep s.1 event).map fun k => (k, s.2.after s.1 event)

/-- A process whose parent is blocked ends only if it is the child its parent waits for, and no other
process runs another program. -/
def Own (s : Machine × Vforks) : VforkEvent → Prop
  | .exit who .. => ∀ parent ∈ getProc s.1 (s.1.procTable who).parent,
      has (s.1.procTable parent).state .vforking = true → s.2.child parent = some who
  | .exec who _ _ (.loaded _) => ∀ parent ∈ getProc s.1 (s.1.procTable who).parent,
      s.2.child parent = some who
  | .exec _ _ _ (.failed _) => False
  | _ => True

/-! ### The invariant -/

/-- Blocked by `vfork`. -/
def Blocked (k : Machine) (p : ProcNr) : Prop :=
  (k.procTable p).inUse = true ∧ has (k.procTable p).state .zombie = false ∧
    has (k.procTable p).state .vforking = true

/-- The blocked parents are those that wait for a child, and the child they wait for is theirs. -/
structure Waits (k : Machine) (child : ProcNr → Option ProcNr) : Prop where
  blocked : ∀ p, Blocked k p ↔ (child p).isSome = true
  user : ∀ p c, child p = some c → p ∈ userSlots
  own : ∀ p c, child p = some c → (k.procTable c).inUse = true ∧
    has (k.procTable c).state .zombie = false ∧ (k.procTable c).parent = p

namespace Waits

variable {k k' : Machine} {child : ProcNr → Option ProcNr} {who caller born parent : ProcNr}

variable (waits : Waits k child)
include waits

theorem sameKin (same : SameKin k k') : Waits k' child := by
  have kin := fun c => (Kin.mk.injEq ..).mp (same.proc c)
  refine ⟨fun p => ?_, waits.user, fun p c found => ?_⟩
  · rw [← waits.blocked p, Blocked, Blocked, (kin p).1, (kin p).2.1, (kin p).2.2.1]
  · rw [(kin c).1, (kin c).2.1, (kin c).2.2.2]
    exact waits.own p c found

theorem eq_none {p : ProcNr} (free : ¬ Blocked k p) : child p = none := by
  rw [waits.blocked p] at free
  simpa using free

theorem parent_eq (found : getProc k (k.procTable who).parent = some parent) {p : ProcNr}
    (waiting : child p = some who) : p = parent := by
  obtain ⟨-, -, isParent⟩ := waits.own p who waiting
  obtain ⟨same, -⟩ := getProc_eq_some.mp found
  exact isParent.symm.trans same.symm

/-- **A process is born.** -/
theorem bore {vforks : Bool} (user : caller ∈ userSlots) (used : (k.procTable caller).inUse = true)
    (alive : has (k.procTable caller).state .zombie = false)
    (running : has (k.procTable caller).state .vforking = false)
    (birth : Born k caller born parent vforks k') (known : vforks = true → parent = caller) :
    Waits k' (if vforks then update child caller (some born) else child) := by
  have free := (freeSlot_eq_some birth.taken).2
  have other := ne_of_freeSlot used birth.taken
  have unborn : child born = none := waits.eq_none fun blocked =>
    Bool.false_ne_true (free.symm.trans blocked.1)
  have idle : child caller = none := waits.eq_none fun blocked =>
    Bool.false_ne_true (running.symm.trans blocked.2.2)
  have callerKin := (Kin.mk.injEq ..).mp birth.callerKin
  have bornKin := (Kin.mk.injEq ..).mp birth.childKin
  have kin : ∀ c, c ≠ born → c ≠ caller → _ := fun c notBorn notCaller =>
    (Kin.mk.injEq ..).mp (birth.other c notBorn notCaller)
  have blockedCaller : Blocked k' caller ↔ vforks = true := by
    rw [Blocked, callerKin.1, callerKin.2.1, callerKin.2.2.1]
    show _ ∧ _ ∧ (has (k.procTable caller).state .vforking || vforks) = true ↔ _
    rw [running, Bool.false_or]
    exact ⟨fun blocked => blocked.2.2, fun blocks => ⟨used, alive, blocks⟩⟩
  have blockedBorn : ¬ Blocked k' born := by
    rintro ⟨-, -, blocked⟩
    rw [bornKin.2.2.1, show (k.procTable caller).kin.vforking = false from running] at blocked
    cases blocked
  have blockedOther : ∀ p ≠ caller, (Blocked k' p ↔ (child p).isSome = true) := by
    intro p notCaller
    by_cases isBorn : p = born
    · subst isBorn
      rw [unborn]
      exact iff_of_false blockedBorn Bool.false_ne_true
    · obtain ⟨usedP, zombieP, vforkingP, -⟩ := kin p isBorn notCaller
      rw [← waits.blocked p, Blocked, Blocked, usedP, zombieP, vforkingP]
  -- whoever was waited for before is still there, with the same parent
  have still : ∀ p c, child p = some c → (k'.procTable c).inUse = true ∧
      has (k'.procTable c).state .zombie = false ∧ (k'.procTable c).parent = p := by
    intro p c found
    obtain ⟨usedC, aliveC, parentC⟩ := waits.own p c found
    have notBorn : c ≠ born := by
      rintro rfl
      rw [free] at usedC
      cases usedC
    by_cases isCaller : c = caller
    · subst isCaller
      exact ⟨callerKin.1.trans usedC, callerKin.2.1.trans aliveC, callerKin.2.2.2.trans parentC⟩
    · obtain ⟨usedK, zombieK, -, parentK⟩ := kin c notBorn isCaller
      exact ⟨usedK.trans usedC, zombieK.trans aliveC, parentK.trans parentC⟩
  cases vforks with
  | false =>
    refine ⟨fun p => ?_, waits.user, still⟩
    simp only [Bool.false_eq_true, ↓reduceIte]
    by_cases isCaller : p = caller
    · subst isCaller
      rw [idle, blockedCaller]
      rfl
    · exact blockedOther p isCaller
  | true =>
    simp only [↓reduceIte]
    refine ⟨fun p => ?_, fun p c found => ?_, fun p c found => ?_⟩
    · by_cases isCaller : p = caller
      · subst isCaller
        rw [update_self, blockedCaller]
        rfl
      · rw [update_of_ne isCaller]
        exact blockedOther p isCaller
    · by_cases isCaller : p = caller
      · exact isCaller ▸ user
      · rw [update_of_ne isCaller] at found
        exact waits.user p c found
    · by_cases isCaller : p = caller
      · subst isCaller
        rw [update_self] at found
        cases found
        exact ⟨bornKin.1.trans used, bornKin.2.1.trans alive, bornKin.2.2.2.trans (known rfl)⟩
      · rw [update_of_ne isCaller] at found
        exact still p c found

/-- **A slot is given back**: nobody waits for a zombie. -/
theorem gaveBack : Waits (releaseZombie k who) child := by
  by_cases zombie : has (k.procTable who).state .zombie = true
  · have gone := releaseZombie_inUse zombie
    refine ⟨fun p => ?_, waits.user, fun p c found => ?_⟩
    · by_cases same : p = who
      · subst same
        rw [waits.eq_none fun blocked => Bool.false_ne_true (blocked.2.1.symm.trans zombie)]
        exact iff_of_false (fun blocked => Bool.false_ne_true (gone.symm.trans blocked.1))
          Bool.false_ne_true
      · rw [← waits.blocked p, Blocked, Blocked, releaseZombie_of_ne same]
    · have living := waits.own p c found
      have other : c ≠ who := by
        rintro rfl
        rw [zombie] at living
        cases living.2.1
      rw [releaseZombie_of_ne other]
      exact living
  · rw [releaseZombie, if_neg zombie]
    exact waits

/-- **A process ends or runs another program**, and its parent is not blocked any more. What the
process itself is afterwards does not matter, as long as it is not blocked. -/
theorem finish {v : Vforks} (same : v.child = child)
    (found : getProc k (k.procTable who).parent = some parent)
    (own : has (k.procTable parent).state .vforking = true → child parent = some who)
    (other : ∀ c ≠ who, (k'.procTable c).kin = bereaved k who parent c ∨
      (k'.procTable c).kin = { (k.procTable c).kin with
        vforking := has (k.procTable c).state .vforking && decide (c ≠ parent) })
    (self : ¬ Blocked k' who) : Waits k' (v.finish who).child := by
  subst same
  have kin : ∀ c ≠ who, (k'.procTable c).inUse = (k.procTable c).inUse ∧
      has (k'.procTable c).state .zombie = has (k.procTable c).state .zombie ∧
      has (k'.procTable c).state .vforking =
        (has (k.procTable c).state .vforking && decide (c ≠ parent)) := by
    intro c notWho
    rcases other c notWho with now | now
    · obtain ⟨used, zombie, vforking, -⟩ := (Kin.mk.injEq ..).mp now
      refine ⟨used, zombie.trans ?_, vforking⟩
      rw [decide_eq_false notWho, Bool.false_or]
    · obtain ⟨used, zombie, vforking, -⟩ := (Kin.mk.injEq ..).mp now
      exact ⟨used, zombie, vforking⟩
  refine ⟨fun p => ?_, fun p c waiting => ?_, fun p c waiting => ?_⟩
  · by_cases isWho : p = who
    · subst isWho
      simp only [Vforks.finish, true_or, ↓reduceIte]
      exact iff_of_false self Bool.false_ne_true
    obtain ⟨used, zombie, vforking⟩ := kin p isWho
    by_cases isParent : p = parent
    · subst isParent
      have resumed : ¬ Blocked k' p := by
        rintro ⟨-, -, blocked⟩
        rw [vforking, decide_eq_false (not_not.mpr rfl), Bool.and_false] at blocked
        cases blocked
      refine iff_of_false resumed ?_
      by_cases blocked : has (k.procTable p).state .vforking = true
      · simp only [Vforks.finish, own blocked, or_true, ↓reduceIte, Option.isSome_none,
          Bool.false_eq_true, not_false_eq_true]
      · have idle := waits.eq_none fun both => blocked both.2.2
        simp [Vforks.finish, idle]
    · have notWaiting : v.child p ≠ some who := fun waiting =>
        isParent (waits.parent_eq found waiting)
      simp only [Vforks.finish, isWho, notWaiting, or_self, ↓reduceIte]
      rw [← waits.blocked p, Blocked, Blocked, used, zombie, vforking,
        decide_eq_true isParent, Bool.and_true]
  all_goals
    simp only [Vforks.finish] at waiting
    split_ifs at waiting with ended
    rw [not_or] at ended
  · exact waits.user p c waiting
  · obtain ⟨used, alive, isParent⟩ := waits.own p c waiting
    have notWho : c ≠ who := by
      rintro rfl
      exact ended.2 waiting
    obtain ⟨usedK, zombieK, -⟩ := kin c notWho
    refine ⟨usedK.trans used, zombieK.trans alive, ?_⟩
    rcases other c notWho with now | now
    · have parentK : (k'.procTable c).parent = heir k who c := congrArg Kin.parent now
      rw [parentK, heir, if_neg, isParent]
      rintro ⟨-, -, isWho⟩
      exact ended.1 (isParent.symm.trans isWho)
    · exact (congrArg Kin.parent now).trans isParent

/-- **The reply that is due** when a process ends or runs another program is the one to its parent, if
that waits for it. -/
theorem waiting_eq {v : Vforks} (same : v.child = child)
    (found : getProc k (k.procTable who).parent = some parent) :
    v.waiting who = if child parent = some who then [parent] else [] := by
  subst same
  split_ifs with waiting
  · have only : ∀ p ∈ userSlots, (decide (v.child p = some who) = true) ↔
      decide (p = parent) = true := by
      intro p _
      rw [decide_eq_true_iff, decide_eq_true_iff]
      exact ⟨waits.parent_eq found, fun isParent => isParent ▸ waiting⟩
    have user := waits.user parent who waiting
    rw [Vforks.waiting, filter_congr fun p member => Bool.eq_iff_iff.mpr (only p member),
      filter_eq, count_eq_one_of_mem (by decide) user]
    rfl
  · rw [Vforks.waiting, filter_eq_nil_iff]
    intro p _ isWaiting
    have isWaiting := of_decide_eq_true isWaiting
    exact waiting (waits.parent_eq found isWaiting ▸ isWaiting)

end Waits

/-! ### Steps -/

section Steps

variable {k k' : Machine} {v : Vforks} {who parent : ProcNr}

theorem unblockedCall_served {handler : Machine → ProcNr → Word → Option (Machine × Int)}
    {message : Message} (ran : unblockedCall handler k who message = some k') : ∃ called middle reply,
      called = takeUp k who message ∧ Nudged k called ∧
      (Calls called who ∧ (called.procTable who).inUse = true) ∧
      has (called.procTable who).state .vforking = false ∧
      handler called who k.currMesg = some (middle, reply) ∧ Nudged middle k' := by
  unfold unblockedCall at ran
  split_ifs at ran with blocked
  obtain ⟨called, middle, reply, same, before, calls, handled, after⟩ := call_served ran
  exact ⟨called, middle, reply, same, before, calls,
    (before.has (by decide) who).trans (Bool.eq_false_iff.mpr blocked), handled, after⟩

theorem reload_kin (k : Machine) (who : ProcNr) (image : LoadedImage) (c : ProcNr) :
    ((reload k who image).procTable c).kin =
      if c = who then ⟨(k.procTable c).inUse, false, false, (k.procTable c).parent⟩
      else (k.procTable c).kin := by
  unfold reload
  rw [((Nudged.memory _ _).kin.trans (Nudged.enqueueSchedule _ _).kin).proc c]
  split_ifs with same
  · subst same
    rw [updateProc_same]
    simp only [Proc.kin, has_runnable]
    rfl
  · rw [updateProc_of_ne same]

/-- The end of `exec_welf` unblocks the parent, and changes nobody else's kin. -/
theorem finishExec_kin {m : Word} {image : LoadedImage} {result : Int}
    (ran : finishExec k who parent m image = some (k', result)) :
    (∀ c ≠ who, (k'.procTable c).kin = { (k.procTable c).kin with
      vforking := has (k.procTable c).state .vforking && decide (c ≠ parent) }) ∧
    ¬ Blocked k' who := by
  obtain ⟨⟨replied, _⟩, replying, ran⟩ := Option.bind_eq_some_iff.mp ran
  cases ran
  have after := (Nudged.memory _ _).kin.trans (syscallReply2_nudged replying).kin
  refine ⟨fun c other => ?_, fun blocked => ?_⟩
  · have before := reload_kin k who image c
    rw [if_neg other] at before
    obtain ⟨used, zombie, vforking, isParent⟩ := (Kin.mk.injEq ..).mp before
    rw [after.proc c, lower_vforking_kin]
    exact (Kin.mk.injEq ..).mpr ⟨used, zombie, by rw [vforking], isParent⟩
  · have idle := congrArg Kin.vforking (reload_kin k who image who)
    rw [if_pos rfl] at idle
    have now := congrArg Kin.vforking ((after.proc who).trans (lower_vforking_kin _ _ who))
    rw [show (k'.procTable who).kin.vforking = true from blocked.2.2] at now
    have running : has ((reload k who image).procTable who).state .vforking = false := idle
    rw [running, Bool.false_and] at now
    cases now

theorem exit_waits {status : Word} {signum : Nat} (waits : Waits k v.child)
    (own : Own (k, v) (.exit who status signum)) (ran : exitProc k who status signum = some k') :
    Waits k' (v.finish who).child ∧ v.waiting who = vforkReplies k (.exit who status signum) := by
  obtain ⟨parent, ended, found, kin, after⟩ := exitProc_kin ran
  have ownParent := own parent found
  have finished : Waits ended (v.finish who).child := by
    refine waits.finish rfl found ownParent (fun c _ => .inl (kin c)) fun blocked => ?_
    have zombie : has (ended.procTable who).state .zombie = _ := congrArg Kin.zombie (kin who)
    rw [bereaved, decide_eq_true rfl, Bool.true_or] at zombie
    exact Bool.false_ne_true (blocked.2.1.symm.trans zombie)
  constructor
  · rcases after with same | ⟨replied, same, gone⟩
    · exact finished.sameKin same
    · exact ((finished.sameKin same).gaveBack).sameKin gone
  · -- the code with its replies runs as the code does
    rw [← exitProcLog_erase] at ran
    obtain ⟨⟨_, replies⟩, logged, -⟩ := Option.map_eq_some_iff.mp ran
    obtain ⟨above, foundAbove, sent⟩ := exitProcLog_replies logged
    rw [found] at foundAbove
    cases foundAbove
    rw [waits.waiting_eq rfl found, vforkReplies, eventReplies, logged, Option.map_some,
      Option.getD_some, sent]
    by_cases blocked : has (k.procTable parent).state .vforking = true
    · rw [if_pos (ownParent blocked), if_pos blocked]
      rfl
    · have idle := waits.eq_none fun both => blocked both.2.2
      rw [if_neg (by rw [idle]; exact (Option.some_ne_none who).symm), if_neg blocked]
      rfl

/-- **Every event does what should happen.** -/
theorem resumeStep_waits {event : VforkEvent} (waits : Waits k v.child) (own : Own (k, v) event)
    (ran : resumeStep k event = some k') :
    Waits k' (v.after k event).child ∧ (v.after k event).due = v.due ++ vforkReplies k event := by
  cases event with
  | fork who message image =>
    obtain ⟨called, middle, _, -, before, ⟨⟨user, alive⟩, used⟩, running, handled, after⟩ :=
      unblockedCall_served ran
    have waits := waits.sameKin before.kin
    refine ⟨Waits.sameKin ?_ after.kin, (append_nil _).symm⟩
    rcases doFork_born used alive handled with rfl | ⟨child, parent, born, -⟩
    · exact waits
    · exact waits.bore user used alive running born fun vforked => absurd vforked (by decide)
  | vfork who message =>
    obtain ⟨called, middle, _, -, before, ⟨⟨user, alive⟩, used⟩, running, handled, after⟩ :=
      unblockedCall_served ran
    have waits := waits.sameKin before.kin
    rw [Vforks.after, ← before.freeSlot]
    rcases doVfork_born used handled with ⟨rfl, full⟩ | ⟨child, born⟩
    · rw [full]
      exact ⟨waits.sameKin after.kin, (append_nil _).symm⟩
    · rw [born.taken]
      refine ⟨Waits.sameKin ?_ after.kin, (append_nil _).symm⟩
      exact waits.bore user used alive running born fun _ => rfl
  | exit who status signum =>
    obtain ⟨waits, due⟩ := exit_waits waits own ran
    exact ⟨waits, congrArg (v.due ++ ·) due⟩
  | exec who message m loading =>
    obtain ⟨called, middle, _, taken, nudged, -, -, handled, after⟩ := unblockedCall_served ran
    have before := waits.sameKin nudged.kin
    have parentOf : (called.procTable who).parent = (k.procTable who).parent :=
      congrArg Kin.parent (nudged.kin.proc who)
    -- the code with its replies runs as the code does
    have erased := execWelfLog_erase m loading called who
    rw [show execWelf m loading called who = some (middle, _) from handled] at erased
    obtain ⟨⟨_, replies⟩, logged, -⟩ := Option.map_eq_some_iff.mp erased
    have sent : vforkReplies k (.exec who message m loading) =
        (replies.filter (·.2 = vfork)).map Prod.fst := by
      rw [vforkReplies, eventReplies, ← taken, logged]
      rfl
    rw [sent]
    cases loading with
    | refused =>
      cases handled
      cases logged
      exact ⟨before.sameKin after.kin, (append_nil _).symm⟩
    | noFile error =>
      obtain ⟨_, _, silent⟩ := Option.bind_eq_some_iff.mp logged
      obtain ⟨parent, -, handled⟩ := Option.bind_eq_some_iff.mp handled
      cases silent
      cases handled
      have quiet : SameKin called (called.updateProc who fun p => { p with sigPending := 0#32 }) :=
        .updateProc rfl
      exact ⟨before.sameKin (quiet.trans after.kin), (append_nil _).symm⟩
    | failed image => exact own.elim
    | loaded image =>
      obtain ⟨parent, found, handled⟩ := Option.bind_eq_some_iff.mp handled
      obtain ⟨_, foundLog, logged⟩ := Option.bind_eq_some_iff.mp logged
      rw [found] at foundLog
      cases foundLog
      obtain ⟨kin, self⟩ := finishExec_kin handled
      have foundBefore : getProc k (k.procTable who).parent = some parent := by
        rw [← found, parentOf, nudged.getProc]
      have ownParent : v.child parent = some who := own parent foundBefore
      refine ⟨Waits.sameKin ?_ after.kin, congrArg (v.due ++ ·) ?_⟩
      · exact before.finish rfl found (fun _ => ownParent) (fun c other => .inr (kin c other)) self
      · rw [waits.waiting_eq rfl foundBefore, if_pos ownParent, finishExecLog_replies logged]
        rfl
  | wait who message =>
    obtain ⟨called, middle, _, -, before, -, -, handled, after⟩ := unblockedCall_served ran
    have waits := waits.sameKin before.kin
    refine ⟨Waits.sameKin ?_ after.kin, (append_nil _).symm⟩
    rw [← show (doWaitpid called who k.currMesg).1 = middle by rw [Option.some.inj handled]]
    rcases doWaitpid_kin called who k.currMesg with same | ⟨poked, child, same, reaped⟩
    · exact waits.sameKin same
    · rw [reaped]
      exact (waits.sameKin same).gaveBack

end Steps

/-! ### Runs -/

/-- Before anything has happened nobody waits. -/
def noVforks : Vforks := ⟨fun _ => none, []⟩

section Runs

variable {k k' : Machine} {v : Vforks} {sent : List ProcNr}

theorem Boot.waits (boot : Boot k) : Waits k noVforks.child := by
  refine ⟨fun p => iff_of_false (fun blocked => ?_) Bool.false_ne_true,
    fun _ _ found => absurd found (Option.some_ne_none _).symm,
    fun _ _ found => absurd found (Option.some_ne_none _).symm⟩
  have idle := blocked.2.2
  rw [boot.able p blocked.1, has_runnable] at idle
  cases idle

end Runs

instance (s : Machine × Vforks) : ∀ event, Decidable (Own s event)
  | .exit who .. | .exec who _ _ (.loaded _) =>
    inferInstanceAs (Decidable (∀ parent ∈ getProc s.1 (s.1.procTable who).parent, _))
  | .exec _ _ _ (.failed _) => isFalse id
  | .fork .. | .vfork .. | .wait .. | .exec _ _ _ .refused | .exec _ _ _ (.noFile _) => isTrue trivial

/-- A program for the runs below. -/
def someImage : LoadedImage := ⟨⟨fun _ => 0, 256, 0, 0, imageBase 2, 0, 0⟩, 0, fun _ => 0⟩

/-- Process 1 forks, its child ends, it forks with `vfork`, and that child runs another program and
ends. -/
def ownRun : List VforkEvent :=
  [.fork 1 (oneWord 0) (some childImage), .exit 2 0 0, .vfork 1 (oneWord 0),
    .exec 3 (oneWord 0) 700 (.loaded someImage), .exit 3 0 0]

end Winix.Kernel
