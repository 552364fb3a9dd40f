/-
**What `fork` and `vfork` change.**

Both take a slot that is not in use and copy the parent over it. `Spawned k parent child k'` says what
is left of that once the child has been answered: every other process has at most been roused, the
child has the parent's fields but for a few (`Proc.inherited`), and its timer is a copy of the
parent's timer.

* **`doFork_spawned`**, **`doVfork_spawned`**: there is no slot and nothing happens, or a child is
  spawned.
-/

import Winix.Kernel.Nudge

namespace Winix.Kernel

open Lib Function Machine Option

/-- A process without what a child does not take over from its parent. -/
def Proc.inherited (p : Proc) : Proc :=
  { p.roused with
    ctx := { p.ctx with regs := fun _ => 0, ptable := 0, rbase := 0 }
    stackTop := 0
    timeUsed := 0
    sysTimeUsed := 0
    pid := 0 }

/-- The masks and actions of a process. -/
def Proc.signals (p : Proc) : Word × Word × (Nat → SigAction) := (p.sigMask, p.sigMask2, p.sigTable)

/-- The clock after the timer of a slot has been overwritten with the parent's. -/
def copyTimer (c : Clock) (parent child : ProcNr) : Clock :=
  c.setTimer (.alarm child) (c.timer (.alarm parent))

/-- The slot that the next child gets. -/
def freeSlot (k : Machine) : Option ProcNr := (getFreeProcSlot k).map Prod.fst

theorem Nudged.freeSlot {k k' : Machine} (same : Nudged k k') : freeSlot k' = freeSlot k := by
  simp only [Kernel.freeSlot, getFreeProcSlot, Option.map_map, same.inUse]
  rfl

/-- A child has been spawned. Its slot is given back at once only if its parent is a zombie. -/
structure Spawned (k : Machine) (parent child : ProcNr) (k' : Machine) : Prop where
  taken : freeSlot k = some child
  clock : k'.clock = copyTimer k.clock parent child
  currMesg : k'.currMesg = k.currMesg
  sigMesg : k'.sigMesg = k.sigMesg
  other : ∀ c ≠ child, (k'.procTable c).roused = (k.procTable c).roused
  signals : (k'.procTable child).signals = (k.procTable parent).signals
  inherited : has (k.procTable parent).state .zombie = false →
    (k'.procTable child).inherited = (k.procTable parent).inherited

theorem roused_roused (p : Proc) : p.roused.roused = p.roused := by
  have used : p.roused.inUse = p.inUse := inUse_steadfast p
  have state : p.roused.state &&& unwaitingMask = p.state &&& unwaitingMask := by
    simp only [Proc.roused, BitVec.and_assoc, BitVec.and_self]
  rw [Proc.roused, state, Proc.steadfast]
  simp only [used]
  rfl

theorem inherited_roused (p : Proc) : p.roused.inherited = p.inherited := by
  rw [Proc.inherited, roused_roused]
  rfl

theorem zombie_inherited (p : Proc) : has p.inherited.state .zombie = has p.state .zombie :=
  has_unwaiting p.state rfl

namespace Spawned

variable {k k' k'' : Machine} {parent child : ProcNr}

section

variable (spawned : Spawned k parent child k')
include spawned

theorem roused (same : Roused k' k'') : Spawned k parent child k'' where
  taken := spawned.taken
  clock := same.clock.trans spawned.clock
  currMesg := same.currMesg.trans spawned.currMesg
  sigMesg := same.sigMesg.trans spawned.sigMesg
  other c ne := (same.proc c).trans (spawned.other c ne)
  signals :=
    have view : SameView Proc.signals k' k'' := same.coarsen fun _ => rfl
    (view.proc child).trans spawned.signals
  inherited alive := ((same.coarsen inherited_roused).proc child).trans (spawned.inherited alive)

theorem updateChild {change : Proc → Proc}
    (signals : (change (k'.procTable child)).signals = (k'.procTable child).signals)
    (inherited : has (k.procTable parent).state .zombie = false →
      (change (k'.procTable child)).inherited = (k'.procTable child).inherited) :
    Spawned k parent child (k'.updateProc child change) where
  taken := spawned.taken
  clock := spawned.clock
  currMesg := spawned.currMesg
  sigMesg := spawned.sigMesg
  other c ne := by rw [updateProc_of_ne ne, spawned.other c ne]
  signals := by rw [updateProc_same, signals, spawned.signals]
  inherited alive := by rw [updateProc_same, inherited alive, spawned.inherited alive]

theorem memory (memory : Memory) : Spawned k parent child { k' with memory := memory } :=
  spawned.roused (.of_procTable rfl rfl rfl rfl)

end

end Spawned

section Fork

variable {k k' fresh : Machine} {parent child : ProcNr} {m : Word} {result : Int}
variable {image : Option ChildImage}

theorem freeSlot_eq_some (found : freeSlot k = some child) :
    child ∈ userSlots ∧ (k.procTable child).inUse = false := by
  obtain ⟨⟨i, fresh⟩, taken, rfl⟩ := map_eq_some_iff.mp found
  obtain ⟨j, first, made⟩ := map_eq_some_iff.mp taken
  obtain ⟨rfl, -⟩ := Prod.mk.inj made
  exact ⟨List.mem_of_find?_eq_some first, by simpa using List.find?_some first⟩

theorem getFreeProcSlot_eq_some (found : getFreeProcSlot k = some (child, fresh)) :
    fresh.clock = k.clock.setTimer (.alarm child) (defaultTimer child) ∧
      fresh.currMesg = k.currMesg ∧ fresh.sigMesg = k.sigMesg ∧
      ∀ c ≠ child, fresh.procTable c = k.procTable c := by
  obtain ⟨i, first, made⟩ := map_eq_some_iff.mp found
  obtain ⟨rfl, rfl⟩ := Prod.mk.inj made
  refine ⟨rfl, rfl, rfl, fun c ne => ?_⟩
  rw [updateProc_of_ne ne]
  exact update_of_ne ne _ _

theorem ne_of_freeSlot (used : (k.procTable parent).inUse = true) (taken : freeSlot k = some child) :
    parent ≠ child := by
  rintro rfl
  rw [(freeSlot_eq_some taken).2] at used
  cases used

theorem copyPcb_spawned (used : (k.procTable parent).inUse = true)
    (found : getFreeProcSlot k = some (child, fresh)) :
    Spawned k parent child (copyPcb fresh parent child) := by
  obtain ⟨clockEq, currMesg, sigMesg, same⟩ := getFreeProcSlot_eq_some found
  have taken : freeSlot k = some child := by
    rw [freeSlot, found]
    rfl
  have other := ne_of_freeSlot used taken
  have copied : (copyPcb fresh parent child).procTable child = _ := update_self _ _ _
  rw [same parent other] at copied
  refine ⟨taken, ?_, currMesg, sigMesg, fun c ne => ?_, ?_, fun _ => ?_⟩
  · have timer : TimerId.alarm parent ≠ .alarm child := fun eq => other (TimerId.alarm.inj eq)
    show copyTimer fresh.clock parent child = copyTimer k.clock parent child
    simp only [clockEq, copyTimer, Clock.setTimer, update_of_ne timer, update_idem]
  · have kept : (copyPcb fresh parent child).procTable c = fresh.procTable c :=
      update_of_ne ne _ _
    rw [kept, same c ne]
  · rw [copied]
    rfl
  · rw [copied]
    rfl

section

variable (spawned : Spawned k parent child k')
include spawned

theorem adopt_spawned :
    Spawned k parent child (adopt k' parent child) := spawned.updateChild rfl fun _ => rfl

theorem copyImage_spawned (image : ChildImage) :
    Spawned k parent child (copyImage k' parent child image) := by
  unfold copyImage
  refine Spawned.updateChild (Spawned.memory ?_ _) ?_ ?_
  · exact spawned.updateChild rfl fun _ => rfl
  · rfl
  · exact fun _ => rfl

theorem releaseZombie_spawned : Spawned k parent child (releaseZombie k' child) := by
  unfold releaseZombie
  split_ifs with zombie
  · refine spawned.updateChild rfl fun alive => ?_
    have same := congrArg (fun p => has p.state .zombie) (spawned.inherited alive)
    rw [zombie_inherited, zombie_inherited, alive, zombie] at same
    cases same
  · exact spawned

end

section

variable (used : (k.procTable parent).inUse = true)
include used

/-- **`sys_fork` spawns a child**, unless there is no slot. -/
theorem sysFork_spawned (ran : sysFork k parent image = (k', result)) :
    (k' = k ∧ result = eagain) ∨ ∃ child, Spawned k parent child k' ∧
      (result = enomem ∨ result = child) := by
  unfold sysFork at ran
  split at ran
  · cases ran
    exact .inl ⟨rfl, rfl⟩
  · rename_i child fresh found
    have copied := copyPcb_spawned used found
    refine .inr ⟨child, ?_⟩
    dsimp only at ran
    split at ran
    · cases ran
      exact ⟨releaseZombie_spawned copied, .inl rfl⟩
    · cases ran
      exact ⟨adopt_spawned (copyImage_spawned copied _), .inr rfl⟩

omit used in
/-- `do_fork` answers the child that `sys_fork` has made, if any. -/
theorem doFork_ran (ran : doFork k parent m image = some (k', result)) :
    ∃ forked number, sysFork k parent image = (forked, number) ∧ Nudged forked k' ∧
      (number = eagain → k' = forked) := by
  refine ⟨(sysFork k parent image).1, (sysFork k parent image).2, rfl, ?_⟩
  unfold doFork at ran
  dsimp only at ran
  split_ifs at ran with negative
  · cases ran
    exact ⟨.refl _, fun _ => rfl⟩
  · obtain ⟨⟨answered, _⟩, replied, ran⟩ := bind_eq_some_iff.mp ran
    obtain ⟨pnr, -, ran⟩ := bind_eq_some_iff.mp ran
    cases ran
    exact ⟨syscallReply2_nudged replied, fun again => absurd (by rw [again]; decide) negative⟩

/-- **`do_fork` spawns a child**, unless there is no slot. -/
theorem doFork_spawned (ran : doFork k parent m image = some (k', result)) :
    k' = k ∨ ∃ child, Spawned k parent child k' := by
  obtain ⟨forked, number, forking, nudged, same⟩ := doFork_ran ran
  rcases sysFork_spawned used forking with ⟨rfl, again⟩ | ⟨child, spawned, -⟩
  · exact .inl (same again)
  · exact .inr ⟨child, spawned.roused nudged.roused⟩

/-- **`do_vfork` spawns a child**, unless there is no slot. -/
theorem doVfork_spawned (ran : doVfork k parent m = some (k', result)) :
    k' = k ∨ ∃ child, Spawned k parent child k' := by
  unfold doVfork at ran
  split at ran
  · cases ran
    exact .inl rfl
  · rename_i child fresh found
    obtain ⟨⟨answered, _⟩, replied, ran⟩ := bind_eq_some_iff.mp ran
    cases ran
    refine .inr ⟨child, ?_⟩
    have spawned := (adopt_spawned (copyPcb_spawned used found)).roused
      (syscallReply2_nudged replied).roused
    exact spawned.roused (Roused.raise rfl)

end

end Fork

end Winix.Kernel
