/-
**Parents and children.**

The parent of a process is a slot number in its own slot. Slots are given back by `waitpid`, by
`check_waiting` and by an ignored `SIGCHLD`, and taken again at once; children are handed over to `INIT`
in `exit_proc` only. What keeps the numbers valid is that a slot is given back only when its process is
a zombie, and that a zombie has no children (`Family`).

* `Kin`: what a process is to its parent and its children; the lemmas say what forks, the end of a
  process and signals do to it.
* `Family.gaveBack`, `Family.bore`, `Family.ended`: the steps that change it.
* **`parents_in_use`**: over whole runs from the boot.
-/

import Winix.Kernel.Handle
import Winix.Kernel.Wait

namespace Winix.Kernel

open Lib Machine Option

/-! ### Kin -/

/-- What a process is to its parent and its children. -/
structure Kin where
  inUse : Bool
  zombie : Bool
  vforking : Bool
  parent : ProcNr
  deriving DecidableEq

/-- The kin of a process. -/
def Proc.kin (p : Proc) : Kin := ⟨p.inUse, has p.state .zombie, has p.state .vforking, p.parent⟩

theorem kin_steadfast (p : Proc) : p.steadfast.kin = p.kin := by
  simp only [Proc.kin, inUse_steadfast, has_steadfast (show StateFlag.zombie ≠ .receiving by decide),
    has_steadfast (show StateFlag.vforking ≠ .receiving by decide)]
  rfl

theorem kin_state {p : Proc} {state : Word} (zombie : has state .zombie = has p.state .zombie)
    (vforking : has state .vforking = has p.state .vforking) :
    ({ p with state := state } : Proc).kin = p.kin := by
  simp only [Proc.kin, zombie, vforking]
  rfl

/-- Nobody's kin has changed. -/
abbrev SameKin : Machine → Machine → Prop := SameView Proc.kin

section SameKin

variable {k k' : Machine} {who : ProcNr} {signum : Nat}

theorem Nudged.kin (same : Nudged k k') : SameKin k k' := same.coarsen kin_steadfast

theorem SameKin.lower {flag : StateFlag} (notZombie : flag ≠ .zombie) (notVforking : flag ≠ .vforking) :
    SameKin k (k.updateProc who fun p => { p with state := lower p.state flag }) :=
  .updateProc (kin_state (has_lower_of_ne _ notZombie.symm) (has_lower_of_ne _ notVforking.symm))

theorem SameKin.raise {flag : StateFlag} (notZombie : flag ≠ .zombie) (notVforking : flag ≠ .vforking) :
    SameKin k (k.updateProc who fun p => { p with state := raise p.state flag }) :=
  .updateProc (kin_state (has_raise_of_ne _ notZombie.symm) (has_raise_of_ne _ notVforking.symm))

theorem sendSig_kin {result : Int} (ran : sendSig k who signum = some (k', result)) : SameKin k k' := by
  have raised : ∀ {k k' : Machine}, raiseSig k who signum = some (k', result) → SameKin k k' := by
    intro k k' ran
    unfold raiseSig at ran
    split_ifs at ran
    · simp only [bind_eq_bind, bind_some] at ran
      obtain ⟨⟨after, _⟩, replied, ran⟩ := bind_eq_some_iff.mp ran
      cases ran
      refine SameView.trans ?_ ((syscallReply2_nudged replied).kin.trans (.updateProc rfl))
      exact (SameView.poke _ _ _).trans
        (SameKin.lower (show StateFlag.pausing ≠ .zombie by decide) (by decide))
    · cases ran
      exact .updateProc rfl
  unfold sendSig at ran
  split_ifs at ran
  · cases ran
    exact .refl k
  · cases ran
    exact .updateProc rfl
  · exact raised ran
  · cases ran
    exact .refl k

theorem stopWaiting_kin (k : Machine) (late : LateAnswer) : SameKin k (stopWaiting k late) := by
  refine SameView.trans (.poke _ _ _) (SameView.trans (.poke _ _ _) (.updateProc ?_))
  exact kin_state (has_lower_of_ne _ (by decide)) (has_lower_of_ne _ (by decide))

/-- `check_waiting` gives the slot of a zombie back, or changes nobody's kin. -/
theorem checkWaiting_kin (ran : checkWaiting k who = some k') :
    SameKin k k' ∨ ∃ replied, SameKin k replied ∧ k' = releaseZombie replied who := by
  rcases checkWaiting_late ran with ⟨-, rfl⟩ | ⟨late, replied, result, -, given, rfl⟩
  · exact .inl (.refl _)
  · exact .inr ⟨replied, (stopWaiting_kin k late).trans (syscallReply2_nudged given).kin, rfl⟩

/-- `waitpid` gives the slot of a zombie back, or changes nobody's kin. -/
theorem doWaitpid_kin (k : Machine) (who : ProcNr) (mesg : Word) : SameKin k (doWaitpid k who mesg).1 ∨
    ∃ poked child, SameKin k poked ∧ (doWaitpid k who mesg).1 = releaseZombie poked child := by
  unfold doWaitpid
  split
  · exact .inr ⟨_, _, .poke _ _ _, rfl⟩
  · dsimp only
    split_ifs
    · exact .inl (.refl k)
    · exact .inl (.refl k)
    · dsimp only
      refine .inl (.updateProc ?_)
      exact kin_state (has_raise_of_ne _ (by decide)) (has_raise_of_ne _ (by decide))

end SameKin

/-! ### Birth -/

/-- A process has been born: its slot was free, it is a copy of the caller but for its parent, and the
caller is blocked if this was a `vfork`. -/
structure Born (k : Machine) (caller child parent : ProcNr) (vforks : Bool) (k' : Machine) : Prop where
  taken : freeSlot k = some child
  other : ∀ c, c ≠ child → c ≠ caller → (k'.procTable c).kin = (k.procTable c).kin
  callerKin : (k'.procTable caller).kin =
    { (k.procTable caller).kin with vforking := (k.procTable caller).kin.vforking || vforks }
  childKin : (k'.procTable child).kin = { (k.procTable caller).kin with parent := parent }

section Birth

variable {k k' k'' fresh : Machine} {caller child parent : ProcNr} {vforks : Bool} {m : Word}
  {result : Int}

theorem Born.kin (born : Born k caller child parent vforks k') (same : SameKin k' k'') :
    Born k caller child parent vforks k'' where
  taken := born.taken
  other c notChild notCaller := (same.proc c).trans (born.other c notChild notCaller)
  callerKin := (same.proc caller).trans born.callerKin
  childKin := (same.proc child).trans born.childKin

theorem copyPcb_born (used : (k.procTable caller).inUse = true)
    (found : getFreeProcSlot k = some (child, fresh)) :
    Born k caller child (k.procTable caller).parent false (copyPcb fresh caller child) := by
  obtain ⟨-, -, -, same⟩ := getFreeProcSlot_eq_some found
  have taken : freeSlot k = some child := by
    rw [freeSlot, found]
    rfl
  have other := ne_of_freeSlot used taken
  have kept : ∀ c ≠ child, (copyPcb fresh caller child).procTable c = k.procTable c := fun c ne =>
    (Function.update_of_ne ne _ _).trans (same c ne)
  refine ⟨taken, fun c notChild _ => by rw [kept c notChild], ?_, ?_⟩
  · rw [kept caller other, Bool.or_false]
  · have copied : (copyPcb fresh caller child).procTable child = _ := Function.update_self _ _ _
    rw [copied, same caller other]
    rfl

theorem adopt_born (used : (k.procTable caller).inUse = true)
    (born : Born k caller child parent vforks k') :
    Born k caller child caller vforks (adopt k' caller child) where
  taken := born.taken
  other c notChild notCaller := by
    rw [adopt, updateProc_of_ne notChild, born.other c notChild notCaller]
  callerKin := by
    rw [adopt, updateProc_of_ne (ne_of_freeSlot used born.taken), born.callerKin]
  childKin := by
    rw [adopt, updateProc_same]
    exact congrArg (fun kin : Kin => { kin with parent := caller }) born.childKin

theorem copyImage_kin (image : ChildImage) : SameKin k (copyImage k caller child image) := by
  unfold copyImage
  refine SameView.trans ?_ (.updateProc rfl)
  refine SameView.trans ?_ (Nudged.memory _ _).kin
  exact .updateProc rfl

section

variable (used : (k.procTable caller).inUse = true)
include used
variable {image : Option ChildImage}

/-- **A fork bears a child**, unless there is no slot. The child of a fork that fails stays in use, and
its parent is the caller's. -/
theorem sysFork_born (alive : has (k.procTable caller).state .zombie = false)
    (ran : sysFork k caller image = (k', result)) :
    (k' = k ∧ result = eagain) ∨ ∃ child parent, Born k caller child parent false k' ∧
      (parent = caller ∨ parent = (k.procTable caller).parent) := by
  unfold sysFork at ran
  split at ran
  · cases ran
    exact .inl ⟨rfl, rfl⟩
  · rename_i child fresh found
    have copied := copyPcb_born used found
    refine .inr ⟨child, ?_⟩
    dsimp only at ran
    split at ran
    · cases ran
      have zombie : has ((copyPcb fresh caller child).procTable child).state .zombie = false :=
        (congrArg Kin.zombie copied.childKin).trans alive
      rw [releaseZombie, if_neg (by rw [zombie]; decide)]
      exact ⟨_, copied, .inr rfl⟩
    · cases ran
      exact ⟨_, adopt_born used (copied.kin (copyImage_kin _)), .inl rfl⟩

theorem doFork_born (alive : has (k.procTable caller).state .zombie = false)
    (ran : doFork k caller m image = some (k', result)) :
    k' = k ∨ ∃ child parent, Born k caller child parent false k' ∧
      (parent = caller ∨ parent = (k.procTable caller).parent) := by
  obtain ⟨forked, number, forking, nudged, same⟩ := doFork_ran ran
  rcases sysFork_born used alive forking with ⟨rfl, again⟩ | ⟨child, parent, born, known⟩
  · exact .inl (same again)
  · exact .inr ⟨child, parent, born.kin nudged.kin, known⟩

/-- **A `vfork` bears a child** and blocks the caller, unless there is no slot. -/
theorem doVfork_born (ran : doVfork k caller m = some (k', result)) :
    (k' = k ∧ freeSlot k = none) ∨ ∃ child, Born k caller child caller true k' := by
  unfold doVfork at ran
  split at ran
  · rename_i full
    cases ran
    refine .inl ⟨rfl, ?_⟩
    rw [freeSlot, full]
    rfl
  · rename_i child fresh found
    obtain ⟨⟨answered, _⟩, replied, ran⟩ := bind_eq_some_iff.mp ran
    cases ran
    have born := (adopt_born used (copyPcb_born used found)).kin (syscallReply2_nudged replied).kin
    have other := ne_of_freeSlot used born.taken
    refine .inr ⟨child, born.taken, fun c notChild notCaller => ?_, ?_, ?_⟩
    · rw [updateProc_of_ne notCaller, born.other c notChild notCaller]
    · rw [updateProc_same, Bool.or_true]
      have before := born.callerKin
      simp only [Proc.kin, Kin.mk.injEq] at before ⊢
      refine ⟨before.1, ?_, has_raise_self _ _, before.2.2.2⟩
      rw [has_raise_of_ne _ (by decide), before.2.1]
    · rw [updateProc_of_ne other.symm, born.childKin]

end

end Birth

/-! ### Death -/

section Death

variable {k k' : Machine} {who parent : ProcNr} {status : Word} {signum : Nat}

/-- The parent of a process after the end of another one. -/
def heir (k : Machine) (who c : ProcNr) : ProcNr :=
  if c ∈ userSlots ∧ (k.procTable c).inUse ∧ (k.procTable c).parent = who then init
  else (k.procTable c).parent

/-- The kin of a process after the end of a process with this parent. -/
def bereaved (k : Machine) (who parent c : ProcNr) : Kin where
  inUse := (k.procTable c).inUse
  zombie := decide (c = who) || has (k.procTable c).state .zombie
  vforking := has (k.procTable c).state .vforking && decide (c ≠ parent)
  parent := heir k who c

theorem zombify_kin (ran : zombify k who = some k') (c : ProcNr) :
    (k'.procTable c).kin =
      { (k.procTable c).kin with zombie := decide (c = who) || has (k.procTable c).state .zombie } := by
  rw [(Nudged.dequeueSchedule ran).kin.proc c]
  by_cases same : c = who
  · subst same
    rw [updateProc_same]
    simp only [Proc.kin, has_raise_self,
      has_raise_of_ne _ (show StateFlag.vforking ≠ .zombie by decide),
      decide_true, Bool.true_or]
    rfl
  · rw [updateProc_of_ne same]
    simp only [same, decide_false, Bool.false_or]
    rfl

theorem lower_vforking_kin (k : Machine) (parent c : ProcNr) : ((k.updateProc parent fun p =>
    { p with state := lower p.state .vforking }).procTable c).kin = { (k.procTable c).kin with
      vforking := has (k.procTable c).state .vforking && decide (c ≠ parent) } := by
  by_cases same : c = parent
  · subst same
    rw [updateProc_same]
    simp only [Proc.kin, has_lower_self,
      has_lower_of_ne _ (show StateFlag.zombie ≠ .vforking by decide),
      ne_eq, not_true_eq_false, decide_false, Bool.and_false]
    rfl
  · rw [updateProc_of_ne same]
    simp only [Proc.kin, same, ne_eq, not_false_eq_true, decide_true, Bool.and_true]

theorem endVfork_kin (ran : endVfork k who parent = some k') (c : ProcNr) :
    (k'.procTable c).kin = { (k.procTable c).kin with
      vforking := has (k.procTable c).state .vforking && decide (c ≠ parent) } := by
  unfold endVfork at ran
  split_ifs at ran with blocked
  · obtain ⟨⟨after, result⟩, replied, ran⟩ := bind_eq_some_iff.mp ran
    cases ran
    rw [((SameView.poke _ _ _).trans (syscallReply2_nudged replied).kin).proc c, lower_vforking_kin]
  · cases ran
    by_cases same : c = parent
    · subst same
      simp only [Proc.kin, Bool.eq_false_iff.mpr blocked, Bool.false_and]
    · simp only [Proc.kin, same, ne_eq, not_false_eq_true, decide_true, Bool.and_true]

/-- The end of a process before its parent is looked at. -/
theorem zombify_clear_kin {dead cleared : Machine} (zombified : zombify k who = some dead)
    (clearing : clearSendingMesg dead who = some cleared) (c : ProcNr) :
    ((cleared.updateProc who fun p =>
        { p with exitStatus := status, sigStatus := BitVec.ofNat 32 signum }).procTable c).kin =
      { (k.procTable c).kin with zombie := decide (c = who) || has (k.procTable c).state .zombie } := by
  have quiet : SameKin dead cleared := (clearSendingMesg_unqueued clearing).coarsen fun _ => rfl
  have noted : SameKin cleared (cleared.updateProc who fun p =>
      { p with exitStatus := status, sigStatus := BitVec.ofNat 32 signum }) := .updateProc rfl
  exact ((quiet.trans noted).proc c).trans (zombify_kin zombified c)

/-- **The end of a process up to `check_waiting`**: it is a zombie, its children are `INIT`'s, and its
parent is not blocked by a `vfork`. -/
theorem endProc_kin (ran : endProc k who status signum = some (k', parent)) (c : ProcNr) :
    (k'.procTable c).kin = bereaved k who parent c := by
  obtain ⟨above, found, ran⟩ := bind_eq_some_iff.mp ran
  obtain ⟨dead, zombified, ran⟩ := bind_eq_some_iff.mp ran
  obtain ⟨cleared, clearing, ran⟩ := bind_eq_some_iff.mp ran
  obtain ⟨unblocked, unblocking, ran⟩ := bind_eq_some_iff.mp ran
  cases ran
  have before := @zombify_clear_kin _ _ status signum _ _ zombified clearing c
  have after := endVfork_kin unblocking c
  simp only [Proc.kin, Kin.mk.injEq] at before after
  obtain ⟨used, zombie, vforking, parent⟩ := before
  rw [used, zombie, vforking, parent] at after
  obtain ⟨used, zombie, vforking, parent⟩ := after
  show (if c ∈ userSlots ∧ (unblocked.procTable c).inUse ∧ (unblocked.procTable c).parent = who then
      { unblocked.procTable c with parent := init } else unblocked.procTable c).kin = _
  rw [used, parent]
  unfold bereaved heir
  split_ifs
  · exact (Kin.mk.injEq ..).mpr ⟨used, zombie, vforking, rfl⟩
  · exact (Kin.mk.injEq ..).mpr ⟨used, zombie, vforking, parent⟩

/-- **The end of a process.** After that its slot may be given back at once. -/
theorem exitProc_kin (ran : exitProc k who status signum = some k') :
    ∃ parent ended, getProc k (k.procTable who).parent = some parent ∧
      (∀ c, (ended.procTable c).kin = bereaved k who parent c) ∧
      (SameKin ended k' ∨ ∃ replied, SameKin ended replied ∧
        SameKin (releaseZombie replied who) k') := by
  obtain ⟨⟨ended, parent⟩, ending, ran⟩ := bind_eq_some_iff.mp ran
  obtain ⟨checked, checking, ran⟩ := bind_eq_some_iff.mp ran
  obtain ⟨⟨sent, result⟩, sending, ran⟩ := bind_eq_some_iff.mp ran
  cases ran
  refine ⟨parent, ended, (endProc_ending ending).found, endProc_kin ending, ?_⟩
  have signalled := sendSig_kin sending
  rcases checkWaiting_kin checking with same | ⟨replied, same, rfl⟩
  · exact .inl (same.trans signalled)
  · exact .inr ⟨replied, same, signalled⟩

end Death

/-! ### The invariant -/

/-- The parent of every user process in use is in use, and a zombie other than `INIT` has no
children. -/
structure Family (k : Machine) : Prop where
  parents : ∀ p ∈ userSlots, (k.procTable p).inUse = true →
    (getProc k (k.procTable p).parent).isSome = true
  childless : ∀ q ≠ init, (k.procTable q).inUse = true → has (k.procTable q).state .zombie = true →
    ∀ p ∈ userSlots, (k.procTable p).inUse = true → (k.procTable p).parent ≠ q

theorem getProc_isSome {k : Machine} {n : Int} :
    (getProc k n).isSome = true ↔ isProcnOk n = true ∧ (k.procTable n).inUse = true := by
  unfold getProc
  split_ifs with valid used
  · exact iff_of_true rfl ⟨valid, used⟩
  · exact iff_of_false Bool.false_ne_true fun both => used both.2
  · exact iff_of_false Bool.false_ne_true fun both => valid both.1

theorem getProc_kept {k k' : Machine} {n : Int}
    (kept : (k.procTable n).inUse = true → (k'.procTable n).inUse = true)
    (found : (getProc k n).isSome = true) : (getProc k' n).isSome = true := by
  obtain ⟨valid, used⟩ := getProc_isSome.mp found
  exact getProc_isSome.mpr ⟨valid, kept used⟩

namespace Family

variable {k k' : Machine} {who caller child parent : ProcNr} {vforks : Bool} {signum : Nat}

section

variable (family : Family k)
include family

theorem of_kin (used : ∀ c, (k'.procTable c).inUse = (k.procTable c).inUse)
    (zombie : ∀ c, has (k'.procTable c).state .zombie = true → has (k.procTable c).state .zombie = true)
    (parent : ∀ c, (k'.procTable c).parent = (k.procTable c).parent) : Family k' := by
  refine ⟨fun p user usedP => ?_, fun q notInit usedQ dead p user usedP => ?_⟩
  · rw [parent]
    exact getProc_kept (used _).trans (family.parents p user ((used p).symm.trans usedP))
  · rw [parent]
    exact family.childless q notInit ((used q).symm.trans usedQ) (zombie q dead) p user
      ((used p).symm.trans usedP)

theorem sameKin (same : SameKin k k') : Family k' :=
  family.of_kin (fun c => congrArg Kin.inUse (same.proc c))
    (fun c => (congrArg Kin.zombie (same.proc c)).symm.trans) fun c => congrArg Kin.parent (same.proc c)

/-- **A slot is given back.** -/
theorem gaveBack (stays : ((releaseZombie k who).procTable init).inUse = true) :
    Family (releaseZombie k who) := by
  by_cases zombie : has (k.procTable who).state .zombie = true
  · have gone := releaseZombie_inUse zombie
    have notInit : who ≠ init := by
      rintro rfl
      rw [gone] at stays
      cases stays
    have other : ∀ c, ((releaseZombie k who).procTable c).inUse = true → c ≠ who := by
      rintro c used rfl
      rw [gone] at used
      cases used
    have same : ∀ c, ((releaseZombie k who).procTable c).inUse = true →
        (releaseZombie k who).procTable c = k.procTable c := fun c used =>
      releaseZombie_of_ne (other c used)
    refine ⟨fun p user used => ?_, fun q notInit used zombie p user usedP => ?_⟩
    · have kept := same p used
      rw [kept] at used ⊢
      obtain ⟨valid, usedParent⟩ := getProc_isSome.mp (family.parents p user used)
      have alive : (k.procTable p).parent ≠ who := by
        intro isParent
        exact family.childless who notInit (isParent ▸ usedParent) zombie p user used isParent
      refine getProc_isSome.mpr ⟨valid, ?_⟩
      rw [releaseZombie_of_ne alive]
      exact usedParent
    · have keptQ := same q used
      have keptP := same p usedP
      rw [keptQ] at used zombie
      rw [keptP] at usedP ⊢
      exact family.childless q notInit used zombie p user usedP
  · rw [releaseZombie, if_neg zombie]
    exact family

/-- **A process is born.** -/
theorem bore (user : caller ∈ userSlots) (used : (k.procTable caller).inUse = true)
    (alive : has (k.procTable caller).state .zombie = false)
    (born : Born k caller child parent vforks k')
    (known : parent = caller ∨ parent = (k.procTable caller).parent) : Family k' := by
  have free := (freeSlot_eq_some born.taken).2
  have same : ∀ c ≠ child, (k'.procTable c).inUse = (k.procTable c).inUse ∧
      has (k'.procTable c).state .zombie = has (k.procTable c).state .zombie ∧
      (k'.procTable c).parent = (k.procTable c).parent := by
    intro c notChild
    by_cases isCaller : c = caller
    · subst isCaller
      exact ⟨congrArg Kin.inUse born.callerKin, congrArg Kin.zombie born.callerKin,
        congrArg Kin.parent born.callerKin⟩
    · have kin := born.other c notChild isCaller
      exact ⟨congrArg Kin.inUse kin, congrArg Kin.zombie kin, congrArg Kin.parent kin⟩
  have childParent : (k'.procTable child).parent = parent := congrArg Kin.parent born.childKin
  -- whoever was in use has not been in the child's slot
  have stillThere : ∀ n, (getProc k n).isSome = true → (getProc k' n).isSome = true := by
    refine fun n => getProc_kept fun usedN => ?_
    have notChild : n ≠ child := by
      rintro rfl
      rw [free] at usedN
      cases usedN
    exact (same n notChild).1.trans usedN
  have callerThere : (getProc k caller).isSome = true := by
    refine getProc_isSome.mpr ⟨mem_procSlots.mpr ?_, used⟩
    exact (by decide : userSlots ⊆ procSlots) user
  refine ⟨fun p userP usedP => ?_, fun q notInit usedQ zombie p userP usedP => ?_⟩
  · by_cases isChild : p = child
    · subst isChild
      rw [childParent]
      rcases known with rfl | rfl
      · exact stillThere _ callerThere
      · exact stillThere _ (family.parents caller user used)
    · rw [(same p isChild).2.2]
      exact stillThere _ (family.parents p userP ((same p isChild).1.symm.trans usedP))
  · have notChild : q ≠ child := by
      rintro rfl
      have living : has (k'.procTable q).state .zombie = _ := congrArg Kin.zombie born.childKin
      rw [living.trans alive] at zombie
      cases zombie
    have zombieQ := (same q notChild).2.1.symm.trans zombie
    have usedQ := (same q notChild).1.symm.trans usedQ
    by_cases isChild : p = child
    · subst isChild
      rw [childParent]
      rcases known with rfl | rfl
      · rintro rfl
        rw [alive] at zombieQ
        cases zombieQ
      · exact family.childless q notInit usedQ zombieQ caller user used
    · rw [(same p isChild).2.2]
      exact family.childless q notInit usedQ zombieQ p userP ((same p isChild).1.symm.trans usedP)

/-- **A process ends**, and its children are handed over. -/
theorem ended (initUsed : (k.procTable init).inUse = true)
    (kin : ∀ c, (k'.procTable c).kin = bereaved k who parent c) : Family k' := by
  have used : ∀ c, (k'.procTable c).inUse = (k.procTable c).inUse := fun c =>
    congrArg Kin.inUse (kin c)
  have parentOf : ∀ c, (k'.procTable c).parent = heir k who c := fun c => congrArg Kin.parent (kin c)
  refine ⟨fun p user usedP => ?_, fun q notInit usedQ zombie p user usedP => ?_⟩
  · rw [parentOf, heir]
    split_ifs
    · exact getProc_isSome.mpr ⟨by decide, (used _).trans initUsed⟩
    · exact getProc_kept (used _).trans (family.parents p user ((used p).symm.trans usedP))
  · have usedP := (used p).symm.trans usedP
    rw [parentOf, heir]
    split_ifs with orphan
    · exact notInit.symm
    · have dead : (decide (q = who) || has (k.procTable q).state .zombie) = true :=
        (congrArg Kin.zombie (kin q)).symm.trans zombie
      rcases Bool.or_eq_true_iff.mp dead with isWho | before
      · rw [of_decide_eq_true isWho]
        exact fun isParent => orphan ⟨user, usedP, isParent⟩
      · exact family.childless q notInit ((used q).symm.trans usedQ) before p user usedP

theorem caught : Family (catchSig k who signum) := by
  refine family.of_kin (catchSig_field Proc.inUse (fun _ _ _ _ _ _ => rfl) k who signum)
    (fun c zombie => ?_)
    (catchSig_field Proc.parent (fun _ _ _ _ _ _ => rfl) k who signum)
  by_cases same : c = who
  · -- the process can run again, whatever it was
    rw [same, catchSig_state, has_runnable] at zombie
    cases zombie
  · rwa [catchSig_of_ne same] at zombie

end

end Family

/-! ### Steps -/

/-- The step keeps the family if `INIT` is in use before and after. -/
def KeepsFamily (k k' : Machine) : Prop :=
  (k.procTable init).inUse = true → (k'.procTable init).inUse = true → Family k → Family k'

section Steps

variable {k k' : Machine} {who : ProcNr} {signum : Nat} {status : Word}

theorem SameKin.initUsed (same : SameKin k k') :
    (k'.procTable init).inUse = (k.procTable init).inUse := congrArg Kin.inUse (same.proc init)

theorem SameKin.keepsFamily (same : SameKin k k') : KeepsFamily k k' := fun _ _ family =>
  family.sameKin same

theorem KeepsFamily.refl (k : Machine) : KeepsFamily k k := fun _ _ family => family

theorem KeepsFamily.between {first last : Machine} (before : SameKin k first)
    (keeps : KeepsFamily first last) (after : SameKin last k') : KeepsFamily k k' :=
  fun initUsed stays family => (keeps (before.initUsed.trans initUsed)
    (after.initUsed.symm.trans stays) (family.sameKin before)).sameKin after

theorem releaseZombie_keepsFamily : KeepsFamily k (releaseZombie k who) := fun _ stays family =>
  family.gaveBack stays

theorem checkWaiting_keepsFamily (ran : checkWaiting k who = some k') : KeepsFamily k k' := by
  rcases checkWaiting_kin ran with same | ⟨replied, same, rfl⟩
  · exact same.keepsFamily
  · exact .between same releaseZombie_keepsFamily (.refl _)

theorem exitProc_keepsFamily (ran : exitProc k who status signum = some k') : KeepsFamily k k' := by
  obtain ⟨parent, ended, -, kin, after⟩ := exitProc_kin ran
  intro initUsed stays family
  have family := family.ended initUsed kin
  have initUsed : (ended.procTable init).inUse = true :=
    (congrArg Kin.inUse (kin init)).trans initUsed
  rcases after with same | ⟨replied, same, gone⟩
  · exact family.sameKin same
  · exact KeepsFamily.between same releaseZombie_keepsFamily gone initUsed stays family

/-- In an interrupt nobody's kin changes: the end of the process is left to the system task. -/
theorem exitProcInInterrupt_keepsFamily {heap : Option Word} {stack : Word}
    (ran : exitProcInInterrupt heap stack k who status signum = some k') : KeepsFamily k k' := by
  unfold exitProcInInterrupt at ran
  obtain ⟨⟨notified, result⟩, notifying, rfl⟩ := map_eq_some_iff.mp ran
  refine SameKin.keepsFamily (SameView.trans ?_ (doNotify_nudged notifying).kin)
  refine SameView.trans ?_ (SameKin.raise (by decide) (by decide))
  split_ifs
  · exact (Nudged.memory _ _).kin
  · exact .refl k

/-- **Acting on a signal**, whatever the end of a process is. -/
theorem handleSig_keepsFamily {exit : ExitProc}
    (ends : ∀ {k k' who status signum}, exit k who status signum = some k' → KeepsFamily k k')
    (ran : handleSig exit k who signum = some k') : KeepsFamily k k' := by
  unfold handleSig at ran
  dsimp only at ran
  have pending : SameKin k (k.updateProc who fun p =>
      { p with sigPending := sigdelset p.sigPending signum }) := .updateProc rfl
  refine .between pending ?_ (.refl k')
  generalize (k.updateProc who fun p => { p with sigPending := sigdelset p.sigPending signum }) =
    k at ran
  split_ifs at ran
  · unfold defaultAction at ran
    split_ifs at ran
    · cases ran
      refine SameKin.keepsFamily (SameView.trans ?_ (Nudged.enqueueSchedule _ _).kin)
      exact SameKin.lower (by decide) (by decide)
    · cases ran
      exact .refl _
    · obtain ⟨dequeued, taken, ran⟩ := bind_eq_some_iff.mp ran
      have stopped : SameKin k (k.updateProc who fun p =>
          { p with state := raise p.state .stopped, sigStatus := BitVec.ofNat 32 signum }) :=
        .updateProc (kin_state (has_raise_of_ne _ (by decide)) (has_raise_of_ne _ (by decide)))
      exact .between (stopped.trans (Nudged.dequeueSchedule taken).kin) (checkWaiting_keepsFamily ran)
        (.refl k')
    · exact ends ran
  · unfold ignoredAction at ran
    split_ifs at ran
    · exact ends ran
    · split at ran
      · cases ran
        exact releaseZombie_keepsFamily
      · cases ran
        exact .refl _
    · cases ran
      exact .refl _
  · cases ran
    exact fun _ _ family => family.caught

theorem doWaitpid_keepsFamily (mesg : Word) : KeepsFamily k (doWaitpid k who mesg).1 := by
  rcases doWaitpid_kin k who mesg with same | ⟨poked, child, same, reaped⟩
  · exact same.keepsFamily
  · rw [reaped]
    exact .between same releaseZombie_keepsFamily (.refl _)

end Steps

/-! ### Runs -/

/-- What happens in a run: user processes make these calls, the kernel sends a signal, a process acts
on one, and it acts on one in an interrupt. -/
inductive FamilyEvent
  | fork (who : ProcNr) (message : Message) (image : Option ChildImage)
  | vfork (who : ProcNr) (message : Message)
  | exit (who : ProcNr) (message : Message)
  | wait (who : ProcNr) (message : Message)
  | send (who : ProcNr) (signum : Nat)
  | act (who : ProcNr) (signum : Nat)
  | actInInterrupt (who : ProcNr) (signum : Nat) (heap : Option Word) (stack : Word)

/-- A user process makes calls until it ends: a zombie is not scheduled, and `clear_sending_mesg` has
taken it out of every sender queue. -/
def Calls (k : Machine) (who : ProcNr) : Prop :=
  who ∈ userSlots ∧ has (k.procTable who).state .zombie = false

instance (k : Machine) (who : ProcNr) : Decidable (Calls k who) :=
  inferInstanceAs (Decidable (_ ∧ _))

/-- A call of a user process. -/
def call (handler : Machine → ProcNr → Word → Option (Machine × Int)) (k : Machine) (who : ProcNr)
    (message : Message) : Option Machine :=
  if Calls k who then serve handler k who message else none

/-- The handlers behind the events. -/
def familyStep (k : Machine) : FamilyEvent → Option Machine
  | .fork who message image => call (fun k who m => doFork k who m image) k who message
  | .vfork who message => call doVfork k who message
  | .exit who message => call doExit k who message
  | .wait who message => call (fun k who m => some (doWaitpid k who m)) k who message
  | .send who signum => (sendSig k who signum).map Prod.fst
  | .act who signum => handleSig exitProc k who signum
  | .actInInterrupt who signum heap stack => handleSig (exitProcInInterrupt heap stack) k who signum

section Runs

variable {k k' : Machine} {handler : Machine → ProcNr → Word → Option (Machine × Int)} {who : ProcNr}
  {message : Message}

theorem call_eq_some :
    call handler k who message = some k' ↔ Calls k who ∧ serve handler k who message = some k' := by
  unfold call
  split_ifs with calls
  · exact ⟨fun ran => ⟨calls, ran⟩, And.right⟩
  · exact iff_of_false (fun ran => by cases ran) fun both => calls both.1

/-- A call is served: the handler runs in the machine of `takeUp`. -/
theorem call_served (ran : call handler k who message = some k') : ∃ called middle reply,
      called = takeUp k who message ∧ Nudged k called ∧
      (Calls called who ∧ (called.procTable who).inUse = true) ∧
      handler called who k.currMesg = some (middle, reply) ∧ Nudged middle k' := by
  obtain ⟨⟨user, alive⟩, ran⟩ := call_eq_some.mp ran
  obtain ⟨used, middle, reply, handled, nudged⟩ := serve_handled ran
  have called := Nudged.takeUp k who message
  exact ⟨_, middle, reply, rfl, called, ⟨⟨user, (called.has (by decide) who).trans alive⟩,
    (called.inUse who).trans used⟩, handled, nudged⟩

theorem call_keepsFamily (keeps : ∀ {k k' : Machine} {m : Word} {result : Int}, Calls k who →
      (k.procTable who).inUse = true → handler k who m = some (k', result) → KeepsFamily k k')
    (ran : call handler k who message = some k') : KeepsFamily k k' := by
  obtain ⟨called, middle, reply, -, before, ⟨calls, used⟩, handled, after⟩ := call_served ran
  exact .between before.kin (keeps calls used handled) after.kin

/-- **Every event keeps the family.** -/
theorem familyStep_keepsFamily {event : FamilyEvent} (ran : familyStep k event = some k') :
    KeepsFamily k k' := by
  cases event with
  | fork who message image =>
    refine call_keepsFamily (fun calls used handled => ?_) ran
    rcases doFork_born used calls.2 handled with rfl | ⟨child, parent, born, known⟩
    · exact .refl _
    · exact fun _ _ family => family.bore calls.1 used calls.2 born known
  | vfork who message =>
    refine call_keepsFamily (fun calls used handled => ?_) ran
    rcases doVfork_born used handled with ⟨rfl, -⟩ | ⟨child, born⟩
    · exact .refl _
    · exact fun _ _ family => family.bore calls.1 used calls.2 born (.inl rfl)
  | exit who message =>
    refine call_keepsFamily (fun _ _ handled => ?_) ran
    obtain ⟨ended, ending, handled⟩ := bind_eq_some_iff.mp handled
    cases handled
    exact exitProc_keepsFamily ending
  | wait who message =>
    refine call_keepsFamily (fun {called after m result} _ _ handled => ?_) ran
    rw [← show (doWaitpid called who m).1 = after by rw [Option.some.inj handled]]
    exact doWaitpid_keepsFamily m
  | send who signum =>
    obtain ⟨⟨sent, result⟩, sending, rfl⟩ := map_eq_some_iff.mp ran
    exact (sendSig_kin sending).keepsFamily
  | act who signum => exact handleSig_keepsFamily exitProc_keepsFamily ran
  | actInInterrupt who signum heap stack =>
    exact handleSig_keepsFamily exitProcInInterrupt_keepsFamily ran

/-- The machine at the boot: the processes have been set up by `proc_set_default`, so that their parent
is the system task. -/
structure BootFamily (k : Machine) : Prop extends Boot k where
  system : (k.procTable system).inUse = true
  orphans : ∀ p, (k.procTable p).inUse = true → (k.procTable p).parent = Kernel.system

theorem BootFamily.family (boot : BootFamily k) : Family k := by
  refine ⟨fun p _ used => ?_, fun q _ used zombie => ?_⟩
  · rw [boot.orphans p used]
    exact getProc_isSome.mpr ⟨by decide, boot.system⟩
  · rw [boot.toBoot.noZombies q used] at zombie
    cases zombie

/-- **Parents are in use**: in every state that is reached from the boot while `INIT` stays in use, the
parent of every user process in use is a process in use. -/
theorem parents_in_use {events : List FamilyEvent} (boot : BootFamily k)
    (stays : Meets familyStep (fun k _ => (k.procTable init).inUse = true) k events)
    (ran : runFrom familyStep k events = some k') (still : (k'.procTable init).inUse = true) :
    ∀ p ∈ userSlots, (k'.procTable p).inUse = true →
      (getProc k' (k'.procTable p).parent).isSome = true := by
  have kept := runFrom_invariant (fun k => (k.procTable init).inUse = true → Family k)
    (fun _ _ _ inv initUsed ran stays => familyStep_keepsFamily ran initUsed stays (inv initUsed))
    events (fun _ => boot.family) stays ran
  exact (kept still).parents

end Runs

/-- Process 1 forks two children, of which the first forks without success; the first is killed and
reaped, and the slot is taken again. -/
def familyRun : List FamilyEvent :=
  [.fork 1 (oneWord 0) (some childImage), .fork 2 (oneWord 0) none, .act 2 sigkill,
    .wait 1 (oneWord (-1)), .fork 1 (oneWord 0) (some childImage)]

theorem bootFamily_parentOnly : BootFamily parentOnly where
  toBoot := boot_parentOnly
  system := by decide
  orphans _ _ := rfl

/-- The child of the fork that failed has a parent in every state of the run. -/
theorem familyRun_parents : ∃ k', runFrom familyStep parentOnly familyRun = some k' ∧
    (k'.procTable 3).inUse = true ∧ (getProc k' (k'.procTable 3).parent).isSome = true := by
  obtain ⟨k', ran, used, still⟩ := exists_of_any (by decide +kernel :
    (runFrom familyStep parentOnly familyRun).any (fun k' =>
      decide ((k'.procTable 3).inUse = true ∧ (k'.procTable init).inUse = true)) = true)
  exact ⟨k', ran, used, parents_in_use bootFamily_parentOnly (by decide +kernel) ran still 3 (by decide)
    used⟩

end Winix.Kernel
