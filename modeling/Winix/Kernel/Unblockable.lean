/-
**`SIGKILL` and `SIGSTOP` cannot be blocked, caught or ignored.**

A mask reaches `sig_mask` in five ways, one of which installs the `sa_mask` of an action, changed at
the delivery of the signal. So the invariant (`Unblockable`) is about both masks of a process and
about every mask stored in its table of actions.

* `Kept k k'`: wherever the invariant holds in `k`, it holds in `k'`. Every operation that touches
  masks or actions is shown to keep it; the rest leaves `Proc.signals` alone.
* **`kill_and_stop_unblockable`**: the invariant over whole runs from the boot.
-/

import Winix.Kernel.Spawn
import Winix.Kernel.Handle
import Winix.Kernel.Boot

namespace Winix.Kernel

open Lib Function Option

/-! ### Sets without the two signals -/

/-- Neither `SIGKILL` nor `SIGSTOP` is in the set. -/
structure Sparing (set : Word) : Prop where
  kill : hasBit set sigkill = false
  stop : hasBit set sigstop = false

namespace Sparing

variable {set : Word}

theorem zero : Sparing 0#32 := ⟨hasBit_zero _, hasBit_zero _⟩

theorem sigdelset (sparing : Sparing set) (signo : Nat) : Sparing (sigdelset set signo) := by
  have cleared : ∀ bit, hasBit set bit = false → hasBit (clearBit set signo) bit = false := by
    intro bit absent
    by_cases same : bit = signo
    · subst same
      exact hasBit_clearBit_self _ _
    · rw [hasBit_clearBit_of_ne _ same, absent]
  unfold Kernel.sigdelset
  split_ifs
  · exact ⟨cleared _ sparing.kill, cleared _ sparing.stop⟩
  · exact sparing

theorem sigaddset (sparing : Sparing set) {signo : Nat} (notKill : signo ≠ sigkill)
    (notStop : signo ≠ sigstop) : Sparing (sigaddset set signo) := by
  unfold Kernel.sigaddset
  split_ifs
  · refine ⟨?_, ?_⟩
    · rw [hasBit_setBit_of_ne _ notKill.symm, sparing.kill]
    · rw [hasBit_setBit_of_ne _ notStop.symm, sparing.stop]
  · exact sparing

theorem spare (set : Word) : Sparing (spare set) := by
  unfold Kernel.spare Kernel.sigdelset
  rw [if_pos (by decide), if_pos (by decide)]
  refine ⟨?_, hasBit_clearBit_self _ _⟩
  rw [hasBit_clearBit_of_ne _ (by decide), hasBit_clearBit_self]

theorem not_sigismember (sparing : Sparing set) {signo : Nat} (member : sigismember set signo = true)
    (valid : signo ≤ nsig) : signo ≠ sigkill ∧ signo ≠ sigstop := by
  simp only [sigismember, valid, decide_true, Bool.not_true, Bool.false_or] at member
  refine ⟨?_, ?_⟩
  · rintro rfl
    rw [sparing.kill] at member
    cases member
  · rintro rfl
    rw [sparing.stop] at member
    cases member

theorem changeMembers {change : Word → Nat → Word} {blocked : Word}
    (keeps : ∀ blocked signo, Sparing blocked → sigismember set signo = true → signo ≤ nsig →
      Sparing (change blocked signo)) (sparing : Sparing blocked) :
    Sparing (changeMembers change set blocked) := by
  unfold Kernel.changeMembers
  have small : ∀ i ∈ List.range' 1 (nsig - 1), i ≤ nsig := by decide
  generalize List.range' 1 (nsig - 1) = signals at small
  induction signals generalizing blocked with
  | nil => exact sparing
  | cons i rest ih =>
    rw [List.foldl_cons]
    refine ih ?_ fun j later => small j (List.mem_cons_of_mem _ later)
    split_ifs with member
    · exact keeps blocked i sparing member (small i List.mem_cons_self)
    · exact sparing

theorem newMask {how : Int} {mask new : Word} (sparing : Sparing set) (old : Sparing mask)
    (made : newMask how set mask = some new) : Sparing new := by
  unfold Kernel.newMask at made
  split_ifs at made
  · cases made
    exact sparing
  · cases made
    refine changeMembers (fun blocked signo free member valid => ?_) old
    obtain ⟨notKill, notStop⟩ := sparing.not_sigismember member valid
    exact free.sigaddset notKill notStop
  · cases made
    exact changeMembers (fun blocked signo free _ _ => free.sigdelset signo) old

end Sparing

/-! ### The invariant -/

/-- Two masks and a table of actions, the masks stored in it included, spare the two signals, whose
action is the default one. -/
structure Spared (mask mask2 : Word) (table : Nat → SigAction) : Prop where
  mask : Sparing mask
  mask2 : Sparing mask2
  actions : ∀ signum, Sparing (table signum).mask
  kill : (table sigkill).handler = sigDfl
  stop : (table sigstop).handler = sigDfl

/-- The two signals cannot be blocked, caught or ignored by a process, now or by an action of its. -/
def Unblockable (p : Proc) : Prop := Spared p.sigMask p.sigMask2 p.sigTable

namespace Spared

variable {mask mask2 : Word} {table : Nat → SigAction} {signum : Nat} {act : SigAction}

theorem install (spared : Spared mask mask2 table) (notKill : signum ≠ sigkill)
    (notStop : signum ≠ sigstop) (sparing : Sparing act.mask) :
    Spared mask mask2 (update table signum act) := by
  refine ⟨spared.mask, spared.mask2, fun other => ?_, ?_, ?_⟩
  · by_cases same : other = signum
    · subst same
      rwa [update_self]
    · rw [update_of_ne same]
      exact spared.actions other
  · rw [update_of_ne notKill.symm]
    exact spared.kill
  · rw [update_of_ne notStop.symm]
    exact spared.stop

theorem masks (spared : Spared mask mask2 table) {new new2 : Word} (first : Sparing new)
    (second : Sparing new2) : Spared new new2 table :=
  ⟨first, second, spared.actions, spared.kill, spared.stop⟩

end Spared

theorem unblockable_congr {p q : Proc} (same : p.signals = q.signals) :
    Unblockable p ↔ Unblockable q := by
  simp only [Proc.signals, Prod.mk.injEq] at same
  rw [Unblockable, Unblockable, same.1, same.2.1, same.2.2]

/-- What holds of every process in `k` holds of every process in `k'`. -/
def Kept (k k' : Machine) : Prop :=
  (∀ p, Unblockable (k.procTable p)) → ∀ p, Unblockable (k'.procTable p)

namespace Kept

variable {k k' k'' : Machine}

theorem refl (k : Machine) : Kept k k := fun inv => inv

theorem trans (first : Kept k k') (second : Kept k' k'') : Kept k k'' := fun inv => second (first inv)

theorem of_sameView (same : SameView Proc.signals k k') : Kept k k' := fun inv p =>
  (unblockable_congr (same.proc p)).mpr (inv p)

theorem of_outlived (same : Outlived k k') : Kept k k' := of_sameView (same.coarsen fun _ => rfl)

theorem of_nudged (same : Nudged k k') : Kept k k' := of_outlived same.outlived

theorem memory (k : Machine) (memory : Memory) : Kept k { k with memory := memory } :=
  of_nudged (Nudged.memory k memory)

theorem poke (k : Machine) (address value : Word) : Kept k (k.poke address value) := memory k _

theorem updateProc {who : ProcNr} {change : Proc → Proc}
    (keeps : Unblockable (k.procTable who) → Unblockable (change (k.procTable who))) :
    Kept k (k.updateProc who change) := by
  intro inv p
  by_cases same : p = who
  · subst same
    rw [Machine.updateProc_same]
    exact keeps (inv p)
  · rw [Machine.updateProc_of_ne same]
    exact inv p

theorem install {who : ProcNr} {signum : Nat} {act : SigAction} (notKill : signum ≠ sigkill)
    (notStop : signum ≠ sigstop) (sparing : Sparing act.mask) :
    Kept k (k.updateProc who fun p => { p with sigTable := update p.sigTable signum act }) :=
  updateProc fun inv => inv.install notKill notStop sparing

theorem spawned {parent child : ProcNr} (spawned : Spawned k parent child k') : Kept k k' := by
  intro inv p
  by_cases same : p = child
  · subst same
    exact (unblockable_congr spawned.signals).mpr (inv parent)
  · have view : ∀ p : Proc, p.roused.signals = p.signals := fun _ => rfl
    refine (unblockable_congr ?_).mpr (inv p)
    rw [← view, spawned.other p same, view]

end Kept

/-! ### Delivery -/

section Delivery

variable {k k' : Machine} {who : ProcNr} {signum : Nat}

theorem copytoUserStack_kept (len : Nat) (words : Nat → Word) :
    Kept k (copytoUserStack k who len words) := by
  unfold copytoUserStack
  exact Kept.trans (Kept.memory k _) (.updateProc fun inv => inv)

/-- The handler runs under the mask of its action, the old mask is kept for `sigreturn`. -/
theorem buildSignalCtx_kept : Kept k (buildSignalCtx k who signum) := by
  unfold buildSignalCtx
  refine Kept.trans ?_ (.updateProc fun inv => inv.masks (inv.actions signum) inv.mask)
  exact (copytoUserStack_kept _ _).trans (copytoUserStack_kept _ _)

theorem catchSig_kept (caught : ((k.procTable who).sigTable signum).handler ≠ sigDfl) :
    Kept k (catchSig k who signum) := by
  intro inv
  have notKill : signum ≠ sigkill := by
    rintro rfl
    exact caught (inv who).kill
  have notStop : signum ≠ sigstop := by
    rintro rfl
    exact caught (inv who).stop
  have sparing : Sparing (if hasBit ((k.procTable who).sigTable signum).flags saNodefer
      then sigaddset ((k.procTable who).sigTable signum).mask signum
      else sigdelset ((k.procTable who).sigTable signum).mask signum) := by
    split_ifs
    · exact ((inv who).actions signum).sigaddset notKill notStop
    · exact ((inv who).actions signum).sigdelset signum
  by_cases oneShot : hasBit ((k.procTable who).sigTable signum).flags saResethand = true
  · simp only [catchSig, if_pos oneShot]
    refine Kept.install notKill notStop ?_ (buildSignalCtx_kept (Kept.install notKill notStop ?_ inv))
    all_goals exact sparing
  · simp only [catchSig, if_neg oneShot]
    refine buildSignalCtx_kept (Kept.install notKill notStop ?_ inv)
    exact sparing

/-- **Acting on signals keeps the two signals out of every mask.** -/
theorem kept_closed : Closed exitProc Kept :=
  ⟨Kept.trans, Kept.of_outlived, fun ran => .of_outlived (exitProc_outlived ran), catchSig_kept⟩

end Delivery

/-! ### System calls -/

section Calls

variable {k k' : Machine} {who : ProcNr} {m : Word} {result : Int} {isVaddrOk : AddressCheck}

/-- **`sys_sigaction` installs no action for the two signals**, and no mask with them. -/
theorem sysSigaction_kept (signum : Int) (act : Word) (oact : Option Word) (restorer : Word) :
    Kept k (sysSigaction k who signum act oact restorer).1 := by
  unfold sysSigaction
  split_ifs with invalid reserved
  · exact .refl k
  · exact .refl k
  · exact .refl k
  · have dropped : Kept k (dropIgnored k who signum.toNat act) := by
      unfold dropIgnored
      split_ifs
      · exact .updateProc fun inv => inv
      · exact .refl k
    have copied : ∀ k : Machine, Kept k (copyOut k who signum.toNat oact) := by
      intro k
      unfold copyOut
      split
      · exact .refl k
      · exact .memory _ _
    rw [not_or] at reserved
    dsimp only
    refine (dropped.trans (copied _)).trans (Kept.trans (.poke _ _ _) (.updateProc fun inv => ?_))
    refine Spared.install inv reserved.1 reserved.2 ?_
    have spared : ∀ (k : Machine) (value : Word),
        (readSigaction (k.poke (act + 1) value).memory act).mask = value := fun _ _ =>
      update_self _ _ _
    rw [spared]
    exact Sparing.spare _

theorem doSigaction_kept : Kept k (doSigaction isVaddrOk k who m).1 := by
  unfold doSigaction
  dsimp only
  split_ifs <;> first | exact .refl k | exact sysSigaction_kept _ _ _ _

theorem doSignal_kept (sa oldsa : Word) : Kept k (doSignal sa oldsa k who m).1 := by
  unfold doSignal
  dsimp only
  split_ifs <;> exact Kept.trans (.memory k _) (sysSigaction_kept _ _ _ _)

theorem doSigprocmask_kept : Kept k (doSigprocmask isVaddrOk k who m).1 := by
  unfold doSigprocmask
  dsimp only
  split_ifs
  · exact .refl k
  · split
    · exact .poke k _ _
    · rename_i mask made
      dsimp only
      refine Kept.trans (.poke k _ _) (.updateProc fun inv => ?_)
      exact Spared.masks inv (Sparing.newMask (Sparing.spare _) inv.mask made) inv.mask2

theorem doSigsuspend_kept : Kept k (doSigsuspend k who m).1 := by
  unfold doSigsuspend
  have masked : Kept k (k.updateProc who fun p =>
      { p with sigMask2 := p.sigMask, sigMask := spare (k.memory (m + 2)) }) :=
    .updateProc fun inv => inv.masks (Sparing.spare _) inv.mask
  dsimp only
  split_ifs
  · exact masked
  · dsimp only
    exact masked.trans (.updateProc fun inv => inv)

theorem abortOrGoOn_kept {signum : Int} (ran : abortOrGoOn k who signum = some k') : Kept k k' := by
  unfold abortOrGoOn at ran
  split_ifs at ran
  · obtain ⟨⟨sent, result⟩, sending, rfl⟩ := map_eq_some_iff.mp ran
    refine Kept.trans ?_ (.of_outlived (sendSig_roused sending).outlived)
    exact .updateProc fun inv => inv.install (by decide) (by decide) (inv.actions sigabrt)
  · cases ran
    exact .of_nudged (Nudged.enqueueSchedule _ _)
  · cases ran
    exact .refl k

theorem sigreturnResult_kept (ran : sigreturnResult k who m = some (k', result)) : Kept k k' := by
  obtain ⟨gone, going, ran⟩ := bind_eq_some_iff.mp ran
  have back : Kept k (takeBack k who) := .updateProc fun inv => inv.masks inv.mask2 inv.mask2
  refine (back.trans (abortOrGoOn_kept going)).trans ?_
  split_ifs at ran
  · cases ran
    exact .updateProc fun inv => inv
  · cases ran
    exact .refl _

theorem serve_kept {handler : Machine → ProcNr → Word → Option (Machine × Int)} {message : Message}
    (keeps : ∀ {k k' : Machine} {result : Int}, (k.procTable who).inUse = true →
      handler k who k.currMesg = some (k', result) → Kept k k')
    (ran : serve handler k who message = some k') : Kept k k' := by
  obtain ⟨used, middle, reply, handled, nudged⟩ := serve_handled ran
  have called := Nudged.takeUp k who message
  rw [← called.currMesg] at handled
  exact (Kept.of_nudged called).trans
    ((keeps ((called.inUse who).trans used) handled).trans (.of_nudged nudged))

theorem serve_kept_total {handler : Machine → ProcNr → Word → Machine × Int} {message : Message}
    (keeps : ∀ k : Machine, Kept k (handler k who k.currMesg).1)
    (ran : serve (fun k who m => some (handler k who m)) k who message = some k') : Kept k k' := by
  refine serve_kept (fun {called after reply} _ handled => ?_) ran
  rw [← show (handler called who called.currMesg).1 = after by rw [Option.some.inj handled]]
  exact keeps called

end Calls

/-! ### Runs -/

/-- What happens in a run: the running process computes, system calls are served, the kernel sends a
signal, a blocked process acts on one (`sys_kill` makes it), and the scheduler runs. -/
inductive SignalEvent
  | compute (regs : Nat → Word) (sp : Word) (stores : List (Word × Word))
  | sigaction (who : ProcNr) (message : Message)
  | signal (who : ProcNr) (sa oldsa : Word) (message : Message)
  | sigprocmask (who : ProcNr) (message : Message)
  | sigsuspend (who : ProcNr) (message : Message)
  | sigreturn (who : ProcNr) (message : Message)
  | kill (who : ProcNr) (message : Message)
  | fork (who : ProcNr) (message : Message) (image : Option ChildImage)
  | vfork (who : ProcNr) (message : Message)
  | send (who : ProcNr) (signum : Nat)
  | deliver (who : ProcNr)
  | sched

/-- The handlers behind the events. -/
def signalStep (isVaddrOk : AddressCheck) (k : Machine) : SignalEvent → Option Machine
  | .compute regs sp stores => compute k regs sp stores
  | .sigaction who message => serve (fun k who m => some (doSigaction isVaddrOk k who m)) k who message
  | .signal who sa oldsa message =>
    serve (fun k who m => some (doSignal sa oldsa k who m)) k who message
  | .sigprocmask who message =>
    serve (fun k who m => some (doSigprocmask isVaddrOk k who m)) k who message
  | .sigsuspend who message => serve (fun k who m => some (doSigsuspend k who m)) k who message
  | .sigreturn who message => serve sigreturnResult k who message
  | .kill who message => serve (doKill exitProc) k who message
  | .fork who message image => serve (fun k who m => doFork k who m image) k who message
  | .vfork who message => serve doVfork k who message
  | .send who signum => (sendSig k who signum).map Prod.fst
  | .deliver who => handlePendingsig exitProc k who
  | .sched => sched exitProc k

section Runs

variable {k k' : Machine} {isVaddrOk : AddressCheck}

theorem compute_kept {regs : Nat → Word} {sp : Word} {stores : List (Word × Word)}
    (ran : compute k regs sp stores = some k') : Kept k k' := by
  unfold compute at ran
  split at ran
  · cases ran
  · cases ran
    exact Kept.trans (.updateProc fun inv => inv) (.memory _ _)

/-- **Every event keeps the two signals out of every mask.** -/
theorem signalStep_kept {event : SignalEvent} (ran : signalStep isVaddrOk k event = some k') :
    Kept k k' := by
  unfold signalStep at ran
  cases event with
  | compute regs sp stores => exact compute_kept ran
  | sigaction who message => exact serve_kept_total (fun _ => doSigaction_kept) ran
  | signal who sa oldsa message => exact serve_kept_total (fun _ => doSignal_kept sa oldsa) ran
  | sigprocmask who message => exact serve_kept_total (fun _ => doSigprocmask_kept) ran
  | sigsuspend who message => exact serve_kept_total (fun _ => doSigsuspend_kept) ran
  | sigreturn who message => exact serve_kept (fun _ handled => sigreturnResult_kept handled) ran
  | kill who message => exact serve_kept (fun _ handled => kept_closed.sysKill handled) ran
  | fork who message image =>
    refine serve_kept (fun used handled => ?_) ran
    rcases doFork_spawned used handled with rfl | ⟨child, spawned⟩
    · exact .refl _
    · exact .spawned spawned
  | vfork who message =>
    refine serve_kept (fun used handled => ?_) ran
    rcases doVfork_spawned used handled with rfl | ⟨child, spawned⟩
    · exact .refl _
    · exact .spawned spawned
  | send who signum =>
    obtain ⟨⟨sent, result⟩, sending, rfl⟩ := map_eq_some_iff.mp ran
    exact .of_outlived (sendSig_roused sending).outlived
  | deliver who => exact kept_closed.handlePendingsig ran
  | sched => exact kept_closed.sched ran

/-- Every process has the masks and actions of `proc_set_default`. -/
def DefaultSignals (k : Machine) : Prop :=
  ∀ p, (k.procTable p).signals = (defaultProc p).signals

theorem DefaultSignals.unblockable (start : DefaultSignals k) (p : ProcNr) :
    Unblockable (k.procTable p) :=
  (unblockable_congr (start p)).mpr ⟨.zero, .zero, fun _ => .zero, rfl, rfl⟩

/-- **`SIGKILL` and `SIGSTOP` are in no mask and have their default action**, for every process in
every state that system calls and signals reach from the boot. -/
theorem kill_and_stop_unblockable {events : List SignalEvent} (start : DefaultSignals k)
    (ran : runFrom (signalStep isVaddrOk) k events = some k') (p : ProcNr) :
    (hasBit (k'.procTable p).sigMask sigkill = false ∧
      hasBit (k'.procTable p).sigMask sigstop = false) ∧
    (hasBit (k'.procTable p).sigMask2 sigkill = false ∧
      hasBit (k'.procTable p).sigMask2 sigstop = false) ∧
    ((k'.procTable p).sigTable sigkill).handler = sigDfl ∧
    ((k'.procTable p).sigTable sigstop).handler = sigDfl := by
  have always : Meets (signalStep isVaddrOk) (fun _ _ => True) k events :=
    Meets.of_forall (fun _ _ => trivial) events k
  have inv := runFrom_invariant (fun k => ∀ p, Unblockable (k.procTable p))
    (fun _ _ _ inv _ ran => signalStep_kept ran inv) events start.unblockable always ran p
  exact ⟨⟨inv.mask.kill, inv.mask.stop⟩, ⟨inv.mask2.kill, inv.mask2.stop⟩, inv.kill, inv.stop⟩

/-- The system task and process 1, as `proc_set_default` leaves their masks and actions. -/
def signalMachine : Machine :=
  let k := stacked [0, 1] []
  { k with procTable := fun p => { k.procTable p with sigTable := (defaultProc p).sigTable } }

/-- Process 1 blocks every signal it can, installs a handler for signal 2, takes all of them but that
one out of its mask again, and signal 2 is delivered. -/
def signalRun : List SignalEvent :=
  [.sigprocmask 1 ⟨0, 0, 2, -1, 0, 0, 0, 0⟩, .signal 1 600 603 ⟨0, 0, 2, 0x100, 0, 0, 0, 0⟩,
    .sigprocmask 1 ⟨0, 0, 1, -1, 0, 0, 0, 0⟩, .send 1 2, .deliver 1]

/-- In a run that blocks signals in three ways the two signals stay deliverable. -/
theorem signalRun_unblockable :
    ∃ k', runFrom (signalStep fun _ _ _ => true) signalMachine signalRun = some k' ∧
      (k'.procTable 1).sigMask ≠ 0#32 ∧
      hasBit (k'.procTable 1).sigMask sigkill = false ∧
      hasBit (k'.procTable 1).sigMask sigstop = false := by
  obtain ⟨k', ran, blocked⟩ := exists_of_any (by decide +kernel :
    (runFrom (signalStep fun _ _ _ => true) signalMachine signalRun).any (fun k' =>
      decide ((k'.procTable 1).sigMask ≠ 0#32)) = true)
  exact ⟨k', ran, blocked, (kill_and_stop_unblockable (fun _ => rfl) ran 1).1⟩

end Runs

end Winix.Kernel
