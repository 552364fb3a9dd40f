/-
**Open-file counts.**

A slot of `fd_table` counts the descriptors that point to it. The difference between the two (`gap`)
is kept by every call, `fork` and `exit`, except when a descriptor of a terminal is closed: `tty_close`
does not count down.

* `fileStep_gap`: one event.
* **`filp_counts_exact`**: in every state of every run in which no descriptor of a terminal is closed
  (`NoTtyClosed`), the count of every slot but the two of the boot is the number of its descriptors.
* `tty_close_leaks`: the slot of a closed terminal is never free again.
-/

import Winix.Fs.Gaps
import Winix.Fs.Makefs

namespace Winix.Fs

open Kernel Lib Function Prog

section Descriptors

variable {w w' : Files} {who : ProcNr} {f : FilpNr} {fd : Fd}
variable {a : PUnit}

/-! ### Zombies -/

/-- What a call of `who` leaves alone: who is in use, who is a zombie, the descriptors of others. -/
def Files.outside (who : ProcNr) (w : Files) (p : ProcNr) : Bool × Bool × (Fd → Option FilpNr) :=
  ((w.procs p).inUse, (w.procs p).zombie, if p = who then fun _ => none else (w.procs p).fpFilp)

theorem outside_of_tables (same : ∀ p, (w'.procs p).table = (w.procs p).table) :
    w'.outside who = w.outside who := by
  funext p
  obtain ⟨used, zombie, fds⟩ : (w'.procs p).inUse = (w.procs p).inUse ∧
      (w'.procs p).zombie = (w.procs p).zombie ∧ (w'.procs p).fpFilp = (w.procs p).fpFilp := by
    simpa only [FsProc.table, Prod.mk.injEq] using same p
  rw [Files.outside, Files.outside, used, zombie, fds]

/-- What keeps the books keeps the other processes. -/
theorem keeps_outside {α : Type} {x : FilesM α} (kept : Keeps Files.book x) :
    Keeps (Files.outside who) x :=
  fun w a w' ran => outside_of_tables (table_of_book (kept w a w' ran))

theorem updateFilp_outside {change : Filp → Filp} : Keeps (Files.outside who) (updateFilp f change) :=
  Keeps.modify fun _ => rfl

theorem setFd_outside {file : Option FilpNr} : Keeps (Files.outside who) (setFd who fd file) := by
  refine Keeps.modify fun w => funext fun p => ?_
  by_cases here : p = who
  · subst here
    simp only [Files.outside, update_self, if_pos]
  · simp only [Files.outside, update_of_ne here, if_neg here]

theorem onVolume_outside {α : Type} {x : VolM α} : Keeps (Files.outside who) (onVolume x) :=
  keeps_outside onVolume_book

theorem readFsProc_outside : Keeps (Files.outside who) (readFsProc who) :=
  keeps_outside readFsProc_book

theorem getFd_outside : Keeps (Files.outside who) (getFd who) := by
  intro w result w' ran
  exact outside_of_tables fun p => by rw [(getFd_got ran).procs]

theorem closeFilp_outside : Keeps (Files.outside who) (closeFilp f) :=
  fun w ret w' ran => outside_of_tables fun p => by rw [closeFilp_procs w ret w' ran]

theorem sysClose_outside {fd : Int} : Keeps (Files.outside who) (sysClose who fd) := by
  refine readFsProc_outside.bind fun p => ?_
  cases fdOpened p fd with
  | none => exact .pure
  | some slot => exact closeFilp_outside.bind fun ret => .ite .pure (setFd_outside.bind fun _ => .pure)

theorem shareFilp_outside : Keeps (Files.outside who) (shareFilp who fd f) :=
  setFd_outside.bind fun _ => updateFilp_outside.bind fun _ => .pure

theorem initFilpByInode_outside {inode : InodeNr} :
    Keeps (Files.outside who) (initFilpByInode f inode) :=
  onVolume_outside.bind fun _ => updateFilp_outside

theorem openFilp_outside {flags : Word} {inode : InodeNr} :
    Keeps (Files.outside who) (openFilp who flags fd f inode) := by
  refine Keeps.bind (.ite onVolume_outside .pure) fun _ => initFilpByInode_outside.bind fun _ => ?_
  refine onVolume_outside.bind fun ino => updateFilp_outside.bind fun _ => ?_
  exact setFd_outside.bind fun _ => Keeps.ofOption.bind fun _ => .pure

theorem sysOpen_outside {path : List Word} {flags mode : Word} :
    Keeps (Files.outside who) (sysOpen who path flags mode) := by
  have device : getDev rootDev = some .rootfs := by decide
  rw [sysOpen, sysOpenDev, device]
  refine (keeps_outside eatPathOf_book).bind fun eaten => .ite .pure ?_
  refine Keeps.bind ?_ fun ret => onVolume_outside.bind fun _ => .pure
  refine (keeps_outside openInode_book).bind fun found => ?_
  cases found with
  | error => exact .pure
  | ok inode =>
    refine getFd_outside.bind fun result => ?_
    cases result with
    | error => exact .pure
    | ok slot => exact Keeps.ofOption.bind fun _ => openFilp_outside

theorem sysDup_outside {oldfd : Int} : Keeps (Files.outside who) (sysDup who oldfd) := by
  refine readFsProc_outside.bind fun p => ?_
  cases fdOpened p oldfd with
  | none => exact .pure
  | some slot =>
    refine getFd_outside.bind fun result => ?_
    cases result with
    | error => exact .pure
    | ok free => exact shareFilp_outside

theorem sysDup2_outside {oldfd newfd : Int} : Keeps (Files.outside who) (sysDup2 who oldfd newfd) := by
  have onto : ∀ old new, Keeps (Files.outside who) (dupOnto who old new) := fun old new =>
    readFsProc_outside.bind fun p => Keeps.ofOption.bind fun _ => shareFilp_outside
  refine readFsProc_outside.bind fun p => ?_
  cases fdOpened p oldfd with
  | none => exact .pure
  | some slot =>
    cases fdIndex newfd with
    | none => exact .pure
    | some new =>
      refine getFd_outside.bind fun result => ?_
      cases result with
      | error => exact .pure
      | ok free =>
        refine readFsProc_outside.bind fun p => .ite (onto _ _) ?_
        exact sysClose_outside.bind fun ret => .ite .pure (onto _ _)

theorem sysPipe_outside {page block : Bool} : Keeps (Files.outside who) (sysPipe who page block) := by
  have ends : ∀ mode inode fd f, Keeps (Files.outside who) (pipeEnd who mode inode fd f) :=
    fun mode inode fd f => updateFilp_outside.bind fun _ => initFilpByInode_outside.bind fun _ =>
      setFd_outside
  refine .ite .pure (onVolume_outside.bind fun found => ?_)
  cases found with
  | none => exact .pure
  | some inode =>
    refine onVolume_outside.bind fun _ => Keeps.bind ?_ fun num => onVolume_outside.bind fun _ => ?_
    · exact keeps_outside getNextIno_book
    refine getFd_outside.bind fun result => ?_
    cases result with
    | error => exact onVolume_outside.bind fun _ => .pure
    | ok first =>
      refine (ends _ _ _ _).bind fun _ => getFd_outside.bind fun result => ?_
      cases result with
      | error =>
        exact setFd_outside.bind fun _ => updateFilp_outside.bind fun _ =>
          onVolume_outside.bind fun _ => .pure
      | ok second => exact (ends _ _ _ _).bind fun _ => .pure

theorem outside_of_ne {p : ProcNr} (same : w'.outside who p = w.outside who p) (other : p ≠ who) :
    (w'.procs p).zombie = (w.procs p).zombie ∧ (w'.procs p).fpFilp = (w.procs p).fpFilp := by
  simpa only [Files.outside, if_neg other, Prod.mk.injEq] using And.right (Prod.mk.inj same)

/-- A call of a living process opens no file of a zombie. -/
theorem ZombiesClosed.outside (closed : ZombiesClosed w) (alive : (w.procs who).zombie = false)
    (same : w'.outside who = w.outside who) : ZombiesClosed w' := by
  intro p dead fd
  have view := congrFun same p
  have other : p ≠ who := by
    rintro rfl
    have zombie : (w'.procs p).zombie = (w.procs p).zombie := congrArg (fun seen => seen.2.1) view
    rw [zombie, alive] at dead
    cases dead
  obtain ⟨zombie, fds⟩ := outside_of_ne view other
  rw [zombie] at dead
  rw [fds]
  exact closed p dead fd

theorem shareAll_procs {fds : List Fd} (ran : shareAll who fds w = some (a, w')) :
    w'.procs = w.procs := by
  induction fds generalizing w with
  | nil =>
    cases ran
    rfl
  | cons fd fds ih =>
    rw [shareAll, bind_run readFsProc_run] at ran
    cases held : (w.procs who).fpFilp fd with
    | none =>
      rw [held] at ran
      exact ih ran
    | some f =>
      rw [held] at ran
      obtain ⟨_, w₁, counted, ran⟩ := bind_eq_some.mp ran
      exact (ih ran).trans (updateFilp_procs counted)

section

variable (closed : ZombiesClosed w)
include closed

theorem ZombiesClosed.updateFsProc {change : FsProc → FsProc}
    (here : (change (w.procs who)).zombie = true → ∀ fd, (change (w.procs who)).fpFilp fd = none)
    (ran : updateFsProc who change w = some (a, w')) : ZombiesClosed w' := by
  cases ran
  intro p
  show (update w.procs who (change (w.procs who)) p).zombie = true → _
  by_cases same : p = who
  · subst same
    intro dead fd
    show (update w.procs p _ p).fpFilp fd = none
    rw [update_self] at dead ⊢
    exact here dead fd
  · intro dead fd
    show (update w.procs who _ p).fpFilp fd = none
    rw [update_of_ne same] at dead ⊢
    exact closed p dead fd

theorem ZombiesClosed.of_procs (same : w'.procs = w.procs) : ZombiesClosed w' := by
  unfold ZombiesClosed
  rw [same]
  exact closed

theorem forkFiles_zombies (alive : (w.procs who).zombie = false)
    (ran : forkFiles who w = some (a, w')) : ZombiesClosed w' := by
  unfold forkFiles at ran
  rw [get_bind] at ran
  cases found : freeFsProc w with
  | none =>
    rw [found] at ran
    cases ran
    exact closed
  | some child =>
    rw [found] at ran
    obtain ⟨_, w₁, copied, ran⟩ := bind_eq_some.mp ran
    refine (closed.updateFsProc (fun dead => ?_) copied).of_procs (shareAll_procs ran)
    exact absurd (alive.symm.trans dead) (by decide)

theorem reapFiles_zombies (ran : reapFiles who w = some (a, w')) : ZombiesClosed w' := by
  rw [reapFiles, bind_run readFsProc_run] at ran
  split_ifs at ran with zombie
  · refine closed.updateFsProc (fun dead => ?_) ran
    cases dead
  · cases ran
    exact closed

end

theorem closeAll_outside {fds : List Fd} : Keeps (Files.outside who) (closeAll who fds) := by
  induction fds with
  | nil => exact .pure
  | cons fd fds ih =>
    refine readFsProc_outside.bind fun p => ?_
    cases p.fpFilp fd with
    | none => exact ih
    | some f => exact closeFilp_outside.bind fun _ => setFd_outside.bind fun _ => ih

theorem exitFiles_zombies (closed : ZombiesClosed w) {waited : Bool}
    (ran : exitFiles who waited w = some (a, w')) : ZombiesClosed w' := by
  obtain ⟨_, w₁, died, ran⟩ := bind_eq_some.mp ran
  obtain ⟨_, w₂, closing, ran⟩ := bind_eq_some.mp ran
  obtain ⟨p, w₃, read, ran⟩ := bind_eq_some.mp ran
  obtain ⟨_, w₄, put, ran⟩ := bind_eq_some.mp ran
  obtain ⟨_, w₅, put', ran⟩ := bind_eq_some.mp ran
  have tables := (onVolume_tables w₄ _ w₅ put').trans
    ((onVolume_tables w₃ _ w₄ put).trans (readFsProc_tables w₂ _ w₃ read))
  have closed₂ : ZombiesClosed w₂ := by
    intro q dead fd
    by_cases same : q = who
    · rw [same]
      exact closeAll_clears closing fd (.inl (List.mem_finRange fd))
    · obtain ⟨zombie, fds⟩ := outside_of_ne (congrFun (closeAll_outside w₁ _ w₂ closing) q) same
      rw [fds]
      cases died
      rw [zombie] at dead
      have unchanged : update w.procs who { w.procs who with zombie := true } q = w.procs q :=
        update_of_ne same ..
      show (update w.procs who _ q).fpFilp fd = none
      rw [unchanged]
      refine closed q ?_ fd
      rw [← unchanged]
      exact dead
  have closed₅ := closed₂.of_procs (procs_of_tables tables)
  split_ifs at ran with reaped
  · exact reapFiles_zombies closed₅ ran
  · cases ran
    exact closed₅

end Descriptors

/-! ### Every run -/

/-- No descriptor of a terminal is closed. -/
def NoTtyClosed (w : Files) : FileEvent → Prop
  | .close who fd =>
    ∀ slot, fdOpened (w.procs who) fd = some slot → ¬ isTty (w.fdTable slot.2).filpDev
  | .dup2 who oldfd newfd =>
    (fdOpened (w.procs who) oldfd).isSome → (∃ fd, (w.procs who).fpFilp fd = none) →
      (∃ f, (w.fdTable f).filpCount = 0) → ∀ slot, fdOpened (w.procs who) newfd = some slot →
      ¬ isTty (w.fdTable slot.2).filpDev
  | .exit who _ => ∀ fd f, (w.procs who).fpFilp fd = some f → ¬ isTty (w.fdTable f).filpDev
  | _ => True

section Runs

variable {w w' : Files}
variable {event : FileEvent}

/-- **A step** is a call of a process that may make it. -/
theorem fileStep_eq_some (ran : fileStep w event = some w') :
    Active w event.who ∧ ((w.procs event.who).zombie = false ∨ event.befallsZombies = true) ∧
      event.run w = some (⟨⟩, w') := by
  unfold fileStep at ran
  dsimp only at ran
  split_ifs at ran with able
  obtain ⟨⟨_, _⟩, done, rfl⟩ := Option.map_eq_some_iff.mp ran
  refine ⟨⟨able.1, able.2.1⟩, able.2.2.imp_left fun alive => ?_, done⟩
  simpa using alive

theorem ran_of_ignored {α : Type} {x : FilesM α}
    (ran : (do let _ ← x : FilesM PUnit) w = some (⟨⟩, w')) :
    ∃ a, x w = some (a, w') := by
  obtain ⟨a, middle, ran, done⟩ := bind_eq_some.mp ran
  cases done
  exact ⟨a, ran⟩

/-- **One event keeps every gap.** -/
theorem fileStep_gap (zombies : ZombiesClosed w) (noTty : NoTtyClosed w event)
    (ran : fileStep w event = some w') : gap w' = gap w := by
  obtain ⟨active, -, ran⟩ := fileStep_eq_some ran
  have ignored : ∀ {x : FilesM Int}, Keeps Files.book x →
    (do let _ ← x : FilesM PUnit) w = some (⟨⟩, w') →
      gap w' = gap w := fun kept ran =>
    have ⟨a, ran⟩ := ran_of_ignored ran
    gap_of_book (kept w a w' ran)
  cases event with
  | openFile who path flags mode =>
    obtain ⟨_, ran⟩ := ran_of_ignored ran
    exact sysOpen_gap active ran
  | close who fd =>
    obtain ⟨_, ran⟩ := ran_of_ignored ran
    exact sysClose_gap active noTty ran
  | dup who oldfd =>
    obtain ⟨_, ran⟩ := ran_of_ignored ran
    exact sysDup_gap active ran
  | dup2 who oldfd newfd =>
    obtain ⟨_, ran⟩ := ran_of_ignored ran
    exact sysDup2_gap active noTty ran
  | pipe who page block =>
    obtain ⟨_, ran⟩ := ran_of_ignored ran
    exact sysPipe_gap active ran
  | link => exact ignored sysLink_book ran
  | unlink => exact ignored sysUnlink_book ran
  | chdir => exact ignored sysChdir_book ran
  | mkdir => exact ignored sysMkdir_book ran
  | mknod => exact ignored sysMknod_book ran
  | stat => exact ignored sysStat_book ran
  | access => exact ignored sysAccess_book ran
  | statfs => exact ignored sysStatfs_book ran
  | getcwd => exact ignored sysGetcwd_book ran
  | fork who => exact forkFiles_gap ran
  | exit who waited => exact exitFiles_gap active noTty ran
  | wait child => exact reapFiles_gap active.slot (zombies child) ran

/-- No step opens a file of a zombie. -/
theorem fileStep_zombies (zombies : ZombiesClosed w) (ran : fileStep w event = some w') :
    ZombiesClosed w' := by
  obtain ⟨active, alive, ran⟩ := fileStep_eq_some ran
  have called : ∀ {x : FilesM Int}, event.befallsZombies = false →
      Keeps (Files.outside event.who) x → (do let _ ← x : FilesM PUnit) w = some (⟨⟩, w') →
      ZombiesClosed w' := fun living kept ran =>
    have ⟨a, ran⟩ := ran_of_ignored ran
    zombies.outside (alive.resolve_right (by simp [living])) (kept w a w' ran)
  cases event with
  | openFile => exact called rfl sysOpen_outside ran
  | close => exact called rfl sysClose_outside ran
  | dup => exact called rfl sysDup_outside ran
  | dup2 => exact called rfl sysDup2_outside ran
  | pipe => exact called rfl sysPipe_outside ran
  | link => exact called rfl (keeps_outside sysLink_book) ran
  | unlink => exact called rfl (keeps_outside sysUnlink_book) ran
  | chdir => exact called rfl (keeps_outside sysChdir_book) ran
  | mkdir => exact called rfl (keeps_outside sysMkdir_book) ran
  | mknod => exact called rfl (keeps_outside sysMknod_book) ran
  | stat => exact called rfl (keeps_outside sysStat_book) ran
  | access => exact called rfl (keeps_outside sysAccess_book) ran
  | statfs => exact called rfl (keeps_outside sysStatfs_book) ran
  | getcwd => exact called rfl (keeps_outside sysGetcwd_book) ran
  | fork => exact forkFiles_zombies zombies (alive.resolve_right Bool.false_ne_true) ran
  | exit => exact exitFiles_zombies zombies ran
  | wait => exact reapFiles_zombies zombies ran

/-- The two slots that `init_tty` takes. -/
def bootFilps : List FilpNr := [0, 1]

/-- No file is open but those of the boot. -/
structure BootFiles (w : Files) : Prop where
  counts : ∀ f, (w.fdTable f).filpCount = if f ∈ bootFilps then 100 else 0
  closed : ∀ p fd, (w.procs p).fpFilp fd = none

/-- The slot counts its descriptors, and it is free exactly when it has none. -/
structure Counted (w : Files) (f : FilpNr) : Prop where
  exact : (w.fdTable f).filpCount = descriptors w f
  free : (w.fdTable f).filpCount = 0 ↔
    ∀ p ∈ procSlots, (w.procs p).inUse = true → ∀ fd, (w.procs p).fpFilp fd ≠ some f

theorem counted_of_exact {f : FilpNr} (exact : (w.fdTable f).filpCount = descriptors w f) :
    Counted w f := by
  refine ⟨exact, ?_⟩
  rw [exact]
  constructor
  · intro none p slot used fd held
    have positive : 0 < descriptors w f :=
      holders_pos (mem_descriptorKeys slot fd) ((if_pos used).trans held)
    omega
  · intro unheld
    have none : descriptors w f = holders descriptorKeys (fun _ => none) f + 0 := by
      rw [add_zero]
      unfold descriptors holders
      refine congrArg List.sum (List.map_congr_left fun key member => ?_)
      rw [hit_none]
      refine hit_of_ne fun held => ?_
      unfold Files.points FsProc.points at held
      split_ifs at held with used
      exact unheld key.1 (List.pair_mem_product.mp (show (key.1, key.2) ∈ _ from member)).1 used
        key.2 held
    rw [none]
    simp [holders]

/-- **Open-file counts are exact** in every state of every run in which no descriptor of a terminal is
closed. -/
theorem filp_counts_exact {events : List FileEvent} (boot : BootFiles w)
    (noTty : Meets fileStep NoTtyClosed w events) (ran : runFrom fileStep w events = some w')
    {f : FilpNr} (other : f ∉ bootFilps) : Counted w' f := by
  have start : gap w f = 0 := by
    have none : descriptors w f = 0 := by
      unfold descriptors holders
      have zero : (fun key => hit (w.points key) f) = fun _ => 0 := by
        funext key
        refine hit_of_ne fun held => ?_
        unfold Files.points FsProc.points at held
        split_ifs at held
        rw [boot.closed] at held
        cases held
      rw [zero]
      simp
    rw [gap, boot.counts, if_neg other, none, sub_zero]
  have kept := runFrom_invariant (fun w => ZombiesClosed w ∧ gap w f = 0)
    (fun w event w' inv noTty ran =>
      ⟨fileStep_zombies inv.1 ran, (congrFun (fileStep_gap inv.1 noTty ran) f).trans inv.2⟩)
    events ⟨fun p _ fd => boot.closed p fd, start⟩ noTty ran
  exact counted_of_exact (sub_eq_zero.mp kept.2)

end Runs

/-! ### Two runs -/

/-- A free slot of the process table. -/
def noProc : FsProc := ⟨false, false, fun _ => none, ⟨none, none⟩, ⟨0, 0, 0⟩⟩

/-- A kernel that has started with processes 1 and 2. -/
def bootFiles (vol : Volume) : Files where
  vol
  fdTable f :=
    if f ∈ bootFilps then { Filp.zero with filpCount := 100, filpDev := some .tty } else Filp.zero
  procs p := { noProc with inUse := decide (p ≤ 2) }
  nextInum := 2
  released := []

theorem bootFiles_boot (vol : Volume) : BootFiles (bootFiles vol) := by
  refine ⟨fun f => ?_, fun p fd => rfl⟩
  show (if f ∈ bootFilps then _ else _ : Filp).filpCount = _
  split_ifs <;> rfl

instance (w : Files) : ∀ event, Decidable (NoTtyClosed w event)
  | .close who fd => inferInstanceAs (Decidable (∀ slot, slot ∈ fdOpened (w.procs who) fd → _))
  | .dup2 who _ newfd => inferInstanceAs (Decidable
      (_ → (∃ _, _) → (∃ _, _) → ∀ slot, slot ∈ fdOpened (w.procs who) newfd → _))
  | .exit .. => inferInstanceAs (Decidable (∀ _ _, _ → _))
  | .openFile .. | .dup .. | .pipe .. | .link .. | .unlink .. | .chdir .. | .mkdir .. | .mknod .. |
      .stat ..
  | .access .. | .statfs .. | .getcwd .. | .fork _ | .wait _ => isTrue trivial

/-- `"x"`. -/
def xPath : List Word := [120#32]

/-- A file and a pipe are opened, shared with a child and closed in part. -/
def sharesFiles : List FileEvent :=
  [.openFile 1 xPath oCreat 0, .pipe 1 true true, .dup 1 1, .fork 1, .close 1 0, .dup2 1 1 5,
    .exit 3 false, .wait 3]

/-- An end of the pipe is open three times. -/
theorem sharesFiles_counted :
    ∃ w, runFrom fileStep (bootFiles (imageVolume plainLayout)) sharesFiles = some w ∧
      (w.fdTable 3).filpCount = 3 ∧ Counted w 3 := by
  obtain ⟨w, ran, count⟩ := exists_of_any (by decide +kernel :
    (runFrom fileStep (bootFiles (imageVolume plainLayout)) sharesFiles).any
      (fun w => decide ((w.fdTable 3).filpCount = 3)) = true)
  exact ⟨w, ran, count, filp_counts_exact (bootFiles_boot _) (by decide +kernel) ran (by decide)⟩

/-- A node of the first terminal is made, opened and closed. -/
def closesTty : List FileEvent := [.mknod 1 xPath 0 0x301#32, .openFile 1 xPath 0 0, .close 1 0]

/-- **`tty_close` does not count down**: no descriptor is left, and the slot is not free. -/
theorem tty_close_leaks :
    BootFiles (bootFiles (imageVolume plainLayout)) ∧
      ∃ w, runFrom fileStep (bootFiles (imageVolume plainLayout)) closesTty = some w ∧
        (w.fdTable 2).filpCount = 1 ∧ descriptors w 2 = 0 ∧ ¬ Counted w 2 := by
  refine ⟨bootFiles_boot _, ?_⟩
  obtain ⟨w, ran, count, none⟩ := exists_of_any (by decide +kernel :
    (runFrom fileStep (bootFiles (imageVolume plainLayout)) closesTty).any
      (fun w => decide ((w.fdTable 2).filpCount = 1 ∧ descriptors w 2 = 0)) = true)
  refine ⟨w, ran, count, none, fun counted => ?_⟩
  have same := counted.exact
  rw [count, none] at same
  cases same

end Winix.Fs
