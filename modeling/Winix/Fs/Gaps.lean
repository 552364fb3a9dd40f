/-
**Counting descriptors.**

How the calls on descriptors change the `gap` between the count of a slot and its descriptors. Opening,
sharing and `fork` count up as many descriptors as they make; closing counts down, unless the device is
a terminal, whose close routine does nothing.
-/

import Winix.Fs.Books

namespace Winix.Fs

open Kernel Lib Function List Option Prog

/-! ### Descriptors -/

/-- The process can have descriptors. -/
structure Active (w : Files) (who : ProcNr) : Prop where
  slot : who ∈ procSlots
  inUse : (w.procs who).inUse = true

/-- A free slot of `fd_table`, cleared. -/
def Files.clearSlot (w : Files) (f : FilpNr) : Files :=
  { w with fdTable := update w.fdTable f Filp.zero }

/-- There is a free descriptor and a free slot. -/
def FdRoom (w : Files) (who : ProcNr) : Prop :=
  (∃ fd, (w.procs who).fpFilp fd = none) ∧ ∃ f, (w.fdTable f).filpCount = 0

instance (w : Files) (who : ProcNr) : Decidable (FdRoom w who) := inferInstanceAs (Decidable (_ ∧ _))

/-- One end of a pipe is made. -/
def Files.pipeEnd (w : Files) (who : ProcNr) (mode : Word) (inode : InodeNr) (fd : Fd)
    (f : FilpNr) : Files :=
  { w with
    fdTable := update w.fdTable f { w.fdTable f with
      pipeMode := mode, pipe := true, filpIno := some inode, filpCount := (w.fdTable f).filpCount + 1
      filpDev := (w.vol.inodeTable inode).iDev }
    procs := update w.procs who
      { w.procs who with fpFilp := update (w.procs who).fpFilp fd (some f) } }

section Descriptors

variable {w w' : Files} {who : ProcNr} {f : FilpNr} {fd : Fd}
variable {change : Filp → Filp} {a : PUnit} {file : Option FilpNr}
variable {result : Except Int (Fd × FilpNr)} {slot : Fd × FilpNr} {w'' : Files} {p : FsProc}
variable {fds : List Fd}

theorem readFsProc_run : readFsProc who w = some (w.procs who, w) := rfl

theorem readFilp_run : readFilp f w = some (w.fdTable f, w) := rfl

theorem Active.of_book (active : Active w who) (same : w'.book = w.book) : Active w' who :=
  ⟨active.slot, (congrArg Prod.fst (table_of_book same who)).trans active.inUse⟩

theorem Active.of_procs (active : Active w who) (same : w'.procs = w.procs) : Active w' who :=
  ⟨active.slot, by rw [same]; exact active.inUse⟩

theorem gap_updateFilp (ran : updateFilp f change w = some (a, w')) (g : FilpNr) :
    gap w' g =
      gap w g + ((change (w.fdTable f)).filpCount - (w.fdTable f).filpCount) * hit (some f) g := by
  cases ran
  show (update w.fdTable f (change (w.fdTable f)) g).filpCount - descriptors w g =
    (w.fdTable g).filpCount - descriptors w g + _
  by_cases here : g = f
  · subst here
    rw [update_self, hit_self]
    ring
  · rw [update_of_ne here, hit_of_ne fun held => here (Option.some.inj held).symm]
    ring

theorem updateFilp_procs (ran : updateFilp f change w = some (a, w')) : w'.procs = w.procs := by
  cases ran
  rfl

theorem points_setFd (active : Active w who) (ran : setFd who fd file w = some (a, w')) :
    w'.points = update w.points (who, fd) file := by
  cases ran
  funext ⟨p, d⟩
  simp only [Files.points]
  by_cases here : p = who
  · subst here
    rw [update_self]
    by_cases same : d = fd
    · subst same
      rw [update_self, FsProc.points, if_pos active.inUse]
      exact update_self ..
    · rw [update_of_ne fun pair : (p, d) = (p, fd) => same (congrArg Prod.snd pair)]
      simp only [FsProc.points, Files.points, update_of_ne same]
  · rw [update_of_ne here, update_of_ne fun pair : (p, d) = (who, fd) => here (congrArg Prod.fst pair)]
    rfl

theorem gap_setFd (active : Active w who) (ran : setFd who fd file w = some (a, w')) (g : FilpNr) :
    gap w' g = gap w g + hit ((w.procs who).fpFilp fd) g - hit file g := by
  have points := points_setFd active ran
  have old : w.points (who, fd) = (w.procs who).fpFilp fd := if_pos active.inUse
  cases ran
  unfold gap descriptors
  rw [points, holders_update descriptorKeys_nodup (mem_descriptorKeys active.slot fd), old]
  ring

/-- What `get_fd` finds. -/
inductive GotFd (w : Files) (who : ProcNr) : Except Int (Fd × FilpNr) → Files → Prop
  | error (ret : Int)
      (full : (∀ fd, (w.procs who).fpFilp fd ≠ none) ∨ ∀ f, (w.fdTable f).filpCount ≠ 0) :
      GotFd w who (.error ret) w
  | ok (fd : Fd) (f : FilpNr) (free : (w.procs who).fpFilp fd = none)
      (unused : (w.fdTable f).filpCount = 0) :
      GotFd w who (.ok (fd, f)) { w with fdTable := update w.fdTable f Filp.zero }

/-- **The cases of `get_fd`.** -/
theorem getFd_cases (w : Files) (who : ProcNr) :
    (∃ ret < 0, getFd who w = some (.error ret, w) ∧
      ((∀ fd, (w.procs who).fpFilp fd ≠ none) ∨ ∀ f, (w.fdTable f).filpCount ≠ 0)) ∨
    ∃ fd f, (w.procs who).fpFilp fd = none ∧ (w.fdTable f).filpCount = 0 ∧
      getFd who w = some (.ok (fd, f), { w with fdTable := update w.fdTable f Filp.zero }) := by
  unfold getFd
  rw [Prog.get_bind]
  cases free : fdSlots.find? fun fd => decide ((w.procs who).fpFilp fd = none) with
  | none =>
    exact .inl ⟨emfile, by decide, rfl,
      .inl fun fd => by simpa using List.find?_eq_none.mp free fd (mem_finRange fd)⟩
  | some fd =>
    dsimp only
    cases unused : filpSlots.find? fun f => decide ((w.fdTable f).filpCount = 0) with
    | none =>
      exact .inl ⟨enfile, by decide, rfl,
        .inr fun f => by simpa using List.find?_eq_none.mp unused f (mem_finRange f)⟩
    | some f =>
      exact .inr ⟨fd, f, by simpa using find?_some free, by simpa using find?_some unused, rfl⟩

theorem getFd_got (ran : getFd who w = some (result, w')) : GotFd w who result w' := by
  rcases getFd_cases w who with ⟨ret, -, got, full⟩ | ⟨fd, f, free, unused, got⟩
  · rw [got] at ran
    cases ran
    exact .error ret full
  · rw [got] at ran
    cases ran
    exact .ok fd f free unused

theorem GotFd.gap (got : GotFd w who result w') : gap w' = gap w := by
  cases got with
  | error => rfl
  | ok fd f free unused =>
    have ran : updateFilp f (fun _ => Filp.zero) w =
      some (⟨⟩, { w with fdTable := update w.fdTable f Filp.zero }) := rfl
    funext g
    rw [gap_updateFilp ran, unused]
    simp [Filp.zero]

theorem GotFd.procs (got : GotFd w who result w') : w'.procs = w.procs := by
  cases got <;> rfl

theorem GotFd.free (got : GotFd w who (.ok (fd, f)) w') :
    (w'.procs who).fpFilp fd = none ∧ (w'.fdTable f).filpCount = 0 := by
  cases got with
  | ok _ _ free unused =>
    refine ⟨free, ?_⟩
    show (update w.fdTable f Filp.zero f).filpCount = 0
    rw [update_self]
    rfl

/-! ### Closing -/

/-- The count of a slot has gone down by one. -/
structure Closed (w : Files) (f : FilpNr) (w' : Files) : Prop where
  procs : w'.procs = w.procs
  dev : ∀ g, (w'.fdTable g).filpDev = (w.fdTable g).filpDev
  count : ∀ g, (w'.fdTable g).filpCount = (w.fdTable g).filpCount - hit (some f) g

theorem Closed.gap (closed : Closed w f w') (g : FilpNr) : gap w' g = gap w g - hit (some f) g := by
  have same : descriptors w' g = descriptors w g :=
    descriptors_of_tables (fun p => by rw [closed.procs]) g
  rw [Fs.gap, Fs.gap, closed.count, same]
  ring

theorem closed_updateFilp
    (ran : updateFilp f (fun filp => { filp with filpCount := filp.filpCount - 1 }) w = some (a, w')) :
    Closed w f w' := by
  cases ran
  refine ⟨rfl, fun g => ?_, fun g => ?_⟩
  all_goals by_cases here : g = f
  · subst here
    dsimp only
    rw [update_self]
  · dsimp only
    rw [update_of_ne here]
  · subst here
    dsimp only
    rw [update_self, hit_self]
  · dsimp only
    rw [update_of_ne here, hit_of_ne fun held => here (Option.some.inj held).symm, sub_zero]

/-- The tables, without the volume. -/
def Files.tables (w : Files) : (FilpNr → Filp) × (ProcNr → FsProc) := (w.fdTable, w.procs)

theorem onVolume_tables {α : Type} {x : VolM α} : Keeps Files.tables (onVolume x) := by
  intro w a w' ran
  obtain ⟨vol, -, rfl⟩ := onVolume_eq_some.mp ran
  rfl

theorem readFsProc_tables : Keeps Files.tables (readFsProc who) := Keeps.get.bind fun _ => .pure

theorem readFilp_tables : Keeps Files.tables (readFilp f) := Keeps.get.bind fun _ => .pure

theorem releaseIno_tables {ino : InodeNr} : Keeps Files.tables (releaseIno ino) := by
  refine Keeps.bind (Keeps.modify ?_) fun _ => onVolume_tables
  exact fun _ => rfl

/-- A close routine counts down, and goes on without the tables. -/
theorem closed_counted {next : PUnit → FilesM Int} {ret : Int} (rest : Keeps Files.tables (next ⟨⟩))
    (ran : (updateFilp f (fun filp => { filp with filpCount := filp.filpCount - 1 }) >>= next) w =
      some (ret, w')) : Closed w f w' := by
  obtain ⟨_, middle, down, ran⟩ := bind_eq_some.mp ran
  have closed := closed_updateFilp down
  obtain ⟨table, procs⟩ := Prod.mk.inj (rest middle ret w' ran)
  refine ⟨procs.trans closed.procs, fun g => ?_, fun g => ?_⟩
  · rw [table]
    exact closed.dev g
  · rw [table]
    exact closed.count g

theorem rootFsClose_closed {ret : Int} (ran : rootFsClose f w = some (ret, w')) : Closed w f w' := by
  refine closed_counted (readFilp_tables.bind fun filp => .ite .pure ?_) ran
  refine Keeps.ofOption.bind fun inode => onVolume_tables.bind fun _ =>
    onVolume_tables.bind fun ino => ?_
  exact .ite (releaseIno_tables.bind fun _ => .pure) .pure

theorem pipeClose_closed {ret : Int} (ran : pipeClose f w = some (ret, w')) : Closed w f w' := by
  refine closed_counted (readFilp_tables.bind fun filp => .ite .pure ?_) ran
  refine Keeps.ofOption.bind fun inode => onVolume_tables.bind fun _ => ?_
  exact onVolume_tables.bind fun ino => .ite .fault .pure

/-- A program that ends with `return OK` wherever it ends. -/
def ReturnsOk (x : FilesM Int) : Prop := Triple (fun _ => True) x fun ret _ => ret = ok

theorem returnsOk_pure : ReturnsOk (pure ok) := Triple.pure fun _ _ => rfl

theorem ReturnsOk.after {α : Type} {x : FilesM α} {next : α → FilesM Int}
    (rest : ∀ a, ReturnsOk (next a)) : ReturnsOk (x >>= next) :=
  Triple.bind (fun _ _ _ _ _ => trivial : Triple (fun _ => True) x fun _ _ => True) rest

theorem closeFilp_ok : ReturnsOk (closeFilp f) := by
  refine .after fun filp => ?_
  have counted : ∀ rest : Filp → FilesM Int, (∀ filp, ReturnsOk (rest filp)) → ReturnsOk (do
      updateFilp f fun filp => { filp with filpCount := filp.filpCount - 1 }
      let filp ← readFilp f
      if filp.filpCount ≠ 0 then return ok else rest filp) := fun rest ends =>
    .after fun _ => .after fun filp => .ite (fun _ => returnsOk_pure) fun _ => ends filp
  cases filp.filpDev with
  | none => exact Triple.fault
  | some id =>
    cases id with
    | rootfs =>
      refine counted _ fun filp => .after fun _ => .after fun _ => .after fun ino => ?_
      exact .ite (fun _ => ReturnsOk.after fun _ => returnsOk_pure) fun _ => returnsOk_pure
    | pipe =>
      refine counted _ fun filp => .after fun _ => .after fun _ => .after fun ino => ?_
      exact .ite (fun _ => Triple.fault) fun _ => returnsOk_pure
    | tty => exact returnsOk_pure
    | tty2 => exact returnsOk_pure

/-- The device is a terminal. -/
def isTty (dev : Option DevId) : Prop := dev = some .tty ∨ dev = some .tty2

instance : DecidablePred isTty :=
  fun dev => inferInstanceAs (Decidable (dev = some .tty ∨ dev = some .tty2))

/-- **The close routines of files and pipes count down.** -/
theorem closeFilp_closed (noTty : ¬ isTty (w.fdTable f).filpDev) {ret : Int}
    (ran : closeFilp f w = some (ret, w')) : Closed w f w' := by
  rw [closeFilp, bind_run readFilp_run] at ran
  cases dev : (w.fdTable f).filpDev with
  | none =>
    rw [dev] at ran
    cases ran
  | some id =>
    rw [dev] at ran noTty
    cases id with
    | rootfs => exact rootFsClose_closed ran
    | pipe => exact pipeClose_closed ran
    | tty => exact absurd (.inl rfl) noTty
    | tty2 => exact absurd (.inr rfl) noTty

theorem fdOpened_eq_some {fd : Int} (opened : fdOpened p fd = some slot) :
    p.fpFilp slot.1 = some slot.2 := by
  obtain ⟨fd, -, opened⟩ := bind_eq_some_iff.mp opened
  obtain ⟨f, held, opened⟩ := bind_eq_some_iff.mp opened
  cases opened
  exact held

theorem gap_close (active : Active w who) (held : (w.procs who).fpFilp fd = some f)
    (closed : Closed w f w') (cleared : setFd who fd none w' = some (a, w'')) :
    gap w'' = gap w := by
  funext g
  rw [gap_setFd (active.of_procs closed.procs) cleared, closed.procs, held, closed.gap, hit_none]
  ring

theorem sysClose_opened {fd ret : Int} (opened : fdOpened (w.procs who) fd = some slot)
    (ran : sysClose who fd w = some (ret, w')) :
    ret = ok ∧ ∃ middle, closeFilp slot.2 w = some (ok, middle) ∧
      setFd who slot.1 none middle = some (⟨⟩, w') := by
  rw [sysClose, bind_run readFsProc_run, opened] at ran
  obtain ⟨ret', middle, close, ran⟩ := bind_eq_some.mp ran
  have zero : ret' = 0 := closeFilp_ok w ret' middle trivial close
  rw [if_neg (not_not.mpr zero)] at ran
  obtain ⟨_, last, cleared, ran⟩ := bind_eq_some.mp ran
  cases ran
  subst zero
  exact ⟨rfl, middle, close, cleared⟩

theorem sysClose_gap (active : Active w who) {fd ret : Int}
    (noTty : ∀ slot, fdOpened (w.procs who) fd = some slot → ¬ isTty (w.fdTable slot.2).filpDev)
    (ran : sysClose who fd w = some (ret, w')) : gap w' = gap w := by
  cases opened : fdOpened (w.procs who) fd with
  | none =>
    rw [sysClose, bind_run readFsProc_run, opened] at ran
    cases ran
    rfl
  | some slot =>
    obtain ⟨-, middle, close, cleared⟩ := sysClose_opened opened ran
    exact gap_close active (fdOpened_eq_some opened)
      (closeFilp_closed (noTty slot opened) close) cleared

/-! ### Opening and sharing -/

/-- The count of a slot has gone up by one, and no process has changed. -/
structure Raised (w : Files) (f : FilpNr) (w' : Files) : Prop where
  procs : w'.procs = w.procs
  gap : ∀ g, gap w' g = gap w g + hit (some f) g

theorem Raised.setFd (raised : Raised w f w') (active : Active w who)
    (free : (w.procs who).fpFilp fd = none) (set : setFd who fd (some f) w' = some (a, w'')) :
    Fs.gap w'' = Fs.gap w := by
  funext g
  rw [gap_setFd (active.of_procs raised.procs) set, raised.procs, free, hit_none, raised.gap]
  ring

theorem initFilpByInode_raised {inode : InodeNr} (ran : initFilpByInode f inode w = some (a, w')) :
    Raised w f w' := by
  obtain ⟨ino, middle, read, ran⟩ := bind_eq_some.mp ran
  cases read
  refine ⟨updateFilp_procs ran, fun g => ?_⟩
  rw [gap_updateFilp ran]
  ring

theorem gap_updateFilp_same (count : ∀ filp, (change filp).filpCount = filp.filpCount)
    (ran : updateFilp f change w = some (a, w')) : gap w' = gap w := by
  funext g
  rw [gap_updateFilp ran, count]
  ring

theorem gap_of_tables (same : w'.tables = w.tables) : gap w' = gap w := by
  obtain ⟨table, procs⟩ := Prod.mk.inj same
  refine gap_of_book (Prod.ext (funext fun f => ?_) (funext fun p => ?_))
  · show w'.slots f = w.slots f
    rw [Files.slots, table]
    rfl
  · show (w'.procs p).table = (w.procs p).table
    rw [show w'.procs = w.procs from procs]

theorem procs_of_tables (same : w'.tables = w.tables) : w'.procs = w.procs := (Prod.mk.inj same).2

theorem Raised.before {w₀ : Files} (raised : Raised w f w') (same : w.tables = w₀.tables) :
    Raised w₀ f w' :=
  ⟨raised.procs.trans (procs_of_tables same), fun g => by rw [raised.gap, gap_of_tables same]⟩

theorem Raised.updateFilp {g : FilpNr} (raised : Raised w f w')
    (count : ∀ filp, (change filp).filpCount = filp.filpCount)
    (ran : updateFilp g change w' = some (a, w'')) : Raised w f w'' :=
  ⟨(updateFilp_procs ran).trans raised.procs, fun h => by
    rw [gap_updateFilp_same count ran, raised.gap]⟩

theorem truncateIf_tables {flags : Word} {inode : InodeNr} :
    Keeps Files.tables (truncateIf flags inode) :=
  .ite onVolume_tables .pure

section

variable (active : Active w who)
include active
variable {ret : Int}

theorem openFilp_gap (free : (w.procs who).fpFilp fd = none) {flags : Word} {inode : InodeNr}
    (ran : openFilp who flags fd f inode w = some (ret, w')) : gap w' = gap w := by
  obtain ⟨_, w₁, truncated, ran⟩ := bind_eq_some.mp ran
  obtain ⟨_, w₂, inited, ran⟩ := bind_eq_some.mp ran
  obtain ⟨ino, w₃, read, ran⟩ := bind_eq_some.mp ran
  obtain ⟨_, w₄, changed, ran⟩ := bind_eq_some.mp ran
  obtain ⟨_, w₅, set, ran⟩ := bind_eq_some.mp ran
  obtain ⟨_, w₆, device, ran⟩ := bind_eq_some.mp ran
  obtain ⟨-, rfl⟩ := ofOption_eq_some.mp device
  cases ran
  cases read
  have raised := (initFilpByInode_raised inited).before (truncateIf_tables w _ w₁ truncated)
  have count : ∀ filp :
      Filp, (filp.opened flags (w₂.vol.inodeTable inode)).filpCount = filp.filpCount :=
    fun _ => rfl
  exact (raised.updateFilp count changed).setFd active free set

/-- `fp_filp[newfd] = file1; file1->filp_count += 1`. -/
theorem shareFilp_gap (free : (w.procs who).fpFilp fd = none)
    (ran : shareFilp who fd f w = some (ret, w')) : gap w' = gap w := by
  obtain ⟨_, middle, set, ran⟩ := bind_eq_some.mp ran
  obtain ⟨_, last, counted, ran⟩ := bind_eq_some.mp ran
  cases ran
  funext g
  rw [gap_updateFilp counted, gap_setFd active set, free, hit_none]
  ring

theorem openEaten_gap {flags mode : Word} {dev : DevId} {eaten : Eaten}
    (ran : openEaten who flags mode dev eaten w = some (ret, w')) : gap w' = gap w := by
  obtain ⟨found, w₁, inode, ran⟩ := bind_eq_some.mp ran
  have book := openInode_book w found w₁ inode
  have active₁ := active.of_book book
  rw [← gap_of_book book]
  cases found with
  | error ret =>
    cases ran
    rfl
  | ok inode =>
    obtain ⟨result, w₂, got, ran⟩ := bind_eq_some.mp ran
    have got := getFd_got got
    rw [← got.gap]
    cases result with
    | error =>
      cases ran
      rfl
    | ok slot =>
      obtain ⟨inode, w₃, chosen, ran⟩ := bind_eq_some.mp ran
      obtain ⟨-, rfl⟩ := ofOption_eq_some.mp chosen
      exact openFilp_gap (active₁.of_procs got.procs) got.free.1 ran

theorem sysOpen_gap {path : List Word} {flags mode : Word}
    (ran : sysOpen who path flags mode w = some (ret, w')) : gap w' = gap w := by
  have device : getDev rootDev = some .rootfs := by decide
  rw [sysOpen, sysOpenDev, device] at ran
  obtain ⟨eaten, w₁, ate, ran⟩ := bind_eq_some.mp ran
  have book := eatPathOf_book w eaten w₁ ate
  rw [← gap_of_book book]
  split_ifs at ran with failed
  · cases ran
    rfl
  · obtain ⟨ret', w₂, opened, ran⟩ := bind_eq_some.mp ran
    obtain ⟨_, w₃, put, ran⟩ := bind_eq_some.mp ran
    cases ran
    rw [gap_of_book (onVolume_book w₂ _ _ put), openEaten_gap (active.of_book book) opened]

theorem sysDup_gap {oldfd ret : Int} (ran : sysDup who oldfd w = some (ret, w')) : gap w' = gap w := by
  rw [sysDup, bind_run readFsProc_run] at ran
  cases opened : fdOpened (w.procs who) oldfd with
  | none =>
    rw [opened] at ran
    cases ran
    rfl
  | some slot =>
    rw [opened] at ran
    obtain ⟨result, w₂, got, ran⟩ := bind_eq_some.mp ran
    have got := getFd_got got
    rw [← got.gap]
    cases result with
    | error =>
      cases ran
      rfl
    | ok free => exact shareFilp_gap (active.of_procs got.procs) got.free.1 ran

theorem dupOnto_gap {old : Fd} (free : (w.procs who).fpFilp fd = none)
    (ran : dupOnto who old fd w = some (ret, w')) : gap w' = gap w := by
  rw [dupOnto, bind_run readFsProc_run] at ran
  obtain ⟨file, middle, held, ran⟩ := bind_eq_some.mp ran
  obtain ⟨-, rfl⟩ := ofOption_eq_some.mp held
  exact shareFilp_gap active free ran

end

theorem setFd_proc (ran : setFd who fd file w = some (a, w')) :
    w'.procs who = { w.procs who with fpFilp := update (w.procs who).fpFilp fd file } := by
  cases ran
  exact update_self ..

theorem Active.setFd (active : Active w who) (ran : setFd who fd file w = some (a, w')) :
    Active w' who :=
  ⟨active.slot, by rw [setFd_proc ran]; exact active.inUse⟩

theorem fdIndex_val (fd : Fd) : fdIndex fd.val = some fd := by
  simp [fdIndex, fd.isLt]

theorem fdOpened_of_some (held : p.fpFilp fd = some f) : fdOpened p fd.val = some (fd, f) := by
  rw [fdOpened, fdIndex_val]
  show Option.bind (p.fpFilp fd) _ = _
  rw [held]
  rfl

theorem clearSlot_noTty {g : FilpNr} (noTty : ¬ isTty (w.fdTable g).filpDev) :
    ¬ isTty ((w.clearSlot f).fdTable g).filpDev := by
  show ¬ isTty (update w.fdTable f Filp.zero g).filpDev
  by_cases here : g = f
  · rw [here, update_self]
    decide
  · rwa [update_of_ne here]

theorem not_fdRoom (full : (∀ fd, (w.procs who).fpFilp fd ≠ none) ∨ ∀ f, (w.fdTable f).filpCount ≠ 0) :
    ¬ FdRoom w who := by
  rintro ⟨⟨fd, none⟩, f, zero⟩
  exact full.elim (fun all => all fd none) fun all => all f zero

/-- **The cases of `dup2`.** -/
theorem sysDup2_cases (w : Files) (who : ProcNr) (oldfd newfd : Int) :
    (∃ ret < 0, sysDup2 who oldfd newfd w = some (ret, w) ∧
      (fdOpened (w.procs who) oldfd = none ∨ fdIndex newfd = none ∨ ¬ FdRoom w who)) ∨
    ∃ old file1 new f, fdOpened (w.procs who) oldfd = some (old, file1) ∧ fdIndex newfd = some new ∧
      FdRoom w who ∧ (w.fdTable f).filpCount = 0 ∧
      sysDup2 who oldfd newfd w = replaceFd who old new (w.clearSlot f) := by
  rw [sysDup2, bind_run readFsProc_run]
  cases opened : fdOpened (w.procs who) oldfd with
  | none => exact .inl ⟨ebadf, by decide, rfl, .inl rfl⟩
  | some slot =>
    cases index : fdIndex newfd with
    | none => exact .inl ⟨ebadf, by decide, rfl, .inr (.inl rfl)⟩
    | some new =>
      dsimp only
      rcases getFd_cases w who with ⟨ret, negative, got, full⟩ | ⟨fd, f, free, unused, got⟩
      · rw [bind_run got]
        exact .inl ⟨ret, negative, rfl, .inr (.inr (not_fdRoom full))⟩
      · rw [bind_run got]
        exact .inr ⟨slot.1, slot.2, new, f, rfl, rfl, ⟨⟨fd, free⟩, f, unused⟩, unused, rfl⟩

theorem pipeEnd_run {mode : Word} {inode : InodeNr} :
    pipeEnd who mode inode fd f w = some (⟨⟩, w.pipeEnd who mode inode fd f) := by
  have made : pipeEnd who mode inode fd f w = some (⟨⟩, { w with
      fdTable := update (update w.fdTable f _) f _
      procs := (w.pipeEnd who mode inode fd f).procs }) := rfl
  rw [made, update_idem]
  dsimp only
  rw [update_self]
  rfl

section

variable (active : Active w who)
include active

theorem replaceFd_gap {old : Fd}
    (noTty : ∀ f, (w.procs who).fpFilp fd = some f → ¬ isTty (w.fdTable f).filpDev) {ret : Int}
    (ran : replaceFd who old fd w = some (ret, w')) : gap w' = gap w := by
  rw [replaceFd, bind_run readFsProc_run] at ran
  split_ifs at ran with free
  · exact dupOnto_gap active free ran
  · obtain ⟨f, held⟩ := ne_none_iff_exists'.mp free
    obtain ⟨ret', w₁, close, ran⟩ := bind_eq_some.mp ran
    have opened := fdOpened_of_some held
    obtain ⟨zero, w₂, closed, cleared⟩ := sysClose_opened opened close
    have zero : ret' = 0 := zero
    have closed := closeFilp_closed (noTty f held) closed
    have active₁ := (active.of_procs closed.procs).setFd cleared
    have now : (w₁.procs who).fpFilp fd = none := by
      rw [setFd_proc cleared]
      exact update_self ..
    rw [if_neg (not_not.mpr zero)] at ran
    rw [dupOnto_gap active₁ now ran, gap_close active held closed cleared]

theorem sysDup2_gap {oldfd newfd ret : Int}
    (noTty : (fdOpened (w.procs who) oldfd).isSome → (∃ fd, (w.procs who).fpFilp fd = none) →
      (∃ f, (w.fdTable f).filpCount = 0) → ∀ slot, fdOpened (w.procs who) newfd = some slot →
      ¬ isTty (w.fdTable slot.2).filpDev) (ran : sysDup2 who oldfd newfd w = some (ret, w')) :
    gap w' = gap w := by
  rcases sysDup2_cases w who oldfd newfd with
    ⟨_, -, came, -⟩ | ⟨old, file1, new, f, opened, index, room, unused, came⟩
  · rw [came] at ran
    cases ran
    rfl
  · rw [came] at ran
    obtain ⟨fd, free⟩ := room.1
    rw [← (GotFd.ok fd f free unused).gap]
    refine replaceFd_gap (active.of_procs rfl) (fun g held => ?_) ran
    have onto : fdOpened (w.procs who) newfd = some (new, g) := by
      rw [fdOpened, index]
      show Option.bind ((w.procs who).fpFilp new) _ = _
      rw [show (w.procs who).fpFilp new = some g from held]
      rfl
    exact clearSlot_noTty (noTty (by rw [opened]; rfl) room.1 room.2 (new, g) onto)

/-- One end of a pipe: the slot is counted and gets its descriptor. -/
theorem pipeEnd_gap (free : (w.procs who).fpFilp fd = none) {mode : Word} {inode : InodeNr}
    {a : PUnit} (ran : pipeEnd who mode inode fd f w = some (a, w')) :
    gap w' = gap w ∧ Active w' who ∧ (w'.procs who).fpFilp fd = some f ∧
      (w'.fdTable f).filpCount = (w.fdTable f).filpCount + 1 := by
  obtain ⟨-, rfl⟩ := run_unique pipeEnd_run ran
  have counted : updateFilp f (fun filp => { filp with
      pipeMode := mode, pipe := true, filpIno := some inode, filpCount := filp.filpCount + 1
      filpDev := (w.vol.inodeTable inode).iDev }) w =
    some (⟨⟩, { w with fdTable := (w.pipeEnd who mode inode fd f).fdTable }) := rfl
  have raised : Raised w f { w with fdTable := (w.pipeEnd who mode inode fd f).fdTable } :=
    ⟨rfl, fun g => (gap_updateFilp counted g).trans (by ring)⟩
  refine ⟨raised.setFd active free rfl, ⟨active.slot, ?_⟩, ?_, ?_⟩ <;> simp [Files.pipeEnd,
    active.inUse]

/-- The second end can not be opened: the first one is taken back. -/
theorem pipe_undo_gap (held : (w.procs who).fpFilp fd = some f)
    (count : (w.fdTable f).filpCount = 1) {a b : PUnit} {w₁ : Files}
    (cleared : setFd who fd none w = some (a, w₁))
    (released : updateFilp f (fun filp => { filp with filpCount := 0 }) w₁ = some (b, w')) :
    gap w' = gap w := by
  have same : (w₁.fdTable f).filpCount = 1 := by
    cases cleared
    exact count
  funext g
  rw [gap_updateFilp released, gap_setFd active cleared, held, hit_none, same]
  ring

theorem pipeEnds_gap {inode : InodeNr} {ret : Int} (ran : pipeEnds who inode w = some (ret, w')) :
    gap w' = gap w := by
  obtain ⟨result, w₁, found, ran⟩ := bind_eq_some.mp ran
  have got := getFd_got found
  rw [← got.gap]
  cases result with
  | error =>
    obtain ⟨_, w₂, dropped, ran⟩ := bind_eq_some.mp ran
    cases ran
    exact gap_of_book (onVolume_book w₁ _ _ dropped)
  | ok first =>
    obtain ⟨_, w₂, opened, ran⟩ := bind_eq_some.mp ran
    obtain ⟨gap₂, active₂, held, count⟩ := pipeEnd_gap (active.of_procs got.procs) got.free.1 opened
    obtain ⟨result, w₃, found', ran⟩ := bind_eq_some.mp ran
    have got' := getFd_got found'
    rw [← gap₂, ← got'.gap]
    cases result with
    | error =>
      cases got'
      obtain ⟨_, w₄, cleared, ran⟩ := bind_eq_some.mp ran
      obtain ⟨_, w₅, released, ran⟩ := bind_eq_some.mp ran
      obtain ⟨_, w₆, dropped, ran⟩ := bind_eq_some.mp ran
      cases ran
      rw [got.free.2] at count
      rw [gap_of_book (onVolume_book w₅ _ _ dropped), pipe_undo_gap active₂ held count cleared released]
    | ok second =>
      obtain ⟨_, w₄, opened', ran⟩ := bind_eq_some.mp ran
      cases ran
      exact (pipeEnd_gap (active₂.of_procs got'.procs) got'.free.1 opened').1

theorem sysPipe_gap {page block : Bool} {ret : Int}
    (ran : sysPipe who page block w = some (ret, w')) : gap w' = gap w := by
  unfold sysPipe at ran
  split_ifs at ran with failed
  · cases ran
    rfl
  · obtain ⟨found, w₁, slot, ran⟩ := bind_eq_some.mp ran
    have book := onVolume_book w found w₁ slot
    rw [← gap_of_book book]
    cases found with
    | none =>
      cases ran
      rfl
    | some inode =>
      obtain ⟨_, w₂, set, ran⟩ := bind_eq_some.mp ran
      obtain ⟨num, w₃, next, ran⟩ := bind_eq_some.mp ran
      obtain ⟨_, w₄, inited, ran⟩ := bind_eq_some.mp ran
      have book₂ := onVolume_book w₁ _ w₂ set
      have book₃ := getNextIno_book w₂ _ w₃ next
      have book₄ := (onVolume_book w₃ _ w₄ inited).trans (book₃.trans book₂)
      rw [pipeEnds_gap (active.of_book (book₄.trans book)) ran, gap_of_book book₄]

end

/-! ### Processes -/

theorem shareAll_gap (ran : shareAll who fds w = some (a, w')) (g : FilpNr) :
    gap w' g = gap w g + holders fds (w.procs who).fpFilp g := by
  induction fds generalizing w with
  | nil =>
    cases ran
    simp [holders]
  | cons fd fds ih =>
    have cons : holders (fd :: fds) (w.procs who).fpFilp g =
        hit ((w.procs who).fpFilp fd) g + holders fds (w.procs who).fpFilp g := by
      rw [holders, map_cons, sum_cons]
      rfl
    rw [cons]
    rw [shareAll, bind_run readFsProc_run] at ran
    cases held : (w.procs who).fpFilp fd with
    | none =>
      rw [held] at ran
      rw [ih ran, hit_none, zero_add]
    | some f =>
      rw [held] at ran
      obtain ⟨_, w₁, counted, ran⟩ := bind_eq_some.mp ran
      rw [ih ran, gap_updateFilp counted, updateFilp_procs counted]
      ring

theorem descriptors_updateFsProc (slot : who ∈ procSlots) {change : FsProc → FsProc}
    (ran : updateFsProc who change w = some (a, w')) (g : FilpNr) :
    descriptors w' g = descriptors w g - holders fdSlots (w.procs who).points g +
      holders fdSlots (change (w.procs who)).points g := by
  have same : ∀ (other : ProcNr) (d : Fd), other ≠ who →
    w'.points (other, d) = w.points (other, d) := by
    intro other d ne
    cases ran
    show (update w.procs who _ other).points d = (w.procs other).points d
    rw [update_of_ne ne]
  have here : (fun d => w'.points (who, d)) = (change (w.procs who)).points := by
    cases ran
    funext d
    show (update w.procs who _ who).points d = _
    rw [update_self]
  have changed := holders_product_update fdSlots (by decide : procSlots.Nodup) slot same g
  rw [here] at changed
  exact changed

theorem gap_updateFsProc (slot : who ∈ procSlots) {change : FsProc → FsProc}
    (ran : updateFsProc who change w = some (a, w')) (g : FilpNr) :
    gap w' g = gap w g + holders fdSlots (w.procs who).points g -
      holders fdSlots (change (w.procs who)).points g := by
  have table : w'.fdTable = w.fdTable := by
    cases ran
    rfl
  rw [gap, gap, table, descriptors_updateFsProc slot ran]
  ring

theorem holders_points_unused (unused : p.inUse = false) (g : FilpNr) :
    holders fdSlots p.points g = 0 := by
  have none : p.points = fun _ => none := by
    funext fd
    rw [FsProc.points, unused]
    rfl
  rw [none]
  simp [holders, fdSlots]

theorem forkFiles_gap (ran : forkFiles who w = some (a, w')) : gap w' = gap w := by
  unfold forkFiles at ran
  rw [Prog.get_bind] at ran
  cases found : freeFsProc w with
  | none =>
    rw [found] at ran
    cases ran
    rfl
  | some child =>
    rw [found] at ran
    obtain ⟨_, w₁, copied, ran⟩ := bind_eq_some.mp ran
    have users : ∀ p ∈ userSlots, p ∈ procSlots := by decide
    have slot := users child (mem_of_find?_eq_some found)
    have unused : (w.procs child).inUse = false := by simpa using find?_some found
    have childNow : (w₁.procs child).fpFilp = (w.procs who).fpFilp := by
      cases copied
      show (update w.procs child _ child).fpFilp = _
      rw [update_self]
    have points : ({ w.procs who with inUse := true } : FsProc).points = (w.procs who).fpFilp := rfl
    funext g
    rw [shareAll_gap ran, childNow, gap_updateFsProc slot copied, holders_points_unused unused, points]
    ring

theorem closeFilp_procs : Keeps Files.procs (closeFilp f) := by
  intro w ret w' ran
  by_cases tty : isTty (w.fdTable f).filpDev
  · rw [closeFilp, bind_run readFilp_run] at ran
    rcases tty with dev | dev
    · rw [dev] at ran
      cases ran
      rfl
    · rw [dev] at ran
      cases ran
      rfl
  · exact (closeFilp_closed tty ran).procs

theorem closeAll_clears (ran : closeAll who fds w = some (a, w')) :
    ∀ fd, fd ∈ fds ∨ (w.procs who).fpFilp fd = none → (w'.procs who).fpFilp fd = none := by
  induction fds generalizing w with
  | nil =>
    cases ran
    exact fun fd clear => by simpa using clear
  | cons first fds ih =>
    rw [closeAll, bind_run readFsProc_run] at ran
    cases held : (w.procs who).fpFilp first with
    | none =>
      rw [held] at ran
      refine fun fd clear => ih ran fd ?_
      rcases clear with member | none
      · rcases mem_cons.mp member with rfl | later
        · exact .inr held
        · exact .inl later
      · exact .inr none
    | some f =>
      rw [held] at ran
      obtain ⟨_, w₁, close, ran⟩ := bind_eq_some.mp ran
      obtain ⟨_, w₂, set, ran⟩ := bind_eq_some.mp ran
      refine fun fd clear => ih ran fd ?_
      rw [setFd_proc set, closeFilp_procs w _ w₁ close]
      by_cases here : fd = first
      · exact .inr (by rw [here]; exact update_self ..)
      · refine clear.imp (fun member => (mem_cons.mp member).resolve_left here) fun none => ?_
        exact (update_of_ne here ..).trans none

theorem closeAll_gap (active : Active w who)
    (noTty : ∀ fd f, (w.procs who).fpFilp fd = some f → ¬ isTty (w.fdTable f).filpDev)
    (ran : closeAll who fds w = some (a, w')) : gap w' = gap w := by
  induction fds generalizing w with
  | nil =>
    cases ran
    rfl
  | cons first fds ih =>
    rw [closeAll, bind_run readFsProc_run] at ran
    cases held : (w.procs who).fpFilp first with
    | none =>
      rw [held] at ran
      exact ih active noTty ran
    | some f =>
      rw [held] at ran
      obtain ⟨_, w₁, close, ran⟩ := bind_eq_some.mp ran
      obtain ⟨_, w₂, set, ran⟩ := bind_eq_some.mp ran
      have closed := closeFilp_closed (noTty first f held) close
      have table : w₂.fdTable = w₁.fdTable := by
        cases set
        rfl
      have noTty₂ : ∀ fd g, (w₂.procs who).fpFilp fd = some g → ¬ isTty (w₂.fdTable g).filpDev := by
        intro fd g holds
        rw [setFd_proc set, closed.procs] at holds
        rw [table, closed.dev]
        by_cases here : fd = first
        · have cleared : update (w.procs who).fpFilp first none fd = none := by
            rw [here, update_self]
          cases cleared.symm.trans holds
        · exact noTty fd g ((update_of_ne here ..).symm.trans holds)
      rw [ih ((active.of_procs closed.procs).setFd set) noTty₂ ran, gap_close active held closed set]

/-- No zombie has a descriptor. -/
def ZombiesClosed (w : Files) : Prop :=
  ∀ p, (w.procs p).zombie = true → ∀ fd, (w.procs p).fpFilp fd = none

theorem reapFiles_gap (slot : who ∈ procSlots)
    (closed : (w.procs who).zombie = true → ∀ fd, (w.procs who).fpFilp fd = none)
    (ran : reapFiles who w = some (a, w')) : gap w' = gap w := by
  rw [reapFiles, bind_run readFsProc_run] at ran
  split_ifs at ran with zombie
  · have empty : (w.procs who).points = fun _ => none := by
      funext fd
      rw [FsProc.points, closed zombie]
      exact ite_self none
    have gone : ({ w.procs who with inUse := false, zombie := false } : FsProc).inUse = false := rfl
    funext g
    rw [gap_updateFsProc slot ran, holders_points_unused gone, empty]
    simp [holders, fdSlots]
  · cases ran
    rfl

theorem exitFiles_gap (active : Active w who) {waited : Bool}
    (noTty : ∀ fd f, (w.procs who).fpFilp fd = some f → ¬ isTty (w.fdTable f).filpDev)
    (ran : exitFiles who waited w = some (a, w')) : gap w' = gap w := by
  obtain ⟨_, w₁, died, ran⟩ := bind_eq_some.mp ran
  obtain ⟨_, w₂, closed, ran⟩ := bind_eq_some.mp ran
  obtain ⟨p, w₃, read, ran⟩ := bind_eq_some.mp ran
  obtain ⟨_, w₄, put, ran⟩ := bind_eq_some.mp ran
  obtain ⟨_, w₅, put', ran⟩ := bind_eq_some.mp ran
  have dead : w₁.procs who = { w.procs who with zombie := true } := by
    cases died
    exact update_self ..
  have gap₁ : gap w₁ = gap w := by
    funext g
    have points : ({ w.procs who with zombie := true } : FsProc).points = (w.procs who).points := rfl
    rw [gap_updateFsProc active.slot died, points]
    ring
  have table : w₁.fdTable = w.fdTable := by
    cases died
    rfl
  have active₁ : Active w₁ who := ⟨active.slot, by rw [dead]; exact active.inUse⟩
  have gap₂ : gap w₂ = gap w₁ := by
    refine closeAll_gap active₁ (fun fd f holds => ?_) closed
    rw [dead] at holds
    rw [table]
    exact noTty fd f holds
  have tables := (onVolume_tables w₄ _ w₅ put').trans
    ((onVolume_tables w₃ _ w₄ put).trans (readFsProc_tables w₂ _ w₃ read))
  rw [← gap₁, ← gap₂, ← gap_of_tables tables]
  split_ifs at ran with reaped
  · refine reapFiles_gap active.slot (fun _ fd => ?_) ran
    rw [procs_of_tables tables]
    exact closeAll_clears closed fd (.inl (mem_finRange fd))
  · cases ran
    rfl

end Descriptors

end Winix.Fs
