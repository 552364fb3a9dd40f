/-
**What a parent is told of its children.**

`get_wstats` of `kernel/system/do_exit_wait.c` packs the fields that `exit_proc` and the stop of
`sys_sig_handler` have set, and the macros of `sys/wait.h` take the word apart.

* `Reports`: the two places where the kernel sets the fields; `Fate.Told`: the macros recover what
  happened, and nothing else;
* **`told_iff`**: an exit and the end by a signal are told, a stop is not;
* **`no_zombies_left_iff`**: a parent that ignores `SIGCHLD` gives one zombie back for every signal
  that it handles, however many children have ended.
-/

import Winix.Kernel.Wait

namespace Winix.Kernel

open Lib

/-! ### `sys/wait.h` -/

section

variable (s : Word)

/-- `_LOW`. -/
def low : Word := s &&& 0x7f#32
/-- The sign bits that `>>` brings in are masked away. -/
def high : Word := s >>> 8 &&& 0xff#32
/-- `WIFEXITED`. -/
def wifexited : Bool := low s = 0#32
/-- `WEXITSTATUS`. -/
def wexitstatus : Word := high s
/-- `WTERMSIG`. -/
def wtermsig : Word := low s
/-- `WIFSIGNALED`. -/
def wifsignaled : Bool := (s - 1#32) &&& 0xffff#32 < 0xff#32
/-- `WIFSTOPPED`. -/
def wifstopped : Bool := low s = 0x7f#32
/-- `WSTOPSIG`. -/
def wstopsig : Word := high s

end

/-- How a child comes to be reported: by `exit_proc(who, status, signum)` or by a stop. -/
inductive Fate
  | exit (status : Word) (signum : Nat)
  | stop (signum : Nat)

/-- **The macros recover the fate**: a normal exit with the low 8 bits of its status, the end by the
signal or the stop by it, and exactly this one of the three. -/
def Fate.Told (s : Word) : Fate → Prop
  | .exit status 0 => wifexited s ∧ wifsignaled s = false ∧ wifstopped s = false ∧
      wexitstatus s = status &&& 0xff#32
  | .exit _ signum => wifexited s = false ∧ wifsignaled s ∧ wifstopped s = false ∧
      wtermsig s = BitVec.ofNat 32 signum
  | .stop signum => wifexited s = false ∧ wifsignaled s = false ∧ wifstopped s ∧
      wstopsig s = BitVec.ofNat 32 signum

/-- A process that ends by a signal has no status, and none is stopped. -/
def Fate.Tellable : Fate → Prop
  | .exit status signum => signum = 0 ∨ status.toNat % 256 = 0
  | .stop _ => False

/-- The fields of the child are set: by `exit_proc` up to its call of `check_waiting`, or by the default
action of `SIGTSTP` and `SIGSTOP` up to it. -/
inductive Reports (k : Machine) (who : ProcNr) : Fate → Machine → Prop
  | exit {status : Word} {signum : Nat} {k' : Machine} {parent : ProcNr} (small : signum < nsig)
      (ran : endProc k who status signum = some (k', parent)) : Reports k who (.exit status signum) k'
  | stop {signum : Nat} {k' : Machine} (stops : signum = sigtstp ∨ signum = sigstop)
      (ran : dequeueSchedule (k.updateProc who fun p =>
        { p with state := raise p.state .stopped, sigStatus := BitVec.ofNat 32 signum }) who =
          some k') :
      Reports k who (.stop signum) k'

/-! ### The word -/

section Words

variable (s : Word)

theorem low_toNat : (low s).toNat = s.toNat % 128 := by
  rw [low, BitVec.toNat_and]
  exact Nat.and_two_pow_sub_one_eq_mod s.toNat 7

theorem high_toNat : (high s).toNat = s.toNat / 256 % 256 := by
  rw [high, BitVec.toNat_and, BitVec.toNat_ushiftRight, Nat.shiftRight_eq_div_pow]
  exact Nat.and_two_pow_sub_one_eq_mod _ 8

theorem wifsignaled_iff : wifsignaled s = true ↔ 0 < s.toNat % 65536 ∧ s.toNat % 65536 ≤ 255 := by
  have masked : ((s - 1#32) &&& 0xffff#32).toNat = (s - 1#32).toNat % 65536 := by
    rw [BitVec.toNat_and]
    exact Nat.and_two_pow_sub_one_eq_mod _ 16
  rw [wifsignaled, decide_eq_true_iff, BitVec.lt_def, masked, BitVec.toNat_sub]
  have bound := s.isLt
  simp only [BitVec.toNat_ofNat]
  omega

theorem getWstats_toNat (p : Proc) :
    (getWstats p).toNat = p.exitStatus.toNat % 2 ^ 24 * 256 + p.sigStatus.toNat % 128 := by
  have signal : (p.sigStatus &&& 0x7f#32).toNat = p.sigStatus.toNat % 128 := by
    rw [BitVec.toNat_and]
    exact Nat.and_two_pow_sub_one_eq_mod _ 7
  have shifted : p.exitStatus.toNat <<< 8 % 2 ^ 32 = (p.exitStatus.toNat % 2 ^ 24) <<< 8 := by
    simp only [Nat.shiftLeft_eq]
    omega
  rw [getWstats, BitVec.toNat_or, signal, BitVec.toNat_shiftLeft, shifted,
    ← Nat.shiftLeft_add_eq_or_of_lt (by omega), Nat.shiftLeft_eq]

theorem wifexited_iff : wifexited s = true ↔ s.toNat % 128 = 0 := by
  rw [wifexited, decide_eq_true_iff, ← BitVec.toNat_inj, low_toNat]
  rfl

theorem wifstopped_iff : wifstopped s = true ↔ s.toNat % 128 = 127 := by
  rw [wifstopped, decide_eq_true_iff, ← BitVec.toNat_inj, low_toNat]
  rfl

end Words

/-! ### What is told -/

section Fates

variable {k k' : Machine} {who : ProcNr} {fate : Fate} {s : Word} {signum : Nat}

theorem told_exit {status : Word} (small : signum < nsig)
    (word : s.toNat = status.toNat % 2 ^ 24 * 256 + signum) :
    (Fate.exit status signum).Told s ↔ (Fate.exit status signum).Tellable := by
  unfold nsig at small
  cases signum with
  | zero =>
    refine iff_of_true ⟨(wifexited_iff s).mpr (by omega), ?_, ?_, ?_⟩ (.inl rfl)
    · rw [← Bool.not_eq_true, wifsignaled_iff]
      omega
    · rw [← Bool.not_eq_true, wifstopped_iff]
      omega
    · have low8 : (status &&& 0xff#32).toNat = status.toNat % 256 := by
        rw [BitVec.toNat_and]
        exact Nat.and_two_pow_sub_one_eq_mod _ 8
      rw [wexitstatus, ← BitVec.toNat_inj, high_toNat, low8]
      omega
  | succ n =>
    have term : wtermsig s = BitVec.ofNat 32 (n + 1) := by
      rw [wtermsig, ← BitVec.toNat_inj, low_toNat, BitVec.toNat_ofNat]
      omega
    simp only [Fate.Told, Fate.Tellable, ← Bool.not_eq_true, wifexited_iff, wifsignaled_iff,
      wifstopped_iff, term, and_true]
    omega

theorem not_told_stop (stops : signum = sigtstp ∨ signum = sigstop)
    (word : s.toNat % 128 = signum % 128) : ¬ (Fate.stop signum).Told s := by
  rintro ⟨-, -, stopped, -⟩
  rw [wifstopped_iff] at stopped
  unfold sigtstp sigstop at stops
  omega

/-- **Exits and signals are told**, unless a process that ends by a signal has a status as well, and no
stop is. -/
theorem told_iff (reports : Reports k who fate k') :
    fate.Told (getWstats (k'.procTable who)) ↔ fate.Tellable := by
  have word := getWstats_toNat (k'.procTable who)
  cases reports with
  | exit small ran =>
    obtain ⟨-, dead, cleared, -, -, roused⟩ := endProc_ending ran
    have fields := (roused.coarsen fun _ => rfl :
      SameView (fun p : Proc => (p.exitStatus, p.sigStatus)) _ k').proc who
    rw [Machine.updateProc_same] at fields
    obtain ⟨status, signal⟩ := Prod.mk.inj fields
    dsimp only at status signal
    rw [status, signal, BitVec.toNat_ofNat] at word
    refine told_exit small (word.trans ?_)
    unfold nsig at small
    omega
  | stop stops ran =>
    have signal := (Nudged.dequeueSchedule ran).field Proc.sigStatus (fun _ => rfl) who
    rw [Machine.updateProc_same] at signal
    rw [signal, BitVec.toNat_ofNat] at word
    refine iff_of_false (not_told_stop stops ?_) id
    omega

end Fates

/-- Process 2 exits with status 259: its parent is told 3. -/
theorem exit_told : ∃ k', Reports (stacked [0, 2] []) 2 (.exit 259#32 0) k' ∧
    (Fate.exit 259#32 0).Told (getWstats (k'.procTable 2)) := by
  obtain ⟨⟨k', parent⟩, ran, -⟩ := exists_of_any (by decide +kernel :
    (endProc (stacked [0, 2] []) 2 259#32 0).any (fun _ => decide True) = true)
  have reports : Reports (stacked [0, 2] []) 2 (.exit 259#32 0) k' := .exit (by decide) ran
  exact ⟨k', reports, (told_iff reports).mpr (.inl rfl)⟩

/-- The stop of process 2 by `SIGSTOP` reads as its end by signal 17. -/
theorem stop_told_as_end : ∃ k', Reports (stacked [0, 2] []) 2 (.stop sigstop) k' ∧
    (wifsignaled (getWstats (k'.procTable 2)) ∧ wtermsig (getWstats (k'.procTable 2)) = 17#32) ∧
    ¬ (Fate.stop sigstop).Told (getWstats (k'.procTable 2)) := by
  obtain ⟨k', ran, ended, kept⟩ := exists_of_any (by decide +kernel :
    (dequeueSchedule ((stacked [0, 2] []).updateProc 2 fun p =>
        { p with state := raise p.state .stopped, sigStatus := BitVec.ofNat 32 sigstop }) 2).any
      (fun k' => decide ((wifsignaled (getWstats (k'.procTable 2)) ∧
        wtermsig (getWstats (k'.procTable 2)) = 17#32) ∧
          wifstopped (getWstats (k'.procTable 2)) = false)) = true)
  refine ⟨k', .stop (.inr rfl) ran, ended, fun told => ?_⟩
  rw [told.2.2.1] at kept
  cases kept

/-! ### Children that are ignored -/

/-- The children that are zombies, in the order of the slots. -/
def zombieChildren (k : Machine) (who : ProcNr) : List ProcNr :=
  userSlots.filter fun p => (k.procTable p).inUse && decide ((k.procTable p).parent = who) &&
    has (k.procTable p).state .zombie

section Ignored

variable {k k' : Machine} {who : ProcNr} {exit : ExitProc}

/-- The `break` of the loop: the first zombie is given back. -/
theorem ignoredAction_zombies (ran : ignoredAction exit k who sigchld = some k') :
    zombieChildren k' who = (zombieChildren k who).tail := by
  have first : zombieChild k who = (zombieChildren k who).head? := List.head?_filter.symm
  rw [ignoredAction, if_neg (by decide), if_pos rfl, first] at ran
  cases zombies : zombieChildren k who with
  | nil =>
    rw [zombies] at ran
    cases ran
    exact zombies
  | cons child rest =>
    rw [zombies] at ran
    cases ran
    have nodup : (child :: rest).Nodup := zombies ▸ List.Nodup.filter _ (by decide)
    have member : child ∈ zombieChildren k who := zombies ▸ List.mem_cons_self
    have dead := (Bool.and_eq_true_iff.mp (List.mem_filter.mp member).2).2
    have others : zombieChildren (releaseZombie k child) who =
        (zombieChildren k who).filter (· ≠ child) := by
      rw [zombieChildren, zombieChildren, List.filter_filter]
      refine List.filter_congr fun p _ => ?_
      by_cases same : p = child
      · simp [same, releaseZombie_inUse dead]
      · simp [same, releaseZombie_of_ne same]
    rw [others, zombies, List.filter_cons_of_neg (by simp)]
    refine List.filter_eq_self.mpr fun p inRest => decide_eq_true fun same => ?_
    exact (List.nodup_cons.mp nodup).1 (same ▸ inRest)

/-- **No zombie is left** if and only if there was at most one. -/
theorem no_zombies_left_iff (ignores : ((k.procTable who).sigTable sigchld).handler = sigIgn)
    (ran : handleSig exit k who sigchld = some k') :
    zombieChildren k' who = [] ↔ (zombieChildren k who).length ≤ 1 := by
  have pending {β : Type} (field : Proc → β)
      (same : ∀ p pending, field { p with sigPending := pending } = field p) (c : ProcNr) :
      field ((k.updateProc who fun p =>
        { p with sigPending := sigdelset p.sigPending sigchld }).procTable c) = field (k.procTable c) :=
    Machine.updateProc_field field (same _ _) c
  have before : zombieChildren (k.updateProc who fun p =>
      { p with sigPending := sigdelset p.sigPending sigchld }) who = zombieChildren k who :=
    List.filter_congr fun p _ => pending (fun p => p.inUse && decide (p.parent = who) &&
      has p.state .zombie) (fun _ _ => rfl) p
  unfold handleSig at ran
  dsimp only at ran
  rw [pending (fun p => (p.sigTable sigchld).handler) fun _ _ => rfl, ignores, if_neg (by decide),
    if_pos rfl] at ran
  rw [ignoredAction_zombies ran, before, ← List.length_eq_zero_iff, List.length_tail]
  omega

end Ignored

/-- Process 1 ignores its signals; the others are its children. -/
def ignoringParent : Machine :=
  let k := stacked [0, 1, 2, 3] []
  { k with procTable := fun p =>
      { k.procTable p with parent := 1, sigTable := fun _ => ⟨sigIgn, 0, 0⟩ } }

/-- One child ends before its parent handles the signal. -/
theorem one_zombie_given_back : ∃ ended k', exitProc ignoringParent 2 0#32 0 = some ended ∧
    handleSig exitProc ended 1 sigchld = some k' ∧ zombieChildren k' 1 = [] := by
  obtain ⟨ended, ending, ignores, few, handled⟩ := exists_of_any (by decide +kernel :
    (exitProc ignoringParent 2 0#32 0).any (fun ended => decide (
      ((ended.procTable 1).sigTable sigchld).handler = sigIgn ∧ (zombieChildren ended 1).length ≤ 1 ∧
        (handleSig exitProc ended 1 sigchld).isSome)) = true)
  obtain ⟨k', handled⟩ := Option.isSome_iff_exists.mp handled
  exact ⟨ended, k', ending, handled, (no_zombies_left_iff ignores handled).mpr few⟩

/-- **Two children end** before their parent runs: the signal is pending once, and the second child
stays a zombie. -/
theorem second_zombie_left : ∃ ended k',
    (exitProc ignoringParent 2 0#32 0).bind (exitProc · 3 0#32 0) = some ended ∧
    isSigpending (ended.procTable 1) = sigchld ∧ handlePendingsig exitProc ended 1 = some k' ∧
    isSigpending (k'.procTable 1) = 0 ∧ zombieChildren k' 1 = [3] := by
  obtain ⟨ended, ending, pending, handled⟩ := exists_of_any (by decide +kernel :
    ((exitProc ignoringParent 2 0#32 0).bind (exitProc · 3 0#32 0)).any (fun ended => decide (
      isSigpending (ended.procTable 1) = sigchld ∧ (handlePendingsig exitProc ended 1).any (fun k' =>
        decide (isSigpending (k'.procTable 1) = 0 ∧ zombieChildren k' 1 = [3])) = true)) = true)
  obtain ⟨k', handled, after⟩ := exists_of_any handled
  exact ⟨ended, k', ending, pending, handled, after⟩

end Winix.Kernel
