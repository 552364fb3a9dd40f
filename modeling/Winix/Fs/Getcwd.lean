/-
**The buffer of `getcwd`.**

`sys_getcwd` builds the path from the end of the buffer down, and starts by writing its zero at
`pathname + size`: the word behind the buffer.

* `GetcwdRight`: the claim of the call on its buffer, its result and the counts of the inodes;
* **`getcwd_right_of_refused`**: a call that is refused at once is right, and no call that succeeds is.
-/

import Winix.Fs.Readdir

namespace Winix.Fs

open Kernel Lib

/-- The words are among `len` words from an address on. -/
def Transfer.Within (t : Transfer) (start : Word) (len : Nat) : Prop :=
  ∀ k < t.len, (t.start + BitVec.ofNat 32 k - start).toNat < len

/-- **A successful `getcwd`**: the path at the address that it returns leads to the working
directory, its zero is in the buffer, and nothing is written outside. -/
structure GetcwdDone (w : World) (who : ProcNr) (pathname size : Word) (ret : Int) (w' : World) :
    Prop where
  resolves : ∃ found files,
    getInodeByPathOf who (pathAt w' (w'.paddr who (BitVec.ofInt 32 ret))) w'.files =
      some (found, files) ∧
      found.2 = (w.files.procs who).dirs.fpWorkdir
  ended : (BitVec.ofInt 32 ret - pathname).toNat +
    (pathAt w' (w'.paddr who (BitVec.ofInt 32 ret))).length < size.toNat
  within : ∀ t ∈ (sysGetcwdUser who pathname size).log w, t.Within (w.paddr who pathname) size.toNat

/-- **`getcwd` as it should be**: a call that fails changes no count. -/
structure GetcwdRight (w : World) (who : ProcNr) (pathname size : Word) : Prop where
  success : ∀ ret w', (sysGetcwdUser who pathname size).erase w = some (ret, w') → 0 ≤ ret →
    GetcwdDone w who pathname size ret w'
  failure : ∀ ret w', (sysGetcwdUser who pathname size).erase w = some (ret, w') → ret < 0 →
    ∀ i, (w'.files.vol.inodeTable i).iCount = (w.files.vol.inodeTable i).iCount

/-- An end of the buffer is not accessible, or the buffer has at most one word. -/
def GetcwdRefused (w : World) (who : ProcNr) (pathname size : Word) : Prop :=
  (!w.checks who pathname ∨ !w.checks who (pathname + size)) ∨ size.toInt ≤ 1

section Getcwd

variable {w : World} {who : ProcNr} {pathname size : Word}

theorem sysGetcwdUser_refused (refused : GetcwdRefused w who pathname size) :
    ∃ ret < 0, (sysGetcwdUser who pathname size).erase w = some (ret, w) := by
  have read : (readWorld).erase w = some (w, w) := rfl
  rw [sysGetcwdUser, Logged.bind_run read]
  by_cases denied : !w.checks who pathname ∨ !w.checks who (pathname + size)
  · rw [if_pos denied]
    exact ⟨efault, by decide, rfl⟩
  · rw [if_neg denied, if_pos (refused.resolve_left denied)]
    exact ⟨erange, by decide, rfl⟩

/-- The zero behind the buffer. -/
theorem sysGetcwdUser_log (accepted : ¬ GetcwdRefused w who pathname size) :
    ⟨who, w.paddr who (pathname + size), 1⟩ ∈ (sysGetcwdUser who pathname size).log w := by
  have read : (get : Prog World World) w = some (w, w) := rfl
  obtain ⟨allowed, large⟩ := not_or.mp accepted
  rw [sysGetcwdUser, readWorld, Logged.lift_log_run read, if_neg allowed, if_neg large]
  exact List.mem_cons_self

theorem paddr_behind :
    (w.paddr who (pathname + size) + BitVec.ofNat 32 0 - w.paddr who pathname).toNat =
    size.toNat := by
  refine congrArg BitVec.toNat ?_
  unfold World.paddr physicalAddr
  rw [show BitVec.ofNat 32 0 = 0 from rfl]
  ring

/-- **A call that is refused is right, and no call that succeeds is**: its zero is behind the buffer. -/
theorem getcwd_right_of_refused (w : World) (who : ProcNr) (pathname size : Word) :
    (GetcwdRefused w who pathname size → GetcwdRight w who pathname size) ∧
    ∀ ret w', (sysGetcwdUser who pathname size).erase w = some (ret, w') → 0 ≤ ret →
      ¬ GetcwdRight w who pathname size := by
  constructor
  · intro refused
    obtain ⟨ret, negative, ran⟩ := sysGetcwdUser_refused refused
    refine ⟨fun ret' w' again positive => ?_, fun ret' w' again _ i => ?_⟩
    · rw [ran] at again
      cases again
      omega
    · rw [ran] at again
      cases again
      rfl
  · intro ret w' ran positive right
    have accepted : ¬ GetcwdRefused w who pathname size := fun refused => by
      obtain ⟨ret', negative, again⟩ := sysGetcwdUser_refused refused
      rw [ran] at again
      cases again
      omega
    have inside :=
      (right.success ret w' ran positive).within _ (sysGetcwdUser_log accepted) 0 Nat.one_pos
    rw [paddr_behind] at inside
    exact Nat.lt_irrefl _ inside

end Getcwd

/-- In the root, with a buffer of ten words at 300: the zero is written at 310. -/
theorem getcwd_behind_buffer :
    (sysGetcwdUser 1 300#32 10#32).log rootWorld = [⟨1, 2358#32, 1⟩, ⟨1, 2357#32, 1⟩] ∧
      rootWorld.paddr 1 300#32 = 2348#32 ∧ ¬ GetcwdRight rootWorld 1 300#32 10#32 := by
  have log : (sysGetcwdUser 1 300#32 10#32).log rootWorld = [⟨1, 2358#32, 1⟩, ⟨1, 2357#32, 1⟩] := by
    decide +kernel
  obtain ⟨⟨ret, w'⟩, ran, result⟩ := exists_of_any (by decide +kernel :
    ((sysGetcwdUser 1 300#32 10#32).erase rootWorld).any (fun r => r.1 = 309) = true)
  obtain rfl : ret = 309 := result
  refine ⟨log, by decide, fun right => ?_⟩
  have inside := (right.success 309 w' ran (by decide)).within
  rw [log] at inside
  exact absurd (inside _ List.mem_cons_self 0 Nat.one_pos) (by decide)

end Winix.Fs
