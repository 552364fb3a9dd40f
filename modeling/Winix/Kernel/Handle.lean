/-
**Acting on signals, and the scheduler that does it.**

A signal ends a process, or starts its handler (`catchSig`), or else changes no more than the end of a
process can (`Outlived`). So a transitive relation between machines that contains these three contains
whatever acting on signals can do: `Closed` collects the conditions, and the rules below it go through
`handle_sig`, `handle_pendingsig`, the loop of `sched` and the loop of `sys_kill`.
-/

import Winix.Kernel.Nudge
import Winix.Kernel.Sigcalls

namespace Winix.Kernel

open Lib Option

section Queues

variable {k k' : Machine} {p : ProcNr}

theorem pickProc_nudged (picked : pickProc k = some (p, k')) : Nudged k k' :=
  let ⟨_, _, took⟩ := pickFrom_eq_some picked
  Nudged.of_requeued (.dequeue took)

theorem requeue_nudged (k : Machine) : Nudged k (requeue k) := by
  unfold requeue
  split
  · exact .refl k
  · dsimp only
    split_ifs
    · exact Nudged.enqueueHead _ _ _
    · exact SameView.trans (.updateProc rfl) (Nudged.enqueueSchedule _ _)
    · exact Nudged.enqueueSchedule _ _
    · exact .refl k

theorem refill_nudged (k : Machine) : Nudged k (refill k) := by
  unfold refill
  split
  · exact .refl k
  · exact .updateProc rfl

theorem current_nudged (k : Machine) (current : Option ProcNr) :
    Nudged k { k with currentProc := current } := .of_procTable rfl rfl rfl rfl

end Queues

/-! ### One signal -/

/-- What acting on signals does, one action after the other, is in the relation. The end of a process
is `exit_proc`, or what stands in for it in an interrupt. -/
structure Closed (exit : ExitProc) (R : Machine → Machine → Prop) : Prop where
  trans : ∀ {k k' k''}, R k k' → R k' k'' → R k k''
  outlived : ∀ {k k'}, Outlived k k' → R k k'
  ended : ∀ {k k' who status signum}, exit k who status signum = some k' → R k k'
  caught : ∀ {k who signum}, ((k.procTable who).sigTable signum).handler ≠ sigDfl →
    R k (catchSig k who signum)

namespace Closed

variable {exit : ExitProc} {R : Machine → Machine → Prop} {k k' : Machine} {who : ProcNr} {signum : Nat}

variable (closed : Closed exit R)
include closed

theorem refl (k : Machine) : R k k := closed.outlived (.refl k)

theorem nudged (same : Nudged k k') : R k k' := closed.outlived same.outlived

theorem defaultAction (ran : defaultAction exit k who signum = some k') : R k k' := by
  unfold Kernel.defaultAction at ran
  split_ifs at ran
  · cases ran
    exact closed.outlived (SameView.trans (.updateProc rfl) (Nudged.enqueueSchedule _ _).outlived)
  · cases ran
    exact closed.refl k
  · obtain ⟨dequeued, taken, ran⟩ := bind_eq_some_iff.mp ran
    exact closed.outlived (SameView.trans (.updateProc rfl)
      ((Nudged.dequeueSchedule taken).outlived.trans (checkWaiting_outlived ran)))
  · exact closed.ended ran

theorem ignoredAction (ran : ignoredAction exit k who signum = some k') : R k k' := by
  unfold Kernel.ignoredAction at ran
  split_ifs at ran
  · exact closed.ended ran
  · split at ran
    · cases ran
      exact closed.outlived (releaseZombie_outlived _ _)
    · cases ran
      exact closed.refl k
  · cases ran
    exact closed.refl k

/-- **Acting on one signal.** -/
theorem handleSig (ran : handleSig exit k who signum = some k') : R k k' := by
  unfold Kernel.handleSig at ran
  dsimp only at ran
  have pending : R k (k.updateProc who fun p =>
      { p with sigPending := sigdelset p.sigPending signum }) := closed.outlived (.updateProc rfl)
  refine closed.trans pending ?_
  split_ifs at ran with default ignored
  · exact closed.defaultAction ran
  · exact closed.ignoredAction ran
  · cases ran
    exact closed.caught default

theorem handlePendingsig (ran : handlePendingsig exit k who = some k') : R k k' := by
  unfold Kernel.handlePendingsig at ran
  dsimp only at ran
  split_ifs at ran
  · cases ran
    exact closed.refl k
  · obtain ⟨handled, handling, ran⟩ := bind_eq_some_iff.mp ran
    cases ran
    refine closed.trans (closed.handleSig handling) ?_
    split_ifs
    · exact closed.nudged (Nudged.enqueueSchedule _ _)
    · exact closed.refl _

/-- The loop of `sched`, by induction on the number of its turns. -/
theorem pickRunnable {fuel : Nat} (ran : pickRunnable exit fuel k = some k') : R k k' := by
  induction fuel generalizing k with
  | zero => cases ran
  | succ fuel ih =>
    obtain ⟨⟨p, picked⟩, picking, ran⟩ := bind_eq_some_iff.mp ran
    dsimp only at ran
    have taken : R k { picked with currentProc := some p } :=
      closed.nudged ((pickProc_nudged picking).trans (current_nudged _ _))
    have goOn : ∀ {handled : Machine},
        (if (handled.procTable p).state = runnable then some handled
          else Kernel.pickRunnable exit fuel handled) = some k' → R handled k' := by
      intro handled ran
      split_ifs at ran
      · cases ran
        exact closed.refl _
      · exact ih ran
    refine closed.trans taken ?_
    split_ifs at ran
    · rw [bind_eq_bind, bind_some] at ran
      exact goOn ran
    · obtain ⟨handled, handling, ran⟩ := bind_eq_some_iff.mp ran
      exact closed.trans (closed.handleSig handling) (goOn ran)

/-- **The scheduler.** -/
theorem sched (ran : sched exit k = some k') : R k k' := by
  obtain ⟨picked, found, rfl⟩ := map_eq_some_iff.mp ran
  exact closed.trans (closed.nudged (requeue_nudged k))
    (closed.trans (closed.pickRunnable found) (closed.nudged (refill_nudged _)))

theorem killOne {target : ProcNr} (ran : killOne exit k who target signum = some k') : R k k' := by
  obtain ⟨⟨sent, result⟩, sending, ran⟩ := bind_eq_some_iff.mp ran
  refine closed.trans (closed.outlived (sendSig_roused sending).outlived) ?_
  dsimp only at ran
  split_ifs at ran
  · exact closed.handlePendingsig ran
  · cases ran
    exact closed.refl _

theorem killAll {pid : Int} : ∀ {targets : List ProcNr} {k : Machine}
    {count : Nat} {done : Machine × Nat},
    killAll exit who pid signum targets (k, count) = some done → R k done.1
  | [], k, count, done, ran => by
      cases ran
      exact closed.refl k
  | target :: targets, k, count, done, ran => by
      unfold Kernel.killAll at ran
      split_ifs at ran
      · cases ran
        exact closed.refl k
      · obtain ⟨killed, killing, ran⟩ := bind_eq_some_iff.mp ran
        exact closed.trans (closed.killOne killing) (killAll ran)
      · exact killAll ran

/-- **`sys_kill`.** -/
theorem sysKill {pid number result : Int} (ran : sysKill exit k who pid number = some (k', result)) :
    R k k' := by
  unfold Kernel.sysKill at ran
  split_ifs at ran
  · cases ran
    exact closed.refl k
  · cases ran
    exact closed.refl k
  · obtain ⟨done, killed, same⟩ := map_eq_some_iff.mp ran
    cases same
    exact closed.killAll killed

end Closed

end Winix.Kernel
