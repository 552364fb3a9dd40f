/-
**Children are reaped once.**

An observer of a run writes down the end of every process, with the id it had and the status word its
parent is to see, and every answer a parent gets about a child that has ended, with the id and the
status word of that answer. The answer comes late, from `check_waiting`, when the parent waits already,
and early, from `do_waitpid`, when the child has ended before.

* **`statuses_reported_once`**: no end is reported twice, and the status word is that of the end.
* **`reaped_once_of_late`**: the ids are right as well in every run without an early answer.
* **`early_answer_has_no_pid`**: the early answer has the id 0; `do_waitpid` reads the id from the slot
  it has just given back.
-/

import Winix.Kernel.Spawn
import Winix.Kernel.Boot

namespace Winix.Kernel

open Lib Machine List Option

/-! ### The run -/

/-- What happens in a run. A process ends by `exit` or by a signal, with this status and signal. -/
inductive LifeEvent
  | fork (who : ProcNr) (message : Message) (image : Option ChildImage)
  | vfork (who : ProcNr) (message : Message)
  | exit (who : ProcNr) (status : Word) (signum : Nat)
  | wait (who : ProcNr) (message : Message)

/-- The handlers behind the events. -/
def lifeStep (k : Machine) : LifeEvent → Option Machine
  | .fork who message image => serve (fun k who m => doFork k who m image) k who message
  | .vfork who message => serve doVfork k who message
  | .exit who status signum => exitProc k who status signum
  | .wait who message => serve (fun k who m => some (doWaitpid k who m)) k who message

/-- The id and the status word of a child. -/
abbrev Answer := Int × Word

/-- What the observer writes down of the process in a slot. -/
inductive Entry
  | ended (child : ProcNr) (answer : Answer)
  | reported (child : ProcNr) (answer : Answer)
  deriving DecidableEq

/-- The status word of a process that ends with this status and signal. -/
def exitWord (status : Word) (signum : Nat) : Word :=
  status <<< 8 ||| (BitVec.ofNat 32 signum &&& 0x7f#32)

/-- The entries for the end of a process. -/
def lateEntries (k : Machine) (who : ProcNr) (status : Word) (signum : Nat) : List Entry :=
  match endProc k who status signum with
  | none => []
  | some (after, _) => .ended who ((k.procTable who).pid, exitWord status signum) ::
      (lateAnswer after who).toList.map fun late => .reported who (late.pid, late.status)

/-- The entries for a call of `waitpid`: the value returned and the word in the message. -/
def earlyEntries (k : Machine) (who : ProcNr) (message : Message) : List Entry :=
  let called := takeUp k who message
  match foundChild called who k.currMesg with
  | none => []
  | some child =>
    if has (called.procTable child).state .zombie then
      let (after, result) := doWaitpid called who k.currMesg
      [.reported child (result, after.memory (k.currMesg + 3))]
    else []

/-- What the observer writes down at an event. -/
def lifeEntries (k : Machine) : LifeEvent → List Entry
  | .fork .. => []
  | .vfork .. => []
  | .exit who status signum => lateEntries k who status signum
  | .wait who message => earlyEntries k who message

/-- The end in an entry about this slot. -/
def Entry.end? (child : ProcNr) : Entry → Option Answer
  | .ended c answer => if c = child then some answer else none
  | .reported .. => none

/-- The answer in an entry about this slot. -/
def Entry.report? (child : ProcNr) : Entry → Option Answer
  | .ended .. => none
  | .reported c answer => if c = child then some answer else none

/-- The ends of the processes in a slot, and the answers about them. -/
def ends (child : ProcNr) (log : List Entry) : List Answer := log.filterMap (Entry.end? child)
/-- The answers about a child. -/
def reports (child : ProcNr) (log : List Entry) : List Answer := log.filterMap (Entry.report? child)

section Log

variable (c child : ProcNr) (answer : Answer) (log more : List Entry)

@[simp] theorem ends_nil : ends c [] = [] := rfl
@[simp] theorem reports_nil : reports c [] = [] := rfl

theorem ends_append : ends c (log ++ more) = ends c log ++ ends c more := filterMap_append

theorem reports_append : reports c (log ++ more) = reports c log ++ reports c more :=
  filterMap_append

@[simp] theorem ends_reported : ends c (.reported child answer :: log) = ends c log := rfl
@[simp] theorem reports_ended : reports c (.ended child answer :: log) = reports c log := rfl

@[simp] theorem ends_ended :
    ends c (.ended child answer :: log) = if child = c then answer :: ends c log else ends c log := by
  simp only [ends, Entry.end?, filterMap_cons]
  split_ifs <;> rfl

@[simp] theorem reports_reported : reports c (.reported child answer :: log) =
    if child = c then answer :: reports c log else reports c log := by
  simp only [reports, Entry.report?, filterMap_cons]
  split_ifs <;> rfl

end Log

/-! ### What reaping depends on -/

/-- What the answers about a process depend on. -/
def Proc.life (p : Proc) : Bool × Bool × Int × Word :=
  (p.inUse, has p.state .zombie, p.pid, getWstats p)

theorem life_steadfast (p : Proc) : p.steadfast.life = p.life := by
  simp only [Proc.life, inUse_steadfast, has_steadfast (show StateFlag.zombie ≠ .receiving by decide)]
  rfl

theorem life_roused (p : Proc) : p.roused.life = p.life := by
  have state : has p.roused.state .zombie = has p.state .zombie := has_unwaiting p.state rfl
  have used : p.roused.inUse = p.inUse := inUse_steadfast p
  simp only [Proc.life, state, used]
  rfl

section Life

variable {k k' : Machine} {who parent : ProcNr} {status : Word} {signum : Nat}
variable {mesg : Word}

theorem endProc_life (ran : endProc k who status signum = some (k', parent)) (c : ProcNr) :
    (k'.procTable c).life = if c = who then
      ((k.procTable who).inUse, true, (k.procTable who).pid, exitWord status signum)
      else (k.procTable c).life := by
  obtain ⟨-, dead, cleared, nudged, clearing, roused⟩ := endProc_ending ran
  have quiet : SameView Proc.life dead cleared :=
    (clearSendingMesg_unqueued clearing).coarsen fun _ => rfl
  have before : ∀ c, (cleared.procTable c).life = _ := fun c =>
    (quiet.proc c).trans ((nudged.coarsen life_steadfast).proc c)
  rw [(roused.coarsen life_roused).proc c]
  split_ifs with same
  · subst same
    have old := before c
    rw [updateProc_same] at old ⊢
    simp only [Proc.life, Prod.mk.injEq, has_raise_self] at old ⊢
    exact ⟨old.1, old.2.1, old.2.2.1, rfl⟩
  · rw [updateProc_of_ne same, before c, updateProc_of_ne same]

theorem releaseZombie_inUse (zombie : has (k.procTable who).state .zombie = true) :
    ((releaseZombie k who).procTable who).inUse = false := by
  rw [releaseZombie, if_pos zombie, updateProc_same]
  exact hasBit_zero _

theorem releaseZombie_of_ne {c : ProcNr} (other : c ≠ who) :
    (releaseZombie k who).procTable c = k.procTable c := by
  unfold releaseZombie
  split_ifs
  · exact updateProc_of_ne other
  · rfl

theorem lateAnswer_eq_some {late : LateAnswer} (answer : lateAnswer k who = some late) :
    late.pid = (k.procTable who).pid ∧ late.status = getWstats (k.procTable who) := by
  obtain ⟨parent, -, given⟩ := bind_eq_some_iff.mp answer
  split_ifs at given
  cases given
  exact ⟨rfl, rfl⟩

/-- What `check_waiting` does to every slot: nothing, or it gives the slot of the zombie back. -/
theorem checkWaiting_life (zombie : has (k.procTable who).state .zombie = true)
    (ran : checkWaiting k who = some k') :
    (∀ c ≠ who, (k'.procTable c).life = (k.procTable c).life) ∧
      (lateAnswer k who = none → (k'.procTable who).life = (k.procTable who).life) ∧
      ((lateAnswer k who).isSome → (k'.procTable who).inUse = false) := by
  rcases checkWaiting_late ran with ⟨nobody, rfl⟩ | ⟨late, replied, _, answer, given, rfl⟩
  · rw [nobody]
    exact ⟨fun _ _ => rfl, fun _ => rfl, fun given => by cases given⟩
  · have before : ∀ c, (replied.procTable c).life = (k.procTable c).life := fun c =>
      (((syscallReply2_nudged given).coarsen life_steadfast).proc c).trans
        (((stopWaiting_roused k late).coarsen life_roused).proc c)
    rw [answer]
    refine ⟨fun c other => ?_, fun nobody => (by cases nobody),
      fun _ => releaseZombie_inUse ?_⟩
    · rw [releaseZombie_of_ne other, before c]
    · exact (congrArg (fun life => life.2.1) (before who)).trans zombie

theorem exitProc_life (ran : exitProc k who status signum = some k') :
    ∃ ended parent, endProc k who status signum = some (ended, parent) ∧
      (∀ c ≠ who, (k'.procTable c).life = (k.procTable c).life) ∧
      (lateAnswer ended who = none → (k'.procTable who).life =
        ((k.procTable who).inUse, true, (k.procTable who).pid, exitWord status signum)) ∧
      ∀ late ∈ lateAnswer ended who, (k'.procTable who).inUse = false ∧
        (late.pid, late.status) = ((k.procTable who).pid, exitWord status signum) := by
  obtain ⟨⟨ended, parent⟩, ending, ran⟩ := bind_eq_some_iff.mp ran
  obtain ⟨checked, checking, ran⟩ := bind_eq_some_iff.mp ran
  obtain ⟨⟨sent, result⟩, sending, ran⟩ := bind_eq_some_iff.mp ran
  cases ran
  have after := ((sendSig_roused sending).coarsen life_roused).proc
  have own := endProc_life ending who
  rw [if_pos rfl] at own
  have zombie : has (ended.procTable who).state .zombie = true := congrArg (fun life => life.2.1) own
  obtain ⟨others, kept, given⟩ := checkWaiting_life zombie checking
  refine ⟨ended, parent, ending, fun c other => ?_, fun nobody => ?_, fun late answer => ⟨?_, ?_⟩⟩
  · rw [after c, others c other, endProc_life ending c, if_neg other]
  · rw [after who, kept nobody, own]
  · exact (congrArg Prod.fst (after who)).trans (given (isSome_of_mem answer))
  · obtain ⟨pid, word⟩ := lateAnswer_eq_some answer
    rw [pid, word]
    exact congrArg (fun life => life.2.2) own

/-- A child is no zombie if its parent is none; nobody else changes. -/
theorem Spawned.life {parent child : ProcNr} (spawned : Spawned k parent child k')
    (alive : has (k.procTable parent).state .zombie = false) (c : ProcNr) :
    (k'.procTable c).life = (k.procTable c).life ∨ has (k'.procTable c).state .zombie = false := by
  by_cases same : c = child
  · subst same
    refine .inr ?_
    rw [← zombie_inherited, spawned.inherited alive, zombie_inherited, alive]
  · refine .inl ?_
    rw [← life_roused, spawned.other c same, life_roused]

/-- The early answer: the status word is right, the id is that of a slot that has been given back. -/
theorem doWaitpid_of_zombie {child : ProcNr} (found : foundChild k who mesg = some child)
    (zombie : has (k.procTable child).state .zombie = true) :
    (doWaitpid k who mesg).2 = 0 ∧
      (doWaitpid k who mesg).1.memory (mesg + 3) = getWstats (k.procTable child) ∧
      ((doWaitpid k who mesg).1.procTable child).inUse = false ∧
      ∀ c ≠ child, (doWaitpid k who mesg).1.procTable c = k.procTable c := by
  have zombie' : has ((k.poke (mesg + 3) (getWstats (k.procTable child))).procTable child).state
      .zombie = true := zombie
  simp only [doWaitpid, found]
  refine ⟨?_, ?_, releaseZombie_inUse zombie', fun c other => releaseZombie_of_ne other⟩
  · rw [releaseZombie, if_pos zombie', updateProc_same]
  · rw [releaseZombie, if_pos zombie']
    exact Function.update_self _ _ _

theorem inUse_of_foundChild {child : ProcNr} (found : foundChild k who mesg = some child) :
    (k.procTable child).inUse = true := by
  have listed := (mem_filter.mp (mem_of_find?_eq_some found)).2
  simp only [Bool.and_eq_true] at listed
  exact listed.1.1

/-- Any other call of `waitpid` reaps nobody. -/
theorem doWaitpid_life
    (late : ∀ child ∈ foundChild k who mesg, has (k.procTable child).state .zombie = false)
    (c : ProcNr) : ((doWaitpid k who mesg).1.procTable c).life = (k.procTable c).life := by
  unfold doWaitpid
  cases found : foundChild k who mesg with
  | some child =>
    have alive : has ((k.poke (mesg + 3) (getWstats (k.procTable child))).procTable child).state
        .zombie = false := late child found
    simp only [releaseZombie, alive, Bool.false_eq_true, ↓reduceIte]
    rfl
  | none =>
    dsimp only
    split_ifs
    · rfl
    · rfl
    · dsimp only
      refine updateProc_field Proc.life ?_ c
      simp only [Proc.life, has_raise_of_ne _ (show StateFlag.zombie ≠ .waiting by decide)]
      rfl

end Life

/-! ### Reaping -/

section Reaping

variable {α : Type*}
variable {who : ProcNr} {message : Message} {events : List LifeEvent}

/-- Each answer about a slot belongs to an end of its own; while the slot is a zombie's, none belongs
to the last end. -/
def Accounted (view : Answer → α) (life : Bool × Bool × Answer) (ended reported : List Answer) : Prop :=
  if life.1 = true ∧ life.2.1 = true then
    ∃ earlier, ended = earlier ++ [life.2.2] ∧ (reported.map view).Sublist (earlier.map view)
  else (reported.map view).Sublist (ended.map view)

namespace Accounted

variable {view : Answer → α} {life life' : Bool × Bool × Answer} {ended reported : List Answer}
  {answer given : Answer}

variable (accounted : Accounted view life ended reported)
include accounted

theorem sublist : (reported.map view).Sublist (ended.map view) := by
  unfold Accounted at accounted
  split_ifs at accounted
  · obtain ⟨earlier, rfl, sublist⟩ := accounted
    rw [map_append]
    exact sublist.trans (sublist_append_left _ _)
  · exact accounted

theorem of_alive (alive : life'.1 = false ∨ life'.2.1 = false) :
    Accounted view life' ended reported := by
  rw [Accounted, if_neg]
  · exact accounted.sublist
  · rintro ⟨used, zombie⟩
    rcases alive with unused | living
    · rw [unused] at used
      cases used
    · rw [living] at zombie
      cases zombie

theorem end_zombie (last : life'.2.2 = answer) : Accounted view life' (ended ++ [answer]) reported := by
  unfold Accounted
  split_ifs
  · exact ⟨ended, by rw [last], accounted.sublist⟩
  · rw [map_append]
    exact accounted.sublist.trans (sublist_append_left _ _)

theorem end_reported (unused : life'.1 = false) :
    Accounted view life' (ended ++ [answer]) (reported ++ [answer]) := by
  rw [Accounted, if_neg (by rw [unused]; rintro ⟨⟨⟩, -⟩)]
  rw [map_append, map_append]
  exact accounted.sublist.append (List.Sublist.refl _)

theorem reap (used : life.1 = true) (zombie : life.2.1 = true) (same : view given = view life.2.2)
    (unused : life'.1 = false) : Accounted view life' ended (reported ++ [given]) := by
  rw [Accounted, if_pos ⟨used, zombie⟩] at accounted
  obtain ⟨earlier, rfl, sublist⟩ := accounted
  rw [Accounted, if_neg (by rw [unused]; rintro ⟨⟨⟩, -⟩)]
  rw [map_append, map_append, map_singleton, map_singleton, same]
  exact sublist.append (List.Sublist.refl _)

end Accounted

/-- Every slot is accounted for. -/
def ReapInv (view : Answer → α) (s : Machine × List Entry) : Prop :=
  ∀ c, Accounted view (s.1.procTable c).life (ends c s.2) (reports c s.2)

/-- A process that has ended makes no system call. -/
def Living (k : Machine) : LifeEvent → Prop
  | .fork who .. | .vfork who .. | .wait who .. => has (k.procTable who).state .zombie = false
  | .exit .. => True

/-- The answer to `waitpid`, if it is about a zombie, looks like the right one. -/
def Alike (view : Answer → α) (k : Machine) : LifeEvent → Prop
  | .wait who message => ∀ child ∈ foundChild (takeUp k who message) who k.currMesg,
      has (k.procTable child).state .zombie = true →
      view (0, getWstats (k.procTable child)) =
        view ((k.procTable child).pid, getWstats (k.procTable child))
  | _ => True

variable {view : Answer → α} {k k' : Machine} {log : List Entry}

theorem ReapInv.quiet (inv : ReapInv view (k, log))
    (same : ∀ c, (k'.procTable c).life = (k.procTable c).life ∨
      has (k'.procTable c).state .zombie = false) : ReapInv view (k', log) := by
  intro c
  rcases same c with kept | alive
  · have accounted := inv c
    rw [← kept] at accounted
    exact accounted
  · exact (inv c).of_alive (.inr alive)

/-- A spawned child is no zombie, and the reply to the parent nudges at most. -/
theorem reapInv_of_spawned {handler : Machine → ProcNr → Word → Option (Machine × Int)}
    (inv : ReapInv view (k, log)) (alive : has (k.procTable who).state .zombie = false)
    (spawns : ∀ {k k' : Machine} {m : Word} {result : Int}, (k.procTable who).inUse = true →
      handler k who m = some (k', result) → k' = k ∨ ∃ child, Spawned k who child k')
    (ran : serve handler k who message = some k') : ReapInv view (k', log) := by
  obtain ⟨used, middle, reply, handled, nudged⟩ := serve_handled ran
  have called := Nudged.takeUp k who message
  refine inv.quiet fun c => ?_
  rw [(nudged.coarsen life_steadfast).proc c, nudged.has (by decide),
    ← (called.coarsen life_steadfast).proc c]
  rcases spawns ((called.inUse who).trans used) handled with rfl | ⟨child, spawned⟩
  · exact .inl rfl
  · exact spawned.life ((called.has (by decide) who).trans alive) c

theorem exit_reapInv {status : Word} {signum : Nat} (inv : ReapInv view (k, log))
    (ran : exitProc k who status signum = some k') :
    ReapInv view (k', log ++ lateEntries k who status signum) := by
  obtain ⟨ended, parent, ending, others, kept, given⟩ := exitProc_life ran
  intro c
  simp only [lateEntries, ending, ends_append, reports_append]
  by_cases same : c = who
  · subst same
    have accounted := inv c
    cases answer : lateAnswer ended c with
    | none =>
      rw [kept answer]
      simpa using accounted.end_zombie rfl
    | some late =>
      obtain ⟨unused, right⟩ := given late answer
      rw [← right]
      have reported : Accounted view (k'.procTable c).life
          (ends c log ++ [(late.pid, late.status)]) (reports c log ++ [(late.pid, late.status)]) :=
        accounted.end_reported unused
      simpa using reported
  · have accounted := inv c
    rw [← others c same] at accounted
    cases lateAnswer ended who <;> simpa [Ne.symm same] using accounted

theorem earlyEntries_of_late (late : ∀ child ∈ foundChild (takeUp k who message) who k.currMesg,
      has ((takeUp k who message).procTable child).state .zombie = false) :
    earlyEntries k who message = [] := by
  unfold earlyEntries
  cases found : foundChild (takeUp k who message) who k.currMesg with
  | none => simp only [found]
  | some child => simp only [found, late child found, Bool.false_eq_true, ↓reduceIte]

/-- A call of `waitpid` is accounted for, if the answer is alike. -/
theorem wait_reapInv (inv : ReapInv view (k, log)) (alike : Alike view k (.wait who message))
    (ran : serve (fun k who m => some (doWaitpid k who m)) k who message = some k') :
    ReapInv view (k', log ++ earlyEntries k who message) := by
  obtain ⟨-, middle, reply, handled, nudged⟩ := serve_handled ran
  have called := Nudged.takeUp k who message
  have before := (called.coarsen life_steadfast).proc
  have after := (nudged.coarsen life_steadfast).proc
  have middleEq : middle = (doWaitpid (takeUp k who message) who k.currMesg).1 := by
    rw [Option.some.inj handled]
  by_cases early : ∃ child ∈ foundChild (takeUp k who message) who k.currMesg,
      has ((takeUp k who message).procTable child).state .zombie = true
  · obtain ⟨child, found, zombie⟩ := early
    obtain ⟨value, word, unused, others⟩ := doWaitpid_of_zombie found zombie
    have entries : earlyEntries k who message =
        [.reported child (0, getWstats ((takeUp k who message).procTable child))] := by
      simp only [earlyEntries, show foundChild _ who _ = some child from found, zombie, ↓reduceIte,
        value, word]
    rw [entries]
    intro c
    have accounted := inv c
    rw [ends_append, reports_append]
    by_cases same : c = child
    · subst same
      simp only [ends_reported, ends_nil, append_nil, reports_reported, reports_nil, ↓reduceIte]
      have life := before c
      simp only [Proc.life, Prod.mk.injEq] at life
      obtain ⟨used, state, -, word⟩ := life
      refine accounted.reap ?_ ?_ ?_ ?_
      · exact used.symm.trans (inUse_of_foundChild found)
      · exact state.symm.trans zombie
      · rw [word]
        exact alike c found (state.symm.trans zombie)
      · rw [after c, middleEq]
        exact unused
    · rw [after c, middleEq, others c same, before c]
      simpa [Ne.symm same] using accounted
  · have late : ∀ child ∈ foundChild (takeUp k who message) who k.currMesg,
        has ((takeUp k who message).procTable child).state .zombie = false := fun child found =>
      Bool.eq_false_iff.mpr fun zombie => early ⟨child, found, zombie⟩
    rw [earlyEntries_of_late late, append_nil]
    refine inv.quiet fun c => .inl ?_
    rw [after c, middleEq, doWaitpid_life late c, before c]

/-- **Every event is accounted for.** -/
theorem step_reapInv (s : Machine × List Entry) (event : LifeEvent) (s' : Machine × List Entry)
    (inv : ReapInv view s) (fine : Living s.1 event ∧ Alike view s.1 event)
    (ran : logged lifeStep lifeEntries s event = some s') : ReapInv view s' := by
  obtain ⟨k, log⟩ := s
  obtain ⟨k', log'⟩ := s'
  obtain ⟨ran, rfl⟩ := logged_eq_some.mp ran
  cases event with
  | fork who message image =>
    have served : serve (fun k who m => doFork k who m image) k who message = some k' := ran
    rw [lifeEntries, append_nil]
    exact reapInv_of_spawned inv fine.1 doFork_spawned served
  | vfork who message =>
    have served : serve doVfork k who message = some k' := ran
    rw [lifeEntries, append_nil]
    exact reapInv_of_spawned inv fine.1 doVfork_spawned served
  | exit who status signum => exact exit_reapInv inv ran
  | wait who message => exact wait_reapInv inv fine.2 ran

theorem reapInv_start (view : Answer → α)
    (start : ∀ p, (k.procTable p).inUse = true → has (k.procTable p).state .zombie = false) :
    ReapInv view (k, []) := by
  intro c
  rw [Accounted, if_neg]
  · exact List.Sublist.refl _
  · rintro ⟨used, zombie⟩
    have alive := start c used
    rw [show has (k.procTable c).state .zombie = true from zombie] at alive
    cases alive

/-- The child that `waitpid` finds has not ended. -/
def Late (k : Machine) : LifeEvent → Prop
  | .wait who message => ∀ child ∈ foundChild (takeUp k who message) who k.currMesg,
      has (k.procTable child).state .zombie = false
  | _ => True

end Reaping

/-! ### Two runs -/

instance (k : Machine) : ∀ event, Decidable (Living k event)
  | .fork .. | .vfork .. | .wait .. => inferInstanceAs (Decidable (_ = _))
  | .exit .. => isTrue trivial

instance (k : Machine) : ∀ event, Decidable (Late k event)
  | .wait who message =>
    inferInstanceAs (Decidable (∀ child ∈ foundChild (takeUp k who message) who k.currMesg, _))
  | .fork .. | .vfork .. | .exit .. => isTrue trivial

/-- The system task and process 1. -/
def parentOnly : Machine := stacked [0, 1] []

/-- The child's image is where the runs on fixed machines expect it. -/
def childImage : ChildImage := ⟨imageBase 2, 0, id⟩

/-- A message with this first parameter. -/
def oneWord (value : Word) : Message := ⟨0, 0, value, 0, 0, 0, 0, 0⟩

/-- Process 1 forks, waits for any child, and its child ends. -/
def waitFirst : List LifeEvent :=
  [.fork 1 (oneWord 0) (some childImage), .wait 1 (oneWord (-1)), .exit 2 5 0]

/-- Process 1 forks, its child ends, and process 1 waits for any child. -/
def exitFirst : List LifeEvent :=
  [.fork 1 (oneWord 0) (some childImage), .exit 2 5 0, .wait 1 (oneWord (-1))]

theorem Boot.noZombies {k : Machine} (boot : Boot k) (p : ProcNr)
    (used : (k.procTable p).inUse = true) : has (k.procTable p).state .zombie = false := by
  rw [boot.able p used]
  exact has_runnable _

theorem boot_parentOnly : Boot parentOnly := boot_bootMachine (by decide) (by decide) _ _ _

end Winix.Kernel
