/-
**What is left of a process that has ended.**

Other parts of the system know a process by a pointer to its slot: the sender queue it is in, the
process table entries of those it sends to, the requests that wait on a pipe, the reader of a
terminal. The `World` is the machine with the pipes and the terminals, and a run is any sequence of
messages, scheduling, signals, forks, ends and reads and writes of pipes and terminals.

* **`traceless_of_orderly`**: nothing refers to a slot that is not in use, in every run that is orderly
  (`OrderlyWorld`).
* `exit_proc` takes the process out of the queues of others and does nothing else: a process that is
  sending to it stays queued, and its pipe request and its entry as a reader stay
  (`exit_leaves_traces`).
-/

import Winix.Driver.Tty
import Winix.Fs.Pipe
import Winix.Kernel.Reply
import Winix.Kernel.Waitlist

namespace Winix.Kernel

open Lib Function Option

/-- `SIGPIPE`. -/
def sigpipe : Nat := 13

/-- The number of an entry of the inode table. -/
abbrev PipeNr := Fin 48

/-- The number of a serial port. -/
abbrev TtyNr := Fin 2

/-- The machine, the pipes and the terminals. -/
structure World where
  kernel : Machine
  pipes : PipeNr → Fs.Pipe.State
  ttys : TtyNr → Driver.Tty

/-! ### Pipes -/

/-- The pipe with the memory and the process table entries of its users as they are now. -/
def loadPipe (k : Machine) (s : Fs.Pipe.State) : Fs.Pipe.State :=
  { s with
    memory := fun address => k.memory (BitVec.ofNat 32 address)
    flags := fun p => (k.procTable p).flags
    ignoresSigpipe := fun p => decide (((k.procTable p).sigTable sigpipe).handler = sigIgn) }

/-- What a call on a pipe wrote to the memory and the process table. -/
def storePipe (k : Machine) (s : Fs.Pipe.State) : Machine :=
  { k with
    memory := fun address => s.memory address.toNat
    procTable := fun p => { k.procTable p with flags := s.flags p } }

/-- The pipe that `sys_pipe` makes, on a page with any contents. -/
def madePipe (s : Fs.Pipe.State) (data : Nat → Word) : Fs.Pipe.State :=
  { s with data, pos := 0, iCount := 2, writingList := [], readingList := [] }

/-- `pipe_close` of the last descriptor of one end. -/
def pipeClose (s : Fs.Pipe.State) : Fs.Pipe.State := { s with iCount := s.iCount - 1 }

/-- `syscall_reply2` to the processes whose requests have been completed. -/
def replyAll (m : Word) : List (Fs.Pipe.Waiting × Int) → Machine → Option Machine
  | [], k => some k
  | (next, ret) :: rest, k => do
    let (k, _) ← syscallReply2 k ret next.who m
    replyAll m rest k

/-- `send_sig(…, SIGPIPE)`. -/
def signalAll : List ProcNr → Machine → Option Machine
  | [], k => some k
  | who :: rest, k => do
    let (k, _) ← sendSig k who sigpipe
    signalAll rest k

/-- What a call on a pipe does to the machine. -/
def pipeCall (call : Fs.Pipe.State → Fs.Pipe.Outcome) (s : Fs.Pipe.State) (m : Word) (k : Machine) :
    Option (Machine × Int) := do
  let done := call (loadPipe k s)
  let k ← replyAll m done.replies (storePipe k done.pipe)
  let k ← signalAll done.signals k
  some (k, done.result)

/-! ### Events -/

/-- What happens in a run. The scheduler and the handling of signals are taken apart: `dispatch` is one
turn of the loop of `sched`, and `handle` acts on a signal, be it for the scheduler or for `sys_kill`.
The messages `m` of replies are locals of the system task or of the exception handler. -/
inductive TraceEvent
  | compute (regs : Nat → Word) (sp : Word) (stores : List (Word × Word))
  | trap
  | dispatch
  | tick
  | signal (who : ProcNr) (signum : Nat)
  | handle (who : ProcNr) (signum : Nat)
  /-- `handle_sig` in an interrupt, as after Control-C. -/
  | interrupted (who : ProcNr) (signum : Nat) (heap : Option Word) (stack : Word)
  | exit (who : ProcNr) (message : Message)
  | wait (who : ProcNr) (message : Message)
  | fork (who : ProcNr) (message : Message) (image : Option ChildImage)
  | vfork (who : ProcNr) (message : Message)
  | pipe (n : PipeNr) (data : Nat → Word)
  | read (n : PipeNr) (who : ProcNr) (message : Message) (filp : Fs.Pipe.Filp) (data count : Nat)
      (granted : Bool) (m : Word)
  | write (n : PipeNr) (who : ProcNr) (message : Message) (filp : Fs.Pipe.Filp)
      (data count offset : Nat) (granted : Bool) (m : Word)
  | closeEnd (n : PipeNr)
  | ttyRead (t : TtyNr) (who : ProcNr) (message : Message) (nonblock : Bool) (data : Word) (count : Nat)
  | ttyInput (t : TtyNr) (val : Word) (m : Word)

/-- A system call. A process that has ended makes none. -/
def ask (handler : Machine → ProcNr → Word → Option (Machine × Int)) (k : Machine) (who : ProcNr)
    (message : Message) : Option Machine :=
  if IsZombie k who then none else serve handler k who message

/-- The machine after an event, and after what it does to the machine. -/
def World.withKernel (w : World) (kernel : Option Machine) : Option World :=
  kernel.map fun kernel => { w with kernel }

/-- A system call on a pipe. -/
def World.askPipe (w : World) (n : PipeNr) (who : ProcNr) (message : Message) (m : Word)
    (call : Fs.Pipe.State → Fs.Pipe.Outcome) : Option World :=
  let called := loadPipe (takeUp w.kernel who message) (w.pipes n)
  (ask (fun k _ _ => pipeCall call (w.pipes n) m k) w.kernel who message).map fun kernel =>
    { w with kernel, pipes := update w.pipes n (call called).pipe }

/-- `tty_read` as a handler. -/
def ttyHandler (s : Driver.Tty) (nonblock : Bool) (data : Word) (count : Nat) (k : Machine)
    (who : ProcNr) : Machine × Int :=
  let (result, _, memory) := Driver.ttyRead s k who nonblock data count
  ({ k with memory }, result)

/-- The reply of the interrupt handler, if a line is complete. -/
def answerReader (k : Machine) (m : Word) : Option (ProcNr × Int) → Option Machine
  | none => some k
  | some (reader, count) => (syscallReply2 k count reader m).map Prod.fst

/-- One event. -/
def worldStep (w : World) : TraceEvent → Option World
  | .compute regs sp stores =>
    w.withKernel ((running w.kernel).bind fun _ => compute w.kernel regs sp stores)
  | .trap => w.withKernel ((running w.kernel).bind fun cur => trap w.kernel cur)
  | .dispatch => w.withKernel (dispatch w.kernel)
  | .tick =>
    w.withKernel (w.kernel.currentProc.bind fun cur => doTicks numTimers (account w.kernel cur))
  | .signal who signum => w.withKernel ((sendSig w.kernel who signum).map Prod.fst)
  | .handle who signum => w.withKernel ((getProc w.kernel who).bind fun who =>
      handleSig exitProc w.kernel who signum)
  | .interrupted who signum heap stack => w.withKernel ((getProc w.kernel who).bind fun who =>
      handleSig (exitProcInInterrupt heap stack) w.kernel who signum)
  | .exit who message => w.withKernel (serve doExit w.kernel who message)
  | .wait who message =>
    w.withKernel (ask (fun k who m => some (doWaitpid k who m)) w.kernel who message)
  | .fork who message image =>
    w.withKernel (ask (fun k who m => doFork k who m image) w.kernel who message)
  | .vfork who message => w.withKernel (ask doVfork w.kernel who message)
  | .pipe n data => some { w with pipes := update w.pipes n (madePipe (w.pipes n) data) }
  | .read n who message filp data count granted m => w.askPipe n who message m fun s =>
      Fs.Pipe.pipeRead s who filp data count granted
  | .write n who message filp data count offset granted m => w.askPipe n who message m fun s =>
      Fs.Pipe.pipeWrite s who filp data count offset granted
  | .closeEnd n => some { w with pipes := update w.pipes n (pipeClose (w.pipes n)) }
  | .ttyRead t who message nonblock data count =>
    let called := takeUp w.kernel who message
    let (_, tty, _) := Driver.ttyRead (w.ttys t) called who nonblock data count
    (ask (fun k who _ => some (ttyHandler (w.ttys t) nonblock data count k who)) w.kernel who
      message).map
      fun kernel => { w with kernel, ttys := update w.ttys t tty }
  | .ttyInput t val m =>
    let done := Driver.ttyExceptionHandler (w.ttys t) w.kernel.memory val
    (answerReader { w.kernel with memory := done.memory } m done.reply).map fun kernel =>
      { w with kernel, ttys := update w.ttys t done.tty }

/-! ### Traces -/

/-- The processes that are entered in a pipe or a terminal. -/
def World.listed (w : World) : Set ProcNr :=
  { p | (∃ n, ∃ next ∈ (w.pipes n).waiting, next.who = p) ∨ ∃ t, (w.ttys t).reader = some p }

/-- Nothing refers to the process: nobody is queued on it, and it is in no sender queue, in no list of
a pipe, and not the reader of a terminal. -/
structure Traceless (w : World) (queues : ProcNr → List ProcNr) (p : ProcNr) : Prop where
  unawaited : queues p = []
  unqueued : ∀ q, p ∉ queues q
  pipes : ∀ n, ∀ next ∈ (w.pipes n).waiting, next.who ≠ p
  ttys : ∀ t, (w.ttys t).reader ≠ some p

/-- The sender queues are well formed, and nothing refers to a slot that is not in use. -/
def NoTraces (w : World) : Prop :=
  ∃ queues, Threads (nextSender w.kernel) (senderQ w.kernel) queues ∧
    ∀ p, (w.kernel.procTable p).inUse = false → Traceless w queues p

/-- Nobody is queued on the process, and it is entered in no pipe and no terminal. -/
def Unattached (w : World) (p : ProcNr) : Prop :=
  senderQ w.kernel p = none ∧ (∀ n, ∀ next ∈ (w.pipes n).waiting, next.who ≠ p) ∧
    ∀ t, (w.ttys t).reader ≠ some p

instance (w : World) (p : ProcNr) : Decidable (Unattached w p) := inferInstanceAs (Decidable (_ ∧ _))

/-- A process that ends is not attached; a send does not block on a zombie; a process that forks has
no sender queue; a process that catches a signal is not in one. -/
def OrderlyWorld (w : World) : TraceEvent → Prop
  | .trap => ∀ cur ∈ running w.kernel,
      ((decode w.kernel cur).2.operation = winixSend ∨
        (decode w.kernel cur).2.operation = winixSendrec) →
      has (w.kernel.procTable (decode w.kernel cur).2.dest).state .receiving = false →
      ¬ IsZombie w.kernel (decode w.kernel cur).2.dest
  | .handle who signum =>
    (fatal (w.kernel.procTable who) signum = true → Unattached w who) ∧
    (catches (w.kernel.procTable who) signum = true →
      has (w.kernel.procTable who).state .sending = false)
  | .interrupted who signum .. =>
    catches (w.kernel.procTable who) signum = true → has (w.kernel.procTable who).state .sending = false
  | .exit who _ => Unattached w who
  | .fork who .. | .vfork who _ => freeSlot w.kernel ≠ none → senderQ w.kernel who = none
  | _ => True

/-! ### One event -/

section Step

variable {w w' : World} {k k' : Machine} {queues : ProcNr → List ProcNr} {listed : Set ProcNr}
variable {handler : Machine → ProcNr → Word → Option (Machine × Int)} {who : ProcNr}
variable {message : Message} {m : Word} {call : Fs.Pipe.State → Fs.Pipe.Outcome}

/-- The queues of the machine and the lists of the pipes and terminals. -/
abbrev World.Tidy (w : World) (queues : ProcNr → List ProcNr) : Prop :=
  Waitlists w.kernel w.listed queues

theorem Unattached.unlisted {p : ProcNr} (free : Unattached w p) : p ∉ w.listed := by
  rintro (⟨n, next, member, same⟩ | ⟨t, reads⟩)
  · exact free.2.1 n next member same
  · exact free.2.2 t reads

theorem Waitlists.relist {listed' : Set ProcNr} (lists : Waitlists k listed queues)
    (living : ∀ p ∈ listed', p ∈ listed ∨ ¬ IsZombie k p) : Waitlists k listed' queues :=
  { lists with entered := fun p member => (living p member).elim (lists.entered p) id }

theorem tidy_of_withKernel {kernel : Option Machine}
    (keeps : ∀ k', kernel = some k' → ∃ queues', Waitlists k' w.listed queues')
    (ran : w.withKernel kernel = some w') : ∃ queues', w'.Tidy queues' := by
  obtain ⟨k', found, rfl⟩ := map_eq_some_iff.mp ran
  exact keeps k' found

theorem ask_handled (ran : ask handler k who message = some k') :
    ¬ IsZombie k who ∧ (k.procTable who).inUse = true ∧ ∃ middle reply,
      handler (takeUp k who message) who k.currMesg = some (middle, reply) ∧ SameTraces middle k' := by
  unfold ask at ran
  split_ifs at ran with dead
  obtain ⟨used, middle, reply, handled, nudged⟩ := serve_handled ran
  exact ⟨dead, used, middle, reply, handled, .of_nudged nudged⟩

theorem trap_waitlists {cur : ProcNr} (lists : Waitlists k listed queues)
    (able : (k.procTable cur).state = runnable)
    (toLiving : ((decode k cur).2.operation = winixSend ∨ (decode k cur).2.operation = winixSendrec) →
      has (k.procTable (decode k cur).2.dest).state .receiving = false →
      ¬ IsZombie k (decode k cur).2.dest)
    (ran : trap k cur = some k') : ∃ queues', Waitlists k' listed queues' := by
  have same := SameQueues.fetch k cur
  have traces := SameTraces.of_sameQueues same
  refine perform_waitlists (traces.waitlists lists) ((same.state cur).trans able) ?_ ran
  rw [same.state, traces.zombie]
  exact toLiving

theorem runTimer_traces {t : Timer} (ran : runTimer k t = some k') : SameTraces k k' := by
  rcases runTimer_cases ran with ran | roused
  · obtain ⟨c, added, ran⟩ := bind_eq_some_iff.mp ran
    cases ran
    intro p
    dsimp only
    split_ifs <;> rfl
  · exact .of_roused roused

theorem doTicks_traces {fuel : Nat} (ran : doTicks fuel k = some k') : SameTraces k k' := by
  refine doTicks_invariant (SameTraces k) (fun {k _ _ c} same dequeued fires => ?_) (.refl k) ran
  have clocked : SameTraces k { k with clock := c } := .of_procTable rfl
  exact same.trans (clocked.trans (runTimer_traces fires))

theorem replyAll_traces : ∀ {replies : List (Fs.Pipe.Waiting × Int)} {k : Machine},
    replyAll m replies k = some k' → SameTraces k k'
  | [], k, ran => by
      cases ran
      exact .refl _
  | (next, ret) :: rest, k, ran => by
      obtain ⟨⟨answered, result⟩, replied, ran⟩ := bind_eq_some_iff.mp ran
      exact (SameTraces.of_nudged (syscallReply2_nudged replied)).trans (replyAll_traces ran)

theorem signalAll_traces : ∀ {signals : List ProcNr} {k : Machine},
    signalAll signals k = some k' → SameTraces k k'
  | [], k, ran => by
      cases ran
      exact .refl _
  | who :: rest, k, ran => by
      obtain ⟨⟨sent, result⟩, sending, ran⟩ := bind_eq_some_iff.mp ran
      exact (SameTraces.of_roused (sendSig_roused sending)).trans (signalAll_traces ran)

/-- A call on a pipe changes nothing in the process table that the queues depend on. -/
theorem pipeCall_traces {s : Fs.Pipe.State} {result : Int}
    (enters : Fs.Pipe.Enters who (loadPipe k s) (call (loadPipe k s)).pipe)
    (ran : pipeCall call s m k = some (k', result)) : SameTraces k k' := by
  obtain ⟨replied, replying, ran⟩ := bind_eq_some_iff.mp ran
  obtain ⟨signalled, signalling, ran⟩ := bind_eq_some_iff.mp ran
  cases ran
  refine SameTraces.trans (fun p => ?_) ((replyAll_traces replying).trans (signalAll_traces signalling))
  have used : ((storePipe k (call (loadPipe k s)).pipe).procTable p).inUse = (k.procTable p).inUse :=
    enters.inUse p
  simp only [Proc.trace, used]
  rfl

/-- **A call on a pipe** enters nobody but its caller, which is alive. -/
theorem askPipe_tidy {n : PipeNr} (tidy : w.Tidy queues)
    (enters : ∀ s, Fs.Pipe.Enters who s (call s).pipe)
    (ran : w.askPipe n who message m call = some w') : w'.Tidy queues := by
  obtain ⟨k', asked, rfl⟩ := map_eq_some_iff.mp ran
  obtain ⟨living, used, middle, reply, handled, same⟩ := ask_handled asked
  have traces : SameTraces w.kernel k' := (SameTraces.of_nudged (Nudged.takeUp _ who message)).trans
    ((pipeCall_traces (enters _) handled).trans same)
  refine (traces.waitlists tidy).relist fun p member => ?_
  rcases member with ⟨n', next, member, rfl⟩ | reads
  · by_cases here : n' = n
    · subst here
      simp only [update_self] at member
      rcases (enters _).waiting next member with old | rfl
      · exact .inl (.inl ⟨n', next, old, rfl⟩)
      · exact .inr fun dead => living ((traces.zombie _).mp dead)
    · simp only [update_of_ne here] at member
      exact .inl (.inl ⟨n', next, member, rfl⟩)
  · exact .inl (.inr reads)

theorem ttyHandler_traces (s : Driver.Tty) (nonblock : Bool) (data : Word) (count : Nat) (k : Machine)
    (who : ProcNr) : SameTraces k (ttyHandler s nonblock data count k who).1 := .of_procTable rfl

theorem answerReader_traces {reply : Option (ProcNr × Int)} (ran : answerReader k m reply = some k') :
    SameTraces k k' := by
  unfold answerReader at ran
  split at ran
  · cases ran
    exact .refl _
  · obtain ⟨⟨answered, result⟩, replied, rfl⟩ := map_eq_some_iff.mp ran
    exact .of_nudged (syscallReply2_nudged replied)

/-- Another terminal, whose reader was the reader before or is alive. -/
theorem Waitlists.setTty {t : TtyNr} {tty : Driver.Tty} (tidy : Waitlists k w.listed queues)
    (living : ∀ p, tty.reader = some p → (w.ttys t).reader = some p ∨ ¬ IsZombie k p) :
    World.Tidy { w with kernel := k, ttys := update w.ttys t tty } queues := by
  refine tidy.relist fun p member => ?_
  rcases member with inPipe | ⟨t', reads⟩
  · exact .inl (.inl inPipe)
  · by_cases here : t' = t
    · subst here
      simp only [update_self] at reads
      exact (living p reads).imp_left fun old => .inr ⟨t', old⟩
    · simp only [update_of_ne here] at reads
      exact .inl (.inr ⟨t', reads⟩)

theorem World.Tidy.setPipe {n : PipeNr} {s : Fs.Pipe.State} (tidy : w.Tidy queues)
    (fewer : s.waiting ⊆ (w.pipes n).waiting) :
    World.Tidy { w with pipes := update w.pipes n s } queues := by
  refine Waitlists.relist tidy fun p member => .inl ?_
  rcases member with ⟨n', next, member, rfl⟩ | reads
  · by_cases here : n' = n
    · subst here
      simp only [update_self] at member
      exact .inl ⟨n', next, fewer member, rfl⟩
    · simp only [update_of_ne here] at member
      exact .inl ⟨n', next, member, rfl⟩
  · exact .inr reads

theorem doExit_waitlists (tidy : w.Tidy queues) (free : Unattached w who)
    (ran : serve doExit w.kernel who message = some k') :
    ∃ queues', Waitlists k' w.listed queues' := by
  obtain ⟨used, middle, reply, handled, nudged⟩ := serve_handled ran
  obtain ⟨ended, ending, same⟩ := bind_eq_some_iff.mp handled
  cases same
  have called := SameTraces.of_nudged (Nudged.takeUp w.kernel who message)
  obtain ⟨queues', lists⟩ := exitProc_waitlists (called.waitlists tidy)
    ((congrFun called.senderQ who).trans free.1) free.unlisted ending
  exact ⟨queues', (SameTraces.of_nudged nudged).waitlists lists⟩

theorem ask_spawned (lists : Waitlists k listed queues)
    (spawns : ∀ {called middle : Machine} {reply : Int}, (called.procTable who).inUse = true →
      handler called who called.currMesg = some (middle, reply) →
      middle = called ∨ ∃ child, Spawned called who child middle)
    (alone : freeSlot k ≠ none → senderQ k who = none) (ran : ask handler k who message = some k') :
    Waitlists k' listed queues := by
  obtain ⟨living, used, middle, reply, handled, same⟩ := ask_handled ran
  have nudged := Nudged.takeUp k who message
  have called := SameTraces.of_nudged nudged
  have lists' := called.waitlists lists
  rw [← nudged.currMesg] at handled
  refine same.waitlists ?_
  rcases spawns ((called.inUse who).trans used) handled with rfl | ⟨child, spawned⟩
  · exact lists'
  · refine spawned_waitlists lists' (fun dead => living ((called.zombie who).mp dead)) ?_
      ((called.inUse who).trans used) spawned
    refine (congrFun called.senderQ who).trans (alone ?_)
    rw [← nudged.freeSlot, spawned.taken]
    exact some_ne_none child

/-- **Every orderly event keeps the lists tidy.** -/
theorem worldStep_tidy {event : TraceEvent} (tidy : w.Tidy queues) (orderly : OrderlyWorld w event)
    (ran : worldStep w event = some w') : ∃ queues', w'.Tidy queues' := by
  have quiet : ∀ {k'}, SameTraces w.kernel k' → ∃ queues', Waitlists k' w.listed queues' :=
    fun same => ⟨queues, same.waitlists tidy⟩
  unfold worldStep at ran
  cases event with
  | compute regs sp stores =>
    refine tidy_of_withKernel (fun k' ran => ?_) ran
    obtain ⟨cur, -, computed⟩ := bind_eq_some_iff.mp ran
    exact quiet (.of_sameQueues (compute_sameQueues computed))
  | trap =>
    refine tidy_of_withKernel (fun k' ran => ?_) ran
    obtain ⟨cur, runs, trapped⟩ := bind_eq_some_iff.mp ran
    exact trap_waitlists tidy (running_eq_some runs).2.2 (orderly cur runs) trapped
  | dispatch =>
    exact tidy_of_withKernel (fun k' ran => quiet (.of_sameIpc (dispatch_sameIpc ran))) ran
  | tick =>
    refine tidy_of_withKernel (fun k' ran => ?_) ran
    obtain ⟨cur, -, ticked⟩ := bind_eq_some_iff.mp ran
    exact quiet ((SameTraces.of_sameIpc (account_sameIpc _ cur)).trans (doTicks_traces ticked))
  | signal who signum =>
    refine tidy_of_withKernel (fun k' ran => ?_) ran
    obtain ⟨⟨sent, result⟩, sending, rfl⟩ := map_eq_some_iff.mp ran
    exact quiet (.of_roused (sendSig_roused sending))
  | handle who signum =>
    refine tidy_of_withKernel (fun k' ran => ?_) ran
    obtain ⟨p, found, handled⟩ := bind_eq_some_iff.mp ran
    obtain ⟨rfl, -, used⟩ := getProc_eq_some.mp found
    refine handleSig_waitlists tidy used (fun same ends ended => ?_) orderly.2 handled
    have free := orderly.1 ends
    exact exitProc_waitlists (same.waitlists tidy) ((congrFun same.senderQ p).trans free.1)
      free.unlisted ended
  | interrupted who signum heap stack =>
    refine tidy_of_withKernel (fun k' ran => ?_) ran
    obtain ⟨p, found, handled⟩ := bind_eq_some_iff.mp ran
    obtain ⟨rfl, -, used⟩ := getProc_eq_some.mp found
    exact handleSig_waitlists tidy used
      (fun same _ ended => quiet (same.trans (exitProcInInterrupt_traces ended))) orderly handled
  | exit who message =>
    exact tidy_of_withKernel (fun k' ran => doExit_waitlists tidy orderly ran) ran
  | wait who message =>
    refine tidy_of_withKernel (fun k' ran => ?_) ran
    obtain ⟨-, -, middle, reply, handled, same⟩ := ask_handled ran
    have called := SameTraces.of_nudged (Nudged.takeUp w.kernel who message)
    exact ⟨queues, same.waitlists
      (doWaitpid_waitlists (called.waitlists tidy) (Option.some.inj handled))⟩
  | fork who message image =>
    exact tidy_of_withKernel (fun k' ran => ⟨queues, ask_spawned tidy doFork_spawned orderly ran⟩) ran
  | vfork who message =>
    exact tidy_of_withKernel (fun k' ran => ⟨queues, ask_spawned tidy doVfork_spawned orderly ran⟩) ran
  | pipe n data =>
    cases ran
    exact ⟨queues, World.Tidy.setPipe tidy (List.nil_subset _)⟩
  | read n who message filp data count granted m =>
    exact ⟨queues,
      askPipe_tidy tidy (fun s => Fs.Pipe.pipeRead_enters s who filp data count granted) ran⟩
  | write n who message filp data count offset granted m =>
    exact ⟨queues, askPipe_tidy tidy
      (fun s => Fs.Pipe.pipeWrite_enters s who filp data count offset granted) ran⟩
  | closeEnd n =>
    cases ran
    exact ⟨queues, World.Tidy.setPipe tidy (List.Subset.refl _)⟩
  | ttyRead t who message nonblock data count =>
    obtain ⟨k', asked, rfl⟩ := map_eq_some_iff.mp ran
    obtain ⟨living, -, middle, reply, handled, same⟩ := ask_handled asked
    have traces : SameTraces w.kernel k' := by
      refine SameTraces.trans (.of_nudged (Nudged.takeUp _ who message)) (SameTraces.trans ?_ same)
      rw [← show (ttyHandler _ _ _ _ _ _).1 = middle from congrArg Prod.fst (Option.some.inj handled)]
      exact ttyHandler_traces _ _ _ _ _ _
    refine ⟨queues, (traces.waitlists tidy).setTty fun p reads => ?_⟩
    refine (Driver.ttyRead_reader reads).imp_right fun same => ?_
    rw [same, traces.zombie]
    exact living
  | ttyInput t val m =>
    obtain ⟨k', answered, rfl⟩ := map_eq_some_iff.mp ran
    have traces : SameTraces w.kernel k' := by
      refine SameTraces.trans ?_ (answerReader_traces answered)
      exact .of_procTable rfl
    exact ⟨queues, (traces.waitlists tidy).setTty fun p reads =>
      .inl (Driver.ttyExceptionHandler_reader reads)⟩

theorem World.Tidy.noTraces (tidy : w.Tidy queues) : NoTraces w := by
  refine ⟨queues, tidy.toThreads, fun p unused => ?_⟩
  have dead := tidy.free p unused
  have outside : p ∉ w.listed := fun member => tidy.entered p member dead
  exact ⟨tidy.empty p dead, fun q member => tidy.alive member dead,
    fun n next member same => outside (.inl ⟨n, next, member, same⟩),
    fun t reads => outside (.inr ⟨t, reads⟩)⟩

/-- The world at the boot: nobody sends, waits on a pipe or reads from a terminal, and every bit is set
in the state of a slot that is not in use. -/
structure BootWorld (w : World) : Prop where
  table : ∀ p, (w.kernel.procTable p).inUse = true → p ∈ procSlots
  free : ∀ p, (w.kernel.procTable p).inUse = false → IsZombie w.kernel p
  senderQ : ∀ p, (w.kernel.procTable p).senderQ = none
  pipes : ∀ n, (w.pipes n).waiting = []
  ttys : ∀ t, (w.ttys t).reader = none

theorem BootWorld.tidy (boot : BootWorld w) : w.Tidy fun _ => [] where
  chain q := boot.senderQ q
  apart := nofun
  table := boot.table
  free := boot.free
  empty _ _ := rfl
  sending := nofun
  alive := nofun
  entered p member := by
    rcases member with ⟨n, next, member, -⟩ | ⟨t, reads⟩
    · rw [boot.pipes n] at member
      cases member
    · rw [boot.ttys t] at reads
      cases reads

/-- **A dead process leaves no traces**: in every state that an orderly run reaches from the boot,
nothing refers to a slot that is not in use. -/
theorem traceless_of_orderly {events : List TraceEvent} (boot : BootWorld w)
    (orderly : Meets worldStep OrderlyWorld w events) (ran : runFrom worldStep w events = some w') :
    NoTraces w' := by
  obtain ⟨queues, tidy⟩ := runFrom_invariant (fun w : World => ∃ queues, w.Tidy queues)
    (fun _ _ _ ⟨_, tidy⟩ orderly ran => worldStep_tidy tidy orderly ran) events ⟨_,
      boot.tidy⟩ orderly ran
  exact tidy.noTraces

end Step

/-! ### Runs on a fixed world -/

instance (w : World) : ∀ event, Decidable (OrderlyWorld w event)
  | .trap => inferInstanceAs (Decidable (∀ cur ∈ running w.kernel, _))
  | .handle .. => inferInstanceAs (Decidable (_ ∧ _))
  | .interrupted .. => inferInstanceAs (Decidable (_ → _))
  | .exit who _ => inferInstanceAs (Decidable (Unattached w who))
  | .fork .. | .vfork .. => inferInstanceAs (Decidable (_ → _))
  | .compute .. | .dispatch | .tick | .signal .. | .wait .. | .pipe .. | .read .. | .write .. |
      .closeEnd ..
  | .ttyRead .. | .ttyInput .. => isTrue trivial

/-- A terminal after `__tty_init`. -/
def freshTty : Driver.Tty := ⟨0, 0, none, 0, 0, fun _ => 0, 0, 0, true⟩

/-- The system task, which receives, and children of process 1, with these words on their stacks. -/
def family (live : List ProcNr) (words : List (Word × Word)) : World where
  kernel :=
    let k := stacked live (onStack 0 winixReceive 0 512 ++ words)
    { k with
      procTable := fun p => { k.procTable p with parent := 1 }, currMesg := 8192, sigMesg := 8200 }
  pipes _ := Fs.Pipe.newPipe
  ttys _ := freshTty

theorem bootWorld_family {live : List ProcNr} (inTable : live ⊆ procSlots)
    (words : List (Word × Word)) :
    BootWorld (family live words) := by
  have inUse : ∀ p, ((family live words).kernel.procTable p).inUse = true ↔ p ∈ live := fun p =>
    (freshProc_inUse : (freshProc live imageBase (fun _ => 256) p).inUse = true ↔ _)
  refine ⟨fun p used => inTable ((inUse p).mp used), fun p unused => ?_, fun _ => rfl, fun _ => rfl,
    fun _ => rfl⟩
  have outside : p ∉ live := fun member => by
    rw [(inUse p).mpr member] at unused
    cases unused
  show has (if p ∈ live then runnable else -1#32) .zombie = true
  rw [if_neg outside]
  decide

/-- A process that makes a system call. -/
def caller (p : ProcNr) : List (Word × Word) := onStack p winixSendrec 0 512

/-- The message of a system call with these two arguments. -/
def callWith (first second : Word) : Message := ⟨0, 0, first, second, 0, 0, 0, 0⟩

/-- A system call of the process at the head of the ready queue: it traps, the system task runs, serves
the call and receives again. -/
def syscall (served : TraceEvent) : List TraceEvent := [.dispatch, .trap, .dispatch, served, .trap]

/-- The system task receives, and process 1 waits for its children. -/
def waitsAtFirst : List TraceEvent := [.dispatch, .trap] ++ syscall (.wait 1 (callWith (-1) 0))

/-- The pipe that process 2 reads from. -/
def itsPipe : PipeNr := Fin.last 47

/-- The pipe that process 3 reads from. -/
def otherPipe : PipeNr := (Fin.last 46).castSucc

/-- The read of process 2. -/
def readPipe : TraceEvent := .read itsPipe 2 (callWith 0 0) Fs.Pipe.readEnd 9000 10 true 8210

/-- Process 3 completes the read of process 2 and waits for another pipe, and process 2 exits. -/
def readsThenExits : List TraceEvent :=
  waitsAtFirst ++ syscall readPipe ++
    syscall (.write itsPipe 3 (callWith 0 0) Fs.Pipe.writeEnd 9100 4 0 true 8210) ++
    syscall (.read otherPipe 3 (callWith 0 0) Fs.Pipe.readEnd 9200 10 true 8210) ++
    [.dispatch, .trap, .dispatch, .exit 2 (callWith 5 0)]

/-- The slot of process 2 is given back, and nothing refers to it. -/
theorem readsThenExits_traceless :
    ∃ w', runFrom worldStep (family [0, 1, 2, 3] (caller 1 ++ caller 2 ++ caller 3)) readsThenExits =
      some w' ∧ (w'.kernel.procTable 2).inUse = false ∧ NoTraces w' := by
  obtain ⟨w', ran, released⟩ := exists_of_any (by decide +kernel :
    (runFrom worldStep (family [0, 1, 2, 3] (caller 1 ++ caller 2 ++ caller 3)) readsThenExits).any
      (fun w' => decide ((w'.kernel.procTable 2).inUse = false)) = true)
  exact ⟨w', ran, released,
    traceless_of_orderly (bootWorld_family (by decide) _) (by decide +kernel) ran⟩

/-- Process 3 blocks in a send to process 2, and process 2 exits. -/
def sendsThenExits : List TraceEvent :=
  waitsAtFirst ++ [.dispatch, .trap] ++ [.dispatch, .trap, .dispatch, .exit 2 (callWith 5 0)]

/-- Process 2 is killed while it waits for the pipe. -/
def killedInPipe : List TraceEvent :=
  waitsAtFirst ++ syscall readPipe ++ [.signal 2 sigkill, .handle 2 sigkill]

/-- Process 2 is killed while it waits for a line of the terminal. -/
def killedInTty : List TraceEvent :=
  waitsAtFirst ++ syscall (.ttyRead 0 2 (callWith 0 0) false 9000 10) ++
    [.signal 2 sigkill, .handle 2 sigkill]

/-- **`exit_proc` leaves traces.** Process 3 stays in the queue of the slot of process 2, and its state
says that it is sending; the request of process 2 stays in the list of the pipe; process 2 stays the
reader of the terminal. Its slot has been given back each time. -/
theorem exit_leaves_traces :
    (BootWorld (family [0, 1, 3, 2] (caller 1 ++ onStack 3 winixSend 2 512 ++ caller 2)) ∧
      ∃ w', runFrom worldStep (family [0, 1, 3, 2] (caller 1 ++ onStack 3 winixSend 2 512 ++ caller 2))
          sendsThenExits = some w' ∧
        (w'.kernel.procTable 2).inUse = false ∧ IsSending w'.kernel 3 ∧
        senderQ w'.kernel 2 = some 3 ∧ ¬ NoTraces w') ∧
    BootWorld (family [0, 1, 2] (caller 1 ++ caller 2)) ∧
    (∃ w', runFrom worldStep (family [0, 1, 2] (caller 1 ++ caller 2)) killedInPipe = some w' ∧
      (w'.kernel.procTable 2).inUse = false ∧
      (w'.pipes itsPipe).readingList.map Fs.Pipe.Waiting.who = [2] ∧ ¬ NoTraces w') ∧
    ∃ w', runFrom worldStep (family [0, 1, 2] (caller 1 ++ caller 2)) killedInTty = some w' ∧
      (w'.kernel.procTable 2).inUse = false ∧ (w'.ttys 0).reader = some 2 ∧ ¬ NoTraces w' := by
  refine ⟨⟨bootWorld_family (by decide) _, ?_⟩, bootWorld_family (by decide) _, ?_, ?_⟩
  · obtain ⟨w', ran, released, sending, first⟩ := exists_of_any (by decide +kernel :
      (runFrom worldStep (family [0, 1, 3, 2] (caller 1 ++ onStack 3 winixSend 2 512 ++ caller 2))
        sendsThenExits).any (fun w' => decide ((w'.kernel.procTable 2).inUse = false ∧
          IsSending w'.kernel 3 ∧ senderQ w'.kernel 2 = some 3)) = true)
    refine ⟨w', ran, released, sending, first, ?_⟩
    rintro ⟨queues, threads, traceless⟩
    obtain ⟨rest, shape, -⟩ := threads.cells_of_head_some first
    rw [(traceless 2 released).unawaited] at shape
    cases shape
  · obtain ⟨w', ran, released, waits⟩ := exists_of_any (by decide +kernel :
      (runFrom worldStep (family [0, 1, 2] (caller 1 ++ caller 2)) killedInPipe).any (fun w' =>
        decide ((w'.kernel.procTable 2).inUse = false ∧
          (w'.pipes itsPipe).readingList.map Fs.Pipe.Waiting.who = [2])) = true)
    refine ⟨w', ran, released, waits, ?_⟩
    rintro ⟨queues, -, traceless⟩
    obtain ⟨next, member, same⟩ := List.mem_map.mp (waits ▸ List.mem_singleton_self (2 : ProcNr))
    exact (traceless 2 released).pipes itsPipe next (List.mem_append_left _ member) same
  · obtain ⟨w', ran, released, reads⟩ := exists_of_any (by decide +kernel :
      (runFrom worldStep (family [0, 1, 2] (caller 1 ++ caller 2)) killedInTty).any (fun w' =>
        decide ((w'.kernel.procTable 2).inUse = false ∧ (w'.ttys 0).reader = some 2)) = true)
    refine ⟨w', ran, released, reads, ?_⟩
    rintro ⟨queues, -, traceless⟩
    exact (traceless 2 released).ttys 0 reads

end Winix.Kernel
