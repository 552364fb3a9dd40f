/-
**The mask after nested signals.**

A process catches a signal: `build_signal_ctx` keeps its mask in `sig_mask2` and lets the handler run
under the mask of its action. `do_sigreturn` takes the mask back from `sig_mask2`. There is one such
field, so a signal that interrupts a handler overwrites what the handler is to restore, and so does the
signal that ends a `sigsuspend`.

* `Nests`: what a process catches, one signal after the other, with what its handlers catch inside.
* `maskStep_masks`: what one event does to the two masks.
* **`mask_restored_iff`**: when the mask from before is restored (`Restores`).
* `nested_masks_lost`: a run for each of the two.
* **`own_signal_not_deferred`**: `handle_sig` tests `SA_NODEFER` the wrong way round.
-/

import Winix.Kernel.Sigcalls
import Winix.Kernel.Wait

namespace Winix.Kernel

open Lib Function Machine Option

/-! ### The events -/

/-- What happens to a process: it runs its own code, it catches a signal, or it returns from a handler
with this message. -/
inductive MaskEvent
  | compute (ctx : Context) (memory : Memory)
  | deliver (signum : Nat)
  | sigreturn (message : Message)

/-- The handlers behind the events. -/
def maskStep (who : ProcNr) (k : Machine) : MaskEvent → Option Machine
  | .compute ctx memory =>
    some { k.updateProc who fun p => { p with ctx := ctx } with memory := memory }
  | .deliver signum =>
    if catches (k.procTable who) signum then handleSig exitProc k who signum else none
  | .sigreturn message => serve sigreturnResult k who message

/-- Properly nested events: a signal is caught, others are caught inside its handler, the handler
returns with this message, and the rest follows. -/
inductive Nests
  | done
  | compute (ctx : Context) (memory : Memory) (rest : Nests)
  | caught (signum : Nat) (inside : Nests) (message : Message) (rest : Nests)

namespace Nests

/-- The events in the order they happen. -/
def events : Nests → List MaskEvent
  | done => []
  | compute ctx memory rest => .compute ctx memory :: rest.events
  | caught signum inside message rest =>
    .deliver signum :: (inside.events ++ .sigreturn message :: rest.events)

/-- A signal is caught. -/
def catchesAny : Nests → Bool
  | done => false
  | compute _ _ rest => rest.catchesAny
  | caught .. => true

/-- The handler that was the last one to be interrupted for the first time. -/
def lastInterrupted : Nests → Option Nat
  | done => none
  | compute _ _ rest => rest.lastInterrupted
  | caught signum inside _ rest =>
    rest.lastInterrupted.or
      (if inside.catchesAny then inside.lastInterrupted.or (some signum) else none)

end Nests

/-- A process enters the events as it is, or in `sigsuspend`. -/
def enter (who : ProcNr) (k : Machine) : Option Message → Option Machine
  | none => some k
  | some message => serve (fun k who m => some (doSigsuspend k who m)) k who message

/-! ### What one event does to the masks -/

/-- The two masks of a process. -/
structure Masks where
  mask : Word
  mask2 : Word

/-- The masks of a process. -/
def Proc.masks (p : Proc) : Masks := ⟨p.sigMask, p.sigMask2⟩

/-- The mask under which the handler of a signal runs. -/
def handlerMask (p : Proc) (signum : Nat) : Word :=
  if hasBit (p.sigTable signum).flags saNodefer then sigaddset (p.sigTable signum).mask signum
  else sigdelset (p.sigTable signum).mask signum

/-- What an event does to the masks. -/
def Masks.after (handler : Nat → Word) (masks : Masks) : MaskEvent → Masks
  | .compute .. => masks
  | .deliver signum => ⟨handler signum, masks.mask⟩
  | .sigreturn _ => ⟨masks.mask2, masks.mask2⟩

theorem sigaddset_sigaddset (set : Word) (signo : Nat) :
    sigaddset (sigaddset set signo) signo = sigaddset set signo := by
  unfold sigaddset
  split_ifs
  · simp only [setBit, BitVec.or_assoc, BitVec.or_self]
  · rfl

theorem sigdelset_sigdelset (set : Word) (signo : Nat) :
    sigdelset (sigdelset set signo) signo = sigdelset set signo := by
  unfold sigdelset
  split_ifs
  · simp only [clearBit, BitVec.and_assoc, BitVec.and_self]
  · rfl

/-- What the masks depend on. -/
def Proc.masking (p : Proc) : Masks × (Nat → Word) := (p.masks, handlerMask p)

section Step

variable {k k' : Machine} {who : ProcNr} {signum : Nat}

theorem masking_of_nudged (same : Nudged k k') (p : ProcNr) :
    (k'.procTable p).masking = (k.procTable p).masking :=
  same.field Proc.masking (fun _ => rfl) p

theorem masking_of_roused (same : Roused k k') (p : ProcNr) :
    (k'.procTable p).masking = (k.procTable p).masking :=
  (same.coarsen fun _ => rfl : SameView Proc.masking k k').proc p

theorem handlerMask_update (p : Proc) (signum : Nat) {act : SigAction}
    (same : handlerMask { p with sigTable := fun _ => act } signum = handlerMask p signum) :
    handlerMask { p with sigTable := update p.sigTable signum act } = handlerMask p := by
  funext other
  by_cases eq : other = signum
  · subst eq
    rw [← same]
    simp only [handlerMask, update_self]
  · simp only [handlerMask, update_of_ne eq]

/-- The action as it is when its handler starts. -/
def masked (p : Proc) (signum : Nat) : SigAction :=
  { p.sigTable signum with mask := handlerMask p signum }

/-- Setting the mask of an action to that of its handler does not change the latter. -/
theorem handlerMask_masked (p : Proc) (signum : Nat) (handler : Word) :
    handlerMask { p with sigTable := fun _ => { masked p signum with handler := handler } } signum =
      handlerMask p signum := by
  unfold handlerMask masked
  by_cases nodefer : hasBit (p.sigTable signum).flags saNodefer = true
  · simp only [handlerMask, nodefer, ↓reduceIte, sigaddset_sigaddset]
  · simp only [handlerMask, nodefer, Bool.false_eq_true, ↓reduceIte, sigdelset_sigdelset]

/-- **A signal is caught**: the old mask is kept, and the handler runs under its own. -/
theorem catchSig_masking (k : Machine) (who : ProcNr) (signum : Nat) :
    ((catchSig k who signum).procTable who).masking =
      (⟨handlerMask (k.procTable who) signum, (k.procTable who).sigMask⟩,
        handlerMask (k.procTable who)) := by
  have stacked : ∀ (k : Machine) (len : Nat) (words : Nat → Word),
      ((copytoUserStack k who len words).procTable who).signals = (k.procTable who).signals := by
    intro k len words
    rw [copytoUserStack, updateProc_same]
    rfl
  have built : ∀ k : Machine, ((buildSignalCtx k who signum).procTable who).signals =
      (((k.procTable who).sigTable signum).mask, (k.procTable who).sigMask,
        (k.procTable who).sigTable) := by
    intro k
    have below : ∀ (len : Nat) (words : Nat → Word), _ := fun len words =>
      (stacked _ len words).trans (stacked k signalCtxLen (signalCtx (k.procTable who)))
    simp only [Proc.signals, Prod.mk.injEq] at below
    rw [buildSignalCtx, updateProc_same]
    simp only [Proc.signals, below]
  have table := handlerMask_update (k.procTable who) signum
    (handlerMask_masked (k.procTable who) signum ((k.procTable who).sigTable signum).handler)
  have reset := handlerMask_update (k.procTable who) signum
    (handlerMask_masked (k.procTable who) signum sigDfl)
  have before := built (k.updateProc who fun p =>
    { p with sigTable := update p.sigTable signum (masked (k.procTable who) signum) })
  rw [updateProc_same] at before
  simp only [Proc.signals, Prod.mk.injEq, update_self] at before
  obtain ⟨mask, mask2, actions⟩ := before
  by_cases oneShot : hasBit ((k.procTable who).sigTable signum).flags saResethand = true
  · simp only [catchSig, if_pos oneShot]
    rw [updateProc_same]
    refine Prod.ext ?_ ?_
    · exact congrArg₂ Masks.mk mask mask2
    · rw [← reset]
      funext other
      refine congrArg (fun table : Nat → SigAction =>
        handlerMask { k.procTable who with sigTable := table } other) ?_
      exact (congrArg (update · signum _) actions).trans (update_idem _ _ _)
  · simp only [catchSig, if_neg oneShot]
    refine Prod.ext ?_ ?_
    · exact congrArg₂ Masks.mk mask mask2
    · rw [← table]
      funext other
      exact congrArg (fun table : Nat → SigAction =>
        handlerMask { k.procTable who with sigTable := table } other) actions

/-- **A handler returns**: the kept mask is taken back and stays in `sig_mask2`. -/
theorem sigreturnResult_masking {m : Word} {result : Int}
    (ran : sigreturnResult k who m = some (k', result)) :
    (k'.procTable who).masking =
      (⟨(k.procTable who).sigMask2, (k.procTable who).sigMask2⟩, handlerMask (k.procTable who)) := by
  obtain ⟨gone, going, ran⟩ := bind_eq_some_iff.mp ran
  have back : ((takeBack k who).procTable who).masking =
      (⟨(k.procTable who).sigMask2, (k.procTable who).sigMask2⟩, handlerMask (k.procTable who)) := by
    rw [takeBack, updateProc_same]
    rfl
  have went : (gone.procTable who).masking = ((takeBack k who).procTable who).masking := by
    unfold abortOrGoOn at going
    split_ifs at going
    · obtain ⟨⟨sent, _⟩, sending, rfl⟩ := map_eq_some_iff.mp going
      rw [masking_of_roused (sendSig_roused sending) who, updateProc_same]
      refine Prod.ext rfl ?_
      exact handlerMask_update _ sigabrt rfl
    · cases going
      exact masking_of_nudged (Nudged.enqueueSchedule _ _) who
    · cases going
      rfl
  rw [← back, ← went]
  split_ifs at ran
  · cases ran
    rw [updateProc_same]
    rfl
  · cases ran
    rfl

/-- **What one event does to the masks.** -/
theorem maskStep_masks {event : MaskEvent} (ran : maskStep who k event = some k') :
    (k'.procTable who).masking =
      ((k.procTable who).masks.after (handlerMask (k.procTable who)) event,
        handlerMask (k.procTable who)) := by
  cases event with
  | compute ctx memory =>
    cases ran
    have here : ((k.updateProc who fun p => { p with ctx := ctx }).procTable who).masking =
        (k.procTable who).masking := by
      rw [updateProc_same]
      rfl
    exact here
  | deliver signum =>
    have ran : (if catches (k.procTable who) signum then handleSig exitProc k who signum
      else none) = some k' := ran
    split_ifs at ran with caught
    rw [handleSig_caught caught ran, catchSig_masking, updateProc_same]
    rfl
  | sigreturn message =>
    obtain ⟨-, middle, reply, handled, nudged⟩ := serve_handled ran
    have before := masking_of_nudged (Nudged.takeUp k who message) who
    simp only [Proc.masking, Proc.masks, Prod.mk.injEq, Masks.mk.injEq] at before
    rw [masking_of_nudged nudged who, sigreturnResult_masking handled, before.1.2, before.2]
    rfl

/-- **What `sigsuspend` does to the masks.** -/
theorem enter_masking {suspend : Option Message} (ran : enter who k suspend = some k') :
    (k'.procTable who).sigMask = (match suspend with
      | none => (k.procTable who).sigMask
      | some message => spare message.m1i1) ∧
    handlerMask (k'.procTable who) = handlerMask (k.procTable who) := by
  cases suspend with
  | none =>
    cases ran
    exact ⟨rfl, rfl⟩
  | some message =>
    have ran : serve (fun k who m => some (doSigsuspend k who m)) k who message = some k' := ran
    obtain ⟨-, middle, reply, handled, nudged⟩ := serve_handled ran
    have before := masking_of_nudged (Nudged.takeUp k who message) who
    have after := masking_of_nudged nudged who
    have asked : (takeUp k who message).memory (k.currMesg + 2) = message.m1i1 :=
      writeMessage_add k.memory k.currMesg message (by decide : 2 < messageLen)
    have suspended : (middle.procTable who).masking =
        (⟨spare message.m1i1, ((takeUp k who message).procTable who).sigMask⟩,
          handlerMask ((takeUp k who message).procTable who)) := by
      rw [← show (doSigsuspend (takeUp k who message) who k.currMesg).1 = middle by
        rw [Option.some.inj handled]]
      unfold doSigsuspend
      dsimp only
      split_ifs
      · rw [updateProc_same, asked]
        rfl
      · simp only [updateProc_same, asked]
        rfl
    rw [suspended] at after
    simp only [Proc.masking, Proc.masks, Prod.mk.injEq, Masks.mk.injEq] at before after
    exact ⟨after.1.1, after.2.trans before.2⟩

end Step

/-! ### The mask when all handlers have returned -/

section Nested

variable {k k' : Machine} {who : ProcNr}

theorem runFrom_masking {events : List MaskEvent} (ran : runFrom (maskStep who) k events = some k') :
    (k'.procTable who).masks =
      events.foldl (Masks.after (handlerMask (k.procTable who))) (k.procTable who).masks ∧
    handlerMask (k'.procTable who) = handlerMask (k.procTable who) := by
  induction events generalizing k with
  | nil =>
    cases ran
    exact ⟨rfl, rfl⟩
  | cons event events ih =>
    obtain ⟨middle, stepped, ran⟩ := runFrom_cons.mp ran
    have step := maskStep_masks stepped
    simp only [Proc.masking, Prod.mk.injEq] at step
    rw [List.foldl_cons, (ih ran).1, (ih ran).2, step.1, step.2]
    exact ⟨rfl, rfl⟩

theorem Nests.catchesAny_of_lastInterrupted {signum : Nat} : ∀ nests : Nests,
    nests.lastInterrupted = some signum → nests.catchesAny = true
  | done, last => by cases last
  | compute _ _ rest, last => rest.catchesAny_of_lastInterrupted last
  | caught .., _ => rfl

/-- **What is left of the masks.** By induction on the nesting: `sig_mask2` is overwritten by whatever
a handler catches, so a handler returns to its own mask once it has been interrupted. -/
theorem Nests.masks_after (handler : Nat → Word) (nests : Nests) (masks : Masks) :
    nests.events.foldl (Masks.after handler) masks =
      ⟨nests.lastInterrupted.elim masks.mask handler,
        if nests.catchesAny then nests.lastInterrupted.elim masks.mask handler else masks.mask2⟩ := by
  induction nests generalizing masks with
  | done => rfl
  | compute ctx memory rest ih => exact ih masks
  | caught signum inside message rest ihInside ihRest =>
    rw [events, List.foldl_cons, List.foldl_append, ihInside, List.foldl_cons, ihRest]
    simp only [Masks.after, catchesAny, lastInterrupted, ↓reduceIte]
    cases last : rest.lastInterrupted with
    | some signum => simp [rest.catchesAny_of_lastInterrupted last]
    | none =>
      cases inside.catchesAny with
      | true => cases inside.lastInterrupted <;> simp
      | false => simp

/-- The last handler to be interrupted runs under the mask from before; if none is interrupted, the
process is not in `sigsuspend`, or is with the mask it had anyway. -/
def Restores (p : Proc) (suspend : Option Message) (nests : Nests) : Prop :=
  match nests.lastInterrupted with
  | some signum => handlerMask p signum = p.sigMask
  | none => ∀ message ∈ suspend, spare message.m1i1 = p.sigMask

/-- **The mask from before is restored** in exactly these cases. -/
theorem mask_restored_iff {suspend : Option Message} {nests : Nests} {start : Machine}
    (entered : enter who k suspend = some start)
    (ran : runFrom (maskStep who) start nests.events = some k') :
    (k'.procTable who).sigMask = (k.procTable who).sigMask ↔
      Restores (k.procTable who) suspend nests := by
  obtain ⟨mask, handlers⟩ := enter_masking entered
  have left : (k'.procTable who).sigMask = nests.lastInterrupted.elim (start.procTable who).sigMask
      (handlerMask (start.procTable who)) :=
    congrArg Masks.mask ((runFrom_masking ran).1.trans (Nests.masks_after _ nests _))
  rw [left, mask, handlers, Restores]
  cases nests.lastInterrupted with
  | some signum => rfl
  | none =>
    cases suspend with
    | none => simp
    | some message => simp

end Nested

/-- The system task and process 1, which has handlers for the signals 1 and 2. -/
def handlersMachine : Machine :=
  (stacked [0, 1] []).updateProc 1 fun p =>
    { p with sigTable := fun signum => if signum = 1 then ⟨0x100#32, 0x20#32, 0#32⟩
        else if signum = 2 then ⟨0x100#32, 0x40#32, 0#32⟩ else ⟨sigDfl, 0#32, 0#32⟩ }

/-- Two signals, one after the other. -/
def oneByOne : Nests := .caught 1 .done (oneWord 1) (.caught 2 .done (oneWord 2) .done)

/-- The second signal interrupts the handler of the first. -/
def oneInside : Nests := .caught 1 (.caught 2 .done (oneWord 2) .done) (oneWord 1) .done

/-- After two signals that do not interrupt each other the mask is the old one. -/
theorem oneByOne_restored : ∃ k', runFrom (maskStep 1) handlersMachine oneByOne.events = some k' ∧
    (k'.procTable 1).sigMask = (handlersMachine.procTable 1).sigMask := by
  obtain ⟨k', ran, -⟩ := exists_of_any (by decide +kernel :
    (runFrom (maskStep 1) handlersMachine oneByOne.events).any (fun _ => decide True) = true)
  refine ⟨k', ran, (mask_restored_iff
    (rfl : enter 1 handlersMachine none = some handlersMachine) ran).mpr ?_⟩
  exact fun message suspended => by cases suspended

/-- **Nested masks are lost.** After a signal that interrupts a handler the process keeps the mask of
that handler, and after a `sigsuspend` that a signal has ended it keeps the mask of the `sigsuspend`. -/
theorem nested_masks_lost :
    (∃ k', runFrom (maskStep 1) handlersMachine oneInside.events = some k' ∧
      (handlersMachine.procTable 1).sigMask = 0#32 ∧ (k'.procTable 1).sigMask = 0x20#32) ∧
    ∃ start k', enter 1 handlersMachine (some (oneWord 0x80)) = some start ∧
      runFrom (maskStep 1) start (Nests.caught 1 .done (oneWord 1) .done).events = some k' ∧
      (k'.procTable 1).sigMask = 0x80#32 := by
  constructor
  · obtain ⟨k', ran, old, mask⟩ := exists_of_any (by decide +kernel :
      (runFrom (maskStep 1) handlersMachine oneInside.events).any (fun k' =>
        decide ((handlersMachine.procTable 1).sigMask = 0#32 ∧ (k'.procTable 1).sigMask = 0x20#32)) =
        true)
    exact ⟨k', ran, old, mask⟩
  · obtain ⟨k', ran, mask⟩ := exists_of_any (by decide +kernel :
      ((enter 1 handlersMachine (some (oneWord 0x80))).bind fun start =>
        runFrom (maskStep 1) start (Nests.caught 1 .done (oneWord 1) .done).events).any (fun k' =>
        decide ((k'.procTable 1).sigMask = 0x80#32)) = true)
    obtain ⟨start, entered, ran⟩ := bind_eq_some_iff.mp ran
    exact ⟨start, k', entered, ran, mask⟩

/-! ### The signal of the handler itself -/

/-- A handler runs with its own signal blocked unless the action has `SA_NODEFER`, and with the others
as the action says. -/
structure Deferred (act : SigAction) (signum : Nat) (mask : Word) : Prop where
  own : hasBit mask signum = true ↔ hasBit act.flags saNodefer = false
  others : ∀ other ≠ signum, hasBit mask other = hasBit act.mask other

theorem hasBit_handlerMask (p : Proc) {signum : Nat} (small : signum < nsig) :
    hasBit (handlerMask p signum) signum = hasBit (p.sigTable signum).flags saNodefer := by
  have narrow : signum < 32 := small.trans (by decide)
  rw [handlerMask, sigaddset, sigdelset, if_pos small.le, if_pos small.le]
  cases hasBit (p.sigTable signum).flags saNodefer with
  | true => exact hasBit_setBit_self _ narrow
  | false => exact hasBit_clearBit_self _ _

/-- **The own signal is never deferred as it should be**, whatever the process has caught since its
actions were set: it is blocked exactly with `SA_NODEFER`. -/
theorem own_signal_not_deferred {k k' caught : Machine} {who : ProcNr} {events : List MaskEvent}
    {signum : Nat} (small : signum < nsig) (ran : runFrom (maskStep who) k events = some k')
    (delivered : maskStep who k' (.deliver signum) = some caught) :
    ¬ Deferred ((k.procTable who).sigTable signum) signum (caught.procTable who).sigMask := by
  have mask : (caught.procTable who).sigMask = handlerMask (k'.procTable who) signum :=
    congrArg (fun masking => masking.1.mask) (maskStep_masks delivered)
  rintro ⟨own, -⟩
  rw [mask, (runFrom_masking ran).2, hasBit_handlerMask _ small] at own
  cases nodefer : hasBit ((k.procTable who).sigTable signum).flags saNodefer <;> simp [nodefer] at own

/-- The second time that signal 1 is caught. -/
theorem second_signal_not_deferred : ∃ k' caught,
    runFrom (maskStep 1) handlersMachine [.deliver 1, .sigreturn (oneWord 1)] = some k' ∧
      maskStep 1 k' (.deliver 1) = some caught ∧
      ¬ Deferred ((handlersMachine.procTable 1).sigTable 1) 1 (caught.procTable 1).sigMask := by
  obtain ⟨caught, ran, -⟩ := exists_of_any (by decide +kernel :
    ((runFrom (maskStep 1) handlersMachine [.deliver 1, .sigreturn (oneWord 1)]).bind fun k' =>
      maskStep 1 k' (.deliver 1)).any (fun _ => decide True) = true)
  obtain ⟨k', ran, delivered⟩ := bind_eq_some_iff.mp ran
  exact ⟨k', caught, ran, delivered, own_signal_not_deferred (by decide) ran delivered⟩

/-- The action of signal 1 has no flags, and its handler runs with the signal open. -/
theorem own_signal_open : ∃ caught, maskStep 1 handlersMachine (.deliver 1) = some caught ∧
    (caught.procTable 1).sigMask = 0x20#32 ∧
    ¬ Deferred ((handlersMachine.procTable 1).sigTable 1) 1 (caught.procTable 1).sigMask := by
  obtain ⟨caught, delivered, mask⟩ := exists_of_any (by decide +kernel :
    (maskStep 1 handlersMachine (.deliver 1)).any
      (fun caught => decide ((caught.procTable 1).sigMask = 0x20#32)) = true)
  refine ⟨caught, delivered, mask, fun deferred => ?_⟩
  have blocked := deferred.own.mpr (by decide)
  rw [mask] at blocked
  exact absurd blocked (by decide)

end Winix.Kernel
