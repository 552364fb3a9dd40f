/-
**Who is queued on whom, while processes come and go.**

`Waitlists k listed queues`: the sender queues are the lists `queues`, they hold nobody but living
processes that are sending, and the queue of a zombie or of a slot that is not in use is empty;
`listed` are processes that are entered elsewhere, and they are alive. The zombies include the slots
that are not in use, as `release_zombie` sets every bit of the state.

* **`exitProc_waitlists`**: the end of a process takes it out of every queue. That is enough if nobody
  is queued on the process and it is entered nowhere else.
* `perform_waitlists`, `spawned_waitlists`, `handleSig_waitlists`: messages, forks and signals, each
  under the condition that keeps zombies out of the queues and the queues apart.
-/

import Winix.Kernel.Handle
import Winix.Kernel.Senders
import Winix.Kernel.Spawn
import Winix.Lib.Walk

namespace Winix.Kernel

open Lib Function Machine List Option

/-- The process has ended, or its slot has been given back. -/
def IsZombie (k : Machine) (p : ProcNr) : Prop := has (k.procTable p).state .zombie = true

instance (k : Machine) (p : ProcNr) : Decidable (IsZombie k p) := inferInstanceAs (Decidable (_ = _))

/-- The queues hold living senders, and nobody is queued on a zombie. -/
structure Waitlists (k : Machine) (listed : Set ProcNr) (queues : ProcNr → List ProcNr) : Prop
    extends Threads (nextSender k) (senderQ k) queues where
  table : ∀ p, (k.procTable p).inUse = true → p ∈ procSlots
  free : ∀ p, (k.procTable p).inUse = false → IsZombie k p
  empty : ∀ p, IsZombie k p → queues p = []
  sending : ∀ {p q}, p ∈ queues q → has (k.procTable p).state .sending = true
  alive : ∀ {p q}, p ∈ queues q → ¬ IsZombie k p
  entered : ∀ p ∈ listed, ¬ IsZombie k p

/-! ### What leaves them alone -/

/-- What the queues depend on. -/
def Proc.trace (p : Proc) : (Option ProcNr × Option ProcNr) × Bool × Bool × Bool :=
  ((p.senderQ, p.nextSender), p.inUse, has p.state .zombie, has p.state .sending)

theorem Proc.trace_inj {p p' : Proc} (same : p.trace = p'.trace) :
    p.senderQ = p'.senderQ ∧ p.nextSender = p'.nextSender ∧ p.inUse = p'.inUse ∧
      has p.state .zombie = has p'.state .zombie ∧ has p.state .sending = has p'.state .sending := by
  simpa [Proc.trace, and_assoc] using same

theorem trace_roused (p : Proc) : p.roused.trace = p.trace := by
  have used : p.roused.inUse = p.inUse := inUse_steadfast p
  have zombie : has p.roused.state .zombie = has p.state .zombie := has_unwaiting p.state rfl
  have sending : has p.roused.state .sending = has p.state .sending := has_unwaiting p.state rfl
  simp only [Proc.trace, used, zombie, sending]
  rfl

/-- No process has other traces. -/
def SameTraces (k k' : Machine) : Prop := ∀ p, (k'.procTable p).trace = (k.procTable p).trace

namespace SameTraces

variable {k k' k'' : Machine} {listed : Set ProcNr} {queues : ProcNr → List ProcNr}
variable {p : ProcNr}

theorem refl (k : Machine) : SameTraces k k := fun _ => rfl

theorem trans (first : SameTraces k k') (second : SameTraces k' k'') : SameTraces k k'' :=
  fun p => (second p).trans (first p)

theorem of_procTable (same : k'.procTable = k.procTable) : SameTraces k k' := fun p => by rw [same]

theorem updateProc {change : Proc → Proc}
    (keeps : (change (k.procTable p)).trace = (k.procTable p).trace) :
    SameTraces k (k.updateProc p change) := updateProc_field Proc.trace keeps

section

variable (same : SameTraces k k')
include same

theorem senderQ : Kernel.senderQ k' = Kernel.senderQ k :=
  funext fun p => (Proc.trace_inj (same p)).1

theorem nextSender : Kernel.nextSender k' = Kernel.nextSender k :=
  funext fun p => (Proc.trace_inj (same p)).2.1

theorem inUse (p : ProcNr) :
    (k'.procTable p).inUse = (k.procTable p).inUse := (Proc.trace_inj (same p)).2.2.1

theorem zombie (p : ProcNr) : IsZombie k' p ↔ IsZombie k p :=
  Bool.eq_iff_iff.mp (Proc.trace_inj (same p)).2.2.2.1

theorem sending (p : ProcNr) :
    has (k'.procTable p).state .sending = has (k.procTable p).state .sending :=
  (Proc.trace_inj (same p)).2.2.2.2

theorem waitlists (lists : Waitlists k listed queues) : Waitlists k' listed queues where
  chain q := by
    rw [same.nextSender, same.senderQ]
    exact lists.chain q
  apart := lists.apart
  table p used := lists.table p (same.inUse p ▸ used)
  free p unused := (same.zombie p).mpr (lists.free p (same.inUse p ▸ unused))
  empty p zombie := lists.empty p ((same.zombie p).mp zombie)
  sending member := (same.sending _).trans (lists.sending member)
  alive member zombie := lists.alive member ((same.zombie _).mp zombie)
  entered p member zombie := lists.entered p member ((same.zombie p).mp zombie)

end

theorem of_roused (same : Roused k k') : SameTraces k k' := (same.coarsen trace_roused).proc

theorem of_nudged (same : Nudged k k') : SameTraces k k' := of_roused same.roused

theorem of_sameIpc (same : SameIpc k k') : SameTraces k k' := same.field Proc.trace fun _ => rfl

theorem of_sameQueues (same : SameQueues k k') : SameTraces k k' := by
  intro p
  simp only [Proc.trace, same.senderQ, same.nextSender, same.inUse, same.state]

theorem setState {change : Word → Word}
    (zombie : ∀ state, has (change state) .zombie = has state .zombie)
    (sending : ∀ state, has (change state) .sending = has state .sending) :
    SameTraces k (k.updateProc p fun proc => { proc with state := change proc.state }) := by
  refine .updateProc ?_
  simp only [Proc.trace, zombie, sending]
  rfl

theorem raise {flag : StateFlag} (zombie : StateFlag.zombie ≠ flag)
    (sending : StateFlag.sending ≠ flag) :
    SameTraces k (k.updateProc p fun proc => { proc with state := raise proc.state flag }) :=
  setState (fun _ => has_raise_of_ne _ zombie) fun _ => has_raise_of_ne _ sending

theorem lower {flag : StateFlag} (zombie : StateFlag.zombie ≠ flag)
    (sending : StateFlag.sending ≠ flag) :
    SameTraces k (k.updateProc p fun proc => { proc with state := lower proc.state flag }) :=
  setState (fun _ => has_lower_of_ne _ zombie) fun _ => has_lower_of_ne _ sending

end SameTraces

/-! ### Messages -/

section Messages

variable {k k' : Machine} {listed : Set ProcNr} {queues : ProcNr → List ProcNr} {cur pDest : ProcNr}

theorem block_zombie (k : Machine) (cur pDest p : ProcNr) :
    IsZombie (block k cur pDest) p ↔ IsZombie k p := by
  rw [IsZombie, block_state]
  split_ifs
  · rw [has_raise_of_ne _ (by decide)]
    rfl
  · rfl

theorem Waitlists.block (lists : Waitlists k listed queues) (outside : ∀ q, cur ∉ queues q)
    (living : ¬ IsZombie k cur) (living' : ¬ IsZombie k pDest) :
    Waitlists (block k cur pDest) listed (update queues pDest (cur :: queues pDest)) where
  toThreads := by
    rw [block_nextSender, block_senderQ]
    exact lists.push outside
  table p used := lists.table p (block_inUse k cur pDest p ▸ used)
  free p unused := (block_zombie k cur pDest p).mpr (lists.free p (block_inUse k cur pDest p ▸ unused))
  empty p zombie := by
    rw [block_zombie] at zombie
    rw [update_of_ne fun same : p = pDest => living' (same ▸ zombie)]
    exact lists.empty p zombie
  sending {p q} member := by
    rw [block_state]
    split_ifs with same
    · exact has_raise_self _ _
    · rcases mem_update.mp member with ⟨-, member⟩ | ⟨-, member⟩
      · exact lists.sending ((mem_cons.mp member).resolve_left same)
      · exact lists.sending member
  alive {p q} member := by
    rw [block_zombie]
    rcases mem_update.mp member with ⟨-, member⟩ | ⟨-, member⟩
    · rcases mem_cons.mp member with rfl | member
      · exact living
      · exact lists.alive member
    · exact lists.alive member
  entered p member := by
    rw [block_zombie]
    exact lists.entered p member

theorem collect_zombie (k : Machine) (cur p q : ProcNr) (m : Word) :
    IsZombie (collect k cur p m) q ↔ IsZombie k q := by
  rw [IsZombie, collect_state]
  split_ifs
  · rw [has_lower_of_ne _ (by decide)]
    rfl
  · rfl

theorem Waitlists.takeFrom (lists : Waitlists k listed queues) {p : ProcNr} {rest : List ProcNr}
    (shape : queues cur = p :: rest) (m : Word) :
    Waitlists (takeFrom k cur p m) listed (update queues cur rest) := by
  have fewer : ∀ {q r}, q ∈ update queues cur rest r → ∃ r', q ∈ queues r' := by
    intro q r member
    exact ((lists.exists_mem_pop shape).mp ⟨r, member⟩).2
  refine (SameTraces.of_sameIpc (takeFrom_sameIpc k cur p m)).waitlists
    { toThreads := ?_, table := fun q used => ?_, free := fun q unused => ?_,
      empty := fun q zombie => ?_, sending := fun {q r} member => ?_, alive := fun {q r} member => ?_,
      entered := fun q member => ?_ }
  · rw [collect_nextSender, collect_senderQ]
    exact lists.pop shape
  · exact lists.table q (collect_inUse k cur p q m ▸ used)
  · rw [collect_zombie]
    exact lists.free q (collect_inUse k cur p q m ▸ unused)
  · rw [collect_zombie] at zombie
    have none := lists.empty q zombie
    rw [update_of_ne fun same : q = cur => by rw [← same, none] at shape; cases shape]
    exact none
  · have other : q ≠ p := fun same => lists.notMem_of_pop shape r (same ▸ member)
    obtain ⟨r', member⟩ := fewer member
    rw [collect_state, if_neg other]
    exact lists.sending member
  · obtain ⟨r', member⟩ := fewer member
    rw [collect_zombie]
    exact lists.alive member
  · rw [collect_zombie]
    exact lists.entered q member

theorem sendState_traces (k : Machine) (cur : ProcNr) (reply : Bool) (m : Word) :
    SameTraces k (sendState k cur reply m) := by
  refine SameTraces.trans ?_ (.of_nudged (Nudged.saveMessage _ _ _))
  cases reply
  · exact .refl k
  · exact .raise (by decide) (by decide)

theorem setRetval_traces (k : Machine) (cur : ProcNr) (value : Int) :
    SameTraces k (setRetval k cur value) := .updateProc rfl

/-- **Messages keep the lists**, as long as nobody blocks on a zombie. -/
theorem perform_waitlists {t : Trap} (lists : Waitlists k listed queues)
    (able : (k.procTable cur).state = runnable)
    (toLiving : (t.operation = winixSend ∨ t.operation = winixSendrec) →
      has (k.procTable t.dest).state .receiving = false → ¬ IsZombie k t.dest)
    (ran : perform k cur t = some k') : ∃ queues', Waitlists k' listed queues' := by
  have living : ¬ IsZombie k cur := by simp [IsZombie, able]
  have outside : ∀ q, cur ∉ queues q := fun q member => by
    have sending := lists.sending member
    simp [able] at sending
  cases perform_performed ran with
  | refused reply result =>
    exact ⟨queues, (((sendState_traces k cur reply _).trans (setRetval_traces _ _ _)).trans
      (.lower (by decide) (by decide))).waitlists lists⟩
  | delivered reply pDest =>
    exact ⟨queues, (((sendState_traces k cur reply _).trans (.of_nudged (Nudged.deliver _ _ _))).trans
      (setRetval_traces _ _ _)).waitlists lists⟩
  | blocked reply pDest operation did found busy =>
    have prepared := sendState_traces k cur reply t.message
    have living' : ¬ IsZombie k pDest := by
      by_cases same : pDest = cur
      · exact same ▸ living
      · obtain ⟨rfl, -⟩ := getProc_eq_some.mp found
        refine toLiving (by cases reply <;> simp [operation]) ?_
        have untouched : (sendState k cur reply t.message).procTable t.dest = k.procTable t.dest := by
          unfold sendState saveMessage
          rw [updateProc_of_ne same]
          cases reply
          · rfl
          · rw [if_pos rfl, expectReply, updateProc_of_ne same]
        rwa [untouched] at busy
    refine ⟨_, (setRetval_traces _ _ _).waitlists ((prepared.waitlists lists).block outside ?_ ?_)⟩
    · rwa [prepared.zombie]
    · rwa [prepared.zombie]
  | took p operation empty first =>
    obtain ⟨rest, shape, -⟩ := lists.cells_of_head_some first
    exact ⟨_, (setRetval_traces _ _ _).waitlists (lists.takeFrom shape t.message)⟩
  | waits =>
    refine ⟨queues, (SameTraces.trans ?_ (setRetval_traces _ _ _)).waitlists lists⟩
    exact SameTraces.trans (.of_nudged (Nudged.saveMessage _ _ _)) (.raise (by decide) (by decide))
  | noticed p =>
    refine ⟨queues, (SameTraces.trans ?_ (setRetval_traces _ _ _)).waitlists lists⟩
    exact .of_nudged ((Nudged.of_onlyLinks (listDel_onlyLinks k p)).trans (Nudged.copyMessage _ _ _))
  | notified after result operation done =>
    exact ⟨queues, ((SameTraces.of_nudged (doNotify_nudged done)).trans
      (setRetval_traces _ _ _)).waitlists lists⟩
  | unknown => exact ⟨queues, (setRetval_traces _ _ _).waitlists lists⟩

end Messages

/-! ### The end of a process -/

section Clear

variable {k k' : Machine} {queues : ProcNr → List ProcNr} {who rp : ProcNr}

theorem findSender_eq_walk (k : Machine) (who : ProcNr) : ∀ (fuel : Nat) (prev curr : Option ProcNr),
    findSender k who fuel prev curr =
      (walk (fun p => decide (p = who)) (nextSender k) fuel prev curr).map fun (prev, curr) =>
        (prev, curr.isSome)
  | _, _, none => by simp [findSender, walk]
  | 0, _, some _ => rfl
  | fuel + 1, prev, some xp => by
      simp only [findSender, walk]
      by_cases here : xp = who
      · simp [here]
      · simp only [here, ↓reduceIte, decide_false, Bool.false_eq_true]
        exact findSender_eq_walk k who fuel _ _

/-- Taking the process out of one queue leaves the others as they are. -/
theorem unqueue_threads (threads : Threads (nextSender k) (senderQ k) queues)
    (ran : unqueue k who rp = some k') :
    ∃ rest, Threads (nextSender k') (senderQ k') (update queues rp rest) ∧ who ∉ rest ∧
      rest ⊆ queues rp := by
  obtain ⟨⟨prev, found⟩, looked, ran⟩ := bind_eq_some_iff.mp ran
  rw [findSender_eq_walk] at looked
  obtain ⟨⟨prev', curr⟩, walked, same⟩ := map_eq_some_iff.mp looked
  obtain ⟨rfl, rfl⟩ := Prod.mk.inj same
  obtain ⟨before, after, shape, rfl, rfl, passed, stopped⟩ := walk_spec (threads.chain rp) walked
  rw [or_none] at ran
  have notBefore : who ∉ before := fun member => by simpa using passed who member
  cases after with
  | nil =>
    cases ran
    rw [append_nil] at shape
    refine ⟨queues rp, ?_, shape ▸ notBefore, List.Subset.refl _⟩
    rwa [update_eq_self]
  | cons cell after =>
    obtain rfl : cell = who := by simpa using stopped
    have nodup := (threads.chain rp).nodup
    rw [shape] at nodup
    have outside : cell ∉ before ++ after := (nodup_cons.mp (nodup_middle.mp nodup)).1
    have fewer : before ++ after ⊆ queues rp := by
      rw [shape]
      exact append_subset.mpr ⟨subset_append_left _ _,
        fun p member => mem_append_right _ (mem_cons_of_mem _ member)⟩
    refine ⟨before ++ after, ?_, outside, fewer⟩
    simp only [head?_cons, isSome_some, ↓reduceIte] at ran
    rcases eq_nil_or_concat before with rfl | ⟨front, last, rfl⟩
    · cases ran
      rw [nextSender_of_keeps rfl, senderQ_updateProc]
      exact threads.pop shape
    · simp only [concat_eq_append, getLast?_append, getLast?_singleton,
        some_or, Option.some.injEq] at ran
      subst ran
      rw [senderQ_of_keeps rfl, nextSender_updateProc]
      simp only [concat_eq_append, append_assoc, cons_append, nil_append] at shape ⊢
      exact threads.takeOut shape

/-- The loop of `clear_sending_mesg`, by induction on the slots. -/
theorem clearSlots_threads : ∀ {slots : List ProcNr} {k : Machine} {queues : ProcNr → List ProcNr},
    Threads (nextSender k) (senderQ k) queues →
    slots.foldlM (fun k rp => if (k.procTable rp).inUse then unqueue k who rp else some k) k = some k' →
    ∃ queues', Threads (nextSender k') (senderQ k') queues' ∧ (∀ q, queues' q ⊆ queues q) ∧
      ∀ q ∈ slots, (k.procTable q).inUse = true → who ∉ queues' q
  | [], k, queues, threads, ran => by
      cases ran
      exact ⟨queues, threads, fun _ => List.Subset.refl _, nofun⟩
  | rp :: slots, k, queues, threads, ran => by
      rw [foldlM_cons] at ran
      obtain ⟨middle, first, rest⟩ := bind_eq_some_iff.mp ran
      obtain ⟨queues₁, threads₁, fewer₁, out₁, used₁⟩ : ∃ queues₁,
          Threads (nextSender middle) (senderQ middle) queues₁ ∧ (∀ q, queues₁ q ⊆ queues q) ∧
          ((k.procTable rp).inUse = true → who ∉ queues₁ rp) ∧
          ∀ q, (middle.procTable q).inUse = (k.procTable q).inUse := by
        split_ifs at first with used
        · obtain ⟨left, threads', out, fewer⟩ := unqueue_threads threads first
          refine ⟨_, threads', fun q => ?_, fun _ => by rwa [update_self], fun q => ?_⟩
          · by_cases same : q = rp
            · subst same
              rwa [update_self]
            · rw [update_of_ne same]
              exact List.Subset.refl _
          · have view : SameView Proc.inUse k middle := (unqueue_unqueued first).coarsen fun _ => rfl
            exact view.proc q
        · cases first
          exact ⟨queues, threads, fun _ => List.Subset.refl _, fun used' => absurd used' used,
            fun _ => rfl⟩
      obtain ⟨queues', threads', fewer', out'⟩ := clearSlots_threads threads₁ rest
      refine ⟨queues', threads', fun q => List.Subset.trans (fewer' q) (fewer₁ q),
        fun q member used => ?_⟩
      rcases mem_cons.mp member with rfl | member
      · exact fun still => out₁ used (fewer' q still)
      · exact out' q member ((used₁ q).trans used)

end Clear

section Exit

variable {k k' : Machine} {listed : Set ProcNr} {queues : ProcNr → List ProcNr} {who : ProcNr}

variable (lists : Waitlists k listed queues)
include lists

/-- The end of a process up to `check_waiting`. Nobody may be queued on the process, and it may be
entered nowhere else. -/
theorem endProc_waitlists {parent : ProcNr} {status : Word} {signum : Nat}
    (alone : senderQ k who = none) (unlisted : who ∉ listed)
    (ran : endProc k who status signum = some (k', parent)) :
    ∃ queues', Waitlists k' listed queues' := by
  obtain ⟨-, dead, cleared, nudged, clearing, roused⟩ := endProc_ending ran
  have zombified := SameTraces.of_nudged nudged
  have unqueued := clearSendingMesg_unqueued clearing
  have state : ∀ p, (cleared.procTable p).state = (dead.procTable p).state :=
    (unqueued.coarsen fun _ => rfl : SameView Proc.state dead cleared).proc
  have inUse : ∀ p, (cleared.procTable p).inUse = (k.procTable p).inUse := fun p =>
    ((unqueued.coarsen fun _ => rfl : SameView Proc.inUse dead cleared).proc p).trans
      ((zombified.inUse p).trans (updateProc_field Proc.inUse rfl p))
  have sending :
      ∀ p, has (cleared.procTable p).state .sending = has (k.procTable p).state .sending := by
    intro p
    rw [state, zombified.sending]
    exact updateProc_field (fun proc => has proc.state .sending)
      (has_raise_of_ne _ (by decide)) p
  have zombie : ∀ p, IsZombie cleared p ↔ p = who ∨ IsZombie k p := by
    intro p
    rw [IsZombie, state]
    refine (zombified.zombie p).trans ?_
    by_cases same : p = who
    · subst same
      simp [IsZombie]
    · simp [IsZombie, same, updateProc_of_ne same]
  have threads : Threads (nextSender dead) (senderQ dead) queues := by
    rw [zombified.nextSender, zombified.senderQ, nextSender_of_keeps rfl, senderQ_of_keeps rfl]
    exact lists.toThreads
  obtain ⟨queues', threads', fewer, out⟩ := clearSlots_threads threads clearing
  -- a queue that the loop does not walk over is the queue of a free slot, and empty
  have gone : ∀ q, who ∉ queues' q := by
    intro q member
    cases used : (k.procTable q).inUse with
    | false =>
      have inQueue := fewer q member
      rw [lists.empty q (lists.free q used)] at inQueue
      cases inQueue
    | true =>
      refine out q (lists.table q used) ?_ member
      rw [zombified.inUse, updateProc_field Proc.inUse rfl, used]
  have kept : Waitlists cleared listed queues' :=
    { toThreads := threads'
      table := fun p used => lists.table p (inUse p ▸ used)
      free := fun p unused => (zombie p).mpr (.inr (lists.free p (inUse p ▸ unused)))
      empty := fun p dead => by
        have none : queues p = [] := by
          rcases (zombie p).mp dead with rfl | dead
          · exact lists.cells_of_head_none alone
          · exact lists.empty p dead
        exact subset_nil.mp (none ▸ fewer p)
      sending := fun {p q} member => (sending p).trans (lists.sending (fewer q member))
      alive := fun {p q} member dead => by
        rcases (zombie p).mp dead with rfl | dead
        · exact gone q member
        · exact lists.alive (fewer q member) dead
      entered := fun p member dead => by
        rcases (zombie p).mp dead with rfl | dead
        · exact unlisted member
        · exact lists.entered p member dead }
  exact ⟨queues', (SameTraces.trans (.updateProc rfl) (.of_roused roused)).waitlists kept⟩

theorem releaseZombie_waitlists (p : ProcNr) : Waitlists (releaseZombie k p) listed queues := by
  unfold releaseZombie
  split_ifs with dead
  · have zombie : ∀ q, IsZombie (k.updateProc p fun proc =>
        { proc with flags := 0#32, pid := 0, state := -1#32 }) q ↔ IsZombie k q := by
      intro q
      by_cases same : q = p
      · subst same
        simp only [IsZombie, updateProc_same, dead, iff_true]
        decide
      · rw [IsZombie, updateProc_of_ne same, IsZombie]
    refine { toThreads := ?_, table := fun q used => ?_, free := fun q unused => (zombie q).mpr ?_,
             empty := fun q dead => lists.empty q ((zombie q).mp dead), sending :=
               fun {q r} member => ?_,
             alive := fun member dead => lists.alive member ((zombie _).mp dead),
             entered := fun q member dead => lists.entered q member ((zombie q).mp dead) }
    · rw [nextSender_of_keeps rfl, senderQ_of_keeps rfl]
      exact lists.toThreads
    · by_cases same : q = p
      · subst same
        rw [updateProc_same] at used
        exact absurd (used.symm.trans (hasBit_zero _)) (by decide)
      · rw [updateProc_of_ne same] at used
        exact lists.table q used
    · by_cases same : q = p
      · exact same ▸ dead
      · rw [updateProc_of_ne same] at unused
        exact lists.free q unused
    · have other : q ≠ p := fun same => lists.alive member (same ▸ dead)
      rw [updateProc_of_ne other]
      exact lists.sending member
  · exact lists

theorem checkWaiting_waitlists (ran : checkWaiting k who = some k') : Waitlists k' listed queues := by
  rcases checkWaiting_late ran with ⟨-, rfl⟩ | ⟨late, replied, result, -, given, rfl⟩
  · exact lists
  · have answered : SameTraces k replied :=
      (SameTraces.of_roused (stopWaiting_roused k late)).trans (.of_nudged (syscallReply2_nudged given))
    exact releaseZombie_waitlists (answered.waitlists lists) who

/-- **The end of a process takes it out of every sender queue**, and leaves no other trace if there
was none but that. -/
theorem exitProc_waitlists {status : Word} {signum : Nat} (alone : senderQ k who = none)
    (unlisted : who ∉ listed) (ran : exitProc k who status signum = some k') :
    ∃ queues', Waitlists k' listed queues' := by
  obtain ⟨⟨ended, parent⟩, ending, ran⟩ := bind_eq_some_iff.mp ran
  obtain ⟨checked, checking, ran⟩ := bind_eq_some_iff.mp ran
  obtain ⟨⟨sent, result⟩, sending, ran⟩ := bind_eq_some_iff.mp ran
  cases ran
  obtain ⟨queues', lists'⟩ := endProc_waitlists lists alone unlisted ending
  exact ⟨queues', (SameTraces.of_roused (sendSig_roused sending)).waitlists
    (checkWaiting_waitlists lists' checking)⟩

end Exit

/-! ### Children -/

section Children

variable {k k' : Machine} {listed : Set ProcNr} {queues : ProcNr → List ProcNr} {who : ProcNr}

/-- A child takes over the sender queue of its parent: there must be none. -/
theorem spawned_waitlists {parent child : ProcNr} (lists : Waitlists k listed queues)
    (living : ¬ IsZombie k parent) (alone : senderQ k parent = none)
    (used : (k.procTable parent).inUse = true) (spawned : Spawned k parent child k') :
    Waitlists k' listed queues := by
  obtain ⟨slot, unused⟩ := freeSlot_eq_some spawned.taken
  have dead : IsZombie k child := lists.free child unused
  have outside : ∀ q, child ∉ queues q := fun q member => lists.alive member dead
  have none : queues child = [] := lists.empty child dead
  have other : ∀ p ≠ child, (k'.procTable p).trace = (k.procTable p).trace := fun p ne => by
    rw [← trace_roused, spawned.other p ne, trace_roused]
  have copied : (k'.procTable child).trace = (k.procTable parent).trace := by
    have view : ∀ p : Proc, p.inherited.trace = p.trace := trace_roused
    rw [← view, spawned.inherited (by simpa [IsZombie] using living), view]
  have head : senderQ k' = senderQ k := by
    funext q
    by_cases same : q = child
    · subst same
      have first := lists.chain q
      rw [none, Chain.nil_iff] at first
      rw [first]
      exact (Proc.trace_inj copied).1.trans alone
    · exact (Proc.trace_inj (other q same)).1
  have next : nextSender k' = update (nextSender k) child (nextSender k' child) := by
    funext p
    by_cases same : p = child
    · rw [same, update_self]
    · rw [update_of_ne same]
      exact (Proc.trace_inj (other p same)).2.1
  have zombie : ∀ p, IsZombie k' p → IsZombie k p := by
    intro p
    by_cases same : p = child
    · exact fun _ => same ▸ dead
    · exact (Bool.eq_iff_iff.mp (Proc.trace_inj (other p same)).2.2.2.1).mp
  refine { toThreads := ?_, table := fun p used' => ?_, free := fun p unused' => ?_,
           empty := fun p dead => lists.empty p (zombie p dead), sending := fun {p q} member => ?_,
           alive := fun member dead => lists.alive member (zombie _ dead),
           entered := fun p member dead => lists.entered p member (zombie p dead) }
  · rw [head, next]
    exact lists.update_of_notMem outside
  · by_cases same : p = child
    · exact same ▸ mem_cons_of_mem _ (mem_cons_of_mem _ slot)
    · exact lists.table p ((Proc.trace_inj (other p same)).2.2.1.symm.trans used')
  · by_cases same : p = child
    · subst same
      rw [(Proc.trace_inj copied).2.2.1, used] at unused'
      cases unused'
    · obtain ⟨-, -, sameUse, sameZombie, -⟩ := Proc.trace_inj (other p same)
      exact sameZombie.trans (lists.free p (sameUse.symm.trans unused'))
  · have ne : p ≠ child := fun same => outside q (same ▸ member)
    exact (Proc.trace_inj (other p ne)).2.2.2.2.trans (lists.sending member)

/-- A child that `waitpid` reports is a zombie, if its slot is given back. -/
theorem doWaitpid_waitlists {m : Word} {result : Int} (lists : Waitlists k listed queues)
    (ran : doWaitpid k who m = (k', result)) : Waitlists k' listed queues := by
  unfold doWaitpid at ran
  split at ran
  · cases ran
    refine releaseZombie_waitlists (SameTraces.waitlists ?_ lists) _
    exact .of_procTable rfl
  · dsimp only at ran
    split_ifs at ran
    · cases ran
      exact lists
    · cases ran
      exact lists
    · cases ran
      refine SameTraces.waitlists (.updateProc ?_) lists
      simp only [Proc.trace, has_raise_of_ne _ (show StateFlag.zombie ≠ .waiting by decide),
        has_raise_of_ne _ (show StateFlag.sending ≠ .waiting by decide)]
      rfl

end Children

/-! ### Signals -/

section Signals

variable {k k' : Machine} {listed : Set ProcNr} {queues : ProcNr → List ProcNr} {who : ProcNr}
  {signum : Nat}

/-- The signal ends the process. -/
def fatal (p : Proc) (signum : Nat) : Bool :=
  decide ((p.sigTable signum).handler = sigDfl ∧ signum ∉ [sigcont, sigtstp, sigstop]) ||
  decide ((p.sigTable signum).handler = sigIgn ∧ signum = sigabrt)

theorem catchSig_waitlists (lists : Waitlists k listed queues) (outside : ∀ q, who ∉ queues q)
    (used : (k.procTable who).inUse = true) (signum : Nat) :
    Waitlists (catchSig k who signum) listed queues := by
  have inUse := catchSig_field Proc.inUse (fun _ _ _ _ _ _ => rfl) k who signum
  have zombie : ∀ p, IsZombie (catchSig k who signum) p → IsZombie k p := by
    intro p dead
    by_cases same : p = who
    · subst same
      simp [IsZombie, catchSig_state] at dead
    · rwa [IsZombie, catchSig_of_ne same] at dead
  refine { toThreads := ?_, table := fun p used => lists.table p (inUse p ▸ used),
           free := fun p unused => ?_, empty := fun p dead => lists.empty p (zombie p dead),
           sending := fun {p q} member => ?_, alive :=
             fun member dead => lists.alive member (zombie _ dead),
           entered := fun p member dead => lists.entered p member (zombie p dead) }
  · have next : nextSender (catchSig k who signum) = nextSender k :=
      funext (catchSig_field Proc.nextSender (fun _ _ _ _ _ _ => rfl) k who signum)
    have head : senderQ (catchSig k who signum) = senderQ k :=
      funext (catchSig_field Proc.senderQ (fun _ _ _ _ _ _ => rfl) k who signum)
    rw [next, head]
    exact lists.toThreads
  · rw [inUse] at unused
    have other : p ≠ who := fun same => by
      rw [same, used] at unused
      cases unused
    rw [IsZombie, catchSig_of_ne other]
    exact lists.free p unused
  · have other : p ≠ who := fun same => outside q (same ▸ member)
    rw [catchSig_of_ne other]
    exact lists.sending member

/-- Acting on a signal. A process that catches one must not be queued: it is set running in its
queue. -/
theorem handleSig_waitlists {exit : ExitProc} (lists : Waitlists k listed queues)
    (used : (k.procTable who).inUse = true)
    (ended : ∀ {k₁ status}, SameTraces k k₁ → fatal (k.procTable who) signum = true →
      exit k₁ who status signum = some k' → ∃ queues', Waitlists k' listed queues')
    (quiet : catches (k.procTable who) signum = true → has (k.procTable who).state .sending = false)
    (ran : handleSig exit k who signum = some k') : ∃ queues', Waitlists k' listed queues' := by
  unfold handleSig at ran
  dsimp only at ran
  have pending : SameTraces k (k.updateProc who fun p =>
      { p with sigPending := sigdelset p.sigPending signum }) := .updateProc rfl
  have lists₁ := pending.waitlists lists
  rw [updateProc_field (fun p => (p.sigTable signum).handler) rfl] at ran
  split_ifs at ran with default ignored
  · unfold defaultAction at ran
    split_ifs at ran with continues stopped stops
    · cases ran
      refine ⟨queues, SameTraces.waitlists ?_ lists₁⟩
      exact SameTraces.trans (.lower (by decide) (by decide)) (.of_nudged (Nudged.enqueueSchedule _ _))
    · cases ran
      exact ⟨queues, lists₁⟩
    · obtain ⟨dequeued, taken, ran⟩ := bind_eq_some_iff.mp ran
      refine ⟨queues, checkWaiting_waitlists (SameTraces.waitlists ?_ lists₁) ran⟩
      refine SameTraces.trans (.updateProc ?_) (.of_nudged (Nudged.dequeueSchedule taken))
      simp only [Proc.trace, has_raise_of_ne _ (show StateFlag.zombie ≠ .stopped by decide),
        has_raise_of_ne _ (show StateFlag.sending ≠ .stopped by decide)]
      rfl
    · refine ended pending ?_ ran
      simp [fatal, default, continues, not_or.mp stops]
  · unfold ignoredAction at ran
    split_ifs at ran with aborts child
    · have ends : fatal (k.procTable who) signum = true := by
        rw [fatal, Bool.or_eq_true]
        exact .inr (decide_eq_true ⟨ignored, aborts⟩)
      exact ended pending ends ran
    · split at ran
      · cases ran
        exact ⟨queues, releaseZombie_waitlists lists₁ _⟩
      · cases ran
        exact ⟨queues, lists₁⟩
    · cases ran
      exact ⟨queues, lists₁⟩
  · cases ran
    have idle := quiet (by simp [catches, default, ignored])
    refine ⟨queues, catchSig_waitlists lists₁ (fun q member => ?_) ?_ signum⟩
    · rw [lists.sending member] at idle
      cases idle
    · rw [pending.inUse, used]

theorem exitProcInInterrupt_traces {heap : Option Word} {stack status : Word}
    (ran : exitProcInInterrupt heap stack k who status signum = some k') : SameTraces k k' := by
  obtain ⟨⟨notified, result⟩, notifying, rfl⟩ := map_eq_some_iff.mp ran
  refine SameTraces.trans (SameTraces.trans ?_ (.raise (by decide) (by decide)))
    (.of_nudged (doNotify_nudged notifying))
  split_ifs
  · exact .of_procTable rfl
  · exact .refl k

end Signals

end Winix.Kernel
