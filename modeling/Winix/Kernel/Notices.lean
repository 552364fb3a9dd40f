/-
**Pending notifications.**

`do_notify` to a process that is not waiting leaves the notification pending: the source's own
`notify_queue` field becomes an entry of the destination's list, and the source's message pointer
keeps the message. An observer writes down every notification that is left pending, with the
contents of the message at that moment, and every one that `do_receive` takes out, with what the
receiver's buffer then holds.

* **`faithful_of_separate`**: what was sent to a process is what it has received and what is still in
  its list, each once and as it was sent, in every run that is `Separate`.
* The list head and the message pointer of a process are one each, so a second notification of one
  source takes the first one apart (`second_notice_lost`).
-/

import Winix.Kernel.Rendezvous
import Winix.Lib.Ring

namespace Winix.Kernel

variable {log : List Noted}

open Lib Function Machine List

/-! ### The observer -/

/-- What can happen: a notification, a receive, a store to memory. -/
inductive Notice
  | notify (src dest : Int) (m : Word)
  | receive (cur : ProcNr) (m : Word)
  | write (address value : Word)

/-- The operations behind the notices. -/
def noticeStep (k : Machine) : Notice → Option Machine
  | .notify src dest m => (doNotify k src dest m).map Prod.fst
  | .receive cur m => (doReceive k cur m).map Prod.fst
  | .write address value => some (k.poke address value)

/-- What is seen of a notice. -/
inductive Noted
  | queued (src dest : ProcNr) (contents : Message)
  | received (dest src : ProcNr) (contents : Message)
  deriving DecidableEq, Repr

/-- A notification to this process is left pending. -/
def LeftPending (k : Machine) (pDest : ProcNr) : Prop :=
  has (k.procTable pDest).state .killed = false ∧
    (k.procTable pDest).state ≠ raise runnable .receiving

instance (k : Machine) (pDest : ProcNr) : Decidable (LeftPending k pDest) :=
  inferInstanceAs (Decidable (_ ∧ _))

/-- A notification that is left pending, a receive that takes one out. -/
def note (k : Machine) : Notice → List Noted
  | .notify src dest m =>
    match getProc k dest with
    | some pDest => if LeftPending k pDest then [.queued src pDest (readMessage k.memory m)] else []
    | none => []
  | .receive cur m =>
    if notifyEmpty k cur then []
    else match (k.procTable cur).notifyQueue.next, doReceive k cur m with
      | some p, some (after, _) => [.received cur p (readMessage after.memory m)]
      | _, _ => []
  | .write _ _ => []

/-- The notifications left pending at this destination, with their sources. -/
def sentTo (d : ProcNr) (log : List Noted) : List (ProcNr × Message) :=
  log.filterMap fun
    | .queued src dest contents => if dest = d then some (src, contents) else none
    | .received .. => none

/-- The notifications this process has received, with their sources. -/
def receivedBy (d : ProcNr) (log : List Noted) : List (ProcNr × Message) :=
  log.filterMap fun
    | .received dest src contents => if dest = d then some (src, contents) else none
    | .queued .. => none

/-- The sources of the notifications that were left pending. -/
def sources (log : List Noted) : List ProcNr :=
  log.filterMap fun
    | .queued src _ _ => some src
    | .received .. => none

/-- The process has been the source of a notification that was left pending. -/
abbrev IsSource (log : List Noted) (p : ProcNr) : Prop := p ∈ sources log

/-- The next entry of a queue. -/
def notifyNext (k : Machine) (p : ProcNr) : Option ProcNr := (k.procTable p).notifyQueue.next

/-- The entry before. -/
def notifyPrev (k : Machine) (p : ProcNr) : Option ProcNr := (k.procTable p).notifyQueue.prev

/-- What was sent to a process is what it has received and what is in its list, each once and with
the same contents. A process that has itself been a source has lent its list head; everything that
was sent to it before has been received. -/
structure Faithful (k : Machine) (log : List Noted) : Prop where
  pending : ∀ d, ¬ IsSource log d → ∃ cells, Ring (notifyNext k) (notifyPrev k) d cells ∧
    (sentTo d log).Perm (receivedBy d log ++ cells.map fun s => (s, contents k s))
  settled : ∀ d, IsSource log d → (sentTo d log).Perm (receivedBy d log)

/-! ### Which runs -/

/-- The list head of the process is neither in use as an entry nor as a head with entries: it is
fresh, or was poisoned when its last notification was received. -/
def Unlinked (k : Machine) (p : ProcNr) : Prop :=
  (k.procTable p).notifyQueue = ⟨some p, some p⟩ ∨ (k.procTable p).notifyQueue = ⟨none, none⟩

instance (k : Machine) (p : ProcNr) : Decidable (Unlinked k p) :=
  inferInstanceAs (Decidable (_ ∨ _))

/-- The sources of the notifications that are still pending. -/
def pendingSources (k : Machine) (log : List Noted) : List ProcNr :=
  (sources log).filter fun s => (k.procTable s).notifyQueue ≠ ⟨none, none⟩

/-- The destination is not waiting: its notification is left pending, or refused. -/
def NotWaiting (s : Machine × List Noted) : Notice → Prop
  | .notify _ dest _ => ∀ pDest ∈ getProc s.1 dest,
      (s.1.procTable pDest).state ≠ raise runnable .receiving
  | _ => True

/-- A source has no notification pending, to or from it; a source is no destination any more;
nothing is written into a message that is pending. -/
def Separate (s : Machine × List Noted) : Notice → Prop
  | .notify src dest _ => ∀ pDest ∈ getProc s.1 dest, LeftPending s.1 pDest →
      src ≠ pDest ∧ Unlinked s.1 src ∧ ¬ IsSource s.2 pDest
  | .receive cur m => ¬ IsSource s.2 cur ∧ (notifyEmpty s.1 cur = false →
      ∀ p ∈ pendingSources s.1 s.2, notifyNext s.1 cur ≠ some p → Apart m (s.1.procTable p).message)
  | .write address _ => ∀ p ∈ pendingSources s.1 s.2, ¬ InBuffer (s.1.procTable p).message address

instance (s : Machine × List Noted) : ∀ event, Decidable (NotWaiting s event ∧ Separate s event)
  | .notify .. => inferInstanceAs (Decidable ((∀ pDest ∈ _, _) ∧ ∀ pDest ∈ _, _))
  | .receive .. => inferInstanceAs (Decidable (True ∧ _ ∧ (_ → ∀ p ∈ pendingSources _ _, _)))
  | .write .. => inferInstanceAs (Decidable (True ∧ ∀ p ∈ pendingSources _ _, _))

/-! ### The list operations -/

section Lists

variable {k : Machine} {p q : ProcNr}

theorem notifyNext_setNotifyNext (p : ProcNr) (target : Option ProcNr) :
    notifyNext (setNotifyNext k (some p) target) = update (notifyNext k) p target := by
  rw [setNotifyNext]
  exact updateProc_fields fun proc => proc.notifyQueue.next

theorem notifyPrev_setNotifyNext (entry target : Option ProcNr) :
    notifyPrev (setNotifyNext k entry target) = notifyPrev k := by
  cases entry with
  | none => rfl
  | some p =>
    funext q
    rw [setNotifyNext]
    exact updateProc_field (fun proc => proc.notifyQueue.prev) rfl q

theorem notifyPrev_setNotifyPrev (p : ProcNr) (target : Option ProcNr) :
    notifyPrev (setNotifyPrev k (some p) target) = update (notifyPrev k) p target := by
  rw [setNotifyPrev]
  exact updateProc_fields fun proc => proc.notifyQueue.prev

theorem notifyNext_setNotifyPrev (entry target : Option ProcNr) :
    notifyNext (setNotifyPrev k entry target) = notifyNext k := by
  cases entry with
  | none => rfl
  | some p =>
    funext q
    rw [setNotifyPrev]
    exact updateProc_field (fun proc => proc.notifyQueue.next) rfl q

theorem OnlyLinks.frame {k' : Machine} (same : OnlyLinks k k') :
    k'.memory = k.memory ∧ ∀ {β : Type} (field : Proc → β),
      (∀ (p : Proc) links, field { p with notifyQueue := links } = field p) →
        ∀ q, field (k'.procTable q) = field (k.procTable q) := by
  obtain ⟨links, rfl⟩ := same
  exact ⟨rfl, fun field other q => other _ _⟩

/-- The links after `list_add`, where the head's first link leads to `first`. -/
theorem listAdd_links (new : ProcNr) {head first : ProcNr} (link : notifyNext k head = some first) :
    notifyNext (listAdd k new head) =
        update (update (notifyNext k) new (notifyNext k head)) head (some new) ∧
      notifyPrev (listAdd k new head) =
        update (update (notifyPrev k) first (some new)) new (some head) := by
  have start : (k.procTable head).notifyQueue.next = some first := link
  constructor
  · rw [listAdd, notifyNext_setNotifyNext, notifyNext_setNotifyPrev, notifyNext_setNotifyNext,
      notifyNext_setNotifyPrev]
    congr 2
    exact congrFun (notifyNext_setNotifyPrev _ _) head
  · rw [listAdd, notifyPrev_setNotifyNext, notifyPrev_setNotifyPrev, notifyPrev_setNotifyNext, start,
      notifyPrev_setNotifyPrev]

/-- The links after `list_del` of an entry that does not point to itself. -/
theorem listDel_links {entry before after : ProcNr} (backward : notifyPrev k entry = some before)
    (forward : notifyNext k entry = some after) (other : entry ≠ after) :
    notifyNext (listDel k entry) = update (update (notifyNext k) before (some after)) entry none ∧
      notifyPrev (listDel k entry) = update (update (notifyPrev k) after (some before)) entry none := by
  have start : (k.procTable entry).notifyQueue = ⟨some after, some before⟩ :=
    congrArg₂ ListHead.mk forward backward
  have middle : ((setNotifyPrev k (some after) (some before)).procTable entry).notifyQueue =
      ⟨some after, some before⟩ := by
    rw [setNotifyPrev, updateProc_of_ne other, start]
  constructor
  · simp only [listDel, start]
    rw [notifyNext_setNotifyPrev, notifyNext_setNotifyNext, middle, notifyNext_setNotifyNext,
      notifyNext_setNotifyPrev]
  · simp only [listDel, start]
    rw [notifyPrev_setNotifyPrev, notifyPrev_setNotifyNext, notifyPrev_setNotifyNext,
      notifyPrev_setNotifyPrev]

end Lists

/-! ### The invariant -/

@[simp] theorem sentTo_append (d : ProcNr) (log more : List Noted) :
    sentTo d (log ++ more) = sentTo d log ++ sentTo d more := filterMap_append

@[simp] theorem receivedBy_append (d : ProcNr) (log more : List Noted) :
    receivedBy d (log ++ more) = receivedBy d log ++ receivedBy d more := filterMap_append

theorem isSource_queued {src dest p : ProcNr} {message : Message} :
    IsSource (log ++ [.queued src dest message]) p ↔ p = src ∨ IsSource log p := by
  simp [IsSource, sources, or_comm]

theorem isSource_received {src dest p : ProcNr} {message : Message} :
    IsSource (log ++ [.received dest src message]) p ↔ IsSource log p := by
  simp [IsSource, sources]

/-- The lists of the processes that are no sources are well formed, their entries are sources, and
they hold what has been sent and not been received. -/
structure NoticeInv (k : Machine) (log : List Noted) (queues : ProcNr → List ProcNr) : Prop
    extends Rings (notifyNext k) (notifyPrev k) (IsSource log) queues where
  nobody : ∀ p, (k.procTable p).senderQ = none
  exact : ∀ d, (sentTo d log).Perm (receivedBy d log ++ (queues d).map fun s => (s, contents k s))

namespace NoticeInv

variable {k k' : Machine} {log : List Noted} {queues : ProcNr → List ProcNr} {s d : ProcNr}

variable (inv : NoticeInv k log queues)
include inv

theorem faithful : Faithful k log := by
  refine ⟨fun d free => ⟨queues d, inv.ring d free, inv.exact d⟩, fun d used => ?_⟩
  have exactly := inv.exact d
  rwa [inv.own d used, map_nil, append_nil] at exactly

theorem isPending_of_mem (member : s ∈ queues d) : s ∈ pendingSources k log := by
  refine mem_filter.mpr ⟨inv.entries member, decide_eq_true fun poisoned => ?_⟩
  exact inv.next_ne_none member (congrArg ListHead.next poisoned)

/-- What is pending at a destination, where the pending messages are the same. -/
theorem exact_congr (same : ∀ s ∈ pendingSources k log, contents k' s = contents k s) (d : ProcNr) :
    (sentTo d log).Perm (receivedBy d log ++ (queues d).map fun s => (s, contents k' s)) := by
  have kept : (queues d).map (fun s => (s, contents k' s)) =
      (queues d).map fun s => (s, contents k s) :=
    map_congr_left fun s member => by rw [same s (inv.isPending_of_mem member)]
  rw [kept]
  exact inv.exact d

theorem congr (links : ∀ p, (k'.procTable p).notifyQueue = (k.procTable p).notifyQueue)
    (senders : ∀ p, (k'.procTable p).senderQ = (k.procTable p).senderQ)
    (same : ∀ s ∈ pendingSources k log, contents k' s = contents k s) :
    NoticeInv k' log queues := by
  have next : notifyNext k' = notifyNext k := funext fun p => congrArg ListHead.next (links p)
  have prev : notifyPrev k' = notifyPrev k := funext fun p => congrArg ListHead.prev (links p)
  refine ⟨?_, fun p => (senders p).trans (inv.nobody p), inv.exact_congr same⟩
  rw [next, prev]
  exact inv.toRings

/-- **A notification is left pending**: its source becomes the first entry of the list. -/
theorem queue {src dest : ProcNr} (m : Word) (other : src ≠ dest) (unlinked : Unlinked k src)
    (free : ¬ IsSource log dest) :
    NoticeInv (listAdd (saveMessage k src m) src dest)
      (log ++ [.queued src dest (readMessage k.memory m)])
      (update queues dest (src :: queues dest)) := by
  have selfOrPoison : notifyNext k src = some src ∨ notifyNext k src = none :=
    unlinked.imp (congrArg ListHead.next) (congrArg ListHead.next)
  obtain ⟨outside, -⟩ := inv.of_unlinked selfOrPoison
  have savedNext : notifyNext (saveMessage k src m) = notifyNext k :=
    funext (updateProc_field (fun p => p.notifyQueue.next) rfl)
  have savedPrev : notifyPrev (saveMessage k src m) = notifyPrev k :=
    funext (updateProc_field (fun p => p.notifyQueue.prev) rfl)
  have first : notifyNext (saveMessage k src m) dest = some ((queues dest).headD dest) := by
    rw [savedNext]
    exact (inv.ring dest free).next_head
  obtain ⟨next, prev⟩ := listAdd_links src first
  rw [savedNext] at next
  rw [savedPrev] at prev
  obtain ⟨memory, field⟩ := (listAdd_onlyLinks (saveMessage k src m) src dest).frame
  have kept : ∀ p, p ≠ src → contents (listAdd (saveMessage k src m) src dest) p = contents k p := by
    intro p ne
    refine contents_of_same memory ?_
    rw [field Proc.message fun _ _ => rfl, saveMessage, updateProc_of_ne ne]
  have here : contents (listAdd (saveMessage k src m) src dest) src = readMessage k.memory m := by
    rw [contents, memory, field Proc.message fun _ _ => rfl, saveMessage, updateProc_same]
    rfl
  refine ⟨?_, fun p => ?_, fun d => ?_⟩
  · rw [next, prev]
    exact (inv.toRings.insert free selfOrPoison other).congr_lent fun _ => isSource_queued
  · rw [field Proc.senderQ fun _ _ => rfl, saveMessage, updateProc_field Proc.senderQ rfl]
    exact inv.nobody p
  · have keptMap : ∀ d, (queues d).map
        (fun s => (s, contents (listAdd (saveMessage k src m) src dest) s)) =
          (queues d).map fun s => (s, contents k s) := fun d =>
      map_congr_left fun s member => by rw [kept s fun same => outside d (same ▸ member)]
    by_cases same : d = dest
    · subst same
      simp only [sentTo_append, receivedBy_append, update_self, map_cons, here, keptMap]
      simp only [sentTo, receivedBy, filterMap_cons, filterMap_nil, ↓reduceIte, append_nil]
      refine perm_append_comm.trans (List.Perm.trans ?_ perm_middle.symm)
      exact (inv.exact d).cons _
    · simp only [sentTo_append, receivedBy_append, update_of_ne same, keptMap]
      simp only [sentTo, receivedBy, filterMap_cons, filterMap_nil, Ne.symm same, ↓reduceIte,
        append_nil]
      exact inv.exact d

/-- **A notification is received**: the first entry of the list. -/
theorem take {cur : ProcNr} {rest : List ProcNr} {m : Word} (shape : queues cur = s :: rest)
    (apart : ∀ p ∈ pendingSources k log, p ≠ s → Apart m (k.procTable p).message) :
    NoticeInv ((listDel k s).copyMessage m ((listDel k s).procTable s).message)
      (log ++ [.received cur s (contents k s)]) (update queues cur rest) := by
  have inCur : s ∈ queues cur := shape ▸ mem_cons_self
  have ring := inv.ring cur (inv.free_of_mem inCur)
  rw [shape] at ring
  have notRest : s ∉ rest := (nodup_cons.mp (nodup_cons.mp ring.nodup).2).1
  have forward : notifyNext k s = some (rest.headD cur) := ring.path.2.next_first
  have notAfter : s ≠ rest.headD cur := fun same =>
    ring.next_ne_self mem_cons_self (same ▸ forward)
  obtain ⟨next, prev⟩ := listDel_links ring.path.1.2 forward notAfter
  obtain ⟨memory, field⟩ := (listDel_onlyLinks k s).frame
  have message : ∀ p, ((listDel k s).procTable p).message = (k.procTable p).message :=
    field Proc.message fun _ _ => rfl
  have kept : ∀ p ∈ pendingSources k log, p ≠ s →
      contents ((listDel k s).copyMessage m ((listDel k s).procTable s).message) p = contents k p := by
    intro p pending ne
    have written : ((listDel k s).copyMessage m ((listDel k s).procTable s).message).memory =
        writeMessage k.memory m (contents k s) := by
      rw [Machine.copyMessage, memory, message, contents]
    exact contents_of_apart written (message p) (apart p pending ne)
  refine ⟨?_, fun p => ?_, fun d => ?_⟩
  · have links : Rings (notifyNext (listDel k s)) (notifyPrev (listDel k s)) (IsSource log)
        (update queues cur rest) := by
      rw [next, prev, ← forward]
      exact inv.toRings.removeFirst shape
    exact links.congr_lent fun _ => isSource_received
  · exact (field Proc.senderQ (fun _ _ => rfl) p).trans (inv.nobody p)
  · have keptMap : ∀ (d : ProcNr) (cells : List ProcNr), (∀ p ∈ cells, p ∈ queues d ∧ p ≠ s) → cells.map
        (fun p => (p, contents ((listDel k s).copyMessage m ((listDel k s).procTable s).message) p)) =
          cells.map fun p => (p, contents k p) := fun d cells inside =>
      map_congr_left fun p member => by
        rw [kept p (inv.isPending_of_mem (inside p member).1) (inside p member).2]
    by_cases same : d = cur
    · subst same
      have exactly := inv.exact d
      rw [shape, map_cons] at exactly
      rw [sentTo_append, receivedBy_append, update_self, keptMap d rest fun p member =>
        ⟨shape ▸ mem_cons_of_mem _ member, fun eq => notRest (eq ▸ member)⟩]
      simp only [sentTo, receivedBy, filterMap_cons, filterMap_nil, ↓reduceIte,
        append_nil, append_assoc, singleton_append] at exactly ⊢
      exact exactly
    · rw [sentTo_append, receivedBy_append, update_of_ne same, keptMap d _ fun p member =>
        ⟨member, fun eq => same (inv.apart (eq ▸ member) inCur)⟩]
      simp only [sentTo, receivedBy, filterMap_cons, filterMap_nil, Ne.symm same, ↓reduceIte,
        append_nil]
      exact inv.exact d

end NoticeInv

/-! ### Runs -/

section Step

variable {k k' : Machine} {log : List Noted} {queues : ProcNr → List ProcNr}

/-- The observer's note of a receive is what the receiver finds in its buffer. -/
theorem note_receive {cur s : ProcNr} {m : Word} (pending : notifyEmpty k cur = false)
    (first : notifyNext k cur = some s) :
    note k (.receive cur m) = [.received cur s (contents k s)] := by
  have link : (k.procTable cur).notifyQueue.next = some s := first
  obtain ⟨memory, field⟩ := (listDel_onlyLinks k s).frame
  simp only [note, pending, Bool.false_eq_true, ↓reduceIte, doReceive, link, Machine.copyMessage,
    readMessage_writeMessage, contents, memory, field Proc.message fun _ _ => rfl]

theorem notify_step (inv : NoticeInv k log queues) {src dest : Int} {m : Word}
    (idle : NotWaiting (k, log) (.notify src dest m))
    (separate : Separate (k, log) (.notify src dest m))
    (ran : noticeStep k (.notify src dest m) = some k') :
    ∃ queues', NoticeInv k' (log ++ note k (.notify src dest m)) queues' := by
  obtain ⟨⟨after, result⟩, did, rfl⟩ := Option.map_eq_some_iff.mp ran
  cases doNotify_notified did with
  | nobody absent =>
    rw [note, absent]
    exact ⟨queues, by simpa using inv⟩
  | killed pDest found dying =>
    have refused : ¬ LeftPending k pDest := fun left => by
      have alive := left.1
      rw [dying] at alive
      cases alive
    simp only [note, found, refused, ↓reduceIte, append_nil]
    exact ⟨queues, inv⟩
  | delivered pDest found exactly => exact absurd exactly (idle pDest found)
  | pending pDest pSrc found source busy =>
    obtain ⟨rfl, -, -⟩ := getProc_eq_some.mp source
    by_cases left : LeftPending k pDest
    · obtain ⟨other, unlinked, free⟩ := separate pDest found left
      simp only [note, found, left, ↓reduceIte]
      exact ⟨_, inv.queue m other unlinked free⟩
    · -- a killed destination refuses, so the notification was not left pending
      have dying : has (k.procTable pDest).state .killed = true := by
        by_contra alive
        exact left ⟨by simpa using alive, busy⟩
      simp [doNotify, found, dying] at did
      exact absurd did.2 (by decide)

theorem receive_step (inv : NoticeInv k log queues) {cur : ProcNr} {m : Word}
    (separate : Separate (k, log) (.receive cur m))
    (ran : noticeStep k (.receive cur m) = some k') :
    ∃ queues', NoticeInv k' (log ++ note k (.receive cur m)) queues' := by
  obtain ⟨⟨after, result⟩, did, rfl⟩ := Option.map_eq_some_iff.mp ran
  obtain ⟨free, apart⟩ := separate
  have ring := inv.ring cur free
  cases empty : notifyEmpty k cur with
  | true =>
    simp only [doReceive, empty, ↓reduceIte, inv.nobody cur] at did
    cases did
    simp only [note, empty, ↓reduceIte, append_nil]
    refine ⟨queues, inv.congr (fun p => ?_) (fun p => ?_) fun s pending => ?_⟩
    · rw [await, saveMessage, updateProc_field Proc.notifyQueue rfl,
        updateProc_field Proc.notifyQueue rfl]
    · rw [await, saveMessage, updateProc_field Proc.senderQ rfl, updateProc_field Proc.senderQ rfl]
    · have ne : s ≠ cur := fun same => free (same ▸ mem_of_mem_filter pending)
      refine contents_of_same rfl ?_
      rw [await, updateProc_field Proc.message rfl, saveMessage, updateProc_of_ne ne]
  | false =>
    cases shape : queues cur with
    | nil =>
      have self := ring.eq_nil_iff.mp shape
      simp only [notifyEmpty, decide_eq_false_iff_not] at empty
      exact absurd self empty
    | cons s rest =>
      have first : notifyNext k cur = some s := by
        rw [ring.next_head, shape]
        rfl
      have link : (k.procTable cur).notifyQueue.next = some s := first
      rw [note_receive empty first]
      simp only [doReceive, empty, Bool.false_eq_true, ↓reduceIte, link] at did
      cases did
      refine ⟨_, inv.take shape fun p pending ne => apart empty p pending ?_⟩
      rw [first]
      exact fun same => ne (Option.some.inj same).symm

/-- **Every event keeps the lists in order**, provided it is separate. -/
theorem notice_step (s : Machine × List Noted) (event : Notice) (s' : Machine × List Noted)
    (inv : ∃ queues, NoticeInv s.1 s.2 queues) (meets : NotWaiting s event ∧ Separate s event)
    (ran : logged noticeStep note s event = some s') : ∃ queues, NoticeInv s'.1 s'.2 queues := by
  obtain ⟨queues, inv⟩ := inv
  obtain ⟨k, log⟩ := s
  obtain ⟨k', log'⟩ := s'
  obtain ⟨stepped, rfl⟩ := logged_eq_some.mp ran
  cases event with
  | notify src dest m => exact notify_step inv meets.1 meets.2 stepped
  | receive cur m => exact receive_step inv meets.2 stepped
  | write address value =>
    cases stepped
    rw [note, append_nil]
    refine ⟨queues, inv.congr (fun _ => rfl) (fun _ => rfl) fun p pending => ?_⟩
    refine readMessage_congr fun other inside => store_of_ne fun same => ?_
    exact meets.2 p pending (same ▸ inside)

end Step

/-- **Pending notifications are a faithful queue** over every run of notifications, receives and
stores in which a source has no notification pending, to or from it, a source is no destination any
more, and nothing is written into a message that is pending. -/
theorem faithful_of_separate {k k' : Machine} {events : List Notice}
    (fresh : ∀ p, (k.procTable p).notifyQueue = ⟨some p, some p⟩)
    (nobody : ∀ p, (k.procTable p).senderQ = none)
    (meets : Meets (logged noticeStep note) (fun s event => NotWaiting s event ∧ Separate s event)
      (k, []) events) (ran : runFrom (logged noticeStep note) (k, []) events = some (k', log)) :
    Faithful k' log := by
  have start : NoticeInv k [] fun _ => [] := by
    exact ⟨⟨fun d _ => Ring.empty (congrArg ListHead.next (fresh d)) (congrArg ListHead.prev (fresh d)),
      fun _ _ => rfl, (nomatch ·), (nomatch ·), fun _ used => nomatch used⟩, nobody,
      fun _ => .refl _⟩
  obtain ⟨queues, inv⟩ := runFrom_invariant (fun s => ∃ queues, NoticeInv s.1 s.2 queues)
    notice_step events ⟨_, start⟩ meets ran
  exact inv.faithful

/-! ### Two runs -/

/-- Three processes with a word each in their message buffers. -/
def threeProcs : Machine :=
  stacked [1, 2, 3, 4] [(imageBase 1 + 513, 11), (imageBase 2 + 513, 22)]

/-- Processes 1 and 2 notify process 3, which receives both notifications and then waits. -/
def twoNotices : List Notice :=
  [.notify 1 3 (imageBase 1 + 512), .notify 2 3 (imageBase 2 + 512), .write 100 7,
    .receive 3 (imageBase 3 + 512), .receive 3 (imageBase 3 + 512), .receive 3 (imageBase 3 + 512)]

theorem twoNotices_faithful :
    ∃ k' log, runFrom (logged noticeStep note) (threeProcs, []) twoNotices = some (k', log) ∧
      (receivedBy 3 log).map Prod.fst = [2, 1] ∧ Faithful k' log := by
  obtain ⟨⟨k', log⟩, ran, received⟩ := exists_of_any (by decide +kernel :
    (runFrom (logged noticeStep note) (threeProcs, []) twoNotices).any
      (fun s => decide ((receivedBy 3 s.2).map Prod.fst = [2, 1])) = true)
  exact ⟨k', log, ran, received,
    faithful_of_separate (fun _ => rfl) (fun _ => rfl) (by decide +kernel) ran⟩

/-- **A second notification of one source takes the first one apart**: process 1 notifies process 2
and then process 3; when process 2 receives, the list of process 3 is empty again, process 2 has the
message for process 3, and its own list still holds process 1. -/
theorem second_notice_lost :
    ∃ k' log, runFrom (logged noticeStep note) (threeProcs, [])
      [.notify 1 2 (imageBase 1 + 512), .notify 1 3 (imageBase 1 + 600),
        .receive 2 (imageBase 2 + 512)] = some (k', log) ∧ ¬ Faithful k' log := by
  obtain ⟨⟨k', log⟩, ran, empty, sent, received, free⟩ := exists_of_any (by decide +kernel :
    (runFrom (logged noticeStep note) (threeProcs, [])
      [.notify 1 2 (imageBase 1 + 512), .notify 1 3 (imageBase 1 + 600),
        .receive 2 (imageBase 2 + 512)]).any (fun s =>
          decide (notifyNext s.1 3 = some 3 ∧ (sentTo 3 s.2).length = 1 ∧ receivedBy 3 s.2 = [] ∧
            ¬ IsSource s.2 3)) = true)
  refine ⟨k', log, ran, fun faithful => ?_⟩
  obtain ⟨cells, ring, exactly⟩ := faithful.pending 3 free
  rw [ring.eq_nil_iff.mpr empty, received] at exactly
  have none := exactly.length_eq
  rw [sent] at none
  cases none

end Winix.Kernel
