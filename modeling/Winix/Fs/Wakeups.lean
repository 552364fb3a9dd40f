/-
**Who waits on a pipe, and until when.**

A reader should wait only for words and a writer only for space (`Attended`). A call of the other side
completes one request, the one that came last, and changes the pipe twice: once for the caller, once
for the request. Whether the others still have to wait then is not looked at.

* **`attended_of_uncrowded`**: everybody who waits has to, in every run without a crowd (`Uncrowded`).
* `waiters_stranded`: what happens otherwise.

The write end can be closed (`EndEvent.closeWrite`). A read then returns 0 at once, whatever is in the
pipe, and nobody wakes the readers that wait.

* **`end_of_file_after_data`**: a read returns 0 only after all words have been delivered, and no reader
  waits on a closed pipe, in every run that is `Drained`.
* `close_loses_words`: what happens otherwise.
-/

import Winix.Fs.Pipe

namespace Winix.Fs.Pipe

open Kernel Lib List

/-! ### Everybody who waits has to -/

/-- Readers wait for words, writers for space. -/
structure Attended (s : State) : Prop where
  readers : s.readingList ≠ [] → s.pos = 0
  writers : ∀ next ∈ s.writingList, pipeLimit - s.pos < next.count

/-- A call leaves at most one waiting request that could go on. A write to several waiting readers is
taken by the first of them as a whole, and beside the first waiting writer no other has room. -/
def Uncrowded (s : State) : Event → Prop
  | .read _ filp _ count _ =>
    filp.pipeMode = .read → 0 < count → 0 < s.pos →
      ∀ next ∈ s.writingList.head?, ∀ other ∈ s.writingList.tail,
        pipeLimit < s.pos - count + next.count + other.count
  | .write _ filp _ count _ _ =>
    filp.pipeMode = .write → 0 < count → count ≤ pipeLimit - s.pos →
      ∀ next ∈ s.readingList.head?, s.readingList.tail ≠ [] → s.pos + count ≤ next.count
  | .compute _ => True

instance (s : State) : ∀ event, Decidable (Uncrowded s event)
  | .read .. => inferInstanceAs (Decidable (_ → _ → _ →
      ∀ next ∈ s.writingList.head?, ∀ other ∈ s.writingList.tail, _))
  | .write .. =>
    have : Decidable (s.readingList.tail ≠ []) :=
      decidable_of_iff (s.readingList.tail.isEmpty = false) (by simp)
    inferInstanceAs (Decidable (_ → _ → _ → ∀ next ∈ s.readingList.head?, _ → _))
  | .compute _ => isTrue trivial

section Wakeups

variable {s s' : State}

/-- A write fills the pipe up to its limit. -/
theorem pos_pipeWriteWords (s : State) (data : Nat) {count : Nat} (small : count ≤ pipeLimit)
    (bounded : s.pos ≤ pipeLimit) :
    (pipeWriteWords s data count).2.pos = min pipeLimit (s.pos + count) := by
  have put := pipeWriteWords_put s data small bounded
  have noWrap : (s.pos + count) % wordSize = s.pos + count :=
    Nat.mod_eq_of_lt (by unfold pipeLimit blockSize wordSize at *; omega)
  rw [put.grows]
  simp only [pipeWriteWords, noWrap]
  split_ifs <;> omega

/-- Under the invariant, readers and writers never wait at the same time. -/
theorem Attended.exclusive (attended : Attended s) (inv : Inv s) (some' : s.readingList ≠ []) :
    s.writingList = [] := by
  rw [eq_nil_iff_forall_not_mem]
  intro next member
  have fits := inv.writers next member
  have waits := attended.writers next member
  rw [attended.readers some'] at waits
  omega

/-- One writer is woken, and the others would not have room. -/
theorem wakeWriter_attended (inv : Inv s) (idle : s.readingList = [])
    (crowd : ∀ next ∈ s.writingList.head?, ∀ other ∈ s.writingList.tail,
      0 < other.count ∧ pipeLimit < s.pos + next.count + other.count) :
    Attended (wakeWriter s).2 := by
  unfold wakeWriter getNextWaiting
  cases waiting : s.writingList with
  | nil =>
    refine ⟨fun some' => absurd idle some', ?_⟩
    rw [waiting]
    exact fun next member => absurd member not_mem_nil
  | cons next rest =>
    rw [waiting] at crowd
    have small : next.count ≤ pipeLimit := inv.writers next (by rw [waiting]; exact .head _)
    have pos := pos_pipeWriteWords { s with writingList := rest } next.data small inv.bounded
    refine ⟨fun some' => absurd idle some', fun other member => ?_⟩
    show pipeLimit - (pipeWriteWords { s with writingList := rest } next.data next.count).2.pos < _
    obtain ⟨positive, room⟩ := crowd next rfl other member
    rw [pos]
    dsimp only
    omega

/-- The first waiting reader goes on and leaves nothing, or there is no other. -/
theorem wakeReader_attended (idle : s.writingList = [])
    (taken : ∀ next ∈ s.readingList.head?, s.readingList.tail ≠ [] → s.pos ≤ next.count) :
    s.readingList ≠ [] → Attended (wakeReader s).2 := by
  unfold wakeReader getNextWaiting
  cases waiting : s.readingList with
  | nil => exact fun some' => absurd rfl some'
  | cons next rest =>
    rw [waiting] at taken
    refine fun _ => ⟨fun some' => ?_, ?_⟩
    · show (pipeReadWords { s with readingList := rest } next.data next.count).2.pos = 0
      have large := taken next rfl some'
      rw [pos_pipeReadWords]
      dsimp only
      omega
    · show ∀ other ∈ s.writingList, _
      rw [idle]
      exact fun other member => absurd member not_mem_nil

/-- **`pipe_read` leaves nobody waiting for nothing.** -/
theorem pipeRead_attended (inv : Inv s) (attended : Attended s) (who : ProcNr) (filp : Filp)
    (data count : Nat) (granted : Bool) (uncrowded : Uncrowded s (.read who filp data count granted)) :
    Attended (pipeRead s who filp data count granted).pipe := by
  unfold pipeRead
  rw [if_neg inv.bothOpen]
  split_ifs with writeEnd empty nonblock failed
  · exact attended
  · exact attended
  · exact attended
  · exact ⟨fun _ => empty, attended.writers⟩
  · have idle : s.readingList = [] := by
      by_contra some'
      exact empty (attended.readers some')
    have pos := pos_pipeReadWords s data count
    by_cases nothing : (pipeReadWords s data count).1 = 0
    · have zero : count = 0 := by
        have amount : ((if count < s.pos then count else s.pos : Nat) : Int) = 0 := nothing
        split_ifs at amount <;> omega
      simp only [if_pos nothing]
      refine ⟨fun some' => absurd idle some', fun next member => ?_⟩
      rw [pos, zero]
      exact attended.writers next member
    · have positive : 0 < count := by
        refine Nat.pos_of_ne_zero fun zero => nothing ?_
        subst zero
        show ((if 0 < s.pos then 0 else s.pos : Nat) : Int) = 0
        rw [if_pos (Nat.pos_of_ne_zero empty)]
        rfl
      have taken := inv_pipeReadWords inv data count
      simp only [if_neg nothing]
      refine wakeWriter_attended taken idle fun next first other member => ?_
      rw [pos]
      refine ⟨?_, uncrowded (PipeMode.read_of_ne writeEnd) positive (Nat.pos_of_ne_zero empty)
        next first other member⟩
      have waits := attended.writers other (mem_of_mem_tail member)
      omega

/-- **`pipe_write` leaves nobody waiting for nothing.** -/
theorem pipeWrite_attended (inv : Inv s) (attended : Attended s) (who : ProcNr) (filp : Filp)
    (data count offset : Nat) (granted : Bool)
    (uncrowded : Uncrowded s (.write who filp data count offset granted)) :
    Attended (pipeWrite s who filp data count offset granted).pipe := by
  unfold pipeWrite
  rw [inv.room, if_neg inv.bothOpen]
  split_ifs with readEnd large full nonblock failed
  · exact attended
  · exact attended
  · exact attended
  · exact attended
  · refine ⟨attended.readers, fun next member => ?_⟩
    rcases mem_cons.mp member with rfl | old
    · exact full
    · exact attended.writers next old
  · have bounded := inv.bounded
    have fits := Nat.le_of_not_lt full
    have put := pipeWriteWords_put s data (Nat.le_of_not_lt large) bounded
    have pos := pos_pipeWriteWords s data (Nat.le_of_not_lt large) bounded
    have whole : min pipeLimit (s.pos + count) = s.pos + count := by omega
    rw [whole] at pos
    have written : ∀ next ∈ s.writingList, pipeLimit - (s.pos + count) < next.count :=
      fun next member => by
      have waits := attended.writers next member
      omega
    by_cases nothing : (pipeWriteWords s data count).1 = 0
    · have zero : count = 0 := by
        have grows := put.grows
        rw [nothing, pos] at grows
        simpa using grows
      simp only [if_pos nothing]
      refine ⟨fun some' => ?_, fun next member => ?_⟩
      · rw [pos, zero]
        exact attended.readers some'
      · rw [pos]
        exact written next member
    · have positive : 0 < count := by
        refine Nat.pos_of_ne_zero fun zero => nothing ?_
        subst zero
        exact pipeWriteWords_zero s data bounded
      simp only [if_neg nothing]
      by_cases idle : s.readingList = []
      · have same :
            (wakeReader (pipeWriteWords s data count).2).2 = (pipeWriteWords s data count).2 := by
          unfold wakeReader
          rw [put.lists.2, idle]
          rfl
        rw [same]
        refine ⟨fun some' => absurd idle some', fun next member => ?_⟩
        rw [pos]
        exact written next member
      · refine wakeReader_attended (attended.exclusive inv idle) (fun next first others => ?_) idle
        rw [pos]
        exact uncrowded (PipeMode.write_of_ne readEnd) positive fits next first others

/-- Nor does any other step. -/
theorem step_attended {event : Event} (inv : Inv s) (attended : Attended s)
    (uncrowded : Uncrowded s event) (stepped : step s event = some s') : Attended s' := by
  cases event with
  | read who filp data count granted =>
    cases stepped
    exact pipeRead_attended inv attended who filp data count granted uncrowded
  | write who filp data count offset granted =>
    cases stepped
    exact pipeWrite_attended inv attended who filp data count offset granted uncrowded
  | compute memory =>
    cases stepped
    exact ⟨attended.readers, attended.writers⟩

/-- **No wakeup is lost** in any state of any run without a crowd. -/
theorem attended_of_uncrowded {events : List Event} (fresh : Fresh s)
    (uncrowded : Meets step Uncrowded s events) (ran : runFrom step s events = some s') :
    Attended s' := by
  have start : Attended s := by
    refine ⟨fun _ => fresh.pos, ?_⟩
    rw [fresh.writingList]
    exact fun next member => absurd member not_mem_nil
  exact (runFrom_invariant (fun s => Inv s ∧ Attended s)
    (fun s event s' inv uncrowded stepped =>
      ⟨step_inv inv.1 stepped, step_attended inv.1 inv.2 uncrowded stepped⟩)
    events ⟨fresh.inv, start⟩ uncrowded ran).2

end Wakeups

/-- Two readers wait; the first of them takes all of a write, and the second a later one in part. -/
def attendsReaders : List Event :=
  [.read 1 readEnd 500 100 true, .read 3 readEnd 600 10 true, .write 2 writeEnd 40 5 0 true,
    .write 2 writeEnd 60 104 0 true]

/-- Two readers wait, and two writes serve them. -/
theorem attendsReaders_attended :
    ∃ s, runFrom step newPipe attendsReaders = some s ∧ s.pos = 4 ∧ Attended s :=
  ⟨_, rfl, by decide,
    attended_of_uncrowded fresh_newPipe (by decide : Meets step Uncrowded newPipe attendsReaders) rfl⟩

/-- **Requests are left waiting.** Two readers wait for one word each, two words are written, and one
reader still waits on a pipe that holds a word. Two writers of one word wait on a full pipe, two words
are read, and one writer still waits beside a free word. -/
theorem waiters_stranded :
    (∃ s, runFrom step newPipe [.read 1 readEnd 500 1 true, .read 3 readEnd 600 1 true,
        .write 2 writeEnd 40 2 0 true] = some s ∧
      s.readingList.map Waiting.who = [1] ∧ s.pos = 1 ∧ ¬ Attended s) ∧
    ∃ s, runFrom step newPipe [.write 2 writeEnd 40 1024 0 true, .write 2 writeEnd 40 1 0 true,
        .write 4 writeEnd 50 1 0 true, .read 1 readEnd 500 2 true] = some s ∧
      s.writingList.map Waiting.who = [2] ∧ s.pos = 1023 ∧ ¬ Attended s := by
  refine ⟨⟨_, rfl, by decide, by decide, fun attended => ?_⟩, _, rfl, by decide, by decide,
    fun attended => ?_⟩
  · exact absurd (attended.readers (by decide)) (by decide)
  · exact absurd (attended.writers _ (.head _)) (by decide)

/-! ### The end of the file -/

/-- A call on the pipe, or the last descriptor of the write end is closed. -/
inductive EndEvent
  | call (event : Event)
  | closeWrite

/-- `pipe_close` of the last descriptor of an end takes the end off `i_count`, and does nothing else
while the other end is open. -/
def endStep (s : State) : EndEvent → Option State
  | .call event => step s event
  | .closeWrite => if s.iCount = 2 then some { s with iCount := s.iCount - 1 } else none

/-- The transfers of a step. -/
def endObserve (s : State) : EndEvent → List (Transfer Word)
  | .call event => observe s event
  | .closeWrite => []

/-- Reads are made through the read end and ask for something. -/
def Asks : EndEvent → Prop
  | .call (.read _ filp _ count _) => filp.pipeMode = .read ∧ 0 < count
  | _ => True

/-- The write end is closed while no reader waits, and a closed pipe is read only when it is empty. -/
def Drained (s : State) : EndEvent → Prop
  | .call (.read ..) => s.iCount = 1 → s.pos = 0
  | .closeWrite => s.readingList = []
  | _ => True

instance : DecidablePred Asks
  | .call (.read ..) => inferInstanceAs (Decidable (_ ∧ _))
  | .call (.write ..) | .call (.compute _) | .closeWrite => isTrue trivial

instance (s : State) : DecidablePred (Drained s)
  | .call (.read ..) => inferInstanceAs (Decidable (_ → _))
  | .closeWrite => decidable_of_iff (s.readingList.isEmpty = true) List.isEmpty_iff
  | .call (.write ..) | .call (.compute _) => isTrue trivial

section EndOfFile

variable {s s' : State}
variable {event : Event} {log : List (Transfer Word)}

/-- A reader that waits was waiting, or is the caller. -/
theorem readers_pipeRead (s : State) (who : ProcNr) (filp : Filp) (data count : Nat) (granted : Bool) :
    ∀ next ∈ (pipeRead s who filp data count granted).pipe.readingList,
      next ∈ s.readingList ∨ next.count = count := by
  have woken : ∀ s : State, (wakeWriter s).2.readingList = s.readingList := fun s => by
    unfold wakeWriter getNextWaiting
    cases s.writingList <;> rfl
  unfold pipeRead
  split_ifs
  · exact fun next => .inl
  · exact fun next => .inl
  · exact fun next => .inl
  · exact fun next => .inl
  · intro next member
    rcases mem_cons.mp member with rfl | old
    · exact .inr rfl
    · exact .inl old
  · dsimp only
    split_ifs
    · exact fun next => .inl
    · rw [woken]
      exact fun next => .inl

/-- A write makes no reader wait. -/
theorem readers_pipeWrite (s : State) (who : ProcNr) (filp : Filp) (data count offset : Nat)
    (granted : Bool) :
    ∀ next ∈ (pipeWrite s who filp data count offset granted).pipe.readingList,
      next ∈ s.readingList := by
  have woken : ∀ s : State, ∀ next ∈ (wakeReader s).2.readingList, next ∈ s.readingList := by
    intro s next
    unfold wakeReader getNextWaiting
    cases list : s.readingList with
    | nil => exact fun member => list ▸ member
    | cons first rest => exact mem_cons_of_mem first
  unfold pipeWrite
  split_ifs
  · exact fun next => id
  · exact fun next => id
  · exact fun next => id
  · exact fun next => id
  · exact fun next => id
  · exact fun next => id
  · exact fun next => id
  · dsimp only
    split_ifs
    · exact fun next => id
    · exact fun next => woken (pipeWriteWords s data count).2 next

/-- A read that returns nothing has found nothing. -/
theorem empty_of_pipeRead_zero {who : ProcNr} {filp : Filp} {data count : Nat} {granted : Bool}
    (readEnd : filp.pipeMode = .read) (positive : 0 < count) (drained : s.iCount = 1 → s.pos = 0)
    (zero : (pipeRead s who filp data count granted).result = 0) : s.pos = 0 := by
  unfold pipeRead at zero
  rw [if_neg (by rw [readEnd]; decide)] at zero
  split_ifs at zero with closed empty nonblock failed
  · exact drained closed
  · exact empty
  · exact empty
  · exact empty
  · have took := pipeReadWords_took s data positive (Nat.pos_of_ne_zero empty)
    have some' : (pipeReadWords s data count).1 ≠ 0 := ne_of_gt took.positive
    simp only [if_neg some'] at zero
    exact absurd zero some'

/-- What every state of a run satisfies. -/
structure EndInv (s : State) (log : List (Transfer Word)) : Prop where
  moves : Moves [] log s.contents
  asking : ∀ next ∈ s.readingList, 0 < next.count
  ends : Inv s ∨ s.iCount = 1 ∧ s.readingList = []

/-- Nothing happens to a pipe that is closed at one end. -/
theorem step_closed (closed : s.iCount = 1) (stepped : step s event = some s') :
    s'.contents = s.contents ∧ s'.readingList = s.readingList ∧ s'.iCount = 1 ∧
      observe s event = [] := by
  cases event with
  | read who filp data count granted =>
    have nothing : pipeRead s who filp data count granted = ⟨0, [], [], s⟩ := by
      unfold pipeRead
      rw [if_pos closed]
      exact ite_self _
    cases stepped
    rw [observe, nothing]
    exact ⟨rfl, rfl, closed, rfl⟩
  | write who filp data count offset granted =>
    have nothing : ∃ ret signals, ret ≤ 0 ∧
        pipeWrite s who filp data count offset granted = ⟨ret, [], signals, s⟩ := by
      unfold pipeWrite
      split_ifs
      · exact ⟨0, [], le_rfl, rfl⟩
      · exact ⟨epipe, [], by decide, rfl⟩
      · exact ⟨suspend, [who], by decide, rfl⟩
    obtain ⟨ret, signals, small, nothing⟩ := nothing
    cases stepped
    rw [observe, nothing]
    refine ⟨rfl, rfl, closed, ?_⟩
    simp only [writeLog, moved, if_neg (not_lt.mpr small)]
    rfl
  | compute memory =>
    cases stepped
    exact ⟨rfl, rfl, closed, rfl⟩

/-- Readers that wait ask for something. -/
theorem step_asking (asking : ∀ next ∈ s.readingList, 0 < next.count) (asks : Asks (.call event))
    (stepped : step s event = some s') : ∀ next ∈ s'.readingList, 0 < next.count := by
  cases event with
  | read who filp data count granted =>
    cases stepped
    intro next member
    rcases readers_pipeRead s who filp data count granted next member with old | same
    · exact asking next old
    · rw [same]
      exact asks.2
  | write who filp data count offset granted =>
    cases stepped
    exact fun next member =>
      asking next (readers_pipeWrite s who filp data count offset granted next member)
  | compute memory =>
    cases stepped
    exact asking

/-- A call that asks for something meets the condition under which the pipe is lossless. -/
theorem counted_of_asks (asking : ∀ next ∈ s.readingList, 0 < next.count)
    (asks : Asks (.call event)) : Counted s event := by
  cases event with
  | read who filp data count granted => exact fun _ zero => absurd zero (Nat.pos_iff_ne_zero.mp asks.2)
  | write who filp data count offset granted =>
    exact fun _ _ _ next first => Nat.pos_iff_ne_zero.mp (asking next (mem_of_mem_head? first))
  | compute memory => trivial

/-- A step keeps the invariant. -/
theorem endStep_inv {event : EndEvent} (inv : EndInv s log) (asks : Asks event)
    (drained : Drained s event) (stepped : endStep s event = some s') :
    EndInv s' (log ++ endObserve s event) := by
  cases event with
  | closeWrite =>
    have stepped : (if s.iCount = 2 then some { s with iCount := s.iCount - 1 } else none) = some s' :=
      stepped
    split_ifs at stepped with bothOpen
    cases stepped
    rw [endObserve, append_nil]
    exact ⟨inv.moves, inv.asking, .inr ⟨by show s.iCount - 1 = 1; rw [bothOpen]; rfl, drained⟩⟩
  | call event =>
    have asking := step_asking inv.asking asks stepped
    rcases inv.ends with bothOpen | ⟨closed, idle⟩
    · have follows := step_follows bothOpen (counted_of_asks inv.asking asks) stepped
      exact ⟨inv.moves.append follows.2, asking, .inl follows.1⟩
    · obtain ⟨contents, list, count, unseen⟩ := step_closed closed stepped
      refine ⟨?_, asking, .inr ⟨count, list.trans idle⟩⟩
      rw [endObserve, unseen, append_nil, contents]
      exact inv.moves

/-- **The end of the file comes after the data.** -/
theorem end_of_file_after_data {events : List EndEvent} (fresh : Fresh s)
    (meets : Meets (logged endStep endObserve) (fun before event => Asks event ∧ Drained before.1 event)
      (s, []) events) (ran : runFrom (logged endStep endObserve) (s, []) events = some (s', log)) :
    (∀ who filp data count granted, filp.pipeMode = .read → 0 < count → (s'.iCount = 1 → s'.pos = 0) →
      (pipeRead s' who filp data count granted).result = 0 → delivered log = accepted log) ∧
    (s'.iCount = 1 → s'.readingList = []) := by
  have start : EndInv s [] := by
    refine ⟨?_, ?_, .inl fresh.inv⟩
    · show Moves [] [] (slice s.data 0 s.pos)
      rw [fresh.pos]
      exact .nil _
    · rw [fresh.readingList]
      exact fun next member => absurd member not_mem_nil
  have kept := runFrom_invariant (fun after : State × List (Transfer Word) => EndInv after.1 after.2)
    (by
      intro before event after inv meets stepped
      obtain ⟨stepped, observed⟩ := logged_eq_some.mp stepped
      rw [observed]
      exact endStep_inv inv meets.1 meets.2 stepped)
    events start meets ran
  refine ⟨fun who filp data count granted readEnd positive drained zero => ?_, fun closed => ?_⟩
  · have empty : s'.contents = [] := by
      rw [State.contents, empty_of_pipeRead_zero readEnd positive drained zero, slice_zero]
    have conserved : accepted log = delivered log ++ s'.contents := kept.moves.conserved
    rw [conserved, empty, append_nil]
  · rcases kept.ends with bothOpen | ⟨-, idle⟩
    · exact absurd (bothOpen.iCount.symm.trans closed) (by decide)
    · exact idle

end EndOfFile

/-- Two words are written, read, and the write end is closed. -/
def drains : List EndEvent :=
  [.call (.write 2 writeEnd 40 2 0 true), .call (.read 1 readEnd 500 100 true), .closeWrite]

/-- The other end reads what is left, and then nothing. -/
theorem drains_then_end_of_file :
    ∃ s log, runFrom (logged endStep endObserve) (newPipe, []) drains = some (s, log) ∧
      (pipeRead s 1 readEnd 600 100 true).result = 0 ∧ delivered log = accepted log := by
  refine ⟨_, _, rfl, by decide, ?_⟩
  exact (end_of_file_after_data fresh_newPipe
    (by decide : Meets (logged endStep endObserve)
      (fun before event => Asks event ∧ Drained before.1 event) (newPipe, []) drains) rfl).1
    1 readEnd 600 100 true rfl (by decide) (by decide) (by decide)

/-- **Closing loses words and readers.** Two words are written and the write end is closed: the next
read returns 0, and nothing has been delivered. A reader waits and the write end is closed: it waits
on. -/
theorem close_loses_words :
    (∃ s log, runFrom (logged endStep endObserve) (newPipe, [])
        [.call (.write 2 writeEnd 40 2 0 true), .closeWrite] = some (s, log) ∧
      (pipeRead s 1 readEnd 600 100 true).result = 0 ∧ accepted log = [40, 41] ∧ delivered log = []) ∧
    ∃ s log, runFrom (logged endStep endObserve) (newPipe, [])
        [.call (.read 1 readEnd 500 100 true), .closeWrite] = some (s, log) ∧
      s.iCount = 1 ∧ s.readingList.map Waiting.who = [1] :=
  ⟨⟨_, _, rfl, by decide, by decide, by decide⟩, _, _, rfl, by decide, by decide⟩

end Winix.Fs.Pipe
