/-
**Circular doubly linked lists.**

A list head and the entries of its list are cells of one kind, each with a `next` and a `prev` link;
`none` is a link that has been poisoned. `Ring next prev head cells` says that the links lead from
the head over exactly the cells of the list and back to the head, in both directions.

* **`Ring.insert`**, **`Ring.removeFirst`**: the links after an entry has been added behind the head,
  and after the first entry has been taken out and poisoned;
* `Ring.next_ne_self`, `Ring.next_ne_none`: an entry of a ring neither points to itself nor is it
  poisoned, so a cell that does is in no ring;
* `Rings` is a family of lists in one heap, every cell being the head of a list or lent as an entry
  to another; **`Rings.insert`** and **`Rings.removeFirst`** change one of them.
-/

import Winix.Lib.Queues

namespace Lib

open Function List

variable {α : Type*}

/-- From the first cell the links lead over the cells of the list to the last one, and back. -/
def Path (next prev : α → Option α) : α → List α → α → Prop
  | first, [], last => next first = some last ∧ prev last = some first
  | first, cell :: cells, last =>
    (next first = some cell ∧ prev cell = some first) ∧ Path next prev cell cells last

/-- The entries of the list with this head. -/
structure Ring (next prev : α → Option α) (head : α) (cells : List α) : Prop where
  path : Path next prev head cells head
  nodup : (head :: cells).Nodup

variable {next prev next' prev' : α → Option α} {head cell : α} {cells : List α}

theorem Path.congr : ∀ {cells : List α} {first last : α}, Path next prev first cells last →
    (∀ x ∈ first :: cells, next' x = next x) → (∀ x ∈ cells ++ [last], prev' x = prev x) →
      Path next' prev' first cells last
  | [], first, last, path, forward, backward => by
      rw [Path, forward first mem_cons_self, backward last (by simp)]
      exact path
  | cell :: cells, first, last, path, forward, backward => by
      refine ⟨?_, path.2.congr (fun x member => forward x (mem_cons_of_mem _ member))
        fun x member => backward x (mem_cons_of_mem _ member)⟩
      rw [forward first mem_cons_self, backward cell (by simp)]
      exact path.1

theorem Path.next_first {first last : α} (path : Path next prev first cells last) :
    next first = some (cells.headD last) := by
  cases cells with
  | nil => exact path.1
  | cons cell cells => exact path.1.1

theorem Path.next_of_mem : ∀ {cells : List α} {first last : α}, Path next prev first cells last →
    ∀ cell ∈ cells, ∃ after, next cell = some after ∧ (after = last ∨ after ∈ cells) ∧
      (cells.Nodup → after ≠ last → after ≠ cell)
  | first :: cells, start, last, path, cell, member => by
      rcases mem_cons.mp member with rfl | member
      · refine ⟨_, path.2.next_first, ?_, fun nodup notLast same => ?_⟩
        · cases cells <;> simp
        · cases cells with
          | nil => exact notLast rfl
          | cons second rest =>
            exact (nodup_cons.mp nodup).1 (same ▸ mem_cons_self)
      · obtain ⟨after, link, place, apart⟩ := path.2.next_of_mem cell member
        exact ⟨after, link, place.imp_right (mem_cons_of_mem _),
          fun nodup => apart (nodup_cons.mp nodup).2⟩

namespace Ring

section

variable (ring : Ring next prev head cells)
include ring

theorem congr (forward : ∀ x ∈ head :: cells, next' x = next x)
    (backward : ∀ x ∈ head :: cells, prev' x = prev x) : Ring next' prev' head cells := by
  refine ⟨ring.path.congr forward fun x member => backward x ?_, ring.nodup⟩
  rcases mem_append.mp member with member | member
  · exact mem_cons_of_mem _ member
  · rw [mem_singleton.mp member]
    exact mem_cons_self

theorem next_head : next head = some (cells.headD head) :=
  ring.path.next_first

theorem next_ne_self (member : cell ∈ cells) : next cell ≠ some cell := by
  obtain ⟨after, link, -, apart⟩ := ring.path.next_of_mem cell member
  obtain ⟨notHead, nodup⟩ := nodup_cons.mp ring.nodup
  rw [link]
  intro same
  cases same
  exact apart nodup (fun same => notHead (same ▸ member)) rfl

theorem next_ne_none (member : cell ∈ cells) : next cell ≠ none := by
  obtain ⟨after, link, -⟩ := ring.path.next_of_mem cell member
  rw [link]
  exact Option.some_ne_none after

theorem eq_nil_iff : cells = [] ↔ next head = some head := by
  rw [ring.next_head]
  constructor
  · rintro rfl
    rfl
  · intro self
    cases cells with
    | nil => rfl
    | cons cell cells =>
      have same : cell = head := Option.some.inj self
      exact absurd (same ▸ mem_cons_self) (nodup_cons.mp ring.nodup).1

end

theorem empty (next_eq : next head = some head) (prev_eq : prev head = some head) :
    Ring next prev head [] := ⟨⟨next_eq, prev_eq⟩, nodup_singleton head⟩

section Update

variable [DecidableEq α]

/-- **An entry is added behind the head.** -/
theorem insert (ring : Ring next prev head cells) (outside : cell ∉ head :: cells) :
    Ring (update (update next cell (next head)) head (some cell))
      (update (update prev (cells.headD head) (some cell)) cell (some head))
      head (cell :: cells) := by
  obtain ⟨notHead, notCells⟩ := not_or.mp (fun either => outside (mem_cons.mpr either))
  obtain ⟨headOutside, nodup⟩ := nodup_cons.mp ring.nodup
  refine ⟨⟨⟨by simp, by simp⟩, ?_⟩, ?_⟩
  · rw [ring.next_head]
    cases cells with
    | nil => simp [Path, notHead, Ne.symm notHead]
    | cons first rest =>
      have notFirst : cell ≠ first := fun same => notCells (same ▸ mem_cons_self)
      refine ⟨⟨by simp [notHead], by simp [Ne.symm notFirst]⟩, ring.path.2.congr ?_ ?_⟩
      · intro x member
        rw [update_of_ne fun same : x = head => headOutside (same ▸ member),
          update_of_ne fun same : x = cell => notCells (same ▸ member)]
      · intro x member
        have notX : x ≠ cell ∧ x ≠ first := by
          rcases mem_append.mp member with member | member
          · exact ⟨fun same => notCells (same ▸ mem_cons_of_mem _ member),
              fun same => (nodup_cons.mp nodup).1 (same ▸ member)⟩
          · rw [mem_singleton.mp member]
            exact ⟨Ne.symm notHead, fun same => headOutside (same ▸ mem_cons_self)⟩
        rw [update_of_ne notX.1]
        exact update_of_ne notX.2 _ _
  · refine nodup_cons.mpr ⟨?_, nodup_cons.mpr ⟨notCells, nodup⟩⟩
    rw [mem_cons, not_or]
    exact ⟨Ne.symm notHead, headOutside⟩

/-- **The first entry is taken out**, and its links are poisoned. -/
theorem removeFirst (ring : Ring next prev head (cell :: cells)) :
    Ring (update (update next head (next cell)) cell none)
      (update (update prev (cells.headD head) (some head)) cell none)
      head cells := by
  obtain ⟨headOutside, nodup⟩ := nodup_cons.mp ring.nodup
  obtain ⟨cellOutside, nodup⟩ := nodup_cons.mp nodup
  obtain ⟨notHead, headOutside⟩ := not_or.mp (fun either => headOutside (mem_cons.mpr either))
  refine ⟨?_, nodup_cons.mpr ⟨headOutside, nodup⟩⟩
  rw [ring.path.2.next_first]
  cases cells with
  | nil => simp [Path, notHead]
  | cons first rest =>
    have notFirst : first ≠ cell := fun same => cellOutside (same ▸ mem_cons_self)
    refine ⟨⟨by simp [notHead], by simp [notFirst]⟩, ring.path.2.2.congr ?_ ?_⟩
    · intro x member
      rw [update_of_ne fun same : x = cell => cellOutside (same ▸ member),
        update_of_ne fun same : x = head => headOutside (same ▸ member)]
    · intro x member
      have notX : x ≠ cell ∧ x ≠ first := by
        rcases mem_append.mp member with member | member
        · exact ⟨fun same => cellOutside (same ▸ mem_cons_of_mem _ member),
            fun same => (nodup_cons.mp nodup).1 (same ▸ member)⟩
        · rw [mem_singleton.mp member]
          exact ⟨notHead, fun same => headOutside (same ▸ mem_cons_self)⟩
      rw [update_of_ne notX.1]
      exact update_of_ne notX.2 _ _

end Update

end Ring

/-! ### A family of lists -/

/-- Lists that share one heap. A cell heads a list, or its links are lent: it is an entry of one
list, or was taken out of one and poisoned. -/
structure Rings (next prev : α → Option α) (lent : α → Prop) (queues : α → List α) : Prop where
  ring : ∀ d, ¬ lent d → Ring next prev d (queues d)
  own : ∀ d, lent d → queues d = []
  entries : ∀ {d cell}, cell ∈ queues d → lent cell
  apart : ∀ {cell d d'}, cell ∈ queues d → cell ∈ queues d' → d = d'
  spent : ∀ cell, lent cell → (∀ d, cell ∉ queues d) → next cell = none ∧ prev cell = none

namespace Rings

variable {lent lent' : α → Prop} {queues : α → List α} {d : α}

section

variable (rings : Rings next prev lent queues)
include rings

theorem congr_lent (same : ∀ p, lent' p ↔ lent p) : Rings next prev lent' queues := by
  have eq : lent' = lent := funext fun p => propext (same p)
  rw [eq]
  exact rings

theorem free_of_mem (member : cell ∈ queues d) : ¬ lent d := by
  intro used
  rw [rings.own d used] at member
  cases member

theorem next_ne_none (member : cell ∈ queues d) :
    next cell ≠ none := (rings.ring d (rings.free_of_mem member)).next_ne_none member

/-- A cell that points to itself or is poisoned is in no list, and its own list is empty. -/
theorem of_unlinked (unlinked : next cell = some cell ∨ next cell = none) :
    (∀ d, cell ∉ queues d) ∧ queues cell = [] := by
  constructor
  · intro d member
    have ring := rings.ring d (rings.free_of_mem member)
    rcases unlinked with self | poisoned
    · exact ring.next_ne_self member self
    · exact ring.next_ne_none member poisoned
  · by_cases used : lent cell
    · exact rings.own cell used
    · have ring := rings.ring cell used
      rcases unlinked with self | poisoned
      · exact ring.eq_nil_iff.mpr self
      · rw [ring.next_head] at poisoned
        cases poisoned

end

/-- The first cell behind a head is the head itself or an entry of its list. -/
theorem headD_mem (cells : List α) (head : α) : cells.headD head ∈ head :: cells := by
  cases cells with
  | nil => exact mem_cons_self
  | cons first rest => exact mem_cons_of_mem _ mem_cons_self

section

variable (rings : Rings next prev lent queues)
include rings

/-- The cells of a list are apart from the cells of every other list. -/
theorem notMem_other (free : ¬ lent head) (freeD : ¬ lent d) (other : d ≠ head) {x : α}
    (member : x ∈ d :: queues d) : x ∉ head :: queues head := by
  intro inHead
  rcases mem_cons.mp member with rfl | inD <;> rcases mem_cons.mp inHead with rfl | inHead
  · exact other rfl
  · exact freeD (rings.entries inHead)
  · exact free (rings.entries inD)
  · exact other (rings.apart inD inHead)

variable [DecidableEq α] {new : α}

theorem ring_insert (free : ¬ lent head) (unlinked : next new = some new ∨ next new = none)
    (other : new ≠ head) (freeD : ¬ (d = new ∨ lent d)) :
    Ring (update (update next new (next head)) head (some new))
      (update (update prev ((queues head).headD head) (some new)) new (some head))
      d (update queues head (new :: queues head) d) := by
  obtain ⟨outside, -⟩ := rings.of_unlinked unlinked
  obtain ⟨notNew, freeD⟩ := not_or.mp freeD
  by_cases same : d = head
  · subst same
    rw [update_self]
    exact (rings.ring d free).insert fun member => (mem_cons.mp member).elim other (outside d)
  · rw [update_of_ne same]
    have ne : ∀ x ∈ d :: queues d, x ≠ new ∧ x ≠ head ∧ x ≠ (queues head).headD head := by
      intro x member
      have apart := rings.notMem_other free freeD same member
      refine ⟨?_, fun eq => apart (eq ▸ mem_cons_self), fun eq => apart (eq ▸ headD_mem _ _)⟩
      rintro rfl
      exact (mem_cons.mp member).elim (fun eq => notNew eq.symm) (outside d)
    refine (rings.ring d freeD).congr (fun x member => ?_) fun x member => ?_
    · rw [update_of_ne (ne x member).2.1, update_of_ne (ne x member).1]
    · rw [update_of_ne (ne x member).1, update_of_ne (ne x member).2.2]

/-- **An entry is added to one list**, from a cell that is unlinked. -/
theorem insert (free : ¬ lent head) (unlinked : next new = some new ∨ next new = none)
    (other : new ≠ head) :
    Rings (update (update next new (next head)) head (some new))
      (update (update prev ((queues head).headD head) (some new)) new (some head))
      (fun p => p = new ∨ lent p) (update queues head (new :: queues head)) := by
  obtain ⟨outside, own⟩ := rings.of_unlinked unlinked
  have inQueue : ∀ {cell d}, cell ∈ update queues head (new :: queues head) d →
      cell = new ∧ d = head ∨ cell ∈ queues d := by
    intro cell d member
    rcases mem_update.mp member with ⟨rfl, added⟩ | ⟨-, member⟩
    · exact (mem_cons.mp added).imp_left fun same => ⟨same, rfl⟩
    · exact .inr member
  refine ⟨fun d freeD => rings.ring_insert free unlinked other freeD, fun d used => ?_,
    fun member => (inQueue member).imp And.left rings.entries, fun {cell d d'} first second => ?_,
    fun cell used out => ?_⟩
  · have notHead : d ≠ head := fun same => used.elim (fun eq => other (eq ▸ same)) (same ▸ free)
    rw [update_of_ne notHead]
    rcases used with rfl | used
    · exact own
    · exact rings.own d used
  · rcases inQueue first with ⟨isNew, inD⟩ | inD <;> rcases inQueue second with ⟨isNew', inD'⟩ | inD'
    · exact inD.trans inD'.symm
    · exact absurd (isNew ▸ inD') (outside d')
    · exact absurd (isNew' ▸ inD) (outside d)
    · exact rings.apart inD inD'
  · have ne : cell ≠ new := fun same => out head (by simp [same])
    have old : lent cell := used.resolve_left ne
    have outBefore : ∀ d, cell ∉ queues d := by
      intro d member
      refine out d (mem_update.mpr ?_)
      by_cases same : d = head
      · exact .inl ⟨same, mem_cons_of_mem _ (same ▸ member)⟩
      · exact .inr ⟨same, member⟩
    have apart : cell ∉ head :: queues head := fun member =>
      (mem_cons.mp member).elim (fun same => free (same ▸ old)) (outBefore head)
    rw [update_of_ne fun same : cell = head => apart (same ▸ mem_cons_self),
      update_of_ne ne, update_of_ne ne,
      update_of_ne fun same : cell = (queues head).headD head =>
        apart (same ▸ headD_mem _ _)]
    exact rings.spent cell old outBefore

/-- **The first entry of one list is taken out**, and poisoned. -/
theorem removeFirst {rest : List α} (shape : queues head = cell :: rest) :
    Rings (update (update next head (next cell)) cell none)
      (update (update prev (rest.headD head) (some head)) cell none)
      lent (update queues head rest) := by
  have inHead : cell ∈ queues head := shape ▸ mem_cons_self
  have free := rings.free_of_mem inHead
  have ring := rings.ring head free
  rw [shape] at ring
  have subset : ∀ {x d}, x ∈ update queues head rest d → x ∈ queues d := by
    intro x d member
    rcases mem_update.mp member with ⟨rfl, inRest⟩ | ⟨-, inD⟩
    · exact shape ▸ mem_cons_of_mem _ inRest
    · exact inD
  have first : rest.headD head ∈ head :: queues head := by
    rw [shape]
    rcases mem_cons.mp (headD_mem rest head) with same | inRest
    · rw [same]
      exact mem_cons_self
    · exact mem_cons_of_mem _ (mem_cons_of_mem _ inRest)
  refine ⟨fun d freeD => ?_, fun d used => ?_, fun member => rings.entries (subset member),
    fun first second => rings.apart (subset first) (subset second), fun x used out => ?_⟩
  · by_cases same : d = head
    · subst same
      rw [update_self]
      exact ring.removeFirst
    · rw [update_of_ne same]
      have ne : ∀ x ∈ d :: queues d, x ≠ cell ∧ x ≠ head ∧ x ≠ rest.headD head := by
        intro x member
        have apart := rings.notMem_other free freeD same member
        exact ⟨fun eq => apart (eq ▸ mem_cons_of_mem _ inHead),
          fun eq => apart (eq ▸ mem_cons_self), fun eq => apart (eq ▸ first)⟩
      refine (rings.ring d freeD).congr (fun x member => ?_) fun x member => ?_
      · rw [update_of_ne (ne x member).1, update_of_ne (ne x member).2.1]
      · rw [update_of_ne (ne x member).1, update_of_ne (ne x member).2.2]
  · have notHead : d ≠ head := fun same => free (same ▸ used)
    rw [update_of_ne notHead]
    exact rings.own d used
  · by_cases same : x = cell
    · subst same
      simp
    · have outBefore : ∀ d, x ∉ queues d := by
        intro d member
        refine out d (mem_update.mpr ?_)
        by_cases here : d = head
        · subst here
          rw [shape] at member
          exact .inl ⟨rfl, (mem_cons.mp member).resolve_left same⟩
        · exact .inr ⟨here, member⟩
      have apart : x ∉ head :: queues head := fun member =>
        (mem_cons.mp member).elim (fun eq => free (eq ▸ used)) (outBefore head)
      rw [update_of_ne same, update_of_ne same,
        update_of_ne fun eq : x = head => apart (eq ▸ mem_cons_self),
        update_of_ne fun eq : x = rest.headD head => apart (eq ▸ first)]
      exact rings.spent x used outBefore

end

end Rings

end Lib
