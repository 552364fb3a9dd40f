/-
**Runs of transfers.**

The words that a system call moves through a pointer, against the protection table of the process.

* `Owned`: every word of every transfer lies in a page of its process;
* `Chained`: transfers that follow one another in memory, up from an address or down from it;
* **`Chained.owned_up`, `Chained.owned_down`**: such a run belongs to the process if and only if it
  is no longer than the room that the process has there.
-/

import Winix.Fs.Userio

namespace Winix.Fs

open Kernel Lib Function

/-- Every word of the transfers belongs to the process. -/
def Owned (t : Tables) (log : List Transfer) : Prop :=
  ∀ x ∈ log, ∀ i < x.len, Owns t x.who (x.start + BitVec.ofNat 32 i)

/-- The words of the transfers. -/
def span (log : List Transfer) : Nat := (log.map Transfer.len).sum

/-- The transfer starts at one address and ends before the other. -/
def Up (who : ProcNr) (a : Word) (x : Transfer) (b : Word) : Prop :=
  x.who = who ∧ x.start = a ∧ b = a + BitVec.ofNat 32 x.len

/-- The transfer ends before the one address and starts at the other. -/
def Down (who : ProcNr) (a : Word) (x : Transfer) (b : Word) : Prop :=
  x.who = who ∧ x.start = b ∧ b = a - BitVec.ofNat 32 x.len

/-- Each transfer goes on where the one before it has got to. -/
def Chained (link : Word → Transfer → Word → Prop) : Word → List Transfer → Word → Prop
  | a, [], b => b = a
  | a, x :: rest, b => ∃ c, link a x c ∧ Chained link c rest b

section Transfers

variable {t : Tables} {who : ProcNr} {link : Word → Transfer → Word → Prop} {a b c : Word}
  {log log' : List Transfer} {x : Transfer}

@[simp] theorem span_nil : span [] = 0 := rfl

@[simp] theorem span_cons : span (x :: log) = x.len + span log := List.sum_cons

theorem owned_iff : Owned t log ↔ ∀ x ∈ log, x.len ≤ room t x.who x.start :=
  forall₂_congr fun _ _ => owns_run_iff

theorem owned_nil : Owned t [] := fun _ member => nomatch member

theorem owned_cons : Owned t (x :: log) ↔
    (∀ i < x.len, Owns t x.who (x.start + BitVec.ofNat 32 i)) ∧ Owned t log := List.forall_mem_cons

theorem owned_append : Owned t (log ++ log') ↔ Owned t log ∧ Owned t log' := List.forall_mem_append

theorem owned_singleton {len : Nat} : Owned t [⟨who, a, len⟩] ↔ len ≤ room t who a := by
  rw [owned_iff, List.forall_mem_singleton]

theorem Chained.append (first : Chained link a log b) (second : Chained link b log' c) :
    Chained link a (log ++ log') c := by
  induction log generalizing a with
  | nil => exact first ▸ second
  | cons x log ih =>
    obtain ⟨next, here, rest⟩ := first
    exact ⟨next, here, ih rest⟩

theorem owns_add {m n : Nat} : (∀ i < m + n, Owns t who (a + BitVec.ofNat 32 i)) ↔
    (∀ i < m, Owns t who (a + BitVec.ofNat 32 i)) ∧
      ∀ i < n, Owns t who (a + BitVec.ofNat 32 m + BitVec.ofNat 32 i) := by
  constructor
  · intro all
    refine ⟨fun i small => all i (by omega), fun i small => ?_⟩
    rw [BitVec.add_assoc, ← BitVec.ofNat_add]
    exact all (m + i) (by omega)
  · rintro ⟨first, second⟩ i small
    by_cases here : i < m
    · exact first i here
    · have next := second (i - m) (by omega)
      rwa [BitVec.add_assoc, ← BitVec.ofNat_add, Nat.add_sub_cancel' (by omega)] at next

theorem Chained.owns_up (run : Chained (Up who) a log b) : Owned t log ↔
    ∀ i < span log, Owns t who (a + BitVec.ofNat 32 i) := by
  induction log generalizing a with
  | nil => exact ⟨fun _ i none => absurd none (Nat.not_lt_zero i), fun _ => owned_nil⟩
  | cons x log ih =>
    obtain ⟨c, ⟨rfl, rfl, rfl⟩, rest⟩ := run
    rw [owned_cons, span_cons, owns_add, ih rest]

/-- **Transfers that go up belong to the process** if and only if all their words fit into the room. -/
theorem Chained.owned_up (run : Chained (Up who) a log b) : Owned t log ↔ span log ≤ room t who a :=
  run.owns_up.trans owns_run_iff

theorem span_append : span (log ++ log') = span log + span log' := by
  rw [span, List.map_append, List.sum_append]
  rfl

theorem Chained.ends_up (run : Chained (Up who) a log b) : b = a + BitVec.ofNat 32 (span log) := by
  induction log generalizing a with
  | nil => rw [span_nil, BitVec.add_zero, show b = a from run]
  | cons x log ih =>
    obtain ⟨c, ⟨-, -, rfl⟩, rest⟩ := run
    rw [span_cons, BitVec.ofNat_add, ← BitVec.add_assoc, ih rest]

section

variable (run : Chained (Down who) a log b)
include run

theorem Chained.ends_down : a = b + BitVec.ofNat 32 (span log) := by
  induction log generalizing a with
  | nil => rw [span_nil, BitVec.add_zero, show b = a from run]
  | cons x log ih =>
    obtain ⟨c, ⟨-, -, rfl⟩, rest⟩ := run
    rw [span_cons, Nat.add_comm, BitVec.ofNat_add, ← BitVec.add_assoc, ← ih rest, BitVec.sub_add_cancel]

theorem Chained.owns_down : Owned t log ↔ ∀ i < span log, Owns t who (b + BitVec.ofNat 32 i) := by
  induction log generalizing a with
  | nil => exact ⟨fun _ i none => absurd none (Nat.not_lt_zero i), fun _ => owned_nil⟩
  | cons x log ih =>
    obtain ⟨c, ⟨rfl, rfl, -⟩, rest⟩ := run
    rw [owned_cons, span_cons, Nat.add_comm, owns_add, ← ih rest, ← rest.ends_down, and_comm]

/-- **Transfers that go down belong to the process** if and only if all their words fit into the
room from the last of them on. -/
theorem Chained.owned_down : Owned t log ↔ span log ≤ room t who (a - BitVec.ofNat 32 (span log)) := by
  rw [run.owns_down, owns_run_iff, run.ends_down, BitVec.add_sub_cancel]

end

end Transfers

end Winix.Fs
