/-
**Programs with a log.**

A `Logged ε σ α` is a program over a state `σ` that may not come back, as a `Prog σ α` is, and that
writes events as it goes. The log is there even if the program does not come back.

* `Logged.bind_log`: the log of a sequence is the log of the first program, followed by that of the
  second if the first one came back;
* `Logged.lift`, `Logged.write`: a program that writes no events, and one that does nothing else;
* `Logged.erase`: the program without its log, which commutes with `bind`.
-/

import Winix.Lib.Triple

namespace Lib

/-- A program over the state `σ` that may not come back, with the events up to there. -/
def Logged (ε σ α : Type) := σ → List ε × Option (α × σ)

namespace Logged

variable {ε σ α β : Type}
variable {events : List ε}

/-- The events of a program. -/
def log (x : Logged ε σ α) (s : σ) : List ε := (x s).1

/-- The program without its log. -/
def erase (x : Logged ε σ α) : Prog σ α := fun s => (x s).2

/-- The events of the second program, if the first one came back. -/
def after (f : α → Logged ε σ β) : Option (α × σ) → List ε
  | none => []
  | some (a, s) => (f a).log s

instance : Monad (Logged ε σ) where
  pure a := fun s => ([], some (a, s))
  bind x f := fun s => (x.log s ++ after f (x.erase s), (x.erase s).bind fun p => (f p.1).erase p.2)

/-- A program that writes no events. -/
def lift (x : Prog σ α) : Logged ε σ α := fun s => ([], x s)

/-- Write events. -/
def write (events : List ε) : Logged ε σ PUnit := fun s => (events, some (⟨⟩, s))

variable {x : Logged ε σ α} {f : α → Logged ε σ β} {s s' : σ} {a : α}

@[simp] theorem pure_log : (pure a : Logged ε σ α).log s = [] := rfl

@[simp] theorem lift_log {x : Prog σ α} : (lift x : Logged ε σ α).log s = [] := rfl

/-- The log of a sequence. -/
theorem bind_log : (x >>= f).log s = x.log s ++ after f (x.erase s) := rfl

/-- Erasing the log of a sequence. -/
theorem bind_erase : (x >>= f).erase s = (x.erase s).bind fun p => (f p.1).erase p.2 := rfl

theorem bind_run (ran : x.erase s = some (a, s')) : (x >>= f).erase s = (f a).erase s' := by
  rw [bind_erase, ran, Option.bind_some]

/-- The first part has run, with these events. -/
theorem bind_ran (ran : x s = (events, some (a, s'))) :
    (x >>= f) s = (events ++ (f a s').1, (f a s').2) := by
  show ((x s).1 ++ after f (x s).2, (x s).2.bind fun p => (f p.1).erase p.2) = _
  rw [ran]
  rfl

/-- The first part has run without an event. -/
theorem bind_quiet (ran : x s = ([], some (a, s'))) : (x >>= f) s = f a s' :=
  bind_ran ran

/-- A sequence comes back if both of its parts do. -/
theorem bind_erase_eq_some {b : β} {s'' : σ} : (x >>= f).erase s = some (b, s'') ↔
    ∃ a s', x.erase s = some (a, s') ∧ (f a).erase s' = some (b, s'') := by
  rw [bind_erase, Option.bind_eq_some_iff]
  exact Prod.exists

/-- The first program writes no events, and the second one does what another program does. -/
theorem lift_bind_erase {x : Prog σ α} {g : α → Prog σ β} (same : ∀ a s', (f a).erase s' = g a s') :
    (lift x >>= f).erase s = (x >>= g) s := by
  show ((x s).bind fun p => (f p.1).erase p.2) = (x s).bind fun p => g p.1 p.2
  simp only [same]

theorem write_bind_erase {f : PUnit → Logged ε σ β} :
    (write events >>= f).erase s = (f ⟨⟩).erase s := rfl

theorem write_bind_log {f : PUnit → Logged ε σ β} :
    (write events >>= f).log s = events ++ (f ⟨⟩).log s := rfl

theorem bind_pure_id (x : Logged ε σ α) : (x >>= fun a => pure (id a)) = x := by
  funext s
  show (x.log s ++ after (fun a => pure (id a)) (x.erase s),
    (x.erase s).bind fun p => some (p.1, p.2)) = x s
  cases came : x.erase s with
  | none => exact Prod.ext (List.append_nil _) came.symm
  | some result => exact Prod.ext (List.append_nil _) came.symm

theorem bind_assoc' {γ : Type} (x : Logged ε σ α) (f : α → Logged ε σ β) (g : β → Logged ε σ γ) :
    x >>= f >>= g = x >>= fun a => f a >>= g := by
  funext s
  refine Prod.ext ?_ ?_
  · show (x.log s ++ after f (x.erase s)) ++ after g ((x.erase s).bind fun p => (f p.1).erase p.2) =
      x.log s ++ after (fun a => f a >>= g) (x.erase s)
    cases x.erase s with
    | none => exact List.append_nil _
    | some result => exact List.append_assoc ..
  · exact Option.bind_assoc ..

instance : LawfulMonad (Logged ε σ) :=
  LawfulMonad.mk' _ (fun x => bind_pure_id x) (fun _ _ => rfl) (fun x f g => bind_assoc' x f g)

theorem lift_log_run {x : Prog σ α} (ran : x s = some (a, s')) :
    (lift x >>= f).log s = (f a).log s' := by
  rw [bind_log, show (lift x : Logged ε σ α).erase s = x s from rfl, ran]
  rfl

end Logged

end Lib
