/-
**Counted references.**

Holders `κ` hold at most one item `ι` each, and every item counts its holders. `holders keys hold i` is
the number of keys that hold the item. The lemmas say how the number changes when a holder lets go of
an item and takes another, so that a proof about counts only compares differences.
-/

import Mathlib.Algebra.BigOperators.Group.List.Basic
import Mathlib.Algebra.Order.BigOperators.Group.List
import Mathlib.Algebra.Order.Ring.Int
import Mathlib.Data.List.ProdSigma
import Mathlib.Tactic.Ring

namespace Lib

open Function List

variable {κ ι : Type} [DecidableEq κ] [DecidableEq ι]

/-- Whether a holder holds the item, as a number. -/
def hit (held : Option ι) (i : ι) : Int := if held = some i then 1 else 0

@[simp] theorem hit_none (i : ι) : hit none i = 0 := by simp [hit]

@[simp] theorem hit_self (i : ι) : hit (some i) i = 1 := by simp [hit]

theorem hit_of_ne {held : Option ι} {i : ι} (ne : held ≠ some i) : hit held i = 0 := if_neg ne

theorem hit_nonneg (held : Option ι) (i : ι) : 0 ≤ hit held i := by
  unfold hit
  split_ifs <;> decide

/-- The number of keys that hold the item. -/
def holders (keys : List κ) (hold : κ → Option ι) (i : ι) : Int :=
  (keys.map fun k => hit (hold k) i).sum

section Holders

variable {keys : List κ} {hold hold' : κ → Option ι} {k : κ}

omit [DecidableEq κ] in
theorem holders_congr (same : ∀ k ∈ keys, hold' k = hold k) (i : ι) :
    holders keys hold' i = holders keys hold i := by
  unfold holders
  rw [map_congr_left fun k member => by rw [same k member]]

omit [DecidableEq κ] in
theorem holders_nonneg (i : ι) : 0 ≤ holders keys hold i := by
  refine sum_nonneg fun n member => ?_
  obtain ⟨k, -, rfl⟩ := mem_map.mp member
  exact hit_nonneg _ _

omit [DecidableEq κ] in
theorem holders_pos {i : ι} (member : k ∈ keys) (held : hold k = some i) : 0 < holders keys hold i := by
  obtain ⟨before, after, rfl⟩ := append_of_mem member
  have first : 0 ≤ holders before hold i := holders_nonneg i
  have last : 0 ≤ holders after hold i := holders_nonneg i
  unfold holders at *
  rw [map_append, sum_append, map_cons, sum_cons, held, hit_self]
  omega

/-- **One holder changes.** -/
theorem holders_update (nodup : keys.Nodup) (member : k ∈ keys) (held : Option ι) (i : ι) :
    holders keys (update hold k held) i = holders keys hold i - hit (hold k) i + hit held i := by
  obtain ⟨before, after, rfl⟩ := append_of_mem member
  obtain ⟨-, nodupAfter, disjoint⟩ := nodup_append.mp nodup
  have notBefore : k ∉ before := fun inBefore => disjoint k inBefore k mem_cons_self rfl
  have notAfter : k ∉ after := (nodup_cons.mp nodupAfter).1
  have same : ∀ part : List κ, k ∉ part →
      holders part (update hold k held) i = holders part hold i := fun part absent =>
    holders_congr (fun other inPart =>
      update_of_ne (fun here : other = k => absent (here ▸ inPart)) ..) i
  have first := same before notBefore
  have last := same after notAfter
  unfold holders at *
  simp only [map_append, sum_append, map_cons, sum_cons, update_self, first, last]
  ring

omit [DecidableEq κ] [DecidableEq ι] in
/-- **One key less** has the property. -/
theorem countP_less {p q : κ → Bool} (nodup : keys.Nodup) (member : k ∈ keys) (before : p k = true)
    (after : q k = false) (same : ∀ other ∈ keys, other ≠ k → q other = p other) :
    keys.countP q + 1 = keys.countP p := by
  obtain ⟨first, last, rfl⟩ := append_of_mem member
  obtain ⟨-, nodupLast, disjoint⟩ := nodup_append.mp nodup
  have inFirst : first.countP q = first.countP p := countP_congr fun other inside => by
    rw [same other (mem_append_left _ inside) (disjoint other inside k mem_cons_self)]
  have inLast : last.countP q = last.countP p := countP_congr fun other inside => by
    rw [same other (mem_append_right _ (mem_cons_of_mem _ inside)) fun here =>
      (nodup_cons.mp nodupLast).1 (here ▸ inside)]
  rw [countP_append, countP_append, countP_cons_of_pos before,
    countP_cons_of_neg (by rw [after]; decide), inFirst, inLast]
  omega

end Holders

/-! ### Holders with several hands -/

section Hands

variable {δ : Type} {keys : List κ} {hands : List δ} {hold hold' : κ × δ → Option ι} {k : κ}

omit [DecidableEq κ] in
theorem holders_append (first last : List κ) (hold : κ → Option ι) (i : ι) :
    holders (first ++ last) hold i = holders first hold i + holders last hold i := by
  rw [holders, map_append, sum_append]
  rfl

omit [DecidableEq κ] in
theorem holders_product_cons (i : ι) :
    holders ((k :: keys) ×ˢ hands) hold i =
      holders hands (fun d => hold (k, d)) i + holders (keys ×ˢ hands) hold i := by
  rw [product_cons, holders_append]
  simp only [holders, map_map, comp_def]

variable (hands) in
omit [DecidableEq κ] in
/-- **All hands of one holder change.** -/
theorem holders_product_update (nodup : keys.Nodup) (member : k ∈ keys)
    (same : ∀ other d, other ≠ k → hold' (other, d) = hold (other, d)) (i : ι) :
    holders (keys ×ˢ hands) hold' i =
      holders (keys ×ˢ hands) hold i - holders hands (fun d => hold (k, d)) i +
        holders hands (fun d => hold' (k, d)) i := by
  induction keys with
  | nil => cases member
  | cons first keys ih =>
    obtain ⟨absent, nodup⟩ := nodup_cons.mp nodup
    rw [holders_product_cons, holders_product_cons]
    rcases mem_cons.mp member with rfl | later
    · have rest : holders (keys ×ˢ hands) hold' i = holders (keys ×ˢ hands) hold i := by
        refine holders_congr (fun key inKeys => same key.1 key.2 fun here => absent ?_) i
        exact here ▸ (pair_mem_product.mp (show (key.1, key.2) ∈ _ from inKeys)).1
      rw [rest]
      ring
    · have head : (fun d => hold' (first, d)) = fun d => hold (first, d) :=
        funext fun d => same first d fun here => absent (here ▸ later)
      rw [head, ih nodup later]
      ring

end Hands

end Lib
