import DartUdp.Lib.MapSum
import Mathlib.Algebra.Order.Group.Multiset
import Mathlib.Tactic.Abel

/-!
# What a map holds altogether

Every entry of an ordered map counts for something, in any commutative monoid.
With multisets of tokens this is an account: what an insertion puts in and an
erasure takes out, and what a walk over the keys comes by, in whatever order it
goes.
-/

namespace DartUdp.Lib

open Std

variable {κ β : Type} [Ord κ] [LawfulEqOrd κ] [TransOrd κ] {M : Type} [AddCommMonoid M]

/-- What the entries count for together. -/
def total (t : TreeMap κ β) (f : β → M) : M := (t.toList.map (f ·.2)).sum

omit [LawfulEqOrd κ] [TransOrd κ] in
@[simp] theorem total_empty (f : β → M) : total (∅ : TreeMap κ β) f = 0 := rfl

theorem total_congr {t u : TreeMap κ β} (f : β → M) (h : ∀ k : κ, t[k]? = u[k]?) :
    total t f = total u f := by
  rw [total, total, toList_congr h]

theorem total_erase {t : TreeMap κ β} {k : κ} {b : β} (f : β → M) (h : t[k]? = some b) :
    total (t.erase k) f + f b = total t f := by
  have hperm := ((toList_perm_erase h).map (f ·.2)).sum_eq
  unfold total
  rw [hperm, List.map_cons, List.sum_cons, add_comm]

theorem getElem?_erase_of_none {t : TreeMap κ β} {k : κ} (h : t[k]? = none) (k' : κ) :
    (t.erase k)[k']? = t[k']? := by
  rw [TreeMap.getElem?_erase]
  split
  · next heq => rw [← compare_eq_iff_eq.1 heq, h]
  · rfl

theorem total_erase_of_none {t : TreeMap κ β} {k : κ} (f : β → M) (h : t[k]? = none) :
    total (t.erase k) f = total t f :=
  total_congr f (getElem?_erase_of_none h)

/-- What is erased, if anything, is what is missing. -/
theorem total_erase_add (t : TreeMap κ β) (k : κ) (f : β → M) :
    total (t.erase k) f + (t[k]?).elim 0 f = total t f := by
  cases h : t[k]? with
  | none => rw [Option.elim_none, add_zero, total_erase_of_none f h]
  | some b => exact total_erase f h

theorem total_insert (t : TreeMap κ β) (k : κ) (b : β) (f : β → M) :
    total (t.insert k b) f = total (t.erase k) f + f b := by
  rw [← total_erase f (TreeMap.getElem?_insert_self (t := t) (k := k) (v := b))]
  congr 1
  refine total_congr f fun k' => ?_
  rw [TreeMap.getElem?_erase, TreeMap.getElem?_erase, TreeMap.getElem?_insert]
  split
  · rfl
  · rfl

/-- An entry written over another. -/
theorem total_insert_of_get {t : TreeMap κ β} {k : κ} {b : β} (b' : β) (f : β → M)
    (h : t[k]? = some b) : total (t.insert k b') f + f b = total t f + f b' := by
  rw [total_insert, ← total_erase f h]
  exact add_right_comm _ _ _

/-- An entry added. -/
theorem total_insert_of_none {t : TreeMap κ β} {k : κ} (b : β) (f : β → M)
    (h : t[k]? = none) : total (t.insert k b) f = total t f + f b := by
  rw [total_insert, total_erase_of_none f h]

/-! ## A walk over the keys -/

theorem filterMap_keys (t : TreeMap κ β) {γ : Type} (g : β → γ) :
    t.keys.filterMap (fun k => (t[k]?).map g) = t.toList.map (g ·.2) := by
  rw [← TreeMap.map_fst_toList_eq_keys, List.filterMap_map, ← List.filterMap_eq_map]
  refine List.filterMap_congr fun entry hentry => ?_
  rw [Function.comp_apply, TreeMap.mem_toList_iff_getElem?_eq_some.1 hentry]
  rfl

/-- Whatever the order of a walk, it comes by every entry once. -/
theorem walk_eq_total {t : TreeMap κ β} {keys : List κ} (h : keys.Perm t.keys) {γ : Type}
    (g : β → γ) :
    (keys.filterMap (fun k => (t[k]?).map g) : Multiset γ) = total t fun b => {g b} := by
  have hwalk := h.filterMap fun k => (t[k]?).map g
  rw [filterMap_keys] at hwalk
  rw [Multiset.coe_eq_coe.2 hwalk, total]
  induction t.toList with
  | nil => rfl
  | cons entry rest ih =>
      rw [List.map_cons, List.map_cons, List.sum_cons, ← ih]
      rfl

end DartUdp.Lib
