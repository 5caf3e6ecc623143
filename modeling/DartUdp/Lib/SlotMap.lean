import Mathlib.Data.List.Perm.Subperm
import Mathlib.Tactic.Common

/-!
# A slot map: a store that hands out its own keys

`SlotMap::insert` answers a key that was never handed out before, and the key
stays valid until its value is removed. A key is modelled by the number of
insertions before it, so uniqueness is a field of the structure: no key from
`next` on is in use.

Iteration goes by slot. A key stays in its slot, but which slot a new key gets depends
on the slots that were free then, so nothing is assumed of the order: it comes with the
store, as any rearrangement of the keys.
-/

namespace DartUdp.Lib

open Std

/-- An order to go through keys in: any rearrangement of them. -/
structure KeyOrder where
  sort : List Nat → List Nat
  perm : ∀ keys, (sort keys).Perm keys

/-- The oldest key first. -/
def KeyOrder.byAge : KeyOrder := ⟨id, fun _ => .refl _⟩

/-- A store whose keys are never reused. -/
structure SlotMap (V : Type) where
  order : KeyOrder
  slots : TreeMap Nat V
  next : Nat
  fresh : ∀ k, next ≤ k → slots[k]? = none

namespace SlotMap

variable {V : Type}

/-- `SlotMap::new`. -/
def empty (order : KeyOrder) : SlotMap V where
  order := order
  slots := ∅
  next := 0
  fresh := fun _ _ => TreeMap.getElem?_emptyc

/-- `SlotMap::get`. -/
def get? (m : SlotMap V) (k : Nat) : Option V := m.slots[k]?

/-- `SlotMap::insert`: the new key and the grown store. -/
def insert (m : SlotMap V) (v : V) : Nat × SlotMap V :=
  (m.next,
    { order := m.order
      slots := m.slots.insert m.next v
      next := m.next + 1
      fresh := fun k hk => by
        rw [TreeMap.getElem?_insert, if_neg (by simp; omega)]
        exact m.fresh k (by omega) })

/-- A write through `SlotMap::get_mut`; a key without a value is left alone. -/
def modify (m : SlotMap V) (k : Nat) (f : V → V) : SlotMap V where
  order := m.order
  slots := m.slots.modify k f
  next := m.next
  fresh := fun k' hk => by
    rw [TreeMap.getElem?_modify]
    split
    · next heq =>
        rw [Std.compare_eq_iff_eq] at heq
        rw [heq, m.fresh k' hk]
        rfl
    · exact m.fresh k' hk

/-- `SlotMap::remove`. -/
def remove (m : SlotMap V) (k : Nat) : SlotMap V where
  order := m.order
  slots := m.slots.erase k
  next := m.next
  fresh := fun k' hk => by
    rw [TreeMap.getElem?_erase]
    split
    · rfl
    · exact m.fresh k' hk

/-- `SlotMap::drain`: every value leaves, the key counter stays. -/
def clear (m : SlotMap V) : SlotMap V where
  order := m.order
  slots := ∅
  next := m.next
  fresh := fun _ _ => TreeMap.getElem?_emptyc

/-- `SlotMap::keys`. -/
def keys (m : SlotMap V) : List Nat := m.order.sort m.slots.keys

/-- `SlotMap::values`. -/
def values (m : SlotMap V) : List V := m.keys.filterMap m.get?

/-- `SlotMap::len`. -/
def len (m : SlotMap V) : Nat := m.slots.size

@[simp] theorem get?_empty (order : KeyOrder) (k : Nat) : (empty order : SlotMap V).get? k = none :=
  TreeMap.getElem?_emptyc

@[simp] theorem get?_clear (m : SlotMap V) (k : Nat) : m.clear.get? k = none :=
  TreeMap.getElem?_emptyc

theorem get?_next (m : SlotMap V) : m.get? m.next = none := m.fresh _ (Nat.le_refl _)

theorem get?_insert (m : SlotMap V) (v : V) (k : Nat) :
    (m.insert v).2.get? k = if k = m.next then some v else m.get? k := by
  simp only [insert, get?, TreeMap.getElem?_insert, Std.compare_eq_iff_eq]
  simp only [eq_comm]

theorem get?_modify (m : SlotMap V) (k : Nat) (f : V → V) (k' : Nat) :
    (m.modify k f).get? k' = if k' = k then (m.get? k').map f else m.get? k' := by
  simp only [modify, get?, TreeMap.getElem?_modify, Std.compare_eq_iff_eq]
  by_cases h : k = k'
  · subst h; simp
  · rw [if_neg h, if_neg (Ne.symm h)]

theorem get?_remove (m : SlotMap V) (k k' : Nat) :
    (m.remove k).get? k' = if k' = k then none else m.get? k' := by
  simp only [remove, get?, TreeMap.getElem?_erase, Std.compare_eq_iff_eq]
  simp only [eq_comm]

theorem mem_keys (m : SlotMap V) (k : Nat) : k ∈ m.keys ↔ (m.get? k).isSome := by
  rw [keys, (m.order.perm _).mem_iff, get?, TreeMap.mem_keys, ← TreeMap.isSome_getElem?_iff_mem]

theorem nodup_keys (m : SlotMap V) : m.keys.Nodup :=
  (m.order.perm _).nodup_iff.2 TreeMap.nodup_keys

theorem length_keys (m : SlotMap V) : m.keys.length = m.len :=
  (m.order.perm _).length_eq.trans TreeMap.length_keys

/-- Keys without repetition that are all in use are at most as many as the
store holds. -/
theorem length_le_len {m : SlotMap V} {ks : List Nat} (hnd : ks.Nodup)
    (h : ∀ k ∈ ks, (m.get? k).isSome) : ks.length ≤ m.len := by
  rw [← length_keys]
  exact (List.subperm_of_subset hnd fun k hk => (m.mem_keys k).2 (h k hk)).length_le

end SlotMap

end DartUdp.Lib
