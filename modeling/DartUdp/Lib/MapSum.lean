import Mathlib.Data.List.Nodup
import Mathlib.Algebra.BigOperators.Group.Finset.Basic
import Mathlib.Algebra.BigOperators.Group.List.Basic
import Mathlib.Algebra.Order.BigOperators.Group.List
import Mathlib.Algebra.Order.Ring.Nat
import Std.Data.TreeMap

/-!
# Sums over a map

The entries of an ordered map, each weighed, and how the sum changes with an
insertion and an erasure; and the same for a list one of whose entries is set.
-/

namespace DartUdp.Lib

open Std

variable {κ β : Type} [Ord κ] [LawfulEqOrd κ] [TransOrd κ]

/-- The weights of all entries together. -/
def mapSum (t : TreeMap κ β) (weight : β → Nat) : Nat := (t.toList.map (weight ·.2)).sum

theorem nodup_toList (t : TreeMap κ β) : t.toList.Nodup := by
  refine t.distinct_keys_toList.imp fun {x y} h heq => ?_
  rw [heq] at h
  exact h ReflCmp.compare_self

/-- Maps that answer alike list the same entries in the same order. -/
theorem toList_congr {t u : TreeMap κ β} (h : ∀ k : κ, t[k]? = u[k]?) : t.toList = u.toList :=
  (TreeMap.Equiv.of_forall_constGet?_eq h).toList_eq

theorem toList_perm_erase {t : TreeMap κ β} {k : κ} {b : β} (h : t[k]? = some b) :
    t.toList.Perm ((k, b) :: (t.erase k).toList) := by
  have hnot : (k, b) ∉ (t.erase k).toList := by
    rw [TreeMap.mem_toList_iff_getElem?_eq_some, TreeMap.getElem?_erase_self]
    simp
  rw [List.perm_ext_iff_of_nodup (nodup_toList t)
    (List.nodup_cons.2 ⟨hnot, nodup_toList _⟩)]
  intro ⟨k', b'⟩
  rw [List.mem_cons, TreeMap.mem_toList_iff_getElem?_eq_some,
    TreeMap.mem_toList_iff_getElem?_eq_some, TreeMap.getElem?_erase]
  by_cases hk : k' = k
  · subst hk
    simp [h, eq_comm]
  · have hne : compare k k' ≠ .eq := fun heq => hk (compare_eq_iff_eq.1 heq).symm
    simp [hk, hne]

theorem mapSum_erase {t : TreeMap κ β} {k : κ} {b : β} (weight : β → Nat) (h : t[k]? = some b) :
    mapSum (t.erase k) weight + weight b = mapSum t weight := by
  have hperm := ((toList_perm_erase h).map (weight ·.2)).sum_eq
  unfold mapSum
  rw [hperm, List.map_cons, List.sum_cons, Nat.add_comm]

theorem mapSum_congr {t u : TreeMap κ β} (weight : β → Nat) (h : ∀ k : κ, t[k]? = u[k]?) :
    mapSum t weight = mapSum u weight := by
  rw [mapSum, mapSum, toList_congr h]

theorem mapSum_insert (t : TreeMap κ β) (k : κ) (b : β) (weight : β → Nat) :
    mapSum (t.insert k b) weight = mapSum (t.erase k) weight + weight b := by
  rw [← mapSum_erase weight (TreeMap.getElem?_insert_self (t := t) (k := k) (v := b))]
  congr 1
  refine mapSum_congr weight fun k' => ?_
  rw [TreeMap.getElem?_erase, TreeMap.getElem?_erase, TreeMap.getElem?_insert]
  split
  · rfl
  · rfl

/-- An entry written over. -/
theorem mapSum_insert_of_get {t : TreeMap κ β} {k : κ} {b : β} (b' : β) (weight : β → Nat)
    (h : t[k]? = some b) :
    mapSum (t.insert k b') weight + weight b = mapSum t weight + weight b' := by
  rw [mapSum_insert, ← mapSum_erase weight h]
  omega

/-- An entry added. -/
theorem mapSum_insert_of_none {t : TreeMap κ β} {k : κ} (b : β) (weight : β → Nat)
    (h : t[k]? = none) : mapSum (t.insert k b) weight = mapSum t weight + weight b := by
  rw [mapSum_insert]
  congr 1
  refine mapSum_congr weight fun k' => ?_
  rw [TreeMap.getElem?_erase]
  split
  · next heq => rw [← compare_eq_iff_eq.1 heq, h]
  · rfl

/-- The entries of a map, added up key by key. -/
theorem sum_keys [DecidableEq κ] (t : TreeMap κ β) (weight : β → Nat) :
    ∑ k ∈ t.keys.toFinset, (t[k]?).elim 0 weight = mapSum t weight := by
  have hnodup : t.keys.Nodup := by
    refine (TreeMap.distinct_keys (t := t)).imp fun {k k'} hne heq => hne ?_
    rw [heq]
    exact ReflCmp.compare_self
  rw [List.sum_toFinset _ hnodup, ← TreeMap.map_fst_toList_eq_keys, List.map_map]
  refine congrArg List.sum (List.map_congr_left fun entry hentry => ?_)
  rw [Function.comp_apply, TreeMap.mem_toList_iff_getElem?_eq_some.1 hentry]
  rfl

/-- The entries of a map by number, added up number by number. -/
theorem sum_range_getElem? {M : Type} [AddCommMonoid M] (t : TreeMap Nat β) (bound : Nat)
    (h : ∀ n b, t[n]? = some b → n < bound) (f : β → M) :
    ∑ n ∈ Finset.range bound, (t[n]?).elim 0 f = (t.toList.map fun entry => f entry.2).sum := by
  induction bound generalizing t with
  | zero =>
      have hnil : t.toList = [] := List.eq_nil_iff_forall_not_mem.2 fun entry hentry =>
        absurd (h _ _ (TreeMap.mem_toList_iff_getElem?_eq_some.1 hentry)) (Nat.not_lt_zero _)
      rw [hnil]
      rfl
  | succ bound ih =>
      have herase : ∀ n b, (t.erase bound)[n]? = some b → n < bound := fun n b hb => by
        rw [TreeMap.getElem?_erase] at hb
        split at hb
        · cases hb
        · next hne =>
            have hlt := h n b hb
            have hne' : bound ≠ n := fun heq => hne (Std.compare_eq_iff_eq.2 heq)
            omega
      have hsame : ∀ n ∈ Finset.range bound, ((t.erase bound)[n]?).elim 0 f = (t[n]?).elim 0 f :=
        fun n hn => by
          have hne : compare bound n ≠ .eq := fun heq =>
            absurd (Std.compare_eq_iff_eq.1 heq) (Finset.mem_range.1 hn).ne'
          rw [TreeMap.getElem?_erase, if_neg hne]
      rw [Finset.sum_range_succ, ← Finset.sum_congr rfl hsame, ih _ herase]
      cases hb : t[bound]? with
      | none =>
          have heq : ∀ n : Nat, (t.erase bound)[n]? = t[n]? := fun n => by
            rw [TreeMap.getElem?_erase]
            split
            · next hn => rw [← Std.compare_eq_iff_eq.1 hn, hb]
            · rfl
          rw [toList_congr heq]
          exact add_zero _
      | some b =>
          rw [((toList_perm_erase hb).map fun entry => f entry.2).sum_eq, List.map_cons,
            List.sum_cons, add_comm]
          rfl

/-! ## Sums over a list -/

/-- Setting one entry moves the sum by what the entry's weight moves. -/
theorem sum_map_set {α : Type} {l : List α} {i : Nat} {a : α} (h : l[i]? = some a) (b : α)
    (f : α → Nat) : ((l.set i b).map f).sum + f a = (l.map f).sum + f b := by
  induction l generalizing i with
  | nil => cases h
  | cons x l ih =>
      cases i with
      | zero =>
          cases h
          simp only [List.set_cons_zero, List.map_cons, List.sum_cons]
          omega
      | succ i =>
          have hrest := ih h
          simp only [List.set_cons_succ, List.map_cons, List.sum_cons]
          omega

/-- A heavier weight weighs more, by the difference wherever there is one. -/
theorem sum_map_add_le {α : Type} {l : List α} {a : α} (ha : a ∈ l) {f g : α → Nat} {n : Nat}
    (hle : ∀ b ∈ l, f b ≤ g b) (hn : f a + n ≤ g a) : (l.map f).sum + n ≤ (l.map g).sum := by
  induction l with
  | nil => cases ha
  | cons x l ih =>
      have hx := hle x List.mem_cons_self
      have hrest : (l.map f).sum ≤ (l.map g).sum :=
        List.sum_le_sum fun b hb => hle b (List.mem_cons_of_mem _ hb)
      simp only [List.map_cons, List.sum_cons]
      rcases List.mem_cons.1 ha with rfl | ha
      · omega
      · have := ih ha fun b hb => hle b (List.mem_cons_of_mem _ hb)
        omega

end DartUdp.Lib
