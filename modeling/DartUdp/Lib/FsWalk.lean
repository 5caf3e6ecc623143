import Mathlib.Algebra.Order.BigOperators.Group.List
import Mathlib.Data.List.Induction
import Mathlib.Data.List.Nodup
import DartUdp.Lib.Fs

/-!
# Walking a directory tree

What is below a directory is below one of its entries, and below no other. So a walk
that goes on from the entries of a directory reaches everything below it, and it has
less left to do with every directory it reads: the nodes inside the entries, with the
entries themselves, are no more than the nodes inside the directory.
-/

namespace DartUdp.Lib

open Std

/-- Predicates of which each element meets at most one are met no more often together
than one that holds wherever one of them does. -/
theorem sum_countP_le {α β : Type} (r : α → β → Bool) (q : β → Bool) (l : List α) (ks : List β)
    (h : ∀ k ∈ ks, l.countP (r · k) ≤ if q k then 1 else 0) :
    (l.map fun a => ks.countP (r a)).sum ≤ ks.countP q := by
  induction ks with
  | nil => simp
  | cons k ks ih =>
      have hrest := ih fun k' hk' => h k' (List.mem_cons_of_mem _ hk')
      have hk := h k List.mem_cons_self
      have hsum : (l.map fun a => (k :: ks).countP (r a)).sum =
          (l.map fun a => ks.countP (r a)).sum + l.countP (r · k) := by
        clear ih hrest hk h
        induction l with
        | nil => rfl
        | cons a l ih =>
            simp only [List.map_cons, List.sum_cons, List.countP_cons] at ih ⊢
            omega
      rw [hsum, List.countP_cons]
      omega

/-- Of paths of one length at most one leads to `p`. -/
theorem countP_below_le {n : Nat} {l : List Path} (hnodup : l.Nodup) (hlen : ∀ c ∈ l, c.length = n)
    (p : Path) : l.countP (fun c => c.isPrefixOf p) ≤ 1 := by
  have hsubset : l.filter (fun c => c.isPrefixOf p) ⊆ [p.take n] := by
    intro c hc
    obtain ⟨hmem, hprefix⟩ := List.mem_filter.1 hc
    have htake := List.prefix_iff_eq_take.1 (List.isPrefixOf_iff_prefix.1 hprefix)
    rw [hlen c hmem] at htake
    rw [htake]
    exact List.mem_singleton.2 rfl
  rw [List.countP_eq_length_filter]
  exact (List.subperm_of_subset (hnodup.filter _) hsubset).length_le

namespace Fs

variable {fs : Fs} {p dir : Path} {name : Bytes} {rest : List Bytes} {n : Node}

/-! ## Below a directory -/

/-- What has a node below it is a directory. -/
theorem dir_of_below (h : fs.get? (p ++ rest) = some n) (hne : rest ≠ []) :
    fs.get? p = some .dir := by
  induction rest using List.reverseRecOn generalizing n with
  | nil => exact absurd rfl hne
  | append_singleton rest name ih =>
      rw [← List.append_assoc] at h
      have hdir := parent_dir h
      by_cases hrest : rest = []
      · rwa [hrest, List.append_nil] at hdir
      · exact ih hdir hrest

theorem mem_readDir_iff : p ∈ fs.readDir dir ↔ ∃ name, p = dir ++ [name] ∧ (fs.get? p).isSome := by
  rw [mem_readDir]
  constructor
  · rintro ⟨hne, rfl, hsome⟩
    exact ⟨p.getLast hne, (List.dropLast_append_getLast hne).symm, hsome⟩
  · rintro ⟨name, rfl, hsome⟩
    exact ⟨by simp, List.dropLast_concat, hsome⟩

/-- What is below a directory is one of its entries or below one. -/
theorem entry_of_below (h : fs.get? (dir ++ name :: rest) = some n) :
    dir ++ [name] ∈ fs.readDir dir := by
  refine mem_readDir_iff.2 ⟨name, rfl, ?_⟩
  rw [List.append_cons] at h
  by_cases hrest : rest = []
  · rw [hrest, List.append_nil] at h
    rw [h]
    rfl
  · rw [dir_of_below h hrest]
    rfl

/-! ## How much is below it -/

/-- The number of nodes inside a directory. -/
def inside (fs : Fs) (dir : Path) : Nat :=
  fs.nodes.keys.countP fun p => dir.isPrefixOf p && p != dir

theorem inside_le (fs : Fs) (dir : Path) : fs.inside dir ≤ fs.nodes.size := by
  rw [← TreeMap.length_keys]
  exact List.countP_le_length

/-- A path is at or below `p` if it is `p` or inside it. -/
theorem countP_below (p : Path) (keys : List Path) :
    keys.countP (fun q => p.isPrefixOf q) =
      keys.countP (fun q => p.isPrefixOf q && q != p) + keys.countP (fun q => q == p) := by
  induction keys with
  | nil => rfl
  | cons q keys ih =>
      rw [List.countP_cons, List.countP_cons, List.countP_cons, ih]
      by_cases hq : q = p
      · subst hq
        have hself : q.isPrefixOf q = true := List.isPrefixOf_iff_prefix.2 (List.prefix_refl q)
        have hbne : (q != q) = false := by simp
        rw [hself, hbne, beq_self_eq_true]
        simp only [Bool.and_false, Bool.false_eq_true, if_true, if_false]
        omega
      · have hbeq : (q == p) = false := by simpa using hq
        have hbne : (q != p) = true := by simpa using hq
        rw [hbeq, hbne, Bool.and_true]
        simp only [Bool.false_eq_true, if_false]
        omega

/-- An entry counts once, and what is inside it. -/
theorem countP_entry (h : p ∈ fs.readDir dir) :
    fs.nodes.keys.countP (fun q => p.isPrefixOf q) = fs.inside p + 1 := by
  have hkey : p ∈ fs.nodes.keys := (List.mem_filter.1 h).1
  have hone : fs.nodes.keys.countP (fun q => q == p) = 1 :=
    List.count_eq_one_of_mem TreeMap.nodup_keys hkey
  rw [countP_below, hone]
  rfl

/-- Reading a directory leaves less to be read. -/
theorem sum_inside {entries : List Path} (hnodup : entries.Nodup)
    (hentries : ∀ p ∈ entries, p ∈ fs.readDir dir) :
    (entries.map fun p => fs.inside p + 1).sum ≤ fs.inside dir := by
  have hmap : (entries.map fun p => fs.inside p + 1) =
      entries.map fun p => fs.nodes.keys.countP fun q => p.isPrefixOf q :=
    List.map_congr_left fun p hp => (countP_entry (hentries p hp)).symm
  have hlen : ∀ p ∈ entries, p.length = dir.length + 1 := by
    intro p hp
    obtain ⟨name, rfl, -⟩ := mem_readDir_iff.1 (hentries p hp)
    exact List.length_append
  rw [hmap]
  refine sum_countP_le (fun p q => p.isPrefixOf q) _ entries _ fun q hq => ?_
  split
  · exact countP_below_le hnodup hlen q
  · next hout =>
      refine Nat.le_of_eq (List.countP_eq_zero.2 fun p hp hprefix => hout ?_)
      obtain ⟨name, rfl, -⟩ := mem_readDir_iff.1 (hentries p hp)
      obtain ⟨rest, rfl⟩ := List.isPrefixOf_iff_prefix.1 hprefix
      rw [Bool.and_eq_true, List.isPrefixOf_iff_prefix]
      refine ⟨⟨name :: rest, by simp⟩, ?_⟩
      simp

theorem inside_lt_of_entry (h : p ∈ fs.readDir dir) : fs.inside p < fs.inside dir := by
  have hsum := @sum_inside fs dir [p] (List.nodup_singleton p) fun q hq => by
    rwa [List.mem_singleton.1 hq]
  rwa [List.map_singleton, List.sum_singleton] at hsum

end Fs

end DartUdp.Lib
