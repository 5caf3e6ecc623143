import Mathlib.Data.Finset.Card
import Mathlib.Order.Interval.Finset.Nat
import DartUdp.Lib.MapSum

/-!
# Extents

Stretches of a sequence that is not all there yet, kept in a map by where they
start. Extents that lie apart have one entry at a position at most, and together
they are as long as the positions they have. The positions between them come as
a list of ranges, and ranges one after the other have as many positions as their
lengths add up to.
-/

namespace DartUdp.Lib

open Std

variable {α : Type} {t : TreeMap Nat (List α)} {low high i start : Nat} {data : List α} {a b : α}

/-- One of the extents has the entry at the position. -/
def Holds (t : TreeMap Nat (List α)) (i : Nat) (a : α) : Prop :=
  ∃ (start : Nat) (data : List α), t[start]? = some data ∧ start ≤ i ∧ data[i - start]? = some a

/-- No extent is empty, none overlaps another, and all lie between the bounds. -/
structure Apart (low high : Nat) (t : TreeMap Nat (List α)) : Prop where
  nonempty : ∀ (start : Nat) (data : List α), t[start]? = some data → data ≠ []
  above : ∀ (start : Nat) (data : List α), t[start]? = some data → low ≤ start
  below : ∀ (start : Nat) (data : List α), t[start]? = some data → start + data.length ≤ high
  disjoint : ∀ (start : Nat) (data : List α) (start' : Nat) (data' : List α),
    t[start]? = some data → t[start']? = some data' → start < start' → start + data.length ≤ start'

/-! ## What extents hold -/

theorem getElem?_offset_lt (h : start ≤ i ∧ data[i - start]? = some a) :
    start ≤ i ∧ i < start + data.length := by
  obtain ⟨hlt, _⟩ := List.getElem?_eq_some_iff.1 h.2
  have := h.1
  omega

theorem getElem?_offset_of_lt (h : start ≤ i ∧ i < start + data.length) :
    ∃ a, start ≤ i ∧ data[i - start]? = some a := by
  have hlt : i - start < data.length := by omega
  exact ⟨data[i - start], h.1, List.getElem?_eq_getElem hlt⟩

theorem holds_empty : ¬ Holds (∅ : TreeMap Nat (List α)) i a := by
  rintro ⟨start, data, hs, _⟩
  rw [TreeMap.getElem?_emptyc] at hs
  cases hs

theorem holds_insert (hfree : t[start]? = none) :
    Holds (t.insert start data) i a ↔ Holds t i a ∨ start ≤ i ∧ data[i - start]? = some a := by
  constructor
  · intro h
    obtain ⟨s, d, hs, hat⟩ := h
    rw [TreeMap.getElem?_insert] at hs
    split at hs
    · next heq =>
        cases hs
        rw [Std.compare_eq_iff_eq.1 heq]
        exact .inr hat
    · exact .inl ⟨s, d, hs, hat⟩
  · intro h
    rcases h with ⟨s, d, hs, hat⟩ | hat
    · refine ⟨s, d, ?_, hat⟩
      rw [TreeMap.getElem?_insert, if_neg fun heq => ?_]
      · exact hs
      · rw [Std.compare_eq_iff_eq.1 heq, hs] at hfree
        cases hfree
    · exact ⟨start, data, TreeMap.getElem?_insert_self, hat⟩

theorem holds_erase (hs : t[start]? = some data) :
    Holds t i a ↔ Holds (t.erase start) i a ∨ start ≤ i ∧ data[i - start]? = some a := by
  constructor
  · intro h
    obtain ⟨s, d, hget, hat⟩ := h
    by_cases heq : start = s
    · subst heq
      cases hs.symm.trans hget
      exact .inr hat
    · refine .inl ⟨s, d, ?_, hat⟩
      rw [TreeMap.getElem?_erase, if_neg fun h => heq (Std.compare_eq_iff_eq.1 h)]
      exact hget
  · intro h
    rcases h with ⟨s, d, hget, hat⟩ | hat
    · rw [TreeMap.getElem?_erase] at hget
      split at hget
      · cases hget
      · exact ⟨s, d, hget, hat⟩
    · exact ⟨start, data, hs, hat⟩

namespace Apart

theorem empty : Apart low high (∅ : TreeMap Nat (List α)) := by
  have hnone : ∀ (s : Nat) (d : List α), (∅ : TreeMap Nat (List α))[s]? ≠ some d := by
    intro s d h
    rw [TreeMap.getElem?_emptyc] at h
    cases h
  exact ⟨fun s d h => absurd h (hnone s d), fun s d h => absurd h (hnone s d),
    fun s d h => absurd h (hnone s d), fun s d _ _ h => absurd h (hnone s d)⟩

theorem mono {high' : Nat} (h : Apart low high t) (hle : high ≤ high') : Apart low high' t :=
  ⟨h.nonempty, h.above, fun s d hs => (h.below s d hs).trans hle, h.disjoint⟩

/-- An extent starts with an entry. -/
theorem free (h : Apart low high t) (hstart : ∀ a, ¬ Holds t start a) : t[start]? = none := by
  cases hs : t[start]? with
  | none => rfl
  | some d =>
      have hpos := List.length_pos_iff.2 (h.nonempty start d hs)
      have hin : start ≤ start ∧ start < start + d.length := by omega
      obtain ⟨a, hat⟩ := getElem?_offset_of_lt hin
      exact absurd ⟨start, d, hs, hat⟩ (hstart a)

/-- Where nothing is held there is room for an extent. -/
theorem insert (h : Apart low high t) (hne : data ≠ []) (hlow : low ≤ start)
    (hhigh : start + data.length ≤ high)
    (hfree : ∀ i, start ≤ i → i < start + data.length → ∀ a, ¬ Holds t i a) :
    Apart low high (t.insert start data) := by
  have hpos := List.length_pos_iff.2 hne
  have hcases : ∀ s d, (t.insert start data)[s]? = some d →
      s = start ∧ d = data ∨ t[s]? = some d := by
    intro s d hs
    rw [TreeMap.getElem?_insert] at hs
    split at hs
    · next heq =>
        cases hs
        exact .inl ⟨(Std.compare_eq_iff_eq.1 heq).symm, rfl⟩
    · exact .inr hs
  -- An extent that is there starts after the new one or ends before it.
  have hside : ∀ s d, t[s]? = some d → start + data.length ≤ s ∨ s + d.length ≤ start := by
    intro s d hs
    by_contra hnot
    have hposd := List.length_pos_iff.2 (h.nonempty s d hs)
    have hin : s ≤ max s start ∧ max s start < s + d.length := by omega
    obtain ⟨a, hat⟩ := getElem?_offset_of_lt hin
    exact hfree (max s start) (by omega) (by omega) a ⟨s, d, hs, hat⟩
  constructor
  · intro s d hs
    rcases hcases s d hs with ⟨rfl, rfl⟩ | hs
    · exact hne
    · exact h.nonempty s d hs
  · intro s d hs
    rcases hcases s d hs with ⟨rfl, rfl⟩ | hs
    · exact hlow
    · exact h.above s d hs
  · intro s d hs
    rcases hcases s d hs with ⟨rfl, rfl⟩ | hs
    · exact hhigh
    · exact h.below s d hs
  · intro s d s' d' hs hs' hlt
    rcases hcases s d hs with ⟨hs₁, hd₁⟩ | hold <;>
      rcases hcases s' d' hs' with ⟨hs₂, hd₂⟩ | hold'
    · omega
    · have := hside s' d' hold'
      rw [hs₁, hd₁]
      omega
    · have := hside s d hold
      omega
    · exact h.disjoint s d s' d' hold hold' hlt

/-- Without its first extent the rest starts where that one ended. -/
theorem erase (h : Apart low high t) (hs : t[low]? = some data) :
    Apart (low + data.length) high (t.erase low) := by
  have hcases : ∀ s d, (t.erase low)[s]? = some d → s ≠ low ∧ t[s]? = some d := by
    intro s d hget
    rw [TreeMap.getElem?_erase] at hget
    split at hget
    · cases hget
    · next hne => exact ⟨fun heq => hne (Std.compare_eq_iff_eq.2 heq.symm), hget⟩
  constructor
  · intro s d hget
    exact h.nonempty s d (hcases s d hget).2
  · intro s d hget
    obtain ⟨hne, hget⟩ := hcases s d hget
    have hle := h.above s d hget
    exact h.disjoint low data s d hs hget (by omega)
  · intro s d hget
    exact h.below s d (hcases s d hget).2
  · intro s d s' d' hget hget'
    exact h.disjoint s d s' d' (hcases s d hget).2 (hcases s' d' hget').2

/-- When no extent starts at the lower bound, all start after it. -/
theorem succ (h : Apart low high t) (hs : t[low]? = none) : Apart (low + 1) high t := by
  refine ⟨h.nonempty, fun s d hget => ?_, h.below, h.disjoint⟩
  have hle := h.above s d hget
  have hne : low ≠ s := fun heq => by
    rw [heq, hget] at hs
    cases hs
  omega

/-! ## Extents in order -/

theorem pairwise (h : Apart low high t) :
    t.toList.Pairwise fun x y => x.1 + x.2.length ≤ y.1 := by
  refine (TreeMap.ordered_keys_toList (t := t)).imp_of_mem fun {x y} hx hy hlt => ?_
  rw [TreeMap.mem_toList_iff_getElem?_eq_some] at hx hy
  exact h.disjoint x.1 x.2 y.1 y.2 hx hy (Nat.compare_eq_lt.1 hlt)

/-- One after the other, the entries are no more than fit between the bounds. -/
theorem sum_le (h : Apart low high t) (hle : low ≤ high) :
    low + mapSum t List.length ≤ high := by
  have hgen : ∀ (l : List (Nat × List α)) (low : Nat), low ≤ high →
      l.Pairwise (fun x y => x.1 + x.2.length ≤ y.1) →
      (∀ x ∈ l, low ≤ x.1 ∧ x.1 + x.2.length ≤ high) →
      low + (l.map (·.2.length)).sum ≤ high := by
    intro l
    induction l with
    | nil => intro low hle _ _; exact hle
    | cons x l ih =>
        intro low hle hpair hall
        rw [List.pairwise_cons] at hpair
        have hx := hall x List.mem_cons_self
        have hrest := ih (x.1 + x.2.length) hx.2 hpair.2 fun y hy =>
          ⟨hpair.1 y hy, (hall y (List.mem_cons_of_mem _ hy)).2⟩
        rw [List.map_cons, List.sum_cons]
        omega
  refine hgen t.toList low hle h.pairwise fun x hx => ?_
  rw [TreeMap.mem_toList_iff_getElem?_eq_some] at hx
  exact ⟨h.above x.1 x.2 hx, h.below x.1 x.2 hx⟩

end Apart

/-! ## Ranges -/

/-- The position lies in one of the ranges, each without its end. -/
def InRanges (ranges : List (Nat × Nat)) (i : Nat) : Prop := ∃ r ∈ ranges, r.1 ≤ i ∧ i < r.2

/-- Ranges that have something in them, one after the other between the bounds. -/
structure Ascending (low high : Nat) (ranges : List (Nat × Nat)) : Prop where
  pairwise : ranges.Pairwise fun r r' => r.2 ≤ r'.1
  within : ∀ r ∈ ranges, low ≤ r.1 ∧ r.1 < r.2 ∧ r.2 ≤ high

variable {r : Nat × Nat} {ranges : List (Nat × Nat)}

theorem inRanges_nil : ¬ InRanges [] i := by simp [InRanges]

theorem inRanges_cons : InRanges (r :: ranges) i ↔ r.1 ≤ i ∧ i < r.2 ∨ InRanges ranges i := by
  simp [InRanges]

theorem Ascending.nil : Ascending low high [] := ⟨.nil, fun _ h => absurd h List.not_mem_nil⟩

theorem Ascending.cons (h : Ascending r.2 high ranges) (hlow : low ≤ r.1) (hlt : r.1 < r.2)
    (hhigh : r.2 ≤ high) : Ascending low high (r :: ranges) := by
  refine ⟨List.pairwise_cons.2 ⟨fun r' hr' => (h.within r' hr').1, h.pairwise⟩, fun r' hr' => ?_⟩
  rcases List.mem_cons.1 hr' with rfl | hr'
  · exact ⟨hlow, hlt, hhigh⟩
  · have := h.within r' hr'
    omega

theorem Ascending.mono {low' : Nat} (h : Ascending low high ranges) (hle : low' ≤ low) :
    Ascending low' high ranges :=
  ⟨h.pairwise, fun r hr => ⟨hle.trans (h.within r hr).1, (h.within r hr).2⟩⟩

theorem Ascending.tail (h : Ascending low high (r :: ranges)) : Ascending r.2 high ranges := by
  obtain ⟨hfirst, hpair⟩ := List.pairwise_cons.1 h.pairwise
  exact ⟨hpair, fun r' hr' => ⟨hfirst r' hr', (h.within r' (List.mem_cons_of_mem _ hr')).2⟩⟩

theorem Ascending.sum_le (h : Ascending low high ranges) (hle : low ≤ high) :
    low + (ranges.map fun r => r.2 - r.1).sum ≤ high := by
  induction ranges generalizing low with
  | nil => exact hle
  | cons r ranges ih =>
      have hr := h.within r List.mem_cons_self
      have hrest := ih h.tail hr.2.2
      rw [List.map_cons, List.sum_cons]
      omega

/-- The positions of the ranges are as many as their lengths add up to. -/
theorem Ascending.card (h : Ascending low high ranges) {s : Finset Nat}
    (hs : ∀ i, i ∈ s ↔ InRanges ranges i) : s.card = (ranges.map fun r => r.2 - r.1).sum := by
  induction ranges generalizing low s with
  | nil =>
      have hempty : s = ∅ := by
        refine Finset.eq_empty_of_forall_notMem fun i hi => ?_
        exact inRanges_nil ((hs i).1 hi)
      rw [hempty]
      rfl
  | cons r ranges ih =>
      have htail := h.tail
      have hsplit : s = Finset.Ico r.1 r.2 ∪ s.filter (r.2 ≤ ·) := by
        ext i
        rw [Finset.mem_union, Finset.mem_Ico, Finset.mem_filter, hs, inRanges_cons]
        constructor
        · intro hi
          rcases hi with hi | ⟨r', hr', hi⟩
          · exact .inl hi
          · exact .inr ⟨.inr ⟨r', hr', hi⟩, (htail.within r' hr').1.trans hi.1⟩
        · intro hi
          rcases hi with hi | hi
          · exact .inl hi
          · exact hi.1
      have hrest : ∀ i, i ∈ s.filter (r.2 ≤ ·) ↔ InRanges ranges i := by
        intro i
        rw [Finset.mem_filter, hs, inRanges_cons]
        constructor
        · intro hi
          rcases hi.1 with hin | hin
          · omega
          · exact hin
        · intro hi
          obtain ⟨r', hr', hin⟩ := hi
          exact ⟨.inr ⟨r', hr', hin⟩, (htail.within r' hr').1.trans hin.1⟩
      have hdisjoint : Disjoint (Finset.Ico r.1 r.2) (s.filter (r.2 ≤ ·)) := by
        rw [Finset.disjoint_left]
        intro i hi hi'
        rw [Finset.mem_Ico] at hi
        rw [Finset.mem_filter] at hi'
        omega
      rw [hsplit, Finset.card_union_of_disjoint hdisjoint, Nat.card_Ico, ih htail hrest,
        List.map_cons, List.sum_cons]

end DartUdp.Lib
