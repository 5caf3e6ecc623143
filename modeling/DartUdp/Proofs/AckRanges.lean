import Mathlib.Data.List.Induction
import DartUdp.Core.Recovery
import DartUdp.Lib.Runs

/-!
# The packets received, as ranges

`record` puts a number in as a range of its own, sorts, and merges what touches.
The ranges stay apart and in descending order, whatever is recorded in whatever
order, so they are what an ACK carries as they stand. They hold what was recorded
and nothing else, except that beyond 32 ranges the lowest are forgotten.

The module is for `received_ranges`. Merging is looked at on the list being merged
(`foldl_mergeRange_apart`, `contains_foldl_mergeRange`), `contains_record` is what
one `record` does to the ranges, and `Reflects.record` is the step of the induction
over the packets in `reflects_all`.
-/

namespace DartUdp.Core

open DartUdp.Lib DartUdp.Udp

variable {ranges merged : List AckRange} {range r : AckRange} {n : Nat}
  {received : ReceivedPackets}

/-! ## Merging -/

/-- The merged ranges hold nothing but what was merged. -/
theorem mem_mergeRange {merged : List AckRange} {range r : AckRange} {n : Nat}
    (h : r ∈ mergeRange merged range) (hn : r.contains n = true)
    (hsorted : ∀ m ∈ merged, range.stop ≤ m.stop) :
    (∃ m ∈ merged, m.contains n = true) ∨ range.contains n = true := by
  unfold mergeRange at h
  split at h
  · rw [List.mem_singleton] at h
    exact .inr (h ▸ hn)
  · next previous rest =>
      have hstop := hsorted previous List.mem_cons_self
      have hsat := saturatingAdd_le range.stop 1
      split at h
      · rcases List.mem_cons.1 h with rfl | h
        · by_cases hp : previous.start ≤ n
          · refine .inl ⟨previous, List.mem_cons_self, ?_⟩
            simp only [AckRange.contains, Bool.and_eq_true, decide_eq_true_eq] at hn ⊢
            omega
          · right
            simp only [AckRange.contains, Bool.and_eq_true, decide_eq_true_eq] at hn ⊢
            omega
        · exact .inl ⟨r, List.mem_cons_of_mem _ h, hn⟩
      · rcases List.mem_cons.1 h with rfl | h
        · exact .inr hn
        · exact .inl ⟨r, h, hn⟩

theorem sorted_insertionSort (ranges : List AckRange) :
    (ranges.insertionSort fun left right => left.before right).Pairwise
      fun left right => right.stop ≤ left.stop := by
  have htotal : Std.Total fun left right : AckRange => left.before right = true := ⟨by
    intro left right
    simp only [AckRange.before, Bool.or_eq_true, Bool.and_eq_true, decide_eq_true_eq, beq_iff_eq]
    omega⟩
  have htrans : IsTrans AckRange fun left right => left.before right = true := ⟨by
    intro a b c
    simp only [AckRange.before, Bool.or_eq_true, Bool.and_eq_true, decide_eq_true_eq, beq_iff_eq]
    omega⟩
  refine (List.pairwise_insertionSort _ ranges).imp fun {left right} h => ?_
  simp only [AckRange.before, Bool.or_eq_true, Bool.and_eq_true, decide_eq_true_eq,
    beq_iff_eq] at h
  omega

theorem mergeRange_stop {merged : List AckRange} {range : AckRange} {bound : Nat}
    (hm : ∀ m ∈ merged, bound ≤ m.stop) (hr : bound ≤ range.stop) :
    ∀ m ∈ mergeRange merged range, bound ≤ m.stop := by
  intro m hmem
  unfold mergeRange at hmem
  split at hmem
  · rw [List.mem_singleton] at hmem
    exact hmem ▸ hr
  · next previous rest =>
      split at hmem
      · rcases List.mem_cons.1 hmem with rfl | h
        · exact le_trans hr (le_max_right _ _)
        · exact hm m (List.mem_cons_of_mem _ h)
      · rcases List.mem_cons.1 hmem with rfl | h
        · exact hr
        · exact hm m h

theorem mem_foldl_mergeRange (ranges merged : List AckRange)
    (hsorted : ranges.Pairwise fun left right => right.stop ≤ left.stop)
    (hbefore : ∀ r ∈ ranges, ∀ m ∈ merged, r.stop ≤ m.stop) {r : AckRange} {n : Nat}
    (h : r ∈ ranges.foldl mergeRange merged) (hn : r.contains n = true) :
    (∃ m ∈ merged, m.contains n = true) ∨ ∃ r ∈ ranges, r.contains n = true := by
  induction ranges generalizing merged with
  | nil => exact .inl ⟨r, h, hn⟩
  | cons range rest ih =>
      obtain ⟨hfirst, hrest⟩ := List.pairwise_cons.1 hsorted
      have hb : ∀ r ∈ rest, ∀ m ∈ mergeRange merged range, r.stop ≤ m.stop := fun r hr =>
        mergeRange_stop (hbefore r (List.mem_cons_of_mem _ hr)) (hfirst r hr)
      rcases ih (mergeRange merged range) hrest hb h with ⟨m, hm, hin⟩ | ⟨r', hr', hin⟩
      · rcases mem_mergeRange hm hin (hbefore range List.mem_cons_self) with h | h
        · exact .inl h
        · exact .inr ⟨range, List.mem_cons_self, h⟩
      · exact .inr ⟨r', List.mem_cons_of_mem _ hr', hin⟩

/-- Recording a packet adds no number but its own. -/
theorem contains_of_record {received : ReceivedPackets} {packetNumber now n : Nat}
    (h : (received.record packetNumber now).2.ranges.any (·.contains n) = true) :
    received.ranges.any (·.contains n) = true ∨ n = packetNumber := by
  unfold ReceivedPackets.record at h
  split at h
  · exact .inl h
  · obtain ⟨r, hr, hn⟩ := List.any_eq_true.1 h
    have hmem := List.mem_of_mem_take hr
    rw [mergeAdjacent, List.mem_reverse] at hmem
    rcases mem_foldl_mergeRange _ [] (sorted_insertionSort _)
      (fun _ _ m hm => absurd hm List.not_mem_nil) hmem hn
      with ⟨m, hm, _⟩ | ⟨r', hr', hin⟩
    · exact absurd hm List.not_mem_nil
    · rw [List.mem_insertionSort, List.mem_append, List.mem_singleton] at hr'
      rcases hr' with hr' | rfl
      · exact .inl (List.any_eq_true.2 ⟨r', hr', hin⟩)
      · simp only [AckRange.contains, Bool.and_eq_true, decide_eq_true_eq] at hin
        exact .inr (le_antisymm hin.2 hin.1)

/-- Merging keeps what was merged. -/
theorem contains_mergeRange (h : (∃ m ∈ merged, m.contains n = true) ∨ range.contains n = true) :
    ∃ m ∈ mergeRange merged range, m.contains n = true := by
  unfold mergeRange
  split
  · rcases h with ⟨m, hm, _⟩ | h
    · exact absurd hm List.not_mem_nil
    · exact ⟨range, List.mem_singleton_self _, h⟩
  · next previous rest =>
      split
      · have hwide : previous.contains n = true ∨ range.contains n = true →
            (⟨min previous.start range.start, max previous.stop range.stop⟩ : AckRange).contains n =
              true := by
          simp only [AckRange.contains, Bool.and_eq_true, decide_eq_true_eq]
          omega
        rcases h with ⟨m, hm, hn⟩ | h
        · rcases List.mem_cons.1 hm with rfl | hm
          · exact ⟨_, List.mem_cons_self, hwide (.inl hn)⟩
          · exact ⟨m, List.mem_cons_of_mem _ hm, hn⟩
        · exact ⟨_, List.mem_cons_self, hwide (.inr h)⟩
      · rcases h with ⟨m, hm, hn⟩ | h
        · exact ⟨m, List.mem_cons_of_mem _ hm, hn⟩
        · exact ⟨range, List.mem_cons_self, h⟩

theorem contains_foldl_mergeRange
    (h : (∃ m ∈ merged, m.contains n = true) ∨ ∃ r ∈ ranges, r.contains n = true) :
    ∃ m ∈ ranges.foldl mergeRange merged, m.contains n = true := by
  induction ranges generalizing merged with
  | nil => exact h.resolve_right fun ⟨_, hr, _⟩ => absurd hr List.not_mem_nil
  | cons range rest ih =>
      refine ih ?_
      rcases h with h | ⟨r, hr, hn⟩
      · exact .inl (contains_mergeRange (.inl h))
      · rcases List.mem_cons.1 hr with rfl | hr
        · exact .inl (contains_mergeRange (.inr hn))
        · exact .inr ⟨r, hr, hn⟩

/-! ## Ranges apart -/

/-- The range is one of packet numbers. -/
def IsRange (range : AckRange) : Prop := range.start ≤ range.stop ∧ range.stop ≤ u64Max

/-- The ranges come in descending order, and between two of them at least one
number is missing. -/
structure Descending (ranges : List AckRange) : Prop where
  valid : ∀ r ∈ ranges, IsRange r
  apart : ranges.Pairwise fun r r' => r'.stop + 1 < r.start

theorem mergeRange_apart (hvalid : ∀ m ∈ merged, IsRange m) (hrange : IsRange range)
    (hapart : merged.Pairwise fun r r' => r.stop + 1 < r'.start)
    (hbefore : ∀ m ∈ merged, range.stop ≤ m.stop) :
    (∀ m ∈ mergeRange merged range, IsRange m) ∧
      (mergeRange merged range).Pairwise fun r r' => r.stop + 1 < r'.start := by
  unfold mergeRange
  split
  · refine ⟨fun m hm => ?_, List.pairwise_singleton _ _⟩
    rw [List.mem_singleton.1 hm]
    exact hrange
  · next previous rest =>
      obtain ⟨hfirst, hrest⟩ := List.pairwise_cons.1 hapart
      have hprevious := hvalid previous List.mem_cons_self
      have hstop := hbefore previous List.mem_cons_self
      unfold IsRange at hprevious hrange
      split
      · refine ⟨fun m hm => ?_, List.pairwise_cons.2 ⟨fun m hm => ?_, hrest⟩⟩
        · rcases List.mem_cons.1 hm with rfl | hm
          · unfold IsRange
            dsimp only
            omega
          · exact hvalid m (List.mem_cons_of_mem _ hm)
        · have := hfirst m hm
          dsimp only
          omega
      · next hlt =>
          have hgap : range.stop + 1 < previous.start := by
            unfold saturatingAdd at hlt
            omega
          refine ⟨fun m hm => ?_, List.pairwise_cons.2 ⟨fun m hm => ?_, hapart⟩⟩
          · rcases List.mem_cons.1 hm with rfl | hm
            · exact hrange
            · exact hvalid m hm
          · rcases List.mem_cons.1 hm with rfl | hm
            · exact hgap
            · have := hfirst m hm
              omega

theorem foldl_mergeRange_apart (hmerged : ∀ m ∈ merged, IsRange m)
    (hranges : ∀ r ∈ ranges, IsRange r) (hapart : merged.Pairwise fun r r' => r.stop + 1 < r'.start)
    (hsorted : ranges.Pairwise fun left right => right.stop ≤ left.stop)
    (hbefore : ∀ r ∈ ranges, ∀ m ∈ merged, r.stop ≤ m.stop) :
    (∀ m ∈ ranges.foldl mergeRange merged, IsRange m) ∧
      (ranges.foldl mergeRange merged).Pairwise fun r r' => r.stop + 1 < r'.start := by
  induction ranges generalizing merged with
  | nil => exact ⟨hmerged, hapart⟩
  | cons range rest ih =>
      obtain ⟨hfirst, hrest⟩ := List.pairwise_cons.1 hsorted
      obtain ⟨hvalid, happly⟩ := mergeRange_apart hmerged (hranges range List.mem_cons_self) hapart
        (hbefore range List.mem_cons_self)
      exact ih hvalid (fun r hr => hranges r (List.mem_cons_of_mem _ hr)) happly hrest fun r hr =>
        mergeRange_stop (hbefore r (List.mem_cons_of_mem _ hr)) (hfirst r hr)

namespace ReceivedPackets

/-- The ranges with the number as one of them, in order. -/
def sortedWith (received : ReceivedPackets) (packetNumber : Nat) : List AckRange :=
  let single : AckRange := ⟨packetNumber, packetNumber⟩
  (received.ranges ++ [single]).insertionSort fun left right => left.before right

/-- The ranges with the number put in, before the lowest are cut off. -/
def widened (received : ReceivedPackets) (packetNumber : Nat) : List AckRange :=
  mergeAdjacent (received.sortedWith packetNumber)

/-- The number is there already, or there is room for the ranges with it. -/
def Fits (received : ReceivedPackets) (packetNumber : Nat) : Prop :=
  received.contains packetNumber = true ∨
    (received.widened packetNumber).length ≤ maxAckRanges

end ReceivedPackets

/-- The ranges with a number put in hold that number and what they held. -/
theorem contains_widened {packetNumber : Nat} :
    (received.widened packetNumber).any (·.contains n) = true ↔
      received.contains n = true ∨ n = packetNumber := by
  have hsingle : (⟨packetNumber, packetNumber⟩ : AckRange).contains n = true ↔
      n = packetNumber := by
    simp only [AckRange.contains, Bool.and_eq_true, decide_eq_true_eq]
    omega
  have hmem : (∃ r ∈ received.sortedWith packetNumber, r.contains n = true) ↔
        received.contains n = true ∨ n = packetNumber := by
    simp only [ReceivedPackets.sortedWith, List.mem_insertionSort, List.mem_append,
      List.mem_singleton, or_and_right, exists_or, exists_eq_left, hsingle,
      ReceivedPackets.contains, List.any_eq_true]
  unfold ReceivedPackets.widened mergeAdjacent
  simp only [List.any_eq_true, List.mem_reverse]
  rw [← hmem]
  constructor
  · intro h
    obtain ⟨r, hr, hn⟩ := h
    refine (mem_foldl_mergeRange _ [] (sorted_insertionSort _)
      (fun _ _ m hm => absurd hm List.not_mem_nil) hr hn).resolve_left fun h => ?_
    obtain ⟨m, hm, _⟩ := h
    exact absurd hm List.not_mem_nil
  · intro h
    exact contains_foldl_mergeRange (.inr h)

theorem descending_widened {packetNumber : Nat} (h : Descending received.ranges)
    (hn : packetNumber ≤ u64Max) : Descending (received.widened packetNumber) := by
  have hvalid : ∀ r ∈ received.sortedWith packetNumber, IsRange r := by
    intro r hr
    rw [ReceivedPackets.sortedWith, List.mem_insertionSort, List.mem_append,
      List.mem_singleton] at hr
    rcases hr with hr | rfl
    · exact h.valid r hr
    · exact ⟨le_rfl, hn⟩
  have hnil : ∀ m ∈ ([] : List AckRange), IsRange m := fun _ hm => absurd hm List.not_mem_nil
  obtain ⟨hmerged, happly⟩ := foldl_mergeRange_apart hnil hvalid .nil (sorted_insertionSort _)
    fun _ _ _ hm => absurd hm List.not_mem_nil
  refine ⟨fun r hr => hmerged r (List.mem_reverse.1 hr), ?_⟩
  exact List.pairwise_reverse.2 happly

/-- The end of the first range is the largest number there is. -/
theorem Descending.head_iff (h : Descending ranges) :
    ranges.head?.map (·.stop) = some n ↔
      ranges.any (·.contains n) = true ∧
        ∀ m, ranges.any (·.contains m) = true → m ≤ n := by
  simp only [List.any_eq_true]
  cases ranges with
  | nil => simp
  | cons first rest =>
      have hfirst := h.valid first List.mem_cons_self
      have hstop : first.contains first.stop = true := by
        simp only [AckRange.contains, Bool.and_eq_true, decide_eq_true_eq]
        exact ⟨hfirst.1, le_rfl⟩
      have hmax : ∀ m, (∃ r ∈ first :: rest, r.contains m = true) → m ≤ first.stop := by
        intro m hm
        obtain ⟨r, hr, hm⟩ := hm
        simp only [AckRange.contains, Bool.and_eq_true, decide_eq_true_eq] at hm
        rcases List.mem_cons.1 hr with rfl | hr
        · exact hm.2
        · have := (List.pairwise_cons.1 h.apart).1 r hr
          have := hfirst.1
          omega
      rw [List.head?_cons, Option.map_some, Option.some.injEq]
      constructor
      · intro heq
        rw [← heq]
        exact ⟨⟨first, List.mem_cons_self, hstop⟩, hmax⟩
      · intro hn
        exact le_antisymm (hn.2 first.stop ⟨first, List.mem_cons_self, hstop⟩) (hmax n hn.1)

/-! ## Recording -/

theorem record_ranges {packetNumber now : Nat} :
    (received.record packetNumber now).2.ranges =
      if received.contains packetNumber then received.ranges
      else (received.widened packetNumber).take maxAckRanges := by
  unfold ReceivedPackets.record
  split
  · rfl
  · rfl

/-- A number that fits is kept with what was there. -/
theorem contains_record {packetNumber now : Nat} (h : received.Fits packetNumber) :
    (received.record packetNumber now).2.contains n = true ↔
      received.contains n = true ∨ n = packetNumber := by
  rw [ReceivedPackets.contains, record_ranges]
  split
  · next hin =>
      refine ⟨.inl, fun h => ?_⟩
      rcases h with h | rfl
      · exact h
      · exact hin
  · next hnot =>
      rw [List.take_of_length_le (h.resolve_left hnot)]
      exact contains_widened

theorem Descending.take (h : Descending ranges) (count : Nat) : Descending (ranges.take count) :=
  ⟨fun r hr => h.valid r (List.mem_of_mem_take hr), h.apart.take⟩

/-- Cutting off the lowest ranges leaves one with a number as large as any. -/
theorem Descending.exists_ge (h : Descending ranges) {count : Nat} (hcount : count ≠ 0)
    (hn : ranges.any (·.contains n) = true) :
    ∃ m, (ranges.take count).any (·.contains m) = true ∧ n ≤ m := by
  cases ranges with
  | nil => cases hn
  | cons first rest =>
      obtain ⟨hin, hmax⟩ := h.head_iff.1
        (rfl : (first :: rest).head?.map (·.stop) = some first.stop)
      have hfirst := h.valid first List.mem_cons_self
      refine ⟨first.stop, List.any_eq_true.2 ⟨first, ?_, ?_⟩, hmax n hn⟩
      · obtain ⟨count, rfl⟩ := Nat.exists_eq_succ_of_ne_zero hcount
        exact List.mem_cons_self
      · simp only [AckRange.contains, Bool.and_eq_true, decide_eq_true_eq]
        exact ⟨hfirst.1, le_rfl⟩

/-- What the ranges say of the numbers recorded so far. -/
structure Reflects (received : ReceivedPackets) (numbers : List Nat) : Prop where
  descending : Descending received.ranges
  length : received.ranges.length ≤ maxAckRanges
  only : ∀ n, received.contains n = true → n ∈ numbers
  bounded : ∀ n ∈ numbers, ∃ m, received.contains m = true ∧ n ≤ m

variable {numbers : List Nat}

theorem reflects_new : Reflects {} [] :=
  ⟨⟨fun _ h => absurd h List.not_mem_nil, .nil⟩, Nat.zero_le _, nofun,
    fun _ h => absurd h List.not_mem_nil⟩

theorem Reflects.record (h : Reflects received numbers) {packetNumber : Nat} (now : Nat)
    (hn : packetNumber ≤ u64Max) :
    Reflects (received.record packetNumber now).2 (numbers ++ [packetNumber]) := by
  by_cases hin : received.contains packetNumber = true
  · have hsame : (received.record packetNumber now).2 = received := by
      unfold ReceivedPackets.record
      rw [if_pos hin]
    rw [hsame]
    refine ⟨h.descending, h.length, fun n hn => List.mem_append_left _ (h.only n hn),
      fun n hn => ?_⟩
    rcases List.mem_append.1 hn with hn | hn
    · exact h.bounded n hn
    · rw [List.mem_singleton.1 hn]
      exact ⟨packetNumber, hin, le_rfl⟩
  · have hranges := @record_ranges received packetNumber now
    rw [if_neg hin] at hranges
    have hwide := descending_widened h.descending hn
    have hcount : maxAckRanges ≠ 0 := by decide
    refine ⟨?_, ?_, fun n hn => ?_, fun n hn => ?_⟩
    · rw [hranges]
      exact hwide.take _
    · rw [hranges]
      exact List.length_take_le _ _
    · rcases contains_of_record hn with hn | rfl
      · exact List.mem_append_left _ (h.only n hn)
      · exact List.mem_append_right _ (List.mem_singleton_self _)
    · have hge : ∃ m, (received.widened packetNumber).any (·.contains m) = true ∧ n ≤ m := by
        rcases List.mem_append.1 hn with hn | hn
        · obtain ⟨m, hm, hle⟩ := h.bounded n hn
          exact ⟨m, contains_widened.2 (.inl hm), hle⟩
        · exact ⟨packetNumber, contains_widened.2 (.inr rfl), (List.mem_singleton.1 hn).le⟩
      obtain ⟨m, hm, hle⟩ := hge
      obtain ⟨m', hm', hle'⟩ := hwide.exists_ge hcount hm
      refine ⟨m', ?_, hle.trans hle'⟩
      rw [ReceivedPackets.contains, hranges]
      exact hm'

/-- The end of the first range is the largest number recorded. -/
theorem Reflects.largest_iff (h : Reflects received numbers) :
    received.ranges.head?.map (·.stop) = some n ↔ n ∈ numbers ∧ ∀ m ∈ numbers, m ≤ n := by
  rw [h.descending.head_iff]
  constructor
  · intro hn
    refine ⟨h.only n hn.1, fun m hm => ?_⟩
    obtain ⟨m', hm', hle⟩ := h.bounded m hm
    exact hle.trans (hn.2 m' hm')
  · intro hn
    obtain ⟨m, hm, hle⟩ := h.bounded n hn.1
    have heq : m = n := le_antisymm (hn.2 m (h.only m hm)) hle
    rw [← heq]
    exact ⟨hm, fun k hk => (hn.2 k (h.only k hk)).trans hle⟩

/-! ## The frame -/

theorem descends_of_descending {previous : Option AckRange} (h : Descending ranges)
    (hprevious : ∀ p ∈ previous, ∀ r ∈ ranges, r.stop + 1 < p.start) :
    descends previous ranges = true := by
  induction ranges generalizing previous with
  | nil => rfl
  | cons range rest ih =>
      obtain ⟨hfirst, hrest⟩ := List.pairwise_cons.1 h.apart
      have hvalid := h.valid range List.mem_cons_self
      have htail : descends (some range) rest = true :=
        ih ⟨fun r hr => h.valid r (List.mem_cons_of_mem _ hr), hrest⟩ fun p hp r hr => by
          cases hp
          exact hfirst r hr
      unfold descends
      rw [if_neg (Nat.not_lt.2 hvalid.1)]
      cases previous with
      | none => exact htail
      | some p =>
          have hgap := hprevious p rfl range List.mem_cons_self
          have hsat := saturatingAdd_le range.stop 1
          dsimp only
          rw [if_neg]
          · exact htail
          · simp only [Bool.or_eq_true, Bool.and_eq_true, decide_eq_true_eq, not_or, not_and]
            exact ⟨by omega, fun _ => by omega⟩

/-- Ranges that are apart and in descending order are what an ACK takes. -/
theorem ackRanges_of_descending (h : Descending ranges) (hne : ranges ≠ [])
    (hlen : ranges.length ≤ maxAckRanges) : ackRanges ranges = .ok ranges := by
  have hsorted : ranges.Pairwise fun left right => left.before right = true :=
    h.apart.imp_of_mem fun {left right} hl _ hlt => by
      have hvalid := (h.valid left hl).1
      simp only [AckRange.before, Bool.or_eq_true, decide_eq_true_eq]
      omega
  have hempty : ranges.isEmpty = false := List.isEmpty_eq_false_iff.2 hne
  unfold ackRanges fromDescending
  rw [hsorted.insertionSort_eq, hempty,
    descends_of_descending h fun _ hp => absurd hp (Option.not_mem_none _),
    if_neg (Nat.not_lt.2 hlen)]
  rfl

/-- The frame of some ranges carries them as they are. -/
theorem frame_of_descending (h : Descending received.ranges) (hne : received.ranges ≠ [])
    (hlen : received.ranges.length ≤ maxAckRanges) {now ackDelay : Nat}
    (hdelay : asMicros ackDelay ≤ u64Max) :
    ∃ ack, received.frame now ackDelay = .ok (some ack) ∧ ack.validate = .ok () ∧
      ack.ranges = received.ranges ∧ ack.ackDelay ≤ ackDelay ∧
      received.ranges.head?.map (·.stop) = some ack.largest := by
  have hempty : received.ranges.isEmpty = false := List.isEmpty_eq_false_iff.2 hne
  obtain ⟨delay, hle, hframe⟩ : ∃ delay, delay ≤ ackDelay ∧
      received.frame now ackDelay = (do
        return some (← AckFrame.new delay (← ackRanges received.ranges))) := by
    unfold ReceivedPackets.frame
    rw [hempty]
    cases received.largestReceivedAt with
    | none => exact ⟨0, Nat.zero_le _, rfl⟩
    | some receivedAt => exact ⟨_, Nat.min_le_right _ _, rfl⟩
  rw [hframe, ackRanges_of_descending h hne hlen]
  cases hranges : received.ranges with
  | nil => exact absurd hranges hne
  | cons first rest =>
      have hmicros : asMicros delay ≤ asMicros ackDelay := Nat.div_le_div_right hle
      have hvalid : AckFrame.validate ⟨first.stop, delay, first :: rest⟩ = .ok () := by
        unfold AckFrame.validate
        dsimp only
        rw [if_neg (not_not.2 rfl), if_neg (by omega)]
      have hnew : AckFrame.new delay (first :: rest) = .ok ⟨first.stop, delay, first :: rest⟩ := by
        unfold AckFrame.new
        dsimp only
        rw [hvalid]
        rfl
      refine ⟨⟨first.stop, delay, first :: rest⟩, ?_, hvalid, rfl, hle, rfl⟩
      show (AckFrame.new delay (first :: rest) >>= fun ack => pure (some ack)) = _
      rw [hnew]
      rfl

/-! ## Any packets, in any order -/

/-- A packet is recorded, with the time at which it came in. -/
def recordOne (received : ReceivedPackets) (packet : UInt64 × Nat) : ReceivedPackets :=
  (received.record packet.1.toNat packet.2).2

theorem reflects_all (records : List (UInt64 × Nat)) :
    Reflects (records.foldl recordOne {}) (records.map (·.1.toNat)) := by
  induction records using List.reverseRecOn with
  | nil => exact reflects_new
  | append_singleton records packet ih =>
      rw [List.foldl_append, List.map_append]
      exact ih.record packet.2 (Nat.le_of_lt_succ packet.1.toNat_lt)

theorem contains_all {records : List (UInt64 × Nat)} {received : ReceivedPackets}
    {numbers : List Nat} (hstart : ∀ n ∈ numbers, received.contains n = true)
    (h : Meets recordOne (fun received packet => received.Fits packet.1.toNat) received records) :
    ∀ n ∈ numbers ++ records.map (·.1.toNat),
      (records.foldl recordOne received).contains n = true := by
  induction records generalizing received numbers with
  | nil =>
      intro n hn
      rw [List.map_nil, List.append_nil] at hn
      exact hstart n hn
  | cons packet records ih =>
      intro n hn
      have hstep : ∀ n ∈ numbers ++ [packet.1.toNat],
          (recordOne received packet).contains n = true := by
        intro n hn
        rcases List.mem_append.1 hn with hn | hn
        · exact (contains_record h.1).2 (.inl (hstart n hn))
        · exact (contains_record h.1).2 (.inr (List.mem_singleton.1 hn))
      refine ih hstep h.2 n ?_
      rw [List.append_assoc]
      exact hn

/-- After any packets, the ranges are apart and in descending order, at most 32,
hold nothing but recorded numbers, and all of them when no record needed more;
the first ends with the largest of them, and they make a valid ACK. -/
theorem received_ranges (records : List (UInt64 × Nat)) :
    let received := records.foldl recordOne {}
    Descending received.ranges ∧ received.ranges.length ≤ maxAckRanges ∧
      (∀ n, received.contains n = true → n ∈ records.map (·.1.toNat)) ∧
      (Meets recordOne (fun received packet => received.Fits packet.1.toNat) {} records →
        ∀ n ∈ records.map (·.1.toNat), received.contains n = true) ∧
      (∀ n, received.ranges.head?.map (·.stop) = some n ↔
        n ∈ records.map (·.1.toNat) ∧ ∀ m ∈ records.map (·.1.toNat), m ≤ n) ∧
      ∀ now ackDelay, asMicros ackDelay < 2 ^ 62 →
        ∃ ack, received.frame now ackDelay = .ok ack ∧ (ack = none ↔ records = []) ∧
          ∀ a ∈ ack, a.validate = .ok () ∧ a.ranges = received.ranges := by
  intro received
  have h := reflects_all records
  refine ⟨h.descending, h.length, h.only, fun hfits => ?_, fun n => h.largest_iff,
    fun now ackDelay hdelay => ?_⟩
  · exact @contains_all records _ [] (fun _ hn => absurd hn List.not_mem_nil) hfits
  · have hnone : received.ranges = [] ↔ records = [] := by
      constructor
      · intro hempty
        cases records with
        | nil => rfl
        | cons packet rest =>
            obtain ⟨m, hm, _⟩ := h.bounded packet.1.toNat List.mem_cons_self
            rw [ReceivedPackets.contains, hempty] at hm
            cases hm
      · intro hempty
        simp only [received, hempty]
        rfl
    by_cases hempty : received.ranges = []
    · refine ⟨none, ?_, iff_of_true rfl (hnone.1 hempty), nofun⟩
      unfold ReceivedPackets.frame
      rw [hempty]
      rfl
    · have hmax : asMicros ackDelay ≤ u64Max := by
        unfold u64Max
        omega
      obtain ⟨ack, hframe, hvalid, hranges, _⟩ :=
        @frame_of_descending _ h.descending hempty h.length now _ hmax
      refine ⟨some ack, hframe, iff_of_false nofun (mt hnone.2 hempty), fun a ha => ?_⟩
      cases ha
      exact ⟨hvalid, hranges⟩

/-- Three packets that leave gaps are all kept, and acknowledged. -/
theorem received_ranges_of_gaps :
    ([(5, 0), (3, 1), (9, 2)].foldl recordOne {}).contains 3 = true ∧
      ∃ ack, ([(5, 0), (3, 1), (9, 2)].foldl recordOne {}).frame 2 1000 = .ok ack ∧ ack ≠ none := by
  obtain ⟨-, -, -, hall, -, hframe⟩ := received_ranges [(5, 0), (3, 1), (9, 2)]
  refine ⟨hall ⟨.inr (by decide), .inr (by decide), .inr (by decide), trivial⟩ 3 (by decide), ?_⟩
  obtain ⟨ack, hack, hnone, -⟩ := hframe 2 1000 (by decide)
  exact ⟨ack, hack, fun h => absurd (hnone.1 h) (by decide)⟩

end DartUdp.Core
