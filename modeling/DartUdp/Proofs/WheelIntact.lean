import DartUdp.Proofs.WheelOrder

/-!
# The representation invariant of the wheel

`Intact` is what the wheel's own debug assertions check, in the wheel's own
fields: the lists of the slots, the positions the entries record, and the heap.
It holds of every wheel that operations reach, and it is why no operation ever
answers `invariantViolation`: each looks up what the invariant says is there.

An advance may find the live keys in any order the slot map likes, so a wheel is
`Reached` whatever the order was in each advance on the way.

`Sound.intact` gets it from the invariant of the refinement, and `wheel_intact` says
it of every wheel that is reached.
-/

namespace DartUdp.TimeWheel

open DartUdp.Lib

variable {T : Type}

/-- The wheels that operations lead to. -/
inductive Reached (cfg : WheelConfig) : Wheel T → Prop
  | new (order : KeyOrder) : Reached cfg (Wheel.new cfg order)
  | step {w : Wheel T} (op : Op T) : Reached cfg w → Reached cfg (w.step op).2
  | advance {w : Wheel T} {keys : List Nat} (elapsed : Nat) (expired : List (Expired T)) :
      Reached cfg w → Enumerates w keys → Reached cfg (after (advanceAlong keys elapsed expired) w)

/-- The lists and the heap hold exactly the live timers, each where its entry
says it is. -/
structure Intact (w : Wheel T) : Prop where
  /-- The links spell out one list for each slot, of the timers that record it. -/
  lists : ∃ members : Nat → Nat → List Nat,
    (∀ l s, IsDll w.prevOf w.nextOf (w.slotAt l s).head (w.slotAt l s).tail (members l s)) ∧
    ∀ l s k, k ∈ members l s ↔ w.posOf k = some (l, s)
  slots : ∀ k l s, w.posOf k = some (l, s) → w.HasSlot l s
  heap : (w.deadlineHeap.map (·.key)).Perm w.tasks.keys
  indices : ∀ k e, w.tasks.get? k = some e →
    w.deadlineHeap[e.heapIndex]? = some ⟨k, e.deadlineTick⟩
  ordered : ∀ i child parent, i ≠ 0 → w.deadlineHeap[i]? = some child →
    w.deadlineHeap[(i - 1) / 2]? = some parent → nodeRank parent ≤ nodeRank child

section Reach

variable {b : WheelConfigBuilder} {cfg : WheelConfig} {w w' : Wheel T}

/-- A wheel that operations reach stands for some timer map, and its heap is in
order. -/
theorem Reached.shows (h : b.build = .ok cfg) (hw : Reached cfg w) :
    (∃ m, Shows cfg.baseTickNanos w m) ∧ Heaped w := by
  induction hw with
  | new order => exact ⟨⟨_, shows_new order h⟩, heaped_new cfg order⟩
  | step op _ ih =>
      obtain ⟨⟨m, hm⟩, hheap⟩ := ih
      obtain ⟨m', _, hm'⟩ := step_shows hm op
      exact ⟨⟨m', hm'⟩, step_heaped hm hheap op⟩
  | advance elapsed expired _ henum ih =>
      obtain ⟨⟨m, hm⟩, hheap⟩ := ih
      refine ⟨?_, advanceAlong_heaped hm hheap henum elapsed expired⟩
      rcases advanceAlong_allowed hm henum elapsed expired with
        ⟨w', xs, report, hrun, _, hm'⟩ | ⟨error, hrun, _⟩
      · rw [after, hrun]
        exact ⟨_, hm'⟩
      · rw [after, hrun]
        exact ⟨m, hm⟩

end Reach

/-! ## The invariant holds -/

section Holds

variable {base : Nat} {w : Wheel T} {m : TimerMap T} {bound : Nat → Nat}

/-- The nodes carry the keys and the deadlines of their tasks. -/
theorem heap_node (hs : HeapSync w []) (hheap : Heaped w) {i : Nat} {nd : DeadlineNode}
    (hnd : w.deadlineHeap[i]? = some nd) :
    ∃ e, w.tasks.get? nd.key = some e ∧ e.heapIndex = i ∧ e.deadlineTick = nd.deadlineTick := by
  obtain ⟨_, e, he, hi⟩ := hs.node i nd hnd
  refine ⟨e, he, hi, ?_⟩
  apply hheap.agrees nd (List.mem_of_getElem? hnd)
  simp [Wheel.deadlineOf, he]

theorem heap_index (hs : HeapSync w []) (hheap : Heaped w) {k : Nat} {e : WheelEntry T}
    (he : w.tasks.get? k = some e) : w.deadlineHeap[e.heapIndex]? = some ⟨k, e.deadlineTick⟩ := by
  obtain ⟨nd, hnd, hkey⟩ := hs.task k e he List.not_mem_nil
  obtain ⟨e', he', _, hdeadline⟩ := heap_node hs hheap hnd
  rw [hkey, he] at he'
  cases he'
  rw [hnd, hdeadline, ← hkey]

theorem heap_keys (hs : HeapSync w []) : (w.deadlineHeap.map (·.key)).Perm w.tasks.keys := by
  refine (List.perm_ext_iff_of_nodup ?_ w.tasks.nodup_keys).2 fun k => ?_
  · refine List.nodup_iff_getElem?_ne_getElem?.2 fun i j hij hj => ?_
    rw [List.length_map] at hj
    rw [List.getElem?_map, List.getElem?_map, List.getElem?_eq_getElem hj,
      List.getElem?_eq_getElem (hij.trans hj)]
    intro heq
    exact hs.key_ne (List.getElem?_eq_getElem (hij.trans hj)) (List.getElem?_eq_getElem hj)
      hij.ne (Option.some.inj heq)
  · rw [SlotMap.mem_keys, List.mem_map]
    constructor
    · rintro ⟨nd, hnd, rfl⟩
      obtain ⟨i, hi⟩ := List.getElem?_of_mem hnd
      obtain ⟨_, e, he, _⟩ := hs.node i nd hi
      rw [he]
      rfl
    · intro hk
      obtain ⟨e, he⟩ := Option.isSome_iff_exists.1 hk
      obtain ⟨nd, hnd, hkey⟩ := hs.task k e he List.not_mem_nil
      exact ⟨nd, List.mem_of_getElem? hnd, hkey⟩

theorem Sound.intact (h : Sound w (fun _ => False) bound) (hheap : Heaped w) : Intact w := by
  obtain ⟨members, hl⟩ := h.lists
  have hmember : ∀ l s k, k ∈ members l s ↔ w.posOf k = some (l, s) := fun l s k =>
    ⟨fun hk => (hl.linked l s k hk).2, fun hp => hl.task k l s hp id⟩
  refine ⟨⟨members, hl.dll, hmember⟩, fun k l s hp => ?_, heap_keys h.sync,
    fun k e he => heap_index h.sync hheap he, ?_⟩
  · obtain ⟨e, he, _⟩ := Option.map_eq_some_iff.1 hp
    obtain ⟨lv, hlv, hslot, _⟩ := h.placed k l s _ _ hp (timer_eq he) id
    exact hasSlot_iff.2 ⟨lv, hlv, hslot ▸ Nat.mod_lt _ (h.geometry.count_pos l lv hlv)⟩
  · intro i child parent hi hchild hparent
    exact hheap.ordered i hi parent hparent child hchild

end Holds

/-! ## What follows from it -/

section Answers

variable {base : Nat} {w w' : Wheel T} {m : TimerMap T}

/-- A node of the heap is the node of its task. -/
theorem Intact.node (h : Intact w) {nd : DeadlineNode} (hnd : nd ∈ w.deadlineHeap) :
    ∃ e, w.tasks.get? nd.key = some e ∧ e.deadlineTick = nd.deadlineTick := by
  have hmem : nd.key ∈ w.tasks.keys := h.heap.mem_iff.1 (List.mem_map_of_mem hnd)
  obtain ⟨e, he⟩ := Option.isSome_iff_exists.1 ((w.tasks.mem_keys _).1 hmem)
  -- No two nodes have one key, so the one at the recorded index is `nd`.
  have hnodup : (w.deadlineHeap.map (·.key)).Nodup := h.heap.nodup_iff.2 w.tasks.nodup_keys
  have hsame :=
    List.inj_on_of_nodup_map hnodup (List.mem_of_getElem? (h.indices nd.key e he)) hnd rfl
  exact ⟨e, he, congrArg DeadlineNode.deadlineTick hsame⟩

/-- The head of the heap is looked up where it is. -/
theorem Intact.nextDeadline_eq (h : Intact w) :
    w.nextDeadline = match w.deadlineHeap.head? with
      | none => .ok none
      | some nd => (w.durationUntilTick nd.deadlineTick).map some := by
  have hlen : w.deadlineHeap.length = w.tasks.len := by
    rw [← w.tasks.length_keys, ← h.heap.length_eq, List.length_map]
  unfold Wheel.nextDeadline
  cases hhead : w.deadlineHeap.head? with
  | none =>
      have hnil := List.head?_eq_none_iff.1 hhead
      rw [hnil] at hlen
      exact if_pos hlen.symm
  | some nd =>
      obtain ⟨e, he, hdeadline⟩ := h.node (List.mem_of_head? hhead)
      dsimp only
      rw [he]
      exact if_neg (not_not.2 hdeadline)

theorem Intact.nextDeadline_error (h : Intact w) {error : TimerError}
    (hrun : w.nextDeadline = .error error) : error = .deadlineOverflow := by
  rw [h.nextDeadline_eq] at hrun
  split at hrun
  · cases hrun
  · unfold Wheel.durationUntilTick at hrun
    split at hrun
    · cases hrun
    · dsimp only at hrun
      split at hrun
      · cases hrun
        rfl
      · split at hrun
        · cases hrun
          rfl
        · cases hrun

/-- A live timer is cancelled with its item, any other id answers nothing. -/
theorem cancel_answers (h : Shows base w m) (id : Nat) :
    ∃ w', cancel id w = .ok ((w.tasks.get? id).map (·.item)) w' ∧
      (w.tasks.get? id = none → w' = w) := by
  cases he : w.tasks.get? id with
  | none => exact ⟨w, cancel_stale he, fun _ => rfl⟩
  | some e =>
      obtain ⟨w', hrun, _⟩ := cancelTask_ok h.sound he
      exact ⟨w', cancel_live hrun, fun hnone => by cases hnone⟩

end Answers

/-- For every configuration `build` answers and every wheel operations reach:
the lists and the heap are intact. So no operation finds them broken, one that
fails leaves the wheel as it was, and cancelling a live timer answers its
item. -/
theorem wheel_intact {b : WheelConfigBuilder} {cfg : WheelConfig} {w : Wheel T}
    (h : b.build = .ok cfg) (hw : Reached cfg w) :
    Intact w ∧
    (∀ item delay error w', insert item delay w = .error error w' →
      error ≠ .invariantViolation ∧ w' = w) ∧
    (∀ id delay error w', reschedule id delay w = .error error w' →
      error ≠ .invariantViolation ∧ w' = w) ∧
    (∀ keys elapsed expired error w', Enumerates w keys →
      advanceAlong keys elapsed expired w = .error error w' →
      error ≠ .invariantViolation ∧ w' = w) ∧
    w.nextDeadline ≠ .error .invariantViolation ∧
    ∀ id, ∃ w', cancel id w = .ok ((w.tasks.get? id).map (·.item)) w' ∧
      (w.tasks.get? id = none → w' = w) := by
  obtain ⟨⟨m, hm⟩, hheap⟩ := hw.shows h
  have hintact := hm.sound.intact hheap
  refine ⟨hintact, fun item delay error w' hrun => ?_, fun id delay error w' hrun => ?_,
    fun keys elapsed expired error w' henum hrun => ?_, fun hrun => ?_, cancel_answers hm⟩
  · obtain ⟨hw', rfl⟩ := insert_error hm hrun
    exact ⟨by decide, hw'⟩
  · obtain ⟨hw', rfl | rfl⟩ := reschedule_error hm hrun
    · exact ⟨by decide, hw'⟩
    · exact ⟨by decide, hw'⟩
  · obtain ⟨hw', rfl | rfl⟩ := advanceAlong_error hm henum hrun
    · exact ⟨by decide, hw'⟩
    · exact ⟨by decide, hw'⟩
  · cases hintact.nextDeadline_error hrun

/-- Two levels of two slots and a tick of 10 ns, once a timer of 25 ns is set. -/
theorem wheel_intact_small :
    (WheelConfigBuilder.build ⟨10, [2, 2]⟩ = .ok ⟨10, 10, [⟨1, 2, 2, 1⟩, ⟨2, 4, 2, 1⟩], 4⟩) ∧
      Intact ((Wheel.new ⟨10, 10, [⟨1, 2, 2, 1⟩, ⟨2, 4, 2, 1⟩], 4⟩ .byAge : Wheel Char).step
        (.insert 'a' 25)).2 :=
  ⟨rfl, (wheel_intact (b := ⟨10, [2, 2]⟩) rfl (.step (.insert 'a' 25) (.new _))).1⟩

end DartUdp.TimeWheel
