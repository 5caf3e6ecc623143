import DartUdp.TimeWheel.Wheel

/-!
# The deadline heap stays in step with the tasks

Every entry records where it stands in the heap, and the heap's sifts rewrite
that record as they move nodes. `HeapSync` says the two agree: each node names
a task that points back at it, and each task's position holds its node. The
sifts keep it, so none of the lookups they make can fail, and they touch
nothing of a task but its position, which is what `HeapMoved` says.

`missing` lists the tasks that are in the store but not, or no longer, in the
heap: the one an insertion is about to list, or the one a removal has just
taken out.

The results are `insertDeadline_ok`, `updateDeadline_ok` and `removeDeadline_ok`;
below them `siftUp_ok` and `siftDown_ok` are inductions over the fuel.
-/

namespace DartUdp.TimeWheel

open DartUdp.Lib

variable {T : Type}

/-- An entry without its heap position. -/
def WheelEntry.strip (e : WheelEntry T) : WheelEntry T := { e with heapIndex := 0 }

/-- `w'` differs from `w` in the heap and the recorded positions only. -/
structure HeapMoved (w w' : Wheel T) : Prop where
  tasks : ∀ k, (w'.tasks.get? k).map WheelEntry.strip = (w.tasks.get? k).map WheelEntry.strip
  next : w'.tasks.next = w.tasks.next
  levels : w'.levels = w.levels
  tick : w'.currentTick = w.currentTick
  rem : w'.remainderNanos = w.remainderNanos
  base : w'.baseTickNanos = w.baseTickNanos

namespace HeapMoved

theorem refl (w : Wheel T) : HeapMoved w w := ⟨fun _ => rfl, rfl, rfl, rfl, rfl, rfl⟩

theorem trans {w₁ w₂ w₃ : Wheel T} (h : HeapMoved w₁ w₂) (h' : HeapMoved w₂ w₃) :
    HeapMoved w₁ w₃ :=
  ⟨fun k => (h'.tasks k).trans (h.tasks k), h'.next.trans h.next, h'.levels.trans h.levels,
    h'.tick.trans h.tick, h'.rem.trans h.rem, h'.base.trans h.base⟩

/-- A task of the moved heap is a task of the first, up to its position. -/
theorem entry_eq {w w' : Wheel T} (h : HeapMoved w w') {k : Nat} {e : WheelEntry T}
    (he : w'.tasks.get? k = some e) :
    ∃ e₀, w.tasks.get? k = some e₀ ∧ e₀.strip = e.strip := by
  have := h.tasks k
  rw [he] at this
  cases hk : w.tasks.get? k with
  | none => rw [hk] at this; simp at this
  | some e₀ =>
      rw [hk] at this
      exact ⟨e₀, rfl, by simpa using this.symm⟩

theorem symm {w w' : Wheel T} (h : HeapMoved w w') : HeapMoved w' w :=
  ⟨fun k => (h.tasks k).symm, h.next.symm, h.levels.symm, h.tick.symm, h.rem.symm, h.base.symm⟩

end HeapMoved

/-- The heap and the tasks agree on who stands where. -/
structure HeapSync (w : Wheel T) (missing : List Nat) : Prop where
  node : ∀ i nd, w.deadlineHeap[i]? = some nd →
    nd.key ∉ missing ∧ ∃ e, w.tasks.get? nd.key = some e ∧ e.heapIndex = i
  task : ∀ k e, w.tasks.get? k = some e → k ∉ missing →
    ∃ nd, w.deadlineHeap[e.heapIndex]? = some nd ∧ nd.key = k

theorem HeapSync.key_ne {w : Wheel T} {m : List Nat} (h : HeapSync w m) {i j : Nat}
    {l r : DeadlineNode} (hl : w.deadlineHeap[i]? = some l) (hr : w.deadlineHeap[j]? = some r)
    (hij : i ≠ j) : l.key ≠ r.key := by
  intro heq
  obtain ⟨_, e, he, hi⟩ := h.node i l hl
  obtain ⟨_, e', he', hj⟩ := h.node j r hr
  rw [heq, he'] at he
  injection he with he
  subst he
  exact hij (hi.symm.trans hj)

theorem entry_run {w : Wheel T} {k : Nat} {e : WheelEntry T} {error : TimerError}
    (h : w.tasks.get? k = some e) : entry k error w = .ok e w := by
  simp only [entry]
  rw [bind_ok (get_run w), h]
  rfl

theorem modifyEntry_run {w : Wheel T} {k : Nat} {e : WheelEntry T}
    {f : WheelEntry T → WheelEntry T} (h : w.tasks.get? k = some e) :
    modifyEntry k f w = .ok () { w with tasks := w.tasks.modify k f } := by
  simp only [modifyEntry]
  rw [bind_ok (entry_run h)]
  rfl

theorem setIndex_run {w : Wheel T} {k i : Nat} {e : WheelEntry T}
    (h : w.tasks.get? k = some e) :
    setIndex k i w =
      .ok () { w with tasks := w.tasks.modify k fun e => { e with heapIndex := i } } :=
  modifyEntry_run h

/-- Writing a position into an entry moves nothing else. -/
theorem HeapMoved.setIndex (w : Wheel T) (nodes : List DeadlineNode) (k i : Nat) :
    HeapMoved w
      { w with
        deadlineHeap := nodes
        tasks := w.tasks.modify k fun e => { e with heapIndex := i } } := by
  refine ⟨fun k' => ?_, rfl, rfl, rfl, rfl, rfl⟩
  simp only [SlotMap.get?_modify]
  split
  · cases w.tasks.get? k' <;> rfl
  · rfl

/-! ## Swapping and sifting -/

theorem swapNodes_ok {w : Wheel T} {m : List Nat} (h : HeapSync w m) {i j : Nat}
    (hi : i < w.deadlineHeap.length) (hj : j < w.deadlineHeap.length) (hij : i ≠ j) :
    ∃ w', swapNodes i j w = .ok () w' ∧ HeapSync w' m ∧ HeapMoved w w' ∧
      w'.deadlineHeap.length = w.deadlineHeap.length := by
  have hl : w.deadlineHeap[i]? = some w.deadlineHeap[i] := List.getElem?_eq_getElem hi
  have hr : w.deadlineHeap[j]? = some w.deadlineHeap[j] := List.getElem?_eq_getElem hj
  generalize w.deadlineHeap[i] = l at hl
  generalize w.deadlineHeap[j] = r at hr
  have hne := h.key_ne hl hr hij
  obtain ⟨hml, el, hel, hli⟩ := h.node i l hl
  obtain ⟨hmr, er, her, hrj⟩ := h.node j r hr
  let nodes := (w.deadlineHeap.set i r).set j l
  let t₁ := w.tasks.modify r.key fun e => { e with heapIndex := i }
  let t₂ := t₁.modify l.key fun e => { e with heapIndex := j }
  have hel' : t₁.get? l.key = some el := by
    rw [SlotMap.get?_modify, if_neg hne, hel]
  refine ⟨{ w with deadlineHeap := nodes, tasks := t₂ }, ?_, ?_, ?_, ?_⟩
  · simp only [swapNodes]
    rw [bind_ok (get_run w)]
    simp only [hl, hr]
    rw [bind_ok (modify_run _ w)]
    have hset := setIndex_run (w := { w with deadlineHeap := nodes }) (i := i) her
    exact (bind_ok hset).trans (setIndex_run hel')
  · have hget : ∀ k, t₂.get? k =
        if k = l.key then (w.tasks.get? k).map fun e => { e with heapIndex := j }
        else if k = r.key then (w.tasks.get? k).map fun e => { e with heapIndex := i }
        else w.tasks.get? k := by
      intro k
      rw [SlotMap.get?_modify, SlotMap.get?_modify]
      by_cases hkl : k = l.key
      · rw [if_pos hkl, if_pos hkl, if_neg (by rw [hkl]; exact hne)]
      · rw [if_neg hkl, if_neg hkl]
    have hnode : ∀ x, nodes[x]? =
        if x = j then some l else if x = i then some r else w.deadlineHeap[x]? := by
      intro x
      simp only [nodes, List.getElem?_set, List.length_set]
      by_cases hxj : x = j
      · simp [hxj, hj]
      · by_cases hxi : x = i
        · simp [hxi, hi, hij, Ne.symm hij]
        · simp [hxj, hxi, Ne.symm hxj, Ne.symm hxi]
    refine ⟨fun x nd hx => ?_, fun k e hk hkm => ?_⟩
    · dsimp only at hx ⊢
      rw [hnode] at hx
      rw [hget]
      split at hx
      · next hxj =>
          injection hx with hx
          subst hx
          exact ⟨hml, { el with heapIndex := j }, by simp [hel], hxj.symm⟩
      · split at hx
        · next hxi =>
            injection hx with hx
            subst hx
            exact ⟨hmr, { er with heapIndex := i }, by simp [her, Ne.symm hne], hxi.symm⟩
        · next hxj hxi =>
            obtain ⟨hm, e, he, hex⟩ := h.node x nd hx
            have hnl : nd.key ≠ l.key := h.key_ne hx hl hxi
            have hnr : nd.key ≠ r.key := h.key_ne hx hr hxj
            exact ⟨hm, e, by simp [hnl, hnr, he], hex⟩
    · dsimp only at hk ⊢
      rw [hget] at hk
      split at hk
      · next hkl =>
          obtain ⟨e₀, he₀, rfl⟩ := Option.map_eq_some_iff.1 hk
          exact ⟨l, by rw [hnode]; simp, hkl.symm⟩
      · split at hk
        · next hkr =>
            obtain ⟨e₀, he₀, rfl⟩ := Option.map_eq_some_iff.1 hk
            exact ⟨r, by rw [hnode]; simp [hij], hkr.symm⟩
        · next hkl hkr =>
            obtain ⟨nd, hnd, hkey⟩ := h.task k e hk hkm
            refine ⟨nd, ?_, hkey⟩
            rw [hnode, if_neg, if_neg]
            · exact hnd
            · intro hx
              rw [hx, hl] at hnd
              injection hnd with hnd
              exact hkl (by rw [hnd]; exact hkey.symm)
            · intro hx
              rw [hx, hr] at hnd
              injection hnd with hnd
              exact hkr (by rw [hnd]; exact hkey.symm)
  · exact (HeapMoved.setIndex w nodes r.key i).trans
      (HeapMoved.setIndex _ nodes l.key j)
  · simp [nodes]

theorem heapLess_lt {nodes : List DeadlineNode} {i j : Nat} (h : heapLess nodes i j = true) :
    i < nodes.length ∧ j < nodes.length := by
  simp only [heapLess] at h
  split at h
  · next hl hr =>
      exact ⟨(List.getElem?_eq_some_iff.1 hl).1, (List.getElem?_eq_some_iff.1 hr).1⟩
  · cases h

theorem siftUp_ok {m : List Nat} : ∀ (fuel index : Nat) {w : Wheel T}, HeapSync w m →
    ∃ w', siftUp fuel index w = .ok () w' ∧ HeapSync w' m ∧ HeapMoved w w' ∧
      w'.deadlineHeap.length = w.deadlineHeap.length := by
  intro fuel
  induction fuel with
  | zero => intro index w h; exact ⟨w, rfl, h, .refl w, rfl⟩
  | succ fuel ih =>
      intro index w h
      simp only [siftUp]
      by_cases h0 : index ≠ 0
      · rw [if_pos h0, bind_ok (get_run w)]
        by_cases hless : heapLess w.deadlineHeap index ((index - 1) / 2) = true
        · rw [if_pos hless]
          obtain ⟨hi, hp⟩ := heapLess_lt hless
          obtain ⟨w₁, hrun, hs₁, hm₁, hl₁⟩ := swapNodes_ok h hi hp (by omega)
          obtain ⟨w₂, hrun₂, hs₂, hm₂, hl₂⟩ := ih ((index - 1) / 2) hs₁
          exact ⟨w₂, by rw [bind_ok hrun]; exact hrun₂, hs₂, hm₁.trans hm₂, hl₂.trans hl₁⟩
        · rw [if_neg hless]
          exact ⟨w, rfl, h, .refl w, rfl⟩
      · rw [if_neg h0]
        exact ⟨w, rfl, h, .refl w, rfl⟩

theorem siftDown_ok {m : List Nat} : ∀ (fuel index : Nat) {w : Wheel T}, HeapSync w m →
    ∃ w', siftDown fuel index w = .ok () w' ∧ HeapSync w' m ∧ HeapMoved w w' ∧
      w'.deadlineHeap.length = w.deadlineHeap.length := by
  intro fuel
  induction fuel with
  | zero => intro index w h; exact ⟨w, rfl, h, .refl w, rfl⟩
  | succ fuel ih =>
      intro index w h
      simp only [siftDown]
      rw [bind_ok (get_run w)]
      by_cases hleft : index * 2 + 1 < w.deadlineHeap.length
      · rw [if_pos hleft]
        generalize hchild :
          (if (decide (index * 2 + 1 + 1 < w.deadlineHeap.length) &&
              heapLess w.deadlineHeap (index * 2 + 1 + 1) (index * 2 + 1)) = true
            then index * 2 + 1 + 1 else index * 2 + 1) = child
        have hci : index ≠ child := by
          split at hchild <;> omega
        by_cases hless : heapLess w.deadlineHeap child index = true
        · rw [if_pos hless]
          obtain ⟨hc, hi⟩ := heapLess_lt hless
          obtain ⟨w₁, hrun, hs₁, hm₁, hl₁⟩ := swapNodes_ok h hi hc hci
          obtain ⟨w₂, hrun₂, hs₂, hm₂, hl₂⟩ := ih child hs₁
          exact ⟨w₂, by rw [bind_ok hrun]; exact hrun₂, hs₂, hm₁.trans hm₂, hl₂.trans hl₁⟩
        · rw [if_neg hless]
          exact ⟨w, rfl, h, .refl w, rfl⟩
      · rw [if_neg hleft]
        exact ⟨w, rfl, h, .refl w, rfl⟩

theorem sift_ok {m : List Nat} {w : Wheel T} (index : Nat) (h : HeapSync w m) :
    ∃ w', sift index w = .ok () w' ∧ HeapSync w' m ∧ HeapMoved w w' ∧
      w'.deadlineHeap.length = w.deadlineHeap.length := by
  simp only [sift]
  rw [bind_ok (get_run w)]
  split
  · exact siftUp_ok _ _ h
  · exact siftDown_ok _ _ h

/-! ## The three operations of the heap -/

/-- Writes that leave the heap and the recorded positions alone keep the two in
step. -/
theorem HeapSync.congr {w w' : Wheel T} {m : List Nat} (h : HeapSync w m)
    (hheap : w'.deadlineHeap = w.deadlineHeap)
    (htasks : ∀ k, (w'.tasks.get? k).map (·.heapIndex) = (w.tasks.get? k).map (·.heapIndex)) :
    HeapSync w' m := by
  refine ⟨fun i nd hi => ?_, fun k e hk hkm => ?_⟩
  · rw [hheap] at hi
    obtain ⟨hm, e, he, hei⟩ := h.node i nd hi
    have := htasks nd.key
    rw [he] at this
    obtain ⟨e', he', hei'⟩ := Option.map_eq_some_iff.1 this
    exact ⟨hm, e', he', hei'.trans hei⟩
  · have := htasks k
    rw [hk] at this
    obtain ⟨e', he', hei'⟩ := Option.map_eq_some_iff.1 this.symm
    obtain ⟨nd, hnd, hkey⟩ := h.task k e' he' hkm
    exact ⟨nd, by rw [hheap, ← show e'.heapIndex = e.heapIndex from hei']; exact hnd, hkey⟩

/-- A task the heap does not list may leave the store. -/
theorem HeapSync.remove {w : Wheel T} {key : Nat} (h : HeapSync w [key]) :
    HeapSync { w with tasks := w.tasks.remove key } [] := by
  refine ⟨fun i nd hi => ?_, fun k e hk _ => ?_⟩
  · obtain ⟨hm, e, he, hei⟩ := h.node i nd hi
    have hne : nd.key ≠ key := by simpa using hm
    exact ⟨by simp, e, by simpa [SlotMap.get?_remove, hne] using he, hei⟩
  · simp only [SlotMap.get?_remove] at hk
    split at hk
    · cases hk
    · next hne => exact h.task k e hk (by simpa using hne)

theorem insertDeadline_ok {w : Wheel T} {key : Nat} {e : WheelEntry T} (deadlineTick : Nat)
    (h : HeapSync w [key]) (he : w.tasks.get? key = some e) :
    ∃ w', insertDeadline key deadlineTick w = .ok () w' ∧ HeapSync w' [] ∧ HeapMoved w w' := by
  let n := w.deadlineHeap.length
  let nodes := w.deadlineHeap ++ [⟨key, deadlineTick⟩]
  let w₁ : Wheel T :=
    { w with
      deadlineHeap := nodes
      tasks := w.tasks.modify key fun e => { e with heapIndex := n } }
  have hset := setIndex_run (w := { w with deadlineHeap := nodes }) (i := n) he
  have hnode : ∀ i nd, nodes[i]? = some nd →
      w.deadlineHeap[i]? = some nd ∨ i = n ∧ nd.key = key := by
    intro i nd hi
    simp only [nodes, List.getElem?_append] at hi
    split at hi
    · exact .inl hi
    · next hlt =>
        obtain ⟨hi0, rfl⟩ : i - n = 0 ∧ nd = ⟨key, deadlineTick⟩ := by
          simpa [List.getElem?_singleton, eq_comm, n] using hi
        exact .inr ⟨by omega, rfl⟩
  have hsync : HeapSync w₁ [] := by
    refine ⟨fun i nd hi => ⟨by simp, ?_⟩, fun k e' hk _ => ?_⟩
    · simp only [w₁, SlotMap.get?_modify]
      rcases hnode i nd hi with hi | ⟨rfl, hkey⟩
      · obtain ⟨hm, e', he', hei⟩ := h.node i nd hi
        have hne : nd.key ≠ key := by simpa using hm
        exact ⟨e', by simpa [hne] using he', hei⟩
      · exact ⟨{ e with heapIndex := n }, by simp [hkey, he], rfl⟩
    · simp only [w₁, SlotMap.get?_modify] at hk
      split at hk
      · next hkey =>
          obtain ⟨e₀, _, rfl⟩ := Option.map_eq_some_iff.1 hk
          exact ⟨⟨key, deadlineTick⟩, by simp [w₁, nodes, n], hkey.symm⟩
      · next hne =>
          obtain ⟨nd, hnd, hkey⟩ := h.task k e' hk (by simpa using hne)
          refine ⟨nd, ?_, hkey⟩
          have hlt := (List.getElem?_eq_some_iff.1 hnd).1
          simp only [w₁, nodes]
          rw [List.getElem?_append_left hlt]
          exact hnd
  obtain ⟨w₂, hrun, hs, hmoved, _⟩ := siftUp_ok n n hsync
  refine ⟨w₂, ?_, hs, (HeapMoved.setIndex w nodes key n).trans hmoved⟩
  simp only [insertDeadline]
  rw [bind_ok (get_run w), bind_ok (modify_run _ w)]
  exact (bind_ok (tryCatch_ok hset)).trans hrun

theorem updateDeadline_ok {w : Wheel T} {key : Nat} {e : WheelEntry T} (deadlineTick : Nat)
    (h : HeapSync w []) (he : w.tasks.get? key = some e) :
    ∃ w', updateDeadline key e.heapIndex deadlineTick w = .ok () w' ∧ HeapSync w' [] ∧
      HeapMoved w w' := by
  obtain ⟨nd, hnd, hkey⟩ := h.task key e he (by simp)
  let nodes := w.deadlineHeap.set e.heapIndex ⟨key, deadlineTick⟩
  have hlt := (List.getElem?_eq_some_iff.1 hnd).1
  have hget : ∀ i : Nat, (nodes[i]?).map DeadlineNode.key =
      (w.deadlineHeap[i]?).map DeadlineNode.key := by
    intro i
    simp only [nodes, List.getElem?_set]
    split
    · next hi => rw [← hi, hnd]; simp [hkey]
    · rfl
  have hsync : HeapSync { w with deadlineHeap := nodes } [] := by
    refine ⟨fun i nd' hi => ⟨by simp, ?_⟩, fun k e' hk _ => ?_⟩
    · have := hget i
      rw [hi] at this
      obtain ⟨nd₀, hnd₀, hk₀⟩ := Option.map_eq_some_iff.1 this.symm
      rw [← hk₀]
      exact (h.node i nd₀ hnd₀).2
    · obtain ⟨nd', hnd', hk'⟩ := h.task k e' hk (by simp)
      have := hget e'.heapIndex
      rw [hnd'] at this
      obtain ⟨nd₁, hnd₁, hk₁⟩ := Option.map_eq_some_iff.1 this
      exact ⟨nd₁, hnd₁, hk₁.trans hk'⟩
  obtain ⟨w₂, hrun, hs, hmoved, _⟩ := sift_ok e.heapIndex hsync
  have hm : HeapMoved w { w with deadlineHeap := nodes } := ⟨fun _ => rfl, rfl, rfl, rfl, rfl, rfl⟩
  refine ⟨w₂, ?_, hs, hm.trans hmoved⟩
  simp only [updateDeadline]
  rw [bind_ok (get_run w), hnd]
  simp only [hkey, ne_eq, not_true_eq_false, if_false]
  exact (bind_ok (modify_run _ w)).trans hrun

theorem removeDeadline_ok {w : Wheel T} {key : Nat} {e : WheelEntry T}
    (h : HeapSync w []) (he : w.tasks.get? key = some e) :
    ∃ w', removeDeadline key e.heapIndex w = .ok () w' ∧ HeapSync w' [key] ∧
      HeapMoved w w' := by
  obtain ⟨nd, hnd, hkey⟩ := h.task key e he (by simp)
  have hlt := (List.getElem?_eq_some_iff.1 hnd).1
  have hpos : 0 < w.deadlineHeap.length := by omega
  let n := w.deadlineHeap.length - 1
  obtain ⟨last, hlast⟩ : ∃ last, w.deadlineHeap.getLast? = some last :=
    ⟨_, List.getLast?_eq_some_getLast (List.ne_nil_of_length_pos hpos)⟩
  have hlast' : w.deadlineHeap[n]? = some last := by
    rw [← hlast, List.getLast?_eq_getElem?]
  have hstart : removeDeadline key e.heapIndex w =
      (if e.heapIndex = n then pure ()
        else do
          modify fun w => { w with deadlineHeap := w.deadlineHeap.set e.heapIndex last }
          setIndex last.key e.heapIndex
          sift e.heapIndex : WheelM T Unit) { w with deadlineHeap := w.deadlineHeap.dropLast } := by
    simp only [removeDeadline]
    rw [bind_ok (get_run w)]
    simp only [hnd, hlast, hkey, ne_eq, not_true_eq_false, if_false]
    exact bind_ok (modify_run _ w)
  have hdrop : ∀ i nd', w.deadlineHeap.dropLast[i]? = some nd' →
      i < n ∧ w.deadlineHeap[i]? = some nd' := by
    intro i nd' hi
    have hi' := (List.getElem?_eq_some_iff.1 hi).1
    rw [List.length_dropLast] at hi'
    rw [List.getElem?_dropLast, if_pos hi'] at hi
    exact ⟨hi', hi⟩
  have hdrop' : ∀ i, i < n → w.deadlineHeap.dropLast[i]? = w.deadlineHeap[i]? := by
    intro i hi
    rw [List.getElem?_dropLast, if_pos hi]
  rw [hstart]
  by_cases hidx : e.heapIndex = n
  · rw [if_pos hidx]
    refine ⟨_, rfl, ⟨fun i nd' hi => ?_, fun k e' hk hkm => ?_⟩,
      ⟨fun _ => rfl, rfl, rfl, rfl, rfl, rfl⟩⟩
    · obtain ⟨hin, hi⟩ := hdrop i nd' hi
      have hne := h.key_ne hi hnd (by omega)
      exact ⟨by simpa [hkey] using hne, (h.node i nd' hi).2⟩
    · obtain ⟨nd', hnd', hk'⟩ := h.task k e' hk (by simp)
      have hne : e'.heapIndex ≠ n := by
        intro hx
        rw [hx, ← hidx, hnd] at hnd'
        injection hnd' with hnd'
        exact hkm (by rw [← hk', ← hnd', hkey]; simp)
      have hlt' := (List.getElem?_eq_some_iff.1 hnd').1
      exact ⟨nd', by rw [hdrop' _ (by omega)]; exact hnd', hk'⟩
  · rw [if_neg hidx]
    -- The last node fills the hole, and its task learns the new position.
    obtain ⟨_, el, hel, hli⟩ := h.node n last hlast'
    have hne := h.key_ne hnd hlast' hidx
    rw [hkey] at hne
    let nodes := w.deadlineHeap.dropLast.set e.heapIndex last
    let w₁ : Wheel T :=
      { w with
        deadlineHeap := nodes
        tasks := w.tasks.modify last.key fun e' => { e' with heapIndex := e.heapIndex } }
    have hget : ∀ i, nodes[i]? =
        if i = e.heapIndex then some last else w.deadlineHeap.dropLast[i]? := by
      intro i
      simp only [nodes, List.getElem?_set, List.length_dropLast]
      by_cases hi : e.heapIndex = i
      · rw [if_pos hi, if_pos hi.symm, if_pos (by omega)]
      · rw [if_neg hi, if_neg (Ne.symm hi)]
    have hsync : HeapSync w₁ [key] := by
      refine ⟨fun i nd' hi => ?_, fun k e' hk hkm => ?_⟩
      · simp only [w₁, hget] at hi
        simp only [w₁, SlotMap.get?_modify]
        split at hi
        · next hie =>
            injection hi with hi
            subst hi
            exact ⟨by simpa using Ne.symm hne, { el with heapIndex := e.heapIndex },
              by simp [hel], hie.symm⟩
        · next hie =>
            obtain ⟨hin, hi⟩ := hdrop i nd' hi
            have hne' := h.key_ne hi hnd hie
            have hnl := h.key_ne hi hlast' (by omega)
            obtain ⟨_, e', he', hei⟩ := h.node i nd' hi
            exact ⟨by simpa [hkey] using hne', e', by simpa [hnl] using he', hei⟩
      · simp only [w₁, SlotMap.get?_modify] at hk
        simp only [w₁, hget]
        split at hk
        · next hkl =>
            obtain ⟨e₀, _, rfl⟩ := Option.map_eq_some_iff.1 hk
            exact ⟨last, by simp, hkl.symm⟩
        · next hkl =>
            obtain ⟨nd', hnd', hk'⟩ := h.task k e' hk (by simp)
            refine ⟨nd', ?_, hk'⟩
            have hne₁ : e'.heapIndex ≠ e.heapIndex := by
              intro hx
              rw [hx, hnd] at hnd'
              injection hnd' with hnd'
              exact hkm (by rw [← hk', ← hnd', hkey]; simp)
            have hne₂ : e'.heapIndex ≠ n := by
              intro hx
              rw [hx, hlast'] at hnd'
              injection hnd' with hnd'
              exact hkl (by rw [hnd']; exact hk'.symm)
            have hlt' := (List.getElem?_eq_some_iff.1 hnd').1
            rw [if_neg hne₁, hdrop' _ (by omega)]
            exact hnd'
    obtain ⟨w₂, hrun, hs, hmoved, _⟩ := sift_ok e.heapIndex hsync
    refine ⟨w₂, ?_, hs, (HeapMoved.setIndex w nodes last.key e.heapIndex).trans hmoved⟩
    rw [bind_ok (modify_run _ _)]
    have hset := setIndex_run (w := { w with deadlineHeap := nodes }) (i := e.heapIndex) hel
    exact (bind_ok hset).trans hrun

end DartUdp.TimeWheel
