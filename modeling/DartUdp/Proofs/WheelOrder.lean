import DartUdp.Lib.Heap
import DartUdp.Proofs.WheelRefines
import Mathlib.Data.Prod.Lex

/-!
# The deadline heap is in order

The methods of the wheel do to the list of nodes what the operations of a binary
heap do, and a node always carries the deadline of its task. Nothing of this is
needed to fire the right timers; it is what makes the head of the heap the timer
that is due first.

Linking and unlinking touch neither the heap nor a deadline, and expiring a task
takes its node out. So an advance only ever sheds nodes.

`step_heaped` is the result. `Turns`, `Relinks` and `Sheds` are what the sifts, the
links and an expiry do, and the methods are made of these.
-/

namespace DartUdp.TimeWheel

open DartUdp.Lib

variable {T : Type} {w w' : Wheel T}

/-- How the heap ranks a node: by deadline, then by key. -/
def nodeRank (node : DeadlineNode) : Nat ×ₗ Nat := toLex (node.deadlineTick, node.key)

theorem heapLess_eq (nodes : List DeadlineNode) (i j : Nat) :
    heapLess nodes i j = Heap.less nodeRank nodes i j := by
  unfold heapLess Heap.less
  split
  · next l r hl hr =>
      rw [hl, hr]
      dsimp only
      rw [Bool.eq_iff_iff]
      simp only [nodeRank, Prod.Lex.toLex_lt_toLex, Bool.or_eq_true, Bool.and_eq_true,
        decide_eq_true_eq, beq_iff_eq]
  · next hnone =>
      split
      · next l r hl hr => exact absurd hr (hnone l r hl)
      · rfl

/-- The deadline of a task. -/
def Wheel.deadlineOf (w : Wheel T) (k : Nat) : Option Nat := (w.tasks.get? k).map (·.deadlineTick)

/-- The heap is in order, and its nodes carry the deadlines of their tasks. -/
structure Heaped (w : Wheel T) : Prop where
  ordered : Heap.Ordered nodeRank w.deadlineHeap
  agrees : ∀ nd ∈ w.deadlineHeap, ∀ d ∈ w.deadlineOf nd.key, d = nd.deadlineTick

/-! ## What a method does to the heap -/

/-- The nodes change by `g`, and no deadline does. -/
structure Turns (g : List DeadlineNode → List DeadlineNode) (w w' : Wheel T) : Prop where
  heap : w'.deadlineHeap = g w.deadlineHeap
  deadlines : w'.deadlineOf = w.deadlineOf

/-- Neither the heap nor a deadline changes. -/
abbrev Relinks (w w' : Wheel T) : Prop := Turns id w w'

instance : Std.Refl (Relinks (T := T)) := ⟨fun _ => ⟨rfl, rfl⟩⟩

instance : IsTrans (Wheel T) Relinks :=
  ⟨fun _ _ _ h h' => ⟨h'.heap.trans h.heap, h'.deadlines.trans h.deadlines⟩⟩

/-- Nodes may leave the heap and tasks the store. -/
structure Sheds (w w' : Wheel T) : Prop where
  ordered : Heap.Ordered nodeRank w.deadlineHeap → Heap.Ordered nodeRank w'.deadlineHeap
  nodes : ∀ nd ∈ w'.deadlineHeap, nd ∈ w.deadlineHeap
  deadlines : ∀ k, ∀ d ∈ w'.deadlineOf k, d ∈ w.deadlineOf k

instance : Std.Refl (Sheds (T := T)) := ⟨fun _ => ⟨id, fun _ h => h, fun _ _ h => h⟩⟩

instance : IsTrans (Wheel T) Sheds :=
  ⟨fun _ _ _ h h' => ⟨h'.ordered ∘ h.ordered, fun nd hnd => h.nodes nd (h'.nodes nd hnd),
    fun k d hd => h.deadlines k d (h'.deadlines k d hd)⟩⟩

theorem Relinks.sheds (h : Relinks w w') : Sheds w w' :=
  ⟨fun ho => by rw [h.heap]; exact ho, fun nd hnd => by rw [h.heap] at hnd; exact hnd,
    fun k d hd => by rw [h.deadlines] at hd; exact hd⟩

theorem Sheds.heaped (h : Sheds w w') (hw : Heaped w) : Heaped w' :=
  ⟨h.ordered hw.ordered, fun nd hnd d hd => hw.agrees nd (h.nodes nd hnd) d (h.deadlines _ d hd)⟩

/-! ## Entries and links -/

theorem entry_ends {key : Nat} {error : TimerError} :
    Ends (entry key error) w (fun e w' => w' = w ∧ w.tasks.get? key = some e) fun _ _ => True := by
  simp only [entry, ends_bind, ends_get]
  split
  · next e he => exact ⟨rfl, he⟩
  · trivial

theorem entry_leads {R : Wheel T → Wheel T → Prop} [Std.Refl R] {key : Nat} {error : TimerError} :
    Leads R (entry key error) w :=
  entry_ends.mono (fun _ _ h => by rw [h.1]; exact Std.Refl.refl w) fun _ _ h => h

theorem modifyEntry_relinks {key : Nat} {f : WheelEntry T → WheelEntry T}
    (hf : ∀ e, (f e).deadlineTick = e.deadlineTick) : Leads Relinks (modifyEntry key f) w := by
  refine Leads.bind entry_leads fun _ w' => ⟨rfl, funext fun k => ?_⟩
  simp only [Wheel.deadlineOf, SlotMap.get?_modify]
  split
  · next h =>
      rw [h, Option.map_map]
      exact congrArg (Option.map · _) (funext hf)
  · rfl

theorem link_relinks (key level slot : Nat) : Leads Relinks (link key level slot) w := by
  refine Leads.get_bind (Leads.ite (fun _ => ?_) fun _ => ?_)
  · exact Leads.bind (Leads.modify ⟨rfl, rfl⟩) fun _ _ => modifyEntry_relinks fun _ => rfl
  · split
    · exact Leads.throw _
    · exact Leads.bind (modifyEntry_relinks fun _ => rfl) fun _ _ =>
        Leads.bind (modifyEntry_relinks fun _ => rfl) fun _ _ => Leads.modify ⟨rfl, rfl⟩

theorem unlink_relinks (key : Nat) : Leads Relinks (unlink key) w := by
  have hprev : ∀ (e : WheelEntry T) (w : Wheel T), Leads Relinks (unlinkPrev e) w := fun e w => by
    unfold unlinkPrev
    split
    · exact modifyEntry_relinks fun _ => rfl
    · exact Leads.modify ⟨rfl, rfl⟩
  have hnext : ∀ (e : WheelEntry T) (w : Wheel T), Leads Relinks (unlinkNext e) w := fun e w => by
    unfold unlinkNext
    split
    · exact modifyEntry_relinks fun _ => rfl
    · exact Leads.modify ⟨rfl, rfl⟩
  refine Leads.bind entry_leads fun e w => Leads.get_bind (Leads.ite (fun _ => trivial) fun _ => ?_)
  exact Leads.bind (hprev e w) fun _ w => Leads.bind (hnext e w) fun _ w =>
    modifyEntry_relinks fun _ => rfl

/-! ## The operations of the heap -/

theorem setIndex_relinks (key index : Nat) : Leads Relinks (setIndex key index) w :=
  modifyEntry_relinks fun _ => rfl

theorem swapNodes_turns (i j : Nat) :
    Leads (Turns fun nodes => Heap.swap nodes i j) (swapNodes i j) w := by
  simp only [Leads, swapNodes, ends_bind, ends_get]
  split
  · next l r hl hr =>
      have hset : ∀ w' : Wheel T,
          Relinks { w with deadlineHeap := (w.deadlineHeap.set i r).set j l } w' →
          Turns (fun nodes => Heap.swap nodes i j) w w' := fun w' h => by
        refine ⟨h.heap.trans ?_, h.deadlines⟩
        unfold Heap.swap
        rw [hl, hr]
        rfl
      rw [ends_bind, ends_modify]
      refine Ends.mono (Leads.bind (setIndex_relinks r.key i) fun _ w' => setIndex_relinks l.key j)
        (fun _ w' h => hset w' h) fun _ _ h => h
  · trivial

theorem siftUp_turns (fuel i : Nat) :
    Leads (Turns (Heap.siftUp nodeRank fuel i)) (siftUp fuel i) w := by
  induction fuel generalizing i w with
  | zero => exact ⟨rfl, rfl⟩
  | succ fuel ih =>
      have hsame : ∀ {w : Wheel T},
          Heap.siftUp nodeRank (fuel + 1) i w.deadlineHeap = w.deadlineHeap →
          Turns (Heap.siftUp nodeRank (fuel + 1) i) w w := fun h => ⟨h.symm, rfl⟩
      simp only [Leads, siftUp, ends_steps]
      refine ⟨fun hi => ⟨fun hless => ?_, fun hnot => ?_⟩, fun hi => ?_⟩
      · refine Ends.mono (swapNodes_turns i ((i - 1) / 2)) (fun _ w₁ h₁ => ?_) fun _ _ _ => trivial
        refine Ends.mono (ih ((i - 1) / 2)) (fun _ w₂ h₂ => ⟨?_, h₂.deadlines.trans h₁.deadlines⟩)
          fun _ _ h => h
        rw [h₂.heap, h₁.heap, Heap.siftUp, if_pos hi, ← heapLess_eq, if_pos hless]
      · refine hsame ?_
        rw [Heap.siftUp, if_pos hi, ← heapLess_eq, if_neg hnot]
      · refine hsame ?_
        rw [Heap.siftUp, if_neg hi]

theorem siftDown_turns (fuel i : Nat) :
    Leads (Turns (Heap.siftDown nodeRank fuel i)) (siftDown fuel i) w := by
  induction fuel generalizing i w with
  | zero => exact ⟨rfl, rfl⟩
  | succ fuel ih =>
      have hchild : (if (decide (i * 2 + 1 + 1 < w.deadlineHeap.length) &&
          heapLess w.deadlineHeap (i * 2 + 1 + 1) (i * 2 + 1)) = true
            then i * 2 + 1 + 1 else i * 2 + 1) = Heap.child nodeRank w.deadlineHeap i := by
        rw [heapLess_eq]
        rfl
      have hsame : ∀ {w : Wheel T},
          Heap.siftDown nodeRank (fuel + 1) i w.deadlineHeap = w.deadlineHeap →
          Turns (Heap.siftDown nodeRank (fuel + 1) i) w w := fun h => ⟨h.symm, rfl⟩
      simp only [Leads, siftDown, ends_steps, hchild]
      refine ⟨fun hlt => ⟨fun hless => ?_, fun hnot => ?_⟩, fun hlt => ?_⟩
      · refine Ends.mono (swapNodes_turns i (Heap.child nodeRank w.deadlineHeap i))
          (fun _ w₁ h₁ => ?_) fun _ _ _ => trivial
        refine Ends.mono (ih (Heap.child nodeRank w.deadlineHeap i))
          (fun _ w₂ h₂ => ⟨?_, h₂.deadlines.trans h₁.deadlines⟩) fun _ _ h => h
        rw [h₂.heap, h₁.heap, Heap.siftDown, if_pos hlt, ← heapLess_eq, if_pos hless]
      · refine hsame ?_
        rw [Heap.siftDown, if_pos hlt, ← heapLess_eq, if_neg hnot]
      · refine hsame ?_
        rw [Heap.siftDown, if_neg hlt]

theorem sift_turns (i : Nat) : Leads (Turns (Heap.sift nodeRank i)) (sift i) w := by
  refine Leads.get_bind (Leads.ite (fun h => ?_) fun h => ?_)
  · refine (siftUp_turns i i).mono fun w' h' => ⟨h'.heap.trans ?_, h'.deadlines⟩
    rw [heapLess_eq] at h
    rw [Heap.sift, if_pos h]
  · refine (siftDown_turns w.deadlineHeap.length i).mono fun w' h' =>
      ⟨h'.heap.trans ?_, h'.deadlines⟩
    rw [heapLess_eq] at h
    rw [Heap.sift, if_neg h]

theorem insertDeadline_turns (key deadline : Nat) :
    Leads (Turns fun nodes => Heap.push nodeRank nodes ⟨key, deadline⟩)
      (insertDeadline key deadline) w := by
  let w₁ : Wheel T := { w with deadlineHeap := w.deadlineHeap ++ [⟨key, deadline⟩] }
  have hset : Leads Relinks (tryCatch (setIndex key w.deadlineHeap.length) fun error => do
      modify fun w => { w with deadlineHeap := w.deadlineHeap.dropLast }
      throw error) w₁ :=
    Leads.tryCatch (setIndex_relinks key _) fun _ _ => trivial
  simp only [Leads, insertDeadline, ends_steps]
  refine Ends.mono hset (fun _ w₂ h₂ => ?_) fun _ _ h => h
  refine Ends.mono (siftUp_turns _ _) (fun _ w₃ h₃ => ⟨?_, h₃.deadlines.trans h₂.deadlines⟩)
    fun _ _ h => h
  rw [h₃.heap, h₂.heap]
  rfl

theorem updateDeadline_turns (key i deadline : Nat) :
    Leads (fun w w' => (∃ nd, w.deadlineHeap[i]? = some nd ∧ nd.key = key) ∧
      Turns (fun nodes => Heap.update nodeRank nodes i ⟨key, deadline⟩) w w')
      (updateDeadline key i deadline) w := by
  simp only [Leads, updateDeadline, ends_bind, ends_get]
  split
  · trivial
  · next nd hnd =>
      simp only [ends_steps]
      refine ⟨fun _ => trivial, fun hkey => ?_⟩
      refine Ends.mono (sift_turns i) (fun _ w' h => ⟨⟨nd, hnd, not_not.1 hkey⟩, h.heap, ?_⟩)
        fun _ _ h => h
      exact h.deadlines

theorem removeDeadline_turns (key i : Nat) :
    Leads (Turns fun nodes => Heap.removeAt nodeRank nodes i) (removeDeadline key i) w := by
  simp only [Leads, removeDeadline, ends_bind, ends_get]
  split
  · next nd last hnd hlast =>
      have hsame : ∀ {w' : Wheel T} {nodes : List DeadlineNode},
          nodes = (if i = w.deadlineHeap.length - 1 then w.deadlineHeap.dropLast
            else Heap.update nodeRank w.deadlineHeap.dropLast i last) →
          w'.deadlineHeap = nodes → w'.deadlineOf = w.deadlineOf →
          Turns (fun nodes => Heap.removeAt nodeRank nodes i) w w' := fun hnodes hheap hdead => by
        refine ⟨hheap.trans (hnodes.trans ?_), hdead⟩
        unfold Heap.removeAt
        rw [hlast]
      simp only [ends_steps]
      refine ⟨fun _ => trivial, fun _ => ⟨fun hi => ?_, fun hi => ?_⟩⟩
      · exact hsame (if_pos hi).symm rfl rfl
      · refine Ends.mono (setIndex_relinks last.key i) (fun _ w₁ h₁ => ?_) fun _ _ h => h
        refine Ends.mono (sift_turns i) (fun _ w₂ h₂ => ?_) fun _ _ h => h
        refine hsame (if_neg hi).symm ?_ (h₂.deadlines.trans h₁.deadlines)
        rw [h₂.heap, h₁.heap]
        rfl
  · trivial

/-! ## Advancing and cancelling shed nodes -/

theorem link_sheds (key level slot : Nat) : Leads Sheds (link key level slot) w :=
  (link_relinks key level slot).mono fun _ h => h.sheds

theorem removeDeadline_sheds (key i : Nat) : Leads Sheds (removeDeadline key i) w :=
  (removeDeadline_turns key i).mono fun w' h =>
    ⟨fun ho => by rw [h.heap]; exact Heap.removeAt_ordered ho i,
      fun nd hnd => by rw [h.heap] at hnd; exact Heap.mem_removeAt hnd,
      fun k d hd => by rw [h.deadlines] at hd; exact hd⟩

theorem sheds_remove (w : Wheel T) (key : Nat) :
    Sheds w { w with tasks := w.tasks.remove key } := by
  refine ⟨id, fun _ h => h, fun k d hd => ?_⟩
  simp only [Wheel.deadlineOf, SlotMap.get?_remove] at hd ⊢
  split at hd
  · cases hd
  · exact hd

theorem expireTask_sheds (key deadline : Nat) : Leads Sheds (expireTask key deadline) w :=
  Leads.bind entry_leads fun e _ => Leads.bind (removeDeadline_sheds key e.heapIndex) fun _ _ =>
    Leads.bind entry_leads fun _ w => Leads.bind (Leads.modify (sheds_remove w key)) fun _ _ =>
      Leads.pure _

theorem settleTask_sheds (key : Nat) (expired : List (Expired T)) :
    Leads Sheds (settleTask key expired) w := by
  refine Leads.bind entry_leads fun e w => Leads.get_bind (Leads.ite (fun _ => ?_) fun _ => ?_)
  · exact Leads.bind (expireTask_sheds key _) fun _ _ => Leads.pure _
  · exact Leads.bind (link_sheds key _ _) fun _ _ => Leads.pure _

theorem processChain_sheds (fuel : Nat) (current : Option Nat) (expired : List (Expired T)) :
    Leads Sheds (processChain fuel current expired) w := by
  induction fuel generalizing current expired w with
  | zero =>
      cases current with
      | none => exact Leads.pure _
      | some key => exact Leads.throw _
  | succ fuel ih =>
      cases current with
      | none => exact Leads.pure _
      | some key =>
          refine Leads.bind entry_leads fun e w => Leads.bind ?_ fun _ w => ?_
          · exact Leads.mono (modifyEntry_relinks fun _ => rfl) fun _ h => h.sheds
          · exact Leads.bind (settleTask_sheds key expired) fun expired _ => ih e.next expired

theorem processSlot_sheds (level slot : Nat) (expired : List (Expired T)) :
    Leads Sheds (processSlot level slot expired) w := by
  refine Leads.get_bind (Leads.bind (m := set (w.setSlot level slot Slot.empty)) ?_ fun _ _ => ?_)
  · have hslot : Relinks w (w.setSlot level slot Slot.empty) := ⟨rfl, rfl⟩
    exact hslot.sheds
  · exact processChain_sheds _ _ _

theorem cascade_sheds (n : Nat) (expired : List (Expired T)) :
    Leads Sheds (cascade n expired) w := by
  induction n generalizing expired w with
  | zero => exact Leads.pure _
  | succ n ih =>
      refine Leads.get_bind (Leads.ite (fun _ => ?_) fun _ => ih expired)
      exact Leads.bind (processSlot_sheds _ _ _) fun expired _ => ih expired

theorem processTick_sheds (expired : List (Expired T)) : Leads Sheds (processTick expired) w :=
  Leads.bind (Leads.get_bind (cascade_sheds _ _)) fun _ _ =>
    Leads.get_bind (processSlot_sheds _ _ _)

theorem tickLoop_sheds (n : Nat) (expired : List (Expired T)) :
    Leads Sheds (tickLoop n expired) w := by
  induction n generalizing expired w with
  | zero => exact Leads.pure _
  | succ n ih =>
      refine Leads.bind (Leads.modify (Relinks.sheds ⟨rfl, rfl⟩)) fun _ _ => ?_
      exact Leads.bind (processTick_sheds expired) fun expired _ => ih expired

theorem settleAll_sheds (keys : List Nat) (expired : List (Expired T)) :
    Leads Sheds (settleAll keys expired) w := by
  induction keys generalizing expired w with
  | nil => exact Leads.pure _
  | cons key keys ih => exact Leads.bind (settleTask_sheds key expired) fun expired _ => ih expired

theorem advanceAlong_sheds (keys : List Nat) (elapsed : Nat) (expired : List (Expired T)) :
    Leads Sheds (advanceAlong keys elapsed expired) w := by
  have hticks : ∀ (ticks target : Nat) (w : Wheel T),
      Leads Sheds (advanceTicks keys ticks target expired) w := by
    intro ticks target w
    refine Leads.ite (fun _ => ?_) fun _ => ?_
    · exact Leads.bind (Leads.modify (Relinks.sheds ⟨rfl, rfl⟩)) fun _ _ => settleAll_sheds _ _
    · exact Leads.bind (processTick_sheds expired) fun expired _ => tickLoop_sheds _ expired
  refine Leads.get_bind (Leads.ite (fun _ => trivial) fun _ => ?_)
  split
  · exact Leads.throw _
  · dsimp only
    split
    · exact Leads.throw _
    · refine Leads.bind (Leads.modify (Relinks.sheds ⟨rfl, rfl⟩)) fun _ _ => ?_
      exact Leads.bind (hticks _ _ _) fun _ _ => Leads.pure _

theorem cancelTask_sheds (id : Nat) : Leads Sheds (cancelTask id) w :=
  Leads.bind entry_leads fun _ _ =>
    Leads.bind ((unlink_relinks id).mono fun _ h => h.sheds) fun _ _ =>
    Leads.bind entry_leads fun e _ => Leads.bind (removeDeadline_sheds id e.heapIndex) fun _ _ =>
      Leads.bind entry_leads fun _ w => Leads.bind (Leads.modify (sheds_remove w id)) fun _ _ =>
        Leads.pure _

/-! ## The operations keep the heap -/

theorem insert_heaped (item : T) (delay : Nat) (hw : Heaped w)
    (hfresh : ∀ nd ∈ w.deadlineHeap, nd.key ≠ w.tasks.next) :
    Ends (insert item delay) w (fun _ w' => Heaped w') fun _ _ => True := by
  simp only [insert, ends_bind, ends_get]
  split
  · trivial
  · next deadline _ =>
      simp only [ends_steps]
      refine Ends.mono (Leads.tryCatch (link_relinks _ _ _) fun _ _ => trivial) (fun _ w₂ h₂ => ?_)
        fun _ _ h => h
      refine Ends.mono (Leads.tryCatch (insertDeadline_turns _ _) fun _ _ => ?_) (fun _ w₃ h₃ => ?_)
        fun _ _ h => h
      · simp only [ends_steps, ends_tryCatch]
        exact .of_forall (fun _ _ => trivial) fun _ _ => trivial
      · have hheap : w₂.deadlineHeap = w.deadlineHeap := h₂.heap
        have hdead : ∀ k,
            w₃.deadlineOf k = if k = w.tasks.next then some deadline else w.deadlineOf k := by
          intro k
          rw [h₃.deadlines, h₂.deadlines]
          simp only [Wheel.deadlineOf, SlotMap.get?_insert]
          split
          · rfl
          · rfl
        refine ⟨?_, fun nd hnd d hd => ?_⟩
        · rw [h₃.heap, hheap]
          exact Heap.push_ordered hw.ordered _
        · rw [h₃.heap, hheap] at hnd
          rw [hdead] at hd
          rcases Heap.mem_push hnd with hnd | rfl
          · rw [if_neg (hfresh nd hnd)] at hd
            exact hw.agrees nd hnd d hd
          · have hd : (if w.tasks.next = w.tasks.next then some deadline else _) = some d := hd
            rw [if_pos rfl] at hd
            exact (Option.some.inj hd).symm

theorem reschedule_heaped (id delay : Nat) (hw : Heaped w) (hsync : HeapSync w []) :
    Ends (reschedule id delay) w (fun _ w' => Heaped w') fun _ _ => True := by
  simp only [reschedule, ends_bind, ends_get]
  refine entry_ends.mono (fun e w₁ h => ?_) fun _ _ _ => trivial
  obtain ⟨rfl, he⟩ := h
  split
  · trivial
  · next deadline _ =>
      simp only [ends_steps]
      refine Ends.mono (unlink_relinks id) (fun _ w₂ h₂ => ?_) fun _ _ h => h
      refine entry_ends.mono (fun e₂ w₂' h => ?_) fun _ _ h => h
      obtain ⟨rfl, he₂⟩ := h
      refine Ends.mono (link_relinks id _ _) (fun _ w₃ h₃ => ?_) fun _ _ h => h
      refine entry_ends.mono (fun e₃ w₃' h => ?_) fun _ _ h => h
      obtain ⟨rfl, he₃⟩ := h
      refine Ends.mono (updateDeadline_turns id e₃.heapIndex deadline) (fun _ w₄ h => ?_)
        fun _ _ h => h
      obtain ⟨⟨nd₀, hnd₀, hkey₀⟩, h₄⟩ := h
      have hheap : w₃'.deadlineHeap = w₁.deadlineHeap := h₃.heap.trans h₂.heap
      rw [hheap] at hnd₀
      have hdead : ∀ k, w₄.deadlineOf k = if k = id then some deadline else w₁.deadlineOf k := by
        intro k
        rw [h₄.deadlines, h₃.deadlines, ← h₂.deadlines]
        simp only [Wheel.deadlineOf, SlotMap.get?_modify]
        split
        · next hk =>
            rw [hk, he₂]
            rfl
        · rfl
      refine ⟨?_, fun nd hnd d hd => ?_⟩
      · rw [h₄.heap, hheap]
        exact Heap.update_ordered hw.ordered _ _
      · rw [h₄.heap, hheap] at hnd
        rw [hdead] at hd
        -- The node of the task was replaced, and no other node has its key.
        rcases Heap.mem_update hnd with ⟨j, hj, hnd⟩ | rfl
        · have hne := hsync.key_ne hnd hnd₀ hj
          rw [hkey₀] at hne
          rw [if_neg hne] at hd
          exact hw.agrees nd (List.mem_of_getElem? hnd) d hd
        · have hd : (if id = id then some deadline else _) = some d := hd
          rw [if_pos rfl] at hd
          exact (Option.some.inj hd).symm

theorem heaped_new (cfg : WheelConfig) (order : KeyOrder) :
    Heaped (Wheel.new cfg order : Wheel T) :=
  ⟨Heap.ordered_nil, fun _ hnd => absurd hnd List.not_mem_nil⟩

theorem advanceAlong_heaped {base : Nat} {m : TimerMap T} (h : Shows base w m) (hw : Heaped w)
    {keys : List Nat} (henum : Enumerates w keys) (elapsed : Nat) (expired : List (Expired T)) :
    Heaped (after (advanceAlong keys elapsed expired) w) := by
  unfold after
  cases hrun : advanceAlong keys elapsed expired w with
  | ok _ w' => exact (Ends.ok (advanceAlong_sheds keys elapsed expired) hrun).heaped hw
  | error e w' =>
      obtain ⟨rfl, _⟩ := advanceAlong_error h henum hrun
      exact hw

/-- Every operation keeps the heap in order. -/
theorem step_heaped {base : Nat} {m : TimerMap T} (h : Shows base w m) (hw : Heaped w) (op : Op T) :
    Heaped (w.step op).2 := by
  cases op with
  | insert item delay =>
      have hfresh : ∀ nd ∈ w.deadlineHeap, nd.key ≠ w.tasks.next := by
        intro nd hnd hkey
        obtain ⟨i, hi⟩ := List.getElem?_of_mem hnd
        obtain ⟨_, e, he, _⟩ := h.sound.sync.node i nd hi
        rw [hkey, w.tasks.get?_next] at he
        cases he
      show Heaped (outcome (insert item delay w)).2
      cases hrun : insert item delay w with
      | ok _ w' => exact (insert_heaped item delay hw hfresh).ok hrun
      | error e w' =>
          obtain ⟨rfl, _⟩ := insert_error h hrun
          exact hw
  | reschedule id delay =>
      show Heaped (outcome (reschedule id delay w)).2
      cases hrun : reschedule id delay w with
      | ok _ w' => exact (reschedule_heaped id delay hw h.sound.sync).ok hrun
      | error e w' =>
          obtain ⟨rfl, _⟩ := reschedule_error h hrun
          exact hw
  | cancel id =>
      show Heaped (outcome (cancel id w)).2
      cases he : w.tasks.get? id with
      | none =>
          rw [cancel_stale he]
          exact hw
      | some e =>
          obtain ⟨w', hrun, _⟩ := cancelTask_ok h.sound he
          rw [cancel_live hrun]
          exact (Ends.ok (cancelTask_sheds id) hrun).heaped hw
  | clear => exact ⟨Heap.ordered_nil, fun _ hnd => absurd hnd List.not_mem_nil⟩
  | advanceBy elapsed =>
      have hadv := advanceAlong_heaped h hw (enumerates_keys w) elapsed []
      have hstep : (w.step (.advanceBy elapsed)).2 =
          after (advanceAlong w.tasks.keys elapsed []) w := by
        show (outcome (advanceAlong w.tasks.keys elapsed [] w)).2 = _
        unfold after
        cases advanceAlong w.tasks.keys elapsed [] w <;> rfl
      rw [hstep]
      exact hadv

end DartUdp.TimeWheel
