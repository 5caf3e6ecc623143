import DartUdp.Lib.Prog
import DartUdp.Lib.SlotMap
import DartUdp.TimeWheel.Config

/-!
# The hierarchical timing wheel

The tasks live in a slot map. Each is linked into the doubly linked list of
one slot of one level, and listed in a binary heap ordered by deadline; an
entry records where it stands in both. Every method that can fail answers
through `WheelM`, which keeps the writes made before the failure.
-/

namespace DartUdp.TimeWheel

open DartUdp.Lib

/-- Up to this many ticks an advance goes tick by tick; beyond, it re-buckets
every task at once. -/
def smallAdvanceLimit : Nat := 4096

inductive TimerError where
  | delayOverflow
  | elapsedOverflow
  | clockOverflow
  | deadlineOverflow
  | staleTimerId
  | invariantViolation
deriving DecidableEq, Repr

structure WheelEntry (T : Type) where
  item : T
  deadlineTick : Nat
  level : Nat
  slot : Nat
  prev : Option Nat
  next : Option Nat
  heapIndex : Nat
deriving DecidableEq, Repr

structure DeadlineNode where
  key : Nat
  deadlineTick : Nat
deriving DecidableEq, Repr

structure Slot where
  head : Option Nat
  tail : Option Nat
deriving DecidableEq, Repr

def Slot.empty : Slot := ⟨none, none⟩

structure Level where
  unitTicks : Nat
  spanTicks : Nat
  mask : Nat
  slots : List Slot
deriving DecidableEq, Repr

instance : Inhabited Level := ⟨⟨1, 0, 0, []⟩⟩

/-- `Level::clear_slots`. -/
def Level.clearSlots (lv : Level) : Level :=
  { lv with slots := lv.slots.map fun _ => Slot.empty }

structure Expired (T : Type) where
  id : Nat
  item : T
  deadlineTick : Nat
deriving DecidableEq, Repr

structure AdvanceReport where
  elapsedTicks : Nat
  expiredCount : Nat
  fastForwarded : Bool
deriving DecidableEq, Repr

structure Wheel (T : Type) where
  tasks : SlotMap (WheelEntry T)
  deadlineHeap : List DeadlineNode
  levels : List Level
  currentTick : Nat
  remainderNanos : Nat
  baseTickNanos : Nat

/-- A method on `&mut Wheel<T>` that can fail. -/
abbrev WheelM (T : Type) := EStateM TimerError (Wheel T)

variable {T : Type}

/-- `Wheel::new`. -/
def Wheel.new (config : WheelConfig) (order : KeyOrder) : Wheel T where
  tasks := .empty order
  deadlineHeap := []
  levels := config.levels.map fun lv =>
    ⟨lv.unitTicks, lv.spanTicks, lv.mask, List.replicate lv.slotCount Slot.empty⟩
  currentTick := 0
  remainderNanos := 0
  baseTickNanos := config.baseTickNanos

/-! ## Access to entries and slots -/

/-- `self.tasks.get(key).ok_or(error)`. -/
def entry (key : Nat) (error : TimerError) : WheelM T (WheelEntry T) := do
  match (← get).tasks.get? key with
  | some e => pure e
  | none => throw error

/-- A write through `self.tasks.get_mut(key).ok_or(InvariantViolation)?`. -/
def modifyEntry (key : Nat) (f : WheelEntry T → WheelEntry T) : WheelM T Unit := do
  let _ ← entry key .invariantViolation
  modify fun w => { w with tasks := w.tasks.modify key f }

/-- The slot `self.levels[level].slots[slot]`. -/
def Wheel.slotAt (w : Wheel T) (level slot : Nat) : Slot :=
  ((w.levels.getD level default).slots).getD slot Slot.empty

/-- A write to `self.levels[level].slots[slot]`. -/
def Wheel.setSlot (w : Wheel T) (level slot : Nat) (s : Slot) : Wheel T :=
  { w with levels := w.levels.modify level fun lv => { lv with slots := lv.slots.set slot s } }

/-! ## The deadline heap

The heap's callback `set_index` writes the new position into the entry. -/

def setIndex (key index : Nat) : WheelM T Unit :=
  modifyEntry key fun e => { e with heapIndex := index }

/-- `DeadlineHeap::less`: by deadline, then by key. -/
def heapLess (nodes : List DeadlineNode) (left right : Nat) : Bool :=
  match nodes[left]?, nodes[right]? with
  | some l, some r =>
      l.deadlineTick < r.deadlineTick || (l.deadlineTick == r.deadlineTick && l.key < r.key)
  | _, _ => false

/-- `DeadlineHeap::swap_nodes`. -/
def swapNodes (left right : Nat) : WheelM T Unit := do
  let nodes := (← get).deadlineHeap
  match nodes[left]?, nodes[right]? with
  | some l, some r => do
      modify fun w => { w with deadlineHeap := (nodes.set left r).set right l }
      setIndex r.key left
      setIndex l.key right
  | _, _ => throw .invariantViolation

/-- `DeadlineHeap::sift_up`. The index at least halves in each round, so the
start index is fuel enough. -/
def siftUp : Nat → Nat → WheelM T Unit
  | 0, _ => pure ()
  | fuel + 1, index => do
      if index ≠ 0 then
        let parent := (index - 1) / 2
        if heapLess (← get).deadlineHeap index parent then
          swapNodes index parent
          siftUp fuel parent

/-- `DeadlineHeap::sift_down`. The index grows in each round and stays below
the number of nodes, which is fuel enough. -/
def siftDown : Nat → Nat → WheelM T Unit
  | 0, _ => pure ()
  | fuel + 1, index => do
      let nodes := (← get).deadlineHeap
      let left := index * 2 + 1
      if left < nodes.length then
        let right := left + 1
        let child := if right < nodes.length && heapLess nodes right left then right else left
        if heapLess nodes child index then
          swapNodes index child
          siftDown fuel child

/-- The tail of `update` and `remove`: sift in the direction the parent asks. -/
def sift (index : Nat) : WheelM T Unit := do
  let nodes := (← get).deadlineHeap
  if index ≠ 0 && heapLess nodes index ((index - 1) / 2) then siftUp index index
  else siftDown nodes.length index

/-- `Wheel::insert_deadline`. -/
def insertDeadline (key deadlineTick : Nat) : WheelM T Unit := do
  let index := (← get).deadlineHeap.length
  modify fun w => { w with deadlineHeap := w.deadlineHeap ++ [⟨key, deadlineTick⟩] }
  try setIndex key index
  catch error =>
    modify fun w => { w with deadlineHeap := w.deadlineHeap.dropLast }
    throw error
  siftUp index index

/-- `Wheel::update_deadline`. -/
def updateDeadline (key heapIndex deadlineTick : Nat) : WheelM T Unit := do
  match (← get).deadlineHeap[heapIndex]? with
  | none => throw .invariantViolation
  | some node =>
      if node.key ≠ key then throw .invariantViolation
      modify fun w =>
        { w with deadlineHeap := w.deadlineHeap.set heapIndex ⟨key, deadlineTick⟩ }
      sift heapIndex

/-- `Wheel::remove_deadline`. -/
def removeDeadline (key heapIndex : Nat) : WheelM T Unit := do
  let nodes := (← get).deadlineHeap
  match nodes[heapIndex]?, nodes.getLast? with
  | some node, some last =>
      if node.key ≠ key then throw .invariantViolation
      modify fun w => { w with deadlineHeap := nodes.dropLast }
      if heapIndex = nodes.length - 1 then pure ()
      else
        modify fun w => { w with deadlineHeap := w.deadlineHeap.set heapIndex last }
        setIndex last.key heapIndex
        sift heapIndex
  | _, _ => throw .invariantViolation

/-! ## Placing a task -/

/-- `Wheel::deadline_after`: rounded up, with the sub-tick remainder counted. -/
def Wheel.deadlineAfter (w : Wheel T) (delay : Nat) : Except TimerError Nat :=
  let delayTicks :=
    if delay = 0 then 0
    else (delay + w.remainderNanos + w.baseTickNanos - 1) / w.baseTickNanos
  if delayTicks > u64Max then .error .delayOverflow
  else
    match checkedAdd w.currentTick delayTicks with
    | some deadlineTick => .ok deadlineTick
    | none => .error .delayOverflow

/-- `Wheel::determine_location`: the lowest level that spans the distance, or
the last one. -/
def Wheel.determineLocation (w : Wheel T) (deadlineTick : Nat) : Nat × Nat :=
  let delta := deadlineTick - w.currentTick
  let selected :=
    (w.levels.findIdx? fun lv => delta < lv.spanTicks).getD (w.levels.length - 1)
  let level := w.levels.getD selected default
  (selected, (deadlineTick / level.unitTicks) &&& level.mask)

/-- `Wheel::link`: append to the slot's list. -/
def link (key level slot : Nat) : WheelM T Unit := do
  let s := (← get).slotAt level slot
  if s.head.isNone then
    modify fun w => w.setSlot level slot ⟨some key, some key⟩
    modifyEntry key fun e => { e with level, slot, prev := none, next := none }
  else
    match s.tail with
    | none => throw .invariantViolation
    | some oldTail =>
        modifyEntry oldTail fun e => { e with next := some key }
        modifyEntry key fun e => { e with level, slot, prev := some oldTail, next := none }
        modify fun w => w.setSlot level slot { s with tail := some key }

/-- The first repair of `unlink`: what stands before the task, or the slot's
head, now leads past it. -/
def unlinkPrev (e : WheelEntry T) : WheelM T Unit :=
  match e.prev with
  | some prev => modifyEntry prev fun p => { p with next := e.next }
  | none =>
      modify fun w => w.setSlot e.level e.slot { w.slotAt e.level e.slot with head := e.next }

/-- The second: what stands after the task, or the slot's tail, leads back
past it. -/
def unlinkNext (e : WheelEntry T) : WheelM T Unit :=
  match e.next with
  | some next => modifyEntry next fun n => { n with prev := e.prev }
  | none =>
      modify fun w => w.setSlot e.level e.slot { w.slotAt e.level e.slot with tail := e.prev }

/-- `Wheel::unlink`: take the task out of the list it records. -/
def unlink (key : Nat) : WheelM T Unit := do
  let e ← entry key .staleTimerId
  let w ← get
  if e.level ≥ w.levels.length || e.slot ≥ ((w.levels.getD e.level default).slots).length then
    throw .invariantViolation
  unlinkPrev e
  unlinkNext e
  modifyEntry key fun e => { e with prev := none, next := none }

/-! ## The public operations that add and remove tasks -/

/-- `Wheel::insert`. -/
def insert (item : T) (delay : Nat) : WheelM T Nat := do
  match (← get).deadlineAfter delay with
  | .error error => throw error
  | .ok deadlineTick =>
      let (key, tasks) := (← get).tasks.insert ⟨item, deadlineTick, 0, 0, none, none, 0⟩
      modify fun w => { w with tasks }
      let (level, slot) := (← get).determineLocation deadlineTick
      try link key level slot
      catch error =>
        modify fun w => { w with tasks := w.tasks.remove key }
        throw error
      try insertDeadline key deadlineTick
      catch error =>
        try unlink key catch _ => pure ()
        modify fun w => { w with tasks := w.tasks.remove key }
        throw error
      pure key

/-- `Wheel::reschedule`. -/
def reschedule (id delay : Nat) : WheelM T Unit := do
  let _ ← entry id .staleTimerId
  match (← get).deadlineAfter delay with
  | .error error => throw error
  | .ok deadlineTick =>
      unlink id
      let _ ← entry id .staleTimerId
      modify fun w => { w with tasks := w.tasks.modify id fun e => { e with deadlineTick } }
      let (level, slot) := (← get).determineLocation deadlineTick
      link id level slot
      let e ← entry id .invariantViolation
      updateDeadline id e.heapIndex deadlineTick

/-- The body of `Wheel::cancel`, which answers `None` where this fails. -/
def cancelTask (id : Nat) : WheelM T T := do
  let _ ← entry id .staleTimerId
  unlink id
  let e ← entry id .staleTimerId
  removeDeadline id e.heapIndex
  let e ← entry id .staleTimerId
  modify fun w => { w with tasks := w.tasks.remove id }
  pure e.item

/-- `Wheel::cancel`. -/
def cancel (id : Nat) : WheelM T (Option T) := do
  try
    let item ← cancelTask id
    pure (some item)
  catch _ => pure none

/-- `Wheel::clear`: the items leave, the clock stays. -/
def Wheel.clear (w : Wheel T) : List T × Wheel T :=
  (w.tasks.values.map (·.item),
    { w with
      levels := w.levels.map Level.clearSlots
      deadlineHeap := []
      tasks := w.tasks.clear })

/-! ## Advancing -/

/-- The expiry of one task, shared by `process_slot` and `fast_forward`. -/
def expireTask (key deadlineTick : Nat) : WheelM T (Expired T) := do
  let e ← entry key .invariantViolation
  removeDeadline key e.heapIndex
  let e ← entry key .invariantViolation
  modify fun w => { w with tasks := w.tasks.remove key }
  pure ⟨key, e.item, deadlineTick⟩

/-- One task of a slot under `process_slot`, or of the wheel under
`fast_forward`: due tasks expire, the others are linked anew. -/
def settleTask (key : Nat) (expired : List (Expired T)) : WheelM T (List (Expired T)) := do
  let e ← entry key .invariantViolation
  let w ← get
  if e.deadlineTick ≤ w.currentTick then
    let x ← expireTask key e.deadlineTick
    pure (expired ++ [x])
  else
    let (level, slot) := w.determineLocation e.deadlineTick
    link key level slot
    pure expired

/-- The `while let` of `process_slot`, walking the detached list. The tasks of
the wheel are fuel enough for a list without a cycle. -/
def processChain : Nat → Option Nat → List (Expired T) → WheelM T (List (Expired T))
  | _, none, expired => pure expired
  | 0, some _, _ => throw .invariantViolation
  | fuel + 1, some key, expired => do
      let e ← entry key .invariantViolation
      modifyEntry key fun e => { e with prev := none, next := none }
      let expired ← settleTask key expired
      processChain fuel e.next expired

/-- `Wheel::process_slot`. -/
def processSlot (level slot : Nat) (expired : List (Expired T)) :
    WheelM T (List (Expired T)) := do
  let w ← get
  set (w.setSlot level slot Slot.empty)
  processChain w.tasks.len (w.slotAt level slot).head expired

/-- `Wheel::process_l0_slot`. -/
def processL0Slot (expired : List (Expired T)) : WheelM T (List (Expired T)) := do
  let w ← get
  processSlot 0 (w.currentTick &&& (w.levels.getD 0 default).mask) expired

/-- The loop of `cascade_at_current_tick` over the levels `n, .., 1`. -/
def cascade : Nat → List (Expired T) → WheelM T (List (Expired T))
  | 0, expired => pure expired
  | level + 1, expired => do
      let w ← get
      let lv := w.levels.getD (level + 1) default
      let expired ←
        if w.currentTick % lv.unitTicks = 0 then
          processSlot (level + 1) ((w.currentTick / lv.unitTicks) &&& lv.mask) expired
        else pure expired
      cascade level expired

/-- `Wheel::cascade_at_current_tick`. -/
def cascadeAtCurrentTick (expired : List (Expired T)) : WheelM T (List (Expired T)) := do
  cascade ((← get).levels.length - 1) expired

/-- The work of one tick: the higher levels first, then level 0. -/
def processTick (expired : List (Expired T)) : WheelM T (List (Expired T)) := do
  let expired ← cascadeAtCurrentTick expired
  processL0Slot expired

/-- The `while` of `advance_by`: `n` more ticks. -/
def tickLoop : Nat → List (Expired T) → WheelM T (List (Expired T))
  | 0, expired => pure expired
  | n + 1, expired => do
      modify fun w => { w with currentTick := w.currentTick + 1 }
      let expired ← processTick expired
      tickLoop n expired

/-- The loop of `fast_forward` over the keys taken before it. -/
def settleAll : List Nat → List (Expired T) → WheelM T (List (Expired T))
  | [], expired => pure expired
  | key :: keys, expired => do
      let expired ← settleTask key expired
      settleAll keys expired

/-- `Wheel::fast_forward`. The slot map enumerates its keys in an order of its
own, which `keys` stands for. -/
def fastForward (keys : List Nat) (targetTick : Nat) (expired : List (Expired T)) :
    WheelM T (List (Expired T)) := do
  modify fun w =>
    { w with levels := w.levels.map Level.clearSlots, currentTick := targetTick }
  settleAll keys expired

/-- The choice of `advance_by` between the two ways to go `elapsedTicks` on. -/
def advanceTicks (keys : List Nat) (elapsedTicks targetTick : Nat) (expired : List (Expired T)) :
    WheelM T (List (Expired T)) :=
  if elapsedTicks > smallAdvanceLimit then fastForward keys targetTick expired
  else do
    let expired ← processTick expired
    tickLoop elapsedTicks expired

/-- `Wheel::advance_by`, for a given enumeration of the slot map. -/
def advanceAlong (keys : List Nat) (elapsed : Nat) (expired : List (Expired T)) :
    WheelM T (AdvanceReport × List (Expired T)) := do
  let w ← get
  if elapsed > u64Max then throw .elapsedOverflow
  match checkedAdd w.remainderNanos elapsed with
  | none => throw .elapsedOverflow
  | some totalNanos =>
      let elapsedTicks := totalNanos / w.baseTickNanos
      match checkedAdd w.currentTick elapsedTicks with
      | none => throw .clockOverflow
      | some targetTick =>
          modify fun w => { w with remainderNanos := totalNanos % w.baseTickNanos }
          let grown ← advanceTicks keys elapsedTicks targetTick expired
          pure
            (⟨elapsedTicks, grown.length - expired.length, elapsedTicks > smallAdvanceLimit⟩,
              grown)

/-- `Wheel::advance_by`: the report and the grown list of expired timers. -/
def advanceBy (elapsed : Nat) (expired : List (Expired T)) :
    WheelM T (AdvanceReport × List (Expired T)) := do
  advanceAlong (← get).tasks.keys elapsed expired

/-! ## Reading the next deadline -/

/-- `Wheel::duration_until_tick`. -/
def Wheel.durationUntilTick (w : Wheel T) (deadlineTick : Nat) : Except TimerError Nat :=
  if deadlineTick ≤ w.currentTick then .ok 0
  else
    let total := (deadlineTick - w.currentTick) * w.baseTickNanos
    if total ≥ 2 ^ 128 || total < w.remainderNanos then .error .deadlineOverflow
    else if (total - w.remainderNanos) / 1000000000 > u64Max then .error .deadlineOverflow
    else .ok (total - w.remainderNanos)

/-- `Wheel::next_deadline`. -/
def Wheel.nextDeadline (w : Wheel T) : Except TimerError (Option Nat) :=
  match w.deadlineHeap.head? with
  | none => if w.tasks.len = 0 then .ok none else .error .invariantViolation
  | some node =>
      match w.tasks.get? node.key with
      | none => .error .invariantViolation
      | some e =>
          if e.deadlineTick ≠ node.deadlineTick then .error .invariantViolation
          else (w.durationUntilTick node.deadlineTick).map some

end DartUdp.TimeWheel
