import DartUdp.Lib.Dll
import DartUdp.Proofs.WheelHeap
import Mathlib.Data.List.Nodup

/-!
# The slots' lists hold every task once

`Lists` says what the links of the tasks and the ends of the slots spell out:
for every slot a list of tasks, each of which records that slot, such that
every task of the wheel stands in the list it records. The tasks `out` are the
exception. They are in the store but in no list: a slot that is being emptied
has its tasks there until each is expired or linked anew.

Linking and unlinking keep `Lists`, so their lookups do not fail, and they
touch nothing but links, positions and slots, which is what `LinkMoved` says.

The results are `link_ok` and `unlink_ok`.
-/

namespace DartUdp.TimeWheel

open DartUdp.Lib

variable {T : Type}

/-! ## Slots -/

/-- The derived parameters of a level, which no operation changes. -/
def Level.config (lv : Level) : LevelConfig :=
  ⟨lv.unitTicks, lv.spanTicks, lv.slots.length, lv.mask⟩

def Wheel.configs (w : Wheel T) : List LevelConfig := w.levels.map Level.config

/-- The slot `slot` of level `level` exists. -/
def Wheel.HasSlot (w : Wheel T) (level slot : Nat) : Prop :=
  level < w.levels.length ∧ slot < ((w.levels.getD level default).slots).length

theorem configs_setSlot (w : Wheel T) (level slot : Nat) (s : Slot) :
    (w.setSlot level slot s).configs = w.configs := by
  simp only [Wheel.configs, Wheel.setSlot]
  apply List.ext_getElem? fun i => ?_
  simp only [List.getElem?_map, List.getElem?_modify]
  cases w.levels[i]? with
  | none => rfl
  | some lv =>
      by_cases h : level = i
      · simp [h, Level.config]
      · simp [h]

theorem slotAt_setSlot {w : Wheel T} {level slot : Nat} (h : w.HasSlot level slot) (s : Slot)
    (l' s' : Nat) :
    (w.setSlot level slot s).slotAt l' s' =
      if l' = level ∧ s' = slot then s else w.slotAt l' s' := by
  obtain ⟨hl, hs⟩ := h
  simp only [Wheel.slotAt, Wheel.setSlot, List.getD_eq_getElem?_getD, List.getElem?_modify] at hs ⊢
  by_cases h1 : l' = level
  · subst h1
    rw [List.getElem?_eq_getElem hl] at hs ⊢
    simp only [Option.getD_some] at hs
    by_cases h2 : s' = slot
    · subst h2
      simp [hs]
    · simp [h2, Ne.symm h2]
  · simp [h1, Ne.symm h1]

theorem slotAt_of_not_hasSlot {w : Wheel T} {level slot : Nat} (h : ¬ w.HasSlot level slot) :
    w.slotAt level slot = Slot.empty := by
  simp only [Wheel.slotAt, List.getD_eq_getElem?_getD]
  by_cases hl : level < w.levels.length
  · have hs : ¬ slot < ((w.levels.getD level default).slots).length := fun hs => h ⟨hl, hs⟩
    simp only [List.getD_eq_getElem?_getD] at hs
    rw [List.getElem?_eq_none (by omega)]
    rfl
  · rw [List.getElem?_eq_none (l := w.levels) (by omega)]
    rfl

/-- Whether a slot exists is read off the derived parameters. -/
theorem hasSlot_iff {w : Wheel T} {level slot : Nat} :
    w.HasSlot level slot ↔ ∃ lv, w.configs[level]? = some lv ∧ slot < lv.slotCount := by
  simp only [Wheel.HasSlot, Wheel.configs, List.getElem?_map, List.getD_eq_getElem?_getD]
  constructor
  · rintro ⟨hl, hs⟩
    rw [List.getElem?_eq_getElem hl] at hs ⊢
    exact ⟨_, rfl, hs⟩
  · rintro ⟨lv, hlv, hs⟩
    obtain ⟨lv₀, h0, rfl⟩ := Option.map_eq_some_iff.1 hlv
    refine ⟨(List.getElem?_eq_some_iff.1 h0).1, ?_⟩
    rw [h0]
    exact hs

theorem slotAt_clearSlots (w : Wheel T) (l s : Nat) :
    ({ w with levels := w.levels.map Level.clearSlots } : Wheel T).slotAt l s = Slot.empty := by
  simp only [Wheel.slotAt, List.getD_eq_getElem?_getD, List.getElem?_map]
  cases w.levels[l]? with
  | none => rfl
  | some lv =>
      simp only [Option.map_some, Option.getD_some, Level.clearSlots, List.getElem?_map]
      cases lv.slots[s]? <;> rfl

theorem configs_clearSlots (w : Wheel T) :
    ({ w with levels := w.levels.map Level.clearSlots } : Wheel T).configs = w.configs := by
  simp only [Wheel.configs, List.map_map]
  apply List.map_congr_left
  intro lv _
  simp [Level.config, Level.clearSlots]

/-! ## The invariant -/

def Wheel.prevOf (w : Wheel T) (k : Nat) : Option Nat := ((w.tasks.get? k).map (·.prev)).join

def Wheel.nextOf (w : Wheel T) (k : Nat) : Option Nat := ((w.tasks.get? k).map (·.next)).join

/-- The level and slot a task records. -/
def Wheel.posOf (w : Wheel T) (k : Nat) : Option (Nat × Nat) :=
  (w.tasks.get? k).map fun e => (e.level, e.slot)

/-- The slots' lists are `ch`, and hold all tasks but those in `out`. -/
structure Lists (w : Wheel T) (ch : Nat → Nat → List Nat) (out : Nat → Prop) : Prop where
  dll : ∀ l s, IsDll w.prevOf w.nextOf (w.slotAt l s).head (w.slotAt l s).tail (ch l s)
  linked : ∀ l s, ∀ k ∈ ch l s, ¬ out k ∧ w.posOf k = some (l, s)
  task : ∀ k l s, w.posOf k = some (l, s) → ¬ out k → k ∈ ch l s

/-- An entry without its place in the slots. -/
def WheelEntry.core (e : WheelEntry T) : WheelEntry T :=
  { e with level := 0, slot := 0, prev := none, next := none }

/-- `w'` differs from `w` in the slots and the tasks' places only. -/
structure LinkMoved (w w' : Wheel T) : Prop where
  tasks : ∀ k, (w'.tasks.get? k).map WheelEntry.core = (w.tasks.get? k).map WheelEntry.core
  next : w'.tasks.next = w.tasks.next
  heap : w'.deadlineHeap = w.deadlineHeap
  configs : w'.configs = w.configs
  tick : w'.currentTick = w.currentTick
  rem : w'.remainderNanos = w.remainderNanos
  base : w'.baseTickNanos = w.baseTickNanos

theorem LinkMoved.trans {w₁ w₂ w₃ : Wheel T} (h : LinkMoved w₁ w₂) (h' : LinkMoved w₂ w₃) :
    LinkMoved w₁ w₃ :=
  ⟨fun k => (h'.tasks k).trans (h.tasks k), h'.next.trans h.next, h'.heap.trans h.heap,
    h'.configs.trans h.configs, h'.tick.trans h.tick, h'.rem.trans h.rem, h'.base.trans h.base⟩

/-- Rewriting places keeps the heap in step. -/
theorem LinkMoved.heapSync {w w' : Wheel T} {m : List Nat} (h : LinkMoved w w')
    (hs : HeapSync w m) : HeapSync w' m := by
  apply hs.congr h.heap
  intro k
  have := congrArg (Option.map WheelEntry.heapIndex) (h.tasks k)
  simpa [Option.map_map, Function.comp_def, WheelEntry.core] using this

namespace Lists

variable {w w' : Wheel T} {ch : Nat → Nat → List Nat} {out out' : Nat → Prop}

theorem hasSlot (h : Lists w ch out) {l s k : Nat} (hk : k ∈ ch l s) : w.HasSlot l s := by
  by_contra hns
  have := (h.dll l s).head_eq
  rw [slotAt_of_not_hasSlot hns] at this
  have hnil := List.head?_eq_none_iff.1 this.symm
  rw [hnil] at hk
  cases hk

/-- Links, positions and slots are all `Lists` looks at. -/
theorem congr (h : Lists w ch out) (hp : w'.prevOf = w.prevOf) (hn : w'.nextOf = w.nextOf)
    (hpos : w'.posOf = w.posOf) (hs : w'.slotAt = w.slotAt) : Lists w' ch out :=
  ⟨by rw [hp, hn, hs]; exact h.dll, by rw [hpos]; exact h.linked, by rw [hpos]; exact h.task⟩

theorem heapMoved (h : Lists w ch out) (hm : HeapMoved w w') : Lists w' ch out := by
  have hget : ∀ {α : Type} (f : WheelEntry T → α), (∀ e : WheelEntry T, f e.strip = f e) →
      ∀ k, (w'.tasks.get? k).map f = (w.tasks.get? k).map f := by
    intro α f hf k
    have hcomp : f ∘ WheelEntry.strip = f := funext hf
    have := congrArg (Option.map f) (hm.tasks k)
    simpa only [Option.map_map, hcomp] using this
  refine h.congr (funext fun k => congrArg Option.join (hget _ (fun _ => rfl) k))
    (funext fun k => congrArg Option.join (hget _ (fun _ => rfl) k))
    (funext (hget _ fun _ => rfl)) ?_
  funext l s
  simp only [Wheel.slotAt, hm.levels]

/-- A task in no list may leave the store. -/
theorem remove {key : Nat} (h : Lists w ch out) (hkey : out key) :
    Lists { w with tasks := w.tasks.remove key } ch (fun k => out k ∧ k ≠ key) := by
  have hne : ∀ l s, ∀ k ∈ ch l s, k ≠ key := by
    rintro l s k hk rfl
    exact (h.linked l s k hk).1 hkey
  refine ⟨fun l s => ?_, fun l s k hk => ?_, fun k l s hpos hk => ?_⟩
  · apply (h.dll l s).congr
    · intro k hk
      simp [Wheel.prevOf, SlotMap.get?_remove, hne l s k hk]
    · intro k hk
      simp [Wheel.nextOf, SlotMap.get?_remove, hne l s k hk]
  · obtain ⟨h1, h2⟩ := h.linked l s k hk
    refine ⟨fun hx => h1 hx.1, ?_⟩
    simpa [Wheel.posOf, SlotMap.get?_remove, hne l s k hk] using h2
  · simp only [Wheel.posOf, SlotMap.get?_remove] at hpos
    split at hpos
    · cases hpos
    · next hkne => exact h.task k l s hpos fun hx => hk ⟨hx, hkne⟩

/-- What `link` leaves behind: `key` stands at the end of its new list. -/
theorem push {key l s : Nat} {e : WheelEntry T} (h : Lists w ch out) (hkey : out key)
    (hslot : ∀ l' s', w'.slotAt l' s' =
      if l' = l ∧ s' = s then ⟨(w.slotAt l s).head.or (some key), some key⟩
      else w.slotAt l' s')
    (hget : ∀ k, w'.tasks.get? k =
      if k = key then
        some { e with level := l, slot := s, prev := (w.slotAt l s).tail, next := none }
      else if (w.slotAt l s).tail = some k then
        (w.tasks.get? k).map fun e => { e with next := some key }
      else w.tasks.get? k) :
    Lists w' (fun l' s' => if l' = l ∧ s' = s then ch l s ++ [key] else ch l' s')
      (fun k => out k ∧ k ≠ key) := by
  have hne : ∀ l' s', ∀ k ∈ ch l' s', k ≠ key := by
    rintro l' s' k hk rfl
    exact (h.linked l' s' k hk).1 hkey
  have hsome : ∀ l' s', ∀ k ∈ ch l' s', ∃ e, w.tasks.get? k = some e := by
    intro l' s' k hk
    obtain ⟨e, he, _⟩ := Option.map_eq_some_iff.1 (h.linked l' s' k hk).2
    exact ⟨e, he⟩
  -- The old last member is in the list at `(l, s)` and in no other.
  have htail : ∀ l' s' k, k ∈ ch l' s' → (w.slotAt l s).tail = some k → l' = l ∧ s' = s := by
    intro l' s' k hk ht
    have h1 := (h.linked l' s' k hk).2
    have h2 := (h.linked l s k ((h.dll l s).tail_mem ht)).2
    rw [h1] at h2
    simpa using h2
  have hprev : ∀ l' s', ∀ k ∈ ch l' s', w'.prevOf k = w.prevOf k := by
    intro l' s' k hk
    obtain ⟨e', he'⟩ := hsome l' s' k hk
    simp only [Wheel.prevOf, hget, if_neg (hne l' s' k hk)]
    split <;> simp [he']
  have hnext : ∀ l' s', ∀ k ∈ ch l' s', (w.slotAt l s).tail ≠ some k →
      w'.nextOf k = w.nextOf k := by
    intro l' s' k hk ht
    simp only [Wheel.nextOf, hget, if_neg (hne l' s' k hk), if_neg ht]
  have hpos : ∀ k, w'.posOf k = if k = key then some (l, s) else w.posOf k := by
    intro k
    simp only [Wheel.posOf, hget]
    split
    · rfl
    · split
      · cases w.tasks.get? k <;> rfl
      · rfl
  refine ⟨fun l' s' => ?_, fun l' s' k hk => ?_, fun k l' s' hk hout => ?_⟩
  · rw [hslot]
    split
    · refine (h.dll l s).push (fun hk => hne l s key hk rfl) (hprev l s) ?_ (hnext l s) ?_ ?_
      · simp [Wheel.prevOf, hget]
      · intro k ht
        have hk := (h.dll l s).tail_mem ht
        obtain ⟨e', he'⟩ := hsome l s k hk
        simp [Wheel.nextOf, hget, hne l s k hk, ht, he']
      · simp [Wheel.nextOf, hget]
    · next hls =>
        exact (h.dll l' s').congr (hprev l' s')
          fun k hk => hnext l' s' k hk fun ht => hls (htail l' s' k hk ht)
  · rw [hpos]
    split at hk
    · next hls =>
        obtain ⟨rfl, rfl⟩ := hls
        rcases List.mem_append.1 hk with hk | hk
        · rw [if_neg (hne _ _ k hk)]
          exact ⟨fun hx => (h.linked _ _ k hk).1 hx.1, (h.linked _ _ k hk).2⟩
        · obtain rfl := List.mem_singleton.1 hk
          exact ⟨fun hx => hx.2 rfl, by simp⟩
    · rw [if_neg (hne _ _ k hk)]
      exact ⟨fun hx => (h.linked _ _ k hk).1 hx.1, (h.linked _ _ k hk).2⟩
  · rw [hpos] at hk
    split at hk
    · next hkk =>
        obtain ⟨rfl, rfl⟩ : l = l' ∧ s = s' := by simpa using hk
        rw [if_pos ⟨rfl, rfl⟩, hkk]
        simp
    · next hkk =>
        have := h.task k l' s' hk fun hx => hout ⟨hx, hkk⟩
        split
        · next hls => obtain ⟨rfl, rfl⟩ := hls; simp [this]
        · exact this

end Lists

/-! ## Linking and unlinking -/

theorem link_ok {w : Wheel T} {ch : Nat → Nat → List Nat} {out : Nat → Prop} {key l s : Nat}
    {e : WheelEntry T} (h : Lists w ch out) (hkey : out key) (he : w.tasks.get? key = some e)
    (hs : w.HasSlot l s) :
    ∃ w' ch', link key l s w = .ok () w' ∧ Lists w' ch' (fun k => out k ∧ k ≠ key) ∧
      LinkMoved w w' ∧ (∀ k, w'.posOf k = if k = key then some (l, s) else w.posOf k) ∧
      (∀ k, out k → k ≠ key → w'.tasks.get? k = w.tasks.get? k) := by
  have hdll := h.dll l s
  -- Either way the new wheel is the one `Lists.push` describes.
  suffices hrun : ∃ w', link key l s w = .ok () w' ∧
      (∀ l' s', w'.slotAt l' s' =
        if l' = l ∧ s' = s then ⟨(w.slotAt l s).head.or (some key), some key⟩
        else w.slotAt l' s') ∧
      (∀ k, w'.tasks.get? k =
        if k = key then
          some { e with level := l, slot := s, prev := (w.slotAt l s).tail, next := none }
        else if (w.slotAt l s).tail = some k then
          (w.tasks.get? k).map fun e => { e with next := some key }
        else w.tasks.get? k) ∧
      w'.tasks.next = w.tasks.next ∧ w'.deadlineHeap = w.deadlineHeap ∧
      w'.configs = w.configs ∧ w'.currentTick = w.currentTick ∧
      w'.remainderNanos = w.remainderNanos ∧ w'.baseTickNanos = w.baseTickNanos by
    obtain ⟨w', hrun, hslot, hget, h1, h2, h3, h4, h5, h6⟩ := hrun
    refine ⟨w', _, hrun, h.push hkey hslot hget, ⟨fun k => ?_, h1, h2, h3, h4, h5, h6⟩,
      fun k => ?_, fun k hk hne => ?_⟩
    · rw [hget]
      split
      · next hk => rw [hk, he]; rfl
      · split
        · cases w.tasks.get? k <;> rfl
        · rfl
    · simp only [Wheel.posOf, hget]
      split
      · rfl
      · split
        · cases w.tasks.get? k <;> rfl
        · rfl
    · rw [hget, if_neg hne, if_neg]
      intro ht
      exact (h.linked l s k (hdll.tail_mem ht)).1 hk
  cases hhead : (w.slotAt l s).head with
  | none =>
      have hnil := List.head?_eq_none_iff.1 (hdll.head_eq.symm.trans hhead)
      have htail : (w.slotAt l s).tail = none := by rw [hdll.tail_eq, hnil]; rfl
      refine ⟨{ w.setSlot l s ⟨some key, some key⟩ with
        tasks := w.tasks.modify key fun e =>
          { e with level := l, slot := s, prev := none, next := none } },
        ?_, ?_, ?_, rfl, rfl, configs_setSlot w l s _, rfl, rfl, rfl⟩
      · simp only [link]
        rw [bind_ok (get_run w)]
        simp only [hhead, Option.isNone_none, if_true]
        rw [bind_ok (modify_run _ w)]
        exact modifyEntry_run (w := w.setSlot l s ⟨some key, some key⟩) he
      · exact slotAt_setSlot hs _
      · intro k
        simp only [SlotMap.get?_modify, htail]
        split
        · next hk => rw [hk, he]; rfl
        · rfl
  | some hd =>
      obtain ⟨old, htail⟩ : ∃ old, (w.slotAt l s).tail = some old := by
        cases ht : (w.slotAt l s).tail with
        | some old => exact ⟨old, rfl⟩
        | none =>
            have hnil := List.getLast?_eq_none_iff.1 (hdll.tail_eq.symm.trans ht)
            have := hdll.head_eq
            rw [hnil, hhead] at this
            cases this
      have holdk : old ≠ key := by
        rintro rfl
        exact (h.linked l s old (hdll.tail_mem htail)).1 hkey
      obtain ⟨eo, heo, _⟩ := Option.map_eq_some_iff.1 (h.linked l s old (hdll.tail_mem htail)).2
      let t₁ := w.tasks.modify old fun e => { e with next := some key }
      have he₁ : t₁.get? key = some e := by
        simp [t₁, SlotMap.get?_modify, Ne.symm holdk, he]
      let w₂ : Wheel T :=
        { w with
          tasks := t₁.modify key fun e =>
            { e with level := l, slot := s, prev := some old, next := none } }
      refine ⟨w₂.setSlot l s { w.slotAt l s with tail := some key }, ?_, ?_, ?_, rfl, rfl,
        configs_setSlot w₂ l s _, rfl, rfl, rfl⟩
      · simp only [link]
        rw [bind_ok (get_run w)]
        simp only [hhead, Option.isNone_some, Bool.false_eq_true, if_false, htail]
        have h1 := modifyEntry_run (f := fun e => { e with next := some key }) heo
        have h2 := modifyEntry_run (w := { w with tasks := t₁ }) (f := fun e =>
          { e with level := l, slot := s, prev := some old, next := none }) he₁
        exact (bind_ok h1).trans (bind_ok h2)
      · intro l' s'
        rw [slotAt_setSlot (w := w₂) hs]
        simp only [hhead, Option.or_some]
        rfl
      · intro k
        simp only [Wheel.setSlot, w₂, t₁, SlotMap.get?_modify, htail, Option.some.injEq]
        by_cases hk : k = key
        · simp [hk, he, Ne.symm holdk]
        · simp only [hk, if_false, eq_comm]

/-- What `unlink` leaves behind: the neighbours of `key` are linked to each
other. -/
theorem Lists.erase {w w' : Wheel T} {ch : Nat → Nat → List Nat} {key l s : Nat}
    {a b : List Nat} (h : Lists w ch fun _ => False) (hch : ch l s = a ++ key :: b)
    (hslot : ∀ l' s', w'.slotAt l' s' =
      if l' = l ∧ s' = s then
        ⟨if (w.prevOf key).isNone then w.nextOf key else (w.slotAt l s).head,
          if (w.nextOf key).isNone then w.prevOf key else (w.slotAt l s).tail⟩
      else w.slotAt l' s')
    (hprev : ∀ k, k ≠ key →
      w'.prevOf k = if w.nextOf key = some k then w.prevOf key else w.prevOf k)
    (hnext : ∀ k, k ≠ key →
      w'.nextOf k = if w.prevOf key = some k then w.nextOf key else w.nextOf k)
    (hpos : w'.posOf = w.posOf) :
    Lists w' (fun l' s' => if l' = l ∧ s' = s then a ++ b else ch l' s') (· = key) := by
  have hdll := h.dll l s
  rw [hch] at hdll
  have hmem : ∀ k ∈ a ++ b, k ≠ key ∧ k ∈ ch l s := by
    intro k hk
    have hnd := hdll.nodup
    rw [List.nodup_middle, List.nodup_cons] at hnd
    refine ⟨fun heq => hnd.1 (heq ▸ hk), ?_⟩
    rw [hch]
    rcases List.mem_append.1 hk with hk | hk <;> simp [hk]
  have hkey : w.posOf key = some (l, s) := (h.linked l s key (by rw [hch]; simp)).2
  -- The neighbours of `key` stand in its own list.
  have hnbr : ∀ l' s' k, k ∈ ch l' s' → (w.nextOf key = some k ∨ w.prevOf key = some k) →
      l' = l ∧ s' = s := by
    intro l' s' k hk hn
    obtain ⟨hlp, hln⟩ := hdll.links a key b rfl
    have hk' : k ∈ a ++ b := by
      rcases hn with hn | hn
      · rw [hln] at hn; exact List.mem_append_right _ (List.mem_of_head? hn)
      · rw [hlp] at hn; exact List.mem_append_left _ (List.mem_of_getLast? hn)
    have h1 := (h.linked l' s' k hk).2
    rw [(h.linked l s k (hmem k hk').2).2] at h1
    obtain ⟨rfl, rfl⟩ : l = l' ∧ s = s' := by simpa using h1
    exact ⟨rfl, rfl⟩
  have hother : ∀ l' s', ¬ (l' = l ∧ s' = s) → ∀ k ∈ ch l' s', k ≠ key := by
    rintro l' s' hls k hk rfl
    have := (h.linked l' s' k hk).2
    rw [hkey] at this
    obtain ⟨rfl, rfl⟩ : l = l' ∧ s = s' := by simpa using this
    exact hls ⟨rfl, rfl⟩
  refine ⟨fun l' s' => ?_, fun l' s' k hk => ?_, fun k l' s' hk hout => ?_⟩
  · rw [hslot]
    split
    · exact hdll.erase (fun k hk => hprev k (hmem k hk).1) fun k hk => hnext k (hmem k hk).1
    · next hls =>
        apply (h.dll l' s').congr
        · intro k hk
          rw [hprev k (hother l' s' hls k hk), if_neg]
          exact fun hn => hls (hnbr l' s' k hk (.inl hn))
        · intro k hk
          rw [hnext k (hother l' s' hls k hk), if_neg]
          exact fun hn => hls (hnbr l' s' k hk (.inr hn))
  · rw [hpos]
    split at hk
    · next hls =>
        obtain ⟨rfl, rfl⟩ := hls
        exact ⟨(hmem k hk).1, (h.linked _ _ k (hmem k hk).2).2⟩
    · next hls => exact ⟨hother l' s' hls k hk, (h.linked l' s' k hk).2⟩
  · rw [hpos] at hk
    have := h.task k l' s' hk id
    split
    · next hls =>
        obtain ⟨rfl, rfl⟩ := hls
        rw [hch] at this
        have hkey : k ≠ key := hout
        simpa [hkey] using this
    · exact this

/-- The wheel `unlinkPrev` leaves. -/
def repairPrev (e : WheelEntry T) (w : Wheel T) : Wheel T :=
  match e.prev with
  | some prev => { w with tasks := w.tasks.modify prev fun p => { p with next := e.next } }
  | none => w.setSlot e.level e.slot { w.slotAt e.level e.slot with head := e.next }

/-- The wheel `unlinkNext` leaves. -/
def repairNext (e : WheelEntry T) (w : Wheel T) : Wheel T :=
  match e.next with
  | some next => { w with tasks := w.tasks.modify next fun n => { n with prev := e.prev } }
  | none => w.setSlot e.level e.slot { w.slotAt e.level e.slot with tail := e.prev }

theorem get?_repairPrev (e : WheelEntry T) (w : Wheel T) (k : Nat) :
    (repairPrev e w).tasks.get? k =
      if e.prev = some k then (w.tasks.get? k).map fun p => { p with next := e.next }
      else w.tasks.get? k := by
  unfold repairPrev
  split
  · next hprev => simp [hprev, SlotMap.get?_modify, eq_comm]
  · next hprev => simp [hprev, Wheel.setSlot]

theorem get?_repairNext (e : WheelEntry T) (w : Wheel T) (k : Nat) :
    (repairNext e w).tasks.get? k =
      if e.next = some k then (w.tasks.get? k).map fun n => { n with prev := e.prev }
      else w.tasks.get? k := by
  unfold repairNext
  split
  · next hnext => simp [hnext, SlotMap.get?_modify, eq_comm]
  · next hnext => simp [hnext, Wheel.setSlot]

theorem slotAt_repairPrev {e : WheelEntry T} {w : Wheel T} (h : w.HasSlot e.level e.slot)
    (l s : Nat) :
    (repairPrev e w).slotAt l s =
      if l = e.level ∧ s = e.slot then
        { w.slotAt l s with head := if e.prev.isNone then e.next else (w.slotAt l s).head }
      else w.slotAt l s := by
  unfold repairPrev
  split
  · next hprev => simp [hprev, Wheel.slotAt]
  · next hprev =>
      rw [slotAt_setSlot h]
      split
      · next hls => obtain ⟨rfl, rfl⟩ := hls; simp [hprev]
      · rfl

theorem slotAt_repairNext {e : WheelEntry T} {w : Wheel T} (h : w.HasSlot e.level e.slot)
    (l s : Nat) :
    (repairNext e w).slotAt l s =
      if l = e.level ∧ s = e.slot then
        { w.slotAt l s with tail := if e.next.isNone then e.prev else (w.slotAt l s).tail }
      else w.slotAt l s := by
  unfold repairNext
  split
  · next hnext => simp [hnext, Wheel.slotAt]
  · next hnext =>
      rw [slotAt_setSlot h]
      split
      · next hls => obtain ⟨rfl, rfl⟩ := hls; simp [hnext]
      · rfl

theorem repairPrev_linkMoved (e : WheelEntry T) (w : Wheel T) :
    LinkMoved w (repairPrev e w) := by
  refine ⟨fun k => ?_, ?_, ?_, ?_, ?_, ?_, ?_⟩
  · rw [get?_repairPrev]
    split
    · cases w.tasks.get? k <;> rfl
    · rfl
  all_goals
    unfold repairPrev
    split
    · rfl
    · first | rfl | exact configs_setSlot _ _ _ _

theorem repairNext_linkMoved (e : WheelEntry T) (w : Wheel T) :
    LinkMoved w (repairNext e w) := by
  refine ⟨fun k => ?_, ?_, ?_, ?_, ?_, ?_, ?_⟩
  · rw [get?_repairNext]
    split
    · cases w.tasks.get? k <;> rfl
    · rfl
  all_goals
    unfold repairNext
    split
    · rfl
    · first | rfl | exact configs_setSlot _ _ _ _

/-- `unlink` is the two repairs and the reset of the task's own links. -/
theorem unlink_run {w : Wheel T} {key : Nat} {e : WheelEntry T}
    (he : w.tasks.get? key = some e) (hs : w.HasSlot e.level e.slot)
    (hnbr : ∀ k, e.prev = some k ∨ e.next = some k → ∃ e', w.tasks.get? k = some e') :
    unlink key w = .ok ()
      { repairNext e (repairPrev e w) with
        tasks := (repairNext e (repairPrev e w)).tasks.modify key fun e =>
          { e with prev := none, next := none } } := by
  have hsome : ∀ k e', w.tasks.get? k = some e' →
      (∃ e₁, (repairPrev e w).tasks.get? k = some e₁) ∧
        ∃ e₂, (repairNext e (repairPrev e w)).tasks.get? k = some e₂ := by
    intro k e' hk
    rw [get?_repairNext, get?_repairPrev, hk]
    constructor <;> repeat' split
    all_goals exact ⟨_, rfl⟩
  have hprev : unlinkPrev e w = .ok () (repairPrev e w) := by
    unfold unlinkPrev repairPrev
    cases hp : e.prev with
    | some prev =>
        obtain ⟨e', he'⟩ := hnbr prev (.inl hp)
        exact modifyEntry_run he'
    | none => rfl
  have hnext : unlinkNext e (repairPrev e w) = .ok () (repairNext e (repairPrev e w)) := by
    unfold unlinkNext repairNext
    cases hn : e.next with
    | some next =>
        obtain ⟨e', he'⟩ := hnbr next (.inr hn)
        obtain ⟨⟨e₁, he₁⟩, _⟩ := hsome next e' he'
        exact modifyEntry_run he₁
    | none => rfl
  obtain ⟨_, e₂, he₂⟩ := hsome key e he
  simp only [unlink]
  rw [bind_ok (entry_run he), bind_ok (get_run w), if_neg, bind_ok hprev, bind_ok hnext]
  · exact modifyEntry_run he₂
  · simp only [Bool.or_eq_true, decide_eq_true_eq, not_or]
    exact ⟨by have := hs.1; omega, by have := hs.2; omega⟩

theorem unlink_ok {w : Wheel T} {ch : Nat → Nat → List Nat} {key : Nat} {e : WheelEntry T}
    (h : Lists w ch fun _ => False) (he : w.tasks.get? key = some e) :
    ∃ w' ch', unlink key w = .ok () w' ∧ Lists w' ch' (· = key) ∧ LinkMoved w w' ∧
      w'.posOf = w.posOf := by
  have hpos : w.posOf key = some (e.level, e.slot) := by simp [Wheel.posOf, he]
  have hin := h.task key _ _ hpos id
  obtain ⟨a, b, hch⟩ := List.append_of_mem hin
  have hs := h.hasSlot hin
  have hs₁ : (repairPrev e w).HasSlot e.level e.slot := by
    rw [hasSlot_iff, (repairPrev_linkMoved e w).configs, ← hasSlot_iff]
    exact hs
  have hdll := h.dll e.level e.slot
  rw [hch] at hdll
  obtain ⟨hlp, hln⟩ := hdll.links a key b rfl
  have hp : w.prevOf key = e.prev := by simp [Wheel.prevOf, he]
  have hn : w.nextOf key = e.next := by simp [Wheel.nextOf, he]
  have hnbr : ∀ k, e.prev = some k ∨ e.next = some k → ∃ e', w.tasks.get? k = some e' := by
    intro k hk
    have hkc : k ∈ ch e.level e.slot := by
      rw [hch]
      rcases hk with hk | hk
      · rw [← hp, hlp] at hk
        exact List.mem_append_left _ (List.mem_of_getLast? hk)
      · rw [← hn, hln] at hk
        exact List.mem_append_right _ (List.mem_cons_of_mem _ (List.mem_of_head? hk))
    obtain ⟨e', he', _⟩ := Option.map_eq_some_iff.1 (h.linked _ _ k hkc).2
    exact ⟨e', he'⟩
  let w₂ := repairNext e (repairPrev e w)
  let w₃ : Wheel T :=
    { w₂ with tasks := w₂.tasks.modify key fun e => { e with prev := none, next := none } }
  have hget : ∀ k, w₃.tasks.get? k =
      if k = key then (w₂.tasks.get? k).map fun e => { e with prev := none, next := none }
      else w₂.tasks.get? k := fun k => SlotMap.get?_modify _ _ _ _
  have hmoved : LinkMoved w w₃ := by
    have hlast : LinkMoved w₂ w₃ := by
      refine ⟨fun k => ?_, rfl, rfl, rfl, rfl, rfl, rfl⟩
      rw [hget]
      split
      · cases w₂.tasks.get? k <;> rfl
      · rfl
    exact ((repairPrev_linkMoved e w).trans (repairNext_linkMoved e _)).trans hlast
  have hposOf : w₃.posOf = w.posOf := by
    funext k
    simp only [Wheel.posOf, hget, w₂, get?_repairNext, get?_repairPrev]
    cases w.tasks.get? k <;> repeat' split
    all_goals rfl
  refine ⟨w₃, _, unlink_run he hs hnbr, h.erase hch ?_ ?_ ?_ hposOf, hmoved, hposOf⟩
  · intro l' s'
    show w₂.slotAt l' s' = _
    rw [slotAt_repairNext hs₁, slotAt_repairPrev hs, hp, hn]
    split
    · next hls => obtain ⟨rfl, rfl⟩ := hls; rfl
    · rfl
  · intro k hk
    rw [hn, hp]
    simp only [Wheel.prevOf, hget, if_neg hk, w₂, get?_repairNext, get?_repairPrev]
    by_cases hnk : e.next = some k
    · obtain ⟨e', he'⟩ := hnbr k (.inr hnk)
      rw [if_pos hnk, if_pos hnk, he']
      split <;> rfl
    · rw [if_neg hnk, if_neg hnk]
      cases w.tasks.get? k <;> split <;> rfl
  · intro k hk
    rw [hn, hp]
    simp only [Wheel.nextOf, hget, if_neg hk, w₂, get?_repairNext, get?_repairPrev]
    by_cases hpk : e.prev = some k
    · obtain ⟨e', he'⟩ := hnbr k (.inl hpk)
      rw [if_pos hpk, if_pos hpk, he']
      split <;> rfl
    · rw [if_neg hpk, if_neg hpk]
      cases w.tasks.get? k <;> split <;> rfl

end DartUdp.TimeWheel
