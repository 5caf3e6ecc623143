import DartUdp.Proofs.WheelAdvance
import DartUdp.TimeWheel.TimerMap

/-!
# The wheel refines the timer map

`Shows` relates a wheel to the map it stands for: the wheel's clock and
sub-tick remainder add up to the elapsed time, and every task carries the tick
at which its timer is due. Each operation keeps it and gives a reply the map
allows, so every trace of the wheel is a trace of the map.

`step_shows` is the result, with a lemma for each operation before it. How an
operation fails is said of the wheel first (`insert_error`, `reschedule_error`,
`advanceAlong_error`).
-/

namespace DartUdp.TimeWheel

open DartUdp.Lib

variable {T : Type}

/-- The map a wheel stands for. -/
structure Shows (base : Nat) (w : Wheel T) (m : TimerMap T) : Prop where
  sound : Sound w (fun _ => False) (fun _ => w.currentTick)
  base_eq : w.baseTickNanos = base
  base_pos : 0 < base
  elapsed : m.elapsed = w.currentTick * base + w.remainderNanos
  rem_lt : w.remainderNanos < base
  next : m.next = w.tasks.next
  timers : ∀ k, w.timer k = (m.timers k).map fun t => (t.item, t.due base)

namespace Shows

variable {base : Nat} {w : Wheel T} {m : TimerMap T}

theorem tick_eq (h : Shows base w m) : m.elapsed / base = w.currentTick := by
  rw [h.elapsed, Nat.mul_comm, Nat.mul_add_div h.base_pos, Nat.div_eq_of_lt h.rem_lt,
    Nat.add_zero]

theorem rem_eq (h : Shows base w m) : m.elapsed % base = w.remainderNanos := by
  rw [h.elapsed, Nat.mul_comm, Nat.mul_add_mod, Nat.mod_eq_of_lt h.rem_lt]

/-- The wheel's rounding is the map's. -/
theorem dueTick_eq (h : Shows base w m) (delay : Nat) :
    dueTick base m.elapsed delay = w.currentTick +
      if delay = 0 then 0
      else (delay + w.remainderNanos + w.baseTickNanos - 1) / w.baseTickNanos := by
  simp only [dueTick]
  split
  · rw [h.tick_eq, Nat.add_zero]
  · have hb := h.base_pos
    rw [h.elapsed, h.base_eq, ← Nat.mul_add_div hb]
    congr 1
    rw [Nat.mul_comm base]
    omega

theorem deadlineAfter_eq (h : Shows base w m) (delay : Nat) :
    w.deadlineAfter delay =
      if dueTick base m.elapsed delay ≤ u64Max then .ok (dueTick base m.elapsed delay)
      else .error .delayOverflow := by
  rw [h.dueTick_eq]
  simp only [Wheel.deadlineAfter]
  generalize (if delay = 0 then 0
    else (delay + w.remainderNanos + w.baseTickNanos - 1) / w.baseTickNanos) = ticks
  simp only [checkedAdd]
  by_cases hle : w.currentTick + ticks ≤ u64Max
  · rw [if_neg (by omega), if_pos hle, if_pos hle]
  · rw [if_neg hle, if_neg hle]
    split <;> rfl

theorem tick_le_dueTick (h : Shows base w m) (delay : Nat) :
    w.currentTick ≤ dueTick base m.elapsed delay := by
  rw [h.dueTick_eq]
  omega

theorem isSome_iff (h : Shows base w m) (k : Nat) :
    (w.tasks.get? k).isSome ↔ (m.timers k).isSome := by
  have := congrArg Option.isSome (h.timers k)
  simp only [Wheel.timer, Option.isSome_map] at this
  rw [this]

end Shows

/-- A new wheel is empty, and so is its map. -/
theorem shows_new {b : WheelConfigBuilder} {cfg : WheelConfig} (order : KeyOrder)
    (h : b.build = .ok cfg) :
    Shows cfg.baseTickNanos (Wheel.new cfg order : Wheel T) .empty := by
  obtain ⟨hgeo, hbase⟩ := build_geometry h
  have hcfg : (Wheel.new cfg order : Wheel T).configs = cfg.levels := by
    simp only [Wheel.configs, Wheel.new, List.map_map]
    conv_rhs => rw [← List.map_id cfg.levels]
    apply List.map_congr_left
    intro lv _
    simp [Level.config]
  have hslot : ∀ l s, (Wheel.new cfg order : Wheel T).slotAt l s = Slot.empty := by
    intro l s
    simp only [Wheel.slotAt, Wheel.new, List.getD_eq_getElem?_getD, List.getElem?_map]
    cases cfg.levels[l]? with
    | none => rfl
    | some lv =>
        simp only [Option.map_some, Option.getD_some, List.getElem?_replicate]
        split <;> rfl
  have hget : ∀ k, (Wheel.new cfg order : Wheel T).tasks.get? k = none := SlotMap.get?_empty order
  have hlists : Lists (Wheel.new cfg order : Wheel T) (fun _ _ => []) fun _ => False := by
    refine ⟨fun l s => ?_, fun l s k hk => ?_, fun k l s hp => ?_⟩
    · rw [hslot]; exact .nil
    · cases hk
    · simp [Wheel.posOf, hget] at hp
  have hsync : HeapSync (Wheel.new cfg order : Wheel T) [] := by
    refine ⟨fun i nd hi => ?_, fun k e hk => ?_⟩
    · simp [Wheel.new] at hi
    · rw [hget] at hk; cases hk
  refine ⟨⟨⟨by rw [hcfg]; exact hgeo, ⟨_, hlists⟩, fun k l s item deadline hp => ?_⟩, hsync⟩,
    rfl, hbase, ?_, hbase, rfl, fun k => ?_⟩
  · simp [Wheel.posOf, hget] at hp
  · simp [TimerMap.empty, Wheel.new]
  · simp [Wheel.timer, hget, TimerMap.empty]

/-! ## Setting a timer -/

/-- A task enters the store before it enters a list or the heap. -/
theorem Sound.store {w : Wheel T} {bound : Nat → Nat} (h : Sound w (fun _ => False) bound)
    (e : WheelEntry T) :
    Housed { w with tasks := (w.tasks.insert e).2 } (· = w.tasks.next) bound ∧
      HeapSync { w with tasks := (w.tasks.insert e).2 } [w.tasks.next] := by
  obtain ⟨ch, hl⟩ := h.lists
  have hfresh : w.tasks.get? w.tasks.next = none := w.tasks.get?_next
  have hne : ∀ l s, ∀ k ∈ ch l s, k ≠ w.tasks.next := by
    rintro l s k hk rfl
    have := (hl.linked l s _ hk).2
    simp [Wheel.posOf, hfresh] at this
  refine ⟨⟨h.geometry, ⟨ch, ⟨fun l s => ?_, fun l s k hk => ?_, fun k l s hp hk => ?_⟩⟩,
    fun k l s item deadline hp ht hk => ?_⟩, ⟨fun i nd hi => ?_, fun k e' hk hkm => ?_⟩⟩
  · apply (hl.dll l s).congr
    · intro k hk
      simp [Wheel.prevOf, SlotMap.get?_insert, hne l s k hk]
    · intro k hk
      simp [Wheel.nextOf, SlotMap.get?_insert, hne l s k hk]
  · refine ⟨hne l s k hk, ?_⟩
    have := (hl.linked l s k hk).2
    simpa [Wheel.posOf, SlotMap.get?_insert, hne l s k hk] using this
  · have hk' : k ≠ w.tasks.next := hk
    simp only [Wheel.posOf, SlotMap.get?_insert, if_neg hk'] at hp
    exact hl.task k l s hp id
  · have hk' : k ≠ w.tasks.next := hk
    simp only [Wheel.posOf, Wheel.timer, SlotMap.get?_insert, if_neg hk'] at hp ht
    exact h.placed k l s item deadline hp ht id
  · obtain ⟨_, e', he', hei⟩ := h.sync.node i nd hi
    have hk : nd.key ≠ w.tasks.next := by
      intro heq
      rw [heq, hfresh] at he'
      cases he'
    exact ⟨by simpa using hk, e', by simpa [SlotMap.get?_insert, hk] using he', hei⟩
  · have hk' : k ≠ w.tasks.next := by simpa using hkm
    simp only [SlotMap.get?_insert, if_neg hk'] at hk
    exact h.sync.task k e' hk (by simp)

theorem insert_ok {w : Wheel T} {delay deadline : Nat} (item : T)
    (h : Sound w (fun _ => False) fun _ => w.currentTick)
    (hd : w.deadlineAfter delay = .ok deadline) (hle : w.currentTick ≤ deadline) :
    ∃ w', insert item delay w = .ok w.tasks.next w' ∧
      Sound w' (fun _ => False) (fun _ => w.currentTick) ∧
      (∀ k, w'.timer k = if k = w.tasks.next then some (item, deadline) else w.timer k) ∧
      w'.tasks.next = w.tasks.next + 1 ∧ w'.currentTick = w.currentTick ∧
      w'.remainderNanos = w.remainderNanos ∧ w'.baseTickNanos = w.baseTickNanos := by
  let e : WheelEntry T := ⟨item, deadline, 0, 0, none, none, 0⟩
  let w₁ : Wheel T := { w with tasks := (w.tasks.insert e).2 }
  obtain ⟨hh₁, hs₁⟩ := h.store e
  have he₁ : w₁.tasks.get? w.tasks.next = some e := by simp [w₁, SlotMap.get?_insert]
  obtain ⟨w₂, hrun₂, hh₂, hm₂, _⟩ :=
    link_home hh₁ (fun _ => Nat.le_succ _) (fun _ => hle) rfl he₁
  have hs₂ := hm₂.heapSync hs₁
  obtain ⟨e₂, he₂⟩ : ∃ e₂, w₂.tasks.get? w.tasks.next = some e₂ := by
    have := hm₂.tasks w.tasks.next
    rw [he₁] at this
    obtain ⟨e₂, he₂, _⟩ := Option.map_eq_some_iff.1 this
    exact ⟨e₂, he₂⟩
  obtain ⟨w₃, hrun₃, hs₃, hm₃⟩ := insertDeadline_ok deadline hs₂ he₂
  refine ⟨w₃, ?_, ⟨(hh₂.heapMoved hm₃).congr_out (by simp), hs₃⟩, fun k => ?_,
    hm₃.next.trans hm₂.next, hm₃.tick.trans hm₂.tick, hm₃.rem.trans hm₂.rem,
    hm₃.base.trans hm₂.base⟩
  · simp only [insert]
    rw [bind_ok (get_run w), hd]
    simp only [bind_ok (get_run w)]
    rw [bind_ok (modify_run _ w), bind_ok (get_run _)]
    exact (bind_ok (tryCatch_ok hrun₂)).trans (bind_ok (tryCatch_ok hrun₃))
  · rw [hm₃.timer, hm₂.timer]
    simp only [Wheel.timer, SlotMap.get?_insert]
    split <;> rfl

theorem insert_refused {w : Wheel T} {item : T} {delay : Nat} {error : TimerError}
    (hd : w.deadlineAfter delay = .error error) : insert item delay w = .error error w := by
  simp only [insert]
  rw [bind_ok (get_run w), hd]
  rfl

/-- Taking a task out of its list. -/
theorem unlink_housed {w : Wheel T} {bound : Nat → Nat} {key : Nat} {e : WheelEntry T}
    (h : Sound w (fun _ => False) bound) (he : w.tasks.get? key = some e) :
    ∃ w' e', unlink key w = .ok () w' ∧ Housed w' (· = key) bound ∧ HeapSync w' [] ∧
      LinkMoved w w' ∧ w'.tasks.get? key = some e' ∧ e'.core = e.core := by
  obtain ⟨ch, hl⟩ := h.lists
  obtain ⟨w', ch', hrun, hl', hm, hpos⟩ := unlink_ok hl he
  have hcore := hm.tasks key
  rw [he] at hcore
  obtain ⟨e', he', hcore⟩ := Option.map_eq_some_iff.1 hcore
  refine ⟨w', e', hrun, ⟨by rw [hm.configs]; exact h.geometry, ⟨ch', hl'⟩, ?_⟩,
    hm.heapSync h.sync, hm, he', hcore⟩
  intro k l s item deadline hp ht _
  rw [hpos] at hp
  rw [hm.timer] at ht
  rw [hm.configs]
  exact h.placed k l s item deadline hp ht id

/-- A task in no list may get a new deadline. -/
theorem Housed.setDeadline {w : Wheel T} {bound : Nat → Nat} {key : Nat} (deadline : Nat)
    (h : Housed w (· = key) bound) :
    Housed
      { w with tasks := w.tasks.modify key fun e => { e with deadlineTick := deadline } }
      (· = key) bound := by
  obtain ⟨ch, hl⟩ := h.lists
  have hfield : ∀ {α : Type} (f : WheelEntry T → α),
      (∀ (e : WheelEntry T) d, f { e with deadlineTick := d } = f e) → ∀ k,
      ((w.tasks.modify key fun e => { e with deadlineTick := deadline }).get? k).map f =
        (w.tasks.get? k).map f := by
    intro α f hf k
    rw [SlotMap.get?_modify]
    split
    · cases w.tasks.get? k <;> simp [hf]
    · rfl
  refine ⟨h.geometry, ⟨ch, hl.congr ?_ ?_ ?_ rfl⟩, fun k l s item d hp ht hk => ?_⟩
  · exact funext fun k => congrArg Option.join (hfield _ (fun _ _ => rfl) k)
  · exact funext fun k => congrArg Option.join (hfield _ (fun _ _ => rfl) k)
  · exact funext (hfield _ fun _ _ => rfl)
  · have hk' : k ≠ key := hk
    simp only [Wheel.posOf, Wheel.timer, SlotMap.get?_modify, if_neg hk'] at hp ht
    exact h.placed k l s item d hp ht hk

theorem reschedule_ok {w : Wheel T} {id delay deadline : Nat} {e : WheelEntry T}
    (h : Sound w (fun _ => False) fun _ => w.currentTick) (he : w.tasks.get? id = some e)
    (hd : w.deadlineAfter delay = .ok deadline) (hle : w.currentTick ≤ deadline) :
    ∃ w', reschedule id delay w = .ok () w' ∧
      Sound w' (fun _ => False) (fun _ => w.currentTick) ∧
      (∀ k, w'.timer k = if k = id then some (e.item, deadline) else w.timer k) ∧
      w'.tasks.next = w.tasks.next ∧ w'.currentTick = w.currentTick ∧
      w'.remainderNanos = w.remainderNanos ∧ w'.baseTickNanos = w.baseTickNanos := by
  obtain ⟨w₁, e₁, hrun₁, hh₁, hs₁, hm₁, he₁, hcore⟩ := unlink_housed h he
  have hitem : e₁.item = e.item := by
    have := congrArg WheelEntry.item hcore
    simpa [WheelEntry.core] using this
  let w₂ : Wheel T :=
    { w₁ with tasks := w₁.tasks.modify id fun e => { e with deadlineTick := deadline } }
  have he₂ : w₂.tasks.get? id = some { e₁ with deadlineTick := deadline } := by
    simp [w₂, SlotMap.get?_modify, he₁]
  have hs₂ : HeapSync w₂ [] := hs₁.congr rfl fun k => by
    simp only [w₂, SlotMap.get?_modify]
    split
    · cases w₁.tasks.get? k <;> rfl
    · rfl
  have ht₂ : w₂.currentTick = w.currentTick := hm₁.tick
  obtain ⟨w₃, hrun₃, hh₃, hm₃, _⟩ :=
    link_home (hh₁.setDeadline deadline) (fun _ => by rw [ht₂]; exact Nat.le_succ _)
      (fun _ => hle) rfl he₂
  have hs₃ := hm₃.heapSync hs₂
  obtain ⟨e₃, he₃⟩ : ∃ e₃, w₃.tasks.get? id = some e₃ := by
    have := hm₃.tasks id
    rw [he₂] at this
    obtain ⟨e₃, he₃, _⟩ := Option.map_eq_some_iff.1 this
    exact ⟨e₃, he₃⟩
  obtain ⟨w₄, hrun₄, hs₄, hm₄⟩ := updateDeadline_ok deadline hs₃ he₃
  refine ⟨w₄, ?_, ⟨(hh₃.heapMoved hm₄).congr_out (by simp), hs₄⟩, fun k => ?_,
    hm₄.next.trans (hm₃.next.trans hm₁.next), hm₄.tick.trans (hm₃.tick.trans hm₁.tick),
    hm₄.rem.trans (hm₃.rem.trans hm₁.rem), hm₄.base.trans (hm₃.base.trans hm₁.base)⟩
  · simp only [reschedule]
    rw [bind_ok (entry_run he), bind_ok (get_run w), hd]
    simp only [bind_ok hrun₁, bind_ok (entry_run he₁)]
    rw [bind_ok (modify_run _ w₁), bind_ok (get_run _)]
    exact (bind_ok hrun₃).trans ((bind_ok (entry_run he₃)).trans hrun₄)
  · rw [hm₄.timer, hm₃.timer, ← hm₁.timer]
    simp only [Wheel.timer, SlotMap.get?_modify]
    split
    · next hk => rw [hk, he₁, ← hitem]; rfl
    · rfl

theorem reschedule_stale {w : Wheel T} {id : Nat} (delay : Nat) (he : w.tasks.get? id = none) :
    reschedule id delay w = .error .staleTimerId w := by
  simp only [reschedule]
  apply bind_error
  simp only [entry]
  rw [bind_ok (get_run w), he]
  rfl

theorem reschedule_refused {w : Wheel T} {id delay : Nat} {e : WheelEntry T} {error : TimerError}
    (he : w.tasks.get? id = some e) (hd : w.deadlineAfter delay = .error error) :
    reschedule id delay w = .error error w := by
  simp only [reschedule]
  rw [bind_ok (entry_run he), bind_ok (get_run w), hd]
  rfl

theorem cancelTask_ok {w : Wheel T} {id : Nat} {e : WheelEntry T} {bound : Nat → Nat}
    (h : Sound w (fun _ => False) bound) (he : w.tasks.get? id = some e) :
    ∃ w', cancelTask id w = .ok e.item w' ∧ Sound w' (fun _ => False) bound ∧
      (∀ k, w'.timer k = if k = id then none else w.timer k) ∧
      w'.tasks.next = w.tasks.next ∧ w'.currentTick = w.currentTick ∧
      w'.remainderNanos = w.remainderNanos ∧ w'.baseTickNanos = w.baseTickNanos := by
  obtain ⟨w₁, e₁, hrun₁, hh₁, hs₁, hm₁, he₁, hcore⟩ := unlink_housed h he
  obtain ⟨w₂, hrun₂, hs₂, hm₂⟩ := removeDeadline_ok hs₁ he₁
  obtain ⟨e₂, he₂, hstrip⟩ := hm₂.symm.entry_eq he₁
  have hitem : e₂.item = e.item := by
    have h1 := congrArg WheelEntry.item hcore
    have h2 := congrArg WheelEntry.item hstrip
    simp only [WheelEntry.core, WheelEntry.strip] at h1 h2
    exact h2.trans h1
  refine ⟨{ w₂ with tasks := w₂.tasks.remove id }, ?_,
    ⟨((hh₁.heapMoved hm₂).remove rfl).congr_out (by simp), hs₂.remove⟩, fun k => ?_,
    hm₂.next.trans hm₁.next, hm₂.tick.trans hm₁.tick, hm₂.rem.trans hm₁.rem,
    hm₂.base.trans hm₁.base⟩
  · simp only [cancelTask]
    rw [bind_ok (entry_run he), bind_ok hrun₁, bind_ok (entry_run he₁), bind_ok hrun₂,
      bind_ok (entry_run he₂), bind_ok (modify_run _ w₂), hitem]
    rfl
  · rw [timer_remove, hm₂.timer, hm₁.timer]

theorem cancel_stale {w : Wheel T} {id : Nat} (he : w.tasks.get? id = none) :
    cancel id w = .ok none w := by
  have htask : cancelTask id w = .error .staleTimerId w := by
    simp only [cancelTask]
    apply bind_error
    simp only [entry]
    rw [bind_ok (get_run w), he]
    rfl
  show EStateM.tryCatch _ _ w = _
  rw [EStateM.tryCatch, bind_error htask]
  rfl

theorem cancel_live {w w' : Wheel T} {id : Nat} {item : T} (h : cancelTask id w = .ok item w') :
    cancel id w = .ok (some item) w' := tryCatch_ok ((bind_ok h).trans rfl)

/-- `clear` keeps the clock and empties the rest. -/
theorem clear_sound {w : Wheel T} {bound : Nat → Nat} (h : Sound w (fun _ => False) bound) :
    Sound w.clear.2 (fun _ => False) bound := by
  have hget : ∀ k, w.clear.2.tasks.get? k = none := fun k => w.tasks.get?_clear k
  have hcfg : w.clear.2.configs = w.configs := configs_clearSlots w
  have hslot : ∀ l s, w.clear.2.slotAt l s = Slot.empty := slotAt_clearSlots w
  refine ⟨⟨by rw [hcfg]; exact h.geometry, ⟨fun _ _ => [], ⟨fun l s => ?_, ?_, ?_⟩⟩, ?_⟩,
    ⟨?_, ?_⟩⟩
  · rw [hslot]; exact .nil
  · intro l s k hk; cases hk
  · intro k l s hp; simp [Wheel.posOf, hget] at hp
  · intro k l s item deadline hp; simp [Wheel.posOf, hget] at hp
  · intro i nd hi; simp [Wheel.clear] at hi
  · intro k e hk; rw [hget] at hk; cases hk

/-! ## Advancing -/

theorem advanceAlong_ok {w : Wheel T} {keys : List Nat} {elapsed : Nat}
    (expired : List (Expired T)) (h : Sound w (fun _ => False) fun _ => w.currentTick)
    (henum : Enumerates w keys) (hrem : w.remainderNanos + elapsed ≤ u64Max)
    (htick : w.currentTick + (w.remainderNanos + elapsed) / w.baseTickNanos ≤ u64Max) :
    ∃ w' xs report, advanceAlong keys elapsed expired w = .ok (report, expired ++ xs) w' ∧
      report.expiredCount = xs.length ∧
      Advanced (w.currentTick + (w.remainderNanos + elapsed) / w.baseTickNanos)
        { w with remainderNanos := (w.remainderNanos + elapsed) % w.baseTickNanos } w' xs ∧
      if smallAdvanceLimit < (w.remainderNanos + elapsed) / w.baseTickNanos then
        xs = keys.filterMap
          (w.dueAt (w.currentTick + (w.remainderNanos + elapsed) / w.baseTickNanos))
      else InOrder xs := by
  let ticks := (w.remainderNanos + elapsed) / w.baseTickNanos
  let w₁ : Wheel T :=
    { w with remainderNanos := (w.remainderNanos + elapsed) % w.baseTickNanos }
  have h₁ : Sound w₁ (fun _ => False) (fun _ => w₁.currentTick) :=
    ⟨⟨h.geometry, h.lists.imp fun ch hl => hl.congr rfl rfl rfl rfl, h.placed⟩,
      h.sync.congr rfl fun _ => rfl⟩
  -- Both ways end in an advanced wheel.
  have hgo : ∃ w' xs, advanceTicks keys ticks (w.currentTick + ticks) expired w₁ =
        .ok (expired ++ xs) w' ∧
      Advanced (w.currentTick + ticks) w₁ w' xs ∧
      if smallAdvanceLimit < ticks then xs = keys.filterMap (w.dueAt (w.currentTick + ticks))
      else InOrder xs := by
    unfold advanceTicks
    by_cases hfast : ticks > smallAdvanceLimit
    · obtain ⟨w', hrun, hadv⟩ :=
        fastForward_ok h₁ ⟨henum.nodup, henum.mem_iff⟩ (w.currentTick + ticks) expired
      refine ⟨w', _, by rw [if_pos hfast, hrun], hadv, ?_⟩
      rw [if_pos hfast]
      rfl
    · obtain ⟨w₂, xs, hrun₂, hs₂, hf₂, ht₂⟩ := processTick_ok h₁ expired
      rw [← ht₂] at hs₂
      obtain ⟨w₃, ys, hrun₃, ha, hord⟩ := tickLoop_ok ticks (expired ++ xs) hs₂
      have ht₂' : w₂.currentTick = w.currentTick := ht₂
      rw [ht₂'] at ha
      refine ⟨w₃, xs ++ ys, ?_, ⟨ha.sound, (hf₂.mono ?_).trans ha.fires, ha.tick⟩, ?_⟩
      · rw [if_neg hfast, bind_ok hrun₂, hrun₃, List.append_assoc]
      · exact Nat.le_add_right _ _
      · rw [if_neg hfast]
        refine .append (hf₂.at_tick h₁) hord fun y hy => ?_
        rw [← ht₂]
        exact hs₂.lt_deadline (ha.fires.fired y hy).1
  obtain ⟨w', xs, hrun, hadv, hord⟩ := hgo
  refine ⟨w', xs, ⟨ticks, (expired ++ xs).length - expired.length, ticks > smallAdvanceLimit⟩, ?_,
    ?_, hadv, hord⟩
  · have h1 : checkedAdd w.remainderNanos elapsed = some (w.remainderNanos + elapsed) :=
      checkedAdd_eq_some.2 ⟨hrem, rfl⟩
    have h2 : checkedAdd w.currentTick ticks = some (w.currentTick + ticks) :=
      checkedAdd_eq_some.2 ⟨htick, rfl⟩
    simp only [advanceAlong]
    rw [bind_ok (get_run w), if_neg (by omega), h1]
    simp only [ticks] at h2
    simp only [h2]
    exact (bind_ok (modify_run _ w)).trans (bind_ok hrun)
  · rw [List.length_append]
    exact Nat.add_sub_cancel_left ..

theorem advanceAlong_long {w : Wheel T} {elapsed : Nat} (keys : List Nat)
    (expired : List (Expired T)) (hrem : ¬ w.remainderNanos + elapsed ≤ u64Max) :
    advanceAlong keys elapsed expired w = .error .elapsedOverflow w := by
  have h1 : checkedAdd w.remainderNanos elapsed = none := by simp [checkedAdd, hrem]
  simp only [advanceAlong]
  rw [bind_ok (get_run w), h1]
  split <;> rfl

theorem advanceAlong_late {w : Wheel T} {elapsed : Nat} (keys : List Nat)
    (expired : List (Expired T)) (hrem : w.remainderNanos + elapsed ≤ u64Max)
    (htick : ¬ w.currentTick + (w.remainderNanos + elapsed) / w.baseTickNanos ≤ u64Max) :
    advanceAlong keys elapsed expired w = .error .clockOverflow w := by
  have h1 : checkedAdd w.remainderNanos elapsed = some (w.remainderNanos + elapsed) :=
    checkedAdd_eq_some.2 ⟨hrem, rfl⟩
  have h2 : checkedAdd w.currentTick ((w.remainderNanos + elapsed) / w.baseTickNanos) = none := by
    simp [checkedAdd, htick]
  simp only [advanceAlong]
  rw [bind_ok (get_run w), if_neg (by omega), h1]
  simp only [h2]
  rfl

/-! ## How an operation fails

Each of them checks all it has to before it writes, so a failure leaves the
wheel as it was. -/

section Failures

variable {base : Nat} {w w' : Wheel T} {m : TimerMap T} {error : TimerError}

theorem insert_error (h : Shows base w m) {item : T} {delay : Nat}
    (hrun : insert item delay w = .error error w') : w' = w ∧ error = .delayOverflow := by
  have hd := h.deadlineAfter_eq delay
  split at hd
  · obtain ⟨_, hok, _⟩ := insert_ok item h.sound hd (h.tick_le_dueTick delay)
    cases hrun.symm.trans hok
  · cases hrun.symm.trans (insert_refused hd)
    exact ⟨rfl, rfl⟩

theorem reschedule_error (h : Shows base w m) {id delay : Nat}
    (hrun : reschedule id delay w = .error error w') :
    w' = w ∧ (error = .staleTimerId ∨ error = .delayOverflow) := by
  cases he : w.tasks.get? id with
  | none =>
      cases hrun.symm.trans (reschedule_stale delay he)
      exact ⟨rfl, .inl rfl⟩
  | some e =>
      have hd := h.deadlineAfter_eq delay
      split at hd
      · obtain ⟨_, hok, _⟩ := reschedule_ok h.sound he hd (h.tick_le_dueTick delay)
        cases hrun.symm.trans hok
      · cases hrun.symm.trans (reschedule_refused he hd)
        exact ⟨rfl, .inr rfl⟩

theorem advanceAlong_error (h : Shows base w m) {keys : List Nat} (henum : Enumerates w keys)
    {elapsed : Nat} {expired : List (Expired T)}
    (hrun : advanceAlong keys elapsed expired w = .error error w') :
    w' = w ∧ (error = .elapsedOverflow ∨ error = .clockOverflow) := by
  by_cases hrem : w.remainderNanos + elapsed ≤ u64Max
  · by_cases htick : w.currentTick + (w.remainderNanos + elapsed) / w.baseTickNanos ≤ u64Max
    · obtain ⟨_, _, _, hok, _⟩ := advanceAlong_ok expired h.sound henum hrem htick
      cases hrun.symm.trans hok
    · cases hrun.symm.trans (advanceAlong_late keys expired hrem htick)
      exact ⟨rfl, .inr rfl⟩
  · cases hrun.symm.trans (advanceAlong_long keys expired hrem)
    exact ⟨rfl, .inl rfl⟩

end Failures

/-! ## The simulation -/

section Simulation

variable {base : Nat} {w : Wheel T} {m : TimerMap T}

theorem step_insert (h : Shows base w m) (item : T) (delay : Nat) :
    ∃ m', m.Allows base (.insert item delay) (w.step (.insert item delay)).1 m' ∧
      Shows base (w.step (.insert item delay)).2 m' := by
  have hd := h.deadlineAfter_eq delay
  by_cases hle : dueTick base m.elapsed delay ≤ u64Max
  · rw [if_pos hle] at hd
    obtain ⟨w', hrun, hs, ht, hn, htick, hrem, hb⟩ :=
      insert_ok item h.sound hd (h.tick_le_dueTick delay)
    simp only [Wheel.step, hrun, outcome]
    refine ⟨_, ⟨hle, h.next.symm, rfl⟩, by rw [htick]; exact hs, hb.trans h.base_eq, h.base_pos,
      by rw [htick, hrem]; exact h.elapsed, by rw [hrem]; exact h.rem_lt, by rw [hn, ← h.next],
      fun k => ?_⟩
    rw [ht]
    simp only [TimerMap.put]
    split
    · rfl
    · exact h.timers k
  · rw [if_neg hle] at hd
    have hrun : insert item delay w = .error _ w := insert_refused hd
    simp only [Wheel.step, hrun, outcome]
    exact ⟨m, ⟨by omega, rfl, rfl⟩, h⟩

theorem step_reschedule (h : Shows base w m) (id delay : Nat) :
    ∃ m', m.Allows base (.reschedule id delay) (w.step (.reschedule id delay)).1 m' ∧
      Shows base (w.step (.reschedule id delay)).2 m' := by
  have hd := h.deadlineAfter_eq delay
  cases he : w.tasks.get? id with
  | none =>
      have hrun := reschedule_stale delay he
      have hnone : m.timers id = none := by
        have := h.timers id
        simpa [Wheel.timer, he, eq_comm] using this
      simp only [Wheel.step, hrun, outcome]
      exact ⟨m, ⟨rfl, .inl ⟨hnone, rfl⟩⟩, h⟩
  | some e =>
      obtain ⟨t, ht, htimer⟩ : ∃ t, m.timers id = some t ∧
          (t.item, t.due base) = (e.item, e.deadlineTick) := by
        have := h.timers id
        rw [timer_eq he] at this
        exact Option.map_eq_some_iff.1 this.symm
      by_cases hle : dueTick base m.elapsed delay ≤ u64Max
      · rw [if_pos hle] at hd
        obtain ⟨w', hrun, hs, hti, hn, htick, hrem, hb⟩ :=
          reschedule_ok h.sound he hd (h.tick_le_dueTick delay)
        simp only [Wheel.step, hrun, outcome]
        refine ⟨_, ⟨t, ht, hle, rfl⟩, by rw [htick]; exact hs, hb.trans h.base_eq, h.base_pos,
          by rw [htick, hrem]; exact h.elapsed, by rw [hrem]; exact h.rem_lt,
          h.next.trans hn.symm, fun k => ?_⟩
        rw [hti]
        simp only [TimerMap.put]
        split
        · rw [← (Prod.mk.inj htimer).1]
          rfl
        · exact h.timers k
      · rw [if_neg hle] at hd
        have hrun := reschedule_refused he hd
        simp only [Wheel.step, hrun, outcome]
        exact ⟨m, ⟨rfl, .inr ⟨by simp [ht], by omega, rfl⟩⟩, h⟩

theorem step_cancel (h : Shows base w m) (id : Nat) :
    ∃ m', m.Allows base (.cancel id) (w.step (.cancel id)).1 m' ∧
      Shows base (w.step (.cancel id)).2 m' := by
  have hmap := h.timers id
  cases he : w.tasks.get? id with
  | none =>
      have hrun := cancel_stale he
      have hnone : m.timers id = none := by simpa [Wheel.timer, he, eq_comm] using hmap
      simp only [Wheel.step, hrun, outcome]
      refine ⟨_, ⟨by simp [hnone, Except.toOption], rfl⟩, h.sound, h.base_eq, h.base_pos,
        h.elapsed, h.rem_lt, h.next, fun k => ?_⟩
      simp only [TimerMap.put]
      split
      · next hk => simp [hk, Wheel.timer, he]
      · exact h.timers k
  | some e =>
      obtain ⟨w', htask, hs, hti, hn, htick, hrem, hb⟩ := cancelTask_ok h.sound he
      have hrun := cancel_live htask
      rw [timer_eq he] at hmap
      obtain ⟨t, ht, htimer⟩ := Option.map_eq_some_iff.1 hmap.symm
      simp only [Wheel.step, hrun, outcome]
      refine ⟨_, ⟨?_, rfl⟩, by rw [htick]; exact hs, hb.trans h.base_eq, h.base_pos,
        by rw [htick, hrem]; exact h.elapsed, by rw [hrem]; exact h.rem_lt,
        h.next.trans hn.symm, fun k => ?_⟩
      · simp [Except.toOption, ht, (Prod.mk.inj htimer).1]
      · rw [hti]
        simp only [TimerMap.put]
        split
        · rfl
        · exact h.timers k

theorem step_clear (h : Shows base w m) :
    ∃ m', m.Allows base .clear (w.step .clear).1 m' ∧ Shows base (w.step .clear).2 m' := by
  refine ⟨_, ⟨⟨w.tasks.keys, w.tasks.nodup_keys, fun k => ?_, ?_⟩, rfl⟩,
    clear_sound h.sound, h.base_eq, h.base_pos, h.elapsed, h.rem_lt, h.next, fun k => ?_⟩
  · rw [SlotMap.mem_keys, h.isSome_iff]
  · show w.tasks.values.map (·.item) = _
    rw [SlotMap.values, List.map_filterMap]
    congr 1
    funext k
    have := congrArg (Option.map Prod.fst) (h.timers k)
    simpa [Wheel.timer, Option.map_map, Function.comp_def] using this
  · have : w.clear.2.tasks.get? k = none := w.tasks.get?_clear k
    simp [Wheel.step, Wheel.timer, this]

/-- An advance, in whatever order the slot map enumerates its keys: it hands out
what the map does, or is refused as the map refuses it. -/
theorem advanceAlong_allowed (h : Shows base w m) {keys : List Nat} (henum : Enumerates w keys)
    (elapsed : Nat) (expired : List (Expired T)) :
    (∃ w' xs report, advanceAlong keys elapsed expired w = .ok (report, expired ++ xs) w' ∧
      m.Allows base (.advanceBy elapsed) (.advanced (.ok (report, xs)))
        (m.advanceTo base (m.elapsed + elapsed)) ∧
      Shows base w' (m.advanceTo base (m.elapsed + elapsed))) ∨
    ∃ error, advanceAlong keys elapsed expired w = .error error w ∧
      m.Allows base (.advanceBy elapsed) (.advanced (.error error)) m := by
  have hb := h.base_pos
  -- The clock after the advance, in ticks and nanoseconds.
  have hsum : m.elapsed + elapsed = base * w.currentTick + (w.remainderNanos + elapsed) := by
    rw [h.elapsed, Nat.mul_comm base]
    omega
  have hdiv : (m.elapsed + elapsed) / base =
      w.currentTick + (w.remainderNanos + elapsed) / base := by
    rw [hsum, Nat.mul_add_div hb]
  by_cases hrem : w.remainderNanos + elapsed ≤ u64Max
  · by_cases htick : w.currentTick + (w.remainderNanos + elapsed) / base ≤ u64Max
    · obtain ⟨w', xs, report, hrun, hcount, hadv, _⟩ :=
        advanceAlong_ok expired h.sound henum hrem (by rw [h.base_eq]; exact htick)
      rw [h.base_eq, ← hdiv] at hadv
      have hmem : ∀ x, x ∈ xs ↔ m.Expires base (m.elapsed + elapsed) x := by
        intro x
        rw [hadv.mem_iff]
        show w.timer x.id = _ ∧ _ ↔ _
        rw [h.timers]
        simp only [TimerMap.Expires, Option.map_eq_some_iff, Prod.mk.injEq]
        constructor
        · rintro ⟨⟨t, ht, hi, hd⟩, hle⟩
          exact ⟨t, ht, by rw [hd]; exact hle, hi.symm, hd.symm⟩
        · rintro ⟨t, ht, hle, hi, hd⟩
          exact ⟨⟨t, ht, hi.symm, hd.symm⟩, by rw [hd]; exact hle⟩
      refine .inl ⟨w', xs, report, hrun, ⟨by rw [h.rem_eq]; exact hrem, by rw [hdiv]; exact htick,
        hcount, hadv.fires.nodup, hmem, rfl⟩, ?_, hadv.fires.base, hb, ?_, ?_,
        h.next.trans hadv.fires.next.symm, fun k => ?_⟩
      · rw [hadv.tick]
        exact hadv.sound.mono fun _ => Nat.le_succ _
      · rw [hadv.tick, hadv.fires.rem]
        show m.elapsed + elapsed =
          (m.elapsed + elapsed) / base * base + (w.remainderNanos + elapsed) % base
        rw [show (w.remainderNanos + elapsed) % base = (m.elapsed + elapsed) % base by
          rw [hsum, Nat.mul_add_mod]]
        exact (Nat.div_add_mod' _ _).symm
      · rw [hadv.fires.rem]
        exact Nat.mod_lt _ hb
      · -- A timer is left exactly if it is not due yet.
        rw [hadv.fires.timer]
        show (if k ∈ xs.map (·.id) then none else w.timer k) = _
        have hw := h.timers k
        simp only [TimerMap.advanceTo]
        cases hk : m.timers k with
        | none =>
            rw [hk] at hw
            simp [hw]
        | some t =>
            rw [hk] at hw
            simp only [Option.map_some] at hw
            by_cases hlt : (m.elapsed + elapsed) / base < t.due base
            · rw [if_neg, hw]
              · simp [Option.filter, hlt]
              · intro hx
                obtain ⟨x, hx', rfl⟩ := List.mem_map.1 hx
                obtain ⟨t', ht', hle, _⟩ := (hmem x).1 hx'
                rw [hk] at ht'
                injection ht' with ht'
                subst ht'
                omega
            · rw [if_pos]
              · simp [Option.filter, hlt]
              · have : (⟨k, t.item, t.due base⟩ : Expired T) ∈ xs :=
                  (hmem _).2 ⟨t, hk, by show t.due base ≤ _; omega, rfl, rfl⟩
                exact List.mem_map.2 ⟨_, this, rfl⟩
    · refine .inr ⟨_, advanceAlong_late keys expired hrem (by rw [h.base_eq]; exact htick), rfl,
        .inr ⟨by rw [h.rem_eq]; exact hrem, by rw [hdiv]; omega, rfl⟩⟩
  · exact .inr ⟨_, advanceAlong_long keys expired hrem, rfl,
      .inl ⟨by rw [h.rem_eq]; omega, rfl⟩⟩

theorem step_advanceBy (h : Shows base w m) (elapsed : Nat) :
    ∃ m', m.Allows base (.advanceBy elapsed) (w.step (.advanceBy elapsed)).1 m' ∧
      Shows base (w.step (.advanceBy elapsed)).2 m' := by
  have hstep : ∀ r, advanceAlong w.tasks.keys elapsed [] w = r →
      w.step (.advanceBy elapsed) = (.advanced (outcome r).1, (outcome r).2) := by
    rintro r rfl
    rfl
  rcases advanceAlong_allowed h (enumerates_keys w) elapsed [] with
    ⟨w', xs, report, hrun, hallows, hshows⟩ | ⟨error, hrun, hallows⟩
  · rw [hstep _ hrun]
    exact ⟨_, hallows, hshows⟩
  · rw [hstep _ hrun]
    exact ⟨m, hallows, h⟩

theorem step_shows (h : Shows base w m) (op : Op T) :
    ∃ m', m.Allows base op (w.step op).1 m' ∧ Shows base (w.step op).2 m' := by
  cases op with
  | insert item delay => exact step_insert h item delay
  | reschedule id delay => exact step_reschedule h id delay
  | cancel id => exact step_cancel h id
  | clear => exact step_clear h
  | advanceBy elapsed => exact step_advanceBy h elapsed

end Simulation

end DartUdp.TimeWheel
