import DartUdp.Proofs.WheelLists
import Mathlib.Tactic.Ring

/-!
# Where a task stands says when its slot comes round

A slot of a level is `unitTicks` wide, and the wheel looks at it when the
clock reaches a multiple of that width. `Home` says that a task stands in the
slot of its deadline and that the slot has not come round yet: the clock has
not passed the multiple of the width at or below the deadline. It is all the
advance needs, for a task whose slot is still to come round is found there,
and one whose slot has come round just now is in the slot being emptied.

`determine_location` always answers such a place, whatever the levels, and
for a deadline ahead of the clock even one that is still to come.

That is `determineLocation_home`, and `link_home` puts the task there.
-/

namespace DartUdp.TimeWheel

open DartUdp.Lib

variable {T : Type}

/-! ## The levels of a built configuration -/

/-- What the arithmetic of the wheel relies on in its levels. -/
structure Geometry (lvs : List LevelConfig) : Prop where
  nonempty : lvs ≠ []
  unit_zero : ∀ lv, lvs[0]? = some lv → lv.unitTicks = 1
  unit_succ : ∀ (i : Nat) lv lv', lvs[i]? = some lv → lvs[i + 1]? = some lv' →
    lv'.unitTicks = lv.spanTicks
  unit_pos : ∀ (i : Nat) lv, lvs[i]? = some lv → 0 < lv.unitTicks
  count_pos : ∀ (i : Nat) lv, lvs[i]? = some lv → 0 < lv.slotCount
  mask : ∀ (i : Nat) lv, lvs[i]? = some lv → ∀ x, x &&& lv.mask = x % lv.slotCount

theorem and_pred_of_isPowerOfTwo {n : Nat} (h : isPowerOfTwo n = true) (x : Nat) :
    x &&& (n - 1) = x % n := by
  have hn : n = 2 ^ n.log2 := by simpa [isPowerOfTwo] using h
  rw [hn]
  exact Nat.and_two_pow_sub_one_eq_mod _ _

/-- The loop of `build`, from a first unit `unit` on. -/
theorem deriveLevels_ok : ∀ {counts : List Nat} {level total unit : Nat}
    {lvs : List LevelConfig} {total' : Nat},
    deriveLevels level total unit counts = .ok (lvs, total') → 0 < unit →
    (∀ lv, lvs[0]? = some lv → lv.unitTicks = unit) ∧ lvs.length = counts.length ∧
      (∀ (i : Nat) lv lv', lvs[i]? = some lv → lvs[i + 1]? = some lv' →
        lv'.unitTicks = lv.spanTicks) ∧
      ∀ (i : Nat) lv, lvs[i]? = some lv → 0 < lv.unitTicks ∧ 0 < lv.slotCount ∧
        ∀ x, x &&& lv.mask = x % lv.slotCount := by
  intro counts
  induction counts with
  | nil =>
      intro level total unit lvs total' h _
      simp only [deriveLevels, Except.ok.injEq, Prod.mk.injEq] at h
      obtain ⟨rfl, rfl⟩ := h
      simp
  | cons count rest ih =>
      intro level total unit lvs total' h hu
      simp only [deriveLevels] at h
      split at h
      · cases h
      · next hcount =>
          simp only [Bool.or_eq_true, decide_eq_true_eq, Bool.not_eq_true', not_or,
            Bool.not_eq_false] at hcount
          obtain ⟨⟨hc, hpow⟩, _⟩ := hcount
          split at h
          · cases h
          · split at h
            · cases h
            · split at h
              · cases h
              · next span hspan =>
                  obtain ⟨_, rfl⟩ := checkedMul_eq_some.1 hspan
                  have hspos : 0 < unit * count := Nat.mul_pos hu (by omega)
                  split at h
                  · cases h
                  · next derived total₁ hder =>
                      obtain ⟨hz, hlen, hstep, hall⟩ := ih hder hspos
                      simp only [Except.ok.injEq, Prod.mk.injEq] at h
                      obtain ⟨rfl, rfl⟩ := h
                      refine ⟨by simp, by simp [hlen], ?_, ?_⟩
                      · intro i lv lv' hi hi'
                        cases i with
                        | zero =>
                            obtain rfl : _ = lv := by simpa using hi
                            exact hz lv' (by simpa using hi')
                        | succ i => exact hstep i lv lv' (by simpa using hi) (by simpa using hi')
                      · intro i lv hi
                        cases i with
                        | zero =>
                            obtain rfl : _ = lv := by simpa using hi
                            exact ⟨hu, by show 0 < count; omega, and_pred_of_isPowerOfTwo hpow⟩
                        | succ i => exact hall i lv (by simpa using hi)

/-- What every configuration `build` answers has. -/
theorem build_geometry {b : WheelConfigBuilder} {cfg : WheelConfig} (h : b.build = .ok cfg) :
    Geometry cfg.levels ∧ 0 < cfg.baseTickNanos := by
  simp only [WheelConfigBuilder.build] at h
  split at h
  · cases h
  · split at h
    · cases h
    · next hbase =>
        split at h
        · cases h
        · next hlevels =>
            split at h
            · cases h
            · next derived total hder =>
                injection h with h
                subst h
                obtain ⟨hz, hlen, hstep, hall⟩ := deriveLevels_ok hder Nat.one_pos
                refine ⟨⟨?_, hz, hstep, fun i lv hi => (hall i lv hi).1,
                  fun i lv hi => (hall i lv hi).2.1, fun i lv hi => (hall i lv hi).2.2⟩,
                  Nat.pos_of_ne_zero hbase⟩
                rintro rfl
                simp only [Bool.or_eq_true, List.isEmpty_iff, not_or] at hlevels
                exact hlevels.1 (List.length_eq_zero_iff.1 hlen.symm)

/-! ## Homes -/

/-- A place for `deadline` in a slot that does not come round before `tick`. -/
def Home (lvs : List LevelConfig) (tick deadline level slot : Nat) : Prop :=
  ∃ lv, lvs[level]? = some lv ∧ slot = deadline / lv.unitTicks % lv.slotCount ∧
    tick ≤ lv.unitTicks * (deadline / lv.unitTicks)

theorem Home.mono {lvs : List LevelConfig} {tick tick' deadline level slot : Nat}
    (h : Home lvs tick deadline level slot) (ht : tick' ≤ tick) :
    Home lvs tick' deadline level slot := by
  obtain ⟨lv, hlv, hslot, hle⟩ := h
  exact ⟨lv, hlv, hslot, by omega⟩

/-- A task in a home is not due before its slot comes round. -/
theorem Home.le_deadline {lvs : List LevelConfig} {tick deadline level slot : Nat}
    (h : Home lvs tick deadline level slot) : tick ≤ deadline := by
  obtain ⟨lv, _, _, hle⟩ := h
  exact hle.trans (Nat.mul_div_le _ _)

/-- A slot that does not come round at `tick` comes round later. -/
theorem Home.succ {lvs : List LevelConfig} {tick deadline level slot : Nat} {lv : LevelConfig}
    (h : Home lvs tick deadline level slot) (hlv : lvs[level]? = some lv)
    (hu : 0 < lv.unitTicks)
    (hturn : tick % lv.unitTicks = 0 → slot ≠ tick / lv.unitTicks % lv.slotCount) :
    Home lvs (tick + 1) deadline level slot := by
  obtain ⟨lv', hlv', hslot, hle⟩ := h
  obtain rfl : lv = lv' := by simpa using hlv.symm.trans hlv'
  refine ⟨lv, hlv, hslot, Nat.lt_of_le_of_ne hle ?_⟩
  intro heq
  have hmod : tick % lv.unitTicks = 0 := by rw [heq]; exact Nat.mul_mod_right _ _
  have hdiv : tick / lv.unitTicks = deadline / lv.unitTicks := by
    rw [heq]; exact Nat.mul_div_cancel_left _ hu
  exact hturn hmod (by rw [hdiv]; exact hslot)

/-- Less than one unit is lost by rounding a deadline down to its slot. -/
theorem lt_unit_mul_div {c u d : Nat} (hu : 0 < u) (h : c + u ≤ d) : c + 1 ≤ u * (d / u) := by
  have h1 := Nat.div_add_mod d u
  have h2 := Nat.mod_lt d hu
  omega

theorem determineLocation_home {w : Wheel T} (hg : Geometry w.configs) {deadline b : Nat}
    (hb : b ≤ deadline) (hb' : b ≤ w.currentTick + 1) :
    w.HasSlot (w.determineLocation deadline).1 (w.determineLocation deadline).2 ∧
      Home w.configs b deadline (w.determineLocation deadline).1
        (w.determineLocation deadline).2 := by
  have hcfg : ∀ i : Nat, w.configs[i]? = (w.levels[i]?).map Level.config := fun i => by
    simp [Wheel.configs]
  have hlen : 0 < w.levels.length := by
    have := List.length_pos_iff.2 hg.nonempty
    simpa [Wheel.configs] using this
  let sel := (w.levels.findIdx? fun lv =>
    deadline - w.currentTick < lv.spanTicks).getD (w.levels.length - 1)
  -- The selected level exists, and every level below it is too narrow.
  have hsel : sel < w.levels.length ∧ ∀ i lv, i < sel → w.levels[i]? = some lv →
      lv.spanTicks ≤ deadline - w.currentTick := by
    cases hfind : w.levels.findIdx? fun lv => deadline - w.currentTick < lv.spanTicks with
    | some i =>
        obtain ⟨hlt, _, hbefore⟩ := List.findIdx?_eq_some_iff_getElem.1 hfind
        have hs : sel = i := by simp only [sel, hfind, Option.getD_some]
        refine ⟨by rw [hs]; exact hlt, fun j lv hj hlv => ?_⟩
        obtain ⟨hjl, rfl⟩ := List.getElem?_eq_some_iff.1 hlv
        have := hbefore j (by omega)
        simpa using this
    | none =>
        have hall := List.findIdx?_eq_none_iff.1 hfind
        have hs : sel = w.levels.length - 1 := by simp only [sel, hfind, Option.getD_none]
        refine ⟨by omega, fun j lv _ hlv => ?_⟩
        simpa using hall lv (List.mem_of_getElem? hlv)
  obtain ⟨hlt, hbelow⟩ := hsel
  obtain ⟨lv, hget⟩ : ∃ lv, w.levels[sel]? = some lv := ⟨_, List.getElem?_eq_getElem hlt⟩
  have hlv : w.configs[sel]? = some lv.config := by rw [hcfg, hget]; rfl
  have hloc : w.determineLocation deadline =
      (sel, deadline / lv.unitTicks % lv.slots.length) := by
    have hmask := hg.mask sel _ hlv (deadline / lv.unitTicks)
    have hd : w.levels.getD sel default = lv := by simp [List.getD_eq_getElem?_getD, hget]
    show (sel, (deadline / (w.levels.getD sel default).unitTicks) &&&
      (w.levels.getD sel default).mask) = _
    rw [hd]
    exact congrArg (Prod.mk sel) hmask
  rw [hloc]
  have hu : 0 < lv.unitTicks := hg.unit_pos sel _ hlv
  refine ⟨hasSlot_iff.2 ⟨_, hlv, Nat.mod_lt _ (hg.count_pos sel _ hlv)⟩, _, hlv, rfl, ?_⟩
  show b ≤ lv.unitTicks * (deadline / lv.unitTicks)
  cases hsel : sel with
  | zero =>
      have h1 : lv.unitTicks = 1 := hg.unit_zero _ (by rw [← hsel]; exact hlv)
      rw [h1]
      simpa using hb
  | succ i =>
      obtain ⟨lv', hget'⟩ : ∃ lv', w.levels[i]? = some lv' :=
        ⟨_, List.getElem?_eq_getElem (by omega)⟩
      have hspan := hbelow i _ (by omega) hget'
      have hunit : lv.unitTicks = lv'.spanTicks :=
        hg.unit_succ i lv'.config _ (by rw [hcfg, hget']; rfl) (by rw [← hsel]; exact hlv)
      exact hb'.trans (lt_unit_mul_div hu (by omega))

/-! ## Every task at home -/

/-- What the user of the wheel knows of a task: its item and its deadline. -/
def Wheel.timer (w : Wheel T) (k : Nat) : Option (T × Nat) :=
  (w.tasks.get? k).map fun e => (e.item, e.deadlineTick)

theorem HeapMoved.timer {w w' : Wheel T} (h : HeapMoved w w') : w'.timer = w.timer := by
  funext k
  have := congrArg (Option.map fun e : WheelEntry T => (e.item, e.deadlineTick)) (h.tasks k)
  simpa [Wheel.timer, Option.map_map, Function.comp_def, WheelEntry.strip] using this

theorem HeapMoved.posOf {w w' : Wheel T} (h : HeapMoved w w') : w'.posOf = w.posOf := by
  funext k
  have := congrArg (Option.map fun e : WheelEntry T => (e.level, e.slot)) (h.tasks k)
  simpa [Wheel.posOf, Option.map_map, Function.comp_def, WheelEntry.strip] using this

theorem HeapMoved.nextOf {w w' : Wheel T} (h : HeapMoved w w') : w'.nextOf = w.nextOf := by
  funext k
  have := congrArg (Option.map WheelEntry.next) (h.tasks k)
  exact congrArg Option.join
    (by simpa [Option.map_map, Function.comp_def, WheelEntry.strip] using this)

theorem HeapMoved.configs {w w' : Wheel T} (h : HeapMoved w w') : w'.configs = w.configs := by
  simp only [Wheel.configs, h.levels]

theorem LinkMoved.timer {w w' : Wheel T} (h : LinkMoved w w') : w'.timer = w.timer := by
  funext k
  have := congrArg (Option.map fun e : WheelEntry T => (e.item, e.deadlineTick)) (h.tasks k)
  simpa [Wheel.timer, Option.map_map, Function.comp_def, WheelEntry.core] using this

/-- All tasks but those in `out` are at home; how soon a slot may come round
depends on the level. -/
def Placed (w : Wheel T) (out : Nat → Prop) (bound : Nat → Nat) : Prop :=
  ∀ k l s item deadline, w.posOf k = some (l, s) → w.timer k = some (item, deadline) →
    ¬ out k → Home w.configs (bound l) deadline l s

/-- The lists and the places of the tasks, while those in `out` are in no
list. -/
structure Housed (w : Wheel T) (out : Nat → Prop) (bound : Nat → Nat) : Prop where
  geometry : Geometry w.configs
  lists : ∃ ch, Lists w ch out
  placed : Placed w out bound

/-- The whole invariant of the wheel. -/
structure Sound (w : Wheel T) (out : Nat → Prop) (bound : Nat → Nat) : Prop extends
    Housed w out bound where
  sync : HeapSync w []

theorem Housed.congr_out {w : Wheel T} {out out' : Nat → Prop} {bound : Nat → Nat}
    (h : Housed w out bound) (ho : ∀ k, out' k ↔ out k) : Housed w out' bound := by
  obtain rfl : out' = out := funext fun k => propext (ho k)
  exact h

theorem Sound.congr_out {w : Wheel T} {out out' : Nat → Prop} {bound : Nat → Nat}
    (h : Sound w out bound) (ho : ∀ k, out' k ↔ out k) : Sound w out' bound :=
  ⟨h.toHoused.congr_out ho, h.sync⟩

theorem Sound.mono {w : Wheel T} {out : Nat → Prop} {bound bound' : Nat → Nat}
    (h : Sound w out bound) (hb : ∀ l, bound' l ≤ bound l) : Sound w out bound' :=
  ⟨⟨h.geometry, h.lists, fun k l s item deadline hp ht hout =>
    (h.placed k l s item deadline hp ht hout).mono (hb l)⟩, h.sync⟩

theorem Housed.heapMoved {w w' : Wheel T} {out : Nat → Prop} {bound : Nat → Nat}
    (h : Housed w out bound) (hm : HeapMoved w w') : Housed w' out bound := by
  obtain ⟨ch, hl⟩ := h.lists
  refine ⟨by rw [hm.configs]; exact h.geometry, ⟨ch, hl.heapMoved hm⟩, ?_⟩
  unfold Placed
  rw [hm.configs, hm.posOf, hm.timer]
  exact h.placed

/-- A task in no list may leave the store. -/
theorem Housed.remove {w : Wheel T} {out : Nat → Prop} {bound : Nat → Nat} {key : Nat}
    (h : Housed w out bound) (hkey : out key) :
    Housed { w with tasks := w.tasks.remove key } (fun k => out k ∧ k ≠ key) bound := by
  obtain ⟨ch, hl⟩ := h.lists
  refine ⟨h.geometry, ⟨ch, hl.remove hkey⟩, fun k l s item deadline hp ht hout => ?_⟩
  have hk : k ≠ key := by
    rintro rfl
    simp [Wheel.timer, SlotMap.get?_remove] at ht
  simp only [Wheel.posOf, Wheel.timer, SlotMap.get?_remove, if_neg hk] at hp ht
  exact h.placed k l s item deadline hp ht fun hx => hout ⟨hx, hk⟩

theorem timer_remove (w : Wheel T) (key k : Nat) :
    ({ w with tasks := w.tasks.remove key } : Wheel T).timer k =
      if k = key then none else w.timer k := by
  simp only [Wheel.timer, SlotMap.get?_remove]
  split <;> rfl

theorem timer_eq {w : Wheel T} {k : Nat} {e : WheelEntry T} (he : w.tasks.get? k = some e) :
    w.timer k = some (e.item, e.deadlineTick) := by simp [Wheel.timer, he]

/-- Linking a task to the place `determine_location` answers brings it home. -/
theorem link_home {w : Wheel T} {out : Nat → Prop} {bound : Nat → Nat} {key : Nat}
    {e : WheelEntry T} (h : Housed w out bound) (hb : ∀ l, bound l ≤ w.currentTick + 1)
    (hbd : ∀ l, bound l ≤ e.deadlineTick) (hkey : out key) (he : w.tasks.get? key = some e) :
    ∃ w', link key (w.determineLocation e.deadlineTick).1
        (w.determineLocation e.deadlineTick).2 w = .ok () w' ∧
      Housed w' (fun k => out k ∧ k ≠ key) bound ∧ LinkMoved w w' ∧
      ∀ k, out k → k ≠ key → w'.tasks.get? k = w.tasks.get? k := by
  obtain ⟨ch, hlists⟩ := h.lists
  have hloc := fun {b} => @determineLocation_home T w h.geometry e.deadlineTick b
  obtain ⟨hslot, -⟩ := hloc (Nat.zero_le _) (Nat.zero_le _)
  obtain ⟨w', ch', hrun, hlists', hm, hpos, hframe⟩ := link_ok hlists hkey he hslot
  refine ⟨w', hrun, ⟨?_, ⟨ch', hlists'⟩, ?_⟩, hm, hframe⟩
  · rw [hm.configs]
    exact h.geometry
  · intro k l s item deadline hp ht hout
    rw [hm.timer] at ht
    rw [hm.configs]
    rw [hpos] at hp
    split at hp
    · next hk =>
        rw [hk, timer_eq he] at ht
        obtain ⟨rfl, rfl⟩ : e.item = item ∧ e.deadlineTick = deadline := by simpa using ht
        obtain ⟨rfl, rfl⟩ := Prod.mk.inj (Option.some.inj hp)
        exact (hloc (hbd _) (hb _)).2
    · next hk => exact h.placed k l s item deadline hp ht fun hx => hout ⟨hx, hk⟩

end DartUdp.TimeWheel
