import DartUdp.Proofs.WheelPlace

/-!
# Advancing fires what is due

Every loop of `advance_by` moves tasks one by one out of a list and either
expires them or links them anew. `Fires` is what such a loop does to the
timers as their user sees them: the expired ones leave, they were all due, and
nothing else changes. It composes, so each loop is one step lemma and one
induction.

Emptying the slot that comes round at a level leaves every task of that level
in a slot that comes round later. From the coarsest level down to level 0
this makes all tasks wait for a later tick, which means that nothing due is
left in the wheel. The fast path reaches the same end by linking every task
anew.

The results are `tickLoop_ok` and `fastForward_ok`, one for each way to advance.
-/

namespace DartUdp.TimeWheel

open DartUdp.Lib

variable {T : Type}

/-- On the way from `w` to `w'` exactly the timers `xs` left, all of them due
at `tick`. -/
structure Fires (tick : Nat) (w w' : Wheel T) (xs : List (Expired T)) : Prop where
  timer : ∀ k, w'.timer k = if k ∈ xs.map (·.id) then none else w.timer k
  fired : ∀ x ∈ xs, w.timer x.id = some (x.item, x.deadlineTick) ∧ x.deadlineTick ≤ tick
  nodup : (xs.map (·.id)).Nodup
  next : w'.tasks.next = w.tasks.next
  configs : w'.configs = w.configs
  rem : w'.remainderNanos = w.remainderNanos
  base : w'.baseTickNanos = w.baseTickNanos

namespace Fires

variable {tick : Nat} {w w₁ w₂ : Wheel T} {xs ys : List (Expired T)}

theorem none (w : Wheel T) : Fires tick w w [] :=
  ⟨fun k => by simp, fun x hx => by simp at hx, List.nodup_nil, rfl, rfl, rfl, rfl⟩

/-- A step that no user of the wheel can see. -/
theorem of_timer (ht : w₁.timer = w.timer) (hn : w₁.tasks.next = w.tasks.next)
    (hc : w₁.configs = w.configs) (hr : w₁.remainderNanos = w.remainderNanos)
    (hb : w₁.baseTickNanos = w.baseTickNanos) : Fires tick w w₁ [] :=
  ⟨fun k => by simp [ht], fun x hx => by simp at hx, List.nodup_nil, hn, hc, hr, hb⟩

theorem mono {tick' : Nat} (h : Fires tick w w₁ xs) (ht : tick ≤ tick') :
    Fires tick' w w₁ xs :=
  ⟨h.timer, fun x hx => ⟨(h.fired x hx).1, (h.fired x hx).2.trans ht⟩, h.nodup, h.next,
    h.configs, h.rem, h.base⟩

theorem trans (h : Fires tick w w₁ xs) (h' : Fires tick w₁ w₂ ys) :
    Fires tick w w₂ (xs ++ ys) := by
  -- What fires later was still there, so it did not fire before.
  have hys : ∀ y ∈ ys, y.id ∉ xs.map (·.id) ∧ w.timer y.id = some (y.item, y.deadlineTick) := by
    intro y hy
    have hf := (h'.fired y hy).1
    rw [h.timer] at hf
    split at hf
    · cases hf
    · next hnot => exact ⟨hnot, hf⟩
  refine ⟨fun k => ?_, fun x hx => ?_, ?_, h'.next.trans h.next, h'.configs.trans h.configs,
    h'.rem.trans h.rem, h'.base.trans h.base⟩
  · rw [h'.timer, h.timer, List.map_append]
    by_cases h1 : k ∈ ys.map (·.id)
    · rw [if_pos h1, if_pos (List.mem_append_right _ h1)]
    · by_cases h2 : k ∈ xs.map (·.id)
      · rw [if_neg h1, if_pos h2, if_pos (List.mem_append_left _ h2)]
      · rw [if_neg h1, if_neg h2, if_neg]
        rw [List.mem_append]
        exact fun hx => hx.elim h2 h1
  · rcases List.mem_append.1 hx with hx | hx
    · exact h.fired x hx
    · exact ⟨(hys x hx).2, (h'.fired x hx).2⟩
  · rw [List.map_append, List.nodup_append]
    refine ⟨h.nodup, h'.nodup, ?_⟩
    rintro a ha b hb rfl
    obtain ⟨y, hy, rfl⟩ := List.mem_map.1 hb
    exact (hys y hy).1 ha

theorem isSome (h : Fires tick w w₁ xs) {k : Nat} (hk : k ∉ xs.map (·.id)) :
    w₁.timer k = w.timer k := by rw [h.timer, if_neg hk]

end Fires

/-- The expiry of a task, if it is due at `tick`. -/
def Wheel.dueAt (w : Wheel T) (tick k : Nat) : Option (Expired T) :=
  (w.timer k).bind fun t => if t.2 ≤ tick then some ⟨k, t.1, t.2⟩ else none

theorem dueAt_eq {w : Wheel T} {tick k : Nat} {e : WheelEntry T} (he : w.tasks.get? k = some e) :
    w.dueAt tick k =
      if e.deadlineTick ≤ tick then some ⟨k, e.item, e.deadlineTick⟩ else none := by
  unfold Wheel.dueAt
  rw [timer_eq he]
  rfl

/-! ## One task -/

/-- The expiry of a task that is in no list. -/
theorem expireTask_ok {w : Wheel T} {out : Nat → Prop} {bound : Nat → Nat} {key : Nat}
    {e : WheelEntry T} (h : Sound w out bound) (hkey : out key)
    (he : w.tasks.get? key = some e) {tick : Nat} (hdue : e.deadlineTick ≤ tick) :
    ∃ w', expireTask key e.deadlineTick w = .ok ⟨key, e.item, e.deadlineTick⟩ w' ∧
      Sound w' (fun k => out k ∧ k ≠ key) bound ∧
      Fires tick w w' [⟨key, e.item, e.deadlineTick⟩] ∧ w'.currentTick = w.currentTick ∧
      ∀ k, k ≠ key → w'.nextOf k = w.nextOf k := by
  obtain ⟨w₁, hrun, hs₁, hm⟩ := removeDeadline_ok h.sync he
  obtain ⟨e₁, he₁, hstrip⟩ := hm.symm.entry_eq he
  have hitem : e₁.strip.item = e.strip.item := congrArg WheelEntry.item hstrip
  change e₁.item = e.item at hitem
  refine ⟨{ w₁ with tasks := w₁.tasks.remove key }, ?_,
    ⟨(h.toHoused.heapMoved hm).remove hkey, hs₁.remove⟩, ?_, hm.tick, ?_⟩
  · simp only [expireTask]
    rw [bind_ok (entry_run he), bind_ok hrun, bind_ok (entry_run he₁),
      bind_ok (modify_run _ w₁), hitem]
    rfl
  · refine ⟨fun k => ?_, fun x hx => ?_, by simp, hm.next, hm.configs, hm.rem, hm.base⟩
    · rw [timer_remove, hm.timer]
      simp
    · obtain rfl := List.mem_singleton.1 hx
      exact ⟨timer_eq he, hdue⟩
  · intro k hk
    rw [← hm.nextOf]
    simp [Wheel.nextOf, SlotMap.get?_remove, hk]

theorem settleTask_ok {w : Wheel T} {out : Nat → Prop} {bound : Nat → Nat} {key : Nat}
    {e : WheelEntry T} (h : Sound w out bound) (hb : ∀ l, bound l ≤ w.currentTick + 1)
    (hkey : out key) (he : w.tasks.get? key = some e) (expired : List (Expired T)) :
    ∃ w' xs, settleTask key expired w = .ok (expired ++ xs) w' ∧
      Sound w' (fun k => out k ∧ k ≠ key) bound ∧ Fires w.currentTick w w' xs ∧
      w'.currentTick = w.currentTick ∧ xs = (w.dueAt w.currentTick key).toList ∧
      ∀ k, out k → k ≠ key → w'.nextOf k = w.nextOf k := by
  rw [dueAt_eq he]
  simp only [settleTask]
  rw [bind_ok (entry_run he), bind_ok (get_run w)]
  by_cases hdue : e.deadlineTick ≤ w.currentTick
  · obtain ⟨w', hrun, hsound, hfires, htick, hnext⟩ := expireTask_ok h hkey he hdue
    refine ⟨w', [⟨key, e.item, e.deadlineTick⟩], ?_, hsound, hfires, htick, ?_,
      fun k _ hk => hnext k hk⟩
    · rw [if_pos hdue, bind_ok hrun]
      rfl
    · rw [if_pos hdue]
      rfl
  · obtain ⟨w', hrun, hsound, hm, hframe⟩ :=
      link_home h.toHoused hb (fun l => by have := hb l; omega) hkey he
    refine ⟨w', [], ?_, ⟨hsound, hm.heapSync h.sync⟩,
      .of_timer hm.timer hm.next hm.configs hm.rem hm.base, hm.tick, ?_,
      fun k hk hne => by simp [Wheel.nextOf, hframe k hk hne]⟩
    · rw [if_neg hdue, bind_ok hrun, List.append_nil]
      rfl
    · rw [if_neg hdue]
      rfl

/-- Only the task itself can expire. -/
theorem id_of_dueAt {w : Wheel T} {tick k : Nat} {x : Expired T}
    (hx : x ∈ (w.dueAt tick k).toList) :
    x.id = k := by
  obtain ⟨t, _, ht⟩ := Option.bind_eq_some_iff.1 (Option.mem_toList.1 hx)
  split at ht
  · rw [← Option.some.inj ht]
  · cases ht

/-! ## One slot -/

/-- Resetting the links of a task that is in no list. -/
theorem Sound.reset {w : Wheel T} {out : Nat → Prop} {bound : Nat → Nat} {key : Nat}
    (h : Sound w out bound) (hkey : out key) :
    Sound
      { w with tasks := w.tasks.modify key fun e => { e with prev := none, next := none } }
      out bound := by
  obtain ⟨ch, hl⟩ := h.lists
  have hne : ∀ l s, ∀ k ∈ ch l s, k ≠ key := by
    rintro l s k hk rfl
    exact (hl.linked l s k hk).1 hkey
  have hpos : ({ w with tasks := w.tasks.modify key fun e =>
      { e with prev := none, next := none } } : Wheel T).posOf = w.posOf := by
    funext k
    simp only [Wheel.posOf, SlotMap.get?_modify]
    split
    · cases w.tasks.get? k <;> rfl
    · rfl
  have htimer : ({ w with tasks := w.tasks.modify key fun e =>
      { e with prev := none, next := none } } : Wheel T).timer = w.timer := by
    funext k
    simp only [Wheel.timer, SlotMap.get?_modify]
    split
    · cases w.tasks.get? k <;> rfl
    · rfl
  refine ⟨⟨h.geometry, ⟨ch, ⟨fun l s => ?_, ?_, ?_⟩⟩, ?_⟩, h.sync.congr rfl fun k => ?_⟩
  · apply (hl.dll l s).congr
    · intro k hk
      simp [Wheel.prevOf, SlotMap.get?_modify, hne l s k hk]
    · intro k hk
      simp [Wheel.nextOf, SlotMap.get?_modify, hne l s k hk]
  · rw [hpos]; exact hl.linked
  · rw [hpos]; exact hl.task
  · unfold Placed
    rw [hpos, htimer]
    exact h.placed
  · simp only [SlotMap.get?_modify]
    split
    · cases w.tasks.get? k <;> rfl
    · rfl

/-- The walk along a detached list: `keys` are its tasks from `head` on. -/
theorem processChain_ok : ∀ (keys : List Nat) (fuel : Nat) {w : Wheel T} {out : Nat → Prop}
    {bound : Nat → Nat} (expired : List (Expired T)), keys.length ≤ fuel → keys.Nodup →
    Sound w out bound → (∀ l, bound l ≤ w.currentTick + 1) →
    (∀ k ∈ keys, out k ∧ (w.timer k).isSome) →
    (∀ pre k post, keys = pre ++ k :: post → w.nextOf k = post.head?) →
    ∃ w' xs, processChain fuel keys.head? expired w = .ok (expired ++ xs) w' ∧
      Sound w' (fun k => out k ∧ k ∉ keys) bound ∧ Fires w.currentTick w w' xs ∧
      w'.currentTick = w.currentTick := by
  intro keys
  induction keys with
  | nil =>
      intro fuel w out bound expired _ _ h _ _ _
      refine ⟨w, [], ?_, h.congr_out (by simp), .none w, rfl⟩
      rw [List.append_nil]
      cases fuel <;> rfl
  | cons key rest ih =>
      intro fuel w out bound expired hfuel hnd h hb hmem hnext
      obtain ⟨fuel, rfl⟩ : ∃ f, fuel = f + 1 := ⟨fuel - 1, by simp at hfuel; omega⟩
      obtain ⟨hkr, hndr⟩ := List.nodup_cons.1 hnd
      obtain ⟨hkey, hsome⟩ := hmem key (by simp)
      obtain ⟨e, he⟩ : ∃ e, w.tasks.get? key = some e := by
        simpa [Wheel.timer, Option.isSome_iff_exists] using hsome
      let w₁ : Wheel T :=
        { w with tasks := w.tasks.modify key fun e => { e with prev := none, next := none } }
      have he₁ : w₁.tasks.get? key = some { e with prev := none, next := none } := by
        simp [w₁, SlotMap.get?_modify, he]
      have ht₁ : w₁.timer = w.timer := by
        funext k
        simp only [w₁, Wheel.timer, SlotMap.get?_modify]
        split
        · cases w.tasks.get? k <;> rfl
        · rfl
      have hn₁ : ∀ k, k ≠ key → w₁.nextOf k = w.nextOf k := by
        intro k hk
        simp [w₁, Wheel.nextOf, SlotMap.get?_modify, hk]
      obtain ⟨w₂, xs, hrun₂, hs₂, hf₂, htick₂, hxs, hnext₂⟩ :=
        settleTask_ok (h.reset hkey) hb hkey he₁ expired
      have hf : Fires w.currentTick w w₂ xs :=
        (Fires.of_timer ht₁ rfl rfl rfl rfl).trans hf₂
      obtain ⟨w₃, ys, hrun₃, hs₃, hf₃, htick₃⟩ :=
        ih fuel (expired ++ xs) (by simpa using hfuel) hndr hs₂ (by rw [htick₂]; exact hb)
          (fun k hk => by
            have hkk : k ≠ key := fun heq => hkr (heq ▸ hk)
            have hout := hmem k (by simp [hk])
            refine ⟨⟨hout.1, hkk⟩, ?_⟩
            rw [hf.isSome]
            · exact hout.2
            · intro hx
              obtain ⟨x, hmem, rfl⟩ := List.mem_map.1 hx
              exact hkk (id_of_dueAt (hxs ▸ hmem)))
          (fun pre k post hsplit => by
            have hk : k ∈ rest := by rw [hsplit]; simp
            have hkk : k ≠ key := fun heq => hkr (heq ▸ hk)
            rw [hnext₂ k (hmem k (by simp [hk])).1 hkk, hn₁ k hkk]
            exact hnext (key :: pre) k post (by rw [hsplit]; rfl))
      refine ⟨w₃, xs ++ ys, ?_, hs₃.congr_out fun k => ?_, hf.trans ?_, htick₃.trans htick₂⟩
      · have hnx : e.next = rest.head? := by
          have := hnext [] key rest rfl
          simpa [Wheel.nextOf, he] using this
        simp only [List.head?_cons, processChain]
        rw [bind_ok (entry_run he), bind_ok (modifyEntry_run he), bind_ok hrun₂, hnx, hrun₃,
          List.append_assoc]
      · simp only [List.mem_cons, not_or]
        tauto
      · have : w₂.currentTick = w.currentTick := htick₂
        rw [← this]
        exact hf₃

/-- Taking a slot's list off the wheel. -/
theorem Lists.detach {w : Wheel T} {ch : Nat → Nat → List Nat} {l s : Nat}
    (h : Lists w ch fun _ => False) (hs : w.HasSlot l s) :
    Lists (w.setSlot l s Slot.empty) (fun l' s' => if l' = l ∧ s' = s then [] else ch l' s')
      (· ∈ ch l s) := by
  refine ⟨fun l' s' => ?_, fun l' s' k hk => ?_, fun k l' s' hp hout => ?_⟩
  · rw [slotAt_setSlot hs]
    split
    · exact .nil
    · exact h.dll l' s'
  · split at hk
    · cases hk
    · next hls =>
        have hp := (h.linked l' s' k hk).2
        refine ⟨fun hx => ?_, hp⟩
        have hp' := (h.linked l s k hx).2
        rw [hp] at hp'
        obtain ⟨rfl, rfl⟩ := Prod.mk.inj (Option.some.inj hp')
        exact hls ⟨rfl, rfl⟩
  · have hk := h.task k l' s' hp id
    split
    · next hls =>
        obtain ⟨rfl, rfl⟩ := hls
        exact absurd hk hout
    · exact hk

/-- Emptying the slot `(l, s)`: the tasks of the other slots must already be
at home for the new bound. -/
theorem processSlot_ok {w : Wheel T} {bound bound' : Nat → Nat} {l s : Nat}
    (h : Sound w (fun _ => False) bound) (hs : w.HasSlot l s)
    (hb : ∀ l, bound' l ≤ w.currentTick + 1)
    (hplaced : Placed w (fun k => w.posOf k = some (l, s)) bound')
    (expired : List (Expired T)) :
    ∃ w' xs, processSlot l s expired w = .ok (expired ++ xs) w' ∧
      Sound w' (fun _ => False) bound' ∧ Fires w.currentTick w w' xs ∧
      w'.currentTick = w.currentTick := by
  obtain ⟨ch, hl⟩ := h.lists
  have hdll := hl.dll l s
  have hch : ∀ k, k ∈ ch l s ↔ w.posOf k = some (l, s) := fun k =>
    ⟨fun hk => (hl.linked l s k hk).2, fun hp => hl.task k l s hp id⟩
  have hsome : ∀ k ∈ ch l s, (w.timer k).isSome := by
    intro k hk
    have := (hch k).1 hk
    cases hk : w.tasks.get? k with
    | none => simp [Wheel.posOf, hk] at this
    | some e => simp [Wheel.timer, hk]
  have hdetach : Sound (w.setSlot l s Slot.empty) (· ∈ ch l s) bound' := by
    refine ⟨⟨?_, ⟨_, hl.detach hs⟩, ?_⟩, h.sync.congr rfl fun _ => rfl⟩
    · rw [configs_setSlot]; exact h.geometry
    · intro k l' s' item deadline hp ht hout
      rw [configs_setSlot]
      exact hplaced k l' s' item deadline hp ht fun hx => hout ((hch k).2 hx)
  have hlen : (ch l s).length ≤ w.tasks.len := by
    refine SlotMap.length_le_len hdll.nodup fun k hk => ?_
    have := hsome k hk
    simpa [Wheel.timer] using this
  obtain ⟨w', xs, hrun, hs', hf, htick⟩ :=
    processChain_ok (ch l s) w.tasks.len expired hlen hdll.nodup hdetach hb
      (fun k hk => ⟨hk, hsome k hk⟩) (fun pre k post hsplit => (hdll.links pre k post hsplit).2)
  refine ⟨w', xs, ?_, hs'.congr_out (by simp), ?_, htick⟩
  · simp only [processSlot]
    rw [bind_ok (get_run w), bind_ok (set_run _ w), hdll.head_eq]
    exact hrun
  · have hfirst : Fires w.currentTick w (w.setSlot l s Slot.empty) [] :=
      .of_timer rfl rfl (configs_setSlot w l s _) rfl rfl
    exact hfirst.trans hf

/-! ## One tick -/

/-- Levels `n` and above have been looked at in the tick `tick`. -/
def boundFrom (n tick : Nat) (level : Nat) : Nat := if n ≤ level then tick + 1 else tick

theorem boundFrom_le (n tick level : Nat) : boundFrom n tick level ≤ tick + 1 := by
  unfold boundFrom
  split <;> omega

/-- A level whose slot at the present tick is emptied, or that has none, is
done with the tick. -/
theorem Sound.turn {w : Wheel T} {n : Nat} {lv : LevelConfig}
    (h : Sound w (fun _ => False) (boundFrom (n + 1) w.currentTick))
    (hlv : w.configs[n]? = some lv) :
    Placed w
      (fun k => w.currentTick % lv.unitTicks = 0 ∧
        w.posOf k = some (n, w.currentTick / lv.unitTicks % lv.slotCount))
      (boundFrom n w.currentTick) := by
  intro k l s item deadline hp ht hout
  have hhome := h.placed k l s item deadline hp ht id
  by_cases hl : l = n
  · subst hl
    simp only [boundFrom, Nat.not_succ_le_self, if_false] at hhome
    simp only [boundFrom, Nat.le_refl, if_true]
    refine hhome.succ hlv (h.geometry.unit_pos l lv hlv) fun hmod hslot => hout ⟨hmod, ?_⟩
    rw [hp, hslot]
  · have : boundFrom n w.currentTick l = boundFrom (n + 1) w.currentTick l := by
      simp only [boundFrom]
      split <;> split <;> omega
    rw [this]
    exact hhome

theorem configs_getD {w : Wheel T} {n : Nat} (hn : n < w.levels.length) :
    w.configs[n]? = some (w.levels.getD n default).config := by
  simp [Wheel.configs, List.getD_eq_getElem?_getD, List.getElem?_eq_getElem hn]

theorem length_configs (w : Wheel T) : w.configs.length = w.levels.length := by
  simp [Wheel.configs]

/-- Level `n` at the present tick. -/
theorem processSlot_turn {w : Wheel T} {n : Nat} (hn : n < w.levels.length)
    (h : Sound w (fun _ => False) (boundFrom (n + 1) w.currentTick))
    (expired : List (Expired T)) :
    ∃ w' xs, processSlot n ((w.currentTick / (w.levels.getD n default).unitTicks) &&&
        (w.levels.getD n default).mask) expired w = .ok (expired ++ xs) w' ∧
      Sound w' (fun _ => False) (boundFrom n w.currentTick) ∧ Fires w.currentTick w w' xs ∧
      w'.currentTick = w.currentTick := by
  have hlv := configs_getD hn
  have hmask := h.geometry.mask n _ hlv
    (w.currentTick / (w.levels.getD n default).unitTicks)
  have hslot : w.HasSlot n ((w.currentTick / (w.levels.getD n default).unitTicks) &&&
      (w.levels.getD n default).mask) :=
    hasSlot_iff.2 ⟨_, hlv, hmask.trans_lt (Nat.mod_lt _ (h.geometry.count_pos n _ hlv))⟩
  refine processSlot_ok h hslot (boundFrom_le n _) ?_ expired
  intro k l s item deadline hp ht hout
  refine h.turn hlv k l s item deadline hp ht fun hx => hout ?_
  exact hx.2.trans (congrArg (fun x => some (n, x)) hmask.symm)

theorem cascade_ok : ∀ (n : Nat) {w : Wheel T} (expired : List (Expired T)),
    n < w.levels.length → Sound w (fun _ => False) (boundFrom (n + 1) w.currentTick) →
    ∃ w' xs, cascade n expired w = .ok (expired ++ xs) w' ∧
      Sound w' (fun _ => False) (boundFrom 1 w.currentTick) ∧ Fires w.currentTick w w' xs ∧
      w'.currentTick = w.currentTick := by
  intro n
  induction n with
  | zero =>
      intro w expired _ h
      exact ⟨w, [], by rw [List.append_nil]; rfl, h, .none w, rfl⟩
  | succ n ih =>
      intro w expired hn h
      simp only [cascade]
      rw [bind_ok (get_run w)]
      by_cases hmod : w.currentTick % (w.levels.getD (n + 1) default).unitTicks = 0
      · obtain ⟨w₁, xs, hrun₁, hs₁, hf₁, ht₁⟩ := processSlot_turn hn h expired
        have hn₁ : n < w₁.levels.length := by
          rw [← length_configs, hf₁.configs, length_configs]
          omega
        rw [← ht₁] at hs₁
        obtain ⟨w₂, ys, hrun₂, hs₂, hf₂, ht₂⟩ := ih (expired ++ xs) hn₁ hs₁
        rw [ht₁] at hs₂ hf₂
        refine ⟨w₂, xs ++ ys, ?_, hs₂, hf₁.trans hf₂, ht₂.trans ht₁⟩
        rw [if_pos hmod, bind_ok hrun₁, hrun₂, List.append_assoc]
      · have hs₁ : Sound w (fun _ => False) (boundFrom (n + 1) w.currentTick) := by
          refine ⟨⟨h.geometry, h.lists, ?_⟩, h.sync⟩
          intro k l s item deadline hp ht _
          exact h.turn (configs_getD hn) k l s item deadline hp ht fun hx => hmod hx.1
        obtain ⟨w₂, ys, hrun₂, hs₂, hf₂, ht₂⟩ := ih expired (by omega) hs₁
        refine ⟨w₂, ys, ?_, hs₂, hf₂, ht₂⟩
        rw [if_neg hmod]
        exact hrun₂

/-- One tick: afterwards every task waits for a later one. -/
theorem processTick_ok {w : Wheel T}
    (h : Sound w (fun _ => False) fun _ => w.currentTick) (expired : List (Expired T)) :
    ∃ w' xs, processTick expired w = .ok (expired ++ xs) w' ∧
      Sound w' (fun _ => False) (fun _ => w.currentTick + 1) ∧
      Fires w.currentTick w w' xs ∧ w'.currentTick = w.currentTick := by
  have hlen : 0 < w.levels.length := by
    rw [← length_configs]
    exact List.length_pos_iff.2 h.geometry.nonempty
  have hs₀ : Sound w (fun _ => False) (boundFrom (w.levels.length - 1 + 1) w.currentTick) := by
    refine ⟨⟨h.geometry, h.lists, ?_⟩, h.sync⟩
    intro k l s item deadline hp ht hout
    have hhome := h.placed k l s item deadline hp ht hout
    have ⟨lv, hlv, _⟩ := hhome
    have hl := (List.getElem?_eq_some_iff.1 hlv).1
    rw [length_configs] at hl
    simp only [boundFrom]
    rw [if_neg (by omega)]
    exact hhome
  obtain ⟨w₁, xs, hrun₁, hs₁, hf₁, ht₁⟩ := cascade_ok _ expired (by omega) hs₀
  have hlen₁ : 0 < w₁.levels.length := by
    rw [← length_configs, hf₁.configs, length_configs]
    exact hlen
  have hunit : (w₁.levels.getD 0 default).unitTicks = 1 :=
    hs₁.geometry.unit_zero _ (configs_getD hlen₁)
  rw [← ht₁] at hs₁
  obtain ⟨w₂, ys, hrun₂, hs₂, hf₂, ht₂⟩ :=
    processSlot_turn hlen₁ hs₁ (expired ++ xs)
  rw [hunit, Nat.div_one] at hrun₂
  rw [ht₁] at hs₂ hf₂
  refine ⟨w₂, xs ++ ys, ?_, ?_, hf₁.trans hf₂, ht₂.trans ht₁⟩
  · simp only [processTick, cascadeAtCurrentTick]
    have hcas : (do cascade ((← get).levels.length - 1) expired : WheelM T (List (Expired T))) w =
        .ok (expired ++ xs) w₁ := (bind_ok (get_run w)).trans hrun₁
    rw [bind_ok hcas]
    simp only [processL0Slot]
    rw [bind_ok (get_run w₁), hrun₂, List.append_assoc]
  · have : boundFrom 0 w.currentTick = fun _ => w.currentTick + 1 := by
      funext l
      simp [boundFrom]
    rw [← this]
    exact hs₂

/-! ## The two ways to advance -/

/-- The wheel after an advance to `tick`: nothing due is left in it. -/
structure Advanced (tick : Nat) (w w' : Wheel T) (xs : List (Expired T)) : Prop where
  sound : Sound w' (fun _ => False) (fun _ => tick + 1)
  fires : Fires tick w w' xs
  tick : w'.currentTick = tick

/-- Waiting for a later tick is not being due. -/
theorem Sound.lt_deadline {w : Wheel T} {tick k deadline : Nat} {item : T}
    (h : Sound w (fun _ => False) fun _ => tick + 1) (ht : w.timer k = some (item, deadline)) :
    tick < deadline := by
  obtain ⟨e, he, _⟩ := Option.map_eq_some_iff.1 ht
  exact (h.placed k e.level e.slot item deadline (by simp [Wheel.posOf, he]) ht id).le_deadline

/-- After an advance the timers that fired are those that were due. -/
theorem Advanced.mem_iff {w w' : Wheel T} {tick : Nat} {xs : List (Expired T)}
    (h : Advanced tick w w' xs) (x : Expired T) :
    x ∈ xs ↔ w.timer x.id = some (x.item, x.deadlineTick) ∧ x.deadlineTick ≤ tick := by
  refine ⟨h.fires.fired x, fun ⟨ht, hle⟩ => ?_⟩
  have hid : x.id ∈ xs.map (·.id) := by
    by_contra hnot
    have ht' : w'.timer x.id = some (x.item, x.deadlineTick) := by
      rw [h.fires.isSome hnot]; exact ht
    have := h.sound.lt_deadline ht'
    omega
  obtain ⟨y, hy, hyid⟩ := List.mem_map.1 hid
  have hyt := (h.fires.fired y hy).1
  rw [show y.id = x.id from hyid, ht] at hyt
  obtain ⟨hitem, hdl⟩ := Prod.mk.inj (Option.some.inj hyt)
  have : x = y := by
    cases x; cases y
    simp_all
  rw [this]
  exact hy

/-- Waiting for a tick, from `tick` on, is not being due before it. -/
theorem Fires.at_tick {w w' : Wheel T} {tick : Nat} {xs : List (Expired T)}
    (hf : Fires tick w w' xs) (h : Sound w (fun _ => False) fun _ => tick) :
    ∀ x ∈ xs, x.deadlineTick = tick := by
  intro x hx
  obtain ⟨ht, hle⟩ := hf.fired x hx
  obtain ⟨e, he, _⟩ := Option.map_eq_some_iff.1 ht
  have hhome := h.placed x.id e.level e.slot x.item x.deadlineTick (by simp [Wheel.posOf, he]) ht id
  exact Nat.le_antisymm hle hhome.le_deadline

/-- The timers in the order of their deadlines. -/
def InOrder (xs : List (Expired T)) : Prop :=
  xs.Pairwise fun x y => x.deadlineTick ≤ y.deadlineTick

/-- What one tick fires comes before what later ticks do. -/
theorem InOrder.append {xs ys : List (Expired T)} {tick : Nat}
    (hxs : ∀ x ∈ xs, x.deadlineTick = tick) (hys : InOrder ys)
    (hlt : ∀ y ∈ ys, tick < y.deadlineTick) : InOrder (xs ++ ys) := by
  refine List.pairwise_append.2 ⟨?_, hys, fun x hx y hy => ?_⟩
  · exact List.pairwise_of_forall_mem_list fun x hx y hy => by rw [hxs x hx, hxs y hy]
  · have := hlt y hy
    rw [hxs x hx]
    omega

/-- The ticks after the present one fire timers in the order of their
deadlines. -/
theorem tickLoop_ok : ∀ (n : Nat) {w : Wheel T} (expired : List (Expired T)),
    Sound w (fun _ => False) (fun _ => w.currentTick + 1) →
    ∃ w' xs, tickLoop n expired w = .ok (expired ++ xs) w' ∧
      Advanced (w.currentTick + n) w w' xs ∧ InOrder xs := by
  intro n
  induction n with
  | zero =>
      intro w expired h
      exact ⟨w, [], by rw [List.append_nil]; rfl, ⟨h, .none w, rfl⟩, .nil⟩
  | succ n ih =>
      intro w expired h
      let w₁ : Wheel T := { w with currentTick := w.currentTick + 1 }
      have h₁ : Sound w₁ (fun _ => False) (fun _ => w₁.currentTick) :=
        ⟨⟨h.geometry, h.lists.imp fun ch hl => hl.congr rfl rfl rfl rfl, h.placed⟩,
          h.sync.congr rfl fun _ => rfl⟩
      obtain ⟨w₂, xs, hrun₂, hs₂, hf₂, ht₂⟩ := processTick_ok h₁ expired
      rw [← ht₂] at hs₂
      obtain ⟨w₃, ys, hrun₃, ha, hord⟩ := ih (expired ++ xs) hs₂
      have htick : w₂.currentTick + n = w.currentTick + (n + 1) := by
        rw [ht₂]
        show w.currentTick + 1 + n = _
        omega
      rw [htick] at ha
      have hclock : Fires w₁.currentTick w w₁ [] := .of_timer rfl rfl rfl rfl rfl
      have hfirst : Fires (w.currentTick + (n + 1)) w w₂ xs :=
        (hclock.trans hf₂).mono (by show w.currentTick + 1 ≤ _; omega)
      refine ⟨w₃, xs ++ ys, ?_, ⟨ha.sound, hfirst.trans ha.fires, ha.tick⟩, ?_⟩
      · simp only [tickLoop]
        rw [bind_ok (modify_run _ w), bind_ok hrun₂, hrun₃, List.append_assoc]
      · refine .append (hf₂.at_tick h₁) hord fun y hy => ?_
        rw [← ht₂]
        exact hs₂.lt_deadline (ha.fires.fired y hy).1

/-- Settling `keys` one by one expires those that are due, in their order. -/
theorem settleAll_ok : ∀ (keys : List Nat) {w : Wheel T} {out : Nat → Prop}
    {bound : Nat → Nat} (expired : List (Expired T)), keys.Nodup → Sound w out bound →
    (∀ l, bound l ≤ w.currentTick + 1) → (∀ k ∈ keys, out k ∧ (w.timer k).isSome) →
    ∃ w', settleAll keys expired w =
        .ok (expired ++ keys.filterMap (w.dueAt w.currentTick)) w' ∧
      Sound w' (fun k => out k ∧ k ∉ keys) bound ∧
      Fires w.currentTick w w' (keys.filterMap (w.dueAt w.currentTick)) ∧
      w'.currentTick = w.currentTick := by
  intro keys
  induction keys with
  | nil =>
      intro w out bound expired _ h _ _
      exact ⟨w, by rw [List.filterMap_nil, List.append_nil]; rfl, h.congr_out (by simp), .none w,
        rfl⟩
  | cons key rest ih =>
      intro w out bound expired hnd h hb hmem
      obtain ⟨hkr, hndr⟩ := List.nodup_cons.1 hnd
      obtain ⟨hkey, hsome⟩ := hmem key (by simp)
      obtain ⟨e, he⟩ : ∃ e, w.tasks.get? key = some e := by
        simpa [Wheel.timer, Option.isSome_iff_exists] using hsome
      obtain ⟨w₂, xs, hrun₂, hs₂, hf₂, ht₂, hxs, _⟩ := settleTask_ok h hb hkey he expired
      -- The task that was settled is none of the rest.
      have hsame : ∀ k ∈ rest, w₂.timer k = w.timer k := fun k hk => hf₂.isSome fun hx => by
        obtain ⟨x, hx', rfl⟩ := List.mem_map.1 hx
        have hid := id_of_dueAt (hxs ▸ hx')
        exact hkr (hid ▸ hk)
      have hdue : rest.filterMap (w₂.dueAt w.currentTick) =
          rest.filterMap (w.dueAt w.currentTick) :=
        List.filterMap_congr fun k hk => by rw [Wheel.dueAt, Wheel.dueAt, hsame k hk]
      have hcons : (key :: rest).filterMap (w.dueAt w.currentTick) =
          xs ++ rest.filterMap (w.dueAt w.currentTick) := by
        rw [hxs, List.filterMap_cons]
        cases w.dueAt w.currentTick key <;> rfl
      obtain ⟨w₃, hrun₃, hs₃, hf₃, ht₃⟩ :=
        ih (expired ++ xs) hndr hs₂ (by rw [ht₂]; exact hb) fun k hk =>
          ⟨⟨(hmem k (by simp [hk])).1, fun heq => hkr (heq ▸ hk)⟩, by
            rw [hsame k hk]; exact (hmem k (by simp [hk])).2⟩
      rw [ht₂, hdue] at hrun₃ hf₃
      rw [hcons]
      refine ⟨w₃, ?_, hs₃.congr_out fun k => ?_, hf₂.trans hf₃, ht₃.trans ht₂⟩
      · simp only [settleAll]
        rw [bind_ok hrun₂, hrun₃, List.append_assoc]
      · simp only [List.mem_cons, not_or]
        tauto

/-- `keys` are the live timers, each once, in an order in which the slot map may
enumerate them. -/
structure Enumerates (w : Wheel T) (keys : List Nat) : Prop where
  nodup : keys.Nodup
  mem_iff : ∀ k, k ∈ keys ↔ (w.tasks.get? k).isSome

theorem enumerates_keys (w : Wheel T) : Enumerates w w.tasks.keys :=
  ⟨w.tasks.nodup_keys, w.tasks.mem_keys⟩

theorem fastForward_ok {w : Wheel T} {bound : Nat → Nat} (h : Sound w (fun _ => False) bound)
    {keys : List Nat} (henum : Enumerates w keys) (target : Nat) (expired : List (Expired T)) :
    ∃ w', fastForward keys target expired w =
        .ok (expired ++ keys.filterMap (w.dueAt target)) w' ∧
      Advanced target w w' (keys.filterMap (w.dueAt target)) := by
  let w₁ : Wheel T :=
    { w with levels := w.levels.map Level.clearSlots, currentTick := target }
  have hcfg : w₁.configs = w.configs := configs_clearSlots w
  have hslot : ∀ l s, w₁.slotAt l s = Slot.empty := slotAt_clearSlots w
  have hkeys : ∀ k, k ∈ keys ↔ (w.timer k).isSome := by
    intro k
    rw [henum.mem_iff]
    simp [Wheel.timer]
  have h₁ : Sound w₁ (· ∈ keys) (fun _ => target + 1) := by
    refine ⟨⟨by rw [hcfg]; exact h.geometry,
      ⟨fun _ _ => [], ⟨fun l s => ?_, fun _ _ k hk => (by cases hk), fun k l s hp hk => ?_⟩⟩,
      ?_⟩, h.sync.congr rfl fun _ => rfl⟩
    · rw [hslot]; exact .nil
    · exfalso
      apply hk
      rw [hkeys]
      obtain ⟨e, he, _⟩ := Option.map_eq_some_iff.1 hp
      have he' : w.tasks.get? k = some e := he
      simp [Wheel.timer, he']
    · intro k l s item deadline _ ht hk
      exfalso
      apply hk
      rw [hkeys]
      have ht' : w.timer k = some (item, deadline) := ht
      simp [ht']
  obtain ⟨w₂, hrun, hs, hf, ht⟩ :=
    settleAll_ok keys expired henum.nodup h₁ (fun _ => Nat.le_refl _)
      (fun k hk => ⟨hk, (hkeys k).1 hk⟩)
  refine ⟨w₂, ?_, hs.congr_out (by simp), ?_, ht⟩
  · simp only [fastForward]
    rw [bind_ok (modify_run _ w)]
    exact hrun
  · have hfirst : Fires target w w₁ [] := .of_timer rfl rfl hcfg rfl rfl
    exact hfirst.trans hf

end DartUdp.TimeWheel
