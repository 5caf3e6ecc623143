import Mathlib.Data.List.Basic
import Mathlib.Data.Option.Basic
import Mathlib.Logic.Function.Basic
import Mathlib.Tactic.Common

/-!
# Pending entries and the slots that name them

Entries are pending under ids that are handed out once. For some kinds of entry
there is to be at most one, and a slot holds its id, so that the entry can be
taken back through the slot. Entries go off together and are dealt with one
after another, and until then their slots lag behind; the entries still to be
dealt with are `due`.

The slots stay faithful as long as an entry is only set into an empty slot,
and an entry is forgotten in its slot when it is dealt with.
-/

namespace DartUdp.Lib

/-- The entries pending under ids, the slot of each kind, and the next id. -/
structure Alarms (K E : Type) where
  live : Nat → Option E
  slot : K → Option Nat
  next : Nat

namespace Alarms

variable {K E : Type} {event : K → E} {a a' : Alarms K E} {e : E} {k k' : K} {id i : Nat}
  {due rest : List E}

/-- An entry under a new id. -/
def add (a : Alarms K E) (e : E) : Alarms K E :=
  { a with live := Function.update a.live a.next (some e), next := a.next + 1 }

def drop (a : Alarms K E) (id : Nat) : Alarms K E :=
  { a with live := Function.update a.live id none }

def expire (a : Alarms K E) (ids : List Nat) : Alarms K E :=
  { a with live := fun id => if id ∈ ids then none else a.live id }

def clear (a : Alarms K E) : Alarms K E := { a with live := fun _ => none, slot := fun _ => none }

theorem add_live_self (a : Alarms K E) (e : E) : (a.add e).live a.next = some e :=
  Function.update_self ..

theorem add_live_of_ne (h : id ≠ a.next) (e : E) : (a.add e).live id = a.live id :=
  Function.update_of_ne h ..

theorem drop_live_self (a : Alarms K E) (id : Nat) : (a.drop id).live id = none :=
  Function.update_self ..

theorem drop_live_of_ne (h : i ≠ id) : (a.drop id).live i = a.live i := Function.update_of_ne h ..

theorem live_of_drop (h : (a.drop id).live i = some e) : i ≠ id ∧ a.live i = some e := by
  by_cases hi : i = id
  · rw [hi, drop_live_self] at h
    cases h
  · rw [drop_live_of_ne hi] at h
    exact ⟨hi, h⟩

theorem live_of_expire {ids : List Nat} (h : (a.expire ids).live id = some e) :
    id ∉ ids ∧ a.live id = some e := by
  dsimp only [expire] at h
  split at h
  · cases h
  · next hout => exact ⟨hout, h⟩

section Slots

variable [DecidableEq K]

/-- An entry under a new id, which goes into the slot. -/
def set (a : Alarms K E) (k : K) (e : E) : Alarms K E :=
  { a.add e with slot := Function.update a.slot k (some a.next) }

def forget (a : Alarms K E) (k : K) : Alarms K E := { a with slot := Function.update a.slot k none }

/-- The entry in the slot is taken back. -/
def stop (a : Alarms K E) (k : K) : Alarms K E :=
  match a.slot k with
  | some id => (a.drop id).forget k
  | none => a

theorem set_slot_self (a : Alarms K E) (k : K) (e : E) : (a.set k e).slot k = some a.next :=
  Function.update_self ..

theorem set_slot_of_ne (h : k' ≠ k) (e : E) : (a.set k e).slot k' = a.slot k' :=
  Function.update_of_ne h ..

theorem forget_slot_self (a : Alarms K E) (k : K) : (a.forget k).slot k = none :=
  Function.update_self ..

theorem forget_slot_of_ne (h : k' ≠ k) : (a.forget k).slot k' = a.slot k' :=
  Function.update_of_ne h ..

theorem slot_of_forget (h : (a.forget k).slot k' = some id) : k' ≠ k ∧ a.slot k' = some id := by
  by_cases hk : k' = k
  · rw [hk, forget_slot_self] at h
    cases h
  · rw [forget_slot_of_ne hk] at h
    exact ⟨hk, h⟩

theorem stop_of_none (h : a.slot k = none) : a.stop k = a := by
  unfold stop
  rw [h]

theorem stop_of_some (h : a.slot k = some id) : a.stop k = (a.drop id).forget k := by
  unfold stop
  rw [h]

/-- Stopping a timer sets no slot. -/
theorem stop_slot_of_none (h : a.slot k' = none) : (a.stop k).slot k' = none := by
  cases hslot : a.slot k with
  | none => rwa [stop_of_none hslot]
  | some id =>
      rw [stop_of_some hslot]
      by_contra hne
      obtain ⟨i, hi⟩ := Option.ne_none_iff_exists'.1 hne
      cases (slot_of_forget hi).2.symm.trans h

end Slots

/-! ## Time passes -/

/-- Nothing appears under an id that was handed out before. -/
structure Ages (a a' : Alarms K E) : Prop where
  next : a.next ≤ a'.next
  live : ∀ id < a.next, ∀ e, a'.live id = some e → a.live id = some e

theorem ages_add (a : Alarms K E) (e : E) : a.Ages (a.add e) := by
  refine ⟨Nat.le_succ _, fun id hid e' he => ?_⟩
  rwa [add_live_of_ne (Nat.ne_of_lt hid)] at he

theorem ages_drop (a : Alarms K E) (id : Nat) : a.Ages (a.drop id) :=
  ⟨Nat.le_refl _, fun _ _ _ he => (live_of_drop he).2⟩

theorem ages_expire (a : Alarms K E) (ids : List Nat) : a.Ages (a.expire ids) :=
  ⟨Nat.le_refl _, fun _ _ _ he => (live_of_expire he).2⟩

theorem ages_clear (a : Alarms K E) : a.Ages a.clear :=
  ⟨Nat.le_refl _, fun _ _ _ he => by cases he⟩

/-! ## Ids -/

/-- The id was handed out, and not to an entry that has a slot. -/
structure Foreign (event : K → E) (a : Alarms K E) (id : Nat) : Prop where
  old : id < a.next
  other : ∀ k, a.live id ≠ some (event k)

theorem Foreign.ages (h : Foreign event a id) (hages : a.Ages a') : Foreign event a' id :=
  ⟨Nat.lt_of_lt_of_le h.old hages.next, fun k hlive => h.other k (hages.live id h.old _ hlive)⟩

/-- Ids are handed out in order, and no slot holds the id of an entry of another
kind. -/
structure Ordered (event : K → E) (a : Alarms K E) : Prop where
  fresh : ∀ id, a.next ≤ id → a.live id = none
  old : ∀ k id, a.slot k = some id → id < a.next
  own : ∀ k id k', a.slot k = some id → a.live id = some (event k') → k' = k

namespace Ordered

theorem add (h : Ordered event a) (e : E) : Ordered event (a.add e) := by
  refine ⟨fun id hid => ?_, fun k id hslot => Nat.lt_succ_of_lt (h.old k id hslot),
    fun k id k' hslot hlive => ?_⟩
  · have hid : a.next < id := hid
    rw [add_live_of_ne (Nat.ne_of_gt hid)]
    exact h.fresh id (Nat.le_of_lt hid)
  · exact h.own k id k' hslot ((a.ages_add e).live id (h.old k id hslot) _ hlive)

/-- Entries go, and slots are emptied. -/
theorem shrink (h : Ordered event a) (hnext : a'.next = a.next)
    (hlive : ∀ id e, a'.live id = some e → a.live id = some e)
    (hslot : ∀ k id, a'.slot k = some id → a.slot k = some id) : Ordered event a' := by
  refine ⟨fun id hid => ?_, fun k id hk => ?_, fun k id k' hk he => ?_⟩
  · rw [hnext] at hid
    cases he : a'.live id with
    | none => rfl
    | some e =>
        have hold := hlive id e he
        rw [h.fresh id hid] at hold
        cases hold
  · rw [hnext]
    exact h.old k id (hslot k id hk)
  · exact h.own k id k' (hslot k id hk) (hlive id _ he)

theorem drop (h : Ordered event a) (id : Nat) : Ordered event (a.drop id) :=
  h.shrink rfl (fun _ _ he => (live_of_drop he).2) fun _ _ hk => hk

theorem expire (h : Ordered event a) (ids : List Nat) : Ordered event (a.expire ids) :=
  h.shrink rfl (fun _ _ he => (live_of_expire he).2) fun _ _ hk => hk

theorem clear (h : Ordered event a) : Ordered event a.clear :=
  h.shrink rfl (fun _ _ he => by cases he) fun _ _ hk => by cases hk

/-- A new entry takes the place of none. -/
theorem live_add (h : Ordered event a) (e' : E) (hlive : a.live id = some e) :
    (a.add e').live id = some e := by
  have hid : id ≠ a.next := by
    intro heq
    rw [heq, h.fresh _ (Nat.le_refl _)] at hlive
    cases hlive
  rwa [add_live_of_ne hid]

variable [DecidableEq K]

theorem set (h : Ordered event a) (hinj : Function.Injective event) (k : K) :
    Ordered event (a.set k (event k)) := by
  refine ⟨(h.add (event k)).fresh, fun k' id hslot => ?_, fun k' id k'' hslot hlive => ?_⟩
  · by_cases hk : k' = k
    · rw [hk, set_slot_self] at hslot
      cases hslot
      exact Nat.lt_succ_self _
    · rw [set_slot_of_ne hk] at hslot
      exact Nat.lt_succ_of_lt (h.old k' id hslot)
  · by_cases hk : k' = k
    · rw [hk, set_slot_self] at hslot
      cases hslot
      have hnew : event k'' = event k := Option.some.inj (hlive.symm.trans (a.add_live_self _))
      rw [hk]
      exact hinj hnew
    · rw [set_slot_of_ne hk] at hslot
      exact h.own k' id k'' hslot
        ((a.ages_add (event k)).live id (h.old k' id hslot) _ hlive)

theorem forget (h : Ordered event a) (k : K) : Ordered event (a.forget k) :=
  h.shrink rfl (fun _ _ he => he) fun _ _ hk => (slot_of_forget hk).2

theorem stop (h : Ordered event a) (k : K) : Ordered event (a.stop k) := by
  cases hslot : a.slot k with
  | none => rwa [stop_of_none hslot]
  | some id =>
      rw [stop_of_some hslot]
      exact (h.drop id).forget k

/-- Taking one kind back leaves the other kinds. -/
theorem live_stop (h : Ordered event a) (hk : k' ≠ k) (hlive : a.live id = some (event k')) :
    (a.stop k).live id = some (event k') := by
  cases hslot : a.slot k with
  | none => rwa [stop_of_none hslot]
  | some i =>
      have hi : id ≠ i := by
        intro heq
        exact hk (h.own k i k' hslot (heq ▸ hlive))
      rw [stop_of_some hslot]
      exact (drop_live_of_ne hi).trans hlive

end Ordered

section Slots

variable [DecidableEq K]

theorem ages_set (a : Alarms K E) (k : K) (e : E) : a.Ages (a.set k e) :=
  ⟨(a.ages_add e).next, (a.ages_add e).live⟩

theorem ages_stop (a : Alarms K E) (k : K) : a.Ages (a.stop k) := by
  cases hslot : a.slot k with
  | none =>
      rw [stop_of_none hslot]
      exact ⟨Nat.le_refl _, fun _ _ _ he => he⟩
  | some id =>
      rw [stop_of_some hslot]
      exact ⟨Nat.le_refl _, (a.ages_drop id).live⟩

end Slots

/-! ## Faithful slots -/

/-- Each slot holds the id of the one entry of its kind, but for the entries that
went off and are still to be dealt with. -/
structure Faithful (event : K → E) (due : List E) (a : Alarms K E) : Prop where
  held : ∀ k id, a.live id = some (event k) → a.slot k = some id
  kept : ∀ k id, a.slot k = some id → a.live id = some (event k) ∨ event k ∈ due
  gone : ∀ k id, event k ∈ due → a.live id ≠ some (event k)
  once : due.Pairwise fun e e' => ∀ k, e = event k → e' ≠ event k

namespace Faithful

/-- With nothing due the slots are exact. -/
theorem exact (h : Faithful event [] a) (k : K) (id : Nat) :
    a.live id = some (event k) ↔ a.slot k = some id :=
  ⟨h.held k id, fun hslot => (h.kept k id hslot).resolve_right List.not_mem_nil⟩

theorem idle (h : Faithful event due a) (hslot : a.slot k = none) (id : Nat) :
    a.live id ≠ some (event k) := by
  intro hlive
  rw [h.held k id hlive] at hslot
  cases hslot

/-- The entries that have a slot stay as they are. -/
theorem of_live (h : Faithful event due a) (hslot : a'.slot = a.slot)
    (hlive : ∀ id k, a'.live id = some (event k) ↔ a.live id = some (event k)) :
    Faithful event due a' := by
  refine ⟨fun k id hl => ?_, fun k id hk => ?_, fun k id hmem hl => ?_, h.once⟩
  · rw [hslot]
    exact h.held k id ((hlive id k).1 hl)
  · rw [hslot] at hk
    exact (h.kept k id hk).imp_left (hlive id k).2
  · exact h.gone k id hmem ((hlive id k).1 hl)

/-- An entry that has no slot is added. -/
theorem add (h : Faithful event due a) (ho : Ordered event a) (he : ∀ k, e ≠ event k) :
    Faithful event due (a.add e) := by
  refine h.of_live rfl fun id k => ?_
  by_cases hid : id = a.next
  · rw [hid, add_live_self, ho.fresh _ (Nat.le_refl _), Option.some_inj]
    exact ⟨fun heq => absurd heq (he k), fun heq => by cases heq⟩
  · rw [add_live_of_ne hid]

/-- An entry that has no slot is dropped. -/
theorem drop (h : Faithful event due a) (hforeign : Foreign event a id) :
    Faithful event due (a.drop id) := by
  refine h.of_live rfl fun i k => ?_
  by_cases hi : i = id
  · rw [hi, drop_live_self]
    exact ⟨fun heq => (by cases heq), fun heq => absurd heq (hforeign.other k)⟩
  · rw [drop_live_of_ne hi]

/-- One that went off and has no slot needs nothing. -/
theorem pass (h : Faithful event (e :: rest) a) (he : ∀ k, e ≠ event k) :
    Faithful event rest a := by
  refine ⟨h.held, fun k id hk => ?_, fun k id hmem => h.gone k id (List.mem_cons_of_mem _ hmem),
    h.once.of_cons⟩
  refine (h.kept k id hk).imp_right fun hmem => ?_
  exact (List.mem_cons.1 hmem).resolve_left fun heq => he k heq.symm

/-- Entries that went off may be left as they are once their slots are empty. -/
theorem abandon (h : Faithful event due a) (hslots : ∀ k, event k ∈ due → a.slot k = none) :
    Faithful event [] a := by
  refine ⟨h.held, fun k id hk => .inl ?_, fun k id hmem => (by cases hmem), .nil⟩
  refine (h.kept k id hk).resolve_right fun hmem => ?_
  rw [hslots k hmem] at hk
  cases hk

theorem clear (h : Faithful event due a) : Faithful event due a.clear :=
  ⟨fun _ _ hl => (by cases hl), fun _ _ hk => (by cases hk), fun _ _ _ hl => (by cases hl), h.once⟩

/-- Entries go off. -/
theorem expire {ids : List Nat} (h : Faithful event [] a) (hnodup : ids.Nodup)
    (hdue : due.map some = ids.map a.live) : Faithful event due (a.expire ids) := by
  have hmem : ∀ e, e ∈ due ↔ ∃ id ∈ ids, a.live id = some e := by
    intro e
    rw [← List.mem_map_of_injective (Option.some_injective _), hdue, List.mem_map]
  refine ⟨fun k id hl => h.held k id (live_of_expire hl).2, fun k id hk => ?_,
    fun k id hin hl => ?_, ?_⟩
  · have hold := (h.exact k id).2 hk
    by_cases hin : id ∈ ids
    · exact .inr ((hmem _).2 ⟨id, hin, hold⟩)
    · exact .inl ((if_neg hin).trans hold)
  · obtain ⟨i, hi, hli⟩ := (hmem _).1 hin
    obtain ⟨hout, hold⟩ := live_of_expire hl
    have hsame := (h.held k id hold).symm.trans (h.held k i hli)
    exact hout (Option.some.inj hsame ▸ hi)
  · have hpairs : (due.map some).Pairwise fun x y =>
        ∀ k, x = some (event k) → y ≠ some (event k) := by
      rw [hdue, List.pairwise_map]
      refine hnodup.imp fun hne k hx hy => hne ?_
      exact Option.some.inj ((h.held k _ hx).symm.trans (h.held k _ hy))
    rw [List.pairwise_map] at hpairs
    exact hpairs.imp fun hne k hx hy => hne k (congrArg some hx) (congrArg some hy)

variable [DecidableEq K]

/-- An entry is set into an empty slot. -/
theorem set (h : Faithful event due a) (ho : Ordered event a) (hinj : Function.Injective event)
    (hslot : a.slot k = none) (hdue : event k ∉ due) :
    Faithful event due (a.set k (event k)) := by
  have hnew : (a.set k (event k)).live a.next = some (event k) := a.add_live_self _
  have hold : ∀ id, id ≠ a.next → (a.set k (event k)).live id = a.live id := fun id hid =>
    add_live_of_ne hid _
  refine ⟨fun k' id he => ?_, fun k' id hk' => ?_, fun k' id hmem he => ?_, h.once⟩
  · by_cases hid : id = a.next
    · rw [hid, hnew, Option.some_inj] at he
      rw [hid, ← hinj he, set_slot_self]
    · rw [hold id hid] at he
      have hne : k' ≠ k := by
        rintro rfl
        exact h.idle hslot id he
      rw [set_slot_of_ne hne]
      exact h.held k' id he
  · by_cases hne : k' = k
    · rw [hne, set_slot_self] at hk'
      cases hk'
      rw [hne]
      exact .inl hnew
    · rw [set_slot_of_ne hne] at hk'
      rw [hold id (Nat.ne_of_lt (ho.old k' id hk'))]
      exact h.kept k' id hk'
  · by_cases hid : id = a.next
    · rw [hid, hnew, Option.some_inj] at he
      exact hdue (he ▸ hmem)
    · rw [hold id hid] at he
      exact h.gone k' id hmem he

/-- An entry is taken back through its slot. -/
theorem stop (h : Faithful event due a) (ho : Ordered event a) (k : K) :
    Faithful event due (a.stop k) := by
  cases hslot : a.slot k with
  | none => rwa [stop_of_none hslot]
  | some i =>
      have hkeeps : ∀ k' id, k' ≠ k → a.live id = some (event k') →
          (a.stop k).live id = some (event k') := fun k' id => ho.live_stop
      rw [stop_of_some hslot] at hkeeps ⊢
      refine ⟨fun k' id hl => ?_, fun k' id hk' => ?_, fun k' id hmem hl => ?_, h.once⟩
      · obtain ⟨hid, hl⟩ := live_of_drop hl
        have hheld := h.held k' id hl
        have hne : k' ≠ k := by
          rintro rfl
          exact hid (Option.some.inj (hheld.symm.trans hslot))
        exact (forget_slot_of_ne hne).trans hheld
      · obtain ⟨hne, hk'⟩ := slot_of_forget hk'
        exact (h.kept k' id hk').imp_left (hkeeps k' id hne)
      · exact h.gone k' id hmem (live_of_drop hl).2

/-- After that there is none. -/
theorem stopped (h : Faithful event [] a) (k : K) (id : Nat) :
    (a.stop k).live id ≠ some (event k) := by
  cases hslot : a.slot k with
  | none =>
      rw [stop_of_none hslot]
      exact h.idle hslot id
  | some i =>
      rw [stop_of_some hslot]
      intro hl
      obtain ⟨hid, hl⟩ := live_of_drop hl
      exact hid (Option.some.inj ((h.held k id hl).symm.trans hslot))

/-- An entry that went off is dealt with. -/
theorem deal (h : Faithful event (event k :: rest) a) (hinj : Function.Injective event) :
    Faithful event rest (a.forget k) := by
  refine ⟨fun k' id hl => ?_, fun k' id hk' => ?_,
    fun k' id hmem => h.gone k' id (List.mem_cons_of_mem _ hmem), h.once.of_cons⟩
  · have hne : k' ≠ k := by
      rintro rfl
      exact h.gone k' id List.mem_cons_self hl
    exact (forget_slot_of_ne hne).trans (h.held k' id hl)
  · obtain ⟨hne, hk'⟩ := slot_of_forget hk'
    refine (h.kept k' id hk').imp_right fun hmem => ?_
    exact (List.mem_cons.1 hmem).resolve_left fun heq => hne (hinj heq)

end Faithful

end Alarms

end DartUdp.Lib
