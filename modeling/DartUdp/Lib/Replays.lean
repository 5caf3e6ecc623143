import Mathlib.Data.List.Induction

/-!
# Deliveries with repetitions

Items that come in order, each of them again as often as it likes once it has
come. This is what a sender that repeats itself looks like from the other end.
-/

namespace DartUdp.Lib

variable {α : Type}

/-- `Replays items deliveries`: the items have come in order, with repetitions
in between. -/
inductive Replays : List α → List α → Prop
  | nil : Replays [] []
  | next {items deliveries : List α} (h : Replays items deliveries) (a : α) :
      Replays (items ++ [a]) (deliveries ++ [a])
  | again {items deliveries : List α} (h : Replays items deliveries) {a : α} (ha : a ∈ items) :
      Replays items (deliveries ++ [a])

/-- What has come is what is delivered. -/
theorem Replays.mem_iff {items deliveries : List α} (h : Replays items deliveries) {a : α} :
    a ∈ deliveries ↔ a ∈ items := by
  induction h with
  | nil => exact Iff.rfl
  | next _ b ih => rw [List.mem_append, List.mem_append, ih]
  | again _ hb ih =>
      rw [List.mem_append, ih, List.mem_singleton]
      exact ⟨fun h => h.elim id fun heq => heq ▸ hb, .inl⟩

/-- Without repetitions. -/
theorem Replays.refl (items : List α) : Replays items items := by
  induction items using List.reverseRecOn with
  | nil => exact .nil
  | append_singleton items a ih => exact ih.next a

/-- Several repetitions in a row. -/
theorem Replays.agains {items deliveries more : List α} (h : Replays items deliveries)
    (hmore : ∀ a ∈ more, a ∈ items) : Replays items (deliveries ++ more) := by
  induction more using List.reverseRecOn with
  | nil => simpa using h
  | append_singleton more a ih =>
      rw [← List.append_assoc]
      exact (ih fun b hb => hmore b (List.mem_append_left _ hb)).again
        (hmore a (List.mem_append_right _ List.mem_cons_self))

/-- The deliveries before the first time of an item are those of the items
before it. -/
theorem Replays.cut {items later deliveries : List α} {b : α}
    (h : Replays (items ++ b :: later) deliveries) :
    ∃ before rest, deliveries = before ++ b :: rest ∧ Replays items before := by
  generalize hall : items ++ b :: later = all at h
  induction h generalizing later with
  | nil => simp at hall
  | @next come deliveries h a ih =>
      rcases List.eq_nil_or_concat later with rfl | ⟨later, c, rfl⟩
      · obtain ⟨rfl, hb⟩ := List.append_inj' hall rfl
        cases hb
        exact ⟨_, [], rfl, h⟩
      · have hsplit : (items ++ b :: later) ++ [c] = come ++ [a] := by simpa using hall
        obtain ⟨hcome, _⟩ := List.append_inj' hsplit rfl
        obtain ⟨before, rest, rfl, hbefore⟩ := ih hcome
        exact ⟨before, rest ++ [a], by simp, hbefore⟩
  | @again come deliveries _ a _ ih =>
      obtain ⟨before, rest, rfl, hbefore⟩ := ih hall
      exact ⟨before, rest ++ [a], by simp, hbefore⟩

end DartUdp.Lib
