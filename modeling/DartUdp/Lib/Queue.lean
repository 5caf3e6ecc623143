import Mathlib.Data.List.Basic
import Mathlib.Tactic.Common

/-!
# Queues with prerequisites

Some entries of a queue need something, which an earlier entry has to give. A
list is guarded, after what has been seen, if each of its entries finds what it
needs. Several writers can extend one queue as long as what each has left is
guarded after the queue: the queue only grows, and so does what it gives.
-/

namespace DartUdp.Lib

variable {α κ : Type} {gives needs : α → Option κ}

/-- Every entry of the list finds what it needs among those before it or those seen. -/
def Guarded (gives needs : α → Option κ) : List α → List α → Prop
  | _, [] => True
  | seen, x :: l =>
      (∀ k, needs x = some k → ∃ y ∈ seen, gives y = some k) ∧ Guarded gives needs (seen ++ [x]) l

theorem guarded_append {seen l l' : List α} :
    Guarded gives needs seen (l ++ l') ↔
      Guarded gives needs seen l ∧ Guarded gives needs (seen ++ l) l' := by
  induction l generalizing seen with
  | nil => simp [Guarded]
  | cons x l ih => simp [Guarded, ih, and_assoc]

/-- What has been seen may grow. -/
theorem Guarded.mono {seen seen' l : List α} (h : Guarded gives needs seen l)
    (hsub : ∀ x ∈ seen, x ∈ seen') : Guarded gives needs seen' l := by
  induction l generalizing seen seen' with
  | nil => trivial
  | cons x l ih =>
      refine ⟨fun k hk => ?_, ih h.2 fun y hy => ?_⟩
      · obtain ⟨y, hy, hgives⟩ := h.1 k hk
        exact ⟨y, hsub y hy, hgives⟩
      · rcases List.mem_append.1 hy with hy | hy
        · exact List.mem_append_left _ (hsub y hy)
        · exact List.mem_append_right _ hy

/-- Entries that need nothing are guarded after anything. -/
theorem guarded_of_none {seen l : List α} (h : ∀ x ∈ l, needs x = none) :
    Guarded gives needs seen l := by
  induction l generalizing seen with
  | nil => trivial
  | cons x l ih =>
      refine ⟨fun k hk => ?_, ih fun y hy => h y (List.mem_cons_of_mem _ hy)⟩
      rw [h x List.mem_cons_self] at hk
      cases hk

/-- In a guarded list what an entry needs stands before it. -/
theorem Guarded.before {front back : List α} {x : α} {k : κ}
    (h : Guarded gives needs [] (front ++ x :: back)) (hk : needs x = some k) :
    ∃ y ∈ front, gives y = some k := (guarded_append.1 h).2.1 k hk

end DartUdp.Lib
