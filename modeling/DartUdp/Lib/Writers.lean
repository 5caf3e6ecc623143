import Mathlib.Data.Set.Function
import DartUdp.Lib.Bytes

/-!
# Writers whose values can be told apart

A writer puts a value down as bytes, and what follows is put right after it. It is
`Delimited` on the values it is meant for when the bytes alone tell where a value
ends: of two byte strings that are equal and begin with a value each, the values
are equal and so is what follows them. Fields that are written one after the other
are then peeled off one by one, and a list of values needs no count in front of it.
-/

namespace DartUdp.Lib

variable {α β : Type}

/-- Equal bytes begin with equal values and go on alike. -/
def Delimited (P : α → Prop) (w : α → Bytes) : Prop :=
  ∀ ⦃a b : α⦄, P a → P b → ∀ ⦃x y : Bytes⦄, w a ++ x = w b ++ y → a = b ∧ x = y

namespace Delimited

variable {P : α → Prop} {w : α → Bytes} {Q : β → Prop} {v : β → Bytes}

/-- Values that are all written in one length. -/
theorem of_length {n : Nat} (hlen : ∀ a, P a → (w a).length = n) (hinj : Set.InjOn w {a | P a}) :
    Delimited P w := by
  intro a b ha hb x y h
  have hsame : (w a).length = (w b).length := by rw [hlen a ha, hlen b hb]
  obtain ⟨hw, hrest⟩ := List.append_inj h hsame
  exact ⟨hinj ha hb hw, hrest⟩

/-- A part of a value that says what the value is. -/
theorem comp (h : Delimited P w) {f : β → α} (hf : Set.InjOn f {b | Q b})
    (hP : ∀ b, Q b → P (f b)) : Delimited Q fun b => w (f b) := by
  intro a b ha hb x y heq
  obtain ⟨hab, hxy⟩ := h (hP a ha) (hP b hb) heq
  exact ⟨hf ha hb hab, hxy⟩

/-! ## Fields -/

theorem byte : Delimited (fun _ => True) fun b : UInt8 => [b] :=
  of_length (fun _ _ => rfl) fun a _ b _ h => by cases h; rfl

theorem vector (n : Nat) : Delimited (fun _ => True) fun x : Vector UInt8 n => x.toList :=
  of_length (fun x _ => x.length_toList) fun _ _ _ _ h => Vector.toList_inj.1 h

theorem beBytes (n : Nat) : Delimited (fun v => v < 256 ^ n) (Lib.beBytes n) := by
  refine of_length (fun v _ => length_beBytes n v) fun a ha b hb h => ?_
  have hof := congrArg ofBe h
  rwa [ofBe_beBytes, ofBe_beBytes, Nat.mod_eq_of_lt ha, Nat.mod_eq_of_lt hb] at hof

/-- Bytes behind their number. -/
theorem counted (n : Nat) :
    Delimited (fun x : Bytes => x.length < 256 ^ n) fun x => Lib.beBytes n x.length ++ x := by
  intro a b ha hb x y h
  rw [List.append_assoc, List.append_assoc] at h
  obtain ⟨hlen, hrest⟩ := beBytes n ha hb h
  exact List.append_inj hrest hlen

/-! ## Lists -/

/-- Values that are written in at least one byte each can be told apart however many
there are. -/
theorem flatMap (h : Delimited P w) (hne : ∀ a, P a → w a ≠ []) :
    Set.InjOn (fun l : List α => l.flatMap w) {l | ∀ a ∈ l, P a} := by
  have hnil : ∀ b, P b → ∀ m : List α, [] ≠ w b ++ m.flatMap w := fun b hb m heq =>
    hne b hb (List.append_eq_nil_iff.1 heq.symm).1
  intro l
  induction l with
  | nil =>
      intro _ m hm heq
      cases m with
      | nil => rfl
      | cons b m => exact absurd heq (hnil b (hm b List.mem_cons_self) m)
  | cons a l ih =>
      intro hl m hm heq
      have ha := hl a List.mem_cons_self
      cases m with
      | nil => exact absurd heq.symm (hnil a ha l)
      | cons b m =>
          obtain ⟨rfl, hrest⟩ := h ha (hm b List.mem_cons_self) heq
          have hl' : ∀ c ∈ l, P c := fun c hc => hl c (List.mem_cons_of_mem _ hc)
          have hm' : ∀ c ∈ m, P c := fun c hc => hm c (List.mem_cons_of_mem _ hc)
          rw [ih hl' hm' hrest]

end Delimited

end DartUdp.Lib
