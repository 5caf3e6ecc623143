import Mathlib.Data.List.Perm.Basic
import Mathlib.Logic.Equiv.Basic
import Mathlib.Order.Lattice

/-!
# Binary heaps in a list

The parent of position `j` is `(j - 1) / 2`, and no element ranks below its
parent. A sift moves one element along its path to the root, or to a leaf, and
what it needs to hold on the way is that everything is in order but for the
position it stands at: above it in a sift up, below it in a sift down.
-/

namespace DartUdp.Lib.Heap

variable {α β : Type} [LinearOrder β] {rank : α → β} {xs : List α} {i j k : Nat}

/-! ## The operations -/

/-- What stands at `i` ranks below what stands at `j`. -/
def less (rank : α → β) (xs : List α) (i j : Nat) : Bool :=
  match xs[i]?, xs[j]? with
  | some x, some y => rank x < rank y
  | _, _ => false

def swap (xs : List α) (i j : Nat) : List α :=
  match xs[i]?, xs[j]? with
  | some x, some y => (xs.set i y).set j x
  | _, _ => xs

def siftUp (rank : α → β) : Nat → Nat → List α → List α
  | 0, _, xs => xs
  | fuel + 1, i, xs =>
      if i ≠ 0 then
        if less rank xs i ((i - 1) / 2) then
          siftUp rank fuel ((i - 1) / 2) (swap xs i ((i - 1) / 2))
        else xs
      else xs

/-- The child of `i` that ranks lowest, the left one in a tie. -/
def child (rank : α → β) (xs : List α) (i : Nat) : Nat :=
  if i * 2 + 2 < xs.length && less rank xs (i * 2 + 2) (i * 2 + 1) then i * 2 + 2 else i * 2 + 1

def siftDown (rank : α → β) : Nat → Nat → List α → List α
  | 0, _, xs => xs
  | fuel + 1, i, xs =>
      if i * 2 + 1 < xs.length then
        if less rank xs (child rank xs i) i then
          siftDown rank fuel (child rank xs i) (swap xs i (child rank xs i))
        else xs
      else xs

/-- Sift what stands at `i` in the direction its parent asks for. -/
def sift (rank : α → β) (i : Nat) (xs : List α) : List α :=
  if i ≠ 0 && less rank xs i ((i - 1) / 2) then siftUp rank i i xs
  else siftDown rank xs.length i xs

def push (rank : α → β) (xs : List α) (x : α) : List α :=
  siftUp rank xs.length xs.length (xs ++ [x])

/-- Put `x` in the place of what stands at `i`. -/
def update (rank : α → β) (xs : List α) (i : Nat) (x : α) : List α := sift rank i (xs.set i x)

/-- Take out what stands at `i`; the last element fills the hole. -/
def removeAt (rank : α → β) (xs : List α) (i : Nat) : List α :=
  match xs.getLast? with
  | none => xs
  | some last => if i = xs.length - 1 then xs.dropLast else update rank xs.dropLast i last

/-! ## Order -/

/-- What stands at `i` ranks no higher than what stands at `j`. -/
def Le (rank : α → β) (xs : List α) (i j : Nat) : Prop :=
  ∀ x ∈ xs[i]?, ∀ y ∈ xs[j]?, rank x ≤ rank y

/-- Nothing ranks below its parent. -/
def Ordered (rank : α → β) (xs : List α) : Prop := ∀ j, j ≠ 0 → Le rank xs ((j - 1) / 2) j

theorem Le.trans (h : Le rank xs i j) (hj : j < xs.length) (h' : Le rank xs j k) :
    Le rank xs i k := by
  intro x hx z hz
  have hy : xs[j] ∈ xs[j]? := List.getElem?_eq_getElem hj
  exact (h x hx _ hy).trans (h' _ hy z hz)

theorem less_iff : less rank xs i j = true ↔
    ∃ x y, xs[i]? = some x ∧ xs[j]? = some y ∧ rank x < rank y := by
  unfold less
  split
  · next x y hx hy =>
      simp only [decide_eq_true_eq]
      constructor
      · exact fun h => ⟨x, y, hx, hy, h⟩
      · intro h
        obtain ⟨x', y', hx', hy', h⟩ := h
        cases hx.symm.trans hx'
        cases hy.symm.trans hy'
        exact h
  · next hnone =>
      refine ⟨fun h => absurd h Bool.false_ne_true, fun h => ?_⟩
      obtain ⟨x, y, hx, hy, _⟩ := h
      exact absurd hy (hnone x y hx)

theorem less_le (h : less rank xs i j = true) : Le rank xs i j := by
  obtain ⟨x, y, hx, hy, hlt⟩ := less_iff.1 h
  intro x' hx' y' hy'
  cases hx.symm.trans hx'
  cases hy.symm.trans hy'
  exact hlt.le

theorem le_of_not_less (h : ¬ less rank xs i j = true) : Le rank xs j i := by
  intro y hy x hx
  by_contra hlt
  exact h (less_iff.2 ⟨x, y, hx, hy, not_le.1 hlt⟩)

theorem less_lt (h : less rank xs i j = true) : i < xs.length ∧ j < xs.length := by
  obtain ⟨x, y, hx, hy, _⟩ := less_iff.1 h
  exact ⟨(List.getElem?_eq_some_iff.1 hx).1, (List.getElem?_eq_some_iff.1 hy).1⟩

/-- Nothing ranks below the head of a heap. -/
theorem Ordered.head_le (h : Ordered rank xs) {x : α} (hx : xs[0]? = some x) :
    ∀ y ∈ xs, rank x ≤ rank y := by
  have hall : ∀ j, Le rank xs 0 j := by
    intro j
    induction j using Nat.strong_induction_on with
    | _ j ih =>
        by_cases hj : j = 0
        · subst hj
          intro x hx y hy
          cases hx.symm.trans hy
          exact le_rfl
        · by_cases hlt : j < xs.length
          · exact (ih ((j - 1) / 2) (by omega)).trans (by omega) (h j hj)
          · intro x _ y hy
            rw [List.getElem?_eq_none (not_lt.1 hlt)] at hy
            cases hy
  intro y hy
  obtain ⟨j, hj⟩ := List.getElem?_of_mem hy
  exact hall j x hx y hj

theorem ordered_nil : Ordered rank ([] : List α) := fun _ _ _ hx => nomatch hx

/-- A heap cut short is a heap. -/
theorem Ordered.dropLast (h : Ordered rank xs) : Ordered rank xs.dropLast := by
  have hsub : ∀ {j : Nat} {x : α}, x ∈ xs.dropLast[j]? → x ∈ xs[j]? := by
    intro j x hx
    rw [List.getElem?_dropLast] at hx
    split at hx
    · exact hx
    · cases hx
  exact fun j hj x hx y hy => h j hj x (hsub hx) y (hsub hy)

/-! ## Swapping -/

/-- A swap exchanges the positions. -/
theorem getElem?_swap (hi : i < xs.length) (hj : j < xs.length) (k : Nat) :
    (swap xs i j)[k]? = xs[Equiv.swap i j k]? := by
  unfold swap
  rw [List.getElem?_eq_getElem hi, List.getElem?_eq_getElem hj]
  dsimp only
  simp only [List.getElem?_set, List.length_set]
  by_cases hkj : k = j
  · subst hkj
    rw [if_pos rfl, if_pos hj, Equiv.swap_apply_right, List.getElem?_eq_getElem hi]
  · rw [if_neg (Ne.symm hkj)]
    by_cases hki : k = i
    · subst hki
      rw [if_pos rfl, if_pos hi, Equiv.swap_apply_left, List.getElem?_eq_getElem hj]
    · rw [if_neg (Ne.symm hki), Equiv.swap_apply_of_ne_of_ne hki hkj]

theorem swap_perm : (swap xs i j).Perm xs := by
  unfold swap
  split
  · next x y hx hy =>
      obtain ⟨hi, rfl⟩ := List.getElem?_eq_some_iff.1 hx
      obtain ⟨hj, rfl⟩ := List.getElem?_eq_some_iff.1 hy
      exact List.set_set_perm hi hj
  · exact .refl xs

theorem le_swap (hi : i < xs.length) (hj : j < xs.length) {a b : Nat} :
    Le rank (swap xs i j) a b ↔ Le rank xs (Equiv.swap i j a) (Equiv.swap i j b) := by
  unfold Le
  rw [getElem?_swap hi hj, getElem?_swap hi hj]

/-! ## Sifting -/

/-- In order but between `i` and its parent. -/
structure Above (rank : α → β) (xs : List α) (i : Nat) : Prop where
  elsewhere : ∀ j, j ≠ 0 → j ≠ i → Le rank xs ((j - 1) / 2) j
  across : ∀ j, j ≠ 0 → (j - 1) / 2 = i → i ≠ 0 → Le rank xs ((i - 1) / 2) j

/-- In order but between `i` and its children. -/
structure Below (rank : α → β) (xs : List α) (i : Nat) : Prop where
  elsewhere : ∀ j, j ≠ 0 → (j - 1) / 2 ≠ i → Le rank xs ((j - 1) / 2) j
  across : ∀ j, j ≠ 0 → (j - 1) / 2 = i → i ≠ 0 → Le rank xs ((i - 1) / 2) j

/-- In order but around `i`. -/
structure Around (rank : α → β) (xs : List α) (i : Nat) : Prop where
  elsewhere : ∀ j, j ≠ 0 → j ≠ i → (j - 1) / 2 ≠ i → Le rank xs ((j - 1) / 2) j
  across : ∀ j, j ≠ 0 → (j - 1) / 2 = i → i ≠ 0 → Le rank xs ((i - 1) / 2) j

theorem Above.swap (h : Above rank xs i) (hi : i ≠ 0)
    (hless : less rank xs i ((i - 1) / 2) = true) :
    Above rank (swap xs i ((i - 1) / 2)) ((i - 1) / 2) := by
  obtain ⟨hlt, hlt'⟩ := less_lt hless
  have hle := less_le hless
  have hne : (i - 1) / 2 ≠ i := by omega
  generalize hp : (i - 1) / 2 = p at *
  refine ⟨fun j hj hjp => ?_, fun j hj hjp hp0 => ?_⟩
  · rw [le_swap hlt hlt']
    by_cases hji : j = i
    · subst hji
      rw [hp, Equiv.swap_apply_right, Equiv.swap_apply_left]
      exact hle
    · rw [Equiv.swap_apply_of_ne_of_ne hji hjp]
      by_cases hpar : (j - 1) / 2 = i
      · rw [hpar, Equiv.swap_apply_left, ← hp]
        exact h.across j hj hpar hi
      · by_cases hpar' : (j - 1) / 2 = p
        · rw [hpar', Equiv.swap_apply_right]
          have hsame := h.elsewhere j hj hji
          rw [hpar'] at hsame
          exact hle.trans hlt' hsame
        · rw [Equiv.swap_apply_of_ne_of_ne hpar hpar']
          exact h.elsewhere j hj hji
  · have hup := h.elsewhere p hp0 hne
    rw [le_swap hlt hlt', Equiv.swap_apply_of_ne_of_ne (by omega) (by omega)]
    by_cases hji : j = i
    · rw [hji, Equiv.swap_apply_left]
      exact hup
    · rw [Equiv.swap_apply_of_ne_of_ne hji (by omega)]
      have hsame := h.elsewhere j hj hji
      rw [hjp] at hsame
      exact hup.trans hlt' hsame

theorem siftUp_ordered (fuel : Nat) (h : Above rank xs i) (hfuel : i ≤ fuel) :
    Ordered rank (siftUp rank fuel i xs) := by
  have hdone : i = 0 → Ordered rank xs := fun hi j hj => h.elsewhere j hj (by omega)
  induction fuel generalizing i xs with
  | zero => exact hdone (by omega)
  | succ fuel ih =>
      rw [siftUp]
      by_cases hi : i = 0
      · rw [if_neg (not_not.2 hi)]
        exact hdone hi
      · rw [if_pos hi]
        split
        · next hless =>
            have hnext := h.swap hi hless
            exact ih hnext (by omega) fun hp j hj => hnext.elsewhere j hj (by omega)
        · next hnot =>
            intro j hj
            by_cases hji : j = i
            · rw [hji]
              exact le_of_not_less hnot
            · exact h.elsewhere j hj hji

/-- The child that ranks lowest ranks no higher than the other. -/
theorem child_le (hj : j ≠ 0) (hji : (j - 1) / 2 = i) :
    Le rank xs (child rank xs i) j := by
  have hrefl : ∀ j, Le rank xs j j := by
    intro j x hx y hy
    cases hx.symm.trans hy
    exact le_rfl
  have hsides : j = i * 2 + 1 ∨ j = i * 2 + 2 := by omega
  unfold child
  split
  · next h =>
      rw [Bool.and_eq_true] at h
      rcases hsides with rfl | rfl
      · exact less_le h.2
      · exact hrefl _
  · next h =>
      rw [Bool.and_eq_true, decide_eq_true_eq] at h
      rcases hsides with rfl | rfl
      · exact hrefl _
      · by_cases hright : i * 2 + 2 < xs.length
        · exact le_of_not_less fun hless => h ⟨hright, hless⟩
        · intro x _ y hy
          rw [List.getElem?_eq_none (not_lt.1 hright)] at hy
          cases hy

theorem child_eq (rank : α → β) (xs : List α) (i : Nat) :
    child rank xs i = i * 2 + 1 ∨ child rank xs i = i * 2 + 2 := by
  unfold child
  split
  · exact .inr rfl
  · exact .inl rfl

theorem Below.swap (h : Below rank xs i) (hlt : i * 2 + 1 < xs.length)
    (hless : less rank xs (child rank xs i) i = true) :
    Below rank (swap xs i (child rank xs i)) (child rank xs i) := by
  obtain ⟨hc, hi⟩ := less_lt hless
  have hle := less_le hless
  have hchild : ∀ j, j ≠ 0 → (j - 1) / 2 = i → Le rank xs (child rank xs i) j :=
    fun j hj hji => child_le hj hji
  have hci := child_eq rank xs i
  generalize child rank xs i = c at *
  have hpc : (c - 1) / 2 = i := by omega
  refine ⟨fun j hj hpar => ?_, fun j hj hpar _ => ?_⟩
  · rw [le_swap hi hc]
    by_cases hjc : j = c
    · rw [hjc, hpc, Equiv.swap_apply_right, Equiv.swap_apply_left]
      exact hle
    · by_cases hji : j = i
      · subst hji
        rw [Equiv.swap_apply_left, Equiv.swap_apply_of_ne_of_ne (by omega) hpar]
        exact h.across c (by omega) hpc hj
      · rw [Equiv.swap_apply_of_ne_of_ne hji hjc]
        by_cases hpi : (j - 1) / 2 = i
        · rw [hpi, Equiv.swap_apply_left]
          exact hchild j hj hpi
        · rw [Equiv.swap_apply_of_ne_of_ne hpi hpar]
          exact h.elsewhere j hj hpi
  · rw [le_swap hi hc, hpc, Equiv.swap_apply_left,
      Equiv.swap_apply_of_ne_of_ne (by omega) (by omega), ← hpar]
    exact h.elsewhere j hj (by omega)

theorem siftDown_ordered (fuel : Nat) (h : Below rank xs i) (hfuel : xs.length ≤ i + fuel) :
    Ordered rank (siftDown rank fuel i xs) := by
  -- A position without children is in order with all of them.
  have hdone : ∀ {i : Nat} {xs : List α}, Below rank xs i → ¬ i * 2 + 1 < xs.length →
      Ordered rank xs := by
    intro i xs h hlt j hj
    by_cases hpar : (j - 1) / 2 = i
    · intro x _ y hy
      rw [List.getElem?_eq_none (by omega)] at hy
      cases hy
    · exact h.elsewhere j hj hpar
  induction fuel generalizing i xs with
  | zero =>
      show Ordered rank xs
      exact hdone h (by omega)
  | succ fuel ih =>
      rw [siftDown]
      split
      · next hlt =>
          split
          · next hless =>
              have hci := child_eq rank xs i
              refine ih (h.swap hlt hless) ?_
              rw [swap_perm.length_eq]
              omega
          · next hnot =>
              intro j hj
              by_cases hpar : (j - 1) / 2 = i
              · rw [hpar]
                refine (le_of_not_less hnot).trans ?_ (child_le hj hpar)
                unfold child
                split
                · next h =>
                    rw [Bool.and_eq_true, decide_eq_true_eq] at h
                    exact h.1
                · exact hlt
              · exact h.elsewhere j hj hpar
      · next hlt => exact hdone h hlt

theorem sift_ordered (h : Around rank xs i) : Ordered rank (sift rank i xs) := by
  unfold sift
  split
  · next hless =>
      rw [Bool.and_eq_true, decide_eq_true_eq] at hless
      obtain ⟨hi, hless⟩ := hless
      refine siftUp_ordered i ⟨fun j hj hji => ?_, h.across⟩ le_rfl
      by_cases hpar : (j - 1) / 2 = i
      · rw [hpar]
        exact (less_le hless).trans (less_lt hless).2 (h.across j hj hpar hi)
      · exact h.elsewhere j hj hji hpar
  · next hnot =>
      refine siftDown_ordered xs.length ⟨fun j hj hpar => ?_, h.across⟩ (Nat.le_add_left _ _)
      by_cases hji : j = i
      · subst hji
        refine le_of_not_less fun hless => hnot ?_
        rw [Bool.and_eq_true, decide_eq_true_eq]
        exact ⟨hj, hless⟩
      · exact h.elsewhere j hj hji hpar

/-! ## The operations keep the order -/

/-- What is put in place of one element is out of order around it at most. -/
theorem Ordered.set (h : Ordered rank xs) (i : Nat) (x : α) : Around rank (xs.set i x) i := by
  have hle : ∀ {a b : Nat}, a ≠ i → b ≠ i → Le rank xs a b → Le rank (xs.set i x) a b := by
    intro a b ha hb hle
    unfold Le
    rw [List.getElem?_set_ne (Ne.symm ha), List.getElem?_set_ne (Ne.symm hb)]
    exact hle
  refine ⟨fun j hj hji hpar => hle hpar hji (h j hj), fun j hj hpar hi => ?_⟩
  refine hle (by omega) (by omega) ?_
  by_cases hlt : i < xs.length
  · have hup := h j hj
    rw [hpar] at hup
    exact (h i hi).trans hlt hup
  · intro y _ z hz
    rw [List.getElem?_eq_none (by omega)] at hz
    cases hz

theorem update_ordered (h : Ordered rank xs) (i : Nat) (x : α) :
    Ordered rank (update rank xs i x) :=
  sift_ordered (h.set i x)

theorem removeAt_ordered (h : Ordered rank xs) (i : Nat) : Ordered rank (removeAt rank xs i) := by
  unfold removeAt
  split
  · exact h
  · split
    · exact h.dropLast
    · exact update_ordered h.dropLast _ _

theorem push_ordered (h : Ordered rank xs) (x : α) : Ordered rank (push rank xs x) := by
  refine siftUp_ordered xs.length ⟨fun j hj hjn y hy z hz => ?_, fun j hj hpar _ y _ z hz => ?_⟩
    le_rfl
  · have hlt := (List.getElem?_eq_some_iff.1 hz).1
    rw [List.length_append, List.length_singleton] at hlt
    rw [List.getElem?_append_left (by omega)] at hy hz
    exact h j hj y hy z hz
  · rw [List.getElem?_eq_none] at hz
    · cases hz
    · rw [List.length_append, List.length_singleton]
      omega

/-! ## The elements stay -/

theorem siftUp_perm (fuel : Nat) : (siftUp rank fuel i xs).Perm xs := by
  induction fuel generalizing i xs with
  | zero => exact .refl xs
  | succ fuel ih =>
      rw [siftUp]
      split
      · split
        · exact ih.trans swap_perm
        · exact .refl xs
      · exact .refl xs

theorem siftDown_perm (fuel : Nat) : (siftDown rank fuel i xs).Perm xs := by
  induction fuel generalizing i xs with
  | zero => exact .refl xs
  | succ fuel ih =>
      rw [siftDown]
      split
      · split
        · exact ih.trans swap_perm
        · exact .refl xs
      · exact .refl xs

theorem sift_perm : (sift rank i xs).Perm xs := by
  unfold sift
  split
  · exact siftUp_perm i
  · exact siftDown_perm xs.length

theorem mem_push {x y : α} (h : y ∈ push rank xs x) : y ∈ xs ∨ y = x := by
  have h := (siftUp_perm _).mem_iff.1 h
  rw [List.mem_append, List.mem_singleton] at h
  exact h

theorem mem_update {x y : α} (h : y ∈ update rank xs i x) :
    (∃ j, j ≠ i ∧ xs[j]? = some y) ∨ y = x := by
  obtain ⟨j, hj⟩ := List.getElem?_of_mem (sift_perm.mem_iff.1 h)
  rw [List.getElem?_set] at hj
  split at hj
  · split at hj
    · exact .inr (Option.some.inj hj).symm
    · cases hj
  · next hji => exact .inl ⟨j, Ne.symm hji, hj⟩

theorem mem_removeAt {y : α} (h : y ∈ removeAt rank xs i) : y ∈ xs := by
  unfold removeAt at h
  split at h
  · exact h
  · next last hlast =>
      split at h
      · exact List.dropLast_subset _ h
      · rcases mem_update h with ⟨_, _, h⟩ | rfl
        · exact List.dropLast_subset _ (List.mem_of_getElem? h)
        · exact List.mem_of_getLast? hlast

end DartUdp.Lib.Heap
