import Mathlib.Data.List.Basic
import Mathlib.Tactic.Common

/-!
# Intrusive doubly linked lists

The members of an intrusive list carry the links themselves: every member
names its neighbours, and the owner of the list names the two ends. The store
the members live in is seen through two functions, `prev` and `next`.

`IsDll` says that the links spell out one given list of members. The rules
below are the three things a program does with such a list: push a member at
the end, take one out of the middle, and walk it from the front.
-/

namespace DartUdp.Lib

variable {K : Type}

/-- The links `prev` and `next` between the ends `head` and `tail` spell out
the list `ks`. The links are read at every way of splitting `ks` at a member,
so both neighbours of the member are in sight at once. -/
structure IsDll (prev next : K → Option K) (head tail : Option K) (ks : List K) :
    Prop where
  head_eq : head = ks.head?
  tail_eq : tail = ks.getLast?
  nodup : ks.Nodup
  links : ∀ pre k post, ks = pre ++ k :: post →
    prev k = pre.getLast? ∧ next k = post.head?

namespace IsDll

variable {prev next prev' next' : K → Option K} {head tail : Option K} {ks : List K}

theorem nil : IsDll prev next none none [] where
  head_eq := rfl
  tail_eq := rfl
  nodup := List.nodup_nil
  links := fun pre k post h => by simp at h

/-- Only the members' own links matter. -/
theorem congr (h : IsDll prev next head tail ks)
    (hp : ∀ k ∈ ks, prev' k = prev k) (hn : ∀ k ∈ ks, next' k = next k) :
    IsDll prev' next' head tail ks where
  head_eq := h.head_eq
  tail_eq := h.tail_eq
  nodup := h.nodup
  links := fun pre k post hks => by
    have hk : k ∈ ks := by rw [hks]; simp
    rw [hp k hk, hn k hk]
    exact h.links pre k post hks

theorem tail_mem {k : K} (h : IsDll prev next head tail ks) (hk : tail = some k) :
    k ∈ ks := List.mem_of_getLast? (h.tail_eq.symm.trans hk)

/-- Pushing `key` at the end: the old last member is linked to it, and it is
linked back. -/
theorem push {key : K} (h : IsDll prev next head tail ks) (hkey : key ∉ ks)
    (hp : ∀ k ∈ ks, prev' k = prev k) (hpk : prev' key = tail)
    (hn : ∀ k ∈ ks, tail ≠ some k → next' k = next k)
    (hnt : ∀ k, tail = some k → next' k = some key) (hnk : next' key = none) :
    IsDll prev' next' (head.or (some key)) (some key) (ks ++ [key]) where
  head_eq := by rw [h.head_eq]; cases ks <;> rfl
  tail_eq := by simp
  nodup := List.nodup_append.2 ⟨h.nodup, by simp, by
    intro a ha b hb
    rw [List.mem_singleton.1 hb]
    rintro rfl
    exact hkey ha⟩
  links := fun pre k post hks => by
    rcases List.eq_nil_or_concat post with rfl | ⟨mid, last, rfl⟩
    · -- `k` is the pushed member.
      obtain ⟨rfl, hk⟩ := List.append_inj' hks rfl
      obtain rfl : key = k := by simpa using hk
      exact ⟨hpk.trans h.tail_eq, hnk⟩
    · have hsplit : ks ++ [key] = (pre ++ k :: mid) ++ [last] := by
        rw [hks]; simp
      obtain ⟨rfl, hlast⟩ := List.append_inj' hsplit rfl
      obtain rfl : key = last := by simpa using hlast
      have hk : k ∈ pre ++ k :: mid := by simp
      obtain ⟨h1, h2⟩ := h.links pre k mid rfl
      refine ⟨(hp k hk).trans h1, ?_⟩
      cases mid with
      | nil => exact hnt k (by rw [h.tail_eq]; simp)
      | cons m ms =>
          rw [hn k hk ?_, h2]
          · rfl
          · intro htail
            -- The last member stands after `k`, so it is not `k` again.
            have hlast' : k ∈ m :: ms := by
              rw [h.tail_eq] at htail
              have : (m :: ms).getLast? = some k := by
                simpa [List.getLast?_append] using htail
              exact List.mem_of_getLast? this
            exact (List.nodup_cons.1 (List.nodup_append.1 h.nodup).2.1).1 hlast'

/-- Taking `key` out: its neighbours, or the ends where it has none, are
linked across the gap. -/
theorem erase [DecidableEq K] {key : K} {a b : List K}
    (h : IsDll prev next head tail (a ++ key :: b))
    (hp : ∀ k ∈ a ++ b, prev' k = if next key = some k then prev key else prev k)
    (hn : ∀ k ∈ a ++ b, next' k = if prev key = some k then next key else next k) :
    IsDll prev' next' (if (prev key).isNone then next key else head)
      (if (next key).isNone then prev key else tail) (a ++ b) := by
  obtain ⟨hkp, hkn⟩ := h.links a key b rfl
  have hnd := h.nodup
  refine ⟨?_, ?_, ?_, ?_⟩
  · rw [hkp, hkn, h.head_eq]
    cases a with
    | nil => simp
    | cons x xs => simp
  · rw [hkp, hkn, h.tail_eq]
    rcases List.eq_nil_or_concat b with rfl | ⟨bs, x, rfl⟩
    · simp
    · cases hb : (bs ++ [x]).head? with
      | none => simp at hb
      | some y =>
          have : a ++ key :: (bs ++ [x]) = (a ++ key :: bs) ++ [x] := by simp
          rw [List.concat_eq_append, hb, this]
          simp [← List.append_assoc]
  · exact hnd.sublist (List.Sublist.append_left (List.sublist_cons_self _ _) _)
  · intro pre k post hks
    have hk : k ∈ a ++ b := by rw [hks]; simp
    rw [hp k hk, hn k hk, hkp, hkn]
    -- `k` stands before or after the gap.
    rcases List.append_eq_append_iff.1 hks with ⟨m, hpre, hb⟩ | ⟨m, ha, hpost⟩
    · -- After: `pre = a ++ m` and `b = m ++ k :: post`.
      obtain ⟨h1, h2⟩ := h.links (a ++ key :: m) k post (by rw [hb]; simp)
      have hna : a.getLast? ≠ some k := by
        intro hl
        have hka : k ∈ a := List.mem_of_getLast? hl
        have : k ∈ key :: b := by rw [hb]; simp
        exact (List.nodup_append.1 hnd).2.2 k hka k this rfl
      rw [if_neg hna, h1, h2, hpre]
      refine ⟨?_, rfl⟩
      cases m with
      | nil => rw [hb]; simp
      | cons y ys =>
          rw [if_neg]
          · simp [List.getLast?_append]
          · rw [hb]
            intro hy
            obtain rfl : y = k := by simpa using hy
            have := (List.nodup_append.1 hnd).2.1
            rw [hb] at this
            simp at this
    · cases m with
      | nil =>
          -- `k` is the first member after the gap.
          simp only [List.append_nil, List.nil_append] at ha hpost
          obtain ⟨h1, h2⟩ := h.links (a ++ [key]) k post (by rw [← hpost]; simp)
          have hna : a.getLast? ≠ some k := by
            intro hl
            have hka : k ∈ a := List.mem_of_getLast? hl
            have : k ∈ key :: b := by rw [← hpost]; simp
            exact (List.nodup_append.1 hnd).2.2 k hka k this rfl
          rw [if_neg hna, h2, ← hpost, ha]
          simp
      | cons y ys =>
          -- Before: `a = pre ++ k :: ys` and `post = ys ++ b`.
          obtain ⟨rfl, rfl⟩ : k = y ∧ post = ys ++ b := by simpa using hpost
          obtain ⟨h1, h2⟩ := h.links pre k (ys ++ key :: b) (by rw [ha]; simp)
          have hnb : b.head? ≠ some k := by
            intro hb
            have hkb : k ∈ key :: b := List.mem_cons_of_mem _ (List.mem_of_head? hb)
            have hka : k ∈ a := by rw [ha]; simp
            exact (List.nodup_append.1 hnd).2.2 k hka k hkb rfl
          rw [if_neg hnb, h1, h2, ha]
          refine ⟨rfl, ?_⟩
          cases ys with
          | nil => simp
          | cons z zs =>
              rw [if_neg]
              · simp
              · intro hl
                have hz : k ∈ z :: zs := by
                  have : (z :: zs).getLast? = some k := by
                    simpa [List.getLast?_append] using hl
                  exact List.mem_of_getLast? this
                have := (List.nodup_append.1 hnd).1
                rw [ha] at this
                exact (List.nodup_cons.1 (List.nodup_append.1 this).2.1).1 hz

end IsDll

end DartUdp.Lib
