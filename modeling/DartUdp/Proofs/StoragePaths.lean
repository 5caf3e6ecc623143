import DartUdp.Proofs.StorageRecord
import DartUdp.Storage.Complete

/-!
# Relative paths and their suffixes

A relative path and the list of its components carry the same information.
Putting a suffix on the last component is putting it at the end of the path,
and a checked path stays a checked path under a suffix unless it gets too
long.

`validateStoragePath_iff` and `Checked.suffix_iff` are the results.
-/

namespace DartUdp.Storage

open DartUdp.Lib DartUdp.Transfer

/-! ## Texts -/

theorem mem_ascii_toString {n : Nat} {b : UInt8} (h : b ∈ ascii (toString n)) :
    48 ≤ b ∧ b ≤ 57 := by
  simp only [ascii, Nat.toString_eq_repr, Nat.toList_repr, List.mem_map] at h
  obtain ⟨c, hc, rfl⟩ := h
  have hdigit := Nat.isDigit_of_mem_toDigits (by decide) (by decide) hc
  simp only [Char.isDigit, Bool.and_eq_true, decide_eq_true_eq] at hdigit
  obtain ⟨hlo, hhi⟩ := hdigit
  have h1 : 48 ≤ c.toNat := hlo
  have h2 : c.toNat ≤ 57 := hhi
  rw [UInt8.le_iff_toNat_le, UInt8.le_iff_toNat_le]
  simp only [Nat.toUInt8_eq, UInt8.toNat_ofNat', UInt8.reduceToNat]
  omega

theorem utf8Valid_append {a b : Bytes} (ha : utf8Valid a = true) (hb : utf8Valid b = true) :
    utf8Valid (a ++ b) = true := by
  fun_induction utf8Valid a with
  | case1 => exact hb
  | case2 a rest h ih =>
      rw [List.cons_append, utf8Valid.eq_def]
      simpa only [h, if_true] using ih ha
  | _ =>
      simp only [List.cons_append]
      rw [utf8Valid.eq_def]
      simp_all

theorem utf8Valid_of_ascii {a : Bytes} (h : ∀ b ∈ a, b < 0x80) : utf8Valid a = true := by
  induction a with
  | nil => rfl
  | cons b a ih =>
      rw [utf8Valid.eq_def]
      simp only [h b (by simp), if_true]
      exact ih fun x hx => h x (by simp [hx])

/-- What `suffixed_path` puts behind a name. -/
def suffix (index : Nat) : Bytes := ascii "." ++ ascii (toString index)

theorem mem_suffix {index : Nat} {b : UInt8} (h : b ∈ suffix index) : 46 ≤ b ∧ b ≤ 57 ∧ b ≠ 47 := by
  rcases List.mem_append.1 h with hx | hx
  · have : b = 46 := by simpa [ascii] using hx
    subst this
    decide
  · obtain ⟨h1, h2⟩ := mem_ascii_toString hx
    rw [UInt8.le_iff_toNat_le] at h1 h2
    simp only [UInt8.le_iff_toNat_le, ne_eq, ← UInt8.toNat_inj, UInt8.reduceToNat] at *
    omega

theorem length_suffix (index : Nat) : 2 ≤ (suffix index).length := by
  have h : 0 < (Nat.toDigits 10 index).length := Nat.length_toDigits_pos
  simp only [suffix, ascii, Nat.toString_eq_repr, Nat.toList_repr, List.length_append,
    List.length_map]
  have : ".".toList.length = 1 := by decide
  omega

/-! ## Components -/

theorem splitSlash_ne_nil (path : Bytes) : splitSlash path ≠ [] := by
  cases path with
  | nil => simp [splitSlash]
  | cons b rest =>
      simp only [splitSlash]
      split
      · simp
      · split <;> simp

theorem joinSlash_cons {c : Bytes} {cs : Path} (h : cs ≠ []) :
    joinSlash (c :: cs) = c ++ slash :: joinSlash cs := by
  cases cs with
  | nil => exact absurd rfl h
  | cons c' cs => simp [joinSlash, List.intercalate]

theorem joinSlash_cons_cons (b : UInt8) (c : Bytes) (cs : Path) :
    joinSlash ((b :: c) :: cs) = b :: joinSlash (c :: cs) := by
  cases cs with
  | nil => simp [joinSlash, List.intercalate]
  | cons c' cs =>
      rw [joinSlash_cons (List.cons_ne_nil c' cs), joinSlash_cons (List.cons_ne_nil c' cs),
        List.cons_append]

@[simp] theorem joinSlash_splitSlash (path : Bytes) : joinSlash (splitSlash path) = path := by
  induction path with
  | nil => rfl
  | cons b rest ih =>
      simp only [splitSlash]
      split
      · next hb => rw [joinSlash_cons (splitSlash_ne_nil rest), ih, hb, List.nil_append]
      · split
        · next hnil => exact absurd hnil (splitSlash_ne_nil rest)
        · next c cs hcs => rw [joinSlash_cons_cons, ← hcs, ih]

theorem splitSlash_injective {a b : Bytes} (h : splitSlash a = splitSlash b) : a = b := by
  rw [← joinSlash_splitSlash a, h, joinSlash_splitSlash]

/-- A text without a slash goes to the last component. -/
theorem splitSlash_append {path text : Bytes} (h : ∀ b ∈ text, b ≠ slash) :
    ∃ front last, splitSlash path = front ++ [last] ∧
      splitSlash (path ++ text) = front ++ [last ++ text] := by
  induction path with
  | nil =>
      refine ⟨[], [], rfl, ?_⟩
      induction text with
      | nil => rfl
      | cons b text ih =>
          have hrest := ih fun x hx => h x (by simp [hx])
          simp only [List.nil_append] at hrest ⊢
          rw [splitSlash, if_neg (h b (by simp)), hrest]
  | cons b path ih =>
      obtain ⟨front, last, h1, h2⟩ := ih
      by_cases hb : b = slash
      · refine ⟨[] :: front, last, ?_, ?_⟩
        · rw [splitSlash, if_pos hb, h1]; rfl
        · rw [List.cons_append, splitSlash, if_pos hb, h2]; rfl
      · cases front with
        | nil =>
            refine ⟨[], b :: last, ?_, ?_⟩
            · rw [splitSlash, if_neg hb, h1]; rfl
            · rw [List.cons_append, splitSlash, if_neg hb, h2]; rfl
        | cons c cs =>
            refine ⟨(b :: c) :: cs, last, ?_, ?_⟩
            · rw [splitSlash, if_neg hb, h1]; rfl
            · rw [List.cons_append, splitSlash, if_neg hb, h2]; rfl

theorem suffixedPath_splitSlash (path : Bytes) (index : Nat) :
    suffixedPath (splitSlash path) index = splitSlash (path ++ suffix index) := by
  obtain ⟨front, last, h1, h2⟩ :=
    @splitSlash_append path (suffix index) fun b hb => (mem_suffix hb).2.2
  rw [h2, h1, suffixedPath]
  simp [suffix]

/-! ## Checked paths -/

/-- What the two checks of a path ask for. -/
structure Checked (path : Bytes) : Prop where
  length : path.length ≤ maxPathLen
  ne_nil : path ≠ []
  zero : (0 : UInt8) ∉ path
  head : path.head? ≠ some slash
  backslash : (92 : UInt8) ∉ path
  components : ∀ c ∈ splitSlash path, c ≠ [] ∧ c ≠ ascii "." ∧ c ≠ ascii ".."

theorem validateStoragePath_iff {path : Bytes} :
    validateStoragePath path = .ok () ↔ Checked path := by
  have hlast : Checked path → allNormal path = true := by
    intro h
    obtain ⟨c, cs, hcs⟩ := List.exists_cons_of_ne_nil (splitSlash_ne_nil path)
    have hc := h.components c (by simp [hcs])
    simp only [allNormal, Bool.and_eq_true, bne_iff_ne, ne_eq, List.all_eq_true]
    refine ⟨⟨h.head, fun c hc => (h.components c hc).2.2⟩, ?_⟩
    rw [hcs]
    simpa using hc.2.1
  have hrel : path.length ≤ maxPathLen → (validateRelativePath path = true ↔ Checked path) := by
    intro hlen
    have hl : ¬ maxPathLen < path.length := Nat.not_lt.2 hlen
    simp only [validateRelativePath, Bool.and_eq_true, Bool.not_eq_true', Bool.or_eq_false_iff,
      List.isEmpty_eq_false_iff, decide_eq_false_iff_not, List.all_eq_true, beq_eq_false_iff_ne,
      List.contains_eq_mem]
    constructor
    · rintro ⟨⟨⟨⟨h1, _⟩, h2⟩, h3, h4⟩, h5⟩
      exact ⟨hlen, h1, h2, h3, h4, fun c hc => by
        obtain ⟨⟨a, b⟩, c⟩ := h5 c hc
        exact ⟨a, b, c⟩⟩
    · rintro ⟨_, h1, h2, h3, h4, h5⟩
      exact ⟨⟨⟨⟨h1, hl⟩, h2⟩, h3, h4⟩, fun c hc => by
        obtain ⟨a, b, c⟩ := h5 c hc
        exact ⟨⟨a, b⟩, c⟩⟩
  unfold validateStoragePath
  by_cases hlen : path.length > maxPathLen
  · simp only [hlen, decide_true, Bool.true_or, if_true, reduceCtorEq, false_iff]
    exact fun h => absurd h.length (Nat.not_le.2 hlen)
  · have hle := Nat.not_lt.1 hlen
    by_cases hv : validateRelativePath path = true
    · have hc := (hrel hle).1 hv
      simp [hlen, hv, hlast hc, hc]
    · have hnot : ¬ Checked path := fun hc => hv ((hrel hle).2 hc)
      simp [hlen, hv, hnot]

/-- A suffix on a checked path can only make it too long. -/
theorem Checked.suffix_iff {path : Bytes} (h : Checked path) (index : Nat) :
    Checked (path ++ suffix index) ↔ (path ++ suffix index).length ≤ maxPathLen := by
  refine ⟨fun hc => hc.length, fun hlen => ⟨hlen, by simp [h.ne_nil], ?_, ?_, ?_, ?_⟩⟩
  · intro hmem
    rcases List.mem_append.1 hmem with hx | hx
    · exact h.zero hx
    · exact absurd (mem_suffix hx).1 (by decide)
  · rw [List.head?_append_of_ne_nil _ h.ne_nil]
    exact h.head
  · intro hmem
    rcases List.mem_append.1 hmem with hx | hx
    · exact h.backslash hx
    · exact absurd (mem_suffix hx).2.1 (by decide)
  · obtain ⟨front, last, h1, h2⟩ :=
      @splitSlash_append path (suffix index) fun b hb => (mem_suffix hb).2.2
    have hs := length_suffix index
    have hpos : 0 < last.length := List.length_pos_iff.2 (h.components last (by simp [h1])).1
    intro c hc
    rw [h2, List.mem_append, List.mem_singleton] at hc
    rcases hc with hx | rfl
    · exact h.components c (by simp [h1, hx])
    · refine ⟨?_, ?_, ?_⟩
      · intro hx
        have := congrArg List.length hx
        simp only [List.length_append, List.length_nil] at this
        omega
      · intro hx
        have := congrArg List.length hx
        have hone : (ascii ".").length = 1 := by decide
        simp only [List.length_append, hone] at this
        omega
      · intro hx
        have := congrArg List.length hx
        have htwo : (ascii "..").length = 2 := by decide
        simp only [List.length_append, htwo] at this
        omega

theorem utf8Valid_suffix {path : Bytes} (h : utf8Valid path = true) (index : Nat) :
    utf8Valid (path ++ suffix index) = true := by
  refine utf8Valid_append h (utf8Valid_of_ascii fun b hb => ?_)
  obtain ⟨_, hle, _⟩ := mem_suffix hb
  exact UInt8.lt_of_le_of_lt hle (by decide)

end DartUdp.Storage
