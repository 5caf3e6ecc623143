import Mathlib.Tactic.Common
import Mathlib.Tactic.Ring

/-!
# Byte strings

A text is its UTF-8 bytes, and a number on the wire its big-endian bytes.
-/

namespace DartUdp.Lib

abbrev Bytes := List UInt8

instance : LawfulBEq Bytes := inferInstance

/-- The bytes of an ASCII literal. -/
def ascii (s : String) : Bytes := s.toList.map fun c => c.toNat.toUInt8

theorem size_take {n : Nat} {bytes : Bytes} (h : n ≤ bytes.length) :
    (bytes.take n).toArray.size = n := by simp [h]

/-! ## Chunks -/

/-- The first `fuel` chunks. -/
def chunksUpTo {α : Type} (size : Nat) : Nat → List α → List (List α)
  | 0, _ => []
  | _ + 1, [] => []
  | fuel + 1, x :: xs =>
      (x :: xs).take size :: chunksUpTo size fuel ((x :: xs).drop size)

/-- `slice::chunks`, for a positive size. -/
def chunks {α : Type} (size : Nat) (data : List α) : List (List α) :=
  chunksUpTo size data.length data

theorem flatten_chunksUpTo {α : Type} {size : Nat} (hsize : 0 < size) (fuel : Nat) (data : List α)
    (h : data.length ≤ fuel) : (chunksUpTo size fuel data).flatten = data := by
  induction fuel generalizing data with
  | zero =>
      rw [List.length_eq_zero_iff.1 (Nat.le_zero.1 h)]
      rfl
  | succ fuel ih =>
      cases data with
      | nil => rfl
      | cons x xs =>
          have hdrop : ((x :: xs).drop size).length ≤ fuel := by
            rw [List.length_drop]
            omega
          rw [chunksUpTo, List.flatten_cons, ih _ hdrop, List.take_append_drop]

/-- The chunks together are the data. -/
theorem flatten_chunks {α : Type} {size : Nat} (hsize : 0 < size) (data : List α) :
    (chunks size data).flatten = data := flatten_chunksUpTo hsize _ data le_rfl

/-! ## Big-endian numbers -/

/-- The `n` lowest bytes of `v`, the highest first: `to_be_bytes`. -/
def beBytes : Nat → Nat → Bytes
  | 0, _ => []
  | n + 1, v => (v / 256 ^ n).toUInt8 :: beBytes n v

/-- `from_be_bytes`. -/
def ofBe (bytes : Bytes) : Nat := bytes.foldl (fun acc b => acc * 256 + b.toNat) 0

@[simp] theorem length_beBytes (n v : Nat) : (beBytes n v).length = n := by
  induction n with
  | zero => rfl
  | succ n ih => simp [beBytes, ih]

theorem foldl_be (bytes : Bytes) (acc : Nat) :
    bytes.foldl (fun acc b => acc * 256 + b.toNat) acc = acc * 256 ^ bytes.length + ofBe bytes := by
  induction bytes generalizing acc with
  | nil => simp [ofBe]
  | cons b bytes ih =>
      simp only [ofBe, List.foldl_cons, List.length_cons]
      rw [ih, ih (0 * 256 + b.toNat)]
      ring

theorem ofBe_cons (b : UInt8) (bytes : Bytes) :
    ofBe (b :: bytes) = b.toNat * 256 ^ bytes.length + ofBe bytes := by
  show bytes.foldl _ (0 * 256 + b.toNat) = _
  rw [foldl_be]
  simp

theorem ofBe_beBytes (n v : Nat) : ofBe (beBytes n v) = v % 256 ^ n := by
  induction n with
  | zero => simp [beBytes, ofBe, Nat.mod_one]
  | succ n ih =>
      rw [beBytes, ofBe_cons, ih, length_beBytes]
      have hb : (v / 256 ^ n).toUInt8.toNat = v / 256 ^ n % 256 := by simp
      rw [hb, pow_succ, Nat.mod_mul]
      ring

theorem ofBe_lt (bytes : Bytes) : ofBe bytes < 256 ^ bytes.length := by
  induction bytes with
  | nil => simp [ofBe]
  | cons b bytes ih =>
      rw [ofBe_cons, List.length_cons, pow_succ]
      have hb := b.toNat_lt
      have : b.toNat * 256 ^ bytes.length ≤ 255 * 256 ^ bytes.length :=
        Nat.mul_le_mul_right _ (by omega)
      omega

theorem beBytes_ofBe (bytes : Bytes) : beBytes bytes.length (ofBe bytes) = bytes := by
  have key : ∀ (rest : Bytes) (k : Nat),
      beBytes rest.length (k * 256 ^ rest.length + ofBe rest) = rest := by
    intro rest
    induction rest with
    | nil => intro k; rfl
    | cons b rest ih =>
        intro k
        have hlow := ofBe_lt rest
        have hpow : 256 ^ (rest.length + 1) = 256 * 256 ^ rest.length := by
          rw [pow_succ, Nat.mul_comm]
        have hsum : k * 256 ^ (rest.length + 1) + (b.toNat * 256 ^ rest.length + ofBe rest) =
            (k * 256 + b.toNat) * 256 ^ rest.length + ofBe rest := by
          rw [hpow]
          ring
        have hdigit : ((k * 256 + b.toNat) * 256 ^ rest.length + ofBe rest) / 256 ^ rest.length =
            k * 256 + b.toNat := by
          rw [Nat.mul_comm, Nat.mul_add_div (Nat.pow_pos (by decide)),
            Nat.div_eq_of_lt hlow, Nat.add_zero]
        rw [List.length_cons, ofBe_cons, hsum, beBytes, hdigit, ih]
        congr 1
        apply UInt8.toNat_inj.1
        have hb := b.toNat_lt
        have hmod : (k * 256 + b.toNat).toUInt8.toNat = (k * 256 + b.toNat) % 256 := by simp
        rw [hmod]
        omega
  simpa using key bytes 0

/-! ## UTF-8 -/

/-- A continuation byte. -/
def isCont (b : UInt8) : Bool := 0x80 ≤ b && b ≤ 0xBF

/-- `str::from_utf8` accepts the bytes. -/
def utf8Valid : Bytes → Bool
  | [] => true
  | a :: rest =>
      if a < 0x80 then utf8Valid rest
      else if 0xC2 ≤ a && a ≤ 0xDF then
        match rest with
        | b :: rest => isCont b && utf8Valid rest
        | _ => false
      else if 0xE0 ≤ a && a ≤ 0xEF then
        match rest with
        | b :: c :: rest =>
            (if a = 0xE0 then 0xA0 ≤ b && b ≤ 0xBF
              else if a = 0xED then 0x80 ≤ b && b ≤ 0x9F else isCont b) &&
              isCont c && utf8Valid rest
        | _ => false
      else if 0xF0 ≤ a && a ≤ 0xF4 then
        match rest with
        | b :: c :: d :: rest =>
            (if a = 0xF0 then 0x90 ≤ b && b ≤ 0xBF
              else if a = 0xF4 then 0x80 ≤ b && b ≤ 0x8F else isCont b) &&
              isCont c && isCont d && utf8Valid rest
        | _ => false
      else false

theorem utf8Valid_of_ascii {x : Bytes} (h : ∀ byte ∈ x, byte < 0x80) : utf8Valid x = true := by
  induction x with
  | nil => rfl
  | cons byte x ih =>
      rw [utf8Valid.eq_def]
      simp only [h byte List.mem_cons_self, if_true]
      exact ih fun b hb => h b (List.mem_cons_of_mem _ hb)

/-! ## Hexadecimal -/

/-- A lower-case hexadecimal digit. -/
def hexDigit (n : Nat) : UInt8 := if n < 10 then (48 + n).toUInt8 else (87 + n).toUInt8

/-- `{byte:02x}` over the bytes. -/
def hex (bytes : Bytes) : Bytes :=
  bytes.flatMap fun b => [hexDigit (b.toNat / 16), hexDigit (b.toNat % 16)]

theorem hexDigit_inj {m n : Nat} (hm : m < 16) (hn : n < 16) (h : hexDigit m = hexDigit n) :
    m = n := by
  have : ∀ a : Fin 16, ∀ b : Fin 16, hexDigit a = hexDigit b → a = b := by decide
  exact congrArg Fin.val (this ⟨m, hm⟩ ⟨n, hn⟩ h)

theorem hex_injective : Function.Injective hex := by
  intro xs
  induction xs with
  | nil =>
      intro ys h
      cases ys with
      | nil => rfl
      | cons y ys => simp [hex] at h
  | cons x xs ih =>
      intro ys h
      cases ys with
      | nil => simp [hex] at h
      | cons y ys =>
          simp only [hex, List.flatMap_cons, List.cons_append, List.nil_append,
            List.cons.injEq] at h
          obtain ⟨h1, h2, h3⟩ := h
          have hx := x.toNat_lt
          have hy := y.toNat_lt
          have e1 := hexDigit_inj (by omega) (by omega) h1
          have e2 := hexDigit_inj (by omega) (by omega) h2
          have : x = y := UInt8.toNat_inj.1 (by omega)
          rw [this, ih h3]

end DartUdp.Lib
