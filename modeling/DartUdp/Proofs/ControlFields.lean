import DartUdp.Protocol.Codec

/-!
# The fields of a control message

Each reader of a field takes back what its writer put in front, and what it takes
is what the writer writes for its answer. Only the pairing code is an exception:
its small letters are read as capitals.

A reader has two lemmas, `_reads` and `_takes`, which compose along the fields of a
message.
-/

namespace DartUdp.Protocol

open DartUdp.Lib
open DartUdp.Transfer (Digest HashAlgorithm)
open ByteEnum (toU8 tryFrom)

section

variable {α : Type} {n maximum : Nat} {x out : Bytes} {context field : String}

/-! ## Arrays and numbers -/

theorem array_reads (v : Vector UInt8 n) : Reads (Reader.array n context) v.toList v := by
  intro rest
  have hlen : n ≤ (v.toList ++ rest).length := by simp
  have htake : (v.toList ++ rest).take n = v.toList := List.take_left' (by simp)
  have hdrop : (v.toList ++ rest).drop n = rest := List.drop_left' (by simp)
  rw [Reader.array, dif_pos hlen, hdrop]
  simp only [htake]
  rfl

theorem array_takes (n : Nat) (context : String) :
    Takes (Reader.array n context) fun used v => used = v.toList := by
  intro s v s' h
  unfold Reader.array at h
  split at h
  · next hn =>
      cases h
      exact ⟨_, (List.take_append_drop n s).symm, by simp⟩
  · cases h

theorem number_reads {v : Nat} (g : Nat → α) (h : v < 256 ^ n) :
    Reads ((fun value => g (ofBe value.toList)) <$> Reader.array n context)
      (beBytes n v) (g v) := by
  let bytes : Vector UInt8 n := ⟨(beBytes n v).toArray, by simp⟩
  have hread : Reads ((fun value => g (ofBe value.toList)) <$> Reader.array n context)
      bytes.toList (g (ofBe bytes.toList)) := (array_reads bytes).map
  have hvalue : ofBe bytes.toList = v := (ofBe_beBytes n v).trans (Nat.mod_eq_of_lt h)
  rwa [hvalue] at hread

theorem number_takes (g : Nat → α) :
    Takes ((fun value => g (ofBe value.toList)) <$> Reader.array n context) fun used a =>
      ∃ v < 256 ^ n, a = g v ∧ used = beBytes n v := by
  refine .map ((array_takes n context).mono ?_)
  rintro used v rfl
  have hlen : v.toList.length = n := by simp
  refine ⟨ofBe v.toList, ?_, rfl, ?_⟩
  · have hlt := ofBe_lt v.toList
    rwa [hlen] at hlt
  · have hbe := beBytes_ofBe v.toList
    rw [hlen] at hbe
    exact hbe.symm

theorem u8_reads (v : UInt8) : Reads Reader.u8 (Writer.u8 v) v := fun _ => rfl

theorem u8_takes : Takes Reader.u8 fun used v => used = Writer.u8 v := by
  intro s v s' h
  cases s with
  | nil => cases h
  | cons byte s =>
      cases h
      exact ⟨[v], rfl, rfl⟩

theorem u16_reads (v : UInt16) : Reads Reader.u16 (Writer.u16 v) v := by
  have hread : Reads Reader.u16 (Writer.u16 v) (UInt16.ofNat v.toNat) :=
    number_reads _ v.toNat_lt
  rwa [UInt16.ofNat_toNat] at hread

theorem u16_takes : Takes Reader.u16 fun used v => used = Writer.u16 v := by
  refine (number_takes UInt16.ofNat).mono ?_
  rintro used a ⟨v, hv, rfl, rfl⟩
  rw [Writer.u16, UInt16.toNat_ofNat_of_lt' hv]

theorem u32_reads (v : UInt32) : Reads Reader.u32 (Writer.u32 v) v := by
  have hread : Reads Reader.u32 (Writer.u32 v) (UInt32.ofNat v.toNat) :=
    number_reads _ v.toNat_lt
  rwa [UInt32.ofNat_toNat] at hread

theorem u32_takes : Takes Reader.u32 fun used v => used = Writer.u32 v := by
  refine (number_takes UInt32.ofNat).mono ?_
  rintro used a ⟨v, hv, rfl, rfl⟩
  rw [Writer.u32, UInt32.toNat_ofNat_of_lt' hv]

theorem u64_reads (v : UInt64) : Reads Reader.u64 (Writer.u64 v) v := by
  have hread : Reads Reader.u64 (Writer.u64 v) (UInt64.ofNat v.toNat) :=
    number_reads _ v.toNat_lt
  rwa [UInt64.ofNat_toNat] at hread

theorem u64_takes : Takes Reader.u64 fun used v => used = Writer.u64 v := by
  refine (number_takes UInt64.ofNat).mono ?_
  rintro used a ⟨v, hv, rfl, rfl⟩
  rw [Writer.u64, UInt64.toNat_ofNat_of_lt' hv]

theorem i64_reads (v : Int64) : Reads Reader.i64 (Writer.i64 v) v := by
  have hread : Reads Reader.i64 (Writer.i64 v) (UInt64.ofNat v.toUInt64.toNat).toInt64 :=
    number_reads (fun value => (UInt64.ofNat value).toInt64) v.toUInt64.toNat_lt
  rwa [UInt64.ofNat_toNat, Int64.toInt64_toUInt64] at hread

theorem i64_takes : Takes Reader.i64 fun used v => used = Writer.i64 v := by
  refine (number_takes fun value => (UInt64.ofNat value).toInt64).mono ?_
  rintro used a ⟨v, hv, rfl, rfl⟩
  rw [Writer.i64, UInt64.toUInt64_toInt64, UInt64.toNat_ofNat_of_lt' hv]

/-! ## Enumerations, flags and digests -/

theorem enum_reads [ByteEnum α] (value : α) :
    Reads (Reader.enumValue field) (Writer.u8 (toU8 value)) value := by
  refine (u8_reads _).last ?_
  rw [ByteEnum.tryFrom_toU8]
  exact .pure value

theorem enum_takes [ByteEnum α] (field : String) :
    Takes (Reader.enumValue (α := α) field) fun used value => used = Writer.u8 (toU8 value) := by
  refine u8_takes.field fun byte => ?_
  split
  · next value hvalue => exact .pure (congrArg Writer.u8 (ByteEnum.toU8_of_tryFrom hvalue).symm)
  · exact .throw

theorem bool_reads (value : Bool) : Reads (Reader.bool field) (Writer.bool value) value := by
  cases value with
  | false => exact (u8_reads 0).last (.pure false)
  | true => exact (u8_reads 1).last (.pure true)

theorem bool_takes (field : String) :
    Takes (Reader.bool field) fun used value => used = Writer.bool value := by
  refine u8_takes.field fun byte => ?_
  split
  · exact .pure rfl
  · exact .pure rfl
  · exact .throw

theorem digest_reads (d : Digest) : Reads Reader.digest (Writer.digest d) d :=
  (enum_reads d.algorithm).bind ((array_reads d.bytes).last (.pure d))

theorem digest_takes : Takes Reader.digest fun used d => used = Writer.digest d :=
  (enum_takes _).field fun _ => (array_takes _ _).field fun _ =>
    .pure (by simp [Writer.digest]; rfl)

/-! ## Tickets, texts and codes -/

theorem blob_reads (h : Writer.blob x maximum = .ok out) :
    Reads (Reader.blob maximum context) out x := by
  obtain ⟨hmax, hout⟩ := ok_of_guard h
  obtain rfl : _ = out := Except.ok.inj hout
  rw [not_or, Nat.not_lt, Nat.not_lt] at hmax
  have hlt : x.length < 256 ^ 4 := Nat.lt_of_le_of_lt hmax.2 (by decide)
  have hlen : (UInt32.ofNat x.length).toNat = x.length := UInt32.toNat_ofNat_of_lt' hlt
  refine (number_reads UInt32.ofNat hlt).bind (.guard ?_ (exactly_reads ?_))
  · rw [hlen]
    exact Nat.not_lt.2 hmax.1
  · exact hlen.symm

theorem blob_takes (maximum : Nat) (context : String) :
    Takes (Reader.blob maximum context) fun used x => Writer.blob x maximum = .ok used := by
  refine (number_takes UInt32.ofNat).bind fun length used hlength => .guard fun hle =>
    (exactly_takes _ _).mono ?_
  rintro more x ⟨rfl, hx⟩
  obtain ⟨v, hv, rfl, rfl⟩ := hlength
  rw [UInt32.toNat_ofNat_of_lt' hv] at hle hx
  have hmax : ¬ (more.length > maximum ∨ more.length > u32Max) := by
    unfold u32Max
    omega
  rw [Writer.blob, if_neg hmax, hx]

theorem string_reads {t : Text} (h : Writer.string t maximum field = .ok out) :
    Reads (Reader.string maximum context) out t := by
  obtain ⟨hmax, hout⟩ := ok_of_guard h
  obtain rfl : _ = out := Except.ok.inj hout
  rw [not_or, Nat.not_lt, Nat.not_lt] at hmax
  have hlt : t.bytes.length < 256 ^ 2 := Nat.lt_of_le_of_lt hmax.2 (by decide)
  have hlen : (UInt16.ofNat t.bytes.length).toNat = t.bytes.length :=
    UInt16.toNat_ofNat_of_lt' hlt
  refine (number_reads UInt16.ofNat hlt).bind
    (.guard ?_ ((exactly_reads ?_).last ?_))
  · rw [hlen]
    exact Nat.not_lt.2 hmax.1
  · exact hlen.symm
  · rw [dif_pos t.valid]
    exact .pure t

theorem string_takes (maximum : Nat) (context : String) :
    Takes (Reader.string maximum context) fun used t =>
      Writer.string t maximum context = .ok used := by
  refine (number_takes UInt16.ofNat).bind fun length used hlength => .guard fun hle =>
    (exactly_takes _ _).bind fun x more hx => ?_
  obtain ⟨rfl, hx⟩ := hx
  obtain ⟨v, hv, rfl, rfl⟩ := hlength
  rw [UInt16.toNat_ofNat_of_lt' hv] at hle hx
  split
  · have hmax : ¬ (more.length > maximum ∨ more.length > maxStringLen) := by
      unfold maxStringLen
      omega
    refine .pure ?_
    rw [Writer.string, if_neg hmax, hx, List.append_nil]
  · exact .throw

theorem toAsciiUppercase_of_symbol : ∀ byte ∈ crockfordAlphabet, toAsciiUppercase byte = byte := by
  decide +kernel

theorem lt_of_symbol : ∀ byte ∈ crockfordAlphabet, byte < 0x80 := by decide +kernel

theorem PairingCode.ext {c c' : PairingCode} (h : c.bytes = c'.bytes) : c = c' := by
  cases c
  cases c'
  cases h
  rfl

/-- A code is its own capitals. -/
theorem PairingCode.parse_bytes (code : PairingCode) : PairingCode.parse code.bytes = .ok code := by
  have hmap : code.bytes.map toAsciiUppercase = code.bytes :=
    (List.map_congr_left fun b hb => toAsciiUppercase_of_symbol b (code.symbols b hb)).trans
      (List.map_id _)
  have hok : (pairingCodeMinLen ≤ code.bytes.length ∧ code.bytes.length ≤ pairingCodeMaxLen) ∧
      code.bytes.all (toAsciiUppercase · ∈ crockfordAlphabet) := by
    refine ⟨⟨code.minLen, code.maxLen⟩, List.all_eq_true.2 fun b hb => decide_eq_true ?_⟩
    rw [toAsciiUppercase_of_symbol b (code.symbols b hb)]
    exact code.symbols b hb
  rw [PairingCode.parse, dif_pos hok]
  exact congrArg Except.ok (PairingCode.ext hmap)

theorem PairingCode.parse_inv {code : PairingCode} (h : PairingCode.parse x = .ok code) :
    x.map toAsciiUppercase = code.bytes := by
  unfold PairingCode.parse at h
  split at h
  · cases h
    rfl
  · cases h

theorem pairingCode_eq (code : PairingCode) :
    Writer.pairingCode code = .ok (beBytes 1 code.bytes.length ++ code.bytes) := by
  have hmax := code.maxLen
  unfold pairingCodeMaxLen at hmax
  rw [Writer.pairingCode, if_neg (by omega)]

theorem pairingCode_reads {code : PairingCode} (h : Writer.pairingCode code = .ok out) :
    Reads Reader.pairingCode out code := by
  rw [pairingCode_eq] at h
  obtain rfl : _ = out := Except.ok.inj h
  have hmax := code.maxLen
  unfold pairingCodeMaxLen at hmax
  have hlen : code.bytes.length = (UInt8.ofNat code.bytes.length).toNat :=
    (UInt8.toNat_ofNat_of_lt' (Nat.lt_of_le_of_lt hmax (by decide))).symm
  have hbyte : beBytes 1 code.bytes.length = Writer.u8 (UInt8.ofNat code.bytes.length) := by
    simp [beBytes, Writer.u8]
  have hvalid : ¬ (!utf8Valid code.bytes) = true := by
    simp [utf8Valid_of_ascii fun b hb => lt_of_symbol b (code.symbols b hb)]
  rw [hbyte]
  exact (u8_reads _).bind <| (exactly_reads hlen).last <| .guard hvalid <|
    .lift code.parse_bytes

/-- The bytes are those of the code, up to the case of letters. -/
def SameLetters (text : Bytes) (code : PairingCode) : Prop :=
  text.map toAsciiUppercase = code.bytes

theorem pairingCode_takes : Takes Reader.pairingCode fun used code =>
    ∃ text, SameLetters text code ∧ used = beBytes 1 code.bytes.length ++ text := by
  refine u8_takes.field fun length => (exactly_takes _ _).bind fun text used htext =>
    .guard fun _ => (Takes.lift _).mono ?_
  rintro more code ⟨rfl, hcode⟩
  obtain ⟨rfl, hlen⟩ := htext
  have hsame := PairingCode.parse_inv hcode
  refine ⟨used, hsame, ?_⟩
  have hcount : code.bytes.length = length.toNat := by
    rw [← hsame, List.length_map, hlen]
  simp [hcount, beBytes, Writer.u8]

/-! ## Addresses -/

theorem socketAddr_reads (address : SocketAddr) :
    Reads Reader.socketAddr (Writer.socketAddr address) address := by
  cases address with
  | v4 ip port =>
      exact (u8_reads 4).bind <| (array_reads ip).bind <| (u16_reads port).last (.pure _)
  | v6 ip port flowinfo scopeId =>
      exact (u8_reads 6).bind <| (array_reads ip).bind <| (u16_reads port).bind <|
        (u32_reads flowinfo).bind <| (u32_reads scopeId).last (.pure _)

theorem socketAddr_takes : Takes Reader.socketAddr fun used address =>
    used = Writer.socketAddr address := by
  refine u8_takes.field fun tag => ?_
  split
  · exact (array_takes _ _).field fun ip => u16_takes.field fun port => .pure (by simp; rfl)
  · exact (array_takes _ _).field fun ip => u16_takes.field fun port =>
      u32_takes.field fun flowinfo => u32_takes.field fun scopeId => .pure (by simp; rfl)
  · exact .throw

theorem socketAddrOption_reads (address : Option SocketAddr) :
    Reads Reader.socketAddrOption (Writer.socketAddrOption address) address := by
  cases address with
  | none => exact fun _ => rfl
  | some address =>
      have hread := (socketAddr_reads address).map (g := some)
      cases address with
      | v4 ip port => exact hread
      | v6 ip port flowinfo scopeId => exact hread

theorem socketAddrOption_takes : Takes Reader.socketAddrOption fun used address =>
    used = Writer.socketAddrOption address := by
  intro s address s' h
  cases s with
  | nil => cases h
  | cons byte s =>
      rw [Reader.socketAddrOption] at h
      split at h
      · next hzero =>
          cases h
          exact ⟨[byte], rfl, congrArg Writer.u8 hzero⟩
      · split at h
        · have htakes : Takes (some <$> Reader.socketAddr) fun used address =>
              used = Writer.socketAddrOption address := .map socketAddr_takes
          exact htakes _ _ _ h
        · cases h

end

end DartUdp.Protocol
