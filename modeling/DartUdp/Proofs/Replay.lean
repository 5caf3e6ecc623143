import DartUdp.Proofs.CodecFrames

/-!
# Replay protection

The window of a receiver holds, at any time, exactly the packet numbers it has
accepted that are less than 4096 below the highest of them. So whether an
authentic datagram passes is a question about its number and the numbers
accepted so far, and a datagram that is not authentic leaves no trace.

The outcome is read off what decoding answers: a replay is an error of its own,
and nothing that is wrong with the frames of an opened packet is reported as one.

The module is for `replay_exact`. `ReplayWindow.Tracks` relates the window to the
numbers accepted, `tracks_step` is a datagram and `tracks_run` a sequence of them.
-/

namespace DartUdp.Udp

open DartUdp.Lib

/-! ## The errors of the frames -/

/-- The error is about keys, authentication or replays. -/
def ProtocolError.isCrypto : ProtocolError → Bool
  | .crypto _ => true
  | _ => false

/-- The reader never reports an error of the cryptography. -/
abbrev Plain {α : Type} (r : Reader α) : Prop :=
  FailsOnly (fun e : ProtocolError => e.isCrypto = false) r

section

variable (length maximum count : Nat) (context : String)

theorem readExact_plain : Plain (readExact length context) := by
  intro s e h
  unfold readExact at h
  split at h
  · cases h
  · cases h
    rfl

theorem readVarint_plain : Plain readVarint := by
  intro s e h
  cases s with
  | nil =>
      cases h
      rfl
  | cons first s =>
      change (readExact (1 <<< (first.toNat >>> 6)) "varint" (first :: s) >>= _) = _ at h
      cases hr : readExact (1 <<< (first.toNat >>> 6)) "varint" (first :: s) with
      | error e' =>
          rw [hr] at h
          cases h
          exact readExact_plain _ _ _ _ hr
      | ok p =>
          rw [hr] at h
          cases h

theorem readU8_plain : Plain readU8 := by
  intro s e h
  cases s with
  | nil =>
      cases h
      rfl
  | cons byte s => cases h

theorem readU16_plain : Plain readU16 := (readExact_plain _ _).map

theorem readU32_plain : Plain readU32 := (readExact_plain _ _).map

theorem readU64_plain : Plain readU64 := (readExact_plain _ _).map

theorem readBlob_plain : Plain (readBlob maximum context) :=
  readVarint_plain.bind fun _ => .guard rfl (readExact_plain _ _)

theorem readFlag_plain : Plain (readFlag context) := by
  refine readU8_plain.bind fun byte => ?_
  split
  · exact .pure _
  · exact .pure _
  · exact .error rfl

theorem validateHello_plain (a b c d : Nat) :
    Plain (liftM (validateHello a b c d) : Reader Unit) := by
  refine .lift fun e h => ?_
  unfold validateHello at h
  repeat' split at h
  all_goals
    cases h
    try rfl

theorem readRanges_plain : Plain (readRanges count) := by
  induction count with
  | zero => exact .pure _
  | succ count ih =>
      exact readVarint_plain.bind fun _ => readVarint_plain.bind fun _ => ih.bind fun _ => .pure _

theorem fromDescending_plain (ranges : List AckRange) :
    Plain (liftM (fromDescending ranges) : Reader (List AckRange)) := by
  refine .lift fun e h => ?_
  unfold fromDescending at h
  repeat' split at h
  all_goals
    cases h
    try rfl

theorem decodeRanges_plain : Plain decodeRanges :=
  readVarint_plain.bind fun _ => .guard rfl <| .guard rfl <|
    (readRanges_plain _).bind fun _ => fromDescending_plain _

theorem AckFrame.validate_plain (a : AckFrame) : Plain (liftM a.validate : Reader Unit) := by
  refine .lift fun e h => ?_
  unfold AckFrame.validate at h
  repeat' split at h
  all_goals
    cases h
    try rfl

theorem readBody_plain (frameType : Nat) : Plain (readBody frameType) := by
  unfold readBody
  split
  · exact .map <| (readExact_plain _ _).bind fun _ => (readExact_plain _ _).bind fun _ =>
      readU16_plain.bind fun _ => readU32_plain.bind fun _ => readU64_plain.bind fun _ =>
      readU64_plain.bind fun _ => (readBlob_plain _ _).bind fun _ =>
      (validateHello_plain _ _ _ _).bind fun _ => .pure _
  · exact .map <| (readExact_plain _ _).bind fun _ => (readExact_plain _ _).bind fun _ =>
      (readExact_plain _ _).bind fun _ => readU16_plain.bind fun _ => readU32_plain.bind fun _ =>
      readU64_plain.bind fun _ => readU64_plain.bind fun _ => (readBlob_plain _ _).bind fun _ =>
      (validateHello_plain _ _ _ _).bind fun _ => .pure _
  · exact .map <| (readBlob_plain _ _).bind fun _ => (readExact_plain _ _).bind fun _ => .pure _
  · exact .map (readBlob_plain _ _)
  · exact .map <| readVarint_plain.bind fun _ => readVarint_plain.bind fun _ =>
      decodeRanges_plain.bind fun _ => (AckFrame.validate_plain _).bind fun _ => .pure _
  · exact .map <| readVarint_plain.bind fun _ => readVarint_plain.bind fun _ =>
      (readFlag_plain _).bind fun _ => .guard rfl (.pure _)
  · exact .map <| readVarint_plain.bind fun _ => readVarint_plain.bind fun _ =>
      (readFlag_plain _).bind fun _ => (readBlob_plain _ _).bind fun _ => .guard rfl (.pure _)
  · exact .map <| readVarint_plain.bind fun _ => readU32_plain.bind fun _ =>
      readVarint_plain.bind fun _ => .pure _
  · exact .map <| readVarint_plain.bind fun _ => readVarint_plain.bind fun _ => .pure _
  · exact .map readVarint_plain
  · exact .map readU64_plain
  · exact .map readU64_plain
  · exact .map <| readU32_plain.bind fun _ => readU8_plain.bind fun _ =>
      (readBlob_plain _ _).bind fun _ => .guard rfl (.pure _)
  · exact .error rfl

theorem finish_plain : Plain finish := by
  intro s e h
  change (if s ≠ [] then throw (.invalidValue "trailing frame bytes") else pure () : Reader Unit) s
    = _ at h
  split at h
  · cases h
    rfl
  · cases h

theorem Frame.decode_plain {frameType : Nat} {body : Bytes} {e : ProtocolError}
    (h : Frame.decode frameType body = .error e) : e.isCrypto = false := by
  have hplain : Plain (readBody frameType >>= fun frame => finish >>= fun _ => pure frame) :=
    (readBody_plain _).bind fun _ => finish_plain.bind fun _ => .pure _
  unfold Frame.decode at h
  cases hr : (readBody frameType >>= fun frame => finish >>= fun _ => pure frame) body with
  | error e' =>
      simp only [hr] at h
      cases h
      exact hplain _ _ hr
  | ok p =>
      simp only [hr] at h
      cases h

theorem readFrame_plain : Plain readFrame := by
  intro s e h
  cases s with
  | nil =>
      cases h
      rfl
  | cons frameType s =>
      have hplain : Plain (readVarint >>= fun bodyLen =>
          if bodyLen > maxFrameBodyLen then
            StateT.lift (.error (.frameTooLarge maxFrameBodyLen bodyLen))
          else readExact bodyLen "frame body" >>= fun body =>
            (liftM (Frame.decode frameType.toNat body) : Reader Frame)) :=
        readVarint_plain.bind fun _ => .guard rfl <| (readExact_plain _ _).bind fun _ =>
          .lift fun _ => Frame.decode_plain
      exact hplain s e h

theorem readFrames_plain (room : Nat) : Plain (readFrames room) := by
  induction room with
  | zero =>
      intro s e h
      cases s with
      | nil => cases h
      | cons frameType s =>
          cases h
          rfl
  | succ room ih =>
      intro s e h
      cases s with
      | nil => cases h
      | cons frameType s =>
          rw [readFrames_cons] at h
          exact (readFrame_plain.bind fun _ => ih.bind fun _ => .pure _) _ _ h

theorem decodeFrames_plain {payload : Bytes} {e : ProtocolError}
    (h : decodeFrames payload = .error e) : e.isCrypto = false := by
  unfold decodeFrames at h
  cases hr : readFrames maxFrameCount payload with
  | error e' =>
      rw [hr] at h
      cases h
      exact readFrames_plain _ _ _ hr
  | ok p =>
      rw [hr] at h
      simp only [bind, Except.bind] at h
      split at h
      · cases h
        rfl
      · cases h

end

/-! ## The window -/

/-- The window marks exactly the accepted numbers within its reach. -/
structure ReplayWindow.Tracks (window : ReplayWindow) (accepted : List Nat) : Prop where
  highest : window.highest = accepted.max?
  unused : accepted = [] → ∀ i, window.bits.test i = false
  marks : ∀ h, accepted.max? = some h → ∀ i < replayWindowSize,
    window.bits.test i = true ↔ i ≤ h ∧ h - i ∈ accepted

/-- The numbers the window still lets through. -/
def Fresh (accepted : List Nat) (n : Nat) : Prop :=
  n ∉ accepted ∧ ∀ h, accepted.max? = some h → n > h ∨ h - n < replayWindowSize

theorem max?_snoc {accepted : List Nat} {h n : Nat} (hmax : accepted.max? = some h) :
    (accepted ++ [n]).max? = some (max h n) := by
  obtain ⟨hmem, hle⟩ := List.max?_eq_some_iff.1 hmax
  refine List.max?_eq_some_iff.2 ⟨?_, fun b hb => ?_⟩
  · rcases Nat.le_total h n with hhn | hhn
    · rw [Nat.max_eq_right hhn]
      simp
    · rw [Nat.max_eq_left hhn]
      exact List.mem_append_left _ hmem
  · rcases List.mem_append.1 hb with hb | hb
    · exact (hle b hb).trans (Nat.le_max_left h n)
    · rw [List.mem_singleton.1 hb]
      exact Nat.le_max_right h n

namespace ReplayWindow

variable {window : ReplayWindow} {accepted : List Nat} {n : Nat}

theorem tracks_new : ReplayWindow.Tracks {} [] := by
  refine ⟨rfl, fun _ i => Bitmap.test_clear i, fun h hmax => ?_⟩
  cases hmax

theorem test_first (bits : Bitmap 64 64) {i : Nat} (hi : i < replayWindowSize) :
    (bits.mark 0 0 (by decide)).test i = (bits.test i || decide (i = 0)) :=
  Bitmap.test_mark (by decide) (by decide) hi

/-- The first number of all. -/
theorem Tracks.first (h : window.Tracks []) :
    ∃ next, window.checkAndMark n = .ok next ∧ next.Tracks ([] ++ [n]) := by
  have hnone : window.highest = none := h.highest
  refine ⟨_, by rw [checkAndMark, hnone], rfl, fun hnil => by simp at hnil, fun top hmax i hi => ?_⟩
  obtain rfl : n = top := by simpa using hmax
  have hclear : window.bits.set 0 1 = window.bits.mark 0 0 (by decide) := by
    have hword : window.bits[0] = 0 := by
      refine BitVec.eq_of_getLsbD_eq fun offset hoffset => ?_
      rw [← Bitmap.test_word (by decide) hoffset, h.unused rfl]
      simp
    rw [Bitmap.mark, hword]
    rfl
  rw [hclear, test_first _ hi, h.unused rfl]
  simp only [Bool.false_or, decide_eq_true_eq, List.nil_append, List.mem_singleton]
  omega

/-- A number above the highest: the window moves up to it. -/
theorem Tracks.ahead {top : Nat} (h : window.Tracks accepted) (hmax : accepted.max? = some top)
    (hn : n > top) : ∃ next, window.checkAndMark n = .ok next ∧ next.Tracks (accepted ++ [n]) := by
  have hsome : window.highest = some top := h.highest.trans hmax
  refine ⟨_, by rw [checkAndMark, hsome]; exact if_pos hn, ?_⟩
  have hnew : (accepted ++ [n]).max? = some n := by
    rw [max?_snoc hmax, Nat.max_eq_right hn.le]
  have hle := (List.max?_eq_some_iff.1 hmax).2
  refine ⟨hnew.symm, fun hnil => by simp at hnil, fun top' hmax' i hi => ?_⟩
  obtain rfl : n = top' := Option.some.inj (hnew.symm.trans hmax')
  rw [test_first _ hi]
  simp only [Bool.or_eq_true, decide_eq_true_eq, List.mem_append, List.mem_singleton]
  by_cases hfar : n - top ≥ replayWindowSize
  · -- nothing that was accepted is still within reach
    rw [if_pos hfar, Bitmap.test_clear]
    constructor
    · rintro (hfalse | rfl)
      · cases hfalse
      · exact ⟨Nat.zero_le _, Or.inr rfl⟩
    · rintro ⟨hin, hmem | hself⟩
      · have := hle _ hmem
        omega
      · exact Or.inr (by omega)
  · rw [if_neg hfar, shiftOlderBits, Bitmap.test_shift hi]
    simp only [Bool.and_eq_true, decide_eq_true_eq]
    constructor
    · rintro (⟨hshift, hbit⟩ | rfl)
      · obtain ⟨hin, hmem⟩ := (h.marks top hmax _ (by omega)).1 hbit
        refine ⟨by omega, Or.inl ?_⟩
        rwa [show n - i = top - (i - (n - top)) by omega]
      · exact ⟨Nat.zero_le _, Or.inr rfl⟩
    · rintro ⟨hin, hmem | hself⟩
      · have htop := hle _ hmem
        refine Or.inl ⟨by omega, (h.marks top hmax _ (by omega)).2 ⟨by omega, ?_⟩⟩
        rwa [show top - (i - (n - top)) = n - i by omega]
      · exact Or.inr (by omega)

/-- A number within reach that has not been accepted is marked. -/
theorem Tracks.behind {top : Nat} (h : window.Tracks accepted) (hmax : accepted.max? = some top)
    (hn : n ≤ top) (hnear : top - n < replayWindowSize) (hnew : n ∉ accepted) :
    ∃ next, window.checkAndMark n = .ok next ∧ next.Tracks (accepted ++ [n]) := by
  have hsome : window.highest = some top := h.highest.trans hmax
  have hoffset : (top - n) % 64 < 64 := Nat.mod_lt _ (by decide)
  have hword : (top - n) / 64 < 64 := Nat.div_lt_of_lt_mul hnear
  have hunmarked : window.bits.marked ((top - n) / 64) ((top - n) % 64) hword = false := by
    rw [Bitmap.marked_eq_test hword hoffset, Nat.div_add_mod, Bool.eq_false_iff]
    intro hbit
    obtain ⟨_, hmem⟩ := (h.marks top hmax _ hnear).1 hbit
    rw [Nat.sub_sub_self hn] at hmem
    exact hnew hmem
  refine ⟨{ window with bits := window.bits.mark ((top - n) / 64) ((top - n) % 64) hword }, ?_, ?_⟩
  · simp only [checkAndMark, hsome]
    rw [if_neg (Nat.not_lt.2 hn), dif_neg (Nat.not_le.2 hnear), hunmarked]
    rfl
  have hsame : (accepted ++ [n]).max? = some top := by
    rw [max?_snoc hmax, Nat.max_eq_left hn]
  refine ⟨hsome.trans hsame.symm, fun hnil => by simp at hnil, fun top' hmax' i hi => ?_⟩
  obtain rfl : top = top' := Option.some.inj (hsame.symm.trans hmax')
  rw [Bitmap.test_mark hword hoffset hi, Nat.div_add_mod]
  simp only [Bool.or_eq_true, decide_eq_true_eq, List.mem_append, List.mem_singleton,
    h.marks top hmax i hi]
  constructor
  · rintro (⟨hin, hmem⟩ | rfl)
    · exact ⟨hin, Or.inl hmem⟩
    · exact ⟨Nat.sub_le _ _, Or.inr (Nat.sub_sub_self hn)⟩
  · rintro ⟨hin, hmem | hself⟩
    · exact Or.inl ⟨hin, hmem⟩
    · exact Or.inr (by omega)

/-- The window lets a number through exactly if it is fresh, and marks it. -/
theorem Tracks.fresh (h : window.Tracks accepted) (hfresh : Fresh accepted n) :
    ∃ next, window.checkAndMark n = .ok next ∧ next.Tracks (accepted ++ [n]) := by
  obtain ⟨hnew, hreach⟩ := hfresh
  cases hmax : accepted.max? with
  | none =>
      obtain rfl := List.max?_eq_none_iff.1 hmax
      exact h.first
  | some top =>
      by_cases hn : n > top
      · exact h.ahead hmax hn
      · have hnear := (hreach top hmax).resolve_left hn
        exact h.behind hmax (Nat.not_lt.1 hn) hnear hnew

theorem Tracks.stale (h : window.Tracks accepted) (hstale : ¬ Fresh accepted n) :
    ∃ error, window.checkAndMark n = .error error := by
  cases hmax : accepted.max? with
  | none =>
      obtain rfl := List.max?_eq_none_iff.1 hmax
      exact absurd ⟨List.not_mem_nil, fun top htop => by cases htop⟩ hstale
  | some top =>
      have hsome : window.highest = some top := h.highest.trans hmax
      have hle := (List.max?_eq_some_iff.1 hmax).2
      have hn : ¬ n > top := by
        intro hn
        refine hstale ⟨fun hmem => Nat.not_lt.2 (hle n hmem) hn, fun top' hmax' => Or.inl ?_⟩
        rwa [← Option.some.inj (hmax.symm.trans hmax')]
      simp only [checkAndMark, hsome]
      rw [if_neg hn]
      by_cases hfar : top - n ≥ replayWindowSize
      · exact ⟨.tooOld, dif_pos hfar⟩
      · have hmem : n ∈ accepted := by
          by_contra hnew
          refine hstale ⟨hnew, fun top' hmax' => Or.inr ?_⟩
          rw [← Option.some.inj (hmax.symm.trans hmax')]
          exact Nat.not_le.1 hfar
        have hoffset : (top - n) % 64 < 64 := Nat.mod_lt _ (by decide)
        have hword : (top - n) / 64 < 64 := Nat.div_lt_of_lt_mul (Nat.not_le.1 hfar)
        have hmarked : window.bits.marked ((top - n) / 64) ((top - n) % 64) hword = true := by
          rw [Bitmap.marked_eq_test hword hoffset, Nat.div_add_mod,
            h.marks top hmax _ (Nat.not_le.1 hfar), Nat.sub_sub_self (Nat.not_lt.1 hn)]
          exact ⟨Nat.sub_le _ _, hmem⟩
        refine ⟨.duplicate, ?_⟩
        rw [dif_neg hfar, if_pos hmarked]

end ReplayWindow

/-! ## A sequence of datagrams -/

/-- A datagram, and the limit it is decoded under. -/
structure Received where
  bytes : Bytes
  limit : Nat
deriving DecidableEq, Repr

section

variable (suite : Suite) (crypto : PacketCrypto) (d : Received)

/-- The packet number of an authentic datagram: one with a header in order, the
right checksum, and a payload that opens under the inbound key. -/
def authenticNumber : Option Nat :=
  match decodeHeaderAndLengths d.bytes d.limit with
  | .error _ => none
  | .ok header =>
      let payload := d.bytes.drop header.headerLen
      let split := payload.length - aeadTagLen
      if header.flags.contains encryptedFlag ∧ aeadTagLen ≤ payload.length ∧
          crc32cWithZeroedRange d.bytes 26 30 = header.checksum then
        (suite.decrypt (crypto.keys.inboundKey crypto.role)
          (crypto.keys.packetNonce header.packetNumber)
          (zeroed (d.bytes.take fixedHeaderLen) 26 30)
          (payload.take split) (payload.drop split)).map fun _ => header.packetNumber
      else none

/-- The replay check has refused the datagram. -/
def replayRefused : Except ProtocolError Packet → Bool
  | .error (.crypto (.replay _)) => true
  | _ => false

/-- The packet number of an authentic datagram that passes the replay check. -/
def acceptedNumber : Option Nat :=
  (authenticNumber suite crypto d).filter fun _ =>
    !replayRefused (decodeEncryptedPacket suite d.bytes d.limit crypto).1

/-- What a sequence of datagrams makes of the receiver, and the numbers that
were accepted along the way. -/
def receiveAll (state : PacketCrypto × List Nat) (datagrams : List Received) :
    PacketCrypto × List Nat :=
  datagrams.foldl (fun (crypto, accepted) d =>
    ((decodeEncryptedPacket suite d.bytes d.limit crypto).2,
      accepted ++ (acceptedNumber suite crypto d).toList)) state

variable {suite crypto d}

/-- A datagram that is not authentic is refused, not as a replay, and changes
nothing. -/
theorem decodeEncrypted_forged (h : authenticNumber suite crypto d = none) :
    ∃ e, decodeEncryptedPacket suite d.bytes d.limit crypto = (.error e, crypto) := by
  unfold authenticNumber at h
  unfold decodeEncryptedPacket
  cases hheader : decodeHeaderAndLengths d.bytes d.limit with
  | error e => exact ⟨e, rfl⟩
  | ok header =>
      simp only [hheader] at h
      by_cases hflag : header.flags.contains encryptedFlag = true
      · by_cases hlen : (d.bytes.drop header.headerLen).length < aeadTagLen
        · refine ⟨.crypto .encryptedPayloadTooShort, ?_⟩
          simp only [bind, Except.bind, hflag, hlen, if_true]
          rfl
        · by_cases hcrc : crc32cWithZeroedRange d.bytes 26 30 = header.checksum
          · rw [if_pos ⟨hflag, Nat.not_lt.1 hlen, hcrc⟩, Option.map_eq_none_iff] at h
            refine ⟨.crypto .authenticationFailed, ?_⟩
            simp only [bind, Except.bind, hflag, Bool.not_true, Bool.false_eq_true, if_false, hlen,
              verifyChecksum, ne_eq, hcrc, not_true_eq_false, PacketCrypto.openPacket, h]
            rfl
          · refine ⟨.checksumMismatch (crc32cWithZeroedRange d.bytes 26 30) header.checksum, ?_⟩
            simp only [bind, Except.bind, hflag, Bool.not_true, Bool.false_eq_true, if_false, hlen,
              verifyChecksum, ne_eq, hcrc, not_false_eq_true, if_true]
      · refine ⟨.invalidFlags header.flags.bits, ?_⟩
        simp only [bind, Except.bind, hflag]
        rfl

/-- An authentic datagram is refused as a replay if the window refuses its
number; else the window it leaves is the marked one. -/
theorem decodeEncrypted_authentic {n : Nat} (h : authenticNumber suite crypto d = some n) :
    (∀ e, crypto.replay.checkAndMark n = .error e →
      decodeEncryptedPacket suite d.bytes d.limit crypto = (.error (.crypto (.replay e)), crypto)) ∧
    ∀ next, crypto.replay.checkAndMark n = .ok next →
      (decodeEncryptedPacket suite d.bytes d.limit crypto).2 = { crypto with replay := next } ∧
      replayRefused (decodeEncryptedPacket suite d.bytes d.limit crypto).1 = false := by
  unfold authenticNumber at h
  cases hheader : decodeHeaderAndLengths d.bytes d.limit with
  | error e => simp only [hheader] at h; cases h
  | ok header =>
      simp only [hheader] at h
      split at h
      · next hok =>
          obtain ⟨hflag, hlen, hcrc⟩ := hok
          obtain ⟨plaintext, hopen, rfl⟩ := Option.map_eq_some_iff.1 h
          have hlen := Nat.not_lt.2 hlen
          refine ⟨fun e he => ?_, fun next hnext => ?_⟩
          · unfold decodeEncryptedPacket
            simp only [hheader, bind, Except.bind, hflag, Bool.not_true, Bool.false_eq_true,
              if_false, hlen, verifyChecksum, ne_eq, hcrc, not_true_eq_false,
              PacketCrypto.openPacket, hopen, he]
            rfl
          · unfold decodeEncryptedPacket
            simp only [hheader, bind, Except.bind, hflag, Bool.not_true, Bool.false_eq_true,
              if_false, hlen, verifyChecksum, ne_eq, hcrc, not_true_eq_false,
              PacketCrypto.openPacket, hopen,
              hnext]
            refine ⟨rfl, ?_⟩
            dsimp only [pure, Except.pure]
            cases hframes : decodeFrames plaintext with
            | ok frames => rfl
            | error e =>
                have hplain := decodeFrames_plain hframes
                cases e with
                | crypto e => cases hplain
                | _ => rfl
      · cases h

theorem acceptedNumber_forged (h : authenticNumber suite crypto d = none) :
    acceptedNumber suite crypto d = none := by
  rw [acceptedNumber, h]
  rfl

/-- One datagram keeps the window true to the accepted numbers. -/
theorem tracks_step {accepted : List Nat} (h : crypto.replay.Tracks accepted) :
    (decodeEncryptedPacket suite d.bytes d.limit crypto).2.replay.Tracks
      (accepted ++ (acceptedNumber suite crypto d).toList) := by
  cases hn : authenticNumber suite crypto d with
  | none =>
      obtain ⟨e, he⟩ := decodeEncrypted_forged hn
      rw [he, acceptedNumber_forged hn, Option.toList_none, List.append_nil]
      exact h
  | some n =>
      obtain ⟨hrefused, hpassed⟩ := decodeEncrypted_authentic hn
      by_cases hfresh : Fresh accepted n
      · obtain ⟨next, hnext, htracks⟩ := h.fresh hfresh
        obtain ⟨hcrypto, hpass⟩ := hpassed next hnext
        have haccepted : acceptedNumber suite crypto d = some n := by
          rw [acceptedNumber, hn, Option.filter_some, hpass]
          rfl
        rw [hcrypto, haccepted]
        exact htracks
      · obtain ⟨e, he⟩ := h.stale hfresh
        have haccepted : acceptedNumber suite crypto d = none := by
          rw [acceptedNumber, hn, Option.filter_some, hrefused e he]
          rfl
        rw [hrefused e he, haccepted, Option.toList_none, List.append_nil]
        exact h

theorem tracks_run {accepted : List Nat} (datagrams : List Received)
    (h : crypto.replay.Tracks accepted) :
    (receiveAll suite (crypto, accepted) datagrams).1.replay.Tracks
      (receiveAll suite (crypto, accepted) datagrams).2 := by
  induction datagrams generalizing crypto accepted with
  | nil => exact h
  | cons d datagrams ih => exact ih (tracks_step h)

end

/-- Replay protection is exact. After any sequence of datagrams an authentic
one passes the replay check exactly if its number has not been accepted before
and is above, or less than 4096 below, the highest number accepted so far; and
one that is not authentic leaves the window alone. -/
theorem replay_exact (suite : Suite) (role : CryptoRole) (keys : SessionKeys)
    (datagrams : List Received) (d : Received) :
    let (crypto, accepted) := receiveAll suite (.new role keys, []) datagrams
    let (result, next) := decodeEncryptedPacket suite d.bytes d.limit crypto
    match authenticNumber suite crypto d with
    | some n => replayRefused result = false ↔
        n ∉ accepted ∧ ∀ highest, accepted.max? = some highest → n > highest ∨ highest - n < 4096
    | none => next.replay = crypto.replay := by
  have htracks : (receiveAll suite (.new role keys, []) datagrams).1.replay.Tracks _ :=
    tracks_run datagrams ReplayWindow.tracks_new
  generalize receiveAll suite (.new role keys, []) datagrams = state at htracks ⊢
  obtain ⟨crypto, accepted⟩ := state
  dsimp only at htracks ⊢
  cases hn : authenticNumber suite crypto d with
  | none =>
      obtain ⟨e, he⟩ := decodeEncrypted_forged hn
      dsimp only
      rw [he]
  | some n =>
      obtain ⟨hrefused, hpassed⟩ := decodeEncrypted_authentic hn
      dsimp only
      show _ ↔ Fresh accepted n
      constructor
      · intro hpass
        by_contra hstale
        obtain ⟨e, he⟩ := htracks.stale hstale
        rw [hrefused e he] at hpass
        cases hpass
      · intro hfresh
        obtain ⟨next, hnext, -⟩ := htracks.fresh hfresh
        exact (hpassed next hnext).2

end DartUdp.Udp
