import DartUdp.Session.Message

/-!
# The values of the control protocol

Numbers have the width they have in the source. A text carries the proof that it
is UTF-8 and a pairing code the proof that it is one, so a message that can be
built at all is one the source can build.
-/

namespace DartUdp.Protocol

open DartUdp.Lib
open DartUdp.Transfer (TransferId FileId Digest HashAlgorithm OverwritePolicy maxPathLen)
open DartUdp.Session (PathId RelayId CryptoSuite AcceptDecision PathKind RelayCloseReason
  FileRejectReason TransferErrorScope maxManifestFiles)

inductive ProtocolError where
  | messageTooShort (minimum actual : Nat)
  | messageTooLarge (maximum actual : Nat)
  | declaredLengthMismatch (declared actual : Nat)
  | unsupportedVersion (version : UInt8)
  | unknownMessageType (value : UInt8)
  | invalidFlags (value : UInt16)
  | truncated (context : String)
  | invalidValue (field : String)
  | invalidUtf8 (field : String)
  | fieldTooLarge (field : String) (maximum actual : Nat)
  | tooManyItems (field : String) (maximum actual : Nat)
  | invalidPairingCode
  | randomnessUnavailable
deriving DecidableEq, Repr

/-! ## Identifiers, tickets and texts -/

abbrev PairingId := Transfer.Id

abbrev ClientInstanceId := Transfer.Id

abbrev CandidateId := Transfer.Id

abbrev TransactionId := Transfer.Id

abbrev CheckToken := Vector UInt8 32

abbrev SessionTicket := Bytes

/-- A `String` of the source. -/
structure Text where
  bytes : Bytes
  valid : utf8Valid bytes = true
deriving DecidableEq

/-- An ASCII literal of the source. -/
def Text.ofAscii (literal : String)
    (h : ∀ byte ∈ ascii literal, byte < 0x80 := by decide +kernel) : Text :=
  ⟨ascii literal, utf8Valid_of_ascii h⟩

/-! ## Pairing codes -/

def pairingCodeMinLen : Nat := 8

def pairingCodeMaxLen : Nat := 10

def crockfordAlphabet : Bytes := ascii "0123456789ABCDEFGHJKMNPQRSTVWXYZ"

/-- `u8::to_ascii_uppercase`. -/
def toAsciiUppercase (byte : UInt8) : UInt8 := if 97 ≤ byte ∧ byte ≤ 122 then byte - 32 else byte

structure PairingCode where
  bytes : Bytes
  minLen : pairingCodeMinLen ≤ bytes.length
  maxLen : bytes.length ≤ pairingCodeMaxLen
  symbols : ∀ byte ∈ bytes, byte ∈ crockfordAlphabet
deriving DecidableEq

/-- `PairingCode::parse`: small letters count as capitals. -/
def PairingCode.parse (value : Bytes) : Except ProtocolError PairingCode :=
  if h : (pairingCodeMinLen ≤ value.length ∧ value.length ≤ pairingCodeMaxLen) ∧
      value.all (toAsciiUppercase · ∈ crockfordAlphabet) then
    .ok {
      bytes := value.map toAsciiUppercase
      minLen := by simpa using h.1.1
      maxLen := by simpa using h.1.2
      symbols := by simpa using h.2 }
  else .error .invalidPairingCode

/-- The five bits that the loop of `generate_with_len` takes for symbol `index` of a
code. -/
def PairingCode.symbolAt (random : Vector UInt8 7) (byteLen index : Nat)
    (hindex : index < pairingCodeMaxLen) : Nat :=
  let bitOffset := index * 5
  let byteIndex := bitOffset / 8
  let intraByteOffset := bitOffset % 8
  have hbyte : byteIndex + 1 < 7 := by
    simp only [pairingCodeMaxLen] at hindex
    omega
  let value := random[byteIndex].toNat <<< 8
  -- At the last byte there is no second one.
  let value := if byteIndex + 1 < byteLen then value ||| random[byteIndex + 1].toNat else value
  (value >>> (11 - intraByteOffset)) &&& 0x1f

theorem length_crockfordAlphabet : crockfordAlphabet.length = 32 := by decide +kernel

theorem PairingCode.symbolAt_lt {random : Vector UInt8 7} {byteLen index : Nat}
    {hindex : index < pairingCodeMaxLen} :
    PairingCode.symbolAt random byteLen index hindex < crockfordAlphabet.length := by
  rw [length_crockfordAlphabet]
  exact Nat.lt_succ_of_le Nat.and_le_right

/-- The seven bytes of `random`, the first of them filled. -/
def PairingCode.buffer {byteLen : Nat} (filled : Vector UInt8 byteLen) : Vector UInt8 7 :=
  Vector.ofFn fun i : Fin 7 => if hi : i < byteLen then filled[i] else 0

/-- `PairingCode::generate_with_len`, where `fill` is `getrandom::fill` on a buffer of
the length it is asked for. -/
def PairingCode.generateWithLen (fill : (len : Nat) → Option (Vector UInt8 len)) (length : Nat) :
    Except ProtocolError PairingCode :=
  if h : pairingCodeMinLen ≤ length ∧ length ≤ pairingCodeMaxLen then
    let byteLen := (length * 5 + 7) / 8
    match fill byteLen with
    | none => .error .randomnessUnavailable
    | some filled =>
        .ok {
          bytes := List.ofFn fun index : Fin length => crockfordAlphabet.get
            ⟨symbolAt (buffer filled) byteLen index (index.isLt.trans_le h.2), symbolAt_lt⟩
          minLen := by simpa using h.1
          maxLen := by simpa using h.2
          symbols := fun byte hbyte => by
            obtain ⟨index, rfl⟩ := List.mem_ofFn.1 hbyte
            exact List.get_mem _ _ }
  else .error (.invalidValue "pairing code length")

/-! ## Enumerations -/

/-- A `repr(u8)` enumeration and its `TryFrom<u8>`. -/
class ByteEnum (α : Type) where
  toU8 : α → UInt8
  tryFrom : UInt8 → Except ProtocolError α
  tryFrom_toU8 : ∀ value, tryFrom (toU8 value) = .ok value
  toU8_of_tryFrom : ∀ {byte value}, tryFrom byte = .ok value → toU8 value = byte

open ByteEnum (toU8 tryFrom)

instance : ByteEnum HashAlgorithm where
  toU8
    | .blake3 => 1
    | .sha256 => 2
  tryFrom
    | 1 => .ok .blake3
    | 2 => .ok .sha256
    | _ => .error (.invalidValue "hash algorithm")
  tryFrom_toU8 value := by cases value <;> rfl
  toU8_of_tryFrom h := by split at h <;> cases h <;> rfl

inductive TransferRole where
  | offerer
  | accepter
deriving DecidableEq, Repr

instance : ByteEnum TransferRole where
  toU8
    | .offerer => 1
    | .accepter => 2
  tryFrom
    | 1 => .ok .offerer
    | 2 => .ok .accepter
    | _ => .error (.invalidValue "transfer role")
  tryFrom_toU8 value := by cases value <;> rfl
  toU8_of_tryFrom h := by split at h <;> cases h <;> rfl

inductive Capability where
  | upload
deriving DecidableEq, Repr

instance : ByteEnum Capability where
  toU8
    | .upload => 1
  tryFrom
    | 1 => .ok .upload
    | _ => .error (.invalidValue "capability")
  tryFrom_toU8 _ := rfl
  toU8_of_tryFrom h := by
    split at h
    · rfl
    · cases h

instance : ByteEnum AcceptDecision where
  toU8
    | .accept => 1
    | .reject => 2
  tryFrom
    | 1 => .ok .accept
    | 2 => .ok .reject
    | _ => .error (.invalidValue "decision")
  tryFrom_toU8 value := by cases value <;> rfl
  toU8_of_tryFrom h := by split at h <;> cases h <;> rfl

inductive CandidateKind where
  | host
  | routedLan
  | serverReflexive
  | peerReflexive
  | relay
deriving DecidableEq, Repr

instance : ByteEnum CandidateKind where
  toU8
    | .host => 1
    | .routedLan => 2
    | .serverReflexive => 3
    | .peerReflexive => 4
    | .relay => 5
  tryFrom
    | 1 => .ok .host
    | 2 => .ok .routedLan
    | 3 => .ok .serverReflexive
    | 4 => .ok .peerReflexive
    | 5 => .ok .relay
    | _ => .error (.invalidValue "candidate kind")
  tryFrom_toU8 value := by cases value <;> rfl
  toU8_of_tryFrom h := by split at h <;> cases h <;> rfl

instance : ByteEnum PathKind where
  toU8
    | .host => 1
    | .routedLan => 2
    | .reflexiveDirect => 3
    | .relay => 4
  tryFrom
    | 1 => .ok .host
    | 2 => .ok .routedLan
    | 3 => .ok .reflexiveDirect
    | 4 => .ok .relay
    | _ => .error (.invalidValue "path kind")
  tryFrom_toU8 value := by cases value <;> rfl
  toU8_of_tryFrom h := by split at h <;> cases h <;> rfl

instance : ByteEnum RelayCloseReason where
  toU8
    | .complete => 1
    | .cancelled => 2
    | .failed => 3
    | .expired => 4
  tryFrom
    | 1 => .ok .complete
    | 2 => .ok .cancelled
    | 3 => .ok .failed
    | 4 => .ok .expired
    | _ => .error (.invalidValue "relay close reason")
  tryFrom_toU8 value := by cases value <;> rfl
  toU8_of_tryFrom h := by split at h <;> cases h <;> rfl

instance : ByteEnum CryptoSuite where
  toU8
    | .insecureTesting => 0
    | .x25519ChaCha20Poly1305 => 1
  tryFrom
    | 0 => .ok .insecureTesting
    | 1 => .ok .x25519ChaCha20Poly1305
    | _ => .error (.invalidValue "crypto suite")
  tryFrom_toU8 value := by cases value <;> rfl
  toU8_of_tryFrom h := by split at h <;> cases h <;> rfl

instance : ByteEnum OverwritePolicy where
  toU8
    | .ask => 1
    | .noReplace => 2
    | .replaceAfterConfirm => 3
    | .renameWithSuffix => 4
  tryFrom
    | 1 => .ok .ask
    | 2 => .ok .noReplace
    | 3 => .ok .replaceAfterConfirm
    | 4 => .ok .renameWithSuffix
    | _ => .error (.invalidValue "overwrite policy")
  tryFrom_toU8 value := by cases value <;> rfl
  toU8_of_tryFrom h := by split at h <;> cases h <;> rfl

instance : ByteEnum FileRejectReason where
  toU8
    | .policy => 1
    | .alreadyExists => 2
    | .invalidPath => 3
    | .storageError => 4
    | .integrityError => 5
  tryFrom
    | 1 => .ok .policy
    | 2 => .ok .alreadyExists
    | 3 => .ok .invalidPath
    | 4 => .ok .storageError
    | 5 => .ok .integrityError
    | _ => .error (.invalidValue "file reject reason")
  tryFrom_toU8 value := by cases value <;> rfl
  toU8_of_tryFrom h := by split at h <;> cases h <;> rfl

instance : ByteEnum TransferErrorScope where
  toU8
    | .session => 1
    | .file => 2
    | .path => 3
  tryFrom
    | 1 => .ok .session
    | 2 => .ok .file
    | 3 => .ok .path
    | _ => .error (.invalidValue "transfer error scope")
  tryFrom_toU8 value := by cases value <;> rfl
  toU8_of_tryFrom h := by split at h <;> cases h <;> rfl

/-! ## Addresses -/

inductive SocketAddr where
  | v4 (ip : Vector UInt8 4) (port : UInt16)
  | v6 (ip : Vector UInt8 16) (port : UInt16) (flowinfo scopeId : UInt32)
deriving DecidableEq, Repr

/-- `IpAddr::is_unspecified` of the address. -/
def SocketAddr.isUnspecified : SocketAddr → Bool
  | .v4 ip _ => ip.toList.all (· == 0)
  | .v6 ip _ _ _ => ip.toList.all (· == 0)

/-- `IpAddr::is_multicast` of the address. -/
def SocketAddr.isMulticast : SocketAddr → Bool
  | .v4 ip _ => decide ((224 : UInt8) ≤ ip[0] ∧ ip[0] ≤ 239)
  | .v6 ip _ _ _ => ip[0] == 255

def SocketAddr.port : SocketAddr → UInt16
  | .v4 _ port => port
  | .v6 _ port _ _ => port

/-- What both `Candidate::validate` and `PathCheck::validate` refuse. -/
def SocketAddr.unusable (address : SocketAddr) : Bool :=
  address.isUnspecified || address.isMulticast || address.port == 0

end DartUdp.Protocol
