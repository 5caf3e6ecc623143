import DartUdp.Lib.Bitmap
import DartUdp.Udp.Wire

/-!
# Session keys and protected packets

The primitives themselves come from other crates: X25519, SHA-256, HKDF-SHA256,
HMAC-SHA256 and ChaCha20-Poly1305. A `Suite` stands for them. What is built on
them here is the program's own: the transcript, the key schedule, the Finished
tags, the nonces and the replay window.
-/

namespace DartUdp.Udp

open DartUdp.Lib

def aeadKeyLen : Nat := 32

def aeadTagLen : Nat := 16

def packetNonceLen : Nat := 12

def replayWindowSize : Nat := 4096

/-- The cryptographic primitives. `encrypt` is `encrypt_in_place_detached`: it
answers a ciphertext as long as the plaintext, and a tag of sixteen bytes. -/
structure Suite where
  /-- `PublicKey::from(&secret)`. -/
  publicKey : Bytes → Bytes
  /-- `StaticSecret::diffie_hellman`. -/
  diffieHellman : Bytes → Bytes → Bytes
  sha256 : Bytes → Bytes
  /-- `Hkdf::<Sha256>::new(Some(salt), secret).expand(info, length)`. -/
  hkdf : (salt secret info : Bytes) → (length : Nat) → Option Bytes
  hmac : (key message : Bytes) → Bytes
  encrypt : (key nonce associatedData plaintext : Bytes) → Option (Bytes × Bytes)
  decrypt : (key nonce associatedData ciphertext tag : Bytes) → Option Bytes
  encrypt_length : ∀ {key nonce associatedData plaintext ciphertext tag},
    encrypt key nonce associatedData plaintext = some (ciphertext, tag) →
      ciphertext.length = plaintext.length ∧ tag.length = aeadTagLen

inductive CryptoRole where
  | client
  | server
deriving DecidableEq, Repr

/-- `EphemeralKeyPair`: the secret determines the public key. -/
structure EphemeralKeyPair where
  secret : Bytes
deriving DecidableEq, Repr

structure SessionKeys where
  clientToServer : Bytes
  serverToClient : Bytes
  finished : Bytes
  nonceSalt : Bytes
deriving DecidableEq, Repr

section

variable (suite : Suite)

/-- `EphemeralKeyPair::public_key`. -/
def EphemeralKeyPair.publicKey (pair : EphemeralKeyPair) : Bytes := suite.publicKey pair.secret

/-- `EphemeralKeyPair::agree`: an all-zero secret is refused. -/
def EphemeralKeyPair.agree (pair : EphemeralKeyPair) (peerPublicKey : Bytes) :
    Except CryptoError Bytes :=
  let sharedSecret := suite.diffieHellman pair.secret peerPublicKey
  if sharedSecret = List.replicate x25519PublicKeyLen 0 then .error .invalidPeerPublicKey
  else .ok sharedSecret

/-- `handshake_transcript_hash`. -/
def handshakeTranscriptHash (connectionId : Nat)
    (clientNonce serverNonce clientPublicKey serverPublicKey : Bytes) : Bytes :=
  suite.sha256 (ascii "udp-protocol/v2/x25519-chacha20poly1305" ++ beBytes 8 connectionId ++
    clientNonce ++ serverNonce ++ clientPublicKey ++ serverPublicKey)

/-- One `hkdf.expand` of `derive_session_keys`. -/
def expand (transcriptHash sharedSecret : Bytes) (info : String) (length : Nat) :
    Except CryptoError Bytes :=
  match suite.hkdf transcriptHash sharedSecret (ascii info) length with
  | some key => .ok key
  | none => .error .keyDerivationFailed

/-- `derive_session_keys`. -/
def deriveSessionKeys (sharedSecret transcriptHash : Bytes) : Except CryptoError SessionKeys := do
  if sharedSecret = List.replicate x25519PublicKeyLen 0 then throw .invalidSharedSecret
  let expand := expand suite transcriptHash sharedSecret
  let clientToServer ← expand "udp-protocol/v2/client-to-server" aeadKeyLen
  let serverToClient ← expand "udp-protocol/v2/server-to-client" aeadKeyLen
  let finished ← expand "udp-protocol/v2/finished" aeadKeyLen
  let nonceSalt ← expand "udp-protocol/v2/packet-nonce" 4
  return ⟨clientToServer, serverToClient, finished, nonceSalt⟩

namespace SessionKeys

/-- `SessionKeys::finished_tag`; HMAC takes a key of any length. -/
def finishedTag (keys : SessionKeys) (role : CryptoRole) (transcriptHash : Bytes) : Bytes :=
  let roleByte : UInt8 := match role with
    | .client => 0
    | .server => 1
  (suite.hmac keys.finished
    (ascii "udp-protocol/v2/finished" ++ [roleByte] ++ transcriptHash)).take finishedTagLen

/-- `SessionKeys::verify_finished`. -/
def verifyFinished (keys : SessionKeys) (role : CryptoRole) (transcriptHash received : Bytes) :
    Except CryptoError Unit :=
  if keys.finishedTag suite role transcriptHash ≠ received then .error .authenticationFailed
  else .ok ()

end SessionKeys

end

namespace SessionKeys

/-- `SessionKeys::outbound_key`. -/
def outboundKey (keys : SessionKeys) : CryptoRole → Bytes
  | .client => keys.clientToServer
  | .server => keys.serverToClient

/-- `SessionKeys::inbound_key`. -/
def inboundKey (keys : SessionKeys) : CryptoRole → Bytes
  | .client => keys.serverToClient
  | .server => keys.clientToServer

/-- `SessionKeys::packet_nonce`. -/
def packetNonce (keys : SessionKeys) (packetNumber : Nat) : Bytes :=
  keys.nonceSalt ++ beBytes 8 packetNumber

end SessionKeys

/-! ## The replay window -/

/-- The highest number seen, and one bit for each of the 4096 numbers up to it:
bit `i` of word `w` stands for the number `64 * w + i` below the highest. -/
structure ReplayWindow where
  highest : Option Nat := none
  bits : Bitmap 64 64 := Vector.replicate 64 0
deriving DecidableEq, Repr

namespace ReplayWindow

/-- `ReplayWindow::shift_older_bits`. -/
def shiftOlderBits (window : ReplayWindow) (shift : Nat) : ReplayWindow :=
  { window with bits := window.bits.shift shift }

/-- `ReplayWindow::check_and_mark`. The words of the bitmap are 4096 / 64. -/
def checkAndMark (window : ReplayWindow) (packetNumber : Nat) :
    Except ReplayError ReplayWindow :=
  match window.highest with
  | none => .ok { highest := some packetNumber, bits := window.bits.set 0 1 (Nat.succ_pos 63) }
  | some highest =>
      if packetNumber > highest then
        let shift := packetNumber - highest
        let older := if shift ≥ replayWindowSize then { window with bits := Vector.replicate 64 0 }
          else window.shiftOlderBits shift
        .ok { highest := some packetNumber, bits := older.bits.mark 0 0 (Nat.succ_pos 63) }
      else
        let distance := highest - packetNumber
        if tooOld : distance ≥ replayWindowSize then .error .tooOld
        else
          have inside : distance / 64 < 64 := Nat.div_lt_of_lt_mul (Nat.not_le.mp tooOld)
          if window.bits.marked (distance / 64) (distance % 64) inside then .error .duplicate
          else .ok { window with bits := window.bits.mark (distance / 64) (distance % 64) inside }

end ReplayWindow

/-! ## Sealing and opening packets -/

structure PacketCrypto where
  role : CryptoRole
  keys : SessionKeys
  replay : ReplayWindow
deriving DecidableEq, Repr

namespace PacketCrypto

/-- `PacketCrypto::new`. -/
def new (role : CryptoRole) (keys : SessionKeys) : PacketCrypto := ⟨role, keys, {}⟩

variable (suite : Suite) (crypto : PacketCrypto)

/-- `PacketCrypto::seal`. -/
def sealPacket (packetNumber : Nat) (associatedData plaintext : Bytes) : Except CryptoError Bytes :=
  match suite.encrypt (crypto.keys.outboundKey crypto.role) (crypto.keys.packetNonce packetNumber)
    associatedData plaintext with
  | some (ciphertext, tag) => .ok (ciphertext ++ tag)
  | none => .error .authenticationFailed

/-- `PacketCrypto::open`. The window is only marked once the packet has been
authenticated. -/
def openPacket (packetNumber : Nat) (associatedData ciphertext : Bytes) :
    Except CryptoError (Bytes × PacketCrypto) :=
  if ciphertext.length < aeadTagLen then .error .encryptedPayloadTooShort
  else
    let split := ciphertext.length - aeadTagLen
    match suite.decrypt (crypto.keys.inboundKey crypto.role)
      (crypto.keys.packetNonce packetNumber) associatedData (ciphertext.take split)
      (ciphertext.drop split) with
    | none => .error .authenticationFailed
    | some plaintext =>
        match crypto.replay.checkAndMark packetNumber with
        | .error error => .error (.replay error)
        | .ok replay => .ok (plaintext, { crypto with replay := replay })

end PacketCrypto

end DartUdp.Udp
