import DartUdp.Lib.Machine
import DartUdp.Udp.Wire

/-!
# Retry cookies

A server that is asked for a connection may answer with a cookie and keep nothing:
the cookie says when it was issued, and a truncated MAC under the secret of the
server binds it to the address, the connection and the nonce it was issued for.

HMAC-SHA256 comes from another crate and is a parameter.
-/

namespace DartUdp.Udp

open DartUdp.Lib

def cookieVersion : UInt8 := 1

def timestampLen : Nat := 8

def tagLen : Nat := 16

def cookieLen : Nat := 1 + timestampLen + tagLen

inductive RetryError where
  | invalidConfig
  | randomnessUnavailable
deriving DecidableEq, Repr

/-- `SocketAddr`. -/
inductive SocketAddr where
  | v4 (octets : Vector UInt8 4) (port : UInt16)
  | v6 (octets : Vector UInt8 16) (port : UInt16) (flowinfo scopeId : UInt32)
deriving DecidableEq, Repr

/-- `SystemTime`: nanoseconds after the epoch, or before it. Its seconds are an `i64`. -/
structure SystemTime where
  nanos : Int
  bound : nanos < 2 ^ 63 * 10 ^ 9

/-- `Duration::as_secs`, of nanoseconds. -/
def asSecs (duration : Nat) : Nat := duration / 10 ^ 9

structure CookieContext where
  peer : SocketAddr
  connectionId : UInt64
  clientNonce : Vector UInt8 nonceLen
  cookieTtl : Nat
  clockSkew : Nat

/-- `unix_seconds`. -/
def unixSeconds (now : SystemTime) : Except RetryError Nat :=
  if now.nanos < 0 then .error .invalidConfig else .ok (asSecs now.nanos.toNat)

/-! ## What is signed -/

/-- `encode_addr`. -/
def encodeAddr : SocketAddr → Bytes
  | .v4 octets port => 4 :: (octets.toList ++ beBytes 2 port.toNat)
  | .v6 octets port flowinfo scopeId =>
      6 :: (octets.toList ++ (beBytes 2 port.toNat ++
        (beBytes 4 flowinfo.toNat ++ beBytes 4 scopeId.toNat)))

/-- What `update_mac` feeds to the MAC. -/
def macInput (peer : SocketAddr) (connectionId : UInt64) (clientNonce : Vector UInt8 nonceLen)
    (timestamp : Nat) : Bytes :=
  ascii "reliable-udp retry cookie v1" ++ (encodeAddr peer ++
    (beBytes 8 connectionId.toNat ++ (clientNonce.toList ++ beBytes 8 timestamp)))

section

variable (hmac : (secret : Vector UInt8 32) → (message : Bytes) → Vector UInt8 32)

/-- The first bytes of `sign`. -/
def signTag (secret : Vector UInt8 32) (peer : SocketAddr) (connectionId : UInt64)
    (clientNonce : Vector UInt8 nonceLen) (timestamp : Nat) : Bytes :=
  (hmac secret (macInput peer connectionId clientNonce timestamp)).toList.take tagLen

/-! ## Issuing and checking -/

/-- `issue_cookie`. -/
def issueCookie (secret : Vector UInt8 32) (peer : SocketAddr) (connectionId : UInt64)
    (clientNonce : Vector UInt8 nonceLen) (now : SystemTime) : Except RetryError Bytes := do
  let timestamp ← unixSeconds now
  return [cookieVersion] ++ (beBytes timestampLen timestamp ++
    signTag hmac secret peer connectionId clientNonce timestamp)

/-- `validate_cookie`. -/
def validateCookie (secret : Vector UInt8 32) (cookie : Bytes) (now : SystemTime)
    (context : CookieContext) : Bool :=
  if cookie.length ≠ cookieLen ∨ cookie.head? ≠ some cookieVersion then false
  else
    let timestamp := ofBe ((cookie.drop 1).take timestampLen)
    match unixSeconds now with
    | .error _ => false
    | .ok nowSeconds =>
        let allowedFuture := asSecs context.clockSkew
        if timestamp > saturatingAdd nowSeconds allowedFuture ∨
            nowSeconds - timestamp > saturatingAdd (asSecs context.cookieTtl) allowedFuture then
          false
        else
          signTag hmac secret context.peer context.connectionId context.clientNonce timestamp ==
            cookie.drop (1 + timestampLen)

end

end DartUdp.Udp
