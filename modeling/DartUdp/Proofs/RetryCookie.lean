import Mathlib.Data.Fin.VecNotation
import DartUdp.Lib.Writers
import DartUdp.Udp.Retry

/-!
# When a retry cookie is accepted

The address is written with its family in front, and everything after it has one
length, so what is signed determines the address, the connection, the nonce and the
time. The two comparisons of the clocks saturate, but neither can be wrong for it:
the time in a cookie has eight bytes, and no difference of two times is larger. What
is left is one interval around the time of issue.

The module is for `validateCookie_iff`. `macInput_injective` is the first of these
facts, `saturates` the second, and `validateCookie_issued` checks a cookie as it was
issued.
-/

namespace DartUdp.Udp

open DartUdp.Lib

section

variable {hmac : (secret : Vector UInt8 32) → (message : Bytes) → Vector UInt8 32}
  {secret : Vector UInt8 32} {peer : SocketAddr} {connectionId : UInt64}
  {clientNonce : Vector UInt8 nonceLen} {issued checked : SystemTime} {cookie : Bytes}
  {context : CookieContext} {t t₂ : Nat}

/-! ## What is signed -/

theorem u16_delimited : Delimited (fun _ => True) fun v : UInt16 => beBytes 2 v.toNat :=
  (Delimited.beBytes 2).comp (fun _ _ _ _ h => UInt16.toNat_inj.1 h) fun v _ => v.toNat_lt

theorem u32_delimited : Delimited (fun _ => True) fun v : UInt32 => beBytes 4 v.toNat :=
  (Delimited.beBytes 4).comp (fun _ _ _ _ h => UInt32.toNat_inj.1 h) fun v _ => v.toNat_lt

theorem u64_delimited : Delimited (fun _ => True) fun v : UInt64 => beBytes 8 v.toNat :=
  (Delimited.beBytes 8).comp (fun _ _ _ _ h => UInt64.toNat_inj.1 h) fun v _ => v.toNat_lt

theorem encodeAddr_delimited : Delimited (fun _ => True) encodeAddr := by
  intro a b _ _ x y heq
  cases a with
  | v4 octets port =>
      cases b with
      | v4 octets' port' =>
          simp only [encodeAddr, List.cons_append, List.append_assoc] at heq
          obtain ⟨-, h₁⟩ := List.cons_eq_cons.1 heq
          obtain ⟨rfl, h₂⟩ := Delimited.vector 4 trivial trivial h₁
          obtain ⟨rfl, h₃⟩ := u16_delimited trivial trivial h₂
          exact ⟨rfl, h₃⟩
      | v6 octets' port' flowinfo' scopeId' =>
          obtain ⟨hfamily, -⟩ := List.cons_eq_cons.1 heq
          exact absurd hfamily (by decide)
  | v6 octets port flowinfo scopeId =>
      cases b with
      | v4 octets' port' =>
          obtain ⟨hfamily, -⟩ := List.cons_eq_cons.1 heq
          exact absurd hfamily (by decide)
      | v6 octets' port' flowinfo' scopeId' =>
          simp only [encodeAddr, List.cons_append, List.append_assoc] at heq
          obtain ⟨-, h₁⟩ := List.cons_eq_cons.1 heq
          obtain ⟨rfl, h₂⟩ := Delimited.vector 16 trivial trivial h₁
          obtain ⟨rfl, h₃⟩ := u16_delimited trivial trivial h₂
          obtain ⟨rfl, h₄⟩ := u32_delimited trivial trivial h₃
          obtain ⟨rfl, h₅⟩ := u32_delimited trivial trivial h₄
          exact ⟨rfl, h₅⟩

/-- What is signed at one time determines what it is signed for. -/
theorem macInput_injective {peer' : SocketAddr} {connectionId' : UInt64}
    {clientNonce' : Vector UInt8 nonceLen}
    (heq : macInput peer connectionId clientNonce t =
      macInput peer' connectionId' clientNonce' t) :
    peer = peer' ∧ connectionId = connectionId' ∧ clientNonce = clientNonce' := by
  have h₁ := List.append_cancel_left heq
  obtain ⟨hpeer, h₂⟩ := encodeAddr_delimited trivial trivial h₁
  obtain ⟨hid, h₃⟩ := u64_delimited trivial trivial h₂
  obtain ⟨hnonce, -⟩ := Delimited.vector nonceLen trivial trivial h₃
  exact ⟨hpeer, hid, hnonce⟩

/-- Two inputs of the MAC with one tag are one. -/
def NoCollision (hmac : (secret : Vector UInt8 32) → (message : Bytes) → Vector UInt8 32)
    (secret : Vector UInt8 32) (x y : Bytes) : Prop :=
  (hmac secret x).toList.take tagLen = (hmac secret y).toList.take tagLen → x = y

/-! ## The parts of a cookie -/

theorem unixSeconds_le (h : unixSeconds issued = .ok t) : t ≤ u64Max := by
  unfold unixSeconds at h
  split at h
  · cases h
  · obtain rfl := Except.ok.inj h
    have hbound := issued.bound
    unfold asSecs u64Max
    omega

theorem issueCookie_eq (ht : unixSeconds issued = .ok t)
    (h : issueCookie hmac secret peer connectionId clientNonce issued = .ok cookie) :
    cookie = cookieVersion :: (beBytes timestampLen t ++
      signTag hmac secret peer connectionId clientNonce t) := by
  unfold issueCookie at h
  rw [ht] at h
  exact (Except.ok.inj h).symm

theorem length_signTag : (signTag hmac secret peer connectionId clientNonce t).length = tagLen := by
  rw [signTag, List.length_take, Vector.length_toList]
  rfl

theorem saturates {a b c : Nat} (h : c ≤ u64Max) : saturatingAdd a b < c ↔ a + b < c := by
  unfold saturatingAdd
  omega

/-- What is left of the check of a cookie that was issued. -/
theorem validateCookie_issued (ht : t ≤ u64Max) (ht₂ : unixSeconds checked = .ok t₂) :
    validateCookie hmac secret (cookieVersion :: (beBytes timestampLen t ++
        signTag hmac secret peer connectionId clientNonce t)) checked context = true ↔
      (t ≤ t₂ + asSecs context.clockSkew ∧
        t₂ ≤ t + asSecs context.cookieTtl + asSecs context.clockSkew) ∧
      signTag hmac secret context.peer context.connectionId context.clientNonce t =
        signTag hmac secret peer connectionId clientNonce t := by
  have hlen : (cookieVersion :: (beBytes timestampLen t ++
      signTag hmac secret peer connectionId clientNonce t)).length = cookieLen := by
    rw [List.length_cons, List.length_append, length_beBytes, length_signTag]
    rfl
  have htake : (beBytes timestampLen t ++
      signTag hmac secret peer connectionId clientNonce t).take timestampLen =
        beBytes timestampLen t := List.take_left' (length_beBytes _ _)
  have hdrop : (cookieVersion :: (beBytes timestampLen t ++
      signTag hmac secret peer connectionId clientNonce t)).drop (1 + timestampLen) =
        signTag hmac secret peer connectionId clientNonce t := by
    rw [Nat.add_comm, List.drop_succ_cons]
    exact List.drop_left' (length_beBytes _ _)
  have hread : ofBe (beBytes timestampLen t) = t := by
    rw [ofBe_beBytes, Nat.mod_eq_of_lt]
    unfold u64Max at ht
    unfold timestampLen
    omega
  have hle₂ := unixSeconds_le ht₂
  have hfuture := @saturates t₂ (asSecs context.clockSkew) t ht
  have hpast := @saturates (asSecs context.cookieTtl) (asSecs context.clockSkew) (t₂ - t)
    (Nat.le_trans (Nat.sub_le _ _) hle₂)
  have hwindow : (saturatingAdd t₂ (asSecs context.clockSkew) < t ∨
      saturatingAdd (asSecs context.cookieTtl) (asSecs context.clockSkew) < t₂ - t) ↔
        ¬ (t ≤ t₂ + asSecs context.clockSkew ∧
          t₂ ≤ t + asSecs context.cookieTtl + asSecs context.clockSkew) := by
    rw [hfuture, hpast]
    omega
  unfold validateCookie
  rw [if_neg (by rw [hlen]; simp)]
  simp only [List.drop_succ_cons, List.drop_zero, htake, hread, ht₂, hdrop, gt_iff_lt, hwindow]
  by_cases hin : t ≤ t₂ + asSecs context.clockSkew ∧
      t₂ ≤ t + asSecs context.cookieTtl + asSecs context.clockSkew
  · rw [if_neg (fun hn => hn hin), beq_iff_eq]
    exact (and_iff_right hin).symm
  · rw [if_pos hin]
    refine ⟨fun h => ?_, fun h => absurd h.1 hin⟩
    cases h

/-- A cookie that was issued is accepted for exactly the address, the connection and
the nonce it was issued for, and within the skew of the clocks before, and the time to
live and the skew after, its time of issue. The MAC is taken to have no collision on
the input it is checked on. -/
theorem validateCookie_iff (ht : unixSeconds issued = .ok t) (ht₂ : unixSeconds checked = .ok t₂)
    (hissue : issueCookie hmac secret peer connectionId clientNonce issued = .ok cookie)
    (hfree : NoCollision hmac secret
      (macInput context.peer context.connectionId context.clientNonce t)
      (macInput peer connectionId clientNonce t)) :
    validateCookie hmac secret cookie checked context = true ↔
      (context.peer = peer ∧ context.connectionId = connectionId ∧
        context.clientNonce = clientNonce) ∧
      t ≤ t₂ + asSecs context.clockSkew ∧
      t₂ ≤ t + asSecs context.cookieTtl + asSecs context.clockSkew := by
  obtain rfl := issueCookie_eq ht hissue
  rw [validateCookie_issued (unixSeconds_le ht) ht₂, and_comm]
  refine and_congr_left' ⟨fun htag => macInput_injective (hfree htag), fun hsame => ?_⟩
  obtain ⟨hpeer, hid, hnonce⟩ := hsame
  rw [hpeer, hid, hnonce]

end

/-! ## A cookie -/

def samplePeer (port : UInt16) : SocketAddr := .v4 (.ofFn ![127, 0, 0, 1]) port

def sampleTime (seconds : Nat) (h : seconds < 2 ^ 63) : SystemTime :=
  ⟨seconds * 10 ^ 9, by omega⟩

/-- Ten seconds to live, one of skew. -/
def sampleContext (port : UInt16) : CookieContext :=
  ⟨samplePeer port, 3, .replicate nonceLen 9, 10 * 10 ^ 9, 10 ^ 9⟩

/-- HMAC-SHA256 under 32 bytes 7 of what is signed at second 100 for the port 9001 and, if
it is none of that, for the port 9000. -/
def sampleMac (_ : Vector UInt8 32) (message : Bytes) : Vector UInt8 32 :=
  let tag := beBytes 32 <|
    if message = macInput (samplePeer 9001) 3 (.replicate nonceLen 9) 100 then
      0xc2be9ce6b683b9528b9d6e19eabf6989df45239775b7f6f77cafc7d8ddeb0d73
    else 0x1f1683fb9128c791a62ae3ffd039ed84cbafa15d13f3dbea0223bf5491aee012
  .ofFn fun i => tag.getD i 0

/-- One issued at second 100 is accepted up to second 111, and from no other port. -/
theorem validateCookie_iff_sample :
    ∃ cookie, issueCookie sampleMac (.replicate 32 7) (samplePeer 9000) 3 (.replicate nonceLen 9)
        (sampleTime 100 (by decide)) = .ok cookie ∧
      validateCookie sampleMac (.replicate 32 7) cookie (sampleTime 111 (by decide))
        (sampleContext 9000) = true ∧
      validateCookie sampleMac (.replicate 32 7) cookie (sampleTime 111 (by decide))
        (sampleContext 9001) = false := by
  obtain ⟨cookie, hissue⟩ : ∃ cookie, issueCookie sampleMac (.replicate 32 7) (samplePeer 9000) 3
      (.replicate nonceLen 9) (sampleTime 100 (by decide)) = .ok cookie := ⟨_, rfl⟩
  have ht : unixSeconds (sampleTime 100 (by decide)) = .ok 100 := by rfl
  have ht₂ : unixSeconds (sampleTime 111 (by decide)) = .ok 111 := by rfl
  refine ⟨cookie, hissue, ?_, ?_⟩
  · refine (validateCookie_iff ht ht₂ hissue fun _ => rfl).2 ⟨⟨rfl, rfl, rfl⟩, ?_⟩
    decide
  · rw [Bool.eq_false_iff]
    intro hvalid
    refine absurd ((validateCookie_iff ht ht₂ hissue fun heq => ?_).1 hvalid).1.1 (by decide)
    exact absurd heq (by decide)

end DartUdp.Udp
