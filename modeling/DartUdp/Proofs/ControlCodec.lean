import DartUdp.Proofs.ControlFields

/-!
# Control messages survive being written and read

Variant by variant, the reader of a body takes back what the writer has put down,
and what the reader accepts the writer puts down again. The two halves follow the
fields in the order of the source. They are not mirror images in two places: a
pairing code is read in either case, and the observed address of a path check is
judged only on the way out.

The first half are the lemmas that end in `_reads`, the second those that end in
`_takes`; the next module puts the envelope around both.
-/

namespace DartUdp.Protocol

open DartUdp.Lib
open DartUdp.Transfer (Digest)
open ByteEnum (toU8 tryFrom)

section

variable {limits : CodecLimits} {out : Bytes}

theorem checkCount_inv {field : String} {maximum actual : Nat}
    (h : checkCount field maximum actual = .ok ()) : actual ≤ maximum :=
  Nat.not_lt.1 (ok_of_guard h).1

/-! ## Candidates -/

theorem readInterfaceIndex_getD {index : Option UInt32} (h : index ≠ some noInterface) :
    readInterfaceIndex (index.getD noInterface) = index := by
  cases index with
  | none => rfl
  | some value =>
      have hne : value ≠ noInterface := fun heq => h (congrArg some heq)
      exact if_neg hne

theorem getD_readInterfaceIndex (value : UInt32) :
    (readInterfaceIndex value).getD noInterface = value := by
  unfold readInterfaceIndex
  split
  · next heq => exact heq.symm
  · rfl

theorem encodeCandidate_reads {candidate : Candidate}
    (hindex : candidate.interfaceIndex ≠ some noInterface)
    (h : encodeCandidate candidate = .ok out) : Reads decodeCandidate out candidate := by
  obtain ⟨_, hvalid, h⟩ := ok_of_bind h
  obtain rfl : _ = out := Except.ok.inj h
  refine (array_reads _).bind <| (enum_reads _).bind <| (socketAddrOption_reads _).bind <|
    (u16_reads _).bind <| (u32_reads _).bind ?_
  rw [readInterfaceIndex_getD hindex]
  exact (Reads.lift hvalid).last (.pure candidate)

theorem decodeCandidate_takes : Takes decodeCandidate fun used candidate =>
    encodeCandidate candidate = .ok used := by
  refine (array_takes _ _).field fun id => (enum_takes _).field fun kind =>
    socketAddrOption_takes.field fun address => u16_takes.field fun priority =>
    u32_takes.field fun index => (Takes.lift _).bind fun _ _ hvalid => .pure ?_
  obtain ⟨rfl, hvalid⟩ := hvalid
  rw [encodeCandidate, bind_of_ok hvalid, getD_readInterfaceIndex]
  rfl

theorem encodeCandidates_reads {candidates : List Candidate}
    (hindex : ∀ c ∈ candidates, c.interfaceIndex ≠ some noInterface)
    (h : encodeCandidates candidates = .ok out) :
    Reads (decodeCandidates candidates.length) out candidates := by
  induction candidates generalizing out with
  | nil =>
      obtain rfl : [] = out := Except.ok.inj h
      exact .pure []
  | cons candidate rest ih =>
      obtain ⟨first, hfirst, h⟩ := ok_of_bind h
      obtain ⟨more, hmore, h⟩ := ok_of_bind h
      obtain rfl : _ = out := Except.ok.inj h
      have hrest := ih (fun c hc => hindex c (List.mem_cons_of_mem _ hc)) hmore
      exact (encodeCandidate_reads (hindex _ List.mem_cons_self) hfirst).bind
        (hrest.last (.pure (candidate :: rest)))

theorem decodeCandidates_takes (count : Nat) :
    Takes (decodeCandidates count) fun used candidates =>
      candidates.length = count ∧ encodeCandidates candidates = .ok used := by
  induction count with
  | zero => exact .pure ⟨rfl, rfl⟩
  | succ count ih =>
      refine decodeCandidate_takes.bind fun candidate first hfirst => ih.bind fun rest more hmore =>
        .pure ⟨congrArg Nat.succ hmore.1, ?_⟩
      rw [encodeCandidates, bind_of_ok hfirst, bind_of_ok hmore.2, List.append_nil]
      rfl

/-! ## Metadata -/

theorem readIf_reads {α : Type} {w : α → Bytes} {r : Reader α} (h : ∀ a, Reads r (w a) a)
    (value : Option α) : Reads (readIf value.isSome r) ((value.map w).getD []) value := by
  cases value with
  | none => exact .pure none
  | some a => exact (h a).map

theorem readIf_takes {α : Type} {w : α → Bytes} {r : Reader α}
    (h : Takes r fun used a => used = w a) (flag : Bool) :
    Takes (readIf flag r) fun used value =>
      used = (value.map w).getD [] ∧ value.isSome = flag := by
  cases flag with
  | false => exact .pure ⟨rfl, rfl⟩
  | true => exact .map (h.mono fun used a hused => ⟨hused, rfl⟩)

/-- The byte that says which of the two values are there. -/
def presence (time mode : Bool) : UInt8 := (if time then 1 else 0) ||| (if mode then 2 else 0)

theorem presence_known (time mode : Bool) :
    presence time mode &&& ~~~0b11 = 0 ∧ (presence time mode &&& 1 != 0) = time ∧
      (presence time mode &&& 2 != 0) = mode := by
  cases time <;> cases mode <;> decide

theorem presence_of_known {flags : UInt8} (h : flags &&& ~~~0b11 = 0) :
    presence (flags &&& 1 != 0) (flags &&& 2 != 0) = flags := by
  have hall : ∀ n : Fin 256, UInt8.ofFin n &&& ~~~0b11 = 0 →
      presence (UInt8.ofFin n &&& 1 != 0) (UInt8.ofFin n &&& 2 != 0) = UInt8.ofFin n := by
    decide +kernel
  exact hall flags.toFin h

theorem encodeMetadata_reads (metadata : FileMetadata) :
    Reads decodeMetadata (encodeMetadata metadata) metadata := by
  obtain ⟨hknown, htime, hmode⟩ := presence_known metadata.modifiedTimeUnixSeconds.isSome
    metadata.mode.isSome
  refine (u8_reads (presence _ _)).bind (.guard (not_not.2 hknown) ?_)
  rw [htime, hmode]
  exact (readIf_reads i64_reads _).bind ((readIf_reads u32_reads _).bind (.pure metadata))

theorem decodeMetadata_takes : Takes decodeMetadata fun used metadata =>
    used = encodeMetadata metadata := by
  refine u8_takes.field fun flags => .guard fun hknown =>
    (readIf_takes i64_takes _).bind fun time _ htime =>
    (readIf_takes u32_takes _).bind fun mode _ hmode => .pure ?_
  obtain ⟨rfl, htime⟩ := htime
  obtain ⟨rfl, hmode⟩ := hmode
  have hflags : presence time.isSome mode.isSome = flags := by
    rw [htime, hmode]
    exact presence_of_known (not_not.1 hknown)
  subst hflags
  rfl

/-! ## Pairing messages -/

def PairingControl.candidates : PairingControl → List Candidate
  | .candidateList _ candidates _ => candidates
  | _ => []

theorem encodePairing_reads {message : PairingControl}
    (hlimit : limits.maxCandidates ≤ maxCandidates)
    (hindex : ∀ c ∈ message.candidates, c.interfaceIndex ≠ some noInterface)
    (h : encodePairing message limits = .ok out) :
    Reads (readPairing message.messageType limits) out message := by
  cases message with
  | createPairing client capability ttl key =>
      obtain rfl : _ = out := Except.ok.inj h
      exact (array_reads _).bind <| (enum_reads _).bind <| (u32_reads _).bind <|
        (array_reads _).bind (.pure _)
  | pairingCreated pairing code expires ticket =>
      obtain ⟨_, hcode, h⟩ := ok_of_bind h
      obtain ⟨_, hticket, h⟩ := ok_of_bind h
      obtain rfl : _ = out := Except.ok.inj h
      exact (array_reads _).bind <| (pairingCode_reads hcode).bind <| (u64_reads _).bind <|
        (blob_reads hticket).bind (.pure _)
  | joinPairing code client key =>
      obtain ⟨_, hcode, h⟩ := ok_of_bind h
      obtain rfl : _ = out := Except.ok.inj h
      exact (pairingCode_reads hcode).bind <| (array_reads _).bind <|
        (array_reads _).bind (.pure _)
  | pairingJoined pairing offerer accepter ticket =>
      obtain ⟨_, hofferer, h⟩ := ok_of_bind h
      obtain ⟨_, haccepter, h⟩ := ok_of_bind h
      obtain ⟨_, hticket, h⟩ := ok_of_bind h
      obtain rfl : _ = out := Except.ok.inj h
      exact (array_reads _).bind <| (string_reads hofferer).bind <|
        (string_reads haccepter).bind <| (blob_reads hticket).bind (.pure _)
  | offerReady transfer digest count size name =>
      obtain ⟨_, hcount, h⟩ := ok_of_bind h
      obtain ⟨_, hname, h⟩ := ok_of_bind h
      obtain rfl : _ = out := Except.ok.inj h
      exact (array_reads _).bind <| (digest_reads _).bind <| (u64_reads _).bind <|
        (Reads.lift hcount).bind <| (u64_reads _).bind <| (string_reads hname).bind (.pure _)
  | acceptOffer transfer decision policy =>
      obtain ⟨_, hpolicy, h⟩ := ok_of_bind h
      obtain rfl : _ = out := Except.ok.inj h
      exact (array_reads _).bind <| (enum_reads _).bind <| (string_reads hpolicy).bind (.pure _)
  | candidateList transfer candidates digest =>
      obtain ⟨_, hcount, h⟩ := ok_of_bind h
      obtain ⟨_, hcandidates, h⟩ := ok_of_bind h
      obtain rfl : _ = out := Except.ok.inj h
      have hlen : (UInt16.ofNat candidates.length).toNat = candidates.length := by
        have hmax := (checkCount_inv hcount).trans hlimit
        exact UInt16.toNat_ofNat_of_lt' (Nat.lt_of_le_of_lt hmax (by decide))
      refine (array_reads _).bind <| (u16_reads _).bind ?_
      rw [hlen]
      exact (Reads.lift hcount).bind <| (encodeCandidates_reads hindex hcandidates).bind <|
        (digest_reads _).bind (.pure _)
  | pathCheckAuthorization transfer token expires =>
      obtain rfl : _ = out := Except.ok.inj h
      exact (array_reads _).bind <| (array_reads _).bind <| (u64_reads _).bind (.pure _)
  | pathSelected transfer path kind rtt mtu =>
      obtain rfl : _ = out := Except.ok.inj h
      exact (array_reads _).bind <| (array_reads _).bind <| (enum_reads _).bind <|
        (u64_reads _).bind <| (u16_reads _).bind (.pure _)
  | relayOpen transfer relay ticket =>
      obtain ⟨_, hticket, h⟩ := ok_of_bind h
      obtain rfl : _ = out := Except.ok.inj h
      exact (array_reads _).bind <| (array_reads _).bind <| (blob_reads hticket).bind (.pure _)
  | relayClosed transfer reason =>
      obtain rfl : _ = out := Except.ok.inj h
      exact (array_reads _).bind <| (enum_reads _).bind (.pure _)
  | cancel transfer reason =>
      obtain rfl : _ = out := Except.ok.inj h
      exact (array_reads _).bind <| (u16_reads _).bind (.pure _)
  | resumeTicket pairing transfer role digest expires ticket =>
      obtain ⟨_, hticket, h⟩ := ok_of_bind h
      obtain rfl : _ = out := Except.ok.inj h
      exact (array_reads _).bind <| (array_reads _).bind <| (enum_reads _).bind <|
        (digest_reads _).bind <| (u64_reads _).bind <| (blob_reads hticket).bind (.pure _)
  | resumeTransfer pairing transfer role client ticket =>
      obtain ⟨_, hticket, h⟩ := ok_of_bind h
      obtain rfl : _ = out := Except.ok.inj h
      exact (array_reads _).bind <| (array_reads _).bind <| (enum_reads _).bind <|
        (array_reads _).bind <| (blob_reads hticket).bind (.pure _)
  | resumeAccepted pairing transfer role digest expires =>
      obtain rfl : _ = out := Except.ok.inj h
      exact (array_reads _).bind <| (array_reads _).bind <| (enum_reads _).bind <|
        (digest_reads _).bind <| (u64_reads _).bind (.pure _)
  | peerReconnected transfer role =>
      obtain rfl : _ = out := Except.ok.inj h
      exact (array_reads _).bind <| (enum_reads _).bind (.pure _)

/-- The code a message carries. -/
def PairingControl.pairingCode : PairingControl → Option PairingCode
  | .pairingCreated _ code _ _ => some code
  | .joinPairing code _ _ => some code
  | _ => none

/-- The two byte strings differ at most in the case of the letters of the code. -/
def Recased (code : Option PairingCode) (used out : Bytes) : Prop :=
  match code with
  | none => used = out
  | some code => ∃ front text back, SameLetters text code ∧
      used = front ++ (text ++ back) ∧ out = front ++ (code.bytes ++ back)

theorem readPairing_takes (messageType : MessageType) :
    Takes (readPairing messageType limits) fun used message =>
      message.messageType = messageType ∧
        ∃ out, encodePairing message limits = .ok out ∧ Recased message.pairingCode used out := by
  cases messageType with
  | createPairing =>
      exact (array_takes _ _).field fun _ => (enum_takes _).field fun _ => u32_takes.field fun _ =>
        (array_takes _ _).field fun _ => .pure ⟨rfl, _, rfl, rfl⟩
  | pairingCreated =>
      refine (array_takes _ _).field fun pairing => pairingCode_takes.bind fun code _ hcode =>
        u64_takes.field fun expires => (blob_takes _ _).bind fun ticket _ hticket => .pure ⟨rfl, ?_⟩
      obtain ⟨text, hsame, rfl⟩ := hcode
      rw [encodePairing, bind_of_ok (pairingCode_eq code), bind_of_ok hticket]
      exact ⟨_, rfl, Writer.id pairing ++ beBytes 1 code.bytes.length, text, _, hsame,
        by simp only [List.append_assoc]; rfl, by simp only [List.append_assoc]; rfl⟩
  | joinPairing =>
      refine pairingCode_takes.bind fun code _ hcode => (array_takes _ _).field fun client =>
        (array_takes _ _).field fun key => .pure ⟨rfl, ?_⟩
      obtain ⟨text, hsame, rfl⟩ := hcode
      rw [encodePairing, bind_of_ok (pairingCode_eq code)]
      exact ⟨_, rfl, beBytes 1 code.bytes.length, text, _, hsame,
        by simp only [List.append_assoc]; rfl,
        List.append_assoc _ _ _⟩
  | pairingJoined =>
      refine (array_takes _ _).field fun pairing =>
        (string_takes _ _).bind fun offerer _ hofferer =>
        (string_takes _ _).bind fun accepter _ haccepter =>
        (blob_takes _ _).bind fun ticket _ hticket =>
        .pure ⟨rfl, ?_⟩
      rw [encodePairing, bind_of_ok hofferer, bind_of_ok haccepter, bind_of_ok hticket]
      exact ⟨_, rfl, rfl⟩
  | offerReady =>
      refine (array_takes _ _).field fun transfer => digest_takes.field fun digest =>
        u64_takes.field fun count => (Takes.lift _).bind fun _ _ hcount =>
        u64_takes.field fun size =>
        (string_takes _ _).bind fun name _ hname => .pure ⟨rfl, ?_⟩
      obtain ⟨rfl, hcount⟩ := hcount
      rw [encodePairing, bind_of_ok hcount, bind_of_ok hname]
      exact ⟨_, rfl, rfl⟩
  | acceptOffer =>
      refine (array_takes _ _).field fun transfer => (enum_takes _).field fun decision =>
        (string_takes _ _).bind fun policy _ hpolicy => .pure ⟨rfl, ?_⟩
      rw [encodePairing, bind_of_ok hpolicy]
      exact ⟨_, rfl, rfl⟩
  | candidateList =>
      refine (array_takes _ _).field fun transfer => u16_takes.field fun count =>
        (Takes.lift _).bind fun _ _ hcount =>
        (decodeCandidates_takes _).bind fun candidates _ hlist =>
        digest_takes.field fun digest => .pure ⟨rfl, ?_⟩
      obtain ⟨rfl, hcount⟩ := hcount
      obtain ⟨hlen, hlist⟩ := hlist
      rw [← hlen] at hcount
      rw [encodePairing, bind_of_ok hcount, bind_of_ok hlist, hlen, UInt16.ofNat_toNat]
      exact ⟨_, rfl, rfl⟩
  | pathCheckAuthorization =>
      exact (array_takes _ _).field fun _ => (array_takes _ _).field fun _ =>
        u64_takes.field fun _ => .pure ⟨rfl, _, rfl, rfl⟩
  | pathSelected =>
      exact (array_takes _ _).field fun _ => (array_takes _ _).field fun _ =>
        (enum_takes _).field fun _ => u64_takes.field fun _ => u16_takes.field fun _ =>
        .pure ⟨rfl, _, rfl, rfl⟩
  | relayOpen =>
      refine (array_takes _ _).field fun transfer => (array_takes _ _).field fun relay =>
        (blob_takes _ _).bind fun ticket _ hticket => .pure ⟨rfl, ?_⟩
      rw [encodePairing, bind_of_ok hticket]
      exact ⟨_, rfl, rfl⟩
  | relayClosed =>
      exact (array_takes _ _).field fun _ => (enum_takes _).field fun _ => .pure ⟨rfl, _, rfl, rfl⟩
  | cancel =>
      exact (array_takes _ _).field fun _ => u16_takes.field fun _ => .pure ⟨rfl, _, rfl, rfl⟩
  | resumeTicket =>
      refine (array_takes _ _).field fun pairing => (array_takes _ _).field fun transfer =>
        (enum_takes _).field fun role => digest_takes.field fun digest =>
        u64_takes.field fun expires => (blob_takes _ _).bind fun ticket _ hticket => .pure ⟨rfl, ?_⟩
      rw [encodePairing, bind_of_ok hticket]
      exact ⟨_, rfl, rfl⟩
  | resumeTransfer =>
      refine (array_takes _ _).field fun pairing => (array_takes _ _).field fun transfer =>
        (enum_takes _).field fun role => (array_takes _ _).field fun client =>
        (blob_takes _ _).bind fun ticket _ hticket => .pure ⟨rfl, ?_⟩
      rw [encodePairing, bind_of_ok hticket]
      exact ⟨_, rfl, rfl⟩
  | resumeAccepted =>
      exact (array_takes _ _).field fun _ => (array_takes _ _).field fun _ =>
        (enum_takes _).field fun _ => digest_takes.field fun _ => u64_takes.field fun _ =>
        .pure ⟨rfl, _, rfl, rfl⟩
  | peerReconnected =>
      exact (array_takes _ _).field fun _ => (enum_takes _).field fun _ => .pure ⟨rfl, _, rfl, rfl⟩
  | _ => exact .throw

/-! ## Transfer messages -/

theorem encodeTransfer_reads {message : TransferControl}
    (h : encodeTransfer message limits = .ok out) :
    Reads (readTransfer message.messageType limits) out message := by
  cases message with
  | sessionHello transfer version suite digest resumption =>
      obtain rfl : _ = out := Except.ok.inj h
      exact (array_reads _).bind <| (u8_reads _).bind <| (enum_reads _).bind <|
        (digest_reads _).bind <| (array_reads _).bind (.pure _)
  | manifestBegin count size digest =>
      obtain ⟨_, hcount, h⟩ := ok_of_bind h
      obtain rfl : _ = out := Except.ok.inj h
      exact (u64_reads _).bind <| (Reads.lift hcount).bind <| (u64_reads _).bind <|
        (digest_reads _).bind (.pure _)
  | manifestItem file path size digest metadata =>
      obtain ⟨_, hpath, h⟩ := ok_of_bind h
      obtain rfl : _ = out := Except.ok.inj h
      exact (array_reads _).bind <| (string_reads hpath).bind <| (u64_reads _).bind <|
        (digest_reads _).bind <| (encodeMetadata_reads _).bind (.pure _)
  | manifestEnd digest =>
      obtain rfl : _ = out := Except.ok.inj h
      exact (digest_reads _).last (.pure _)
  | receiveDecision accepted policy label =>
      obtain ⟨_, hlabel, h⟩ := ok_of_bind h
      obtain rfl : _ = out := Except.ok.inj h
      exact (bool_reads _).bind <| (enum_reads _).bind <| (string_reads hlabel).bind (.pure _)
  | resumeQuery file digest size =>
      obtain rfl : _ = out := Except.ok.inj h
      exact (array_reads _).bind <| (digest_reads _).bind <| (u64_reads _).bind (.pure _)
  | resumeState file offset checkpoint digest =>
      obtain rfl : _ = out := Except.ok.inj h
      exact (array_reads _).bind <| (u64_reads _).bind <| (u64_reads _).bind <|
        (digest_reads _).bind (.pure _)
  | fileBegin file stream base remaining digest =>
      obtain rfl : _ = out := Except.ok.inj h
      exact (array_reads _).bind <| (u64_reads _).bind <| (u64_reads _).bind <|
        (u64_reads _).bind <| (digest_reads _).bind (.pure _)
  | checkpoint file offset checkpoint =>
      obtain rfl : _ = out := Except.ok.inj h
      exact (array_reads _).bind <| (u64_reads _).bind <| (u64_reads _).bind (.pure _)
  | fileComplete file size digest =>
      obtain rfl : _ = out := Except.ok.inj h
      exact (array_reads _).bind <| (u64_reads _).bind <| (digest_reads _).bind (.pure _)
  | fileRejected file reason =>
      obtain rfl : _ = out := Except.ok.inj h
      exact (array_reads _).bind <| (enum_reads _).bind (.pure _)
  | transferComplete transfer files size =>
      obtain rfl : _ = out := Except.ok.inj h
      exact (array_reads _).bind <| (u64_reads _).bind <| (u64_reads _).bind (.pure _)
  | transferError scope code retryable text =>
      obtain ⟨_, htext, h⟩ := ok_of_bind h
      obtain rfl : _ = out := Except.ok.inj h
      exact (enum_reads _).bind <| (u32_reads _).bind <| (bool_reads _).bind <|
        (string_reads htext).bind (.pure _)

theorem readTransfer_takes (messageType : MessageType) :
    Takes (readTransfer messageType limits) fun used message =>
      message.messageType = messageType ∧ encodeTransfer message limits = .ok used := by
  cases messageType with
  | sessionHello =>
      exact (array_takes _ _).field fun _ => u8_takes.field fun _ => (enum_takes _).field fun _ =>
        digest_takes.field fun _ => (array_takes _ _).field fun _ => .pure ⟨rfl, rfl⟩
  | manifestBegin =>
      refine u64_takes.field fun count => (Takes.lift _).bind fun _ _ hcount =>
        u64_takes.field fun size => digest_takes.field fun digest => .pure ⟨rfl, ?_⟩
      obtain ⟨rfl, hcount⟩ := hcount
      rw [encodeTransfer, bind_of_ok hcount]
      rfl
  | manifestItem =>
      refine (array_takes _ _).field fun file => (string_takes _ _).bind fun path _ hpath =>
        u64_takes.field fun size => digest_takes.field fun digest =>
        decodeMetadata_takes.field fun metadata => .pure ⟨rfl, ?_⟩
      rw [encodeTransfer, bind_of_ok hpath]
      rfl
  | manifestEnd =>
      exact digest_takes.field fun digest =>
        .pure ⟨rfl, congrArg Except.ok (List.append_nil _).symm⟩
  | receiveDecision =>
      refine (bool_takes _).field fun accepted => (enum_takes _).field fun policy =>
        (string_takes _ _).bind fun label _ hlabel => .pure ⟨rfl, ?_⟩
      rw [encodeTransfer, bind_of_ok hlabel]
      rfl
  | resumeQuery =>
      exact (array_takes _ _).field fun _ => digest_takes.field fun _ => u64_takes.field fun _ =>
        .pure ⟨rfl, rfl⟩
  | resumeState =>
      exact (array_takes _ _).field fun _ => u64_takes.field fun _ => u64_takes.field fun _ =>
        digest_takes.field fun _ => .pure ⟨rfl, rfl⟩
  | fileBegin =>
      exact (array_takes _ _).field fun _ => u64_takes.field fun _ => u64_takes.field fun _ =>
        u64_takes.field fun _ => digest_takes.field fun _ => .pure ⟨rfl, rfl⟩
  | checkpoint =>
      exact (array_takes _ _).field fun _ => u64_takes.field fun _ => u64_takes.field fun _ =>
        .pure ⟨rfl, rfl⟩
  | fileComplete =>
      exact (array_takes _ _).field fun _ => u64_takes.field fun _ => digest_takes.field fun _ =>
        .pure ⟨rfl, rfl⟩
  | fileRejected =>
      exact (array_takes _ _).field fun _ => (enum_takes _).field fun _ => .pure ⟨rfl, rfl⟩
  | transferComplete =>
      exact (array_takes _ _).field fun _ => u64_takes.field fun _ => u64_takes.field fun _ =>
        .pure ⟨rfl, rfl⟩
  | transferError =>
      refine (enum_takes _).field fun scope => u32_takes.field fun code =>
        (bool_takes _).field fun retryable => (string_takes _ _).bind fun text _ htext =>
        .pure ⟨rfl, ?_⟩
      rw [encodeTransfer, bind_of_ok htext]
      rfl
  | _ => exact .throw

/-! ## Path checks -/

theorem encodePath_reads (message : PathCheck) :
    Reads (decodePath message.messageType) (encodePath message) message := by
  cases message with
  | request transfer transaction token candidate time =>
      exact (array_reads _).bind <| (array_reads _).bind <| (array_reads _).bind <|
        (array_reads _).bind <| (u64_reads _).bind (.pure _)
  | response transfer transaction token candidate address time =>
      exact (array_reads _).bind <| (array_reads _).bind <| (array_reads _).bind <|
        (array_reads _).bind <| (socketAddr_reads _).bind <| (u64_reads _).bind (.pure _)

theorem decodePath_takes (messageType : MessageType) :
    Takes (decodePath messageType) fun used message =>
      message.messageType = messageType ∧ encodePath message = used := by
  cases messageType with
  | pathCheckRequest =>
      exact (array_takes _ _).field fun _ => (array_takes _ _).field fun _ =>
        (array_takes _ _).field fun _ => (array_takes _ _).field fun _ => u64_takes.field fun _ =>
        .pure ⟨rfl, rfl⟩
  | pathCheckResponse =>
      exact (array_takes _ _).field fun _ => (array_takes _ _).field fun _ =>
        (array_takes _ _).field fun _ => (array_takes _ _).field fun _ =>
        socketAddr_takes.field fun _ => u64_takes.field fun _ => .pure ⟨rfl, rfl⟩
  | _ => exact .throw

end

end DartUdp.Protocol
