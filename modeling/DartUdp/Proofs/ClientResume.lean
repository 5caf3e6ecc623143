import Mathlib.Algebra.Order.BigOperators.Group.List
import DartUdp.Client.Resume
import DartUdp.Proofs.StorageRecord

/-!
# Which tickets can be loaded again

Every field of a ticket is read back as it was written, and a manifest that was
accepted once is accepted again. What the decoder asks for beyond that is a limit
on the whole file, which nothing asks for when the ticket is written, and it gives
the manifest the digest of the ticket. A ticket with a manifest survives exactly if
it is within the limit and the two digests are one.

The module is for `decode_encode_iff`. The fields are read back one by one up to
`readTicket_reads`, `length_encode` is the size of the whole, and `decode_of_reads`
puts the two against the limit; `large_ticket_is_lost` is a ticket beyond it.
-/

namespace DartUdp.Client

open DartUdp.Lib DartUdp.Transfer
open DartUdp.Protocol (PairingId SessionTicket TransferRole maxTicketLen ByteEnum)
open DartUdp.Session (CoreError Manifest ManifestEntry ManifestOk maxManifestFiles checkEntries)
open DartUdp.Protocol.ByteEnum (toU8 tryFrom)
open DartUdp.Storage (InI64)

section

variable {α : Type} {n maximum : Nat} {x : Bytes} {digest manifestDigest : Digest}
  {entry : ManifestEntry} {entries : List ManifestEntry} {m : Manifest} {t : ResumeTicket}

/-! ## The fields -/

theorem readExact_reads (h : x.length = n) : Reads (readExact n) x x := exactly_reads h

theorem readArray_reads (v : Vector UInt8 n) : Reads (readArray n) v.toList v := by
  intro rest
  have hlen : n ≤ (v.toList ++ rest).length := by simp
  have htake : (v.toList ++ rest).take n = v.toList := List.take_left' (by simp)
  have hdrop : (v.toList ++ rest).drop n = rest := List.drop_left' (by simp)
  rw [readArray, dif_pos hlen, hdrop]
  simp only [htake]
  rfl

theorem readU8_reads (byte : UInt8) : Reads readU8 [byte] byte := fun _ => rfl

theorem readNumber_reads {v : Nat} (g : Bytes → α) (h : v < 256 ^ n) :
    ∃ bytes, Reads (g <$> readExact n) (beBytes n v) (g bytes) ∧ ofBe bytes = v :=
  ⟨beBytes n v, (readExact_reads (length_beBytes n v)).map,
    (ofBe_beBytes n v).trans (Nat.mod_eq_of_lt h)⟩

theorem readU32_reads {v : Nat} (h : v < 2 ^ 32) : Reads readU32 (beBytes 4 v) v := by
  obtain ⟨bytes, hreads, rfl⟩ := readNumber_reads ofBe (show v < 256 ^ 4 by omega)
  exact hreads

theorem readU64_reads {v : Nat} (h : v < 2 ^ 64) : Reads readU64 (beBytes 8 v) v := by
  obtain ⟨bytes, hreads, rfl⟩ := readNumber_reads ofBe (show v < 256 ^ 8 by omega)
  exact hreads

theorem readI64_reads {v : Int} (h : InI64 v) : Reads readI64 (Storage.encodeI64 v) v := by
  obtain ⟨hlo, hhi⟩ := h
  have hlt : (v % 2 ^ 64).toNat < 256 ^ 8 := by omega
  obtain ⟨bytes, hreads, hvalue⟩ := readNumber_reads
    (fun bytes => if ofBe bytes < 2 ^ 63 then (ofBe bytes : Int) else ofBe bytes - 2 ^ 64) hlt
  have hv : (if ofBe bytes < 2 ^ 63 then (ofBe bytes : Int) else ofBe bytes - 2 ^ 64) = v := by
    rw [hvalue]
    split <;> omega
  rw [hv] at hreads
  exact hreads

theorem readBlob_reads (h : x.length ≤ maximum) (hmax : maximum < 2 ^ 32) :
    Reads (readBlob maximum) (encodeBlob x) x :=
  (readU32_reads (Nat.lt_of_le_of_lt h hmax)).bind
    (.guard (Nat.not_lt.2 h) (readExact_reads rfl))

theorem readString_reads (h : x.length ≤ maximum) (hmax : maximum < 2 ^ 32)
    (hutf : utf8Valid x = true) : Reads (readString maximum) (encodeBlob x) x := by
  refine (readBlob_reads h hmax).last ?_
  rw [if_pos hutf]
  exact .pure x

theorem readDigest_reads (digest : Digest) :
    Reads readDigest (Storage.encodeDigest digest) digest := by
  obtain ⟨algorithm, bytes⟩ := digest
  cases algorithm with
  | blake3 => exact (readU8_reads 1).bind ((readArray_reads bytes).last (.pure _))
  | sha256 => exact (readU8_reads 2).bind ((readArray_reads bytes).last (.pure _))

theorem readOption_reads {read : Reader α} {write : α → Bytes} {v : Option α}
    (h : ∀ a, v = some a → Reads read (write a) a) :
    Reads (readOption read) (Storage.encodeOption write v) v := by
  cases v with
  | none => exact (readU8_reads 0).last (.pure none)
  | some a => exact (readU8_reads 1).bind ((h a rfl).last (.pure _))

theorem readMetadata_reads {metadata : FileMetadata}
    (h1 : ∀ v, metadata.modifiedTimeUnixSeconds = some v → InI64 v)
    (h2 : ∀ v, metadata.mode = some v → v < 2 ^ 32) :
    Reads readMetadata (Storage.encodeMetadata metadata) metadata :=
  (readOption_reads fun v hv => readI64_reads (h1 v hv)).bind
    ((readOption_reads fun v hv => readU32_reads (h2 v hv)).last (.pure _))

theorem readEnum_reads (role : TransferRole) (field : String) :
    Reads (readEnum field) [toU8 role] role := by
  refine (readU8_reads _).last ?_
  rw [ByteEnum.tryFrom_toU8]
  exact .pure role

/-! ## The manifest -/

/-- The fields of an entry have the types they have in the source. -/
structure EntryTyped (entry : ManifestEntry) : Prop where
  path : utf8Valid entry.relativePath = true
  modified : ∀ v, entry.metadata.modifiedTimeUnixSeconds = some v → InI64 v
  mode : ∀ v, entry.metadata.mode = some v → v < 2 ^ 32

theorem length_of_validated {path : Bytes} (h : validateRelativePath path = true) :
    path.length ≤ maxPathLen := by
  by_contra hlong
  have hlt : maxPathLen < path.length := Nat.not_le.1 hlong
  simp [validateRelativePath, hlt] at h

theorem readEntry_reads (ht : EntryTyped entry) (hsize : entry.size < 2 ^ 64)
    (hpath : validateRelativePath entry.relativePath = true) :
    Reads readEntry (encodeEntry entry) entry := by
  refine (readArray_reads entry.fileId).bind ?_
  refine (readString_reads (length_of_validated hpath) (by decide) ht.path).bind ?_
  refine (readU64_reads hsize).bind ((readDigest_reads entry.contentHash).bind ?_)
  refine (readMetadata_reads ht.modified ht.mode).last ?_
  rw [ManifestEntry.new, if_pos hpath]
  exact .pure entry

theorem readEntries_reads (h : ∀ e ∈ entries, EntryTyped e ∧ e.size < 2 ^ 64 ∧
    validateRelativePath e.relativePath = true) :
    Reads (readEntries entries.length) (entries.flatMap encodeEntry) entries := by
  induction entries with
  | nil => exact .pure []
  | cons entry entries ih =>
      obtain ⟨ht, hsize, hpath⟩ := h entry List.mem_cons_self
      have hrest := ih fun e he => h e (List.mem_cons_of_mem _ he)
      exact (readEntry_reads ht hsize hpath).bind (hrest.last (.pure _))

theorem size_lt_of_ok {total : Nat} (h : ManifestOk entries total) {e : ManifestEntry}
    (he : e ∈ entries) : e.size < 2 ^ 64 := by
  have hle : e.size ≤ (entries.map (·.size)).sum :=
    List.le_sum_of_mem (List.mem_map_of_mem he)
  have hbound := h.bound
  rw [h.sum] at hle
  unfold u64Max at hbound
  omega

/-- The digest makes no difference to what is accepted. -/
theorem new_digest (h : Manifest.new digest entries = .ok m) (manifestDigest : Digest) :
    Manifest.new manifestDigest entries = .ok { m with digest := manifestDigest } := by
  unfold Manifest.new at h ⊢
  split at h
  · cases h
  · next hlen =>
      rw [dif_neg hlen]
      split at h
      · cases h
      · next total hcheck =>
          cases h
          rfl

theorem readManifest_reads (hm : Manifest.new digest entries = .ok m)
    (ht : ∀ e ∈ entries, EntryTyped e) (manifestDigest : Digest) :
    Reads (readManifest manifestDigest) (encodeManifest (some m))
      (some { m with digest := manifestDigest }) := by
  obtain ⟨-, rfl⟩ := Manifest.new_ok hm
  have hcount : m.fileCount ≤ maxManifestFiles := m.ok.length
  have hfits : m.fileCount < 2 ^ 32 := Nat.lt_of_le_of_lt hcount (by decide)
  have hentries := readEntries_reads fun e he =>
    ⟨ht e he, size_lt_of_ok m.ok he, m.ok.paths e he⟩
  refine (readU8_reads 1).bind ((readU32_reads hfits).bind ?_)
  refine Reads.guard (Nat.not_lt.2 hcount) (hentries.last ?_)
  rw [new_digest hm manifestDigest]
  exact .pure _

/-! ## The ticket -/

theorem readTicket_reads (hticket : validateTicketBytes t.ticket = .ok ())
    (hlen : t.ticket.length ≤ maxTicketLen) {manifest : Option Manifest}
    (hmanifest : Reads (readManifest t.manifestDigest) (encodeManifest t.manifest) manifest) :
    Reads readTicket t.encode { t with manifest } := by
  refine (readExact_reads rfl).bind ?_
  refine .guard (by simp) ((readU8_reads resumeTicketVersion).bind ?_)
  refine .guard (by simp) ((readArray_reads t.pairingId).bind ?_)
  refine (readArray_reads t.transferId).bind ((readEnum_reads t.role _).bind ?_)
  refine (readDigest_reads t.manifestDigest).bind ?_
  refine (readU64_reads t.expiresAtMillis.toNat_lt).bind ?_
  refine (readBlob_reads hlen (by decide)).bind ?_
  have hvalid : Reads (liftM (validateTicketBytes t.ticket) : Reader Unit) [] () := .lift hticket
  refine hvalid.bind (hmanifest.last ?_)
  rw [UInt64.ofNat_toNat]
  exact .pure _

theorem fromWire_ok {pairingId : PairingId} {transferId : TransferId} {role : TransferRole}
    {expiresAtMillis : UInt64} {ticket : SessionTicket}
    (h : ResumeTicket.fromWire pairingId transferId role manifestDigest expiresAtMillis ticket =
      .ok t) :
    t = ⟨pairingId, transferId, role, manifestDigest, expiresAtMillis, ticket, none⟩ ∧
      validateTicketBytes ticket = .ok () ∧ ticket.length ≤ maxTicketLen := by
  unfold ResumeTicket.fromWire at h
  split at h
  · cases h
  · next u hvalid =>
      refine ⟨(Except.ok.inj h).symm, hvalid, ?_⟩
      by_contra hlong
      have hlt : maxTicketLen < ticket.length := Nat.not_le.1 hlong
      simp [validateTicketBytes, hlt] at hvalid

/-! ## The size of a ticket -/

/-- The bytes a file takes up in a ticket. -/
def entryLength (entry : ManifestEntry) : Nat :=
  63 + entry.relativePath.length +
    (if entry.metadata.modifiedTimeUnixSeconds.isSome then 8 else 0) +
    (if entry.metadata.mode.isSome then 4 else 0)

/-- The bytes a ticket with these files takes up. -/
def ticketLength (ticket : SessionTicket) (entries : List ManifestEntry) : Nat :=
  92 + ticket.length + (entries.map entryLength).sum

theorem length_encodeDigest (digest : Digest) : (Storage.encodeDigest digest).length = 33 := by
  simp [Storage.encodeDigest]

theorem length_encodeMetadata (metadata : FileMetadata) :
    (Storage.encodeMetadata metadata).length =
      2 + (if metadata.modifiedTimeUnixSeconds.isSome then 8 else 0) +
        (if metadata.mode.isSome then 4 else 0) := by
  obtain ⟨modified, mode⟩ := metadata
  cases modified <;> cases mode <;>
    simp [Storage.encodeMetadata, Storage.encodeOption, Storage.encodeI64]

theorem length_encodeEntry (entry : ManifestEntry) :
    (encodeEntry entry).length = entryLength entry := by
  simp only [encodeEntry, encodeBlob, List.length_append, length_beBytes, length_encodeDigest,
    length_encodeMetadata, Vector.length_toList, entryLength]
  omega

theorem length_encode (hmanifest : t.manifest = some m) (hentries : m.entries = entries) :
    t.encode.length = ticketLength t.ticket entries := by
  have hmagic : resumeTicketMagic.length = 8 := by decide
  have hsum : (m.entries.flatMap encodeEntry).length = (entries.map entryLength).sum := by
    rw [hentries, List.length_flatMap]
    simp only [length_encodeEntry]
  simp only [ResumeTicket.encode, hmanifest, encodeManifest, encodeBlob, List.length_append,
    List.length_cons, List.length_nil, length_beBytes, length_encodeDigest, Vector.length_toList,
    hmagic, hsum, ticketLength]
  omega

/-! ## Loading a ticket that was saved -/

theorem decode_of_reads {bytes : Bytes} (h : Reads readTicket bytes t) :
    ResumeTicket.decode bytes =
      if bytes.length > maxResumeTicketFileSize then
        .error (invalidResumeData "resume ticket 文件过大")
      else .ok t := by
  simp only [ResumeTicket.decode, h.whole, List.isEmpty_nil, if_true]

/-- A ticket with an accepted manifest is loaded as it was saved exactly if it keeps
within the limit for the file and is the ticket of that manifest. -/
theorem decode_encode_iff {pairingId : PairingId} {transferId : TransferId} {role : TransferRole}
    {expiresAtMillis : UInt64} {ticket : SessionTicket}
    (hwire : ResumeTicket.fromWire pairingId transferId role manifestDigest expiresAtMillis
      ticket = .ok t)
    (hm : Manifest.new digest entries = .ok m) (ht : ∀ e ∈ entries, EntryTyped e) :
    ResumeTicket.decode (t.withManifest m).encode = .ok (t.withManifest m) ↔
      ticketLength ticket entries ≤ maxResumeTicketFileSize ∧ digest = manifestDigest := by
  obtain ⟨rfl, hvalid, hlen⟩ := fromWire_ok hwire
  obtain ⟨hdigest, hentries⟩ := Manifest.new_ok hm
  let saved : ResumeTicket :=
    ⟨pairingId, transferId, role, manifestDigest, expiresAtMillis, ticket, some m⟩
  let loaded : ResumeTicket := { saved with manifest := some { m with digest := manifestDigest } }
  have hreads : Reads readTicket saved.encode loaded :=
    readTicket_reads hvalid hlen (readManifest_reads hm ht manifestDigest)
  have hlength : saved.encode.length = ticketLength ticket entries := length_encode rfl hentries
  show ResumeTicket.decode saved.encode = .ok saved ↔ _
  rw [decode_of_reads hreads, hlength]
  by_cases hsize : ticketLength ticket entries ≤ maxResumeTicketFileSize
  · rw [if_neg (Nat.not_lt.2 hsize)]
    have hsame : loaded = saved ↔ digest = manifestDigest := by
      simp only [loaded, saved, ResumeTicket.mk.injEq, Option.some.injEq, Manifest.ext_iff,
        and_true, true_and, hdigest]
      exact eq_comm
    rw [Except.ok.injEq, hsame]
    exact ⟨fun h => ⟨hsize, h⟩, fun h => h.2⟩
  · rw [if_pos (Nat.not_le.1 hsize)]
    exact iff_of_false (by simp) fun h => hsize h.1

/-- A ticket without a manifest, which is what a receiver has, is always loaded. -/
theorem decode_encode_of_none {pairingId : PairingId} {transferId : TransferId}
    {role : TransferRole} {expiresAtMillis : UInt64} {ticket : SessionTicket}
    (hwire : ResumeTicket.fromWire pairingId transferId role manifestDigest expiresAtMillis
      ticket = .ok t) :
    ResumeTicket.decode t.encode = .ok t := by
  obtain ⟨rfl, hvalid, hlen⟩ := fromWire_ok hwire
  let saved : ResumeTicket :=
    ⟨pairingId, transferId, role, manifestDigest, expiresAtMillis, ticket, none⟩
  have hnone : Reads (readManifest manifestDigest) (encodeManifest none) none :=
    (readU8_reads 0).last (.pure none)
  have hreads : Reads readTicket saved.encode saved := readTicket_reads hvalid hlen hnone
  have hmagic : resumeTicketMagic.length = 8 := by decide
  have hlength : saved.encode.length = 88 + ticket.length := by
    simp only [saved, ResumeTicket.encode, encodeManifest, encodeBlob, List.length_append,
      List.length_cons, List.length_nil, length_beBytes, length_encodeDigest,
      Vector.length_toList, hmagic]
    omega
  have hsmall : ¬ saved.encode.length > maxResumeTicketFileSize := by
    have hticket : ticket.length ≤ 4096 := hlen
    have hlimit : maxResumeTicketFileSize = 16777216 := rfl
    omega
  exact (decode_of_reads hreads).trans (if_neg hsmall)

/-! ## Manifests that are accepted -/

theorem checkEntries_of_distinct {ids : List FileId} {paths : List Bytes} {sum : Nat}
    (hvalid : ∀ e ∈ entries, validateRelativePath e.relativePath = true)
    (hids : (entries.map (·.fileId)).Nodup) (hid : ∀ e ∈ entries, e.fileId ∉ ids)
    (hpaths : (entries.map (·.relativePath)).Nodup) (hpath : ∀ e ∈ entries, e.relativePath ∉ paths)
    (hsum : sum + (entries.map (·.size)).sum ≤ u64Max) :
    ∃ total, checkEntries entries ids paths sum = .ok total := by
  induction entries generalizing ids paths sum with
  | nil => exact ⟨sum, rfl⟩
  | cons entry rest ih =>
      simp only [List.map_cons, List.nodup_cons, List.mem_map, not_exists, not_and] at hids hpaths
      rw [List.map_cons, List.sum_cons, ← Nat.add_assoc] at hsum
      have hadd : checkedAdd sum entry.size = some (sum + entry.size) :=
        checkedAdd_eq_some.2 ⟨by omega, rfl⟩
      have hentry : entry ∈ entry :: rest := List.mem_cons_self
      simp only [checkEntries, hvalid entry hentry, Bool.not_true, Bool.false_eq_true, if_false,
        if_neg (hid entry hentry), if_neg (hpath entry hentry), hadd]
      refine ih (fun e he => hvalid e (List.mem_cons_of_mem _ he)) hids.2 (fun e he => ?_)
        hpaths.2 (fun e he => ?_) hsum
      · rw [List.mem_cons, not_or]
        exact ⟨fun hx => hids.1 e he hx, hid e (List.mem_cons_of_mem _ he)⟩
      · rw [List.mem_cons, not_or]
        exact ⟨fun hx => hpaths.1 e he hx, hpath e (List.mem_cons_of_mem _ he)⟩

theorem new_of_checkEntries {total : Nat} (digest : Digest)
    (hlen : entries.length ≤ maxManifestFiles)
    (h : checkEntries entries [] [] 0 = .ok total) : ∃ m, Manifest.new digest entries = .ok m := by
  unfold Manifest.new
  rw [dif_neg (Nat.not_lt.2 hlen)]
  split
  · next e he =>
      rw [h] at he
      cases he
  · exact ⟨_, rfl⟩

end

/-! ## A ticket that is saved and not loaded -/

section Sample

def sampleDigest : Digest := ⟨.blake3, Vector.replicate 32 4⟩

/-- A ticket for the manifest of that digest. -/
def sampleTicket : ResumeTicket where
  pairingId := Vector.replicate 16 8
  transferId := Vector.replicate 16 3
  role := .offerer
  manifestDigest := sampleDigest
  expiresAtMillis := 7
  ticket := List.replicate 32 9
  manifest := none

def sampleEntry : ManifestEntry where
  fileId := Vector.replicate 16 5
  relativePath := ascii "folder/file.bin"
  size := 3
  contentHash := ⟨.blake3, Vector.replicate 32 6⟩
  metadata := ⟨some 7, some 0o600⟩

theorem sampleTicket_ok :
    ResumeTicket.fromWire (Vector.replicate 16 8) (Vector.replicate 16 3) .offerer sampleDigest 7
      (List.replicate 32 9) = .ok sampleTicket := rfl

theorem sampleEntry_typed : EntryTyped sampleEntry where
  path := by decide +kernel
  modified := fun v h => by
    obtain rfl := Option.some.inj h
    exact ⟨by decide, by decide⟩
  mode := fun v h => by
    obtain rfl := Option.some.inj h
    decide

/-- A ticket with one file. -/
theorem decode_encode_iff_one :
    ∃ m, Manifest.new sampleDigest [sampleEntry] = .ok m ∧
      (ResumeTicket.decode (sampleTicket.withManifest m).encode =
          .ok (sampleTicket.withManifest m) ↔
        ticketLength (List.replicate 32 9) [sampleEntry] ≤ maxResumeTicketFileSize ∧
          sampleDigest = sampleDigest) := by
  have hcheck : checkEntries [sampleEntry] [] [] 0 = .ok 3 := by decide +kernel
  obtain ⟨m, hm⟩ := new_of_checkEntries sampleDigest (by decide) hcheck
  refine ⟨m, hm, decode_encode_iff sampleTicket_ok hm fun e he => ?_⟩
  obtain rfl := List.mem_singleton.1 he
  exact sampleEntry_typed

/-- One of 4096 different names of 4096 bytes. -/
def markedPath (i : Nat) : Bytes := List.replicate i 97 ++ 98 :: List.replicate (4095 - i) 97

def markedId (i : Nat) : FileId := ⟨(beBytes 16 i).toArray, by simp⟩

def markedEntry (i : Nat) : ManifestEntry where
  fileId := markedId i
  relativePath := markedPath i
  size := 0
  contentHash := sampleDigest
  metadata := ⟨none, none⟩

/-- Empty files with long names, far fewer than a manifest may have. -/
def markedEntries : List ManifestEntry := (List.range 4096).map markedEntry

theorem length_markedPath {i : Nat} (h : i < 4096) : (markedPath i).length = 4096 := by
  simp only [markedPath, List.length_append, List.length_replicate, List.length_cons]
  omega

theorem mem_markedPath {i : Nat} {b : UInt8} (h : b ∈ markedPath i) : b = 97 ∨ b = 98 := by
  simp only [markedPath, List.mem_append, List.mem_replicate, List.mem_cons] at h
  rcases h with ⟨-, rfl⟩ | rfl | ⟨-, rfl⟩
  · exact .inl rfl
  · exact .inr rfl
  · exact .inl rfl

theorem markedPath_injective {i j : Nat} (h : markedPath i = markedPath j) : i = j := by
  have hindex : ∀ k, (markedPath k).idxOf 98 = k := by
    intro k
    have hnone : (98 : UInt8) ∉ List.replicate k (97 : UInt8) := by simp
    rw [markedPath, List.idxOf_append_of_notMem hnone, List.idxOf_cons_self, List.length_replicate,
      Nat.add_zero]
  rw [← hindex i, h, hindex]

theorem markedId_injective {i j : Nat} (hi : i < 4096) (hj : j < 4096)
    (h : markedId i = markedId j) : i = j := by
  have hvalue : ∀ k < 4096, ofBe (markedId k).toList = k := by
    intro k hk
    show ofBe (beBytes 16 k) = k
    rw [ofBe_beBytes]
    exact Nat.mod_eq_of_lt (by omega)
  rw [← hvalue i hi, h, hvalue j hj]

theorem splitSlash_of_no_slash {path : Bytes} (h : ∀ b ∈ path, b ≠ slash) :
    splitSlash path = [path] := by
  induction path with
  | nil => rfl
  | cons b rest ih =>
      rw [splitSlash, if_neg (h b List.mem_cons_self),
        ih fun c hc => h c (List.mem_cons_of_mem _ hc)]

theorem markedPath_valid {i : Nat} (h : i < 4096) :
    validateRelativePath (markedPath i) = true := by
  have hlen := length_markedPath h
  have hslash : ∀ b ∈ markedPath i, b ≠ slash := by
    intro b hb
    rcases mem_markedPath hb with rfl | rfl <;> decide
  have hno : ∀ b : UInt8, b ≠ 97 → b ≠ 98 → b ∉ markedPath i := by
    intro b h1 h2 hb
    exact (mem_markedPath hb).elim h1 h2
  have hhead : (markedPath i).head? ≠ some slash := by
    intro hx
    exact hslash _ (List.mem_of_head? hx) rfl
  have hlong : ∀ short : Bytes, short.length < 4096 → markedPath i ≠ short := by
    intro short hshort hx
    rw [← hx, hlen] at hshort
    omega
  have hempty : markedPath i ≠ [] := hlong [] (by decide)
  have hdot : markedPath i ≠ ascii "." := hlong _ (by decide)
  have hdots : markedPath i ≠ ascii ".." := hlong _ (by decide)
  simp [validateRelativePath, splitSlash_of_no_slash hslash, hempty, hdot, hdots, hhead, hlen,
    maxPathLen, hno 0 (by decide) (by decide), hno 92 (by decide) (by decide)]

theorem mem_markedEntries {e : ManifestEntry} (h : e ∈ markedEntries) :
    ∃ i < 4096, e = markedEntry i := by
  obtain ⟨i, hi, rfl⟩ := List.mem_map.1 h
  exact ⟨i, List.mem_range.1 hi, rfl⟩

theorem markedEntries_accepted : ∃ m, Manifest.new sampleDigest markedEntries = .ok m := by
  have hvalid : ∀ e ∈ markedEntries, validateRelativePath e.relativePath = true := by
    intro e he
    obtain ⟨i, hi, rfl⟩ := mem_markedEntries he
    exact markedPath_valid hi
  have hids : (markedEntries.map (·.fileId)).Nodup := by
    rw [markedEntries, List.map_map]
    refine List.Nodup.map_on (fun i hi j hj h => ?_) List.nodup_range
    exact markedId_injective (List.mem_range.1 hi) (List.mem_range.1 hj) h
  have hpaths : (markedEntries.map (·.relativePath)).Nodup := by
    rw [markedEntries, List.map_map]
    exact List.Nodup.map_on (fun i _ j _ h => markedPath_injective h) List.nodup_range
  have hsum : (markedEntries.map (·.size)).sum = 0 := by
    rw [List.sum_eq_zero_iff]
    intro size hsize
    obtain ⟨e, he, rfl⟩ := List.mem_map.1 hsize
    obtain ⟨i, -, rfl⟩ := mem_markedEntries he
    rfl
  have hchecked : ∃ total, checkEntries markedEntries [] [] 0 = .ok total :=
    checkEntries_of_distinct hvalid hids (fun _ _ => List.not_mem_nil) hpaths
      (fun _ _ => List.not_mem_nil) (by rw [hsum]; exact Nat.zero_le _)
  obtain ⟨total, hcheck⟩ := hchecked
  have hlen : markedEntries.length ≤ maxManifestFiles := by
    rw [markedEntries, List.length_map, List.length_range]
    decide
  exact new_of_checkEntries sampleDigest hlen hcheck

theorem markedEntries_typed : ∀ e ∈ markedEntries, EntryTyped e := by
  intro e he
  obtain ⟨i, -, rfl⟩ := mem_markedEntries he
  refine ⟨utf8Valid_of_ascii fun b hb => ?_, nofun, nofun⟩
  rcases mem_markedPath hb with rfl | rfl <;> decide

theorem markedEntries_length : maxResumeTicketFileSize <
    ticketLength (List.replicate 32 9) markedEntries := by
  have hentry : ∀ i ∈ List.range 4096, entryLength (markedEntry i) = 4159 := by
    intro i hi
    have hlen := length_markedPath (List.mem_range.1 hi)
    show 63 + (markedPath i).length + 0 + 0 = 4159
    omega
  have hsum : (markedEntries.map entryLength).sum = 4096 * 4159 := by
    have hmap : (List.range 4096).map (entryLength ∘ markedEntry) =
        (List.range 4096).map fun _ => 4159 := List.map_congr_left hentry
    rw [markedEntries, List.map_map, hmap, List.map_const', List.length_range,
      List.sum_replicate_nat]
  have hlimit : maxResumeTicketFileSize = 16777216 := rfl
  rw [ticketLength, hsum, hlimit]
  omega

/-- A ticket for 4096 files whose names have 4096 bytes can be saved, but what was
saved is not taken for a ticket. -/
theorem large_ticket_is_lost :
    ¬ ∀ (pairingId : PairingId) (transferId : TransferId) (role : TransferRole)
      (manifestDigest : Digest) (expiresAtMillis : UInt64) (ticket : SessionTicket)
      (t : ResumeTicket) (entries : List ManifestEntry) (m : Manifest),
      ResumeTicket.fromWire pairingId transferId role manifestDigest expiresAtMillis ticket =
        .ok t →
      Manifest.new manifestDigest entries = .ok m → (∀ e ∈ entries, EntryTyped e) →
      ResumeTicket.decode (t.withManifest m).encode = .ok (t.withManifest m) := by
  intro hall
  obtain ⟨m, hm⟩ := markedEntries_accepted
  have hloaded := hall _ _ _ _ _ _ _ _ m sampleTicket_ok hm markedEntries_typed
  have hsize := ((decode_encode_iff sampleTicket_ok hm markedEntries_typed).1 hloaded).1
  exact absurd markedEntries_length (Nat.not_lt.2 hsize)

end Sample

end DartUdp.Client
