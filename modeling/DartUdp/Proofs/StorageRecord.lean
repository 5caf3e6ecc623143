import DartUdp.Storage.Record

/-!
# A record survives being written and read

Every reader takes back what its writer put in front, whatever follows. A
record that was read is `Valid`: its numbers fit their fields and its paths
have passed their checks. A valid record is read back as it was written.

`readRecord_encodeState` and `readRecord_valid` are these two,
`readStateBytes_encodeState` and `readStateBytes_valid` the same of a whole file,
and `readStateBytes_too_long` is the record of a path that is too long.
-/

namespace DartUdp.Storage

open DartUdp.Lib DartUdp.Transfer

variable {α β : Type}

/-! ## Running a reader -/

theorem reader_bind_ok {m : Reader α} {f : α → Reader β} {s s' : Bytes} {a : α}
    (h : m s = .ok (a, s')) : (m >>= f) s = f a s' := by
  show (StateT.bind m f) s = _
  simp only [StateT.bind, h]
  rfl

theorem reader_bind_error {m : Reader α} {f : α → Reader β} {s : Bytes} {e : StorageError}
    (h : m s = .error e) : (m >>= f) s = .error e := by
  show (StateT.bind m f) s = _
  simp only [StateT.bind, h]
  rfl

theorem reader_bind_inv {m : Reader α} {f : α → Reader β} {s s'' : Bytes} {b : β}
    (h : (m >>= f) s = .ok (b, s'')) :
    ∃ a s', m s = .ok (a, s') ∧ f a s' = .ok (b, s'') := by
  change (StateT.bind m f) s = _ at h
  cases hm : m s with
  | error e =>
      simp only [StateT.bind, hm] at h
      cases h
  | ok p =>
      refine ⟨p.1, p.2, rfl, ?_⟩
      simp only [StateT.bind, hm] at h
      exact h

theorem readExact_append {n : Nat} {xs : Bytes} (h : xs.length = n) (rest : Bytes) :
    readExact n (xs ++ rest) = .ok (xs, rest) := by
  subst h
  simp [readExact]

theorem readU8_cons (b : UInt8) (rest : Bytes) : readU8 (b :: rest) = .ok (b, rest) := by
  have h : readExact 1 (b :: rest) = .ok ([b], rest) := @readExact_append 1 [b] rfl rest
  exact reader_bind_ok h

theorem readU32_append {v : Nat} (h : v < 2 ^ 32) (rest : Bytes) :
    readU32 (beBytes 4 v ++ rest) = .ok (v, rest) := by
  simp only [readU32]
  rw [reader_bind_ok (readExact_append (by simp) rest), ofBe_beBytes, Nat.mod_eq_of_lt (by omega)]
  rfl

theorem readU64_append {v : Nat} (h : v < 2 ^ 64) (rest : Bytes) :
    readU64 (beBytes 8 v ++ rest) = .ok (v, rest) := by
  simp only [readU64]
  rw [reader_bind_ok (readExact_append (by simp) rest), ofBe_beBytes, Nat.mod_eq_of_lt (by omega)]
  rfl

/-- The range of an `i64`. -/
def InI64 (v : Int) : Prop := -2 ^ 63 ≤ v ∧ v < 2 ^ 63

theorem readI64_append {v : Int} (h : InI64 v) (rest : Bytes) :
    readI64 (encodeI64 v ++ rest) = .ok (v, rest) := by
  obtain ⟨hlo, hhi⟩ := h
  simp only [readI64, encodeI64]
  rw [reader_bind_ok (readExact_append (by simp) rest), ofBe_beBytes,
    Nat.mod_eq_of_lt (by omega)]
  have hv : (if (v % 2 ^ 64).toNat < 2 ^ 63 then ((v % 2 ^ 64).toNat : Int)
      else ((v % 2 ^ 64).toNat : Int) - 2 ^ 64) = v := by
    split <;> omega
  rw [hv]
  rfl

theorem readArray_append {n : Nat} (v : Vector UInt8 n) (rest : Bytes) :
    readArray n (v.toList ++ rest) = .ok (v, rest) := by
  have hlen : v.toList.length = n := by simp
  have hdrop : (v.toList ++ rest).drop n = rest := List.drop_left' hlen
  have htake : (v.toList ++ rest).take n = v.toList := List.take_left' hlen
  simp only [readArray]
  rw [dif_pos (by simp)]
  rw [hdrop]
  congr 2
  apply Vector.ext
  intro i hi
  simp [htake]

/-- A text `read_string` takes. -/
def GoodText (text : Bytes) : Prop := text.length ≤ maxPathLen ∧ utf8Valid text = true

theorem readString_append {text : Bytes} (h : GoodText text) (rest : Bytes) :
    readString (encodeString text ++ rest) = .ok (text, rest) := by
  have hlen : text.length < 2 ^ 32 := Nat.lt_of_le_of_lt h.1 (by decide)
  simp only [readString, encodeString, List.append_assoc]
  rw [reader_bind_ok (readU32_append hlen _), if_neg (Nat.not_lt.2 h.1),
    reader_bind_ok (readExact_append rfl rest), if_pos h.2]
  rfl

theorem readDigest_append (digest : Digest) (rest : Bytes) :
    readDigest (encodeDigest digest ++ rest) = .ok (digest, rest) := by
  obtain ⟨algorithm, bytes⟩ := digest
  simp only [readDigest, encodeDigest, List.cons_append]
  rw [reader_bind_ok (readU8_cons _ _)]
  cases algorithm with
  | blake3 => exact reader_bind_ok (readArray_append bytes rest)
  | sha256 => exact reader_bind_ok (readArray_append bytes rest)

theorem readOption_append {read : Reader α} {encode : α → Bytes} {v : Option α} (rest : Bytes)
    (h : ∀ a, v = some a → read (encode a ++ rest) = .ok (a, rest)) :
    readOption read (encodeOption encode v ++ rest) = .ok (v, rest) := by
  cases v with
  | none => exact reader_bind_ok (readU8_cons 0 rest)
  | some a =>
      refine (reader_bind_ok (readU8_cons 1 _)).trans ?_
      exact reader_bind_ok (h a rfl)

/-! ## Valid records -/

structure StateRecord.Valid (r : StateRecord) : Prop where
  path_text : GoodText r.registration.relativePath
  path : validateStoragePath r.registration.relativePath = .ok ()
  size : r.registration.size < 2 ^ 64
  modified : ∀ v, r.registration.metadata.modifiedTimeUnixSeconds = some v → InI64 v
  mode : ∀ v, r.registration.metadata.mode = some v → v < 2 ^ 32
  durable : r.durableOffset < 2 ^ 64
  checkpoint : r.checkpointId < 2 ^ 64
  installed : ∀ p, r.installedRelativePath = some p →
    GoodText p ∧ validateStoragePath p = .ok ()

theorem checkPath_ok {path : Bytes} (h : validateStoragePath path = .ok ()) (s : Bytes) :
    checkPath path s = .ok ((), s) := by simp only [checkPath, h]

theorem readMetadata_append {m : FileMetadata}
    (h1 : ∀ v, m.modifiedTimeUnixSeconds = some v → InI64 v)
    (h2 : ∀ v, m.mode = some v → v < 2 ^ 32) (rest : Bytes) :
    readMetadata (encodeMetadata m ++ rest) = .ok (m, rest) := by
  simp only [readMetadata, encodeMetadata, List.append_assoc]
  rw [reader_bind_ok (readOption_append _ fun v hv => readI64_append (h1 v hv) _),
    reader_bind_ok (readOption_append _ fun v hv => readU32_append (h2 v hv) _)]
  rfl

theorem readFlag_cons (b : Bool) (rest : Bytes) :
    readFlag ((if b then 1 else 0) :: rest) = .ok (b, rest) := by
  simp only [readFlag]
  rw [reader_bind_ok (readU8_cons _ rest)]
  cases b <;> rfl

/-- Everything before the installed path is read back. -/
theorem readRecord_encodeState_eq {r : StateRecord}
    (h : ({ r with installedRelativePath := none } : StateRecord).Valid) :
    readRecord (encodeState r) =
      (do
        let installed ← readOption readString
        match installed with
        | some path => checkPath path
        | none => pure ()
        pure { r with installedRelativePath := installed } : Reader StateRecord)
        (encodeOption encodeString r.installedRelativePath) := by
  obtain ⟨⟨transferId, fileId, relativePath, size, contentHash, metadata⟩, durableOffset,
    checkpointId, stateHash, complete, installed⟩ := r
  simp only [readRecord, encodeState, List.append_assoc, List.cons_append]
  rw [reader_bind_ok (readExact_append rfl _), if_neg (by simp),
    reader_bind_ok (readU8_cons _ _), if_neg (by simp),
    reader_bind_ok (readArray_append _ _), reader_bind_ok (readArray_append _ _),
    reader_bind_ok (readString_append h.path_text _), reader_bind_ok (checkPath_ok h.path _),
    reader_bind_ok (readU64_append h.size _), reader_bind_ok (readDigest_append _ _),
    reader_bind_ok (readMetadata_append h.modified h.mode _),
    reader_bind_ok (readU64_append h.durable _), reader_bind_ok (readU64_append h.checkpoint _),
    reader_bind_ok (readDigest_append _ _)]
  exact reader_bind_ok (readFlag_cons _ _)

theorem StateRecord.Valid.uninstalled {r : StateRecord} (h : r.Valid) :
    ({ r with installedRelativePath := none } : StateRecord).Valid :=
  ⟨h.path_text, h.path, h.size, h.modified, h.mode, h.durable, h.checkpoint,
    fun p hp => by cases hp⟩

theorem readRecord_encodeState {r : StateRecord} (h : r.Valid) :
    readRecord (encodeState r) = .ok (r, []) := by
  have hinst : readOption readString (encodeOption encodeString r.installedRelativePath) =
      .ok (r.installedRelativePath, []) := by
    have := readOption_append [] fun p hp => readString_append (h.installed p hp).1 []
    rwa [List.append_nil] at this
  rw [readRecord_encodeState_eq h.uninstalled, reader_bind_ok hinst]
  cases hr : r.installedRelativePath with
  | none => simp only [← hr]; rfl
  | some p =>
      simp only [← hr]
      exact reader_bind_ok (checkPath_ok (h.installed p hr).2 [])

/-- A valid record is read back. -/
theorem readStateBytes_encodeState {r : StateRecord} (h : r.Valid) :
    readStateBytes (encodeState r) = .ok r := by
  simp [readStateBytes, readRecord_encodeState h]

theorem readString_too_long {text : Bytes} (h : maxPathLen < text.length)
    (hlen : text.length < 2 ^ 32) (rest : Bytes) :
    readString (encodeString text ++ rest) = .error .malformedState := by
  simp only [readString, encodeString, List.append_assoc]
  rw [reader_bind_ok (readU32_append hlen _), if_pos h]
  rfl

/-- A record whose installed path is too long is written, but not read back. -/
theorem readStateBytes_too_long {r : StateRecord} {path : Bytes}
    (h : ({ r with installedRelativePath := none } : StateRecord).Valid)
    (hr : r.installedRelativePath = some path) (hpath : maxPathLen < path.length)
    (hlen : path.length < 2 ^ 32) : readStateBytes (encodeState r) = .error .malformedState := by
  have hread := readString_too_long hpath hlen []
  rw [List.append_nil] at hread
  have hinst : readOption readString (encodeOption encodeString (some path)) =
      .error .malformedState :=
    (reader_bind_ok (readU8_cons 1 _)).trans (reader_bind_error hread)
  have hrec : readRecord (encodeState r) = .error .malformedState := by
    rw [readRecord_encodeState_eq h, hr]
    exact reader_bind_error hinst
  simp only [readStateBytes, hrec]

/-! ## What was read is valid -/

theorem readExact_inv {n : Nat} {s s' xs : Bytes} (h : readExact n s = .ok (xs, s')) :
    xs.length = n := by
  simp only [readExact] at h
  split at h
  · next hle =>
      obtain ⟨rfl, rfl⟩ := Prod.mk.inj (Except.ok.inj h)
      simp [hle]
  · cases h

theorem readU64_lt {s s' : Bytes} {v : Nat} (h : readU64 s = .ok (v, s')) : v < 2 ^ 64 := by
  obtain ⟨xs, s₁, hx, hv⟩ := reader_bind_inv h
  obtain ⟨rfl, rfl⟩ := Prod.mk.inj (Except.ok.inj hv)
  have := ofBe_lt xs
  rw [readExact_inv hx] at this
  omega

theorem readU32_lt {s s' : Bytes} {v : Nat} (h : readU32 s = .ok (v, s')) : v < 2 ^ 32 := by
  obtain ⟨xs, s₁, hx, hv⟩ := reader_bind_inv h
  obtain ⟨rfl, rfl⟩ := Prod.mk.inj (Except.ok.inj hv)
  have := ofBe_lt xs
  rw [readExact_inv hx] at this
  omega

theorem readI64_range {s s' : Bytes} {v : Int} (h : readI64 s = .ok (v, s')) : InI64 v := by
  obtain ⟨xs, s₁, hx, hv⟩ := reader_bind_inv h
  obtain ⟨rfl, rfl⟩ := Prod.mk.inj (Except.ok.inj hv)
  have := ofBe_lt xs
  rw [readExact_inv hx] at this
  unfold InI64
  split <;> omega

theorem readString_good {s s' text : Bytes} (h : readString s = .ok (text, s')) :
    GoodText text := by
  obtain ⟨n, s₁, _, h⟩ := reader_bind_inv h
  split at h
  · cases h
  · next hn =>
      obtain ⟨xs, s₂, hx, h⟩ := reader_bind_inv h
      split at h
      · next hutf =>
          obtain ⟨rfl, rfl⟩ := Prod.mk.inj (Except.ok.inj h)
          exact ⟨by rw [readExact_inv hx]; exact Nat.not_lt.1 hn, hutf⟩
      · cases h

theorem readOption_inv {read : Reader α} {s s' : Bytes} {v : Option α}
    (h : readOption read s = .ok (v, s')) :
    v = none ∨ ∃ a s₁, v = some a ∧ read s₁ = .ok (a, s') := by
  obtain ⟨flag, s₁, _, h⟩ := reader_bind_inv h
  split at h
  · obtain ⟨rfl, rfl⟩ := Prod.mk.inj (Except.ok.inj h)
    exact .inl rfl
  · split at h
    · obtain ⟨a, s₂, ha, h⟩ := reader_bind_inv h
      obtain ⟨rfl, rfl⟩ := Prod.mk.inj (Except.ok.inj h)
      exact .inr ⟨a, s₁, rfl, ha⟩
    · cases h

theorem checkPath_inv {path s s' : Bytes} (h : checkPath path s = .ok ((), s')) :
    validateStoragePath path = .ok () := by
  simp only [checkPath] at h
  split at h
  · next hv => exact hv
  · cases h

theorem readRecord_valid {s s' : Bytes} {r : StateRecord} (h : readRecord s = .ok (r, s')) :
    r.Valid := by
  obtain ⟨magic, s₁, _, h⟩ := reader_bind_inv h
  split at h
  · cases h
  · obtain ⟨version, s₂, _, h⟩ := reader_bind_inv h
    split at h
    · cases h
    · obtain ⟨transferId, s₃, _, h⟩ := reader_bind_inv h
      obtain ⟨fileId, s₄, _, h⟩ := reader_bind_inv h
      obtain ⟨relativePath, s₅, hpath, h⟩ := reader_bind_inv h
      obtain ⟨⟨⟩, s₆, hcheck, h⟩ := reader_bind_inv h
      obtain ⟨size, s₇, hsize, h⟩ := reader_bind_inv h
      obtain ⟨contentHash, s₈, _, h⟩ := reader_bind_inv h
      obtain ⟨metadata, s₉, hmeta, h⟩ := reader_bind_inv h
      obtain ⟨durableOffset, s₁₀, hdur, h⟩ := reader_bind_inv h
      obtain ⟨checkpointId, s₁₁, hckpt, h⟩ := reader_bind_inv h
      obtain ⟨stateHash, s₁₂, _, h⟩ := reader_bind_inv h
      obtain ⟨complete, s₁₃, _, h⟩ := reader_bind_inv h
      obtain ⟨installed, s₁₄, hinst, h⟩ := reader_bind_inv h
      obtain ⟨modified, t₁, hmod, hmeta⟩ := reader_bind_inv hmeta
      obtain ⟨mode, t₂, hmode, hmeta⟩ := reader_bind_inv hmeta
      obtain ⟨rfl, rfl⟩ := Prod.mk.inj (Except.ok.inj hmeta)
      have hinstalled : ∀ p, installed = some p →
          GoodText p ∧ validateStoragePath p = .ok () := by
        rintro p rfl
        obtain ⟨⟨⟩, t₃, hc, _⟩ := reader_bind_inv h
        rcases readOption_inv hinst with hnone | ⟨a, t₄, ha, hread⟩
        · cases hnone
        · obtain rfl := Option.some.inj ha
          exact ⟨readString_good hread, checkPath_inv hc⟩
      have hr : r = ⟨⟨transferId, fileId, relativePath, size, contentHash, ⟨modified, mode⟩⟩,
          durableOffset, checkpointId, stateHash, complete, installed⟩ := by
        cases installed with
        | none => exact (Prod.mk.inj (Except.ok.inj h)).1.symm
        | some p =>
            obtain ⟨⟨⟩, t₃, _, h⟩ := reader_bind_inv h
            exact (Prod.mk.inj (Except.ok.inj h)).1.symm
      subst hr
      refine ⟨readString_good hpath, checkPath_inv hcheck, readU64_lt hsize, ?_, ?_,
        readU64_lt hdur, readU64_lt hckpt, hinstalled⟩
      · rintro v rfl
        rcases readOption_inv hmod with hnone | ⟨a, t₄, ha, hread⟩
        · cases hnone
        · obtain rfl := Option.some.inj ha
          exact readI64_range hread
      · rintro v rfl
        rcases readOption_inv hmode with hnone | ⟨a, t₄, ha, hread⟩
        · cases hnone
        · obtain rfl := Option.some.inj ha
          exact readU32_lt hread

theorem readStateBytes_valid {bytes : Bytes} {r : StateRecord}
    (h : readStateBytes bytes = .ok r) : r.Valid := by
  simp only [readStateBytes] at h
  split at h
  · cases h
  · next record rest hrec =>
      split at h
      · obtain rfl := Except.ok.inj h
        exact readRecord_valid hrec
      · cases h

end DartUdp.Storage
