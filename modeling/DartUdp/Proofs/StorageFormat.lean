import DartUdp.Lib.Codec
import DartUdp.Proofs.StoragePaths

/-!
# A record ends where it says

Where a record ends depends on what is in it: on two lengths and four flags. No
field looks further than its own bytes, though, and so neither does the reader of
a record. What it answers for some bytes it answers whatever follows them, and the
check that nothing does follow tells a whole record from a torn or a padded one.

The module is for `encodeState_self_delimiting`. `readRecord_local` is the reader of
a record, and `readStateBytes_no_more` and `readStateBytes_error` say what follows
for longer bytes and for shorter ones.
-/

namespace DartUdp.Storage

open DartUdp.Lib DartUdp.Transfer

variable {α β : Type} {r : StateRecord} {registration : FileRegistration}

/-! ## What the types say -/

/-- The fields have the types they have in the source. -/
structure FileRegistration.Typed (registration : FileRegistration) : Prop where
  path : utf8Valid registration.relativePath = true
  size : registration.size < 2 ^ 64
  modified : ∀ v, registration.metadata.modifiedTimeUnixSeconds = some v → InI64 v
  mode : ∀ v, registration.metadata.mode = some v → v < 2 ^ 32

structure StateRecord.Typed (r : StateRecord) : Prop where
  registration : r.registration.Typed
  durable : r.durableOffset < 2 ^ 64
  checkpoint : r.checkpointId < 2 ^ 64
  installed : ∀ p, r.installedRelativePath = some p → utf8Valid p = true

theorem goodText_of_checked {path : Bytes} (hutf : utf8Valid path = true)
    (h : validateStoragePath path = .ok ()) : GoodText path :=
  ⟨(validateStoragePath_iff.1 h).length, hutf⟩

theorem StateRecord.Typed.valid (h : r.Typed)
    (hpath : validateStoragePath r.registration.relativePath = .ok ())
    (hinstalled : ∀ p, r.installedRelativePath = some p → validateStoragePath p = .ok ()) :
    r.Valid where
  path_text := goodText_of_checked h.registration.path hpath
  path := hpath
  size := h.registration.size
  modified := h.registration.modified
  mode := h.registration.mode
  durable := h.durable
  checkpoint := h.checkpoint
  installed := fun p hp =>
    ⟨goodText_of_checked (h.installed p hp) (hinstalled p hp), hinstalled p hp⟩

/-! ## No field looks further -/

theorem readExact_local (n : Nat) : Local (readExact n) :=
  exactly_local n StorageError.malformedState

theorem readU8_local : Local readU8 := by
  refine (readExact_local 1).bind fun bytes => ?_
  split
  · exact .pure _
  · exact .throw

theorem readU32_local : Local readU32 := (readExact_local 4).bind fun _ => .pure _

theorem readU64_local : Local readU64 := (readExact_local 8).bind fun _ => .pure _

theorem readI64_local : Local readI64 := (readExact_local 8).bind fun _ => .pure _

theorem readArray_local (n : Nat) : Local (readArray n) := by
  intro s v s' h
  simp only [readArray] at h
  split at h
  · next hlen =>
      obtain ⟨rfl, rfl⟩ := Prod.mk.inj (Except.ok.inj h)
      have hreads := readArray_append (⟨(s.take n).toArray, by simp [hlen]⟩ : Vector UInt8 n)
      exact ⟨s.take n, (List.take_append_drop n s).symm, hreads⟩
  · cases h

theorem readString_local : Local readString := by
  refine readU32_local.bind fun length => .ite .throw ?_
  exact (readExact_local length).bind fun bytes => .ite (.pure _) .throw

theorem readDigest_local : Local readDigest := by
  refine readU8_local.bind fun tag => .ite ?_ (.ite ?_ .throw)
  · exact (readArray_local 32).bind fun _ => .pure _
  · exact (readArray_local 32).bind fun _ => .pure _

theorem readOption_local {read : Reader α} (h : Local read) : Local (readOption read) :=
  readU8_local.bind fun _ => .ite (.pure _) (.ite (h.bind fun _ => .pure _) .throw)

theorem readMetadata_local : Local readMetadata :=
  (readOption_local readI64_local).bind fun _ =>
    (readOption_local readU32_local).bind fun _ => .pure _

theorem checkPath_local (path : Bytes) : Local (checkPath path) := by
  intro s a s' h
  simp only [checkPath] at h
  split at h
  · next hpath =>
      obtain ⟨rfl, rfl⟩ := Prod.mk.inj (Except.ok.inj h)
      exact ⟨[], rfl, checkPath_ok hpath⟩
  · cases h

theorem readFlag_local : Local readFlag :=
  readU8_local.bind fun _ => .ite (.pure _) (.ite (.pure _) .throw)

theorem readRecord_local : Local readRecord := by
  refine (readExact_local _).bind fun magic => .ite .throw ?_
  refine readU8_local.bind fun version => .ite .throw ?_
  refine (readArray_local 16).bind fun transferId => (readArray_local 16).bind fun fileId => ?_
  refine readString_local.bind fun relativePath => (checkPath_local relativePath).bind fun _ => ?_
  refine readU64_local.bind fun size => readDigest_local.bind fun contentHash => ?_
  refine readMetadata_local.bind fun metadata => readU64_local.bind fun durableOffset => ?_
  refine readU64_local.bind fun checkpointId => readDigest_local.bind fun stateHash => ?_
  refine readFlag_local.bind fun complete => (readOption_local readString_local).bind fun path => ?_
  cases path with
  | none => exact .pure _
  | some path => exact (checkPath_local path).bind fun _ => .pure _

/-! ## Torn and padded records -/

theorem readStateBytes_inv {bytes : Bytes} (h : readStateBytes bytes = .ok r) :
    readRecord bytes = .ok (r, []) := by
  simp only [readStateBytes] at h
  split at h
  · cases h
  · next record rest hrec =>
      split at h
      · next hempty =>
          obtain rfl := Except.ok.inj h
          rw [hrec, List.isEmpty_iff.1 hempty]
      · cases h

/-- Of two records none continues the other. -/
theorem readStateBytes_no_more {x y : Bytes} {a b : StateRecord} (hx : readStateBytes x = .ok a)
    (hxy : readStateBytes (x ++ y) = .ok b) : y = [] :=
  readRecord_local.no_more (readStateBytes_inv hx) (readStateBytes_inv hxy)

theorem readStateBytes_error {bytes : Bytes} (h : ∀ r, readStateBytes bytes ≠ .ok r) :
    ∃ e, readStateBytes bytes = .error e := by
  cases hread : readStateBytes bytes with
  | error e => exact ⟨e, rfl⟩
  | ok r => exact absurd hread (h r)

/-- A record whose paths are accepted is read back from exactly its own bytes: no
proper prefix of them is a record, and nothing that goes on after them. -/
theorem encodeState_self_delimiting (ht : r.Typed)
    (hpath : validateStoragePath r.registration.relativePath = .ok ())
    (hinstalled : ∀ p, r.installedRelativePath = some p → validateStoragePath p = .ok ()) :
    readStateBytes (encodeState r) = .ok r ∧
      (∀ torn, torn <+: encodeState r → torn ≠ encodeState r →
        ∃ e, readStateBytes torn = .error e) ∧
      ∀ padding, padding ≠ [] → ∃ e, readStateBytes (encodeState r ++ padding) = .error e := by
  have hread := readStateBytes_encodeState (ht.valid hpath hinstalled)
  refine ⟨hread, fun torn hprefix hne => ?_, fun padding hne => ?_⟩
  · obtain ⟨rest, hrest⟩ := hprefix
    refine readStateBytes_error fun r' hr' => hne ?_
    have hnil : rest = [] := readStateBytes_no_more hr' (hrest ▸ hread)
    rwa [hnil, List.append_nil] at hrest
  · exact readStateBytes_error fun r' hr' => hne (readStateBytes_no_more hread hr')

/-- A completed file under a suffixed name, with a time before 1970 and no mode. -/
def completedRecord : StateRecord where
  registration :=
    { transferId := Vector.replicate 16 1
      fileId := Vector.replicate 16 2
      relativePath := ascii "a/b"
      size := 7
      contentHash := zeroDigest .sha256
      metadata := ⟨some (-1), none⟩ }
  durableOffset := 7
  checkpointId := 3
  stateHash := zeroDigest .sha256
  complete := true
  installedRelativePath := some (ascii "a/b.1")

theorem completedRecord_typed : completedRecord.Typed where
  registration :=
    { path := by decide +kernel
      size := by decide
      modified := fun v h => by
        obtain rfl := Option.some.inj h
        exact ⟨by decide, by decide⟩
      mode := fun v h => by cases h }
  durable := by decide
  checkpoint := by decide
  installed := fun p h => by
    obtain rfl := Option.some.inj h
    decide +kernel

theorem encodeState_self_delimiting_completed :
    readStateBytes (encodeState completedRecord) = .ok completedRecord ∧
      (∀ torn, torn <+: encodeState completedRecord → torn ≠ encodeState completedRecord →
        ∃ e, readStateBytes torn = .error e) ∧
      ∀ padding, padding ≠ [] →
        ∃ e, readStateBytes (encodeState completedRecord ++ padding) = .error e := by
  refine encodeState_self_delimiting completedRecord_typed (by decide +kernel) fun p h => ?_
  obtain rfl := Option.some.inj h
  decide +kernel

end DartUdp.Storage
