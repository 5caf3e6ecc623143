import DartUdp.Lib.Writers
import DartUdp.Proofs.StorageRecord
import DartUdp.Storage.Sources

/-!
# The digest of a manifest is a digest of all of it

Nothing in the bytes that are hashed says how many entries there are. Every field of
an entry has either one length or its length in front of it, so an entry ends where
it ends; and as no entry is empty, neither are two lists written alike of which one
is longer. The two optional fields carry a flag.

The module is for `manifestDigest_determines`. `digestEntry_delimited` says that an
entry can be cut off the front of what follows it, so `digestInput_injOn` gets back
the entries one by one.
-/

namespace DartUdp.Storage

open DartUdp.Lib DartUdp.Transfer
open DartUdp.Session (Manifest ManifestEntry)

/-- The fields of an entry are in the range of their types: `u64` for the length of the
path and the size, `i64` and `u32` for the metadata. -/
structure EntryWidths (entry : ManifestEntry) : Prop where
  path : entry.relativePath.length < 2 ^ 64
  size : entry.size < 2 ^ 64
  modified : ∀ v, entry.metadata.modifiedTimeUnixSeconds = some v → InI64 v
  mode : ∀ v, entry.metadata.mode = some v → v < 2 ^ 32

/-! ## The fields -/

theorem encodeI64_delimited : Delimited InI64 encodeI64 := by
  refine (Delimited.beBytes 8).comp (fun a ha b hb h => ?_) fun b hb => ?_
  · obtain ⟨ha, ha'⟩ := ha
    obtain ⟨hb, hb'⟩ := hb
    omega
  · obtain ⟨hb, hb'⟩ := hb
    omega

/-- A flag tells whether there is a value. -/
theorem encodeOption_delimited {α : Type} {P : α → Prop} {w : α → Bytes} (h : Delimited P w) :
    Delimited (fun v => ∀ a, v = some a → P a) (encodeOption w) := by
  intro u v hu hv x y heq
  cases u with
  | none =>
      cases v with
      | none =>
          cases heq
          exact ⟨rfl, rfl⟩
      | some b =>
          obtain ⟨hflag, -⟩ := List.cons_eq_cons.1 heq
          exact absurd hflag (by decide)
  | some a =>
      cases v with
      | none =>
          obtain ⟨hflag, -⟩ := List.cons_eq_cons.1 heq
          exact absurd hflag (by decide)
      | some b =>
          obtain ⟨-, hvalue⟩ := List.cons_eq_cons.1 heq
          obtain ⟨rfl, hrest⟩ := h (hu a rfl) (hv b rfl) hvalue
          exact ⟨rfl, hrest⟩

theorem tag_delimited : Delimited (fun _ => True) fun a => [HashAlgorithm.tag a] := by
  refine Delimited.byte.comp (fun a _ b _ h => ?_) fun _ _ => trivial
  cases a <;> cases b <;> first | rfl | exact absurd h (by decide)

/-! ## The entries -/

namespace ManifestBuilder

theorem digestEntry_delimited : Delimited EntryWidths digestEntry := by
  intro a b ha hb x y heq
  obtain ⟨id, path, size, ⟨algorithm, bytes⟩, ⟨modified, mode⟩⟩ := a
  obtain ⟨id', path', size', ⟨algorithm', bytes'⟩, ⟨modified', mode'⟩⟩ := b
  simp only [digestEntry, List.append_assoc, List.cons_append] at heq
  rw [← List.append_assoc (beBytes 8 path.length), ← List.append_assoc (beBytes 8 path'.length)]
    at heq
  obtain ⟨hid, h₁⟩ : id = id' ∧ _ := Delimited.vector 16 trivial trivial heq
  obtain ⟨hpath, h₂⟩ : path = path' ∧ _ := Delimited.counted 8 ha.path hb.path h₁
  obtain ⟨hsize, h₃⟩ : size = size' ∧ _ := Delimited.beBytes 8 ha.size hb.size h₂
  obtain ⟨htag, h₄⟩ : algorithm = algorithm' ∧ _ := tag_delimited trivial trivial h₃
  obtain ⟨hbytes, h₅⟩ : bytes = bytes' ∧ _ := Delimited.vector 32 trivial trivial h₄
  obtain ⟨hmodified, h₆⟩ : modified = modified' ∧ _ :=
    encodeOption_delimited encodeI64_delimited ha.modified hb.modified h₅
  obtain ⟨hmode, h₇⟩ : mode = mode' ∧ _ :=
    encodeOption_delimited (Delimited.beBytes 4) ha.mode hb.mode h₆
  subst hid hpath hsize htag hbytes hmodified hmode
  exact ⟨rfl, h₇⟩

theorem digestEntry_ne_nil (entry : ManifestEntry) : digestEntry entry ≠ [] := by
  intro h
  have hlen := congrArg List.length h
  simp [digestEntry] at hlen

theorem digestInput_injOn :
    Set.InjOn digestInput {entries | ∀ entry ∈ entries, EntryWidths entry} := by
  intro entries he entries' he' heq
  have htail := List.append_cancel_left heq
  obtain ⟨-, hflat⟩ := List.cons_eq_cons.1 htail
  exact digestEntry_delimited.flatMap (fun entry _ => digestEntry_ne_nil entry) he he' hflat

/-- A digest over different bytes is a different digest, for these two lists. -/
def CollisionFree (H : Hashes) (algorithm : HashAlgorithm) (entries entries' : List ManifestEntry) :
    Prop :=
  H.digest algorithm (digestInput entries) = H.digest algorithm (digestInput entries') →
    digestInput entries = digestInput entries'

/-- The digest of a manifest determines the manifest: the bytes that are hashed determine
the entries, in their order, and so does the digest with a hash function that has no
collision on them. -/
theorem manifestDigest_determines (H : Hashes) (algorithm : HashAlgorithm)
    {entries entries' : List ManifestEntry} (hwidths : ∀ entry ∈ entries, EntryWidths entry)
    (hwidths' : ∀ entry ∈ entries', EntryWidths entry) :
    (digestInput entries = digestInput entries' → entries = entries') ∧
      ∀ m m' : Manifest,
        Manifest.new (manifestDigest H entries algorithm) entries = .ok m →
        Manifest.new (manifestDigest H entries' algorithm) entries' = .ok m' →
        CollisionFree H algorithm entries entries' → m.digest = m'.digest → m = m' := by
  have hinj : digestInput entries = digestInput entries' → entries = entries' :=
    fun h => digestInput_injOn hwidths hwidths' h
  refine ⟨hinj, fun m m' hm hm' hfree hdigest => ?_⟩
  obtain ⟨hd, -⟩ := Manifest.new_ok hm
  obtain ⟨hd', -⟩ := Manifest.new_ok hm'
  have hhash : manifestDigest H entries algorithm = manifestDigest H entries' algorithm := by
    rw [← hd, ← hd', hdigest]
  have hsame : entries = entries' := hinj (hfree (congrArg Digest.bytes hhash))
  subst hsame
  exact Except.ok.inj (hm.symm.trans hm')

/-! ## Two manifests -/

/-- A file of three bytes, by when it was changed. -/
def sampleSource (modified : Option Int) : ManifestEntry where
  fileId := .replicate 16 1
  relativePath := ascii "a/b"
  size := 3
  contentHash := ⟨.sha256, .replicate 32 5⟩
  metadata := ⟨modified, some 420⟩

/-- SHA-256 of what is hashed for the file changed at second 7 and, if it is none of that,
for the file that does not say when. -/
def sampleHashes : Hashes where
  digest _ bytes :=
    let hash := beBytes 32 <|
      if bytes = digestInput [sampleSource (some 7)] then
        0x37881f1fc85bdaa2f90c6907ce61c066353e12826a0cca40c3a2fb5e947697ba
      else 0x6119df998d2f5661ee2ca1822cb45a957a798257101dfbb802433b7dc6fc6546
    .ofFn fun i => hash.getD i 0

theorem sampleSource_widths {modified : Option Int} (h : ∀ v, modified = some v → InI64 v) :
    ∀ entry ∈ [sampleSource modified], EntryWidths entry := by
  intro entry hentry
  obtain rfl := List.mem_singleton.1 hentry
  have hpath : (ascii "a/b").length < 2 ^ 64 := by decide
  have hsize : 3 < 2 ^ 64 := by decide
  refine ⟨hpath, hsize, h, fun v hv => ?_⟩
  cases hv
  decide

/-- A time more or less is told, and the digests tell it. -/
theorem manifestDigest_determines_time :
    digestInput [sampleSource none] ≠ digestInput [sampleSource (some 7)] ∧
      ∀ m m' : Manifest,
        Manifest.new (manifestDigest sampleHashes [sampleSource none] .sha256)
          [sampleSource none] = .ok m →
        Manifest.new (manifestDigest sampleHashes [sampleSource (some 7)] .sha256)
          [sampleSource (some 7)] = .ok m' →
        m.digest = m'.digest → m = m' := by
  have hwidths := @sampleSource_widths none fun v hv => by cases hv
  have hwidths' := @sampleSource_widths (some 7) fun v hv => by
    cases hv
    exact ⟨by decide, by decide⟩
  obtain ⟨hinput, hdigest⟩ := manifestDigest_determines sampleHashes .sha256 hwidths hwidths'
  refine ⟨fun heq => absurd (hinput heq) (by decide), fun m m' hm hm' => ?_⟩
  exact hdigest m m' hm hm' fun heq => absurd heq (by decide)

end ManifestBuilder

end DartUdp.Storage
