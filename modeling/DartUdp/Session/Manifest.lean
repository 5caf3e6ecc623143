import Mathlib.Data.List.Nodup
import DartUdp.Lib.Machine
import DartUdp.Session.Message

/-!
# Manifests

The list of files of a transfer. A manifest is only ever built by `Manifest.new`,
which looks at every entry; what it has checked is kept with the list, so that
nothing downstream has to look again.
-/

namespace DartUdp.Session

open DartUdp.Lib DartUdp.Transfer

structure ManifestEntry where
  fileId : FileId
  relativePath : Bytes
  size : Nat
  contentHash : Digest
  metadata : FileMetadata
deriving DecidableEq, Repr

/-- `ManifestEntry::new`. -/
def ManifestEntry.new (fileId : FileId) (relativePath : Bytes) (size : Nat)
    (contentHash : Digest) (metadata : FileMetadata) : Except CoreError ManifestEntry :=
  if validateRelativePath relativePath then
    .ok ⟨fileId, relativePath, size, contentHash, metadata⟩
  else .error .invalidPath

/-- The sum of the sizes, or the first file at which it leaves the range. -/
def totalSize : List ManifestEntry → Nat → Except CoreError Nat
  | [], sum => .ok sum
  | entry :: rest, sum =>
      match checkedAdd sum entry.size with
      | none => .error (.invalidFileSize entry.fileId)
      | some sum => totalSize rest sum

/-- The loop of `Manifest::new` over the entries: the ids and paths seen so far
and the size summed up. -/
def checkEntries : List ManifestEntry → List FileId → List Bytes → Nat → Except CoreError Nat
  | [], _, _, sum => .ok sum
  | entry :: rest, ids, paths, sum =>
      if !validateRelativePath entry.relativePath then .error .invalidPath
      else if entry.fileId ∈ ids then .error (.duplicateFile entry.fileId)
      else if entry.relativePath ∈ paths then .error .invalidPath
      else
        match checkedAdd sum entry.size with
        | none => .error (.invalidFileSize entry.fileId)
        | some sum => checkEntries rest (entry.fileId :: ids) (entry.relativePath :: paths) sum

/-- What every manifest keeps. -/
structure ManifestOk (entries : List ManifestEntry) (total : Nat) : Prop where
  length : entries.length ≤ maxManifestFiles
  ids : (entries.map (·.fileId)).Nodup
  paths : ∀ e ∈ entries, validateRelativePath e.relativePath = true
  sum : (entries.map (·.size)).sum = total
  bound : total ≤ u64Max

@[ext] structure Manifest where
  digest : Digest
  entries : List ManifestEntry
  totalSize : Nat
  ok : ManifestOk entries totalSize

theorem checkEntries_ok {entries : List ManifestEntry} {ids : List FileId} {paths : List Bytes}
    {sum total : Nat} (h : checkEntries entries ids paths sum = .ok total) (hsum : sum ≤ u64Max) :
    (entries.map (·.fileId)).Nodup ∧ (∀ e ∈ entries, e.fileId ∉ ids) ∧
      (∀ e ∈ entries, validateRelativePath e.relativePath = true) ∧
      sum + (entries.map (·.size)).sum = total ∧ total ≤ u64Max := by
  induction entries generalizing ids paths sum with
  | nil =>
      simp only [checkEntries, Except.ok.injEq] at h
      subst h
      simpa using hsum
  | cons entry rest ih =>
      simp only [checkEntries] at h
      split at h
      · cases h
      split at h
      · cases h
      split at h
      · cases h
      next hpath hid _ =>
      split at h
      · cases h
      · next sum' hadd =>
          obtain ⟨hle, rfl⟩ := checkedAdd_eq_some.1 hadd
          obtain ⟨hnodup, hfresh, hvalid, htotal, hbound⟩ := ih h hle
          refine ⟨?_, ?_, ?_, ?_, hbound⟩
          · simp only [List.map_cons, List.nodup_cons, List.mem_map, not_exists, not_and]
            refine ⟨fun e he heq => hfresh e he ?_, hnodup⟩
            rw [heq]
            exact List.mem_cons_self
          · intro e he
            cases he with
            | head => exact hid
            | tail _ he => exact fun hin => hfresh e he (List.mem_cons_of_mem _ hin)
          · intro e he
            cases he with
            | head => simpa using hpath
            | tail _ he => exact hvalid e he
          · simp only [List.map_cons, List.sum_cons]
            omega

namespace Manifest

/-- `Manifest::new`. -/
def new (digest : Digest) (entries : List ManifestEntry) : Except CoreError Manifest :=
  if hlen : entries.length > maxManifestFiles then
    .error (.manifestCountMismatch maxManifestFiles entries.length)
  else
    match h : checkEntries entries [] [] 0 with
    | .error e => .error e
    | .ok total =>
        .ok ⟨digest, entries, total,
          have hok := checkEntries_ok h (Nat.zero_le _)
          ⟨Nat.le_of_not_lt hlen, hok.1, hok.2.2.1, by simpa using hok.2.2.2.1, hok.2.2.2.2⟩⟩

def fileCount (m : Manifest) : Nat := m.entries.length

/-- `Manifest::entry`. -/
def entry (m : Manifest) (fileId : FileId) : Option ManifestEntry :=
  m.entries.find? (·.fileId = fileId)

theorem new_ok {digest : Digest} {entries : List ManifestEntry} {m : Manifest}
    (h : new digest entries = .ok m) : m.digest = digest ∧ m.entries = entries := by
  unfold new at h
  split at h
  · cases h
  · split at h
    · cases h
    · cases h
      exact ⟨rfl, rfl⟩

/-- An entry is found under its own id. -/
theorem entry_of_mem {m : Manifest} {e : ManifestEntry} (h : e ∈ m.entries) :
    m.entry e.fileId = some e := by
  unfold entry
  cases hfind : m.entries.find? (·.fileId = e.fileId) with
  | none =>
      have := List.find?_eq_none.1 hfind e h
      simp at this
  | some e' =>
      have hid : e'.fileId = e.fileId := by simpa using List.find?_some hfind
      rw [List.inj_on_of_nodup_map m.ok.ids (List.mem_of_find?_eq_some hfind) h hid]

end Manifest

end DartUdp.Session
