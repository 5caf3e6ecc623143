import Mathlib.Data.List.Sort
import DartUdp.Storage.Complete

/-!
# The manifest of the files to send

The sender names files and directories of its file tree. `ManifestBuilder` collects
every file at or below them under the name the receiver will see, hashes it, and
seals the list with a digest over all its fields.

The tree stands still while it is read, and it holds files, directories and links
only. A path is read from the directory the process works in; no path may lead
through a link, and a link at its end is refused.
-/

namespace DartUdp.Storage

open DartUdp.Lib DartUdp.Transfer
open DartUdp.Session (CoreError Manifest ManifestEntry maxManifestFiles)

/-- The file tree of the sender. `modified` and `mode` are what the metadata of a file
says of it. -/
structure SourceTree where
  fs : Fs
  workingDirectory : Path
  modified : Path → Option Int
  mode : Path → Option Nat
  working : fs.get? workingDirectory = some .dir
  named : ∀ p n, fs.get? p = some n → ∀ name ∈ p, name ≠ []

namespace SourceTree

/-- The components of a path, each looked up in the directory before it. -/
def walk (fs : Fs) : Path → List Bytes → Option Path
  | current, [] => if (fs.get? current).isSome then some current else none
  | current, name :: names =>
      if fs.get? current ≠ some .dir then none
      else if name = [] ∨ name = ascii "." then walk fs current names
      else if name = ascii ".." then walk fs current.dropLast names
      else walk fs (current ++ [name]) names

/-- `Path::canonicalize`. -/
def canonicalize (tree : SourceTree) (source : Bytes) : Option Path :=
  if source = [] then none
  else if source.head? = some slash then walk tree.fs [] (splitSlash source)
  else walk tree.fs tree.workingDirectory (splitSlash source)

/-- `fs::symlink_metadata` of a path as it was given. -/
def symlinkMetadata (tree : SourceTree) (source : Bytes) : Option Node :=
  (tree.canonicalize source).bind tree.fs.get?

/-- `Path::file_name`, as a text. -/
def fileName (path : Path) : Option Bytes := path.getLast?.filter utf8Valid

end SourceTree

/-! ## The builder -/

structure ManifestBuildConfig where
  hashAlgorithm : HashAlgorithm
  maxFiles : Nat
  maxFileSize : Nat
  maxTotalSize : Nat
  maxPathLen : Nat

/-- `ManifestBuildConfig::default`. -/
def defaultBuildConfig : ManifestBuildConfig :=
  ⟨.blake3, maxManifestFiles, 1024 * 1024 * 1024 * 1024, 4 * 1024 * 1024 * 1024 * 1024,
    maxPathLen⟩

/-- The `StorageError`s of the builder. -/
inductive BuildError where
  | io (operation : String)
  | invalidPath (path : Bytes)
  | symbolicLinkNotAllowed (path : Path)
  | unsupportedFileType (path : Path)
  | tooManyFiles (maximum : Nat)
  | manifestPathCollision (path : Bytes)
  | fileTooLarge (maximum actual : Nat)
  | totalSizeTooLarge (maximum actual : Nat)
  | sourceChanged (path : Path)
  | randomnessUnavailable
  | core (error : CoreError)
deriving DecidableEq

/-- A method of the builder. A loop that is given too little fuel answers nothing. -/
abbrev BuildM := ExceptT BuildError Option

namespace ManifestBuilder

/-- A file, and the name it will have in the manifest. -/
abbrev Candidate := Path × Bytes

/-- `sort_by` over the names: stable, by the bytes. -/
def sortByName (candidates : List Candidate) : List Candidate :=
  candidates.insertionSort fun left right => left.2 ≤ right.2

variable (H : Hashes) (config : ManifestBuildConfig) (tree : SourceTree)

/-- The children of a directory, by name. -/
def children (directory : Path) : Except BuildError (List Candidate) :=
  match (tree.fs.readDir directory).find? fun path => !utf8Valid (path.getLast?.getD []) with
  | some path => .error (.invalidPath (path.getLast?.getD []))
  | none =>
      .ok (sortByName ((tree.fs.readDir directory).map fun path => (path, path.getLast?.getD [])))

/-- The name of a child, below that of its directory. -/
def relativeName (relativeDirectory name : Bytes) : Bytes :=
  if relativeDirectory.isEmpty then name else relativeDirectory ++ slash :: name

/-- The inner loop of `collect_directory`: the children from the last to the first, a
directory going on top of the stack. -/
def collectChildren (relativeDirectory : Bytes) :
    List Candidate → List Candidate → List Candidate →
      Except BuildError (List Candidate × List Candidate)
  | [], pending, candidates => .ok (pending, candidates)
  | (path, name) :: rest, pending, candidates =>
      let relative := relativeName relativeDirectory name
      match tree.fs.get? path with
      | none => .error (.io "inspect manifest entry")
      | some .symlink => .error (.symbolicLinkNotAllowed path)
      | some .dir => collectChildren relativeDirectory rest ((path, relative) :: pending) candidates
      | some (.file _) =>
          let candidates := candidates ++ [(path, relative)]
          if candidates.length > config.maxFiles then .error (.tooManyFiles config.maxFiles)
          else collectChildren relativeDirectory rest pending candidates

/-- The outer loop of `collect_directory`. -/
def collectPending : Nat → List Candidate → List Candidate → BuildM (List Candidate)
  | _, [], candidates => pure candidates
  | 0, _ :: _, _ => none
  | fuel + 1, (directory, relativeDirectory) :: pending, candidates => do
      let children ← children tree directory
      let (pending, candidates) ←
        collectChildren config tree relativeDirectory children.reverse pending candidates
      collectPending fuel pending candidates

/-- `collect_directory`. No directory is read twice, so the loop ends before it has
made as many rounds as the tree has nodes. -/
def collectDirectory (root : Path) (relativeRoot : Bytes) (candidates : List Candidate) :
    BuildM (List Candidate) :=
  collectPending config tree (tree.fs.nodes.size + 1) [(root, relativeRoot)] candidates

/-- The loop of `build` over the sources. -/
def collect : List Bytes → List Candidate → BuildM (List Candidate)
  | [], candidates => pure candidates
  | source :: sources, candidates =>
      match tree.symlinkMetadata source, tree.canonicalize source with
      | none, _ => throw (.io "inspect manifest source")
      | some .symlink, _ => throw (.symbolicLinkNotAllowed (splitSlash source))
      | _, none => throw (.io "canonicalize manifest source")
      | some (.file _), some absolute =>
          match SourceTree.fileName absolute with
          | none => throw (.invalidPath (slash :: joinSlash absolute))
          | some name => collect sources (candidates ++ [(absolute, name)])
      | some .dir, some absolute =>
          match SourceTree.fileName absolute with
          | none => throw (.invalidPath (slash :: joinSlash absolute))
          | some name => do
              let candidates ← collectDirectory config tree absolute name candidates
              collect sources candidates

/-- `validate_path`. -/
def validatePath (path : Bytes) : Except BuildError Unit :=
  if path.length > config.maxPathLen || !validateRelativePath path then .error (.invalidPath path)
  else .ok ()

/-- `FileSignature::from_metadata`. Device and inode are those of the path. -/
def signature (path : Path) : Option (Nat × Option Int) :=
  match tree.fs.get? path with
  | some (.file bytes) => some (bytes.length, tree.modified path)
  | _ => none

/-- The part of the loop of `build_from_candidates` that opens the file: its entry,
under the id drawn for it. -/
def hashSource (random : Option FileId) (path : Path) (relativePath bytes : Bytes) :
    Except BuildError ManifestEntry :=
  match random with
  | none => .error .randomnessUnavailable
  | some fileId =>
      let signatureBefore := signature tree path
      let contentHash : Digest := ⟨config.hashAlgorithm, H.digest config.hashAlgorithm bytes⟩
      if signatureBefore ≠ signature tree path then .error (.sourceChanged path)
      else
        match ManifestEntry.new fileId relativePath bytes.length contentHash
            ⟨tree.modified path, tree.mode path⟩ with
        | .error e => .error (.core e)
        | .ok entry => .ok entry

/-- One round of `build_from_candidates`: the entry of a candidate, and the size of all
entries with it. `count` entries have been made, for the names in `seen`. -/
def entryFor (random : Nat → Option FileId) (candidate : Candidate) (seen : List Bytes)
    (count totalSize : Nat) : Except BuildError (ManifestEntry × Nat) :=
  let (path, relativePath) := candidate
  if relativePath ∈ seen then .error (.manifestPathCollision relativePath)
  else if count ≥ config.maxFiles then .error (.tooManyFiles config.maxFiles)
  else
    match validatePath config relativePath with
    | .error e => .error e
    | .ok () =>
        match tree.fs.get? path with
        | none => .error (.io "inspect source file")
        | some .symlink => .error (.symbolicLinkNotAllowed path)
        | some .dir => .error (.unsupportedFileType path)
        | some (.file bytes) =>
            if bytes.length > config.maxFileSize then
              .error (.fileTooLarge config.maxFileSize bytes.length)
            else
              match checkedAdd totalSize bytes.length with
              | none => .error (.totalSizeTooLarge config.maxTotalSize u64Max)
              | some totalSize =>
                  if totalSize > config.maxTotalSize then
                    .error (.totalSizeTooLarge config.maxTotalSize totalSize)
                  else
                    match hashSource H config tree (random count) path relativePath bytes with
                    | .error e => .error e
                    | .ok entry => .ok (entry, totalSize)

/-- The loop of `build_from_candidates`. `random` says which ids are drawn, by the
number of the entry. -/
def entriesFor (random : Nat → Option FileId) :
    List Candidate → List Bytes → List ManifestEntry → Nat → Except BuildError (List ManifestEntry)
  | [], _, entries, _ => .ok entries
  | candidate :: rest, seen, entries, totalSize =>
      match entryFor H config tree random candidate seen entries.length totalSize with
      | .error e => .error e
      | .ok (entry, totalSize) =>
          entriesFor random rest (candidate.2 :: seen) (entries ++ [entry]) totalSize

/-! ## The digest -/

/-- What `manifest_digest` feeds to the hash function for one entry. -/
def digestEntry (entry : ManifestEntry) : Bytes :=
  entry.fileId.toList ++ ((beBytes 8 entry.relativePath.length ++ entry.relativePath) ++
    (beBytes 8 entry.size ++ (HashAlgorithm.tag entry.contentHash.algorithm ::
      (entry.contentHash.bytes.toList ++
        (encodeOption encodeI64 entry.metadata.modifiedTimeUnixSeconds ++
          encodeOption (beBytes 4) entry.metadata.mode)))))

/-- What it feeds to it for a manifest. -/
def digestInput (entries : List ManifestEntry) : Bytes :=
  ascii "udp-transfer-manifest-v1" ++ (0 :: entries.flatMap digestEntry)

/-- `manifest_digest`. -/
def manifestDigest (entries : List ManifestEntry) (algorithm : HashAlgorithm) : Digest :=
  ⟨algorithm, H.digest algorithm (digestInput entries)⟩

/-! ## The manifest -/

/-- `build_from_candidates`. -/
def buildFromCandidates (random : Nat → Option FileId) (candidates : List Candidate) :
    Except BuildError Manifest :=
  match entriesFor H config tree random (sortByName candidates) [] [] 0 with
  | .error e => .error e
  | .ok entries =>
      match Manifest.new (manifestDigest H entries config.hashAlgorithm) entries with
      | .error e => .error (.core e)
      | .ok manifest => .ok manifest

/-- `build`. -/
def build (random : Nat → Option FileId) (sources : List Bytes) : BuildM Manifest := do
  let candidates ← collect config tree sources []
  buildFromCandidates H config tree random candidates

end ManifestBuilder

end DartUdp.Storage
