import DartUdp.Storage.Sources

/-!
# The files behind a manifest

The client walks the sources a second time, to know which file stands behind which
name of the manifest. The walk is its own: a recursion, with a map that a name may
enter only once. When a transfer is resumed, the manifest of the sources as they are
now is held against the one that was offered.
-/

namespace DartUdp.Client

open DartUdp.Lib DartUdp.Transfer
open DartUdp.Session (Manifest ManifestEntry)
open DartUdp.Storage (SourceTree)

/-- The `io::Error`s of the walk: those of the system, and those of `invalid_path`. -/
inductive WalkError where
  | os
  | invalidInput (message : String)
deriving DecidableEq, Repr

/-- A step of the walk. A recursion that is given too little fuel answers nothing. -/
abbrev WalkM := ExceptT WalkError Option

/-- The `HashMap` from names to files. -/
abbrev SourceFiles := Std.TreeMap Bytes Path

/-- `invalid_path`. -/
def invalidPath (message : String) : WalkError := .invalidInput message

/-- `insert`. -/
def insert (files : SourceFiles) (relative : Bytes) (path : Path) : Except WalkError SourceFiles :=
  if files[relative]?.isSome then .error (invalidPath "source paths collide")
  else .ok (files.insert relative path)

section

variable (tree : SourceTree)

/-- The entries of a directory, by name. -/
def sortedEntries (directory : Path) : List Path :=
  (tree.fs.readDir directory).insertionSort fun left right =>
    left.getLast?.getD [] ≤ right.getLast?.getD []

/-- The name of an entry, below that of its directory. -/
def childName (relative : Bytes) (path : Path) : Except WalkError Bytes :=
  if utf8Valid (path.getLast?.getD []) then .ok (relative ++ slash :: path.getLast?.getD [])
  else .error (invalidPath "source path is not UTF-8")

/-- The loop of `collect_directory` over the entries; `recurse` is the call for a
directory below. -/
def collectEntries (recurse : Path → Bytes → SourceFiles → WalkM SourceFiles) (relative : Bytes) :
    List Path → SourceFiles → WalkM SourceFiles
  | [], files => pure files
  | path :: entries, files =>
      match tree.fs.get? path with
      | none => throw .os
      | some .symlink => throw (invalidPath "symbolic links are not allowed")
      | some .dir => do
          let child ← childName relative path
          let files ← recurse path child files
          collectEntries recurse relative entries files
      | some (.file _) => do
          let child ← childName relative path
          let files ← insert files child path
          collectEntries recurse relative entries files

/-- `collect_directory`. -/
def collectDirectory : Nat → Path → Bytes → SourceFiles → WalkM SourceFiles
  | 0, _, _, _ => none
  | fuel + 1, directory, relative, files =>
      collectEntries tree (collectDirectory fuel) relative (sortedEntries tree directory) files

/-- The loop of `collect_source_files`. A directory has fewer directories below it than
the tree has nodes. -/
def collectSources : List Bytes → SourceFiles → WalkM SourceFiles
  | [], files => pure files
  | source :: sources, files =>
      match tree.symlinkMetadata source, tree.canonicalize source with
      | none, _ => throw .os
      | some .symlink, _ => throw (invalidPath "symbolic links are not allowed")
      | _, none => throw .os
      | some (.file _), some path =>
          match SourceTree.fileName path with
          | none => throw (invalidPath "source file name is not UTF-8")
          | some name => do
              let files ← insert files name path
              collectSources sources files
      | some .dir, some path =>
          match SourceTree.fileName path with
          | none => throw (invalidPath "source directory name is not UTF-8")
          | some root => do
              let files ← collectDirectory tree (tree.fs.nodes.size + 1) path root files
              collectSources sources files

/-- `collect_source_files`. -/
def collectSourceFiles (sources : List Bytes) : WalkM SourceFiles := collectSources tree sources ∅

end

/-! ## Resuming -/

/-- The loop of `validate_resume_sources`. -/
def validateEntries (actual : List ManifestEntry) : List ManifestEntry → Except String Unit
  | [] => .ok ()
  | expected :: rest =>
      match actual.find? (·.relativePath = expected.relativePath) with
      | none => .error "resume source file is missing"
      | some entry =>
          if entry.size ≠ expected.size ∨ entry.contentHash ≠ expected.contentHash then
            .error "resume source file changed"
          else validateEntries actual rest

/-- `validate_resume_sources`, with the message of its `ClientError::InvalidState`. -/
def validateResumeSources (expected actual : Manifest) : Except String Unit :=
  if expected.fileCount ≠ actual.fileCount ∨ expected.totalSize ≠ actual.totalSize then
    .error "resume source manifest does not match"
  else validateEntries actual.entries expected.entries

end DartUdp.Client
