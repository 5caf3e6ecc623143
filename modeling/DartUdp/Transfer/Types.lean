import DartUdp.Lib.Bytes

/-!
# What a transfer is about

The identifiers, digests and file descriptions shared by the transfer session
and the file storage, and the check both make of a relative path. A path is
kept as its UTF-8 bytes: all the checks look for single ASCII characters.
-/

namespace DartUdp.Transfer

open DartUdp.Lib

/-- An identifier of `define_id!`. -/
abbrev Id := Vector UInt8 16

abbrev TransferId := Id

abbrev FileId := Id

inductive HashAlgorithm where
  | blake3
  | sha256
deriving DecidableEq, Repr

structure Digest where
  algorithm : HashAlgorithm
  bytes : Vector UInt8 32
deriving DecidableEq, Repr

structure FileMetadata where
  modifiedTimeUnixSeconds : Option Int
  mode : Option Nat
deriving DecidableEq, Repr

inductive OverwritePolicy where
  | ask
  | noReplace
  | replaceAfterConfirm
  | renameWithSuffix
deriving DecidableEq, Repr

def maxPathLen : Nat := 4096

/-- The character `/`. -/
def slash : UInt8 := 47

/-- `str::split('/')`. -/
def splitSlash : Bytes → List Bytes
  | [] => [[]]
  | b :: rest =>
      if b = slash then [] :: splitSlash rest
      else
        match splitSlash rest with
        | [] => [[b]]
        | c :: cs => (b :: c) :: cs

/-- `validate_relative_path` answers `Ok`. -/
def validateRelativePath (path : Bytes) : Bool :=
  !(path.isEmpty || path.length > maxPathLen || path.contains 0) &&
    !(path.head? == some slash || path.contains 92) &&
    (splitSlash path).all fun component =>
      !(component.isEmpty || component == ascii "." || component == ascii "..")

end DartUdp.Transfer
