import DartUdp.Proofs.StorageIntegrity

/-!
# What the path of a file can reach

The check of a relative path keeps it below the root. The files of the storage
itself are below the root too, and the check does not know their directory: a
path is out of their reach exactly if it does not begin with that name. A suffix
makes no difference, since no name that ends in a number is the name of the
directory.

The module is for `confined_iff`. `outside_iff` looks at the first name of a path,
and `Candidate.outside_of` at the names with a suffix.
-/

namespace DartUdp.Storage

open DartUdp.Lib DartUdp.Transfer

variable {d d' : Disk} {p q : Path} {H : Host} {policy : OverwritePolicy} {pid : Nat}
  {t t' : TransferId} {f f' : FileId} {r : StateRecord} {path : Bytes}

/-- Wherever a file of this relative path may be installed, it is outside the
storage directory, and it is not on the way to a record or a partial file. -/
def Confined (path : Bytes) : Prop :=
  ∀ d destination d' dst, destinationPath path d = .ok destination d' →
    Candidate destination dst →
    Outside dst ∧ ∀ t f, ¬ dst <+: statePath t f ∧ ¬ dst <+: partialPath t f

/-! ## The first component -/

theorem outside_iff : Outside p ↔ p.head? ≠ some (ascii ".udp-transfer") := by
  unfold Outside storageDirectory
  cases p with
  | nil => simp
  | cons name names => simp [eq_comm]

/-- What lies inside the storage is not below a path outside of it. -/
theorem Outside.not_prefix (h : Outside p) (hne : p ≠ []) (hq : storageDirectory <+: q) :
    ¬ p <+: q := by
  intro hpq
  have hlen : storageDirectory.length ≤ p.length := List.length_pos_iff.2 hne
  exact h (List.prefix_of_prefix_length_le hq hpq hlen)

theorem Candidate.outside_of {destination dst : Path} (h : Candidate destination dst)
    (hdest : Outside destination) : Outside dst := by
  rcases h with rfl | ⟨index, -, rfl⟩
  · exact hdest
  · exact suffixedPath_outside hdest index

theorem Candidate.ne_nil {destination dst : Path} (h : Candidate destination dst)
    (hdest : destination ≠ []) : dst ≠ [] := by
  intro hx
  have hlen := h.length hdest
  rw [hx] at hlen
  exact hdest (List.length_eq_zero_iff.1 hlen.symm)

/-- An accepted path stays away from the files of the storage exactly if it does
not begin with the name of their directory. -/
theorem confined_iff (h : validateStoragePath path = .ok ()) :
    Confined path ↔ (splitSlash path).head? ≠ some (ascii ".udp-transfer") := by
  rw [← outside_iff]
  constructor
  · intro hconfined
    have hdest := destinationPath_ok h (.boot .empty)
    exact (hconfined _ _ _ _ hdest (.inl rfl)).1
  · intro hout d destination d' dst hdest hcand
    obtain ⟨-, rfl, -⟩ := destinationPath_inv hdest
    have hdst := hcand.outside_of hout
    have hne := hcand.ne_nil (splitSlash_ne_nil path)
    exact ⟨hdst, fun t f => ⟨hdst.not_prefix hne ⟨_, rfl⟩, hdst.not_prefix hne ⟨_, rfl⟩⟩⟩

/-- A file in a directory of its own, whose name resembles that of the storage. -/
theorem confined_iff_resembling :
    validateStoragePath (ascii ".udp-transfer.1/a") = .ok () ∧
      (Confined (ascii ".udp-transfer.1/a") ↔
        (splitSlash (ascii ".udp-transfer.1/a")).head? ≠ some (ascii ".udp-transfer")) := by
  have h : validateStoragePath (ascii ".udp-transfer.1/a") = .ok () := by decide +kernel
  exact ⟨h, confined_iff h⟩

/-! ## A record that is a destination -/

/-- The path of a record, relative to the root. -/
def recordPath : Bytes := joinSlash (statePath sampleId sampleId)

/-- A manifest may ask for a file to be put where a record is. -/
theorem record_is_reachable :
    validateStoragePath recordPath = .ok () ∧
      splitSlash recordPath = statePath sampleId sampleId ∧ ¬ Confined recordPath := by
  have h : validateStoragePath recordPath = .ok () := by decide +kernel
  refine ⟨h, by decide +kernel, fun hconfined => ?_⟩
  exact (confined_iff h).1 hconfined (by decide +kernel)

end DartUdp.Storage
