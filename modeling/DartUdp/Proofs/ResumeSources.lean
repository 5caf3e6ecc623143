import Mathlib.Algebra.BigOperators.Group.List.Basic
import DartUdp.Client.ManifestFiles

/-!
# The check of the sources of a resumed transfer

Only the offered manifest is gone through entry by entry. That nothing is left over
in the other follows from the counts: in a manifest no path stands twice, so the
offered files are as many different ones as there are entries, and all of them are
found among equally many.

The module is for `validateResumeSources_iff`. `validateEntries_iff` is the loop,
and `triples_nodup` is what makes the counts decide.
-/

namespace DartUdp.Session

open DartUdp.Lib DartUdp.Transfer

theorem checkEntries_paths {entries : List ManifestEntry} {ids : List FileId} {paths : List Bytes}
    {sum total : Nat} (h : checkEntries entries ids paths sum = .ok total) :
    (entries.map (·.relativePath)).Nodup ∧ ∀ e ∈ entries, e.relativePath ∉ paths := by
  induction entries generalizing ids paths sum with
  | nil => exact ⟨List.nodup_nil, fun e he => absurd he List.not_mem_nil⟩
  | cons entry rest ih =>
      simp only [checkEntries] at h
      split at h
      · cases h
      split at h
      · cases h
      split at h
      · cases h
      next hpath =>
      split at h
      · cases h
      · obtain ⟨hnodup, hfresh⟩ := ih h
        constructor
        · rw [List.map_cons, List.nodup_cons]
          refine ⟨fun hin => ?_, hnodup⟩
          obtain ⟨e, he, heq⟩ := List.mem_map.1 hin
          exact hfresh e he (heq ▸ List.mem_cons_self)
        · intro e he
          rcases List.mem_cons.1 he with rfl | he
          · exact hpath
          · exact fun hin => hfresh e he (List.mem_cons_of_mem _ hin)

/-- No two entries of an accepted manifest have one path. -/
theorem Manifest.new_paths {digest : Digest} {entries : List ManifestEntry} {m : Manifest}
    (h : Manifest.new digest entries = .ok m) : (m.entries.map (·.relativePath)).Nodup := by
  unfold Manifest.new at h
  split at h
  · cases h
  · split at h
    · cases h
    · next total hcheck =>
        cases h
        exact (checkEntries_paths hcheck).1

end DartUdp.Session

namespace DartUdp.Client

open DartUdp.Lib DartUdp.Transfer
open DartUdp.Session (Manifest ManifestEntry)

section

variable {digest digest' : Digest} {entries entries' : List ManifestEntry}
  {expected actual : Manifest}

/-- What a resumed transfer has to find again of a file. -/
def triple (entry : ManifestEntry) : Bytes × Nat × Digest :=
  (entry.relativePath, entry.size, entry.contentHash)

theorem triples_nodup (h : Manifest.new digest entries = .ok expected) :
    (expected.entries.map triple).Nodup := by
  have hpaths := Manifest.new_paths h
  rw [show expected.entries.map (·.relativePath) = (expected.entries.map triple).map (·.1) by
    rw [List.map_map]; rfl] at hpaths
  exact hpaths.of_map

theorem eq_of_path (h : Manifest.new digest entries = .ok actual) {e e' : ManifestEntry}
    (he : e ∈ actual.entries) (he' : e' ∈ actual.entries)
    (hpath : e.relativePath = e'.relativePath) : e = e' :=
  List.inj_on_of_nodup_map (Manifest.new_paths h) he he' hpath

/-- The loop finds every entry again. -/
theorem validateEntries_iff (h : Manifest.new digest entries = .ok actual)
    (rest : List ManifestEntry) :
    validateEntries actual.entries rest = .ok () ↔
      ∀ e ∈ rest, triple e ∈ actual.entries.map triple := by
  induction rest with
  | nil => exact ⟨fun _ e he => absurd he List.not_mem_nil, fun _ => rfl⟩
  | cons e rest ih =>
      rw [List.forall_mem_cons, ← ih]
      simp only [validateEntries]
      split
      · next hnone =>
          refine ⟨fun hok => ?_, fun hin => ?_⟩
          · cases hok
          · obtain ⟨entry, hentry, heq⟩ := List.mem_map.1 hin.1
            have hpath : entry.relativePath = e.relativePath := congrArg (·.1) heq
            exact absurd (decide_eq_true hpath) (List.find?_eq_none.1 hnone entry hentry)
      · next entry hfound =>
          have hentry := List.mem_of_find?_eq_some hfound
          have hpath : entry.relativePath = e.relativePath := by simpa using List.find?_some hfound
          have hiff : triple e ∈ actual.entries.map triple ↔
              entry.size = e.size ∧ entry.contentHash = e.contentHash := by
            refine ⟨fun hin => ?_, fun hsame => ?_⟩
            · obtain ⟨entry', hentry', heq⟩ := List.mem_map.1 hin
              have hpath' : entry'.relativePath = e.relativePath := congrArg (·.1) heq
              obtain rfl := eq_of_path h hentry' hentry (hpath'.trans hpath.symm)
              exact ⟨congrArg (·.2.1) heq, congrArg (·.2.2) heq⟩
            · refine List.mem_map.2 ⟨entry, hentry, ?_⟩
              rw [triple, triple, hpath, hsame.1, hsame.2]
          rw [hiff]
          split
          · next hchanged =>
              refine ⟨fun hok => ?_, fun hsame => ?_⟩
              · cases hok
              · rcases hchanged with hne | hne
                · exact absurd hsame.1.1 hne
                · exact absurd hsame.1.2 hne
          · next hsame =>
              rw [not_or, not_not, not_not] at hsame
              exact (and_iff_right hsame).symm

theorem sum_sizes (m : Manifest) :
    ((m.entries.map triple).map fun x => x.2.1).sum = m.totalSize := by
  rw [List.map_map]
  exact m.ok.sum

theorem length_triples (m : Manifest) : (m.entries.map triple).length = m.fileCount :=
  List.length_map ..

/-- Two accepted manifests pass the check exactly if they hold the same paths, with the
same sizes and the same hashes. -/
theorem validateResumeSources_iff (hexpected : Manifest.new digest entries = .ok expected)
    (hactual : Manifest.new digest' entries' = .ok actual) :
    validateResumeSources expected actual = .ok () ↔
      ∀ x, x ∈ expected.entries.map triple ↔ x ∈ actual.entries.map triple := by
  have hnodup := triples_nodup hexpected
  have hnodup' := triples_nodup hactual
  have hloop := validateEntries_iff hactual expected.entries
  unfold validateResumeSources
  constructor
  · intro hok
    split at hok
    · cases hok
    next hcounts =>
    rw [not_or, not_not, not_not] at hcounts
    have hsubset : expected.entries.map triple ⊆ actual.entries.map triple := by
      intro x hx
      obtain ⟨e, he, rfl⟩ := List.mem_map.1 hx
      exact hloop.1 hok e he
    have hlength : (actual.entries.map triple).length ≤ (expected.entries.map triple).length := by
      rw [length_triples, length_triples]
      exact hcounts.1.ge
    have hperm := (List.subperm_of_subset hnodup hsubset).perm_of_length_le hlength
    exact fun x => hperm.mem_iff
  · intro hsame
    have hperm := (List.perm_ext_iff_of_nodup hnodup hnodup').2 hsame
    have hcount : expected.fileCount = actual.fileCount := by
      rw [← length_triples, ← length_triples, hperm.length_eq]
    have hsum : expected.totalSize = actual.totalSize := by
      rw [← sum_sizes, ← sum_sizes]
      exact (hperm.map _).sum_eq
    rw [if_neg fun hne => hne.elim (fun h => h hcount) fun h => h hsum, hloop]
    exact fun e he => (hsame _).1 (List.mem_map_of_mem he)

end

/-! ## Two manifests -/

/-- An empty file called `a` or `b`. -/
def namedEntry (id : UInt8) (name : String) : ManifestEntry :=
  ⟨.replicate 16 id, ascii name, 0, ⟨.blake3, .replicate 32 0⟩, ⟨none, none⟩⟩

/-- The order of the entries and their ids make no difference. -/
theorem validateResumeSources_iff_swapped :
    ∃ expected actual,
      Manifest.new ⟨.blake3, .replicate 32 1⟩ [namedEntry 1 "a", namedEntry 2 "b"] = .ok expected ∧
      Manifest.new ⟨.blake3, .replicate 32 2⟩ [namedEntry 3 "b", namedEntry 1 "a"] = .ok actual ∧
      validateResumeSources expected actual = .ok () := by
  obtain ⟨expected, hexpected⟩ : ∃ m, Manifest.new ⟨.blake3, .replicate 32 1⟩
      [namedEntry 1 "a", namedEntry 2 "b"] = .ok m := ⟨_, rfl⟩
  obtain ⟨actual, hactual⟩ : ∃ m, Manifest.new ⟨.blake3, .replicate 32 2⟩
      [namedEntry 3 "b", namedEntry 1 "a"] = .ok m := ⟨_, rfl⟩
  refine ⟨expected, actual, hexpected, hactual,
    (validateResumeSources_iff hexpected hactual).2 fun x => ?_⟩
  rw [(Manifest.new_ok hexpected).2, (Manifest.new_ok hactual).2]
  exact (List.Perm.swap (triple (namedEntry 2 "b")) (triple (namedEntry 1 "a")) []).mem_iff

end DartUdp.Client
