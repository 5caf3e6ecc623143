import DartUdp.Proofs.StorageComplete

/-!
# A completed file is what was registered

Whatever was called before and by whichever exit `complete_file` ends well, the
file at the recorded destination has the registered size and hash. The record
that says so is there to be read, with one exception: a suffix can make the
destination longer than a path may be, and a record with such a path is written
but not accepted when it is read.

The module is for `completed_iff_recordable`. `completed_iff_of_moved` is the exit
that moves the file and `completed_iff` all of them; `longPath` is a path a host
takes whose suffix makes it too long for a record.
-/

namespace DartUdp.Storage

open DartUdp.Lib DartUdp.Transfer

variable {d d' : Disk} {p q : Path} {H : Host} {policy : OverwritePolicy} {pid : Nat}
  {t : TransferId} {f : FileId} {r : StateRecord}

/-- The record of the file says that it is complete with its registered size,
and the registered content is where the record says. A record found complete
is left as it was. -/
def Completed (H : Host) (t : TransferId) (f : FileId) (r : StateRecord) (fs : Fs) : Prop :=
  ∃ r', recordOf (fs.get? (statePath t f)) = some r' ∧ r'.registration = r.registration ∧
    r'.complete = true ∧ (r.complete = true ∨ r'.durableOffset = r.registration.size) ∧
    Verified H r.registration
      (fs.get? (splitSlash (r'.installedRelativePath.getD r.registration.relativePath)))

/-- The destination has at most `MAX_PATH_LEN` bytes, if one is to be chosen. -/
def Recordable (policy : OverwritePolicy) (t : TransferId) (f : FileId) (r : StateRecord)
    (fs : Fs) : Prop :=
  r.complete = true ∨ fs.get? (partialPath t f) = none ∧ r.registration.size ≠ 0 ∨
    ∀ dst, chosen policy fs (splitSlash r.registration.relativePath) = some dst →
      (joinSlash dst).length ≤ maxPathLen

/-! ## The record of a completed file -/

/-- A candidate is the path itself or the path with a suffix. -/
theorem Candidate.path {path : Bytes} {dst : Path} (h : Candidate (splitSlash path) dst) :
    ∃ text, dst = splitSlash text ∧
      (text = path ∨ ∃ index < 2 ^ 32, text = path ++ suffix index) := by
  rcases h with rfl | ⟨index, hindex, rfl⟩
  · exact ⟨path, rfl, .inl rfl⟩
  · exact ⟨_, suffixedPath_splitSlash path index, .inr ⟨index, hindex, rfl⟩⟩

theorem length_suffix_le {index : Nat} (h : index < 2 ^ 32) : (suffix index).length ≤ 11 := by
  have hdigits : (Nat.toDigits 10 index).length ≤ 10 :=
    (Nat.length_toDigits_le_iff (by omega) (by omega)).2 (by omega)
  have hdot : ".".toList.length = 1 := by decide
  simp only [suffix, ascii, Nat.toString_eq_repr, Nat.toList_repr, List.length_append,
    List.length_map]
  omega

theorem completed_valid {dst : Path} (hr : r.Valid)
    (hcand : Candidate (splitSlash r.registration.relativePath) dst)
    (hle : (joinSlash dst).length ≤ maxPathLen) : (r.completed (joinSlash dst)).Valid := by
  obtain ⟨text, rfl, htext⟩ := hcand.path
  rw [joinSlash_splitSlash] at hle ⊢
  have hgood : GoodText text ∧ validateStoragePath text = .ok () := by
    have hchecked := validateStoragePath_iff.1 hr.path
    rcases htext with rfl | ⟨index, _, rfl⟩
    · exact ⟨hr.path_text, hr.path⟩
    · exact ⟨⟨hle, utf8Valid_suffix hr.path_text.2 index⟩,
        validateStoragePath_iff.2 ((hchecked.suffix_iff index).2 hle)⟩
  refine ⟨hr.path_text, hr.path, hr.size, hr.modified, hr.mode, hr.size, hr.checkpoint,
    fun p hp => ?_⟩
  obtain rfl : text = p := Option.some.inj hp
  exact hgood

theorem completed_unreadable {dst : Path} (hr : r.Valid)
    (hcand : Candidate (splitSlash r.registration.relativePath) dst)
    (hlong : maxPathLen < (joinSlash dst).length) :
    readStateBytes (encodeState (r.completed (joinSlash dst))) = .error .malformedState := by
  obtain ⟨text, rfl, htext⟩ := hcand.path
  rw [joinSlash_splitSlash] at hlong ⊢
  have hbase : ({ r.completed text with installedRelativePath := none } : StateRecord).Valid :=
    ⟨hr.path_text, hr.path, hr.size, hr.modified, hr.mode, hr.size, hr.checkpoint,
      fun p hp => by cases hp⟩
  have hlen : text.length < 2 ^ 32 := by
    have hle : r.registration.relativePath.length ≤ 4096 := hr.path_text.1
    rcases htext with rfl | ⟨index, hindex, rfl⟩
    · omega
    · have := length_suffix_le hindex
      rw [List.length_append]
      omega
  exact readStateBytes_too_long hbase rfl hlong hlen

/-- The record of a file installed at `dst` can be read exactly if the path of
`dst` is not too long. -/
theorem recordOf_completed {dst : Path} (hr : r.Valid)
    (hcand : Candidate (splitSlash r.registration.relativePath) dst) :
    recordOf (some (.file (encodeState (r.completed (joinSlash dst))))) =
      if (joinSlash dst).length ≤ maxPathLen then some (r.completed (joinSlash dst)) else none := by
  split
  · next hle => exact recordOf_encodeState (completed_valid hr hcand hle)
  · next hlong =>
      have hbad := completed_unreadable hr hcand (Nat.not_le.1 hlong)
      simp only [recordOf, hbad]
      split
      · rfl
      · rfl

/-! ## A file that is moved -/

/-- The destination and the record file after the partial file was moved. -/
theorem InstalledAt.outside {dst : Path} {n : Node}
    (h : InstalledAt H policy (partialPath t f) (splitSlash r.registration.relativePath) dst
      r.registration d d')
    (hstate : d.fs.get? (statePath t f) = some n)
    (ha : ¬ Above storageDirectory (splitSlash r.registration.relativePath)) :
    Outside dst ∧ d'.fs.get? (statePath t f) = some n := by
  have hne := splitSlash_ne_nil r.registration.relativePath
  have hcand := (chosen_spec h.chosen).1
  obtain ⟨d₁, hens, hmoved⟩ := h.between
  have hdst : d.fs.get? dst ≠ some .dir := by
    rw [← hens.grown.get (hcand.not_above hne)]
    exact hmoved.vacant.1
  have hout := outside_of_chosen hstate hne ha hcand hdst
  refine ⟨hout, ?_⟩
  rcases h.get.2 _ hout.ne_statePath.symm statePath_ne_partialPath with hx | ⟨hx, _⟩
  · exact hx.trans hstate
  · rw [hstate] at hx
    cases hx

/-- A call that moved the partial file: the content is at the destination, and
the record says so as far as it can be read. -/
theorem completed_iff_of_moved {d₁ : Disk} {dst : Path} (hr : r.Valid) {n : Node}
    (hstate : d.fs.get? (statePath t f) = some n)
    (ha : ¬ Above storageDirectory (splitSlash r.registration.relativePath))
    (hat : InstalledAt H policy (partialPath t f) (splitSlash r.registration.relativePath) dst
      r.registration d d₁)
    (hwrite : writeState pid (statePath t f) (r.completed (joinSlash dst)) d₁ = .ok () d') :
    Completed H t f r d'.fs ↔ (joinSlash dst).length ≤ maxPathLen := by
  obtain ⟨hout, hstate₁⟩ := hat.outside hstate ha
  have hcand := (chosen_spec hat.chosen).1
  have hsets := writeState_inv hstate₁ (statePath_ne_nil t f) hwrite
  have hrecord : recordOf (d'.fs.get? (statePath t f)) =
      if (joinSlash dst).length ≤ maxPathLen then some (r.completed (joinSlash dst))
      else none := by
    rw [hsets.self]
    exact recordOf_completed hr hcand
  constructor
  · rintro ⟨r', hr', _⟩
    rw [hrecord] at hr'
    by_contra hlong
    rw [if_neg hlong] at hr'
    cases hr'
  · intro hle
    rw [if_pos hle] at hrecord
    obtain ⟨text, htext, _⟩ := hcand.path
    refine ⟨_, hrecord, rfl, rfl, .inr rfl, ?_⟩
    have hdst : splitSlash ((r.completed (joinSlash dst)).installedRelativePath.getD
        r.registration.relativePath) = dst := by
      show splitSlash (joinSlash dst) = dst
      rw [htext, joinSlash_splitSlash]
    rw [hdst, hsets.other hout.ne_statePath, hat.get.1]
    exact hat.verified

/-- The choice of a destination does not look at the partial file. -/
theorem chosen_of_sets {content : Option Node} {destination : Path} (hne : destination ≠ [])
    (ha : ¬ Above storageDirectory destination)
    (hsets : Sets d d' (partialPath t f) content) :
    chosen policy d'.fs destination = chosen policy d.fs destination := by
  refine chosen_congr fun q hq => hsets.other ?_
  rintro rfl
  have hstorage : partialPath t f ≠ storageDirectory := by
    simp [partialPath, partialDirectory, partialsDirectory, storageDirectory]
  exact (hq.outside hne ha hstorage).ne_partialPath rfl

/-! ## Every exit -/

/-- The postcondition of one call. -/
theorem completed_iff {size : Nat} {hash : Digest}
    (hrec : recordOf (d.fs.get? (statePath t f)) = some r)
    (ha : ¬ Above storageDirectory (splitSlash r.registration.relativePath))
    (h : completeFile H policy pid t f size hash d = .ok () d') :
    Completed H t f r d'.fs ↔ Recordable policy t f r d.fs := by
  have hvalid := recordOf_valid hrec
  have hne := splitSlash_ne_nil r.registration.relativePath
  obtain ⟨-, -, ⟨hcomplete, rfl, hverified⟩ | ⟨hpending, hdurable, installed, d₁, hinstall,
    hwrite⟩⟩ := completeFile_inv hrec h
  · exact iff_of_true ⟨r, hrec, rfl, hcomplete, .inl hcomplete, hverified⟩ (.inl hcomplete)
  · obtain ⟨n, hstate⟩ := recordOf_isSome hrec
    rcases install_inv hinstall with
      ⟨d₂, dst, rfl, hsource, hat⟩ | ⟨rfl, rfl, hnone, hsize, hverified, -⟩
    · have hstate₂ : d₂.fs.get? (statePath t f) = some n := by
        rcases hsource with rfl | ⟨_, _, hsets, _⟩
        · exact hstate
        · rw [hsets.other statePath_ne_partialPath, hstate]
      have hchosen : chosen policy d.fs (splitSlash r.registration.relativePath) = some dst := by
        rcases hsource with rfl | ⟨_, _, hsets, _⟩
        · exact hat.chosen
        · rw [← chosen_of_sets hne ha hsets]
          exact hat.chosen
      rw [completed_iff_of_moved hvalid hstate₂ ha hat hwrite]
      constructor
      · intro hle
        refine .inr (.inr fun dst' hdst' => ?_)
        rw [hchosen] at hdst'
        obtain rfl := Option.some.inj hdst'
        exact hle
      · rintro (hx | ⟨hnone, hsize⟩ | hx)
        · rw [hpending] at hx
          cases hx
        · obtain ⟨bytes, hfile, _⟩ := hat.verified
          rcases hsource with rfl | ⟨_, hzero, _⟩
          · rw [hnone] at hfile
            cases hfile
          · exact absurd hzero hsize
        · exact hx dst hchosen
    · -- The partial file is gone, and the content already in place.
      have hsets := writeState_inv hstate (statePath_ne_nil t f) hwrite
      have hout : splitSlash r.registration.relativePath ≠ statePath t f := by
        intro hx
        refine ha ⟨hx ▸ ⟨_, rfl⟩, fun hy => ?_⟩
        have := congrArg List.length (hy.trans hx)
        simp [statePath, sessionDirectory, sessionsDirectory, storageDirectory] at this
      refine iff_of_true ?_ (.inr (.inl ⟨hnone, hsize⟩))
      have hrecord := recordOf_completed hvalid (.inl rfl)
      rw [joinSlash_splitSlash, if_pos hvalid.path_text.1] at hrecord
      refine ⟨r.completed r.registration.relativePath, by rw [hsets.self]; exact hrecord,
        rfl, rfl, .inr rfl, ?_⟩
      have hdst : splitSlash ((r.completed r.registration.relativePath).installedRelativePath.getD
          r.registration.relativePath) = splitSlash r.registration.relativePath := rfl
      rw [hdst, hsets.other hout]
      exact hverified

/-- After any calls on any storage: if a file that does not lie in the storage
directory is completed, its content and its record are right exactly if its
destination is not too long a path. -/
theorem completed_iff_recordable {calls : List Call} {size : Nat} {hash : Digest}
    (hrec : recordOf ((runCalls H policy pid d calls).fs.get? (statePath t f)) = some r)
    (ha : ¬ Above storageDirectory (splitSlash r.registration.relativePath))
    (h : completeFile H policy pid t f size hash (runCalls H policy pid d calls) = .ok () d') :
    Completed H t f r d'.fs ↔ Recordable policy t f r (runCalls H policy pid d calls).fs :=
  completed_iff hrec ha h

/-! ## A destination that is too long -/

section Sample

/-- The storage of one file with the given record and partial file. -/
def storageNodes (r : StateRecord) (content : Bytes) : List (Path × Node) :=
  [(partialPath sampleId sampleId, .file content),
    (statePath sampleId sampleId, .file (encodeState r)),
    (partialDirectory sampleId, .dir), (sessionDirectory sampleId, .dir),
    (partialsDirectory, .dir), (sessionsDirectory, .dir), (storageDirectory, .dir)]

variable {content : Bytes} {fs : Fs}

theorem storageNodes_outside (h : Fs.ofList (storageNodes r content) = some fs)
    (hq : Outside q) (hne : q ≠ []) : fs.get? q = none := by
  cases hn : fs.get? q with
  | none => rfl
  | some n =>
      exfalso
      have hmem := (Fs.mem_of_get?_ofList h hn).resolve_left hne
      simp only [storageNodes, List.mem_cons, Prod.mk.injEq, List.not_mem_nil, or_false] at hmem
      rcases hmem with ⟨rfl, _⟩ | ⟨rfl, _⟩ | ⟨rfl, _⟩ | ⟨rfl, _⟩ | ⟨rfl, _⟩ | ⟨rfl, _⟩ | ⟨rfl, _⟩
      all_goals exact hq ⟨_, rfl⟩

theorem storageNodes_get (h : Fs.ofList (storageNodes r content) = some fs) :
    fs.get? (partialPath sampleId sampleId) = some (.file content) ∧
      fs.get? (statePath sampleId sampleId) = some (.file (encodeState r)) := by
  simp only [storageNodes, Fs.ofList] at h
  obtain ⟨fs₁, h₁, hput⟩ := Option.bind_eq_some_iff.1 h
  obtain ⟨fs₂, h₂, hput₂⟩ := Option.bind_eq_some_iff.1 h₁
  constructor
  · rw [(Fs.put?_eq_some hput).2, if_pos rfl]
  · rw [(Fs.put?_eq_some hput).2, if_neg statePath_ne_partialPath, (Fs.put?_eq_some hput₂).2,
      if_pos rfl]

theorem storageNodes_temp (h : Fs.ofList (storageNodes r content) = some fs) (counter : Nat) :
    fs.get? (tempPath (sessionDirectory sampleId) pid counter) = none := by
  cases hn : fs.get? (tempPath (sessionDirectory sampleId) pid counter) with
  | none => rfl
  | some n =>
      exfalso
      have hmem := (Fs.mem_of_get?_ofList h hn).resolve_left (by simp [tempPath])
      have hlen : (tempPath (sessionDirectory sampleId) pid counter).length = 4 := rfl
      have hname : (tempPath (sessionDirectory sampleId) pid counter)[3]?.bind List.head? =
          some 46 := rfl
      simp only [storageNodes, List.mem_cons, Prod.mk.injEq, List.not_mem_nil, or_false] at hmem
      rcases hmem with ⟨hx, _⟩ | ⟨hx, _⟩ | ⟨hx, _⟩ | ⟨hx, _⟩ | ⟨hx, _⟩ | ⟨hx, _⟩ | ⟨hx, _⟩
      · rw [hx] at hname; revert hname; decide
      · rw [hx] at hname; revert hname; decide
      all_goals rw [hx] at hlen; revert hlen; decide

theorem Outside.not_above (h : Outside p) : ¬ Above storageDirectory p := fun ha => h ha.1

theorem sampleHost_fits (h : sampleHost.fits p = true) (hq : q <+: p) :
    sampleHost.fits q = true :=
  List.all_eq_true.2 fun name hname => List.all_eq_true.1 h name (hq.subset hname)

/-- A verified partial file of a storage where nothing else is. -/
theorem storageNodes_ready (policy : OverwritePolicy) (pid : Nat)
    (h : Fs.ofList (storageNodes r content) = some fs) (hr : r.Valid)
    (hpending : r.complete = false) (hdurable : r.durableOffset = r.registration.size)
    (hverified : Verified sampleHost r.registration (some (.file content)))
    (hout : Outside (splitSlash r.registration.relativePath))
    (hfits : sampleHost.fits (splitSlash r.registration.relativePath) = true)
    (hsettles : sampleHost.Settles r.registration.metadata) :
    Ready sampleHost policy pid sampleId sampleId r (splitSlash r.registration.relativePath)
      (.boot fs) where
  record := by
    show recordOf (fs.get? _) = some r
    rw [(storageNodes_get h).2]
    exact recordOf_encodeState hr
  pending := hpending
  durable := hdurable
  verified := by
    show Verified _ r.registration (fs.get? _)
    rw [(storageNodes_get h).1]
    exact hverified
  clear := by
    intro q hq
    by_cases hnil : q = []
    · subst hnil
      exact .inl fs.get?_nil
    · exact .inr ⟨storageNodes_outside h (hq.outside hout.not_above) hnil,
        sampleHost_fits hfits hq.1⟩
  chosen := by
    have hnone := storageNodes_outside h hout (splitSlash_ne_nil _)
    cases policy with
    | renameWithSuffix =>
        show (if (fs.get? _).isSome then _ else _) = _
        rw [hnone]
        rfl
    | ask => rfl
    | noReplace => rfl
    | replaceAfterConfirm => rfl
  vacant := by
    have hnone := storageNodes_outside h hout (splitSlash_ne_nil _)
    exact ⟨by show fs.get? _ ≠ _; rw [hnone]; simp, fun _ => hnone, fun _ => hfits⟩
  settles := hsettles
  free := storageNodes_temp h _

/-- Sixteen names of 250 bytes and one of 79, which leaves room for a suffix. -/
def longPath : Bytes :=
  joinSlash (List.replicate 16 (List.replicate 250 97) ++ [List.replicate 79 97])

def longRecord : StateRecord :=
  { sampleRecord with registration := { sampleRecord.registration with relativePath := longPath } }

theorem longPath_checked : validateStoragePath longPath = .ok () := by decide +kernel

theorem longPath_too_long : maxPathLen < (longPath ++ suffix 1).length := by decide +kernel

theorem longRecord_valid : longRecord.Valid where
  path_text := ⟨by decide +kernel, by decide +kernel⟩
  path := longPath_checked
  size := by decide
  modified := fun v h => by cases h
  mode := fun v h => by cases h
  durable := by decide
  checkpoint := by decide
  installed := fun p h => by cases h

theorem longPath_fits :
    sampleHost.fits (suffixedPath (splitSlash longRecord.registration.relativePath) 1) = true ∧
      sampleHost.fits (splitSlash longRecord.registration.relativePath) = true := by
  decide +kernel

theorem suffixedPath_outside {destination : Path} (h : Outside destination) (index : Nat) :
    Outside (suffixedPath destination index) := by
  intro hpre
  have hdir := above_cases ⟨hpre, (suffixed_ne_storage destination index).symm⟩
  rw [show (suffixedPath destination index).dropLast = destination.dropLast by
    simp [suffixedPath]] at hdir
  exact h (hdir.trans (List.dropLast_prefix _))

/-- A storage like the one of `storageNodes_ready`, but with a file in the way: the
first suffix is chosen. -/
theorem storageNodes_taken (pid : Nat) (h : Fs.ofList (storageNodes r content) = some fs)
    (hr : r.Valid) (hpending : r.complete = false)
    (hdurable : r.durableOffset = r.registration.size)
    (hverified : Verified sampleHost r.registration (some (.file content)))
    (hout : Outside (splitSlash r.registration.relativePath))
    (hfits : sampleHost.fits (splitSlash r.registration.relativePath) = true)
    (hsuffixed : sampleHost.fits (suffixedPath (splitSlash r.registration.relativePath) 1) = true)
    (hsettles : sampleHost.Settles r.registration.metadata) :
    ∃ d, Ready sampleHost .renameWithSuffix pid sampleId sampleId r
      (suffixedPath (splitSlash r.registration.relativePath) 1) d := by
  have hne := splitSlash_ne_nil r.registration.relativePath
  have hready := storageNodes_ready .ask pid h hr hpending hdurable hverified hout hfits hsettles
  generalize hdest : splitSlash r.registration.relativePath = destination at hout hne hsuffixed ⊢
  obtain ⟨d₁, hensure⟩ := ensureSafeParent_ok hne (hdest ▸ hready.clear)
  have hens := ensureSafeParent_inv hne hensure
  have hnone : ∀ {q : Path}, Outside q → q.length = destination.length → d₁.fs.get? q = none := by
    intro q hq hlen
    rw [hens.grown.get fun ha => by have := ha.length_lt; omega]
    refine storageNodes_outside h hq fun hx => hne ?_
    rw [hx] at hlen
    exact List.length_eq_zero_iff.1 hlen.symm
  have hparent : d₁.fs.get? destination.dropLast = some .dir := by
    refine hens.dirs _ ⟨List.dropLast_prefix _, fun hx => ?_⟩
    have h1 := congrArg List.length hx
    have h2 := List.length_pos_iff.2 hne
    rw [List.length_dropLast] at h1
    omega
  have hcan : d₁.fs.CanPut destination (.file []) :=
    ⟨hne, hparent, fun hx => by rw [hnone hout rfl] at hx; cases hx⟩
  obtain ⟨fs₂, hput⟩ := Fs.put?_isSome hcan
  have hget := (Fs.put?_eq_some hput).2
  have hstorage : ∀ {q : Path}, ¬ Outside q → fs₂.get? q = fs.get? q := by
    intro q hq
    rw [hget, if_neg fun hx : q = destination => hq (hx ▸ hout)]
    exact hens.grown.get fun ha => hq (ha.outside hout.not_above)
  have hsuffix : fs₂.get? (suffixedPath destination 1) = none := by
    have hcand : Candidate destination (suffixedPath destination 1) :=
      .inr ⟨1, by decide, rfl⟩
    rw [hget]
    split
    · next hx =>
        exfalso
        have hlast := congrArg (fun p : Path => (p.getLast?.getD []).length) hx
        have hpos := length_suffix 1
        simp only [suffixedPath, suffix, List.getLast?_append, List.getLast?_singleton,
          Option.some_or, Option.getD_some, List.length_append] at hlast hpos
        rw [List.getLast?_eq_some_getLast hne] at hlast
        simp only [Option.getD_some] at hlast
        omega
    · exact hnone (suffixedPath_outside hout 1) (hcand.length hne)
  refine ⟨.boot fs₂, ?_⟩
  constructor
  case record =>
    show recordOf (fs₂.get? _) = some r
    rw [hstorage fun hx => hx.ne_statePath rfl]
    exact hready.record
  case pending => exact hpending
  case durable => exact hdurable
  case verified =>
    show Verified _ r.registration (fs₂.get? _)
    rw [hstorage fun hx => hx.ne_partialPath rfl]
    exact hready.verified
  case clear =>
    rw [hdest]
    intro q hq
    have hqd : q ≠ destination := hq.2
    refine .inl ?_
    show fs₂.get? q = _
    rw [hget, if_neg hqd]
    exact hens.dirs q hq
  case chosen =>
    rw [hdest]
    show (if (fs₂.get? destination).isSome then _ else _) = _
    rw [hget, if_pos rfl]
    show (if (fs₂.get? (suffixedPath destination 1)).isSome then _ else _) = _
    rw [hsuffix]
    rfl
  case vacant =>
    refine ⟨?_, fun _ => hsuffix, fun _ => hsuffixed⟩
    show fs₂.get? _ ≠ _
    rw [hsuffix]
    simp
  case settles => exact hsettles
  case free =>
    show fs₂.get? _ = none
    rw [hstorage tempPath_not_outside]
    exact hready.free

theorem storageNodes_longRecord :
    (Fs.ofList (storageNodes longRecord [7, 8])).isSome = true := by decide +kernel

theorem sample_verified : Verified sampleHost sampleRecord.registration (some (.file [7, 8])) :=
  ⟨[7, 8], rfl, rfl, rfl⟩

theorem sample_settles : sampleHost.Settles sampleRecord.registration.metadata :=
  ⟨rfl, fun _ => rfl⟩

/-- A file is received whose path has 4095 bytes, and a file of that path is
there. With the suffix the recorded path is one byte too long, and the record of
the completed file cannot be read. -/
theorem completed_record_is_unreadable :
    ¬ ∀ (H : Host) (policy : OverwritePolicy) (pid : Nat) (d d' : Disk) (calls : List Call)
      (t : TransferId) (f : FileId) (r : StateRecord) (size : Nat) (hash : Digest),
      recordOf ((runCalls H policy pid d calls).fs.get? (statePath t f)) = some r →
      ¬ Above storageDirectory (splitSlash r.registration.relativePath) →
      completeFile H policy pid t f size hash (runCalls H policy pid d calls) = .ok () d' →
      Completed H t f r d'.fs := by
  intro hall
  obtain ⟨fs, hfs⟩ := Option.isSome_iff_exists.1 storageNodes_longRecord
  have hout : Outside (splitSlash longRecord.registration.relativePath) := by
    unfold Outside
    decide +kernel
  obtain ⟨d, hready⟩ := storageNodes_taken 7 hfs longRecord_valid rfl rfl
    sample_verified hout longPath_fits.2 longPath_fits.1 sample_settles
  obtain ⟨d', hrun⟩ := completeFile_ok hready hout.not_above
  have hdone := hall _ _ _ d d' [] _ _ longRecord _ _ hready.record hout.not_above hrun
  rcases (completed_iff hready.record hout.not_above hrun).1 hdone with hx | ⟨hx, _⟩ | hx
  · cases hx
  · obtain ⟨bytes, hfile, _⟩ := hready.verified
    rw [hx] at hfile
    cases hfile
  · have hle := hx _ hready.chosen
    rw [suffixedPath_splitSlash, joinSlash_splitSlash] at hle
    exact absurd hle (Nat.not_le.2 longPath_too_long)

theorem storageNodes_sampleRecord :
    (Fs.ofList (storageNodes sampleRecord [7, 8])).isSome = true := by decide +kernel

theorem sampleRecord_valid : sampleRecord.Valid := recordOf_valid sample_record

theorem sampleRecord_outside : Outside (splitSlash sampleRecord.registration.relativePath) := by
  unfold Outside
  decide

/-- A file whose destination is free, completed under the default policy. -/
theorem completed_iff_recordable_free :
    ∃ fs d', Fs.ofList (storageNodes sampleRecord [7, 8]) = some fs ∧
      completeFile sampleHost .ask 7 sampleId sampleId 2 sampleHash (.boot fs) =
        .ok () d' ∧
      (Completed sampleHost sampleId sampleId sampleRecord d'.fs ↔
        Recordable .ask sampleId sampleId sampleRecord fs) := by
  obtain ⟨fs, hfs⟩ := Option.isSome_iff_exists.1 storageNodes_sampleRecord
  have hready := storageNodes_ready .ask 7 hfs sampleRecord_valid rfl rfl
    sample_verified sampleRecord_outside (by decide) sample_settles
  obtain ⟨d', hrun⟩ := completeFile_ok hready sampleRecord_outside.not_above
  have hrec : recordOf ((runCalls sampleHost .ask 7 (.boot fs) []).fs.get?
      (statePath sampleId sampleId)) = some sampleRecord := hready.record
  exact ⟨fs, d', hfs, hrun, completed_iff_recordable hrec sampleRecord_outside.not_above hrun⟩

end Sample

end DartUdp.Storage
