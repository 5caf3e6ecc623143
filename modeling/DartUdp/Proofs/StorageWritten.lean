import DartUdp.Lib.Runs
import DartUdp.Proofs.StorageFormat
import DartUdp.Proofs.StorageIntegrity
import DartUdp.Storage.Asserted

/-!
# Every record that is written can be read

A record that was read is valid, and so is the one made of an accepted
registration; a valid record is read back. What the methods make of a valid record
is valid again, with one exception. Under the policy that renames, a completed file
may get a suffix that makes its path too long, and the record of that file is not
read back. The condition for it is on the state a call of `complete_file` starts
in, and a run is safe exactly as long as no call meets it.

The module is for `assertedRun_iff`, about methods that assert what they write. Each
method agrees with its asserting one (`checkpoint_agrees`), `completeFile_agrees`
does short of the condition, and `assertedRun_cons` is the step of the run.
-/

namespace DartUdp.Storage

open DartUdp.Lib DartUdp.Transfer DartUdp.Session

variable {α : Type} {d d' : Disk} {p q : Path} {H : Host} {policy : OverwritePolicy} {pid : Nat}
  {t : TransferId} {f : FileId} {r : StateRecord} {registration : FileRegistration}

/-! ## Records that are read back -/

theorem StateRecord.Valid.readsBack (h : r.Valid) : r.readsBack = true := by
  simp [StateRecord.readsBack, readStateBytes_encodeState h]

/-- The assertion holds of a valid record. -/
theorem writeState_agrees (h : r.Valid) :
    Agrees (Asserted.writeState pid p r) (writeState pid p r) d := by
  unfold Asserted.writeState
  rw [if_pos h.readsBack]
  exact .of_safe

theorem StateRecord.new_valid (ht : registration.Typed)
    (hpath : validateStoragePath registration.relativePath = .ok ()) :
    (StateRecord.new registration).Valid where
  path_text := goodText_of_checked ht.path hpath
  path := hpath
  size := ht.size
  modified := ht.modified
  mode := ht.mode
  durable := Nat.two_pow_pos 64
  checkpoint := Nat.two_pow_pos 64
  installed := fun p hp => by cases hp

/-- The registration of a valid record makes a valid record again. -/
theorem StateRecord.Valid.renewed (h : r.Valid) : (StateRecord.new r.registration).Valid :=
  StateRecord.new_valid ⟨h.path_text.2, h.size, h.modified, h.mode⟩ h.path

theorem StateRecord.Valid.forgotten (h : r.Valid) :
    ({ r.reset with complete := false, installedRelativePath := none } : StateRecord).Valid :=
  ⟨h.path_text, h.path, h.size, h.modified, h.mode, h.reset.durable, h.reset.checkpoint,
    fun p hp => by cases hp⟩

/-! ## Recovery -/

theorem recoverComplete_valid (h : r.Valid) :
    Ends (recoverComplete H r) d (fun r' _ => r'.Valid) fun _ _ => True := by
  simp only [recoverComplete, ends_bind]
  refine ends_true.mono (fun _ d₁ _ => ?_) fun _ _ h => h
  refine ends_true.mono (fun path d₂ _ => ?_) fun _ _ h => h
  refine ends_true.mono (fun matched d₃ _ => ?_) fun _ _ h => h
  simp only [ends_ite, ends_pure]
  exact ⟨fun _ => h, fun _ => h.forgotten⟩

theorem recoverPartial_valid {partialFile : Path} {length : Nat} (h : r.Valid) :
    Ends (recoverPartial partialFile r length) d (fun r' _ => r'.Valid) fun _ _ => True := by
  have hlast : ∀ {record : StateRecord} {d₁ : Disk}, record.Valid →
      Ends (fileLengthIfExists partialFile) d₁
        (fun length d₂ =>
          (length.getD 0 < record.durableOffset →
            Ends (truncateFile partialFile 0) d₂ (fun _ _ => record.reset.Valid)
              fun _ _ => True) ∧
          (¬ length.getD 0 < record.durableOffset → record.Valid)) fun _ _ => True := by
    intro record d₁ hrecord
    refine ends_true.mono (fun _ d₂ _ => ⟨fun _ => ?_, fun _ => hrecord⟩) fun _ _ h => h
    exact ends_true.mono (fun _ _ _ => hrecord.reset) fun _ _ h => h
  simp only [recoverPartial, ends_steps]
  refine ⟨fun _ => ?_, fun _ => ⟨fun _ => ?_, fun _ => hlast h⟩⟩
  · exact ends_true.mono (fun _ _ _ => hlast h.reset) fun _ _ h => h
  · exact ends_true.mono (fun _ _ _ => hlast h) fun _ _ h => h

/-- Recovery makes a valid record of a valid one. -/
theorem recoverRecord_valid (h : r.Valid) :
    Ends (recoverRecord H r) d (fun r' _ => r'.Valid) fun _ _ => True := by
  simp only [recoverRecord, h.path, ends_ite]
  refine ⟨fun _ => recoverComplete_valid h, fun _ => ?_⟩
  rw [ends_bind]
  refine ends_true.mono (fun length d₁ _ => ?_) fun _ _ h => h
  cases length with
  | none =>
      simp only [ends_ite, ends_pure]
      exact ⟨fun _ => h.reset, fun _ => h⟩
  | some length => exact recoverPartial_valid h

theorem readState_valid : Ends (readState p) d (fun r _ => r.Valid) fun _ _ => True := by
  refine (Ends.run _ _).mono (fun r d' hrun => ?_) fun _ _ _ => trivial
  cases hrec : recordOf (d.fs.get? p) with
  | none =>
      obtain ⟨e, herr⟩ := readState_error hrec
      rw [herr] at hrun
      cases hrun
  | some r' =>
      rw [readState_ok hrec] at hrun
      obtain ⟨rfl, -⟩ := EStateM.Result.ok.inj hrun
      exact recordOf_valid hrec

theorem recoverState_agrees :
    Agrees (Asserted.recoverState H pid p) (recoverState H pid p) d := by
  refine .safe_bind ?_
  simp only [ends_tryCatch, ends_bind, ends_pure]
  refine readState_valid.mono (fun r d₁ hr => ?_) fun _ _ _ => .of_safe
  refine .safe_bind ?_
  exact (recoverRecord_valid hr).mono (fun _ _ hr' => writeState_agrees hr') fun _ _ h => h

theorem recoverAll_agrees : ∀ {paths : List Path} {d : Disk},
    Agrees (Asserted.recoverAll H pid paths) (recoverAll H pid paths) d := by
  intro paths
  induction paths with
  | nil => exact fun {_} => .pure ()
  | cons path paths ih =>
      intro d
      simp only [Asserted.recoverAll, recoverAll]
      refine .ite (fun _ => ?_) fun _ => ih
      exact .bind recoverState_agrees (ends_true.mono (fun _ _ _ => ih) fun _ _ h => h)

theorem recoverTransfers_agrees : ∀ {paths : List Path} {d : Disk},
    Agrees (Asserted.recoverTransfers H pid paths) (recoverTransfers H pid paths) d := by
  intro paths
  induction paths with
  | nil => exact fun {_} => .pure ()
  | cons path paths ih =>
      intro d
      refine .safe_bind (ends_true.mono (fun node d₁ _ => ?_) fun _ _ h => h)
      cases node with
      | none => exact ih
      | some node =>
          cases node with
          | dir =>
              refine .get_bind ?_
              exact .bind recoverAll_agrees (ends_true.mono (fun _ _ _ => ih) fun _ _ h => h)
          | file bytes => exact ih
          | symlink => exact ih

theorem openStorage_agrees : Agrees (Asserted.openStorage H pid) (openStorage H pid) d := by
  refine .safe_bind (ends_true.mono (fun _ d₁ _ => ?_) fun _ _ h => h)
  exact .get_bind recoverTransfers_agrees

/-! ## Registrations and checkpoints -/

theorem loadRecord_ends :
    Ends (loadRecord t f) d
      (fun r d' => recordOf (d.fs.get? (statePath t f)) = some r ∧ d' = d) fun _ _ => True :=
  (Ends.run _ _).mono (fun _ _ hrun => loadRecord_inv hrun) fun _ _ _ => trivial

theorem readStateIfExists_valid :
    Ends (readStateIfExists p) d (fun o _ => ∀ r, o = some r → r.Valid) fun _ _ => True := by
  simp only [readStateIfExists, ends_bind]
  refine ends_true.mono (fun node d₁ _ => ?_) fun _ _ h => h
  cases node with
  | none => exact fun r hr => by cases hr
  | some node =>
      simp only [ends_bind, ends_pure]
      refine readState_valid.mono (fun r d₂ hr r' hr' => ?_) fun _ _ h => h
      obtain rfl := Option.some.inj hr'
      exact hr

theorem recordToRegister_valid (ht : registration.Typed)
    (hpath : validateStoragePath registration.relativePath = .ok ()) :
    Ends (recordToRegister registration) d (fun r _ => r.Valid) fun _ _ => True := by
  have hnew := StateRecord.new_valid ht hpath
  simp only [recordToRegister, ends_bind]
  refine readStateIfExists_valid.mono (fun o d₁ ho => ?_) fun _ _ h => h
  cases o with
  | none =>
      simp only [ends_bind, ends_pure]
      exact ends_true.mono (fun _ _ _ => hnew) fun _ _ h => h
  | some existing =>
      simp only [ends_steps]
      refine ⟨fun _ => ho existing rfl, fun _ => ?_⟩
      refine ends_true.mono (fun _ d₂ _ => ?_) fun _ _ h => h
      exact ends_true.mono (fun _ _ _ => hnew) fun _ _ h => h

theorem registerFile_agrees (ht : registration.Typed) :
    Agrees (Asserted.registerFile H pid registration) (registerFile H pid registration) d := by
  simp only [Asserted.registerFile, registerFile]
  cases hpath : validateStoragePath registration.relativePath with
  | error e => exact .throw e
  | ok u =>
      refine .safe_bind (ends_true.mono (fun _ d₁ _ => ?_) fun _ _ h => h)
      refine .safe_bind ((recordToRegister_valid ht hpath).mono (fun r d₂ hr => ?_) fun _ _ h => h)
      refine .safe_bind ((recoverRecord_valid hr).mono (fun r' d₃ hr' => ?_) fun _ _ h => h)
      exact writeState_agrees hr'

/-- The fields of a `DurableState` are `u64`. -/
structure TypedState (state : DurableState) : Prop where
  durable : state.durableOffset < 2 ^ 64
  checkpoint : state.checkpointId < 2 ^ 64

theorem StateRecord.Valid.checkpointed {state : DurableState} (h : r.Valid)
    (ht : TypedState state) :
    ({ r with
        durableOffset := state.durableOffset
        checkpointId := state.checkpointId
        stateHash := state.stateHash } : StateRecord).Valid :=
  ⟨h.path_text, h.path, h.size, h.modified, h.mode, ht.durable, ht.checkpoint, h.installed⟩

theorem checkpoint_agrees {state : DurableState} (ht : TypedState state) :
    Agrees (Asserted.checkpoint pid t f state) (checkpoint pid t f state) d := by
  refine .safe_bind (loadRecord_ends.mono (fun r d₁ hr => ?_) fun _ _ h => h)
  have hvalid := recordOf_valid hr.1
  refine .ite (fun _ => .pure ()) fun _ => ?_
  refine .safe_bind (ends_true.mono (fun length d₂ _ => ?_) fun _ _ h => h)
  refine .ite (fun _ => .throw _) fun _ => .ite (fun _ => .throw _) fun _ => ?_
  refine .ite (fun _ => .pure ()) fun _ => ?_
  refine .safe_bind (ends_true.mono (fun _ d₃ _ => ?_) fun _ _ h => h)
  exact writeState_agrees (hvalid.checkpointed ht)

theorem resetFile_agrees : Agrees (Asserted.resetFile pid t f) (resetFile pid t f) d := by
  refine .safe_bind (loadRecord_ends.mono (fun r d₁ hr => ?_) fun _ _ h => h)
  refine .safe_bind (ends_true.mono (fun _ d₂ _ => ?_) fun _ _ h => h)
  exact writeState_agrees (recordOf_valid hr.1).renewed

/-! ## A suffix that makes a path too long -/

/-- The name of a file of this path is taken, and the first suffix that is free
makes the path too long for a record, though not for a file. -/
def Outgrows (H : Host) (path : Bytes) (fs : Fs) : Prop :=
  fs.get? (splitSlash path) ≠ none ∧
    ∃ index, 1 ≤ index ∧ index < 2 ^ 32 ∧ fs.get? (splitSlash (path ++ suffix index)) = none ∧
      (∀ earlier, 1 ≤ earlier → earlier < index →
        fs.get? (splitSlash (path ++ suffix earlier)) ≠ none) ∧
      H.fits (splitSlash (path ++ suffix index)) = true ∧
      maxPathLen < (path ++ suffix index).length

theorem firstFree_iff {fs : Fs} {destination : Path} : ∀ {left index},
    firstFree fs destination left index = some p ↔
      ∃ chosen, index ≤ chosen ∧ chosen < index + left ∧
        fs.get? (suffixedPath destination chosen) = none ∧
        (∀ earlier, index ≤ earlier → earlier < chosen →
          fs.get? (suffixedPath destination earlier) ≠ none) ∧
        p = suffixedPath destination chosen := by
  intro left
  induction left with
  | zero =>
      intro index
      constructor
      · intro h
        cases h
      · rintro ⟨chosen, hle, hlt, _⟩
        omega
  | succ left ih =>
      intro index
      simp only [firstFree]
      cases htaken : fs.get? (suffixedPath destination index) with
      | some node =>
          rw [Option.isSome_some, if_pos rfl, ih]
          constructor
          · rintro ⟨chosen, hle, hlt, hfree, hbefore, rfl⟩
            refine ⟨chosen, by omega, by omega, hfree, fun earlier h1 h2 => ?_, rfl⟩
            by_cases hfirst : earlier = index
            · rw [hfirst, htaken]
              simp
            · exact hbefore earlier (by omega) h2
          · rintro ⟨chosen, hle, hlt, hfree, hbefore, rfl⟩
            have hne : chosen ≠ index := by
              rintro rfl
              rw [htaken] at hfree
              cases hfree
            exact ⟨chosen, by omega, by omega, hfree,
              fun earlier h1 h2 => hbefore earlier (by omega) h2, rfl⟩
      | none =>
          rw [if_neg (by simp)]
          constructor
          · intro h
            obtain rfl := Option.some.inj h
            exact ⟨index, le_rfl, by omega, htaken, fun earlier h1 h2 => by omega, rfl⟩
          · rintro ⟨chosen, hle, hlt, hfree, hbefore, rfl⟩
            have heq : chosen = index := by
              by_contra hne
              exact hbefore index le_rfl (by omega) htaken
            rw [heq]

/-- The condition is about the destination that is chosen. -/
theorem outgrows_iff {path : Bytes} {fs : Fs} (hpath : path.length ≤ maxPathLen) :
    Outgrows H path fs ↔
      ∃ dst, chosen .renameWithSuffix fs (splitSlash path) = some dst ∧ H.fits dst = true ∧
        maxPathLen < (joinSlash dst).length := by
  have hbound : 1 + u32Max = 2 ^ 32 := by decide
  simp only [Outgrows, chosen]
  cases htaken : fs.get? (splitSlash path) with
  | none =>
      refine ⟨fun h => absurd rfl h.1, fun h => ?_⟩
      obtain ⟨dst, hdst, -, hlong⟩ := h
      obtain rfl := Option.some.inj hdst
      rw [joinSlash_splitSlash] at hlong
      omega
  | some node =>
      simp only [Option.isSome_some, if_true, firstFree_iff, suffixedPath_splitSlash, hbound]
      constructor
      · rintro ⟨-, index, hle, hlt, hfree, hbefore, hfits, hlong⟩
        refine ⟨_, ⟨index, hle, hlt, hfree, hbefore, rfl⟩, hfits, ?_⟩
        rwa [joinSlash_splitSlash]
      · rintro ⟨dst, ⟨index, hle, hlt, hfree, hbefore, rfl⟩, hfits, hlong⟩
        rw [joinSlash_splitSlash] at hlong
        exact ⟨by simp, index, hle, hlt, hfree, hbefore, hfits, hlong⟩

theorem length_displayId (id : Id) : (displayId id).length = 32 := by
  have hhex : ∀ bytes : Bytes, (hex bytes).length = 2 * bytes.length := by
    intro bytes
    induction bytes with
    | nil => rfl
    | cons b bytes ih =>
        simp only [hex, List.flatMap_cons, List.length_append, List.length_cons,
          List.length_nil] at ih ⊢
        omega
  rw [displayId, hhex]
  simp

theorem length_partialPath (t : TransferId) (f : FileId) :
    (joinSlash (partialPath t f)).length = 92 := by
  have h1 : (ascii ".udp-transfer").length = 13 := by decide
  have h2 : (ascii "partial").length = 7 := by decide
  have h3 : (ascii ".part").length = 5 := by decide
  simp [partialPath, partialDirectory, partialsDirectory, storageDirectory,
    joinSlash, List.intercalate, h1, h2, h3, length_displayId]

/-- No destination of a long path is a partial file. -/
theorem Candidate.ne_partialPath {path : Bytes} (h : Candidate (splitSlash path) q)
    (hlong : 92 < path.length) : q ≠ partialPath t f := by
  rintro rfl
  obtain ⟨text, htext, hcases⟩ := h.path
  have hlen : text.length = 92 := by
    rw [← length_partialPath t f, htext, joinSlash_splitSlash]
  rcases hcases with rfl | ⟨index, -, rfl⟩
  · omega
  · rw [List.length_append] at hlen
    omega

theorem Outgrows.long {path : Bytes} {fs : Fs} (h : Outgrows H path fs) : 92 < path.length := by
  obtain ⟨-, index, -, hlt, -, -, -, hlong⟩ := h
  have hsuffix := length_suffix_le hlt
  rw [List.length_append] at hlong
  have hmax : maxPathLen = 4096 := rfl
  omega

/-- The partial file makes no difference to the condition. -/
theorem Sets.outgrows_iff {path : Bytes} {content : Option Node} (hlong : 92 < path.length)
    (hsets : Sets d d' (partialPath t f) content) :
    Outgrows H path d'.fs ↔ Outgrows H path d.fs := by
  have hget : ∀ q, Candidate (splitSlash path) q → d'.fs.get? q = d.fs.get? q :=
    fun q hq => hsets.other (hq.ne_partialPath hlong)
  have hsuffix : ∀ index, index < 2 ^ 32 →
      d'.fs.get? (splitSlash (path ++ suffix index)) =
        d.fs.get? (splitSlash (path ++ suffix index)) := by
    intro index hlt
    rw [← suffixedPath_splitSlash]
    exact hget _ (.inr ⟨index, hlt, rfl⟩)
  unfold Outgrows
  rw [hget _ (.inl rfl)]
  refine and_congr_right fun _ => exists_congr fun index => and_congr_right fun _ => ?_
  refine and_congr_right fun hlt => and_congr (by rw [hsuffix index hlt]) ?_
  refine and_congr_left fun _ => ?_
  refine forall_congr' fun earlier => forall_congr' fun _ => forall_congr' fun hearlier => ?_
  rw [hsuffix earlier (by omega)]

/-! ## Completing a file -/

/-- The content is in the partial file and is what was registered. An empty file
needs no partial file, if one can be made. -/
def Sourced (H : Host) (t : TransferId) (f : FileId) (registration : FileRegistration)
    (fs : Fs) : Prop :=
  Verified H registration (fs.get? (partialPath t f)) ∨
    fs.get? (partialPath t f) = none ∧ fs.get? (partialDirectory t) = some .dir ∧
      Verified H registration (some (.file [])) ∧
      ¬ Above (partialPath t f) (splitSlash registration.relativePath)

/-- A call of `complete_file` passes every check up to the move of the file, and
moves it to a name that makes its path too long. -/
structure Overlong (H : Host) (policy : OverwritePolicy) (t : TransferId) (f : FileId)
    (size : Nat) (hash : Digest) (r : StateRecord) (fs : Fs) : Prop where
  policy : policy = .renameWithSuffix
  record : recordOf (fs.get? (statePath t f)) = some r
  pending : r.complete = false
  durable : r.durableOffset = r.registration.size
  size : size = r.registration.size
  hash : hash = r.registration.contentHash
  sourced : Sourced H t f r.registration fs
  clear : Clear H (splitSlash r.registration.relativePath) fs
  outgrows : Outgrows H r.registration.relativePath fs
  settles : H.Settles r.registration.metadata

theorem partialPath_dropLast (t : TransferId) (f : FileId) :
    (partialPath t f).dropLast = partialDirectory t := by simp [partialPath]

theorem sourceExists_ok {size : Nat} (hnone : d.fs.get? (partialPath t f) = none)
    (hdir : d.fs.get? (partialDirectory t) = some .dir) (hsize : size = 0) :
    ∃ d', sourceExists (partialPath t f) size d = .ok true d' ∧
      Sets d d' (partialPath t f) (some (.file [])) := by
  have hcan : d.fs.CanPut (partialPath t f) (.file []) :=
    ⟨by simp [partialPath], by rw [partialPath_dropLast]; exact hdir,
      fun hx => by rw [hnone] at hx; cases hx⟩
  obtain ⟨fs, hput⟩ := Fs.put?_isSome hcan
  have hlen : fileLengthIfExists (partialPath t f) d = .ok none d := by
    simp only [fileLengthIfExists]
    rw [bind_ok (metadata_run _ d), hnone]
    rfl
  have hwrite : write "open partial file" (·.put? (partialPath t f) (.file [])) d =
      .ok () { d with fs, trail := d.trail ++ [fs] } := write_ok hput
  have hopen : openPartial (partialPath t f) d =
      .ok [] { d with fs, trail := d.trail ++ [fs] } := by
    simp only [openPartial]
    rw [bind_ok (metadata_run _ d), hnone]
    exact (bind_ok hwrite).trans rfl
  refine ⟨{ d with fs, trail := d.trail ++ [fs] }, ?_, (Fs.put?_eq_some hput).2⟩
  simp only [sourceExists]
  rw [bind_ok hlen]
  simp only [Option.isSome_none, Bool.false_eq_true, if_false, hsize, if_true]
  exact (bind_ok hopen).trans rfl

/-- Where the partial file is, if need be made. -/
theorem Overlong.source {size : Nat} {hash : Digest}
    (h : Overlong H policy t f size hash r d.fs) :
    ∃ d₀, sourceExists (partialPath t f) r.registration.size d = .ok true d₀ ∧
      Verified H r.registration (d₀.fs.get? (partialPath t f)) ∧
      Clear H (splitSlash r.registration.relativePath) d₀.fs ∧
      Outgrows H r.registration.relativePath d₀.fs := by
  rcases h.sourced with hverified | ⟨hnone, hdir, hverified, habove⟩
  · obtain ⟨bytes, hfile, hcontent⟩ := hverified
    refine ⟨d, ?_, ⟨bytes, hfile, hcontent⟩, h.clear, h.outgrows⟩
    simp only [sourceExists]
    rw [bind_ok (fileLengthIfExists_ok hfile)]
    rfl
  · have hsize : r.registration.size = 0 := by
      obtain ⟨bytes, hfile, hsize, -⟩ := hverified
      obtain rfl := Node.file.inj (Option.some.inj hfile)
      exact hsize.symm
    obtain ⟨d₀, hsource, hsets⟩ := sourceExists_ok hnone hdir hsize
    refine ⟨d₀, hsource, ?_, fun q hq => ?_, (hsets.outgrows_iff h.outgrows.long).2 h.outgrows⟩
    · rw [hsets.self]
      exact hverified
    · rw [hsets.other fun hx => habove (hx ▸ hq)]
      exact h.clear q hq

/-- Such a call hands on a record that is not read back. -/
theorem completeFile_panics {size : Nat} {hash : Digest}
    (h : Overlong H policy t f size hash r d.fs) :
    ∃ d', Asserted.completeFile H policy pid t f size hash d = .error .panic d' := by
  obtain rfl := h.policy
  have hvalid := recordOf_valid h.record
  have hne := splitSlash_ne_nil r.registration.relativePath
  obtain ⟨d₀, hsource, hverified, hclear, houtgrows⟩ := h.source
  obtain ⟨dst, hchosen, hfits, hlong⟩ := (outgrows_iff hvalid.path_text.1).1 houtgrows
  obtain ⟨hcand, hfree, -⟩ := chosen_spec hchosen
  have hvacant : Vacant H .renameWithSuffix d₀.fs dst := by
    refine ⟨?_, fun _ => hfree rfl, fun _ => hfits⟩
    rw [hfree rfl]
    simp
  obtain ⟨d₁, hmoved⟩ :=
    installPartial_ok (f := f) hne hverified hclear hchosen hvacant h.settles
  have hinstall : install H .renameWithSuffix t f r.registration d = .ok (joinSlash dst) d₁ := by
    simp only [install]
    rw [bind_ok (destinationPath_ok hvalid.path d), bind_ok hsource]
    exact hmoved
  have hunread : (r.completed (joinSlash dst)).readsBack = false := by
    simp only [StateRecord.readsBack, completed_unreadable hvalid hcand hlong]
  have hload : safe (loadRecord t f) d = .ok r d := by rw [safe, loadRecord_ok h.record]
  have hsafe : safe (install H .renameWithSuffix t f r.registration) d =
      .ok (joinSlash dst) d₁ := by rw [safe, hinstall]
  refine ⟨d₁, ?_⟩
  simp only [Asserted.completeFile]
  rw [bind_ok hload, if_neg (by simp [h.size]), if_neg (by simp [h.hash]),
    if_neg (by simp [h.pending]), if_neg (by simp [h.durable]), bind_ok hsafe]
  simp only [Asserted.writeState, hunread, Bool.false_eq_true, if_false]
  rfl

/-- A file that was installed has a record that is read back, or its path got too
long. -/
theorem install_valid_or {installed : Bytes} (hvalid : r.Valid)
    (h : install H policy t f r.registration d = .ok installed d') :
    (r.completed installed).Valid ∨
      policy = .renameWithSuffix ∧ Sourced H t f r.registration d.fs ∧
        Clear H (splitSlash r.registration.relativePath) d.fs ∧
        Outgrows H r.registration.relativePath d.fs ∧ H.Settles r.registration.metadata := by
  rcases install_inv h with ⟨d₀, dst, rfl, hsource, hat⟩ | ⟨rfl, rfl, -⟩
  · obtain ⟨hcand, hfree, hsame⟩ := chosen_spec hat.chosen
    by_cases hle : (joinSlash dst).length ≤ maxPathLen
    · exact .inl (completed_valid hvalid hcand hle)
    have hlong := Nat.not_le.1 hle
    have hpolicy : policy = .renameWithSuffix := by
      by_contra hother
      rw [hsame hother, joinSlash_splitSlash] at hle
      exact hle hvalid.path_text.1
    have hchosen := hat.chosen
    rw [hpolicy] at hchosen
    obtain ⟨d₁, hensured, hmoved⟩ := hat.between
    have hnone : d₁.fs.get? dst = none := by
      rw [hensured.grown.get (hcand.not_above (splitSlash_ne_nil _))]
      exact hfree hpolicy
    have houtgrows : Outgrows H r.registration.relativePath d₀.fs :=
      (outgrows_iff hvalid.path_text.1).2 ⟨dst, hchosen, hmoved.vacant.2.2 hnone, hlong⟩
    refine .inr ⟨hpolicy, ?_⟩
    rcases hsource with rfl | ⟨hnone, hsize, hsets, -⟩
    · exact ⟨.inl hat.verified, hensured.clear, houtgrows, hat.settles⟩
    · have hfile := hsets.self
      have habove : ¬ Above (partialPath t f) (splitSlash r.registration.relativePath) := by
        intro hab
        rcases hensured.clear _ hab with hx | ⟨hx, -⟩
        · rw [hfile] at hx
          cases hx
        · rw [hfile] at hx
          cases hx
      have hdir : d.fs.get? (partialDirectory t) = some .dir := by
        rw [← hsets.other (show partialDirectory t ≠ partialPath t f by simp [partialPath])]
        exact Fs.parent_dir hfile
      refine ⟨.inr ⟨hnone, hdir, ?_, habove⟩, fun q hq => ?_,
        (hsets.outgrows_iff houtgrows.long).1 houtgrows, hat.settles⟩
      · rw [← hfile]
        exact hat.verified
      · rw [← hsets.other fun hx => habove (hx ▸ hq)]
        exact hensured.clear q hq
  · have hin := completed_valid hvalid (.inl rfl)
    rw [joinSlash_splitSlash] at hin
    exact .inl (hin hvalid.path_text.1)

theorem completeFile_agrees {size : Nat} {hash : Digest}
    (h : ∀ r, ¬ Overlong H policy t f size hash r d.fs) :
    Agrees (Asserted.completeFile H policy pid t f size hash)
      (completeFile H policy pid t f size hash) d := by
  refine .safe_bind (loadRecord_ends.mono ?_ fun _ _ h => h)
  rintro r d₁ ⟨hrec, rfl⟩
  have hvalid := recordOf_valid hrec
  refine .ite (fun _ => .throw _) fun hsize => .ite (fun _ => .throw _) fun hhash => ?_
  refine .ite (fun _ => ?_) fun hpending => .ite (fun _ => .throw _) fun hdurable => ?_
  · refine .safe_bind (ends_true.mono (fun path d₂ _ => ?_) fun _ _ h => h)
    refine .safe_bind (ends_true.mono (fun matched d₃ _ => ?_) fun _ _ h => h)
    exact .ite (fun _ => .pure ()) fun _ => .throw _
  · refine .safe_bind ((Ends.run _ _).mono (fun installed d₂ hinstall => ?_) fun _ _ _ => trivial)
    rcases install_valid_or hvalid hinstall with
      hgood | ⟨hpolicy, hsourced, hclear, houtgrows, hsettles⟩
    · exact writeState_agrees hgood
    · refine absurd ?_ (h r)
      exact ⟨hpolicy, hrec, by simpa using hpending, Decidable.not_not.1 hdurable,
        Decidable.not_not.1 hsize, Decidable.not_not.1 hhash, hsourced, hclear, houtgrows,
        hsettles⟩

/-! ## Runs -/

namespace Operation

/-- The arguments have the types they have in the source. -/
def Typed : Operation → Prop
  | .call (.registerFile registration) => registration.Typed
  | .call (.checkpoint _ _ state) => TypedState state
  | _ => True

/-- The operation is a call that makes the path of a file too long. -/
def Overlong (H : Host) (policy : OverwritePolicy) (d : Disk) : Operation → Prop
  | .call (.completeFile t f size hash) => ∃ r, Storage.Overlong H policy t f size hash r d.fs
  | _ => False

theorem agrees {operation : Operation} (ht : operation.Typed)
    (h : ¬ operation.Overlong H policy d) :
    Agrees (operation.asserted H policy pid) (operation.run H policy pid) d := by
  cases operation with
  | openStorage => exact openStorage_agrees
  | call c =>
      cases c with
      | registerFile registration => exact registerFile_agrees ht
      | writeData t f offset data => exact .of_safe
      | checkpoint t f state => exact checkpoint_agrees ht
      | completeFile t f size hash => exact completeFile_agrees fun r hr => h ⟨r, hr⟩
  | resetFile t f => exact resetFile_agrees
  | disturb disk => rfl

theorem panics {operation : Operation} (h : operation.Overlong H policy d) :
    ∃ d', operation.asserted H policy pid d = .error .panic d' := by
  cases operation with
  | call c =>
      cases c with
      | completeFile t f size hash =>
          obtain ⟨r, hr⟩ := h
          exact completeFile_panics hr
      | _ => exact h.elim
  | _ => exact h.elim

end Operation

theorem assertedRun_cons {operation : Operation} {operations : List Operation}
    (h : Agrees (operation.asserted H policy pid) (operation.run H policy pid) d) :
    assertedRun H policy pid d (operation :: operations) =
      assertedRun H policy pid (after (operation.run H policy pid) d) operations := by
  have hrun : operation.asserted H policy pid d = safe (operation.run H policy pid) d := h
  rw [assertedRun, hrun, safe, after]
  cases operation.run H policy pid d with
  | ok u d' => rfl
  | error e d' => rfl

/-- No assertion of a run fails, whatever the registrations, the policy and the
disk, exactly if no call of the run makes the path of a file too long. -/
theorem assertedRun_iff {operations : List Operation} (ht : ∀ o ∈ operations, o.Typed) :
    assertedRun H policy pid d operations = some (runOperations H policy pid d operations) ↔
      Meets (fun d operation => after (operation.run H policy pid) d)
        (fun d operation => ¬ operation.Overlong H policy d) d operations := by
  induction operations generalizing d with
  | nil => exact iff_of_true rfl trivial
  | cons operation operations ih =>
      by_cases hlong : operation.Overlong H policy d
      · have hpanics : ∃ d', operation.asserted H policy pid d = .error .panic d' :=
          Operation.panics hlong
        obtain ⟨d', hpanics⟩ := hpanics
        refine iff_of_false (fun hrun => ?_) fun hmeets => hmeets.1 hlong
        rw [assertedRun, hpanics] at hrun
        cases hrun
      · rw [assertedRun_cons (Operation.agrees (ht _ List.mem_cons_self) hlong)]
        refine (ih fun o ho => ht o (List.mem_cons_of_mem _ ho)).trans ?_
        exact ⟨fun hmeets => ⟨hlong, hmeets⟩, fun hmeets => hmeets.2⟩

/-! ## Reopening -/

/-- A record that can be read is not lost when the storage is opened. -/
theorem openStorage_keeps_record (h : openStorage H pid d = .ok () d')
    (hrec : ∃ r, recordOf (d.fs.get? (statePath t f)) = some r) :
    ∃ r, recordOf (d'.fs.get? (statePath t f)) = some r := by
  have hsp : (statePath t f).dropLast.dropLast = sessionsDirectory := by
    simp [statePath, sessionDirectory]
  have hstep : ∀ {p : Path} {d₁ d₂ : Disk}, p.dropLast.dropLast = sessionsDirectory → IsState p →
      recoverState H pid p d₁ = .ok () d₂ →
      (∃ r, recordOf (d₁.fs.get? (statePath t f)) = some r) →
      ∃ r, recordOf (d₂.fs.get? (statePath t f)) = some r := by
    rintro p d₁ d₂ hs hst hrun ⟨r, hr⟩
    by_cases hp : p = statePath t f
    · subst hp
      rcases recoverState_inv (statePath_ne_nil t f) hrun with
        ⟨hnone, -⟩ | ⟨r₁, r', d₀, hr₁, hrecover, hsets⟩
      · rw [hr] at hnone
        cases hnone
      · have hvalid := (recoverRecord_valid (recordOf_valid hr₁)).ok hrecover
        refine ⟨r', ?_⟩
        rw [(hsets statePath_ne_partialPath).self]
        exact recordOf_encodeState hvalid
    · rw [recoverState_frame hs hst hrun (not_touches_session hsp (Ne.symm hp))]
      exact ⟨r, hr⟩
  refine openStorage_keeps hstep (fun hlayout => ?_) h
  rcases ensureLayout_get hlayout (statePath t f) with hx | ⟨-, -, hle, -⟩
  · rw [hx]
    exact hrec
  · simp [statePath, sessionDirectory, sessionsDirectory, storageDirectory] at hle

/-! ## A run with a record that is not read back -/

/-- A file is received, and the storage opened again. -/
def receivingRun : List Operation :=
  [.openStorage, .call (.registerFile sampleRecord.registration),
    .call (.writeData sampleId sampleId 0 [7, 8]),
    .call (.checkpoint sampleId sampleId ⟨2, 1, zeroDigest .blake3⟩),
    .call (.completeFile sampleId sampleId 2 sampleHash), .openStorage]

theorem sampleRegistration_typed : sampleRecord.registration.Typed where
  path := by decide
  size := by decide
  modified := fun v h => by cases h
  mode := fun v h => by cases h

theorem sampleState_typed : TypedState ⟨2, 1, zeroDigest .blake3⟩ where
  durable := by decide
  checkpoint := by decide

theorem receivingRun_typed : ∀ o ∈ receivingRun, o.Typed := by
  intro o ho
  simp only [receivingRun, List.mem_cons, List.not_mem_nil, or_false] at ho
  rcases ho with rfl | rfl | rfl | rfl | rfl | rfl
  · trivial
  · exact sampleRegistration_typed
  · trivial
  · exact sampleState_typed
  · trivial
  · trivial

theorem assertedRun_iff_receiving :
    assertedRun sampleHost .renameWithSuffix 7 (.boot .empty) receivingRun =
        some (runOperations sampleHost .renameWithSuffix 7 (.boot .empty) receivingRun) ↔
      Meets (fun d operation => after (operation.run sampleHost .renameWithSuffix 7) d)
        (fun d operation => ¬ operation.Overlong sampleHost .renameWithSuffix d)
        (.boot .empty) receivingRun :=
  assertedRun_iff receivingRun_typed

/-- A file has been received whose path has 4095 bytes, and one of its name is
there. The record its completion writes cannot be read. -/
theorem record_is_not_read_back :
    ¬ ∀ (H : Host) (policy : OverwritePolicy) (pid : Nat) (d : Disk)
      (operations : List Operation), (∀ o ∈ operations, o.Typed) →
      assertedRun H policy pid d operations = some (runOperations H policy pid d operations) := by
  intro hall
  obtain ⟨fs, hfs⟩ := Option.isSome_iff_exists.1 storageNodes_longRecord
  have hout : Outside (splitSlash longRecord.registration.relativePath) := by
    unfold Outside
    decide +kernel
  obtain ⟨d, hready⟩ := storageNodes_taken 7 hfs longRecord_valid rfl rfl
    sample_verified hout longPath_fits.2 longPath_fits.1 sample_settles
  have houtgrows : Outgrows sampleHost longRecord.registration.relativePath d.fs := by
    refine (outgrows_iff longRecord_valid.path_text.1).2 ⟨_, hready.chosen, longPath_fits.1, ?_⟩
    rw [suffixedPath_splitSlash, joinSlash_splitSlash]
    exact longPath_too_long
  have hlong : Overlong sampleHost .renameWithSuffix sampleId sampleId
      longRecord.registration.size longRecord.registration.contentHash longRecord d.fs :=
    ⟨rfl, hready.record, rfl, rfl, rfl, rfl, .inl hready.verified, hready.clear, houtgrows,
      sample_settles⟩
  have htyped : ∀ o ∈ [Operation.call (.completeFile sampleId sampleId
      longRecord.registration.size longRecord.registration.contentHash)], o.Typed := by
    intro o ho
    obtain rfl := List.mem_singleton.1 ho
    trivial
  have hrun := hall sampleHost .renameWithSuffix 7 d _ htyped
  exact ((assertedRun_iff htyped).1 hrun).1 ⟨longRecord, hlong⟩

end DartUdp.Storage
