import DartUdp.Proofs.StorageCrash
import DartUdp.Proofs.StorageFootprint

/-!
# Where the steps of a call end

A call that fails has made some of its writes. For the steps the calls are made of,
this file says on which disk each of them ends, well or not: a record is written or it is
not, a partial file is brought in line or left alone.

A file of a transfer is two files on disk, its record and its partial file. What is said
of the steps is put in terms of these two.

`Disciplined` and `DisciplinedFor` are what is to hold of the two, and
`writeState_ends` and `recoverPartial_ok` the steps that decide whether it does.
-/

namespace DartUdp.Storage

open DartUdp.Lib DartUdp.Transfer DartUdp.Session

variable {α : Type} {d d' : Disk} {p q : Path} {H : Host} {policy : OverwritePolicy} {pid : Nat}
  {t t' : TransferId} {f f' : FileId} {r : StateRecord} {registration : FileRegistration}

/-! ## What single steps end in -/

theorem removeFileIfExists_ends :
    Ends (removeFileIfExists p) d (fun _ d' => Sets d d' p none)
      fun _ d' => d' = d ∧ d.fs.get? p = some .dir := by
  refine (Ends.run _ _).mono (fun _ _ h => removeFileIfExists_inv h) fun e d' h => ?_
  simp only [removeFileIfExists] at h
  rw [bind_ok (metadata_run p d)] at h
  have herase : d.fs.get? p ≠ some .dir →
      write "remove storage file" (·.erase? p) d ≠ .error e d' := by
    intro hdir hrun
    obtain ⟨fs, hfs⟩ := Fs.erase?_isSome hdir
    rw [write_ok hfs] at hrun
    cases hrun
  cases hp : d.fs.get? p with
  | none =>
      rw [hp] at h
      cases h
  | some node =>
      rw [hp] at h
      cases node with
      | dir =>
          obtain ⟨-, rfl⟩ := EStateM.Result.error.inj h
          exact ⟨rfl, rfl⟩
      | file bytes => exact absurd h (herase (by simp [hp]))
      | symlink => exact absurd h (herase (by simp [hp]))

theorem readStateIfExists_ends :
    Ends (readStateIfExists p) d
      (fun found d' => d' = d ∧ (found = none ∧ d.fs.get? p = none ∨
        ∃ r, found = some r ∧ recordOf (d.fs.get? p) = some r)) fun _ d' => d' = d := by
  refine ((Ends.run _ _).and (readStateIfExists_reads d)).mono ?_ fun _ _ h => h.2
  rintro found d' ⟨h, rfl⟩
  refine ⟨rfl, ?_⟩
  simp only [readStateIfExists] at h
  rw [bind_ok (metadata_run p d')] at h
  cases hp : d'.fs.get? p with
  | none =>
      rw [hp] at h
      obtain ⟨rfl, -⟩ := EStateM.Result.ok.inj h
      exact .inl ⟨rfl, rfl⟩
  | some node =>
      rw [hp] at h
      obtain ⟨r, d₁, hread, hlast⟩ := bind_inv h
      obtain ⟨rfl, rfl⟩ := EStateM.Result.ok.inj hlast
      refine .inr ⟨r, rfl, ?_⟩
      cases hrec : recordOf (some node) with
      | some r' =>
          rw [readState_ok (hp ▸ hrec)] at hread
          exact congrArg some (EStateM.Result.ok.inj hread).1
      | none =>
          obtain ⟨e, herr⟩ := readState_error (hp ▸ hrec)
          rw [herr] at hread
          cases hread

theorem truncateFile_ok {bytes : Bytes} (length : Nat)
    (hp : d.fs.get? p = some (.file bytes)) :
    ∃ d', truncateFile p length d = .ok () d' ∧
      Sets d d' p (some (.file (setLen bytes length))) := by
  have hdir : d.fs.get? p ≠ some .dir := by simp [hp]
  have hne : p ≠ [] := Fs.ne_nil_of_not_dir hdir
  have hparent : d.fs.get? p.dropLast = some .dir := by
    have hsplit := List.dropLast_concat_getLast hne
    rw [← hsplit] at hp
    exact Fs.parent_dir hp
  have hcan : d.fs.CanPut p (.file (setLen bytes length)) :=
    ⟨hne, hparent, fun hx => absurd hx hdir⟩
  obtain ⟨fs, hput⟩ := Fs.put?_isSome hcan
  have hrun : truncateFile p length d = .ok () { d with fs, trail := d.trail ++ [fs] } := by
    simp only [truncateFile]
    rw [bind_ok (metadata_run p d), hp]
    exact write_ok hput
  exact ⟨_, hrun, (Fs.put?_eq_some hput).2⟩

/-! ## Writing a record -/

theorem replaceState_ends {temp : Path} {bytes : Bytes} (hfree : d.fs.get? temp = none) :
    Ends (replaceState temp p bytes) d (fun _ d' => Sets d d' p (some (.file bytes)))
      fun _ d' => d'.fs = d.fs ∨ Sets d d' temp (some (.file bytes)) := by
  have hwrites : Ends (do
      write "create checkpoint state" (·.put? temp (.file bytes))
      write "atomically replace checkpoint state" (·.rename? temp p)) d (fun _ _ => True)
      fun _ d' => d'.fs = d.fs ∨ Sets d d' temp (some (.file bytes)) := by
    rw [ends_bind]
    refine write_ends.mono (fun _ d₁ h₁ => ?_) fun _ d₁ h₁ => .inl (congrArg Disk.fs h₁)
    refine write_ends.mono (fun _ _ _ => trivial) fun _ d₂ h₂ => .inr ?_
    subst h₂
    exact (Fs.put?_eq_some h₁).2
  have hrun : replaceState temp p bytes d = (do
      write "create checkpoint state" (·.put? temp (.file bytes))
      write "atomically replace checkpoint state" (·.rename? temp p)) d := by
    simp only [replaceState]
    rw [bind_ok (metadata_run temp d), hfree]
  rw [Ends, ← hrun] at hwrites
  exact ((Ends.run _ _).and hwrites).mono (fun _ _ h => (replaceState_inv h.1).1.sets)
    fun _ _ h => h.2

theorem tempPath_ne_parent {dir : Path} {counter : Nat} : tempPath dir pid counter ≠ dir := by
  intro h
  have hlen := congrArg List.length h
  simp [tempPath] at hlen

/-- A record whose temporary name is free is written, or nothing happens but that its
directory is made. -/
theorem writeState_ends {record : StateRecord}
    (hfree : ∀ counter, d.fs.get? (tempPath p.dropLast pid counter) = none) :
    Ends (writeState pid p record) d
      (fun _ d' => d'.fs.get? p = some (.file (encodeState record)) ∧
        ∀ q, q ≠ p → q ≠ p.dropLast → d'.fs.get? q = d.fs.get? q)
      fun _ d' => ∀ q, q ≠ p.dropLast → d'.fs.get? q = d.fs.get? q := by
  simp only [writeState, ends_bind]
  have hdirs : Within (Spares (· ≠ p.dropLast)) (ensureDirectory p.dropLast) d :=
    ensureDirectory_spares fun h => h rfl
  refine Ends.mono hdirs (fun _ d₁ h₁ => ?_) fun _ _ h => h
  simp only [ends_steps, ends_tryCatch]
  have hfree₁ : d₁.fs.get? (tempPath p.dropLast pid d₁.tempCounter) = none :=
    (h₁ _ tempPath_ne_parent).trans (hfree _)
  refine (replaceState_ends (by exact hfree₁)).mono (fun _ d₂ h₂ => ?_) fun e d₂ h₂ => ?_
  · exact ⟨h₂.self, fun q hp hdir => (h₂.other hp).trans (h₁ q hdir)⟩
  · -- What was made of the temporary file is removed.
    have hback : Ends (removeFileIfExists (tempPath p.dropLast pid d₁.tempCounter)) d₂
        (fun _ d₃ => ∀ q, d₃.fs.get? q = d₁.fs.get? q) fun _ d₃ => False := by
      refine removeFileIfExists_ends.mono (fun _ d₃ h₃ q => ?_) fun _ d₃ h₃ => ?_
      · rcases h₂ with h₂ | h₂
        · rw [h₃ q, h₂]
          split
          · next hq => rw [hq, hfree₁]
          · rfl
        · rw [h₃ q, h₂ q]
          split
          · next hq => rw [hq, hfree₁]
          · rfl
      · rcases h₂ with h₂ | h₂
        · rw [h₂] at h₃
          exact absurd (hfree₁.symm.trans h₃.2) (by simp)
        · exact absurd (h₂.self.symm.trans h₃.2) (by simp)
    refine hback.mono (fun _ d₃ h₃ q hq => ?_) fun _ _ h => h.elim
    exact (h₃ q).trans (h₁ q hq)

/-! ## Bringing a record in line -/

/-- A partial file that is there can be brought in line. -/
theorem recoverPartial_ok {bytes : Bytes} (hp : d.fs.get? r.partialPath = some (.file bytes)) :
    ∃ r' d', recoverPartial r.partialPath r bytes.length d = .ok r' d' := by
  have hlast : ∀ (record : StateRecord) {d : Disk} {content : Bytes},
      d.fs.get? r.partialPath = some (.file content) →
      ∃ r' d', (do
        let length := (← fileLengthIfExists r.partialPath).getD 0
        if length < record.durableOffset then do
          truncateFile r.partialPath 0
          pure record.reset
        else pure record : StorageM StateRecord) d = .ok r' d' := by
    intro record d content hc
    rw [bind_ok (fileLengthIfExists_ok hc)]
    obtain ⟨d₁, hrun, -⟩ := truncateFile_ok 0 hc
    by_cases hlt : (some content.length).getD 0 < record.durableOffset
    · rw [if_pos hlt, bind_ok hrun]
      exact ⟨_, _, rfl⟩
    · rw [if_neg hlt]
      exact ⟨_, _, rfl⟩
  simp only [recoverPartial]
  obtain ⟨d₀, hzero, h₀⟩ := truncateFile_ok 0 hp
  obtain ⟨d₁, hcut, h₁⟩ := truncateFile_ok r.durableOffset hp
  split
  · rw [bind_ok hzero]
    exact hlast r.reset h₀.self
  · split
    · rw [bind_ok hcut]
      exact hlast r h₁.self
    · exact hlast r hp

/-- Bringing the record of a file in progress in line, which is all or nothing. -/
theorem recoverRecord_pending (hr : r.complete = false) :
    Ends (recoverRecord H r) d (fun r' d' => RecoveredPartial d d' r r') fun _ d' => d' = d := by
  have hfails : Ends (recoverRecord H r) d (fun _ _ => True) fun _ d' => d' = d := by
    unfold recoverRecord
    split
    · rfl
    · simp only [hr, Bool.false_eq_true, if_false, ends_bind]
      refine ((Ends.run _ _).and (fileLengthIfExists_reads d)).mono ?_ fun _ _ h => h.2
      rintro length d₁ ⟨hlength, rfl⟩
      obtain ⟨-, ⟨rfl, -⟩ | ⟨bytes, rfl, hfile⟩⟩ := fileLengthIfExists_inv hlength
      · exact ends_ite.2 ⟨fun _ => trivial, fun _ => trivial⟩
      · obtain ⟨r', d', hok⟩ := recoverPartial_ok (r := r) hfile
        refine (Ends.run _ _).mono (fun _ _ _ => trivial) fun e d₂ herr => ?_
        have hboth := hok.symm.trans herr
        cases hboth
  exact ((Ends.run _ _).and hfails).mono (fun _ _ h => recoverRecord_inv hr h.1) fun _ _ h => h.2

/-- The record of a completed file is kept, or the file starts over; either way its
partial file is gone. -/
theorem recoverRecord_finished {r' : StateRecord} (hr : r.complete = true)
    (h : recoverRecord H r d = .ok r' d') :
    d'.fs.get? r.partialPath = none ∧
      (r' = r ∨ r'.complete = false ∧ r'.durableOffset = 0 ∧
        r'.registration = r.registration) := by
  simp only [recoverRecord] at h
  cases hpath : validateStoragePath r.registration.relativePath with
  | error e => rw [hpath] at h; cases h
  | ok u =>
      rw [hpath] at h
      simp only [hr, if_true, recoverComplete] at h
      obtain ⟨⟨⟩, d₁, hrem, h₁⟩ := bind_inv h
      have hsets := removeFileIfExists_inv hrem
      obtain ⟨path, d₂, hdest, h₂⟩ := bind_inv h₁
      obtain ⟨rfl, rfl, -⟩ := destinationPath_inv hdest
      obtain ⟨b, d₃, hmatch, h₃⟩ := bind_inv h₂
      obtain ⟨rfl, -⟩ := destinationMatches_inv hmatch
      split at h₃
      · obtain ⟨rfl, rfl⟩ := EStateM.Result.ok.inj h₃
        exact ⟨hsets.self, .inl rfl⟩
      · obtain ⟨rfl, rfl⟩ := EStateM.Result.ok.inj h₃
        exact ⟨hsets.self, .inr ⟨rfl, rfl, rfl⟩⟩

/-! ## The two files of a file -/

/-- The record of a file. -/
def recordAt (t : TransferId) (f : FileId) (fs : Fs) : Option StateRecord :=
  recordOf (fs.get? (statePath t f))

/-- The content of a file received so far. -/
def contentAt (t : TransferId) (f : FileId) (fs : Fs) : Bytes :=
  contentOf (fs.get? (partialPath t f))

/-- The record of a file in progress is not ahead of its content, and the content is
no longer than the file is to be. -/
def Disciplined (t : TransferId) (f : FileId) (fs : Fs) : Prop :=
  ∀ r, recordAt t f fs = some r → r.complete = false →
    r.durableOffset ≤ (contentAt t f fs).length ∧
      (contentAt t f fs).length ≤ r.registration.size

/-- The same, of the files registered with metadata of `C` only. -/
def DisciplinedFor (C : FileMetadata → Prop) (t : TransferId) (f : FileId) (fs : Fs) : Prop :=
  ∀ r, recordAt t f fs = some r → r.complete = false → C r.registration.metadata →
    r.durableOffset ≤ (contentAt t f fs).length ∧
      (contentAt t f fs).length ≤ r.registration.size

theorem Disciplined.weaken {C : FileMetadata → Prop} {fs : Fs} (h : Disciplined t f fs) :
    DisciplinedFor C t f fs := fun r hr hpending _ => h r hr hpending

theorem DisciplinedFor.all {fs : Fs} (h : DisciplinedFor (fun _ => True) t f fs) :
    Disciplined t f fs := fun r hr hpending => h r hr hpending trivial

/-- The file is as it was. -/
structure Same (t : TransferId) (f : FileId) (fs fs' : Fs) : Prop where
  record : recordAt t f fs' = recordAt t f fs
  content : contentAt t f fs' = contentAt t f fs

theorem Same.refl (fs : Fs) : Same t f fs fs := ⟨rfl, rfl⟩

theorem Same.trans {fs₁ fs₂ fs₃ : Fs} (h1 : Same t f fs₁ fs₂) (h2 : Same t f fs₂ fs₃) :
    Same t f fs₁ fs₃ := ⟨h2.record.trans h1.record, h2.content.trans h1.content⟩

theorem Same.disciplined {C : FileMetadata → Prop} {fs fs' : Fs} (h : Same t f fs fs')
    (hd : DisciplinedFor C t f fs) : DisciplinedFor C t f fs' := by
  intro r hr hpending
  rw [h.record] at hr
  rw [h.content]
  exact hd r hr hpending

def Files (t : TransferId) (f : FileId) (q : Path) : Prop := q = statePath t f ∨ q = partialPath t f

theorem Spares.same (h : Spares (Files t f) d d') : Same t f d.fs d'.fs where
  record := congrArg recordOf (h _ (.inl rfl))
  content := congrArg contentOf (h _ (.inr rfl))

theorem statePath_inj (h : statePath t f = statePath t' f') : t = t' ∧ f = f' := by
  simp only [statePath, sessionDirectory, List.append_assoc, List.cons_append, List.nil_append,
    List.append_cancel_left_eq, List.cons.injEq, and_true] at h
  exact ⟨Id.toList_injective h.1, Id.toList_injective (List.append_cancel_right h.2)⟩

theorem statePath_sessions (t : TransferId) (f : FileId) :
    (statePath t f).dropLast.dropLast = sessionsDirectory := by simp [statePath, sessionDirectory]

theorem partialPath_ne_of_sessions (h : p.dropLast.dropLast = sessionsDirectory) :
    p ≠ partialPath t f := by
  rintro rfl
  have hpartials : (partialPath t f).dropLast.dropLast = partialsDirectory := by
    simp [partialPath, partialDirectory]
  rw [hpartials] at h
  revert h
  decide

theorem tempPath_sessions {dir : Path} {counter : Nat} (h : dir.dropLast = sessionsDirectory) :
    (tempPath dir pid counter).dropLast.dropLast = sessionsDirectory := by simp [tempPath, h]

theorem length_files (h : Files t f q) : q.length = 4 := by
  rcases h with rfl | rfl <;> rfl

/-- A temporary file is not one of the two. -/
theorem tempPath_not_files {dir : Path} {counter : Nat} (hdir : dir.dropLast = sessionsDirectory) :
    ¬ Files t f (tempPath dir pid counter) := by
  rintro (h | h)
  · exact tempPath_not_state (h ▸ isState_statePath t f)
  · exact partialPath_ne_of_sessions (tempPath_sessions hdir) h

theorem directories_not_files : ¬ Files t f (sessionDirectory t') ∧
    ¬ Files t f (partialDirectory t') := by
  constructor
  · intro h
    have hlen := length_files h
    simp [sessionDirectory, sessionsDirectory, storageDirectory] at hlen
  · intro h
    have hlen := length_files h
    simp [partialDirectory, partialsDirectory, storageDirectory] at hlen

/-- What a call about one file touches is none of the files of another. -/
theorem Beside.other (hne : ¬ (t = t' ∧ f = f')) (h : Beside pid t f q) : ¬ Files t' f' q := by
  rcases h with rfl | rfl | rfl | rfl | ⟨counter, rfl⟩
  · exact directories_not_files.1
  · exact directories_not_files.2
  · rintro (h | h)
    · exact hne (statePath_inj h)
    · exact statePath_ne_partialPath h
  · rintro (h | h)
    · exact statePath_ne_partialPath h.symm
    · exact hne (partialPath_inj h)
  · exact tempPath_not_files (by simp [sessionDirectory])

/-! ## Temporary names -/

/-- No temporary name of this process is taken: it writes its records under names no
process before it has left behind. -/
def Unspent (pid : Nat) (fs : Fs) : Prop :=
  ∀ dir counter, dir.dropLast = sessionsDirectory → fs.get? (tempPath dir pid counter) = none

/-- `J` holds still. -/
def Keeps (J : Fs → Prop) (d d' : Disk) : Prop := J d.fs → J d'.fs

instance (J : Fs → Prop) : IsTrans Disk (Keeps J) := ⟨fun _ _ _ h1 h2 h => h2 (h1 h)⟩

instance (J : Fs → Prop) : Std.Refl (Keeps J) := ⟨fun _ h => h⟩

def IsTemp (pid : Nat) (q : Path) : Prop :=
  ∃ dir counter, dir.dropLast = sessionsDirectory ∧ q = tempPath dir pid counter

theorem Spares.unspent (h : Spares (IsTemp pid) d d') : Keeps (Unspent pid) d d' :=
  fun hfree dir counter hdir => (h _ ⟨dir, counter, hdir, rfl⟩).trans (hfree dir counter hdir)

theorem IsTemp.not_files (h : Files t f q) : ¬ IsTemp pid q := by
  rintro ⟨dir, counter, hdir, rfl⟩
  exact tempPath_not_files hdir h

theorem IsTemp.length (h : IsTemp pid q) : q.length = 4 := by
  obtain ⟨dir, counter, hdir, rfl⟩ := h
  have hlen := congrArg List.length hdir
  have htwo : sessionsDirectory.length = 2 := by decide
  simp only [List.length_dropLast, htwo] at hlen
  simp only [tempPath, List.length_append, List.length_singleton]
  omega

theorem directories_not_temp : ¬ IsTemp pid (sessionDirectory t) ∧
    ¬ IsTemp pid (partialDirectory t) := by
  constructor
  · intro h
    have hlen := h.length
    simp [sessionDirectory, sessionsDirectory, storageDirectory] at hlen
  · intro h
    have hlen := h.length
    simp [partialDirectory, partialsDirectory, storageDirectory] at hlen

theorem Unspent.free (h : Unspent pid d.fs) (counter : Nat) :
    d.fs.get? (tempPath (statePath t f).dropLast pid counter) = none := by
  rw [sessionDirectory_dropLast]
  exact h _ counter (by simp [sessionDirectory])

theorem unspent_footprint (pid : Nat) (t : TransferId) (f : FileId) :
    Footprint (Keeps (Unspent pid)) pid t f where
  dirs := fun d => by
    have hdirs : Within (Spares (IsTemp pid)) (ensureTransferDirectories t) d :=
      .bind (ensureDirectory_spares directories_not_temp.1) fun _ _ =>
        ensureDirectory_spares directories_not_temp.2
    exact Within.mono hdirs fun _ h => h.unspent
  put := fun _ _ _ => Within.mono (put_spares (IsTemp.not_files (.inr rfl))) fun _ h => h.unspent
  erase := fun _ _ => Within.mono (erase_spares (IsTemp.not_files (.inr rfl))) fun _ h => h.unspent
  forget := fun _ _ => Within.mono (erase_spares (IsTemp.not_files (.inl rfl))) fun _ h => h.unspent
  record := fun record d => by
    by_cases hfree : Unspent pid d.fs
    · have hkept : ∀ {q}, IsTemp pid q → q ≠ statePath t f ∧ q ≠ (statePath t f).dropLast := by
        intro q hq
        refine ⟨?_, ?_⟩
        · rintro rfl
          exact IsTemp.not_files (.inl rfl) hq
        · rw [sessionDirectory_dropLast]
          rintro rfl
          exact directories_not_temp.1 hq
      refine (writeState_ends fun counter => hfree.free counter).mono ?_ ?_
      · rintro - d' ⟨-, h⟩ - dir counter hdir
        have htemp := hkept ⟨dir, counter, hdir, rfl⟩
        exact (h _ htemp.1 htemp.2).trans (hfree dir counter hdir)
      · intro e d' h _ dir counter hdir
        have htemp := hkept ⟨dir, counter, hdir, rfl⟩
        exact (h _ htemp.2).trans (hfree dir counter hdir)
    · exact Ends.of_forall (fun _ _ h => absurd h hfree) fun _ _ h => absurd h hfree

/-- Writing the record of a file leaves its content alone. -/
theorem writeState_record (hvalid : r.Valid) (hfree : Unspent pid d.fs) :
    Ends (writeState pid (statePath t f) r) d
      (fun _ d' => recordAt t f d'.fs = some r ∧ contentAt t f d'.fs = contentAt t f d.fs)
      fun _ d' => Same t f d.fs d'.fs := by
  have hdir : ∀ {q}, Files t f q → q ≠ (statePath t f).dropLast := by
    rintro q hq rfl
    rw [sessionDirectory_dropLast] at hq
    exact directories_not_files.1 hq
  refine (writeState_ends fun counter => hfree.free counter).mono ?_ ?_
  · rintro - d' ⟨hwritten, hother⟩
    refine ⟨?_, ?_⟩
    · unfold recordAt
      rw [hwritten, recordOf_encodeState hvalid]
    · unfold contentAt
      rw [hother _ statePath_ne_partialPath.symm (hdir (.inr rfl))]
  · intro e d' hother
    exact Spares.same fun q hq => hother q (hdir hq)

end DartUdp.Storage
