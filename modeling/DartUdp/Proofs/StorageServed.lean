import DartUdp.Proofs.StorageFiled
import DartUdp.Proofs.StorageReach

/-!
# A storage in use

What holds of a storage while files are received goes on holding when files are completed,
when transfers are given up and when the caller only asks: its temporary names are
free, the records of files in progress are in line with the partial files, and every file
is registered under its own name, to be put outside of the storage.

The step to look at is the completion. It moves the partial file before the record says
so, and the record must then be written: it is, since there is one to be
replaced and the temporary name is free.

`Served` is the invariant, `Served.step` its step and `Served.run` the run;
`completeFile_served` is the step to look at.
-/

namespace DartUdp.Storage

open DartUdp.Lib DartUdp.Transfer DartUdp.Session

variable {d d' : Disk} {p q : Path} {H : Host} {policy : OverwritePolicy} {pid : Nat}
  {t t' : TransferId} {f f' : FileId} {r : StateRecord} {registration : FileRegistration}

/-! ## Moving the partial file -/

def Inside (q : Path) : Prop := ¬ Outside q

theorem statePath_inside (t : TransferId) (f : FileId) : Inside (statePath t f) :=
  fun h => h ⟨_, rfl⟩

theorem partialPath_inside (t : TransferId) (f : FileId) : Inside (partialPath t f) :=
  fun h => h ⟨_, rfl⟩

theorem inside_of_below (h : sessionsDirectory <+: p) : Inside p := by
  have hstorage : storageDirectory <+: sessionsDirectory := ⟨[ascii "sessions"], rfl⟩
  exact fun hout => hout (hstorage.trans h)

theorem IsRecord.inside (h : IsRecord q) : Inside q := storage_of_sessions h.1

theorem IsTemp.inside (h : IsTemp pid q) : Inside q := by
  obtain ⟨dir, counter, hdir, rfl⟩ := h
  exact storage_of_sessions (tempPath_sessions hdir)

theorem searchSuffix_reads : ∀ left index, Reads (searchSuffix H p f left index) := by
  intro left
  induction left with
  | zero => exact fun _ => .throw _
  | succ left ih =>
      intro index
      exact .bind pathExists_reads fun found => .ite (ih (index + 1)) (.pure _)

theorem chooseDestination_reads : Reads (chooseDestination H policy p f) := by
  cases policy with
  | renameWithSuffix =>
      exact .bind pathExists_reads fun found => .ite (searchSuffix_reads _ _) (.pure _)
  | ask => exact .pure _
  | noReplace => exact .pure _
  | replaceAfterConfirm => exact .pure _

theorem chosen_of_run {path : Path} (h : chooseDestination H policy p f d = .ok path d') :
    chosen policy d.fs p = some path := (chooseDestination_inv h).2.1

theorem ensureParent_spares {P : Path → Prop} (hp : ¬ P p) :
    Within (Spares P) (ensureParent H p) d :=
  .bind metadata_reads.within fun _ _ => .ite (fun _ => .throw _) fun _ =>
    ensureDirectory_spares hp

theorem ensureBelow_spares {P : Path → Prop} : ∀ {names current : Path} {d : Disk},
    (∀ q, q <+: current ++ names → ¬ P q) →
    Within (Spares P) (ensureBelow H current names) d := by
  intro names
  induction names with
  | nil => exact fun _ => .pure _
  | cons name names ih =>
      intro current d h
      refine .bind (ensureParent_spares (h _ ?_)) fun _ _ => ih fun q hq => h q ?_
      · exact ⟨names, by simp⟩
      · simpa using hq

/-- The directories above a path outside of the storage are outside too. -/
theorem ensureSafeParent_inside (hout : Outside p) :
    Within (Spares Inside) (ensureSafeParent H p) d := by
  refine ensureBelow_spares fun q hq hin => hin fun hpre => ?_
  have hq' : q <+: p.dropLast := hq
  exact hout (hpre.trans (hq'.trans (List.dropLast_prefix p)))

/-- The move is all or nothing. -/
theorem moveIntoPlace_ends {src dst : Path} {bytes : Bytes}
    (hsrc : d.fs.get? src = some (.file bytes)) :
    Ends (moveIntoPlace H src dst policy f) d (fun _ d' => Moved H policy src dst d d')
      fun _ d' => d' = d := by
  have hfails : Ends (moveIntoPlace H src dst policy f) d (fun _ _ => True)
      fun _ d' => d' = d := by
    have hrename : Ends (renameInto H src dst) d (fun _ _ => True) fun _ d' => d' = d := by
      refine metadata_reads.bind_ends (fun _ _ => ?_) fun _ => rfl
      refine ends_ite.2 ⟨fun _ => rfl, fun _ => ?_⟩
      exact write_ends.mono (fun _ _ _ => trivial) fun _ _ h => h
    cases policy with
    | ask =>
        refine pathExists_reads.bind_ends (fun found _ => ?_) fun _ => rfl
        exact ends_ite.2 ⟨fun _ => rfl, fun _ => hrename⟩
    | noReplace =>
        refine pathExists_reads.bind_ends (fun found _ => ?_) fun _ => rfl
        refine ends_ite.2 ⟨fun _ => rfl, fun _ => ends_bind.2 ?_⟩
        refine write_ends.mono (fun _ d₁ h₁ => ?_) fun _ _ h => h
        obtain ⟨-, content, hcontent, hget⟩ := Fs.link?_eq_some h₁
        have hsrc₁ : d₁.fs.get? src ≠ some .dir := by
          rw [hget]
          split
          · simp
          · simp [hsrc]
        obtain ⟨fs, herase⟩ := Fs.erase?_isSome hsrc₁
        rw [Ends, write_ok herase]
        trivial
    | replaceAfterConfirm => exact hrename
    | renameWithSuffix => exact hrename
  exact ((Ends.run _ _).and hfails).mono (fun _ _ h => moveIntoPlace_inv h.1) fun _ _ h => h.2

theorem openPartialExisting_inv (h : openPartialExisting p d = .ok () d') :
    ∃ bytes, d.fs.get? p = some (.file bytes) := by
  simp only [openPartialExisting] at h
  rw [bind_ok (metadata_run p d)] at h
  cases hnode : d.fs.get? p with
  | none =>
      rw [hnode] at h
      cases h
  | some node =>
      rw [hnode] at h
      cases node with
      | file bytes => exact ⟨bytes, rfl⟩
      | dir => cases h
      | symlink => cases h

/-- Of what is inside, nothing but the partial file is touched, and that only at the end:
what can still fail then is the permissions, the times and the sync of the file. -/
theorem installPartial_ends {src destination : Path} (hsrc : Inside src)
    (hout : Outside destination) :
    Ends (installPartial H policy f src destination registration) d
      (fun _ d' => Spares (fun q => Inside q ∧ q ≠ src) d d')
      fun _ d' => Spares Inside d d' ∨
        Spares (fun q => Inside q ∧ q ≠ src) d d' ∧ ¬ H.Settles registration.metadata := by
  have hrefl : Spares Inside d d ∨
      Spares (fun q => Inside q ∧ q ≠ src) d d ∧ ¬ H.Settles registration.metadata :=
    .inl (Std.Refl.refl d)
  refine fileLengthIfExists_reads.bind_ends (fun length _ => ?_) fun _ => hrefl
  refine ends_ite.2 ⟨fun _ => hrefl, fun _ => ?_⟩
  refine hashFile_reads.bind_ends (fun hash _ => ?_) fun _ => hrefl
  refine ends_ite.2 ⟨fun _ => hrefl, fun _ => ?_⟩
  refine openPartialExisting_reads.bind_ends (fun _ hopen => ?_) fun _ => hrefl
  obtain ⟨bytes, hfile⟩ := openPartialExisting_inv hopen
  refine ends_bind.2 (Ends.mono (ensureSafeParent_inside hout) (fun _ d₁ h₁ => ?_)
    fun _ _ h => .inl h)
  refine chooseDestination_reads.bind_ends (fun dst hchoose => ?_) fun _ => .inl h₁
  have hdst : Outside dst := (chosen_spec (chosen_of_run hchoose)).1.outside_of hout
  refine ends_bind.2 ((moveIntoPlace_ends ((h₁ src hsrc).trans hfile)).mono (fun _ d₂ h₂ => ?_)
    fun _ d₂ h₂ => .inl (h₂ ▸ h₁))
  have hspares : Spares (fun q => Inside q ∧ q ≠ src) d d₂ := by
    rintro q ⟨hin, hne⟩
    obtain ⟨n, -, hget, -⟩ := h₂.moved
    rw [hget, if_neg, if_neg hne, h₁ q hin]
    rintro rfl
    exact hin hdst
  rw [ends_bind]
  refine (Ends.and (settleFile_reads d₂) (Ends.run _ _)).mono (fun _ d₃ h₃ => ?_) fun e d₃ h₃ => ?_
  · exact h₃.1 ▸ hspares
  · refine .inr ⟨h₃.1 ▸ hspares, fun hsettles => ?_⟩
    have hboth := (settleFile_ok hsettles).symm.trans h₃.2
    cases hboth

theorem sourceExists_ends {size : Nat} :
    Within (fun d d' => Spares (· ≠ p) d d' ∧ contentOf (d'.fs.get? p) = contentOf (d.fs.get? p))
      (sourceExists p size) d := by
  have hrefl : Spares (· ≠ p) d d ∧ contentOf (d.fs.get? p) = contentOf (d.fs.get? p) :=
    ⟨Std.Refl.refl d, rfl⟩
  refine fileLengthIfExists_reads.bind_ends (fun length _ => ?_) fun _ => hrefl
  refine ends_ite.2 ⟨fun _ => hrefl, fun _ => ends_ite.2 ⟨fun _ => ?_, fun _ => hrefl⟩⟩
  refine ends_bind.2 (openPartial_ends.mono (fun content d₁ h₁ => ?_) fun _ d₁ h₁ => h₁ ▸ hrefl)
  exact ⟨fun q hq => h₁.2.2 q hq, h₁.2.1.trans h₁.1⟩

/-- What a completion leaves alone before the record is written. -/
def Aside (t : TransferId) (f : FileId) (q : Path) : Prop := Inside q ∧ q ≠ partialPath t f

theorem install_ends (hout : Outside (splitSlash registration.relativePath)) :
    Ends (install H policy t f registration) d (fun _ d' => Spares (Aside t f) d d')
      fun _ d' => Spares (Aside t f) d d' ∧
        (contentAt t f d'.fs = contentAt t f d.fs ∨ ¬ H.Settles registration.metadata) := by
  have hrefl : Spares (Aside t f) d d ∧
      (contentAt t f d.fs = contentAt t f d.fs ∨ ¬ H.Settles registration.metadata) :=
    ⟨Std.Refl.refl d, .inl rfl⟩
  refine destinationPath_reads.bind_ends (fun destination hdest => ?_) fun _ => hrefl
  obtain ⟨-, rfl, -⟩ := destinationPath_inv hdest
  refine ends_bind.2 (Ends.mono sourceExists_ends (fun found d₁ h₁ => ?_) fun _ d₁ h₁ => ?_)
  · have hspares : Spares (Aside t f) d d₁ := fun q hq => h₁.1 q hq.2
    refine ends_ite.2 ⟨fun _ => ?_, fun _ => ?_⟩
    · refine (installPartial_ends (partialPath_inside t f) hout).mono (fun _ d₂ h₂ => ?_)
        fun _ d₂ h₂ => ?_
      · exact IsTrans.trans d d₁ d₂ hspares h₂
      · rcases h₂ with h₂ | ⟨h₂, hfails⟩
        · refine ⟨IsTrans.trans d d₁ d₂ hspares fun q hq => h₂ q hq.1, .inl ?_⟩
          unfold contentAt
          rw [h₂ _ (partialPath_inside t f)]
          exact h₁.2
        · exact ⟨IsTrans.trans d d₁ d₂ hspares h₂, .inr hfails⟩
    · refine destinationMatches_reads.bind_ends (fun matched _ => ?_)
        fun _ => ⟨hspares, .inl h₁.2⟩
      exact ends_ite.2 ⟨fun _ => hspares, fun _ => ⟨hspares, .inl h₁.2⟩⟩
  · exact ⟨fun q hq => h₁.1 q hq.2, .inl h₁.2⟩

/-! ## The invariant -/

/-- Every record is in the file of the file it is about, and that file is to be put
outside of the storage. -/
def Proper (p : Path) (registration : FileRegistration) : Prop :=
  p = statePath registration.transferId registration.fileId ∧
    Outside (splitSlash registration.relativePath)

/-- The permissions and times of an installed file can be set. -/
def Host.Reliable (H : Host) : Prop := ∀ metadata, H.applyMetadata metadata = none

/-- What holds of a storage in use. A file that cannot be opened once it has its
permissions may be in its place while its record says that it is in progress. -/
structure Served (H : Host) (pid : Nat) (fs : Fs) : Prop where
  tended : Tended (fun metadata => H.opens metadata = true) pid fs
  proper : Records Proper fs

theorem Served.outside (h : Served H pid d.fs) (hrec : recordAt t f d.fs = some r) :
    Outside (splitSlash r.registration.relativePath) := (h.proper.at hrec).2

/-- The files of another file are left alone. -/
theorem Aside.files (hne : ¬ (t = t' ∧ f = f')) (h : Files t' f' q) : Aside t f q := by
  rcases h with rfl | rfl
  · exact ⟨statePath_inside t' f', statePath_ne_partialPath⟩
  · exact ⟨partialPath_inside t' f', fun h => hne ((partialPath_inj h).imp Eq.symm Eq.symm)⟩

theorem Aside.record (h : IsRecord q) : Aside t f q :=
  ⟨h.inside, partialPath_ne_of_sessions h.1⟩

theorem Aside.temp (h : IsTemp pid q) : Aside t f q := by
  refine ⟨h.inside, ?_⟩
  rintro rfl
  exact IsTemp.not_files (.inr rfl) h

/-- A completion that fails, and has moved nothing but a file that cannot be opened. -/
theorem Served.stays (h : Served H pid d.fs) (hrec : recordAt t f d.fs = some r)
    (hspares : Spares (Aside t f) d d')
    (hcontent : contentAt t f d'.fs = contentAt t f d.fs ∨
      H.opens r.registration.metadata ≠ true) : Served H pid d'.fs where
  proper := Spares.records (fun q hq => hspares q (.record hq)) h.proper
  tended :=
    { unspent := Spares.unspent (fun q hq => hspares q (.temp hq)) h.tended.unspent
      disciplined := fun t' f' => by
        by_cases hid : t = t' ∧ f = f'
        · obtain ⟨rfl, rfl⟩ := hid
          have hsame : recordAt t f d'.fs = recordAt t f d.fs :=
            congrArg recordOf (hspares _ (.record (statePath_record t f)))
          rcases hcontent with hcontent | hclosed
          · have hsame' : Same t f d.fs d'.fs := ⟨hsame, hcontent⟩
            exact hsame'.disciplined (h.tended.disciplined t f)
          · intro r' hr' _ hopens
            obtain rfl := Option.some.inj (hrec.symm.trans (hsame.symm.trans hr'))
            exact absurd hopens hclosed
        · have hsame : Same t' f' d.fs d'.fs := Spares.same fun q hq => hspares q (.files hid hq)
          exact hsame.disciplined (h.tended.disciplined t' f') }

/-- A completion that goes through: what is left of the file is a finished record. -/
theorem Served.finishes (h : Served H pid d.fs) (hrec : recordAt t f d.fs = some r)
    (hspares : ∀ q, Aside t f q → q ≠ statePath t f → d'.fs.get? q = d.fs.get? q)
    (hnew : ∀ r', recordAt t f d'.fs = some r' →
      r'.complete = true ∧ r'.registration = r.registration) : Served H pid d'.fs where
  proper := by
    intro p r' hp hst hr'
    by_cases hself : p = statePath t f
    · subst hself
      rw [(hnew r' hr').2]
      exact h.proper.at hrec
    · rw [hspares p (.record ⟨hp, hst⟩) hself] at hr'
      exact h.proper p r' hp hst hr'
  tended :=
    { unspent := by
        refine Spares.unspent (fun q hq => hspares q (.temp hq) ?_) h.tended.unspent
        rintro rfl
        exact IsTemp.not_files (.inl rfl) hq
      disciplined := fun t' f' => by
        by_cases hid : t = t' ∧ f = f'
        · obtain ⟨rfl, rfl⟩ := hid
          intro r' hr' hpending _
          rw [(hnew r' hr').1] at hpending
          cases hpending
        · refine (Spares.same fun q hq => hspares q (.files hid hq) ?_).disciplined
            (h.tended.disciplined t' f')
          rintro rfl
          rcases hq with hq | hq
          · exact hid (statePath_inj hq)
          · exact statePath_ne_partialPath hq }

/-! ## Completing a file -/

theorem install_completed {installed : Bytes} {r' : StateRecord} (hvalid : r.Valid)
    (h : install H policy t f r.registration d = .ok installed d')
    (hr' : recordOf (some (.file (encodeState (r.completed installed)))) = some r') :
    r' = r.completed installed := by
  have hcases : ∀ {dst : Path}, Candidate (splitSlash r.registration.relativePath) dst →
      installed = joinSlash dst → r' = r.completed installed := by
    rintro dst hcand rfl
    rw [recordOf_completed hvalid hcand] at hr'
    split at hr'
    · exact (Option.some.inj hr').symm
    · cases hr'
  rcases install_inv h with ⟨d₀, dst, hdst, -, hat⟩ | ⟨-, hdst, -⟩
  · exact hcases (chosen_spec hat.chosen).1 hdst
  · refine hcases (.inl rfl) ?_
    rw [hdst, joinSlash_splitSlash]

theorem completeFile_served {size : Nat} {hash : Digest}
    (hreliable : H.Reliable) (h : Served H pid d.fs) :
    Ends (completeFile H policy pid t f size hash) d (fun _ d' => Served H pid d'.fs)
      fun _ d' => Served H pid d'.fs := by
  refine loadRecord_reads.bind_ends (fun r hload => ?_) fun _ => h
  have hrec : recordAt t f d.fs = some r := (loadRecord_inv hload).1
  have hvalid := recordOf_valid hrec
  refine ends_ite.2 ⟨fun _ => h, fun _ => ends_ite.2 ⟨fun _ => h, fun _ => ?_⟩⟩
  refine ends_ite.2 ⟨fun _ => ?_, fun _ => ends_ite.2 ⟨fun _ => h, fun _ => ?_⟩⟩
  · refine destinationPath_reads.bind_ends (fun path _ => ?_) fun _ => h
    refine destinationMatches_reads.bind_ends (fun matched _ => ?_) fun _ => h
    exact ends_ite.2 ⟨fun _ => h, fun _ => h⟩
  · refine ends_bind.2 (((Ends.run _ _).and (install_ends (h.outside hrec))).mono ?_
      fun _ d₁ h₁ => ?_)
    · rintro installed d₁ ⟨hrun, h₁⟩
      -- The record that is there is replaced, under a name that is free.
      obtain ⟨bytes, hstate⟩ := recordOf_file hrec
      have hstate₁ : d₁.fs.get? (statePath t f) = some (.file bytes) :=
        (h₁ _ (.record (statePath_record t f))).trans hstate
      have hfree₁ : Unspent pid d₁.fs :=
        Spares.unspent (fun q hq => h₁ q (.temp hq)) h.tended.unspent
      obtain ⟨d₂, hok⟩ := @writeState_ok d₁ _ _ (r.completed installed) _ hstate₁
        (statePath_ne_nil t f) (hfree₁.free d₁.tempCounter)
      have hsets := writeState_inv hstate₁ (statePath_ne_nil t f) hok
      rw [Ends, hok]
      refine h.finishes hrec (fun q hq hne => (hsets.other hne).trans (h₁ q hq)) fun r' hr' => ?_
      unfold recordAt at hr'
      rw [hsets.self] at hr'
      obtain rfl := install_completed hvalid hrun hr'
      exact ⟨rfl, rfl⟩
    · -- All that can go wrong after the move is that the file is not opened for its sync.
      refine h.stays hrec h₁.2.1 (h₁.2.2.imp id fun hfails hopens => hfails ?_)
      exact ⟨hreliable _, fun _ => hopens⟩

/-! ## Giving up a transfer -/

theorem removeDirectoryIfExists_ends :
    Ends (removeDirectoryIfExists p) d
      (fun _ d' => d'.fs.get? p = none ∧
        ∀ q, d'.fs.get? q = d.fs.get? q ∨ p <+: q ∧ d'.fs.get? q = none)
      fun _ d' => d' = d := by
  have hcase : ∀ node, d.fs.get? p = node → Ends (removeDirectoryIfExists p) d
      (fun _ d' => d'.fs.get? p = none ∧
        ∀ q, d'.fs.get? q = d.fs.get? q ∨ p <+: q ∧ d'.fs.get? q = none)
      fun _ d' => d' = d := by
    intro node hp
    simp only [removeDirectoryIfExists, ends_bind, ends_metadata, hp]
    cases node with
    | none => exact ⟨hp, fun q => .inl rfl⟩
    | some node =>
        cases node with
        | file bytes => rfl
        | symlink => rfl
        | dir =>
            refine write_ends.mono (fun _ d₁ h₁ => ?_) fun _ _ h => h
            have hget := Fs.removeTree?_eq_some h₁
            refine ⟨by rw [hget, if_pos (List.prefix_refl p)], fun q => ?_⟩
            rw [hget]
            split
            · next hpre => exact .inr ⟨hpre, rfl⟩
            · exact .inl rfl
  exact hcase _ rfl

/-- A directory of the transfer. -/
def Belongs (t : TransferId) (q : Path) : Prop :=
  sessionDirectory t <+: q ∨ partialDirectory t <+: q

theorem Files.belongs (h : Files t f q) (hb : Belongs t' q) : t' = t := by
  have hne : ascii "partial" ≠ ascii "sessions" := by decide
  rcases h with rfl | rfl
  · rcases hb with hb | hb
    · simp only [sessionDirectory, statePath, sessionsDirectory, storageDirectory,
        List.cons_append, List.nil_append, List.cons_prefix_cons, true_and] at hb
      exact Id.toList_injective hb.1
    · simp only [sessionDirectory, partialDirectory, partialsDirectory, statePath,
        sessionsDirectory, storageDirectory, List.cons_append, List.nil_append,
        List.cons_prefix_cons, true_and] at hb
      exact absurd hb.1 hne
  · rcases hb with hb | hb
    · simp only [sessionDirectory, partialDirectory, partialsDirectory, partialPath,
        sessionsDirectory, storageDirectory, List.cons_append, List.nil_append,
        List.cons_prefix_cons, true_and] at hb
      exact absurd hb.1.symm hne
    · simp only [partialDirectory, partialPath, partialsDirectory, storageDirectory,
        List.cons_append, List.nil_append, List.cons_prefix_cons, true_and] at hb
      exact Id.toList_injective hb.1

/-- The records of the transfer go before its partial files do. -/
theorem Served.pruned (h : Served H pid d.fs)
    (hpruned : ∀ q, d'.fs.get? q = d.fs.get? q ∨ Belongs t q ∧ d'.fs.get? q = none)
    (hgone : ∀ f, recordAt t f d'.fs = none) : Served H pid d'.fs where
  proper := records_of_removed (fun q => (hpruned q).imp id And.right) h.proper
  tended :=
    { unspent := fun dir counter hdir => by
        rcases hpruned (tempPath dir pid counter) with hx | ⟨-, hx⟩
        · exact hx.trans (h.tended.unspent dir counter hdir)
        · exact hx
      disciplined := fun t' f' => by
        by_cases hid : t = t'
        · subst hid
          intro r hr _ _
          rw [hgone f'] at hr
          cases hr
        · refine (Spares.same fun q hq => ?_).disciplined (h.tended.disciplined t' f')
          rcases hpruned q with hx | ⟨hb, -⟩
          · exact hx
          · exact absurd (hq.belongs hb) hid }

theorem cleanupTransfer_served (h : Served H pid d.fs) :
    Ends (cleanupTransfer t) d (fun _ d' => Served H pid d'.fs) fun _ d' => Served H pid d'.fs := by
  refine ends_bind.2 (removeDirectoryIfExists_ends.mono ?_ fun _ _ h₁ => h₁ ▸ h)
  rintro - d₁ ⟨hgone₁, h₁⟩
  have hstate₁ : ∀ f, d₁.fs.get? (statePath t f) = none := by
    intro f
    cases hnode : d₁.fs.get? (statePath t f) with
    | none => rfl
    | some n =>
        rw [(record_dirs hnode).1] at hgone₁
        cases hgone₁
  have hrecords : ∀ {d : Disk}, (∀ f, d.fs.get? (statePath t f) = none) →
      ∀ f, recordAt t f d.fs = none := by
    intro d hstate f
    unfold recordAt
    rw [hstate f]
    rfl
  refine removeDirectoryIfExists_ends.mono (fun _ d₂ h₂ => ?_) fun _ d₂ h₂ => ?_
  · refine h.pruned (fun q => ?_) (hrecords fun f => ?_)
    · rcases h₂.2 q with hx | ⟨hpre, hx⟩
      · rw [hx]
        exact (h₁ q).imp id fun hy => ⟨.inl hy.1, hy.2⟩
      · exact .inr ⟨.inr hpre, hx⟩
    · rcases h₂.2 (statePath t f) with hx | ⟨-, hx⟩
      · exact hx.trans (hstate₁ f)
      · exact hx
  · subst h₂
    exact h.pruned (fun q => (h₁ q).imp id fun hy => ⟨.inl hy.1, hy.2⟩) (hrecords hstate₁)

/-! ## Whole runs -/

/-- What may be asked of an open storage: the arguments have their types, and files are
to go elsewhere. -/
def Method.Asks : Method → Prop
  | .openStorage => False
  | .call (.registerFile registration) =>
      registration.Typed ∧ Outside (splitSlash registration.relativePath)
  | m => m.Typed

theorem Served.step {m : Method} (hreliable : H.Reliable)
    (h : Served H pid d.fs) (hm : m.Asks) :
    Served H pid (after (m.run H policy pid) d).fs := by
  have hreceives : m.Receives → m.Typed → m.Registers Proper →
      Served H pid (after (m.run H policy pid) d).fs := fun hr ht hp =>
    ⟨h.tended.step hr ht, m.records hr ht hp h.tended.unspent h.proper⟩
  cases m with
  | openStorage => exact hm.elim
  | call c =>
      cases c with
      | registerFile registration => exact hreceives trivial hm.1 ⟨rfl, hm.2⟩
      | writeData t f offset data => exact hreceives trivial trivial trivial
      | checkpoint t f state => exact hreceives trivial hm trivial
      | completeFile t f size hash => exact (completeFile_served hreliable h).after
  | resetFile t f => exact hreceives trivial trivial trivial
  | cleanupTransfer t => exact (cleanupTransfer_served h).after
  | durableState t f =>
      have hreads : Reads (Method.run H policy pid (.durableState t f)) :=
        .bind durableState_reads fun _ => .pure _
      rw [(hreads d).after]
      exact h

theorem Served.run {methods : List Method} (hreliable : H.Reliable) (h : Served H pid d.fs)
    (hm : ∀ m ∈ methods, m.Asks) : Served H pid (runMethods H policy pid d methods).fs := by
  induction methods generalizing d with
  | nil => exact h
  | cons m rest ih =>
      exact ih (h.step hreliable (hm m List.mem_cons_self)) fun m' hm' =>
        hm m' (List.mem_cons_of_mem _ hm')

/-- Opening a storage puts it in use. -/
theorem openStorage_served (hproper : Records Proper d.fs) (hfree : Unspent pid d.fs)
    (h : openStorage H pid d = .ok () d') : Served H pid d'.fs where
  tended := openStorage_tended (fun p r hp hst hr => (hproper p r hp hst hr).1) hfree h
  proper := openStorage_records hproper h

end DartUdp.Storage
