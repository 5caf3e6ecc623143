import DartUdp.Proofs.StorageEnds
import DartUdp.Proofs.StorageWritten

/-!
# The partial file of a file in progress

A file in progress has its content in a partial file and the part of it that is safe in a
record. The record is never ahead of the partial file, and the partial file never
longer than the file is to be, whatever calls are made and whichever way they end.

What holds of one file is a matter of its two files on disk. A call about another
file leaves both alone; a call about the file itself is looked at along every way it
can end. The only write that can be refused between the removal of a partial file and
the record that goes with it is that of the temporary file, when its name is taken.

The module is for `partial_files_are_disciplined`. There is a lemma `_disciplined`
for each call, `Tended` is the invariant they keep, `Tended.run` the sequence and
`openStorage_tended` its start.
-/

namespace DartUdp.Storage

open DartUdp.Lib DartUdp.Transfer DartUdp.Session

variable {α : Type} {d d' : Disk} {p q : Path} {H : Host} {policy : OverwritePolicy} {pid : Nat}
  {t t' : TransferId} {f f' : FileId} {r : StateRecord} {registration : FileRegistration}
  {C : FileMetadata → Prop}

/-! ## Registering a file -/

theorem recordToRegister_ends :
    Ends (recordToRegister registration) d
      (fun r d' => registrationMatches r.registration registration = true ∧ d' = d ∧
          recordAt registration.transferId registration.fileId d.fs = some r ∨
        r = StateRecord.new registration ∧
          recordAt registration.transferId registration.fileId d'.fs = none ∧
          d'.fs.get? (partialPath registration.transferId registration.fileId) = none)
      fun _ d' => d' = d ∨
        recordAt registration.transferId registration.fileId d'.fs = none := by
  have hnone : ∀ {d d' : Disk}, Sets d d'
      (partialPath registration.transferId registration.fileId) none →
      d.fs.get? (statePath registration.transferId registration.fileId) = none →
      recordAt registration.transferId registration.fileId d'.fs = none := by
    intro d d' hsets hstate
    unfold recordAt
    rw [hsets.other statePath_ne_partialPath, hstate]
    rfl
  simp only [recordToRegister, ends_bind]
  refine readStateIfExists_ends.mono ?_ fun _ d' h => .inl h
  rintro found d₁ ⟨rfl, ⟨rfl, hstate⟩ | ⟨existing, rfl, hrec⟩⟩
  · simp only [ends_bind, ends_pure]
    refine removeFileIfExists_ends.mono (fun _ d₂ h₂ => ?_) fun _ d₂ h₂ => .inl h₂.1
    exact .inr ⟨trivial, hnone h₂ hstate, h₂.self⟩
  · simp only [ends_steps]
    refine ⟨fun hmatch => .inl ⟨hmatch, trivial, hrec⟩, fun _ => ?_⟩
    refine removeFileIfExists_ends.mono (fun _ d₂ h₂ => ?_) fun _ d₂ h₂ => .inl h₂.1
    refine removeFileIfExists_ends.mono (fun _ d₃ h₃ => ?_) fun _ d₃ h₃ => ?_
    · exact .inr ⟨trivial, hnone h₃ h₂.self, h₃.self⟩
    · refine .inr ?_
      unfold recordAt
      rw [h₃.1, h₂.self]
      rfl

/-- The record `r` may be written for the file on disk. -/
structure InLine (C : FileMetadata → Prop) (t : TransferId) (f : FileId) (r : StateRecord)
    (fs : Fs) : Prop where
  valid : r.Valid
  covered : r.complete = false →
    r.durableOffset ≤ (contentAt t f fs).length ∧
      (contentAt t f fs).length ≤ r.registration.size
  before : DisciplinedFor C t f fs

/-- A record found for the file is brought in line with it. -/
theorem recoverRecord_inLine (hpart : r.partialPath = partialPath t f)
    (hrec : recordAt t f d.fs = some r) (h : DisciplinedFor C t f d.fs) :
    Ends (recoverRecord H r) d (fun r' d' => InLine C t f r' d'.fs)
      fun _ d' => DisciplinedFor C t f d'.fs := by
  have hvalid := recoverRecord_valid (H := H) (d := d) (recordOf_valid hrec)
  cases hr : r.complete with
  | false =>
      refine ((recoverRecord_pending hr).and hvalid).mono ?_ fun _ d' h' => ?_
      · rintro r' d' ⟨hrecovered, hvalid'⟩
        obtain ⟨hframe, hmissing, hfound, hregular, hsame⟩ := hrecovered
        rw [hpart] at hframe hmissing hfound hregular
        have hrec' : recordAt t f d'.fs = some r := by
          unfold recordAt
          rw [hframe _ statePath_ne_partialPath]
          exact hrec
        have hsize : r'.registration.size = r.registration.size := by
          rcases hsame with rfl | rfl
          · rfl
          · rfl
        -- The partial file is as long as the new record says, or both are empty.
        have hlength : (contentAt t f d'.fs).length = r'.durableOffset ∧
            r'.durableOffset ≤ r.registration.size := by
          unfold contentAt
          cases hnode : d.fs.get? (partialPath t f) with
          | none =>
              obtain ⟨hnone, hzero⟩ := hmissing hnode
              rw [hnone, hzero]
              exact ⟨rfl, Nat.zero_le _⟩
          | some node =>
              obtain ⟨bytes, rfl⟩ := hregular node hnode
              obtain ⟨hset, hoffset⟩ := hfound bytes hnode
              rw [hset]
              refine ⟨length_setLen _ _, ?_⟩
              split at hoffset
              · omega
              · omega
        have hkept : C r.registration.metadata → r'.durableOffset = r.durableOffset := by
          intro hc
          obtain ⟨hdurable, hbound⟩ := h r hrec hr hc
          unfold contentAt at hdurable hbound
          cases hnode : d.fs.get? (partialPath t f) with
          | none =>
              rw [hnode] at hdurable
              rw [(hmissing hnode).2]
              exact (Nat.le_zero.1 hdurable).symm
          | some node =>
              obtain ⟨bytes, rfl⟩ := hregular node hnode
              have hoffset := (hfound bytes hnode).2
              rwa [if_neg (by omega)] at hoffset
        obtain ⟨hlen, hle⟩ := hlength
        refine ⟨hvalid', fun _ => by omega, ?_⟩
        intro r₁ hr₁ _ hc
        obtain rfl := Option.some.inj (hrec'.symm.trans hr₁)
        have hoffset := hkept hc
        omega
      · rw [h'.1]
        exact h
  | true =>
      have hkept : Within (Spares (· = statePath t f)) (recoverRecord H r) d := by
        refine recoverRecord_within (fun _ _ _ => put_spares ?_) fun _ _ => erase_spares ?_
        · rw [hpart]
          exact statePath_ne_partialPath.symm
        · rw [hpart]
          exact statePath_ne_partialPath.symm
      have hvacuous : ∀ {d' : Disk}, Spares (· = statePath t f) d d' →
          DisciplinedFor C t f d'.fs := by
        intro d' hd' r₁ hr₁ hpending _
        unfold recordAt at hr₁ hrec
        rw [hd' _ rfl, hrec] at hr₁
        obtain rfl := Option.some.inj hr₁
        rw [hr] at hpending
        cases hpending
      refine ((Ends.run _ _).and (Ends.and hkept hvalid)).mono ?_ fun _ d' h' => hvacuous h'.2.1
      rintro r' d' ⟨hrun, hd', hvalid'⟩
      obtain ⟨hnone, hsame⟩ := recoverRecord_finished hr hrun
      rw [hpart] at hnone
      refine ⟨hvalid', fun hpending => ?_, hvacuous hd'⟩
      rcases hsame with rfl | ⟨-, hzero, -⟩
      · rw [hr] at hpending
        cases hpending
      · unfold contentAt
        rw [hnone, hzero]
        exact ⟨Nat.le_refl _, Nat.zero_le _⟩

/-- A file that starts over has no record and no content. -/
theorem recoverRecord_fresh (hvalid : (StateRecord.new registration).Valid)
    (hrec : recordAt registration.transferId registration.fileId d.fs = none)
    (hnone : d.fs.get? (partialPath registration.transferId registration.fileId) = none) :
    Ends (recoverRecord H (StateRecord.new registration)) d
      (fun r' d' => InLine C registration.transferId registration.fileId r' d'.fs)
      fun _ d' => DisciplinedFor C registration.transferId registration.fileId d'.fs := by
  have hvacuous : ∀ {fs : Fs}, recordAt registration.transferId registration.fileId fs = none →
      DisciplinedFor C registration.transferId registration.fileId fs := by
    intro fs hfs r₁ hr₁ _ _
    rw [hfs] at hr₁
    cases hr₁
  refine ((recoverRecord_pending rfl).and (recoverRecord_valid hvalid)).mono ?_ fun _ d' h' => ?_
  · rintro r' d' ⟨hrecovered, hvalid'⟩
    obtain ⟨hnone', hzero⟩ := hrecovered.missing hnone
    refine ⟨hvalid', fun _ => ?_, hvacuous ?_⟩
    · have hcontent : contentAt registration.transferId registration.fileId d'.fs = [] :=
        congrArg contentOf hnone'
      rw [hcontent, hzero]
      exact ⟨Nat.le_refl _, Nat.zero_le _⟩
    · unfold recordAt
      rw [hrecovered.frame _ statePath_ne_partialPath]
      exact hrec
  · rw [h'.1]
    exact hvacuous hrec

theorem recoverRecord_unspent : Within (Keeps (Unspent pid)) (recoverRecord H r) d := by
  have hfoot := unspent_footprint pid r.registration.transferId r.registration.fileId
  exact recoverRecord_within hfoot.put hfoot.erase

theorem dirs_same : Ends (ensureTransferDirectories t') d (fun _ d' => Same t f d.fs d'.fs)
    fun _ d' => Same t f d.fs d'.fs := by
  have hspares : Within (Spares (Files t f)) (ensureTransferDirectories t') d :=
    .bind (ensureDirectory_spares directories_not_files.1) fun _ _ =>
      ensureDirectory_spares directories_not_files.2
  exact Ends.mono hspares (fun _ _ h => h.same) fun _ _ h => h.same

/-- However the registration of a file ends, the file is as it should be. -/
theorem registerFile_disciplined (ht : registration.Typed) (hfree : Unspent pid d.fs)
    (h : DisciplinedFor C registration.transferId registration.fileId d.fs) :
    Ends (registerFile H pid registration) d
      (fun _ d' => DisciplinedFor C registration.transferId registration.fileId d'.fs)
      fun _ d' => DisciplinedFor C registration.transferId registration.fileId d'.fs := by
  have hfoot := unspent_footprint pid registration.transferId registration.fileId
  unfold registerFile
  split
  · exact h
  · next hpath =>
      have hnew := StateRecord.new_valid ht hpath
      rw [ends_bind]
      refine (dirs_same.and (hfoot.dirs d)).mono (fun _ d₁ h₁ => ?_)
        fun _ _ h₁ => h₁.1.disciplined h
      have hd₁ := h₁.1.disciplined h
      rw [ends_bind]
      have hkept := recordToRegister_within (d := d₁) hfoot.erase hfoot.forget
      refine (recordToRegister_ends.and hkept).mono (fun r d₂ h₂ => ?_) ?_
      · rw [ends_bind]
        have hfree₂ := h₂.2 (h₁.2 hfree)
        have hrecovers : Ends (recoverRecord H r) d₂
            (fun r' d₃ => InLine C registration.transferId registration.fileId r' d₃.fs)
            fun _ d₃ => DisciplinedFor C registration.transferId registration.fileId d₃.fs := by
          rcases h₂.1 with ⟨hmatch, rfl, hrec⟩ | ⟨rfl, hrec, hnone⟩
          · simp only [registrationMatches, Bool.and_eq_true, beq_iff_eq] at hmatch
            refine recoverRecord_inLine ?_ hrec hd₁
            rw [StateRecord.partialPath, hmatch.1.1.1.1, hmatch.1.1.1.2]
          · exact recoverRecord_fresh hnew hrec hnone
        have hkeeps : Within (Keeps (Unspent pid)) (recoverRecord H r) d₂ := recoverRecord_unspent
        refine (hrecovers.and hkeeps).mono (fun r' d₃ h₃ => ?_) fun _ _ h₃ => h₃.1
        obtain ⟨⟨hvalid, hcovered, hbefore⟩, hfree₃⟩ := h₃
        refine (writeState_record hvalid (hfree₃ hfree₂)).mono ?_
          fun _ _ h₄ => h₄.disciplined hbefore
        rintro - d₄ ⟨hrec, hcontent⟩ r₁ hr₁ hpending -
        obtain rfl := Option.some.inj (hrec.symm.trans hr₁)
        rw [hcontent]
        exact hcovered hpending
      · rintro e d₂ ⟨rfl | hrec, -⟩
        · exact hd₁
        · intro r₁ hr₁ _ _
          rw [hrec] at hr₁
          cases hr₁

/-! ## Writing content -/

/-- `new` is `old` with `data` at `offset`, where the two overlap they agree, and
there is no gap between them. -/
structure Appended (old new : Bytes) (offset : Nat) (data : Bytes) : Prop where
  no_gap : offset ≤ old.length
  kept : old <+: new
  written : (new.drop offset).take data.length = data
  length : new.length = max old.length (offset + data.length)

/-- All of the data is there already. -/
theorem appended_nothing {old data : Bytes} {offset : Nat} (hgap : offset ≤ old.length)
    (hagrees : agrees old offset data = true) (hend : offset + data.length ≤ old.length) :
    Appended old old offset data := by
  refine ⟨hgap, List.prefix_refl _, ?_, by omega⟩
  have hoverlap : min (offset + data.length) old.length - offset = data.length := by omega
  simpa [agrees, hoverlap] using hagrees

/-- The rest of the data is put behind what is there. -/
theorem appended_rest {old data : Bytes} {offset : Nat} (hgap : offset ≤ old.length)
    (hagrees : agrees old offset data = true) (hend : old.length < offset + data.length) :
    Appended old (old ++ data.drop (old.length - offset)) offset data := by
  refine ⟨hgap, List.prefix_append _ _, ?_, ?_⟩
  · have hoverlap : min (offset + data.length) old.length - offset = old.length - offset := by
      omega
    have hhead : old.drop offset = data.take (old.length - offset) := by
      have h := hagrees
      simp only [agrees, hoverlap, beq_iff_eq] at h
      rwa [List.take_of_length_le (by simp)] at h
    rw [List.drop_append_of_le_length hgap, hhead, List.take_append_drop, List.take_length]
  · simp only [List.length_append, List.length_drop]
    omega

theorem openPartial_ends :
    Ends (openPartial p) d
      (fun content d' => content = contentOf (d.fs.get? p) ∧
        contentOf (d'.fs.get? p) = content ∧ ∀ q, q ≠ p → d'.fs.get? q = d.fs.get? q)
      fun _ d' => d' = d := by
  have hcase : ∀ node, d.fs.get? p = node → Ends (openPartial p) d
      (fun content d' => content = contentOf node ∧
        contentOf (d'.fs.get? p) = content ∧ ∀ q, q ≠ p → d'.fs.get? q = d.fs.get? q)
      fun _ d' => d' = d := by
    intro node hp
    simp only [openPartial, ends_bind, ends_metadata, hp]
    cases node with
    | none =>
        simp only [ends_bind, ends_pure]
        refine write_ends.mono (fun _ d₁ h₁ => ?_) fun _ _ h => h
        have hsets : Sets d d₁ p (some (.file [])) := (Fs.put?_eq_some h₁).2
        exact ⟨rfl, by rw [hsets.self]; rfl, fun q hq => hsets.other hq⟩
    | some node =>
        cases node with
        | file bytes => exact ⟨rfl, by rw [hp]; rfl, fun _ _ => rfl⟩
        | dir => rfl
        | symlink => rfl
  exact hcase _ rfl

/-- A call of `write_data` that ends well appends, and one that fails does nothing. -/
theorem writeData_ends {offset : Nat} {data : Bytes} :
    Ends (writeData t f offset data) d
      (fun _ d' => recordAt t f d'.fs = recordAt t f d.fs ∧
        Appended (contentAt t f d.fs) (contentAt t f d'.fs) offset data ∧
        ∃ r, recordAt t f d.fs = some r ∧ r.complete = false ∧
          offset + data.length ≤ r.registration.size)
      fun _ d' => Same t f d.fs d'.fs := by
  have hrefl : Same t f d.fs d.fs := .refl _
  refine loadRecord_reads.bind_ends (fun r hload => ?_) fun _ => hrefl
  have hrec := (loadRecord_inv hload).1
  refine ends_ite.2 ⟨fun _ => hrefl, fun hpending => ?_⟩
  refine ends_ite.2 ⟨fun _ => hrefl, fun _ => ends_ite.2 ⟨fun _ => hrefl, fun hend => ?_⟩⟩
  rw [ends_bind]
  refine openPartial_ends.mono ?_ fun _ d₂ h => h ▸ .refl _
  rintro content d₂ ⟨hcontent, hopened, hother⟩
  have hrec₂ : recordAt t f d₂.fs = recordAt t f d.fs :=
    congrArg recordOf (hother _ statePath_ne_partialPath)
  have hsame : Same t f d.fs d₂.fs := ⟨hrec₂, hopened.trans hcontent⟩
  refine ends_ite.2 ⟨fun _ => hsame, fun _ => ends_ite.2 ⟨fun _ => hsame, fun hgap => ?_⟩⟩
  refine ends_ite.2 ⟨fun _ => hsame, fun hagrees => ?_⟩
  have hagrees' : agrees content offset data = true := by simpa using hagrees
  have hgap' : offset ≤ content.length := Nat.not_lt.1 hgap
  have hfound : ∃ r, recordAt t f d.fs = some r ∧ r.complete = false ∧
      offset + data.length ≤ r.registration.size :=
    ⟨r, hrec, by simpa using hpending, Nat.not_lt.1 hend⟩
  have hold : contentAt t f d.fs = content := hcontent.symm
  rw [hold]
  refine ends_ite.2 ⟨fun hlonger => ?_, fun hnot => ?_⟩
  · refine write_ends.mono (fun _ d₃ h₃ => ?_) fun _ d₃ h₃ => h₃ ▸ hsame
    have hsets : Sets d₂ d₃ (partialPath t f)
        (some (.file (content ++ data.drop (content.length - offset)))) :=
      (Fs.put?_eq_some h₃).2
    refine ⟨?_, ?_, hfound⟩
    · rw [← hrec₂]
      exact congrArg recordOf (hsets.other statePath_ne_partialPath)
    · unfold contentAt
      rw [hsets.self]
      exact appended_rest hgap' hagrees' hlonger
  · refine ⟨hrec₂, ?_, hfound⟩
    have hnew : contentAt t f d₂.fs = content := hopened
    rw [hnew]
    exact appended_nothing hgap' hagrees' (Nat.not_lt.1 hnot)

theorem writeData_disciplined {offset : Nat} {data : Bytes} (h : DisciplinedFor C t f d.fs) :
    Ends (writeData t f offset data) d (fun _ d' => DisciplinedFor C t f d'.fs)
      fun _ d' => DisciplinedFor C t f d'.fs := by
  refine writeData_ends.mono ?_ fun _ _ hsame => hsame.disciplined h
  rintro - d' ⟨hrec, happended, r, hr, hpending, hend⟩ r' hr' - hc
  obtain rfl := Option.some.inj (hr.symm.trans (hrec.symm.trans hr'))
  obtain ⟨hdurable, hbound⟩ := h r hr hpending hc
  have hgrown := happended.kept.length_le
  have hlength := happended.length
  omega

/-! ## Checkpoints -/

/-- `r'` is `r` with more of the file safe, or as much. -/
structure Advanced (r r' : StateRecord) : Prop where
  registration : r'.registration = r.registration
  complete : r'.complete = r.complete
  durable : r.durableOffset ≤ r'.durableOffset
  checkpoint : r.checkpointId ≤ r'.checkpointId

theorem Advanced.refl (r : StateRecord) : Advanced r r :=
  ⟨rfl, rfl, Nat.le_refl _, Nat.le_refl _⟩

theorem Advanced.trans {r₁ r₂ r₃ : StateRecord} (h1 : Advanced r₁ r₂) (h2 : Advanced r₂ r₃) :
    Advanced r₁ r₃ where
  registration := h2.registration.trans h1.registration
  complete := h2.complete.trans h1.complete
  durable := Nat.le_trans h1.durable h2.durable
  checkpoint := Nat.le_trans h1.checkpoint h2.checkpoint

theorem openPartial_same :
    Ends (openPartial (partialPath t f)) d (fun _ d' => Same t f d.fs d'.fs)
      fun _ d' => Same t f d.fs d'.fs := by
  refine openPartial_ends.mono ?_ fun _ d' h => h ▸ .refl _
  rintro content d' ⟨hcontent, hopened, hother⟩
  exact ⟨congrArg recordOf (hother _ statePath_ne_partialPath), hopened.trans hcontent⟩

/-- What is synced is as it was; a partial file that is made is empty. -/
theorem syncPartial_same {size durableOffset : Nat} :
    Ends (syncPartial (partialPath t f) size durableOffset) d (fun _ d' => Same t f d.fs d'.fs)
      fun _ d' => Same t f d.fs d'.fs := by
  have hreads : ∀ {β : Type} {m : StorageM β}, Reads m →
      Ends m d (fun _ d' => Same t f d.fs d'.fs) fun _ d' => Same t f d.fs d'.fs :=
    fun h => Ends.mono (h d) (fun _ _ h => h ▸ .refl _) fun _ _ h => h ▸ .refl _
  have hrefl : Same t f d.fs d.fs := .refl _
  refine fileLengthIfExists_reads.bind_ends (fun length _ => ?_) fun _ => hrefl
  cases length with
  | some length => exact hreads openPartialExisting_reads
  | none =>
      refine ends_ite.2 ⟨fun _ => ?_, fun _ => ends_ite.2 ⟨fun _ => hrefl, fun _ => ?_⟩⟩
      · simp only [ends_bind, ends_pure]
        exact openPartial_same
      · exact hreads openPartialExisting_reads

theorem length_content {length : Option Nat} (h : fileLengthIfExists (partialPath t f) d =
    .ok length d') : length.getD 0 = (contentAt t f d.fs).length := by
  unfold contentAt
  obtain ⟨-, ⟨rfl, hnone⟩ | ⟨bytes, rfl, hfile⟩⟩ := fileLengthIfExists_inv h
  · rw [hnone]
    rfl
  · rw [hfile]
    rfl

/-- A checkpoint that ends well moves the record forward over content that is there, and
one that fails does nothing. -/
theorem checkpoint_ends {state : DurableState} (ht : TypedState state)
    (hfree : Unspent pid d.fs) :
    Ends (checkpoint pid t f state) d
      (fun _ d' => contentAt t f d'.fs = contentAt t f d.fs ∧
        ∃ r r', recordAt t f d.fs = some r ∧ recordAt t f d'.fs = some r' ∧ Advanced r r' ∧
          (r' = r ∨ r'.durableOffset ≤ (contentAt t f d.fs).length))
      fun _ d' => Same t f d.fs d'.fs := by
  have hrefl : Same t f d.fs d.fs := .refl _
  refine loadRecord_reads.bind_ends (fun r hload => ?_) fun _ => hrefl
  have hrec := (loadRecord_inv hload).1
  have hvalid := recordOf_valid hrec
  refine ends_ite.2 ⟨fun _ => ⟨rfl, r, r, hrec, hrec, .refl r, .inl rfl⟩, fun _ => ?_⟩
  refine fileLengthIfExists_reads.bind_ends (fun length hlength => ?_) fun _ => hrefl
  refine ends_ite.2 ⟨fun _ => hrefl, fun hbound => ends_ite.2 ⟨fun _ => hrefl, fun hforward => ?_⟩⟩
  refine ends_ite.2 ⟨fun _ => ⟨rfl, r, r, hrec, hrec, .refl r, .inl rfl⟩, fun _ => ?_⟩
  rw [length_content hlength] at hbound
  simp only [Bool.or_eq_true, decide_eq_true_eq, not_or, Nat.not_lt] at hbound hforward
  rw [ends_bind]
  have hkeeps : Within (Keeps (Unspent pid)) (syncPartial (partialPath t f)
      r.registration.size state.durableOffset) d :=
    syncPartial_within (unspent_footprint pid t f).put
  refine (syncPartial_same.and hkeeps).mono (fun _ d₃ h₃ => ?_) fun _ _ h₃ => h₃.1
  refine (writeState_record (hvalid.checkpointed ht) (h₃.2 hfree)).mono ?_
    fun _ _ h₄ => h₃.1.trans h₄
  rintro - d₄ ⟨hwritten, hcontent⟩
  refine ⟨hcontent.trans h₃.1.content, r, _, hrec, hwritten, ⟨rfl, rfl, ?_, ?_⟩, .inr ?_⟩
  · exact hforward.1.2
  · exact hforward.1.1
  · exact hbound.2

theorem checkpoint_disciplined {state : DurableState} (ht : TypedState state)
    (hfree : Unspent pid d.fs) (h : DisciplinedFor C t f d.fs) :
    Ends (checkpoint pid t f state) d (fun _ d' => DisciplinedFor C t f d'.fs)
      fun _ d' => DisciplinedFor C t f d'.fs := by
  refine (checkpoint_ends ht hfree).mono ?_ fun _ _ hsame => hsame.disciplined h
  rintro - d' ⟨hcontent, r, r', hrec, hrec', hadvanced, hcovered⟩ r₁ hr₁ hpending hc
  obtain rfl := Option.some.inj (hrec'.symm.trans hr₁)
  rw [hadvanced.complete] at hpending
  rw [hadvanced.registration] at hc
  obtain ⟨hdurable, hbound⟩ := h r hrec hpending hc
  rw [hcontent, hadvanced.registration]
  refine ⟨?_, hbound⟩
  rcases hcovered with rfl | hle
  · exact hdurable
  · exact hle

/-! ## Starting over -/

/-- A file that is reset has no content, and its record says so; or nothing happened. -/
theorem resetFile_ends (hfree : Unspent pid d.fs) :
    Ends (resetFile pid t f) d
      (fun _ d' => contentAt t f d'.fs = [] ∧
        ∃ r, recordAt t f d'.fs = some r ∧ r.durableOffset = 0)
      fun _ d' => Same t f d.fs d'.fs := by
  have hrefl : Same t f d.fs d.fs := .refl _
  refine loadRecord_reads.bind_ends (fun r hload => ?_) fun _ => hrefl
  have hrec := (loadRecord_inv hload).1
  have hvalid := (recordOf_valid hrec).renewed
  obtain ⟨bytes, hstate⟩ := recordOf_file hrec
  have hkeeps := removeFileIfExists_within (d := d) (unspent_footprint pid t f).erase
  rw [ends_bind]
  refine (removeFileIfExists_ends.and hkeeps).mono (fun _ d₂ h₂ => ?_)
    fun _ d₂ h₂ => h₂.1.1 ▸ .refl _
  have hfree₂ := h₂.2 hfree
  have hstate₂ : d₂.fs.get? (statePath t f) = some (.file bytes) :=
    (h₂.1.other statePath_ne_partialPath).trans hstate
  obtain ⟨d₃, hok⟩ := @writeState_ok _ _ _ (StateRecord.new r.registration) _ hstate₂
    (statePath_ne_nil t f) (hfree₂.free d₂.tempCounter)
  refine ((Ends.run _ _).and (writeState_record hvalid hfree₂)).mono ?_ fun e d₄ h₄ => ?_
  · rintro - d₄ ⟨-, hwritten, hcontent⟩
    refine ⟨hcontent.trans (congrArg contentOf h₂.1.self), _, hwritten, rfl⟩
  · have hboth := hok.symm.trans h₄.1
    cases hboth

theorem resetFile_disciplined (hfree : Unspent pid d.fs) (h : DisciplinedFor C t f d.fs) :
    Ends (resetFile pid t f) d (fun _ d' => DisciplinedFor C t f d'.fs)
      fun _ d' => DisciplinedFor C t f d'.fs := by
  refine (resetFile_ends hfree).mono ?_ fun _ _ hsame => hsame.disciplined h
  rintro - d' ⟨hcontent, r, hrec, hzero⟩ r₁ hr₁ - -
  obtain rfl := Option.some.inj (hrec.symm.trans hr₁)
  rw [hcontent, hzero]
  exact ⟨Nat.le_refl _, Nat.zero_le _⟩

/-! ## Sequences of calls -/

namespace Method

/-- The arguments have the types they have in the source. -/
def Typed : Method → Prop
  | .call (.registerFile registration) => registration.Typed
  | .call (.checkpoint _ _ state) => TypedState state
  | _ => True

/-- The calls by which a file is received. -/
def Receives : Method → Prop
  | .call (.completeFile _ _ _ _) => False
  | .call _ => True
  | .resetFile _ _ => True
  | _ => False

/-- The file a call is about. -/
def About (t : TransferId) (f : FileId) : Method → Prop
  | .call (.registerFile registration) => registration.transferId = t ∧ registration.fileId = f
  | .call (.writeData t' f' _ _) => t' = t ∧ f' = f
  | .call (.checkpoint t' f' _) => t' = t ∧ f' = f
  | .call (.completeFile t' f' _ _) => t' = t ∧ f' = f
  | .resetFile t' f' => t' = t ∧ f' = f
  | _ => False

/-- The file is registered, again perhaps, or reset. -/
def StartsOver (t : TransferId) (f : FileId) : Method → Prop
  | .call (.registerFile registration) => registration.transferId = t ∧ registration.fileId = f
  | .resetFile t' f' => t' = t ∧ f' = f
  | _ => False

variable {m : Method}

theorem within {R : Disk → Disk → Prop} [IsTrans Disk R] [Std.Refl R] (hm : m.Receives)
    (h : ∀ t f, m.About t f → Footprint R pid t f) : Within R (m.run H policy pid) d := by
  cases m with
  | call c =>
      cases c with
      | registerFile registration => exact (h _ _ ⟨rfl, rfl⟩).registerFile
      | writeData t f offset data => exact writeData_within (h _ _ ⟨rfl, rfl⟩).put
      | checkpoint t f state => exact (h _ _ ⟨rfl, rfl⟩).checkpoint
      | completeFile t f size hash => exact hm.elim
  | resetFile t f => exact (h _ _ ⟨rfl, rfl⟩).resetFile
  | openStorage => exact hm.elim
  | cleanupTransfer t => exact hm.elim
  | durableState t f => exact hm.elim

/-- A call about another file leaves this one alone. -/
theorem spares (hm : m.Receives) (hother : ¬ m.About t f) :
    Within (Spares (Files t f)) (m.run H policy pid) d := by
  refine m.within hm fun t' f' habout => spares_footprint fun q hq => hq.other ?_
  rintro ⟨rfl, rfl⟩
  exact hother habout

theorem unspent (hm : m.Receives) : Within (Keeps (Unspent pid)) (m.run H policy pid) d :=
  m.within hm fun t f _ => unspent_footprint pid t f

theorem disciplined (hm : m.Receives) (ht : m.Typed) (hfree : Unspent pid d.fs)
    (h : DisciplinedFor C t f d.fs) :
    Ends (m.run H policy pid) d (fun _ d' => DisciplinedFor C t f d'.fs)
      fun _ d' => DisciplinedFor C t f d'.fs := by
  by_cases habout : m.About t f
  · cases m with
    | call c =>
        cases c with
        | registerFile registration =>
            obtain ⟨rfl, rfl⟩ := habout
            exact registerFile_disciplined ht hfree h
        | writeData t' f' offset data =>
            obtain ⟨rfl, rfl⟩ := habout
            exact writeData_disciplined h
        | checkpoint t' f' state =>
            obtain ⟨rfl, rfl⟩ := habout
            exact checkpoint_disciplined ht hfree h
        | completeFile t' f' size hash => exact hm.elim
    | resetFile t' f' =>
        obtain ⟨rfl, rfl⟩ := habout
        exact resetFile_disciplined hfree h
    | openStorage => exact hm.elim
    | cleanupTransfer t' => exact hm.elim
    | durableState t' f' => exact hm.elim
  · exact Ends.mono (spares hm habout) (fun _ _ h' => h'.same.disciplined h)
      fun _ _ h' => h'.same.disciplined h

end Method

/-- What holds of a storage while files are received. -/
structure Tended (C : FileMetadata → Prop) (pid : Nat) (fs : Fs) : Prop where
  unspent : Unspent pid fs
  disciplined : ∀ t f, DisciplinedFor C t f fs

theorem Tended.step {m : Method} (h : Tended C pid d.fs) (hm : m.Receives) (ht : m.Typed) :
    Tended C pid (after (m.run H policy pid) d).fs where
  unspent := (m.unspent hm).after h.unspent
  disciplined := fun t f => (m.disciplined hm ht h.unspent (h.disciplined t f)).after

/-- However many calls are made and whichever way they end. -/
theorem Tended.run {methods : List Method} (h : Tended C pid d.fs)
    (hm : ∀ m ∈ methods, m.Receives ∧ m.Typed) :
    Tended C pid (runMethods H policy pid d methods).fs := by
  induction methods generalizing d with
  | nil => exact h
  | cons m rest ih =>
      have hfirst := hm m List.mem_cons_self
      exact ih (h.step hfirst.1 hfirst.2) fun m' hm' => hm m' (List.mem_cons_of_mem _ hm')

/-- The record of a file is still there, and as much of the file is safe. -/
def Grows (t : TransferId) (f : FileId) (fs fs' : Fs) : Prop :=
  ∀ r, recordAt t f fs = some r → ∃ r', recordAt t f fs' = some r' ∧ Advanced r r'

theorem Grows.trans {fs₁ fs₂ fs₃ : Fs} (h1 : Grows t f fs₁ fs₂) (h2 : Grows t f fs₂ fs₃) :
    Grows t f fs₁ fs₃ := by
  intro r hr
  obtain ⟨r₂, hr₂, hadvanced₂⟩ := h1 r hr
  obtain ⟨r₃, hr₃, hadvanced₃⟩ := h2 r₂ hr₂
  exact ⟨r₃, hr₃, hadvanced₂.trans hadvanced₃⟩

theorem Grows.of_record {fs fs' : Fs} (h : recordAt t f fs' = recordAt t f fs) :
    Grows t f fs fs' := fun r hr => ⟨r, h.trans hr, .refl r⟩

theorem Method.grows {m : Method} (hm : m.Receives) (ht : m.Typed)
    (hfree : Unspent pid d.fs) (hkept : ¬ m.StartsOver t f) :
    Grows t f d.fs (after (m.run H policy pid) d).fs := by
  by_cases habout : m.About t f
  · cases m with
    | call c =>
        cases c with
        | registerFile registration => exact absurd habout hkept
        | writeData t' f' offset data =>
            obtain ⟨rfl, rfl⟩ := habout
            have hends : Ends (writeData t' f' offset data) d
                (fun _ d' => Grows t' f' d.fs d'.fs) fun _ d' => Grows t' f' d.fs d'.fs :=
              writeData_ends.mono (fun _ _ h => .of_record h.1) fun _ _ h => .of_record h.record
            exact hends.after
        | checkpoint t' f' state =>
            obtain ⟨rfl, rfl⟩ := habout
            have hends : Ends (checkpoint pid t' f' state) d
                (fun _ d' => Grows t' f' d.fs d'.fs) fun _ d' => Grows t' f' d.fs d'.fs := by
              refine (checkpoint_ends ht hfree).mono ?_ fun _ _ h => .of_record h.record
              rintro - d' ⟨-, r, r', hr, hr', hadvanced, -⟩ r₁ hr₁
              obtain rfl := Option.some.inj (hr.symm.trans hr₁)
              exact ⟨r', hr', hadvanced⟩
            exact hends.after
        | completeFile t' f' size hash => exact hm.elim
    | resetFile t' f' => exact absurd habout hkept
    | openStorage => exact hm.elim
    | cleanupTransfer t' => exact hm.elim
    | durableState t' f' => exact hm.elim
  · exact .of_record (Spares.same (m.spares hm habout).after).record

/-- Between the registrations and resets of a file nothing of it is lost. -/
theorem Grows.run {methods : List Method} (h : Tended C pid d.fs)
    (hm : ∀ m ∈ methods, m.Receives ∧ m.Typed ∧ ¬ m.StartsOver t f) :
    Grows t f d.fs (runMethods H policy pid d methods).fs := by
  induction methods generalizing d with
  | nil => exact .of_record rfl
  | cons m rest ih =>
      obtain ⟨hreceives, htyped, hkept⟩ := hm m List.mem_cons_self
      have hstep : Grows t f d.fs (after (m.run H policy pid) d).fs :=
        m.grows hreceives htyped h.unspent hkept
      refine hstep.trans (ih (h.step hreceives htyped) fun m' hm' => ?_)
      exact hm m' (List.mem_cons_of_mem _ hm')

/-! ## Opening the storage -/

/-- What is registered in the records is as `G` has it, for the file each is in. -/
def Records (G : Path → FileRegistration → Prop) (fs : Fs) : Prop :=
  ∀ p r, p.dropLast.dropLast = sessionsDirectory → IsState p → recordOf (fs.get? p) = some r →
    G p r.registration

/-- Every record is in the file of the file it is about. -/
def Filed (fs : Fs) : Prop :=
  Records (fun p registration => p = statePath registration.transferId registration.fileId) fs

theorem Filed.persisted {fs : Fs} (h : Filed fs) (hrec : recordAt t f fs = some r) :
    Persisted fs t f r := by
  have hids := statePath_inj
    (h _ r (statePath_sessions t f) (isState_statePath t f) hrec)
  refine ⟨hrec, hids.1.symm, hids.2.symm, fun p r' hp hst hr' ht hf => ?_⟩
  have hown : p = statePath r'.registration.transferId r'.registration.fileId :=
    h p r' hp hst hr'
  rw [hown, ht, hf]

/-- What opening the storage finds of a file, it puts in order. -/
theorem openStorage_disciplined (hfiled : Filed d.fs) (h : openStorage H pid d = .ok () d') :
    Disciplined t f d'.fs := by
  intro r₁ hr₁ hpending
  cases hrec : recordAt t f d.fs with
  | none =>
      have hnone : recordAt t f d'.fs = none := openStorage_unreadable hrec h
      rw [hnone] at hr₁
      cases hr₁
  | some r =>
      have hp := hfiled.persisted hrec
      obtain ⟨da, db, r', hrun, -, -, hcontent, hstate⟩ := openStorage_recovers hp h
      have hpart : r.partialPath = partialPath t f := by
        rw [StateRecord.partialPath, hp.transfer_eq, hp.file_eq]
      have hvalid := (recoverRecord_valid (recordOf_valid hrec)).ok hrun
      have hr' : recordAt t f d'.fs = some r' := by
        unfold recordAt
        rw [hstate, recordOf_encodeState hvalid]
      obtain rfl := Option.some.inj (hr'.symm.trans hr₁)
      unfold contentAt
      rw [← hpart, hcontent]
      cases hr : r.complete with
      | false =>
          obtain ⟨-, hmissing, hfound, hregular, hsame⟩ := recoverRecord_inv hr hrun
          cases hnode : da.fs.get? r.partialPath with
          | none =>
              obtain ⟨hnone, hzero⟩ := hmissing hnode
              rw [hnone, hzero]
              exact ⟨Nat.le_refl _, Nat.zero_le _⟩
          | some node =>
              obtain ⟨bytes, rfl⟩ := hregular node hnode
              obtain ⟨hset, hoffset⟩ := hfound bytes hnode
              have hsize : r'.registration.size = r.registration.size := by
                rcases hsame with rfl | rfl
                · rfl
                · rfl
              rw [hset, hsize]
              simp only [contentOf, length_setLen]
              split at hoffset
              · omega
              · omega
      | true =>
          obtain ⟨hnone, rfl | ⟨-, hzero, -⟩⟩ := recoverRecord_finished hr hrun
          · rw [hr] at hpending
            cases hpending
          · rw [hnone, hzero]
            exact ⟨Nat.le_refl _, Nat.zero_le _⟩

theorem openStorage_unspent (hfree : Unspent pid d.fs) (h : openStorage H pid d = .ok () d') :
    Unspent pid d'.fs := by
  refine openStorage_keeps (J := fun d => Unspent pid d.fs) ?_ ?_ h
  · intro p d₁ d₂ hs hst hrun hJ dir counter hdir
    have htemp : (tempPath dir pid counter).dropLast.dropLast = sessionsDirectory :=
      tempPath_sessions hdir
    rw [recoverState_frame hs hst hrun (not_touches_session htemp fun hx => ?_),
      hJ dir counter hdir]
    exact tempPath_not_state (hx ▸ hst)
  · intro d₁ hlayout dir counter hdir
    rcases ensureLayout_get hlayout (tempPath dir pid counter) with hx | ⟨-, -, hle, -⟩
    · exact hx.trans (hfree dir counter hdir)
    · have hlen : IsTemp pid (tempPath dir pid counter) := ⟨dir, counter, hdir, rfl⟩
      have := hlen.length
      omega

theorem openStorage_tended (hfiled : Filed d.fs) (hfree : Unspent pid d.fs)
    (h : openStorage H pid d = .ok () d') : Tended C pid d'.fs where
  unspent := openStorage_unspent hfree h
  disciplined := fun _ _ => (openStorage_disciplined hfiled h).weaken

/-! ## The discipline -/

/-- What a storage promises of the files it receives, on the disk `d`. -/
structure Discipline (H : Host) (policy : OverwritePolicy) (pid : Nat) (d : Disk) : Prop where
  /-- What is safe is there, and nothing is there that does not belong to the file. -/
  covered : ∀ t f, Disciplined t f d.fs
  /-- Content is appended to the partial file, or it stays as it is. -/
  appends : ∀ t f offset data, Ends (writeData t f offset data) d
    (fun _ d' => Spares (· ≠ partialPath t f) d d' ∧
      Appended (contentAt t f d.fs) (contentAt t f d'.fs) offset data)
    fun _ d' => Spares (· ≠ partialPath t f) d d' ∧ Same t f d.fs d'.fs
  /-- A checkpoint moves the record forward, or it stays as it is. -/
  checkpoints : ∀ t f state, TypedState state → Ends (checkpoint pid t f state) d
    (fun _ d' => contentAt t f d'.fs = contentAt t f d.fs ∧ Grows t f d.fs d'.fs)
    fun _ d' => Same t f d.fs d'.fs
  /-- Whatever calls follow, nothing that was safe is given up before the file is
  registered again or reset. -/
  grows : ∀ t f methods, (∀ m ∈ methods, m.Receives ∧ m.Typed ∧ ¬ m.StartsOver t f) →
    Grows t f d.fs (runMethods H policy pid d methods).fs

theorem Tended.discipline (h : Tended (fun _ => True) pid d.fs) :
    Discipline H policy pid d where
  covered := fun t f => (h.disciplined t f).all
  appends := fun t f offset data => by
    have hspares : Within (Spares (· ≠ partialPath t f)) (writeData t f offset data) d :=
      writeData_within fun _ _ _ => put_spares fun hne => hne rfl
    refine (Ends.and hspares writeData_ends).mono (fun _ d' h' => ?_) fun _ d' h' => h'
    exact ⟨h'.1, h'.2.2.1⟩
  checkpoints := fun t f state ht => by
    refine (checkpoint_ends ht h.unspent).mono ?_ fun _ _ h' => h'
    rintro - d' ⟨hcontent, r, r', hr, hr', hadvanced, -⟩
    refine ⟨hcontent, fun r₁ hr₁ => ?_⟩
    obtain rfl := Option.some.inj (hr.symm.trans hr₁)
    exact ⟨r', hr', hadvanced⟩
  grows := fun _ _ _ hm => Grows.run h hm

/-- On every storage that was opened, after every sequence of registrations, writes,
checkpoints and resets, whichever of them fail, the partial files are kept as they
should be. -/
theorem partial_files_are_disciplined {d₀ : Disk} {methods : List Method} (hfiled : Filed d.fs)
    (hfree : Unspent pid d.fs) (hopen : openStorage H pid d = .ok () d₀)
    (hm : ∀ m ∈ methods, m.Receives ∧ m.Typed) :
    Discipline H policy pid (runMethods H policy pid d₀ methods) :=
  ((openStorage_tended hfiled hfree hopen).run hm).discipline

/-- A file is received in part, written over with the same bytes, and reset. -/
def receivingMethods : List Method :=
  [.call (.registerFile sampleRecord.registration),
    .call (.writeData sampleId sampleId 0 [7]), .call (.writeData sampleId sampleId 0 [7, 8]),
    .call (.writeData sampleId sampleId 1 [9]),
    .call (.checkpoint sampleId sampleId ⟨2, 1, zeroDigest .blake3⟩),
    .resetFile sampleId sampleId]

theorem receivingMethods_typed : ∀ m ∈ receivingMethods, m.Receives ∧ m.Typed := by
  intro m hm
  simp only [receivingMethods, List.mem_cons, List.not_mem_nil, or_false] at hm
  rcases hm with rfl | rfl | rfl | rfl | rfl | rfl
  · exact ⟨trivial, sampleRegistration_typed⟩
  · exact ⟨trivial, trivial⟩
  · exact ⟨trivial, trivial⟩
  · exact ⟨trivial, trivial⟩
  · exact ⟨trivial, sampleState_typed⟩
  · exact ⟨trivial, trivial⟩

theorem empty_get (hne : p ≠ []) : Fs.empty.get? p = none := by
  simp [Fs.get?, lookup, Fs.empty, hne]

theorem empty_records {G : Path → FileRegistration → Prop} : Records G .empty := by
  intro p r hp _ hrec
  have hne : p ≠ [] := by
    rintro rfl
    revert hp
    decide
  rw [empty_get hne] at hrec
  cases hrec

theorem empty_unspent : Unspent pid .empty := fun _ _ _ => empty_get (by simp [tempPath])

theorem partial_files_are_disciplined_received :
    ∃ d₀, openStorage sampleHost 7 (.boot .empty) = .ok () d₀ ∧
      Discipline sampleHost .ask 7 (runMethods sampleHost .ask 7 d₀ receivingMethods) := by
  have hopens : (diskAfter (openStorage sampleHost 7) (.boot .empty)).isSome = true := by
    decide +kernel
  obtain ⟨d₀, hd₀⟩ := Option.isSome_iff_exists.1 hopens
  have hopen := diskAfter_eq_some hd₀
  have hfiled : Filed (Disk.boot .empty).fs := empty_records
  exact ⟨d₀, hopen,
    partial_files_are_disciplined hfiled empty_unspent hopen receivingMethods_typed⟩

/-- What `durable_state` looks for is never found. -/
theorem durableState_not_corrupt (hrec : recordAt t f d.fs = some r) (h : Disciplined t f d.fs) :
    Ends (durableState t f) d (fun state _ => state = r.durableState)
      fun e _ => e ≠ .checkpointCorrupt f := by
  simp only [durableState]
  rw [Ends, bind_ok (loadRecord_ok hrec)]
  refine ends_ite.2 ⟨fun _ => rfl, fun hpending => ?_⟩
  obtain ⟨hdurable, hbound⟩ := h r hrec (by simpa using hpending)
  rw [ends_bind]
  refine (Ends.run _ _).mono (fun length d₁ hlength => ?_) fun e d₁ hfails => ?_
  · refine ends_ite.2 ⟨fun hcorrupt => ?_, fun _ => rfl⟩
    exfalso
    have hlen := length_content hlength
    cases length with
    | none =>
        simp only [Option.getD_none] at hlen
        simp only [Option.isNone_none, Option.any_none, Bool.true_and, Bool.or_false,
          Bool.or_eq_true, bne_iff_ne, decide_eq_true_eq] at hcorrupt
        omega
    | some length =>
        simp only [Option.getD_some] at hlen
        simp only [Option.isNone_some, Option.any_some, Bool.false_and, Bool.false_or,
          Bool.or_eq_true, decide_eq_true_eq] at hcorrupt
        omega
  · simp only [fileLengthIfExists] at hfails
    rw [bind_ok (metadata_run _ d)] at hfails
    cases hnode : d.fs.get? (partialPath t f) with
    | none => rw [hnode] at hfails; cases hfails
    | some node =>
        rw [hnode] at hfails
        cases node with
        | file bytes => cases hfails
        | dir =>
            obtain ⟨rfl, -⟩ := EStateM.Result.error.inj hfails
            simp
        | symlink =>
            obtain ⟨rfl, -⟩ := EStateM.Result.error.inj hfails
            simp

end DartUdp.Storage
