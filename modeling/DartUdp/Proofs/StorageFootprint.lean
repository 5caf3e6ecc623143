import DartUdp.Proofs.StorageComplete
import DartUdp.Storage.Methods

/-!
# Where the methods write

The methods of a storage are made of a few writes, and each method makes them at
the paths of the one file or transfer it is about, whichever way it ends. That is said
once here, for any preorder on disks that those writes respect: a method is within
the preorder, however far it came.

The preorder used most is that a set of paths is spared: nothing on it was made,
changed or removed.

`Footprint` is such a preorder. `Footprint.registerFile`, `Footprint.checkpoint` and
`Footprint.resetFile` are the methods that write a record.
-/

namespace DartUdp.Storage

open DartUdp.Lib DartUdp.Transfer DartUdp.Session

variable {α : Type} {d d' : Disk} {p q : Path} {H : Host} {policy : OverwritePolicy} {pid : Nat}
  {t t' : TransferId} {f f' : FileId} {r : StateRecord} {registration : FileRegistration}

/-! ## Programs that only look -/

/-- However the program ends, the disk is as it was. -/
def Reads (m : StorageM α) : Prop := ∀ d, Within (fun d d' => d' = d) m d

theorem Reads.within {R : Disk → Disk → Prop} [Std.Refl R] {m : StorageM α} (h : Reads m) :
    Within R m d := by
  refine Within.mono (h d) fun d' hd' => ?_
  subst hd'
  exact Std.Refl.refl _

/-- What follows starts on the same disk, knowing the answer. -/
theorem Reads.bind_ends {β : Type} {m : StorageM α} {g : α → StorageM β} {Q : β → Disk → Prop}
    {E : StorageError → Disk → Prop} (h : Reads m)
    (hg : ∀ a, m d = .ok a d → Ends (g a) d Q E) (he : ∀ e, E e d) : Ends (m >>= g) d Q E := by
  rw [ends_bind]
  refine ((Ends.run m d).and (h d)).mono ?_ ?_
  · rintro a d' ⟨hrun, rfl⟩
    exact hg a hrun
  · rintro e d' ⟨-, rfl⟩
    exact he e

theorem Reads.bind_within {R : Disk → Disk → Prop} [Std.Refl R] {β : Type} {m : StorageM α}
    {g : α → StorageM β} (h : Reads m) (hg : ∀ a, m d = .ok a d → Within R (g a) d) :
    Within R (m >>= g) d :=
  h.bind_ends hg fun _ => Std.Refl.refl d

theorem Reads.bind {β : Type} {m : StorageM α} {g : α → StorageM β} (hm : Reads m)
    (hg : ∀ a, Reads (g a)) : Reads (m >>= g) := by
  intro d
  rw [Within, ends_bind]
  refine Ends.mono (hm d) (fun a d' hd' => ?_) fun _ _ h => h
  subst hd'
  exact hg a d'

theorem Reads.pure (a : α) : Reads (pure a : StorageM α) := fun _ => rfl

theorem Reads.throw (e : StorageError) : Reads (throw e : StorageM α) := fun _ => rfl

theorem Reads.ite {c : Prop} [Decidable c] {m m' : StorageM α} (h : Reads m) (h' : Reads m') :
    Reads (if c then m else m') := by
  split
  · exact h
  · exact h'

theorem metadata_reads : Reads (metadata p) := fun _ => rfl

theorem readState_reads : Reads (readState p) := by
  intro d
  unfold Within Ends
  cases hrec : recordOf (d.fs.get? p) with
  | none =>
      obtain ⟨e, herr⟩ := readState_error hrec
      rw [herr]
  | some record => rw [readState_ok hrec]

theorem readStateIfExists_reads : Reads (readStateIfExists p) := by
  refine .bind metadata_reads fun node => ?_
  cases node with
  | none => exact .pure _
  | some node => exact .bind readState_reads fun record => .pure _

theorem loadRecord_reads : Reads (loadRecord t f) := by
  refine .bind readStateIfExists_reads fun record => ?_
  cases record with
  | none => exact .throw _
  | some record => exact .pure record

theorem fileLengthIfExists_reads : Reads (fileLengthIfExists p) := by
  refine .bind metadata_reads fun node => ?_
  cases node with
  | none => exact .pure _
  | some node =>
      cases node with
      | file bytes => exact .pure _
      | dir => exact .throw _
      | symlink => exact .throw _

theorem openPartialExisting_reads : Reads (openPartialExisting p) := by
  refine .bind metadata_reads fun node => ?_
  split
  · exact .pure _
  · exact .throw _

theorem destinationPath_reads {path : Bytes} : Reads (destinationPath path) := by
  unfold destinationPath
  split
  · exact .pure _
  · exact .throw _

theorem destinationMatches_reads : Reads (destinationMatches H p registration) := by
  refine .bind metadata_reads fun node => ?_
  split
  · exact .ite (.pure _) (.ite (.throw _) (.pure _))
  · exact .pure _

theorem hashFile_reads {algorithm : HashAlgorithm} : Reads (hashFile H p algorithm) := by
  refine .bind metadata_reads fun node => ?_
  split
  · exact .pure _
  · exact .throw _

theorem pathExists_reads : Reads (pathExists H p) :=
  .bind metadata_reads fun _ => .ite (.pure _) (.ite (.pure _) (.throw _))

theorem settleFile_reads {metadata : FileMetadata} : Reads (settleFile H metadata) := by
  unfold settleFile
  cases H.applyMetadata metadata with
  | some operation => exact .throw _
  | none => exact .ite (.throw _) (.pure _)

theorem durableState_reads : Reads (durableState t f) := by
  refine .bind loadRecord_reads fun record => .ite (.pure _) ?_
  exact .bind fileLengthIfExists_reads fun length => .ite (.throw _) (.pure _)

/-! ## Single writes -/

@[simp] theorem ends_metadata {Q : Option Node → Disk → Prop} {E : StorageError → Disk → Prop} :
    Ends (metadata p) d Q E ↔ Q (d.fs.get? p) d := Iff.rfl

theorem write_ends {operation : String} {g : Fs → Option Fs} :
    Ends (write operation g) d (fun _ d' => g d.fs = some d'.fs) fun _ d' => d' = d := by
  simp only [write, ends_bind, ends_get]
  cases hg : g d.fs with
  | none => rfl
  | some fs => rfl

/-- Nothing at a path of `P` was made, changed or removed. -/
def Spares (P : Path → Prop) (d d' : Disk) : Prop := ∀ q, P q → d'.fs.get? q = d.fs.get? q

instance (P : Path → Prop) : IsTrans Disk (Spares P) :=
  ⟨fun _ _ _ h1 h2 q hq => (h2 q hq).trans (h1 q hq)⟩

instance (P : Path → Prop) : Std.Refl (Spares P) := ⟨fun _ _ _ => rfl⟩

section Spares

variable {P : Path → Prop} {operation : String}

theorem write_spares {g : Fs → Option Fs}
    (h : ∀ fs fs', g fs = some fs' → ∀ q, P q → fs'.get? q = fs.get? q) :
    Within (Spares P) (write operation g) d := by
  refine Ends.mono write_ends (fun _ d' hd' => h _ _ hd') fun _ d' hd' => ?_
  subst hd'
  exact Std.Refl.refl _

theorem put_spares {n : Node} (hp : ¬ P p) :
    Within (Spares P) (write operation (·.put? p n)) d := by
  refine write_spares fun fs fs' h q hq => ?_
  rw [(Fs.put?_eq_some h).2, if_neg]
  rintro rfl
  exact hp hq

theorem erase_spares (hp : ¬ P p) : Within (Spares P) (write operation (·.erase? p)) d := by
  refine write_spares fun fs fs' h q hq => ?_
  rw [Fs.erase?_eq_some h, if_neg]
  rintro rfl
  exact hp hq

theorem rename_spares (hp : ¬ P p) (hq : ¬ P q) :
    Within (Spares P) (write operation (·.rename? p q)) d := by
  refine write_spares fun fs fs' h x hx => ?_
  obtain ⟨-, n, -, hget⟩ := Fs.rename?_eq_some h
  rw [hget, if_neg, if_neg]
  · rintro rfl
    exact hp hx
  · rintro rfl
    exact hq hx

theorem ensureDirectory_spares (hp : ¬ P p) : Within (Spares P) (ensureDirectory p) d := by
  refine .bind metadata_reads.within fun node d₁ => ?_
  cases node with
  | none => exact put_spares hp
  | some node =>
      cases node with
      | file bytes => exact .throw _
      | dir => exact .pure _
      | symlink => exact .throw _

end Spares

section Primitives

variable {R : Disk → Disk → Prop} [IsTrans Disk R] [Std.Refl R]

theorem removeFileIfExists_within
    (h : ∀ operation d, Within R (write operation (·.erase? p)) d) :
    Within R (removeFileIfExists p) d := by
  refine .bind metadata_reads.within fun node d₁ => ?_
  cases node with
  | none => exact .pure _
  | some node =>
      cases node with
      | file bytes => exact h _ _
      | dir => exact .throw _
      | symlink => exact h _ _

theorem truncateFile_within {length : Nat}
    (h : ∀ operation bytes d, Within R (write operation (·.put? p (.file bytes))) d) :
    Within R (truncateFile p length) d := by
  refine .bind metadata_reads.within fun node d₁ => ?_
  cases node with
  | none => exact .throw _
  | some node =>
      cases node with
      | file bytes => exact h _ _ _
      | dir => exact .throw _
      | symlink => exact .throw _

theorem openPartial_within
    (h : ∀ operation bytes d, Within R (write operation (·.put? p (.file bytes))) d) :
    Within R (openPartial p) d := by
  refine .bind metadata_reads.within fun node d₁ => ?_
  cases node with
  | none => exact .bind (h _ _ _) fun _ _ => .pure _
  | some node =>
      cases node with
      | file bytes => exact .pure _
      | dir => exact .throw _
      | symlink => exact .throw _

end Primitives

/-- A record is written where it is, beside a temporary file, in a directory that
may have to be made. -/
theorem writeState_spares {P : Path → Prop} {record : StateRecord} (hp : ¬ P p)
    (hdir : ¬ P p.dropLast) (htemp : ∀ counter, ¬ P (tempPath p.dropLast pid counter)) :
    Within (Spares P) (writeState pid p record) d := by
  refine .bind (ensureDirectory_spares hdir) fun _ d₁ => .get_bind ?_
  refine .modify_bind (fun _ _ => rfl) ?_
  have htry : Within (Spares P) (replaceState (tempPath p.dropLast pid d₁.tempCounter) p
      (encodeState record)) { d₁ with tempCounter := (d₁.tempCounter + 1) % 2 ^ 64 } := by
    refine .bind metadata_reads.within fun node d₂ => ?_
    cases node with
    | some node => exact .throw _
    | none =>
        exact .bind (put_spares (htemp _)) fun _ _ => rename_spares (htemp _) hp
  rw [Within, ends_tryCatch]
  refine Ends.mono htry (fun _ _ h => h) fun e d₂ h₂ => ?_
  rw [ends_bind, ends_tryCatch]
  have hremove : Within (Spares P)
      (removeFileIfExists (tempPath p.dropLast pid d₁.tempCounter)) d₂ :=
    removeFileIfExists_within fun _ _ => erase_spares (htemp _)
  exact Ends.mono (Within.trans h₂ hremove) (fun _ _ h => h) fun _ _ h => h

/-! ## The calls about one file -/

section Recovery

variable {R : Disk → Disk → Prop} [IsTrans Disk R] [Std.Refl R]

theorem recoverPartial_within {length : Nat}
    (hput : ∀ operation bytes d, Within R (write operation (·.put? p (.file bytes))) d) :
    Within R (recoverPartial p r length) d := by
  have htruncate : ∀ length d, Within R (truncateFile p length) d := fun _ _ =>
    truncateFile_within hput
  have hlast : ∀ (record : StateRecord) (d : Disk), Within R (do
      let length := (← fileLengthIfExists p).getD 0
      if length < record.durableOffset then do
        truncateFile p 0
        pure record.reset
      else pure record : StorageM StateRecord) d := by
    intro record d
    refine .bind fileLengthIfExists_reads.within fun length d₂ => ?_
    refine .ite (fun _ => ?_) fun _ => .pure _
    exact .bind (htruncate _ _) fun _ _ => .pure _
  simp only [recoverPartial]
  refine .ite (fun _ => ?_) fun _ => .ite (fun _ => ?_) fun _ => ?_
  · exact .bind (htruncate _ _) fun _ _ => .bind (.pure _) fun _ _ => hlast _ _
  · exact .bind (htruncate _ _) fun _ _ => .bind (.pure _) fun _ _ => hlast _ _
  · exact .bind (.pure _) fun _ _ => hlast _ _

/-- Bringing a record in line touches its partial file. -/
theorem recoverRecord_within
    (hput : ∀ operation bytes d,
      Within R (write operation (·.put? r.partialPath (.file bytes))) d)
    (herase : ∀ operation d, Within R (write operation (·.erase? r.partialPath)) d) :
    Within R (recoverRecord H r) d := by
  unfold recoverRecord
  split
  · exact .throw _
  · refine .ite (fun _ => ?_) fun _ => ?_
    · refine .bind (removeFileIfExists_within herase) fun _ d₁ => ?_
      refine .bind destinationPath_reads.within fun path d₂ => ?_
      refine .bind destinationMatches_reads.within fun matched d₃ => ?_
      exact .ite (fun _ => .pure _) fun _ => .pure _
    · refine .bind fileLengthIfExists_reads.within fun length d₁ => ?_
      cases length with
      | none => exact .ite (fun _ => .pure _) fun _ => .pure _
      | some length => exact recoverPartial_within hput

end Recovery

/-- The writes that the calls about one file are made of respect `R`. -/
structure Footprint (R : Disk → Disk → Prop) (pid : Nat) (t : TransferId) (f : FileId) :
    Prop where
  dirs : ∀ d, Within R (ensureTransferDirectories t) d
  put : ∀ operation bytes d,
    Within R (write operation (·.put? (partialPath t f) (.file bytes))) d
  erase : ∀ operation d, Within R (write operation (·.erase? (partialPath t f))) d
  forget : ∀ operation d, Within R (write operation (·.erase? (statePath t f))) d
  record : ∀ record d, Within R (writeState pid (statePath t f) record) d

/-- What these writes may touch. -/
def Beside (pid : Nat) (t : TransferId) (f : FileId) (q : Path) : Prop :=
  q = sessionDirectory t ∨ q = partialDirectory t ∨ q = statePath t f ∨ q = partialPath t f ∨
    ∃ counter, q = tempPath (sessionDirectory t) pid counter

theorem spares_footprint {P : Path → Prop} (h : ∀ q, Beside pid t f q → ¬ P q) :
    Footprint (Spares P) pid t f where
  dirs := fun _ => .bind (ensureDirectory_spares (h _ (.inl rfl))) fun _ _ =>
    ensureDirectory_spares (h _ (.inr (.inl rfl)))
  put := fun _ _ _ => put_spares (h _ (.inr (.inr (.inr (.inl rfl)))))
  erase := fun _ _ => erase_spares (h _ (.inr (.inr (.inr (.inl rfl)))))
  forget := fun _ _ => erase_spares (h _ (.inr (.inr (.inl rfl))))
  record := fun _ _ => by
    refine writeState_spares (h _ (.inr (.inr (.inl rfl)))) ?_ fun counter => ?_
    · rw [sessionDirectory_dropLast]
      exact h _ (.inl rfl)
    · rw [sessionDirectory_dropLast]
      exact h _ (.inr (.inr (.inr (.inr ⟨counter, rfl⟩))))

/-- The record a registration starts from is about the file that is registered. -/
theorem recordToRegister_ids :
    Ends (recordToRegister registration) d
      (fun r _ => r.registration.transferId = registration.transferId ∧
        r.registration.fileId = registration.fileId) fun _ _ => True := by
  simp only [recordToRegister, ends_bind]
  refine ends_true.mono (fun found d₁ _ => ?_) fun _ _ h => h
  cases found with
  | none =>
      simp only [ends_bind, ends_pure]
      exact ends_true.mono (fun _ _ _ => ⟨rfl, rfl⟩) fun _ _ h => h
  | some existing =>
      simp only [ends_steps]
      refine ⟨fun hmatch => ?_, fun _ => ?_⟩
      · simp only [registrationMatches, Bool.and_eq_true, beq_iff_eq] at hmatch
        exact ⟨hmatch.1.1.1.1, hmatch.1.1.1.2⟩
      · refine ends_true.mono (fun _ d₂ _ => ?_) fun _ _ h => h
        exact ends_true.mono (fun _ _ _ => ⟨rfl, rfl⟩) fun _ _ h => h

section Calls

variable {R : Disk → Disk → Prop} [IsTrans Disk R] [Std.Refl R]

theorem recordToRegister_within
    (herase : ∀ operation d, Within R (write operation
      (·.erase? (partialPath registration.transferId registration.fileId))) d)
    (hforget : ∀ operation d, Within R (write operation
      (·.erase? (statePath registration.transferId registration.fileId))) d) :
    Within R (recordToRegister registration) d := by
  have hremove : ∀ d, Within R (removeFileIfExists
      (partialPath registration.transferId registration.fileId)) d := fun _ =>
    removeFileIfExists_within herase
  refine .bind readStateIfExists_reads.within fun found d₁ => ?_
  cases found with
  | none => exact .bind (hremove _) fun _ _ => .pure _
  | some existing =>
      refine .ite (fun _ => .pure _) fun _ => ?_
      refine .bind (removeFileIfExists_within hforget) fun _ d₂ => ?_
      exact .bind (hremove _) fun _ _ => .pure _

theorem Footprint.registerFile
    (h : Footprint R pid registration.transferId registration.fileId) :
    Within R (registerFile H pid registration) d := by
  unfold Storage.registerFile
  split
  · exact .throw _
  · refine .bind (h.dirs _) fun _ d₁ => ?_
    have hstart := recordToRegister_within (d := d₁) h.erase h.forget
    refine .bind_with ((Ends.and hstart recordToRegister_ids).mono (fun _ _ h => h)
      fun _ _ h => h.1) ?_
    rintro record d₂ - ⟨ht, hf⟩
    refine .bind (recoverRecord_within ?_ ?_) fun record d₃ => h.record _ _
    · unfold StateRecord.partialPath
      rw [ht, hf]
      exact h.put
    · unfold StateRecord.partialPath
      rw [ht, hf]
      exact h.erase

theorem writeData_within {offset : Nat} {data : Bytes}
    (hput : ∀ operation bytes d,
      Within R (write operation (·.put? (partialPath t f) (.file bytes))) d) :
    Within R (writeData t f offset data) d := by
  refine .bind loadRecord_reads.within fun record d₁ => ?_
  refine .ite (fun _ => .throw _) fun _ => .ite (fun _ => .throw _) fun _ => ?_
  refine .ite (fun _ => .throw _) fun _ => ?_
  refine .bind (openPartial_within hput) fun content d₂ => ?_
  refine .ite (fun _ => .throw _) fun _ => .ite (fun _ => .throw _) fun _ => ?_
  refine .ite (fun _ => .throw _) fun _ => ?_
  exact .ite (fun _ => hput _ _ _) fun _ => .pure _

theorem syncPartial_within {size durableOffset : Nat}
    (hput : ∀ operation bytes d, Within R (write operation (·.put? p (.file bytes))) d) :
    Within R (syncPartial p size durableOffset) d := by
  refine .bind fileLengthIfExists_reads.within fun length d₁ => ?_
  cases length with
  | some length => exact openPartialExisting_reads.within
  | none =>
      refine .ite (fun _ => ?_) fun _ => .ite (fun _ => .pure _) fun _ => ?_
      · exact .bind (openPartial_within hput) fun _ _ => .pure _
      · exact openPartialExisting_reads.within

theorem Footprint.checkpoint (h : Footprint R pid t f) {state : DurableState} :
    Within R (checkpoint pid t f state) d := by
  refine .bind loadRecord_reads.within fun record d₁ => ?_
  refine .ite (fun _ => .pure _) fun _ => ?_
  refine .bind fileLengthIfExists_reads.within fun length d₂ => ?_
  refine .ite (fun _ => .throw _) fun _ => .ite (fun _ => .throw _) fun _ => ?_
  refine .ite (fun _ => .pure _) fun _ => .bind (syncPartial_within h.put) fun _ d₃ => h.record _ _

theorem Footprint.resetFile (h : Footprint R pid t f) : Within R (resetFile pid t f) d := by
  refine .bind loadRecord_reads.within fun record d₁ => ?_
  exact .bind (removeFileIfExists_within h.erase) fun _ d₂ => h.record _ _

end Calls

end DartUdp.Storage
