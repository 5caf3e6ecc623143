import DartUdp.Proofs.SessionResume
import DartUdp.Proofs.SessionTerminal

/-!
# Messages that are refused

A message that is refused should leave the session as it was, so that the
correct one can still come. Most handlers check everything before they write.
Here is what each of the others has written by the time it fails, and so which
refusals leave a trace.

The module is for `refused_data_iff` and `refused_control_iff`. `AtomicUnless` says
of a handler that its refusals leave no trace unless a condition holds, and that
they do if it does; `handleControl_atomic` is all of them.
-/

namespace DartUdp.Session

open DartUdp.Lib DartUdp.Transfer

variable {s s' : TransferSession}

/-- The same session; of its maps, the same entries. -/
structure Alike (s s' : TransferSession) : Prop where
  rest : s' = { s with files := s'.files, pendingResumes := s'.pendingResumes }
  files : ∀ id : FileId, s'.files[id]? = s.files[id]?
  pending : ∀ id : FileId, s'.pendingResumes[id]? = s.pendingResumes[id]?

theorem Alike.refl (s : TransferSession) : Alike s s := ⟨rfl, fun _ => rfl, fun _ => rfl⟩

/-- When `m` fails, the session is as it was exactly if `C` did not hold. -/
abbrev AtomicUnless (C : Prop) {α : Type} (m : SessionM α) (s : TransferSession) : Prop :=
  Ends m s (fun _ _ => True) fun _ s' => Alike s s' ↔ ¬ C

theorem untouched_iff {C : Prop} (h : ¬ C) : Alike s s ↔ ¬ C := iff_of_true (Alike.refl s) h

/-! ## Data -/

/-- The chunk is the next of its file and fits, but carries FIN short of the end
of the file, and takes the received offset further. -/
structure EndsShort (s : TransferSession) (chunk : DataChunk) : Prop where
  role : s.role = .accepter
  file : ∃ f, s.files[chunk.fileId]? = some f ∧ f.activeStreamId = some chunk.streamId ∧
    chunk.offset = f.receivedOffset - f.baseOffset ∧
    chunk.offset + chunk.bytes.length ≤ f.entry.size - f.baseOffset ∧
    f.baseOffset + (chunk.offset + chunk.bytes.length) ≠ f.entry.size ∧
    f.baseOffset + (chunk.offset + chunk.bytes.length) ≠ f.receivedOffset
  fin : chunk.fin = true
  range : chunk.offset + chunk.bytes.length ≤ u64Max

theorem handleData_atomic (chunk : DataChunk) :
    AtomicUnless (EndsShort s chunk) (handleData chunk) s := by
  have hfile : ∀ {f}, s.files[chunk.fileId]? = some f → EndsShort s chunk →
      f.activeStreamId = some chunk.streamId ∧
      chunk.offset = f.receivedOffset - f.baseOffset ∧
      chunk.offset + chunk.bytes.length ≤ f.entry.size - f.baseOffset ∧
      f.baseOffset + (chunk.offset + chunk.bytes.length) ≠ f.entry.size ∧
      f.baseOffset + (chunk.offset + chunk.bytes.length) ≠ f.receivedOffset := by
    rintro f hf hs
    obtain ⟨f', hf', h⟩ := hs.file
    obtain rfl := Option.some.inj (hf.symm.trans hf')
    exact h
  simp only [AtomicUnless, handleData, ends_bind, ends_calls]
  refine ⟨fun hrole => ⟨fun f hf => ?_, fun hnone => untouched_iff fun h => ?_⟩,
    fun hrole => untouched_iff fun h => hrole h.role⟩
  · cases hactive : f.activeStreamId with
    | none =>
        refine untouched_iff fun h => ?_
        cases hactive.symm.trans (hfile hf h).1
    | some streamId =>
        simp only [ends_steps]
        refine ⟨fun hne => untouched_iff fun h => hne ?_, fun hstream => ?_⟩
        · exact Option.some.inj (hactive.symm.trans (hfile hf h).1)
        cases hadd : checkedAdd chunk.offset chunk.bytes.length with
        | none =>
            refine untouched_iff fun h => ?_
            rw [checkedAdd, if_pos h.range] at hadd
            cases hadd
        | some stop =>
            obtain ⟨hrange, rfl⟩ := checkedAdd_eq_some.1 hadd
            simp only [acceptChunk, ends_steps, ends_setFile]
            refine ⟨fun hover => untouched_iff fun h => ?_, fun hle => ⟨fun _ => trivial,
              fun _ => ⟨fun hne => untouched_iff fun h => hne (hfile hf h).2.1,
              fun hnext => ⟨fun hfin => ?_, fun _ => ⟨fun _ => trivial, fun _ => trivial⟩⟩⟩⟩⟩
            · exact Nat.not_le.2 hover (hfile hf h).2.2.1
            · -- the FIN is refused, and the offset has been written
              have hshort : EndsShort s chunk ↔
                  f.baseOffset + (chunk.offset + chunk.bytes.length) ≠ f.receivedOffset :=
                ⟨fun h => (hfile hf h).2.2.2.2, fun hmoves => ⟨hrole, ⟨f, hf,
                  hactive.trans (congrArg some (not_not.1 hstream)), not_not.1 hnext,
                  Nat.le_of_not_lt hle, hfin.2, hmoves⟩, hfin.1, hrange⟩⟩
              rw [hshort, not_not]
              constructor
              · intro h
                have hnew := h.files chunk.fileId
                rw [hf, Std.TreeMap.getElem?_insert_self] at hnew
                exact congrArg FileRuntime.receivedOffset (Option.some.inj hnew)
              · intro hsame
                refine ⟨rfl, fun id => ?_, fun _ => rfl⟩
                show (s.files.insert chunk.fileId _)[id]? = _
                rw [Std.TreeMap.getElem?_insert]
                split
                · next hid =>
                    rw [← Std.compare_eq_iff_eq.1 hid, hf, hsame]
                · rfl
  · obtain ⟨f, hf, _⟩ := h.file
    cases hnone.symm.trans hf

/-- **Refused data.** A chunk that is refused leaves the session as it was exactly
if it does not end its file short. -/
theorem refused_data_iff {chunk : DataChunk} {e : CoreError}
    (hrun : handleData chunk s = .error e s') : Alike s s' ↔ ¬ EndsShort s chunk :=
  (handleData_atomic chunk).error hrun

/-- An accepter that receives a file of three bytes. -/
def sampleReceiving : TransferSession :=
  final sampleAccepter (sampleOffer ++ [.acceptOffer .accept .ask (ascii "inbox"), sampleBegin])

theorem refused_data_iff_gap : ∃ e s',
    handleData ⟨sampleId, 1, 1, [97], false⟩ sampleReceiving = .error e s' ∧
      Alike sampleReceiving s' := by
  cases hrun : handleData ⟨sampleId, 1, 1, [97], false⟩ sampleReceiving with
  | ok events s' =>
      have hfails : answer (handleData ⟨sampleId, 1, 1, [97], false⟩) sampleReceiving = none := by
        decide +kernel
      rw [answer, hrun] at hfails
      cases hfails
  | error e s' => exact ⟨e, s', rfl, (refused_data_iff hrun).2 fun h => by cases h.fin⟩

/-- **A refused chunk that stays.** The first byte of three comes with FIN and is
refused. Without FIN it would have been taken before; now it counts as a
repetition, and the byte is never handed out. -/
theorem short_fin_is_kept :
    failure (handleData ⟨sampleId, 1, 0, [97], true⟩) sampleReceiving =
      some (.invalidOffset sampleId 1 3) ∧
    ¬ Alike sampleReceiving (after (handleData ⟨sampleId, 1, 0, [97], true⟩) sampleReceiving) ∧
    answer (handleData ⟨sampleId, 1, 0, [97], false⟩) sampleReceiving =
      some [.dataReceived sampleId 0 [97] false] ∧
    answer (handleData ⟨sampleId, 1, 0, [97], false⟩)
        (after (handleData ⟨sampleId, 1, 0, [97], true⟩) sampleReceiving) =
      some [.duplicateData sampleId 0] := by
  refine ⟨by decide +kernel, fun h => ?_, by decide +kernel, by decide +kernel⟩
  have hmoved : (sampleReceiving.files[sampleId]?).map (·.receivedOffset) ≠
      ((after (handleData ⟨sampleId, 1, 0, [97], true⟩)
        sampleReceiving).files[sampleId]?).map (·.receivedOffset) := by decide +kernel
  exact hmoved (congrArg _ (h.files sampleId).symm)

/-! ## Starting files -/

/-- Starting a known file fails only for want of an id, before it writes. -/
theorem startFile_atomic {id : FileId} (hid : (s.files[id]?).isSome) :
    Ends (startFile id) s
      (fun _ s' => s.nextStreamId + 1 ≤ u64Max ∧ s'.nextStreamId = s.nextStreamId + 1 ∧
        s'.pendingResumes = s.pendingResumes ∧
        ∀ id' : FileId, (s.files[id']?).isSome → (s'.files[id']?).isSome)
      fun _ s' => u64Max < s.nextStreamId + 1 ∧ s' = s := by
  obtain ⟨f, hf⟩ := Option.isSome_iff_exists.1 hid
  simp only [startFile, allocateStreamId, ends_bind, ends_get]
  cases hadd : checkedAdd s.nextStreamId 1 with
  | some next =>
      obtain ⟨hle, rfl⟩ := checkedAdd_eq_some.1 hadd
      simp only [ends_steps, ends_calls]
      refine ⟨fun f' _ => ⟨fun _ => ⟨hle, trivial, trivial, fun _ h => h⟩,
        fun _ => ⟨hle, trivial, trivial, fun _ h => isSome_insert h⟩⟩, fun hnone => ?_⟩
      cases hf.symm.trans hnone
  | none =>
      refine ⟨?_, rfl⟩
      unfold checkedAdd at hadd
      split at hadd
      · cases hadd
      · omega

/-- The loop fails for want of an id: for the first file that is pending, which
is then no longer pending, or after it has given ids away. -/
theorem startPendingLoop_atomic {fuel : Nat} (hw : PendingKnown s) :
    Ends (startPendingLoop fuel) s (fun _ _ => True) fun _ s' =>
      u64Max < s.nextStreamId + 1 ∧ (∃ id, s.pendingResumes.keys.head? = some id ∧
        s' = { s with pendingResumes := s.pendingResumes.erase id }) ∨
      ¬ u64Max < s.nextStreamId + 1 ∧ s.nextStreamId < s'.nextStreamId := by
  induction fuel generalizing s with
  | zero => trivial
  | succ fuel ih =>
      unfold startPendingLoop
      rw [ends_bind, ends_get, ends_ite]
      refine ⟨fun _ => trivial, fun _ => ?_⟩
      cases hid : s.pendingResumes.keys.head? with
      | none => trivial
      | some id =>
          have hmem : id ∈ s.pendingResumes := Std.TreeMap.mem_keys.1 (List.mem_of_mem_head? hid)
          rw [ends_bind, ends_set, ends_bind]
          refine (startFile_atomic (s := { s with
            pendingResumes := s.pendingResumes.erase id }) (hw id hmem)).mono ?_ ?_
          · rintro events s₁ ⟨hle, hnext, hpending, hkeeps⟩
            have hle : s.nextStreamId + 1 ≤ u64Max := hle
            have hnext : s₁.nextStreamId = s.nextStreamId + 1 := hnext
            have hw₁ : PendingKnown s₁ := fun id' h => by
              rw [hpending] at h
              exact hkeeps id' (hw id' (Std.TreeMap.mem_of_mem_erase h))
            rw [ends_bind]
            refine (ih hw₁).mono (fun _ _ _ => trivial) fun e s₂ h => ?_
            refine .inr ⟨Nat.not_lt.2 hle, ?_⟩
            rcases h with ⟨_, _, _, rfl⟩ | ⟨_, hlt⟩
            · show s.nextStreamId < s₁.nextStreamId
              omega
            · omega
          · rintro e s₁ ⟨hfull, rfl⟩
            exact .inl ⟨hfull, id, rfl, rfl⟩

theorem startPendingFiles_atomic (hw : PendingKnown s) :
    Ends startPendingFiles s (fun _ _ => True) fun _ s' =>
      u64Max < s.nextStreamId + 1 ∧ (∃ id, s.pendingResumes.keys.head? = some id ∧
        s' = { s with pendingResumes := s.pendingResumes.erase id }) ∨
      ¬ u64Max < s.nextStreamId + 1 ∧ s.nextStreamId < s'.nextStreamId := by
  unfold startPendingFiles
  rw [ends_bind, ends_get, ends_bind]
  refine (startPendingLoop_atomic hw).mono (fun events s₁ _ => ?_) fun _ _ h => h
  simp only [ends_steps, ends_changeState]
  exact ⟨fun _ => trivial, fun _ => trivial⟩

theorem Alike.of_stream (h : Alike s s') : s'.nextStreamId = s.nextStreamId := by
  rw [h.rest]

theorem Alike.of_assembly (h : Alike s s') : s'.assembly = s.assembly := by
  rw [h.rest]

theorem Alike.of_count (h : Alike s s') : s'.completedFiles = s.completedFiles := by
  rw [h.rest]

/-! ## The handlers that start files -/

/-- `handle_resume_state` takes the state for the file. -/
structure Resumes (s : TransferSession) (id : FileId) (state : DurableState) (f : FileRuntime) :
    Prop where
  role : s.role = .offerer
  phase : s.state = .awaitingResume ∨ s.state = .sendingData ∨ s.state = .awaitingTransferComplete
  file : s.files[id]? = some f
  within : state.durableOffset ≤ f.entry.size
  left : f.complete = false
  newer : ¬ (state.checkpointId < f.checkpointId ∨
    (state.checkpointId = f.checkpointId ∧ state.durableOffset ≠ f.durableOffset))
  told : ¬ (state.checkpointId = f.checkpointId ∧ state.durableOffset = f.durableOffset ∧
    state.stateHash = f.stateHash ∧ f.activeStreamId.isSome)

/-- The state is the one the file has, and the file would be started at once, but
there is no stream id for it. -/
structure Stalls (s : TransferSession) (id : FileId) (state : DurableState) (f : FileRuntime) :
    Prop where
  full : u64Max < s.nextStreamId + 1
  same : state = ⟨f.durableOffset, f.checkpointId, f.stateHash⟩
  fresh : s.pendingResumes[id]? = none
  first : (s.pendingResumes.insert id state).keys.head? = some id

/-- What is written for the state before the files are started, and what is left
of it when that fails. -/
theorem startResumed_atomic {id : FileId} {state : DurableState} {f : FileRuntime}
    (hw : PendingKnown s) (hf : s.files[id]? = some f) :
    Ends startPendingFiles
      { s with
        files := s.files.insert id
          { f with
            durableOffset := state.durableOffset
            checkpointId := state.checkpointId
            stateHash := state.stateHash }
        pendingResumes := s.pendingResumes.insert id state }
      (fun _ _ => True) fun _ s' => Alike s s' ↔ Stalls s id state f := by
  have hknown : PendingKnown
      { s with
        files := s.files.insert id
          { f with
            durableOffset := state.durableOffset
            checkpointId := state.checkpointId
            stateHash := state.stateHash }
        pendingResumes := s.pendingResumes.insert id state } := by
    intro id' hid'
    rcases Std.TreeMap.mem_insert.1 hid' with heq | hmem
    · obtain rfl := Std.compare_eq_iff_eq.1 heq
      rw [Std.TreeMap.getElem?_insert_self]
      rfl
    · exact isSome_insert (hw id' hmem)
  refine (startPendingFiles_atomic hknown).mono (fun _ _ _ => trivial) fun e s' h => ?_
  rcases h with ⟨hfull, k, hk, rfl⟩ | ⟨hroom, hlt⟩
  · constructor
    · intro h
      have hsame := h.files id
      rw [Std.TreeMap.getElem?_insert_self, hf] at hsame
      have hstate : state = ⟨f.durableOffset, f.checkpointId, f.stateHash⟩ := by
        rw [← Option.some.inj hsame]
      have hgone := h.pending k
      rw [Std.TreeMap.getElem?_erase_self] at hgone
      have hid : k = id := by
        by_contra hne
        have hmem : k ∈ s.pendingResumes.insert id state :=
          Std.TreeMap.mem_keys.1 (List.mem_of_mem_head? hk)
        rcases Std.TreeMap.mem_insert.1 hmem with heq | hmem
        · exact hne (Std.compare_eq_iff_eq.1 heq).symm
        · rw [Std.TreeMap.mem_iff_isSome_getElem?, ← hgone] at hmem
          cases hmem
      subst hid
      exact ⟨hfull, hstate, hgone.symm, hk⟩
    · rintro ⟨_, rfl, hfresh, hfirst⟩
      obtain rfl := Option.some.inj (hk.symm.trans hfirst)
      refine ⟨rfl, fun id => ?_, fun id => ?_⟩
      · show (s.files.insert k _)[id]? = _
        rw [Std.TreeMap.getElem?_insert]
        split
        · next heq => rw [← Std.compare_eq_iff_eq.1 heq, hf]
        · rfl
      · show ((s.pendingResumes.insert k _).erase k)[id]? = _
        rw [Std.TreeMap.getElem?_erase, Std.TreeMap.getElem?_insert]
        split
        · next heq => rw [← Std.compare_eq_iff_eq.1 heq, hfresh]
        · rfl
  · refine iff_of_false (fun h => ?_) fun h => hroom h.full
    have hsame := h.of_stream
    have hlt : s.nextStreamId < s'.nextStreamId := hlt
    omega

theorem handleResumeState_atomic (hw : s.role = .offerer → PendingKnown s) (id : FileId)
    (state : DurableState) :
    AtomicUnless (∃ f, Resumes s id state f ∧ ¬ Stalls s id state f)
      (handleResumeState id state) s := by
  have hfile : ∀ {f g}, s.files[id]? = some f → Resumes s id state g → Resumes s id state f := by
    intro f g hf h
    obtain rfl := Option.some.inj (hf.symm.trans h.file)
    exact h
  simp only [AtomicUnless, handleResumeState, ends_steps, ends_calls]
  refine ⟨fun hrole => ⟨fun hphase => untouched_iff ?_, fun hphase => ⟨fun f hf =>
    ⟨fun hle => ⟨fun _ => trivial, fun hleft => ⟨fun hold => untouched_iff ?_, fun hnewer =>
    ⟨fun _ => trivial, fun htold => ?_⟩⟩⟩, fun hover => untouched_iff ?_⟩,
    fun hnone => untouched_iff ?_⟩⟩, fun hrole => untouched_iff ?_⟩
  · rintro ⟨_, h, -⟩
    exact hphase h.phase
  · rintro ⟨_, h, -⟩
    exact (hfile hf h).newer hold
  · have hresumes : Resumes s id state f :=
      ⟨hrole, not_not.1 hphase, hf, hle, by simpa using hleft, hnewer, htold⟩
    have hspoiled : (∃ f, Resumes s id state f ∧ ¬ Stalls s id state f) ↔
        ¬ Stalls s id state f := by
      constructor
      · rintro ⟨g, hg, h⟩
        obtain rfl := Option.some.inj (hf.symm.trans hg.file)
        exact h
      · exact fun h => ⟨f, hresumes, h⟩
    rw [hspoiled, not_not]
    exact startResumed_atomic (hw hrole) hf
  · rintro ⟨_, h, -⟩
    exact hover (hfile hf h).within
  · rintro ⟨_, h, -⟩
    cases hnone.symm.trans h.file
  · rintro ⟨_, h, -⟩
    exact hrole h.role

/-- `handle_file_complete_ack` takes the file as complete. -/
structure Acks (s : TransferSession) (id : FileId) (finalSize : Nat) (contentHash : Digest) :
    Prop where
  role : s.role = .offerer
  file : ∃ f, s.files[id]? = some f ∧ f.complete = false ∧ finalSize = f.entry.size ∧
    contentHash = f.entry.contentHash ∧ f.sendOffset = f.entry.size - f.baseOffset ∧
    (f.finQueued = true ∨ f.entry.size - f.baseOffset = 0)

theorem handleFileCompleteAck_atomic (hw : s.role = .offerer → PendingKnown s) (id : FileId)
    (finalSize : Nat) (contentHash : Digest) :
    AtomicUnless (Acks s id finalSize contentHash)
      (handleFileCompleteAck id finalSize contentHash) s := by
  have hfile : ∀ {f}, s.files[id]? = some f → Acks s id finalSize contentHash →
      f.complete = false ∧ finalSize = f.entry.size ∧ contentHash = f.entry.contentHash ∧
        f.sendOffset = f.entry.size - f.baseOffset ∧
        (f.finQueued = true ∨ f.entry.size - f.baseOffset = 0) := by
    intro f hf h
    obtain ⟨f', hf', h⟩ := h.file
    obtain rfl := Option.some.inj (hf.symm.trans hf')
    exact h
  simp only [AtomicUnless, handleFileCompleteAck, ends_steps, ends_requireRole, ends_file,
    ends_markComplete]
  refine ⟨fun hrole => ⟨fun f hf => ⟨fun _ => trivial, fun hc => ⟨fun hbad => untouched_iff ?_,
    fun hsame => ⟨fun hbad => untouched_iff ?_, fun hall => ?_⟩⟩⟩,
    fun hnone => untouched_iff ?_⟩, fun hrole => untouched_iff fun h => hrole h.role⟩
  · exact fun h => hbad.elim (· (hfile hf h).2.1) (· (hfile hf h).2.2.1)
  · intro h
    obtain ⟨_, _, _, hsent, hfin⟩ := hfile hf h
    rcases hbad with hbad | ⟨hbad, hleft⟩
    · exact hbad hsent
    · exact hfin.elim (fun h => by cases hbad.symm.trans h) hleft
  · have hknown : PendingKnown { s with
        files := s.files.insert id { f with complete := true, activeStreamId := none }
        completedFiles := s.completedFiles + 1
        completedSize := s.completedSize + finalSize } :=
      fun id' h => isSome_insert (hw hrole id' h)
    simp only [not_or, not_not, not_and_or] at hsame hall
    refine (startPendingFiles_atomic hknown).mono (fun events s₁ _ => ?_) fun e s₁ h => ?_
    · simp only [ends_get, ends_changeState]
      exact ⟨fun _ => trivial, fun _ => trivial⟩
    · refine iff_of_false (fun halike => ?_) (not_not.2 ⟨hrole, f, hf, by simpa using hc, hsame.1,
        hsame.2, hall.1, hall.2.imp (by simp) (·)⟩)
      rcases h with ⟨_, _, _, rfl⟩ | ⟨_, hlt⟩
      · have hcount : s.completedFiles + 1 = s.completedFiles := halike.of_count
        omega
      · have hlt : s.nextStreamId < s₁.nextStreamId := hlt
        have hnext := halike.of_stream
        omega
  · intro h
    obtain ⟨f, hf, _⟩ := h.file
    cases hnone.symm.trans hf

/-! ## The other handlers -/

theorem handleManifestEnd_atomic (digest : Digest) :
    AtomicUnless (s.role = .accepter ∧ s.assembly.isSome) (handleManifestEnd digest) s := by
  simp only [AtomicUnless, handleManifestEnd, ends_bind, ends_get, ends_requireRole]
  refine ⟨fun hrole => ?_, fun hrole => untouched_iff fun h => hrole h.1⟩
  cases ha : s.assembly with
  | none =>
      simp only [ends_ite, ends_pure, ends_throw]
      exact ⟨fun _ => trivial, fun _ => untouched_iff fun h => by cases h.2⟩
  | some assembly =>
      simp only [ends_bind, ends_set]
      cases assembly.finish digest with
      | error e =>
          refine iff_of_false (fun h => ?_) (not_not.2 ⟨hrole, rfl⟩)
          cases ha.symm.trans h.of_assembly.symm
      | ok m =>
          simp only [ends_bind, ends_modify, ends_changeState]

/-- A session that can be reconnected at all is reconnected. -/
theorem reconnect_atomic (ho : s.role = .offerer → ∃ id m, Offering id m s) :
    Ends reconnect s (fun _ _ => True) fun _ s' => s' = s := by
  simp only [reconnect, ends_steps, ends_queueTransfers, ends_calls]
  refine ⟨fun _ => trivial, fun _ => ⟨fun _ => trivial, fun _ => ⟨fun hrole => ?_,
    fun _ => trivial⟩⟩⟩
  obtain ⟨id, m, hoff⟩ := ho hrole
  simp only [reconnectOfferer, ends_bind, ends_get]
  split
  · next hnone => cases hoff.manifest.symm.trans hnone
  · next manifest hsome =>
      obtain rfl := Option.some.inj (hoff.manifest.symm.trans hsome)
      simp only [ends_bind, ends_queueTransfers]
      have hrestarted : Offering id m { s with
          data := []
          pendingResumes := ∅
          files := s.files.map fun _ (f : FileRuntime) => f.restart s.role } :=
        (Edits.step (.step (.single (.restart : Edit .reconnect s s _))
          (.pending ∅ fun _ h => absurd h Std.TreeMap.not_mem_emptyc))
          (.data [] fun _ h => absurd h List.not_mem_nil)).offering hoff
      have hqueued : ∀ c, Tracks m { s with
          data := []
          pendingResumes := ∅
          files := s.files.map fun _ (f : FileRuntime) => f.restart s.role
          controls := c } := fun _ => hrestarted.tracks.congr rfl rfl rfl rfl
      exact (resumeQueries_asks id m.entries (fun _ he => he) (hqueued _)).mono
        (fun _ _ _ => trivial) fun _ _ h => h.elim

/-- The handlers that check everything before they write. -/
theorem handleControl_checks (ho : s.role = .offerer → ∃ id m, Offering id m s)
    {message : TransferControl} (hend : ∀ digest, message ≠ .manifestEnd digest)
    (hresume : ∀ id durableOffset checkpointId stateHash,
      message ≠ .resumeState id durableOffset checkpointId stateHash)
    (hcomplete : ∀ id finalSize contentHash, message ≠ .fileComplete id finalSize contentHash) :
    Ends (handleControl message) s (fun _ _ => True) fun _ s' => s' = s := by
  cases message with
  | manifestEnd digest => exact absurd rfl (hend digest)
  | resumeState id d c h => exact absurd rfl (hresume id d c h)
  | fileComplete id n h => exact absurd rfl (hcomplete id n h)
  | sessionHello => simp [handleControl, handleSessionHello]
  | manifestBegin => simp [handleControl, handleManifestBegin]
  | manifestItem id path size hash metadata =>
      simp only [handleControl]
      split
      · exact rfl
      · simp only [handleManifestItem, ends_bind, ends_requireRole, ends_get]
        refine ⟨fun _ => ?_, fun _ => trivial⟩
        split
        · simp
        · simp only [ends_steps]
          refine ⟨fun _ => trivial, fun _ => ?_⟩
          split
          · simp
          · simp
  | receiveDecision accepted =>
      simp only [handleControl, handleReceiveDecision, ends_steps, ends_calls]
      refine ⟨fun hrole => ⟨fun _ => ⟨fun _ => trivial, fun _ => trivial⟩, fun _ =>
        ⟨fun _ => trivial, fun _ => ?_⟩⟩, fun _ => trivial⟩
      obtain ⟨_, m, hoff⟩ := ho hrole
      rw [hoff.manifest]
      simp
  | resumeQuery => simp [handleControl, handleResumeQuery, repeatComplete]
  | fileBegin =>
      simp only [handleControl, handleFileBegin, repeatComplete, ends_steps, ends_calls,
        ends_queueTransfers]
      refine ⟨fun _ => ⟨fun f _ => ⟨fun _ => trivial, fun _ => ⟨fun _ => ⟨fun _ => trivial,
        fun _ => ?_⟩, fun _ => trivial⟩⟩, fun _ => trivial⟩, fun _ => trivial⟩
      split
      · simp
      · simp
  | checkpoint =>
      simp only [handleControl, handleRemoteCheckpoint, ends_steps, ends_calls]
      refine ⟨fun _ => ⟨fun f _ => ⟨fun _ => ⟨fun _ => trivial, fun _ => trivial⟩, fun _ => ?_⟩,
        fun _ => trivial⟩, fun _ => trivial⟩
      split
      · simp
      · simp
  | fileRejected => simp [handleControl, handleFileRejected]
  | transferComplete => simp [handleControl, handleTransferComplete]
  | transferError scope code retryable =>
      simp only [handleControl, handleTransferError]
      split
      · exact reconnect_atomic ho
      · simp

/-! ## Every message -/

/-- The refusals that leave a trace. -/
def Spoils (s : TransferSession) : TransferControl → Prop
  | .manifestEnd _ => s.role = .accepter ∧ s.assembly.isSome
  | .resumeState id durableOffset checkpointId stateHash =>
      ∃ f, Resumes s id ⟨durableOffset, checkpointId, stateHash⟩ f ∧
        ¬ Stalls s id ⟨durableOffset, checkpointId, stateHash⟩ f
  | .fileComplete id finalSize contentHash => Acks s id finalSize contentHash
  | _ => False

theorem handleControl_atomic (ho : s.role = .offerer → ∃ id m, Offering id m s)
    (hw : s.role = .offerer → PendingKnown s) (message : TransferControl) :
    AtomicUnless (Spoils s message) (handleControl message) s := by
  have hchecks : (∀ digest, message ≠ .manifestEnd digest) →
      (∀ id durableOffset checkpointId stateHash,
        message ≠ .resumeState id durableOffset checkpointId stateHash) →
      (∀ id finalSize contentHash, message ≠ .fileComplete id finalSize contentHash) →
      ¬ Spoils s message → AtomicUnless (Spoils s message) (handleControl message) s :=
    fun hend hresume hcomplete hnot =>
      (handleControl_checks ho hend hresume hcomplete).mono (fun _ _ _ => trivial)
        fun _ s' h => by
          subst h
          exact untouched_iff hnot
  cases message with
  | manifestEnd digest => exact handleManifestEnd_atomic digest
  | resumeState id d c h => exact handleResumeState_atomic hw id ⟨d, c, h⟩
  | fileComplete id n h => exact handleFileCompleteAck_atomic hw id n h
  | _ => exact hchecks (by simp) (by simp) (by simp) id

/-- **Refused messages.** Over every run of either end, a control message that is
refused leaves the session as it was exactly if it is not the end of a manifest
that is coming in, and not a resume state or a completion that an offerer takes
and then has no stream id for a file to start. -/
theorem refused_control_iff {id : TransferId} {config : SessionConfig}
    (hs : (∃ m, newOfferer id m config = .ok s) ∨ newAccepter id config = .ok s) (ops : List Op)
    {message : TransferControl} {e : CoreError}
    (hrun : handleControl message (final s ops) = .error e s') :
    Alike (final s ops) s' ↔ ¬ Spoils (final s ops) message := by
  have hgrounded := grounded_run hs ops
  refine (handleControl_atomic (fun hrole => ?_) (fun hrole => (hgrounded.offered hrole).2)
    message).error hrun
  rcases hs with ⟨m, hs⟩ | hs
  · exact ⟨id, m, offering_run hs ops⟩
  · exact absurd ((accepting_run hs ops).role.symm.trans hrole) (by decide)

theorem refused_control_iff_early : newAccepter sampleId {} = .ok sampleAccepter ∧ ∃ e s',
    handleControl (.manifestBegin 1 3 sampleDigest) (final sampleAccepter [.start]) =
      .error e s' ∧ Alike (final sampleAccepter [.start]) s' := by
  have hnew : newAccepter sampleId {} = .ok sampleAccepter := rfl
  refine ⟨hnew, ?_⟩
  cases hrun : handleControl (.manifestBegin 1 3 sampleDigest) (final sampleAccepter [.start]) with
  | ok events s' =>
      have hfails : answer (handleControl (.manifestBegin 1 3 sampleDigest))
          (final sampleAccepter [.start]) = none := by decide +kernel
      rw [answer, hrun] at hfails
      cases hfails
  | error e s' => exact ⟨e, s', rfl, (refused_control_iff (.inr hnew) [.start] hrun).2 id⟩

/-- An accepter that has received the manifest but for its end. -/
def sampleAssembling : TransferSession := final sampleAccepter (sampleOffer.take 4)

/-- **A refused end that stays.** A `ManifestEnd` with a wrong digest is refused,
and with it goes the assembly: the right one is then refused as well. -/
theorem wrong_end_is_kept :
    failure (handleControl (.manifestEnd ⟨.sha256, .replicate 32 6⟩)) sampleAssembling =
      some .manifestMismatch ∧
    ¬ Alike sampleAssembling
      (after (handleControl (.manifestEnd ⟨.sha256, .replicate 32 6⟩)) sampleAssembling) ∧
    (answer (handleControl (.manifestEnd sampleDigest)) sampleAssembling).isSome ∧
    failure (handleControl (.manifestEnd sampleDigest))
      (after (handleControl (.manifestEnd ⟨.sha256, .replicate 32 6⟩)) sampleAssembling) =
      some .manifestNotReady := by
  refine ⟨by decide +kernel, fun h => ?_, by decide +kernel, by decide +kernel⟩
  have hgone : sampleAssembling.assembly ≠ (after (handleControl
      (.manifestEnd ⟨.sha256, .replicate 32 6⟩)) sampleAssembling).assembly := by decide +kernel
  exact hgone h.of_assembly.symm

end DartUdp.Session
