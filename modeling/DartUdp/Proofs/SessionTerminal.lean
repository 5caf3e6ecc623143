import DartUdp.Proofs.SessionArith

/-!
# The end of a session

A session that is completed, rejected or cancelled has come to its end, and
`reconnect` refuses it. The handlers of the peer's messages look at the state
one by one or not at all. Here is which of them look, what the others ask for
before they change the state, and that in every run of messages none of which
meets such a condition the session stays as it ended.

The module is for `terminal_iff_unturned`. `StaysUnless` says of a handler that it
leaves the state alone exactly if its condition does not hold, and `perform_stays`
goes through the messages with it, in a session that is `Grounded`.
-/

namespace DartUdp.Session

open DartUdp.Lib DartUdp.Transfer

variable {op : Op} {t s s' : TransferSession} {m : Manifest}

/-- The states `reconnect` refuses to leave. -/
def SessionState.terminal : SessionState → Bool
  | .completed | .rejected | .cancelled => true
  | _ => false

/-- A call made for a message of the peer. -/
def Op.fromPeer : Op → Bool
  | .handleControl _ | .handleControlWithFlags .. | .handlePairing _ | .handleData _
  | .handleDataWithStorage .. | .respondToResumeQueryWithStorage .. => true
  | _ => false

/-! ## What turns an ended session -/

/-- There are stream ids left for all that is pending. -/
def TransferSession.idsSuffice (s : TransferSession) : Prop :=
  s.pendingResumes.size = 0 ∨ s.nextStreamId + s.pendingResumes.size ≤ u64Max

/-- `handle_file_complete_ack` takes the last file as complete. -/
structure Finishes (s : TransferSession) (id : FileId) (finalSize : Nat) (contentHash : Digest) :
    Prop where
  role : s.role = .offerer
  file : ∃ f, s.files[id]? = some f ∧ f.complete = false ∧ finalSize = f.entry.size ∧
    contentHash = f.entry.contentHash ∧ f.sendOffset = f.entry.size - f.baseOffset ∧
    (f.finQueued = true ∨ f.entry.size - f.baseOffset = 0)
  last : s.completedFiles + 1 = s.files.size
  ids : s.idsSuffice

/-- `handle_data` takes the chunk as the next one of its file. -/
structure Takes (s : TransferSession) (chunk : DataChunk) : Prop where
  role : s.role = .accepter
  file : ∃ f, s.files[chunk.fileId]? = some f ∧ f.activeStreamId = some chunk.streamId ∧
    chunk.offset = f.receivedOffset - f.baseOffset ∧
    chunk.offset + chunk.bytes.length ≤ f.entry.size - f.baseOffset ∧
    (chunk.fin = true → f.baseOffset + (chunk.offset + chunk.bytes.length) = f.entry.size)
  range : chunk.offset + chunk.bytes.length ≤ u64Max

/-- The control messages that turn an ended session. -/
def TurnsControl (s : TransferSession) : TransferControl → Prop
  | .manifestEnd digest =>
      s.role = .accepter ∧ ∃ a m, s.assembly = some a ∧ a.finish digest = .ok m
  | .fileBegin id _ baseOffset remainingSize contentHash =>
      Begins s id baseOffset remainingSize contentHash
  | .fileComplete id finalSize contentHash => Finishes s id finalSize contentHash
  | .fileRejected id _ => s.role = .offerer ∧ (s.files[id]?).isSome
  | .transferError _ _ retryable _ => retryable = false
  | _ => False

/-- The messages of the peer that turn an ended session. -/
def Turns (s : TransferSession) : Op → Prop
  | .handleControl message => TurnsControl s message
  | .handleControlWithFlags message errorFlag => errorFlag = false ∧ TurnsControl s message
  | .handlePairing (.relayClosed id reason) =>
      s.transferId = id ∧ (∃ relayId, s.path = .relay relayId) ∧ reason = .failed
  | .handlePairing (.cancel id _) => s.transferId = id ∧ s.state ≠ .cancelled
  | .handleDataWithStorage chunk (.error _) => Takes s chunk
  | _ => False

/-- Whichever way `m` ends, it has changed the state exactly if `C` held. -/
abbrev StaysUnless (C : Prop) {α : Type} (m : SessionM α) (s : TransferSession) : Prop :=
  Ends m s (fun _ s' => s'.state = s.state ↔ ¬ C) fun _ s' => s'.state = s.state ↔ ¬ C

theorem turned_iff {st st' : SessionState} {C : Prop} (h : C) (hne : st' ≠ st) :
    st' = st ↔ ¬ C := iff_of_false hne (not_not.2 h)

/-! ## What is pending -/

/-- What is pending at an offerer are files of its manifest. -/
def PendingKnown (s : TransferSession) : Prop := ∀ id ∈ s.pendingResumes, (s.files[id]?).isSome

theorem isSome_insert {files : Std.TreeMap FileId FileRuntime} {id id' : FileId} {f : FileRuntime}
    (h : (files[id']?).isSome) : ((files.insert id f)[id']?).isSome := by
  rw [Std.TreeMap.getElem?_insert]
  split
  · rfl
  · exact h

theorem Edit.pendingKnown (h : Edit op t s s') (hrole : s.role = .offerer) (hw : PendingKnown s) :
    PendingKnown s' := by
  cases h with
  | pending p hp => exact fun id hid => (hp id hid).elim (hw id) fun h => h
  | install _ ha => exact absurd (hrole.symm.trans ha) nofun
  | write | complete => exact fun id hid => isSome_insert (hw id hid)
  | restart =>
      intro id hid
      show ((s.files.map fun _ (f : FileRuntime) => f.restart s.role)[id]?).isSome
      rw [Std.TreeMap.getElem?_map, Option.isSome_map]
      exact hw id hid
  | _ => exact hw

theorem Edits.pendingKnown (h : Edits op t s s') (hrole : s.role = .offerer)
    (hw : PendingKnown s) : PendingKnown s' := by
  induction h with
  | refl => exact hw
  | tail hfirst hstep ih => exact hstep.pendingKnown ((Edits.role_eq hfirst).trans hrole) ih

/-- What the handlers rely on to finish. -/
structure Grounded (s : TransferSession) : Prop where
  offered : s.role = .offerer → (∃ m, Tracks m s) ∧ PendingKnown s
  parallel : 0 < s.config.maxParallelFiles

theorem Edit.config_eq (h : Edit op t s s') : s'.config = s.config := by
  cases h <;> rfl

theorem Edits.config_eq (h : Edits op t s s') : s'.config = s.config := by
  induction h with
  | refl => rfl
  | tail _ hstep ih => exact hstep.config_eq.trans ih

theorem SessionConfig.parallel {config : SessionConfig} (h : config.validate = true) :
    0 < config.maxParallelFiles := by
  simp only [SessionConfig.validate, Bool.not_eq_true', Bool.or_eq_false_iff, beq_eq_false_iff_ne]
    at h
  omega

theorem config_run (ops : List Op) : (final s ops).config = s.config :=
  final_keeps (I := fun t => t.config = s.config) ops rfl
    fun _ op h => (Edits.config_eq (perform_does op).after).trans h

theorem grounded_run {id : TransferId} {config : SessionConfig}
    (hs : (∃ m, newOfferer id m config = .ok s) ∨ newAccepter id config = .ok s)
    (ops : List Op) : Grounded (final s ops) := by
  rcases hs with ⟨m, hs⟩ | hs
  · have hoffering := offering_run hs ops
    have hfirst := offering_run hs []
    obtain ⟨hconfig, rfl⟩ := newOfferer_ok hs
    refine ⟨fun _ => ⟨⟨m, hoffering.tracks⟩, ?_⟩, ?_⟩
    · exact (final_keeps (I := fun t => t.role = .offerer ∧ PendingKnown t) ops
        ⟨rfl, fun id h => absurd h Std.TreeMap.not_mem_emptyc⟩ fun _ op h =>
          have hdoes : Edits op _ _ _ := (perform_does op).after
          ⟨hdoes.role_eq.trans h.1, hdoes.pendingKnown h.1 h.2⟩).2
    · rw [config_run]
      exact SessionConfig.parallel hconfig
  · have haccepting := accepting_run hs ops
    obtain ⟨hconfig, rfl⟩ := newAccepter_ok hs
    refine ⟨fun h => absurd (haccepting.role.symm.trans h) nofun, ?_⟩
    rw [config_run]
    exact SessionConfig.parallel hconfig

/-! ## The last file -/

theorem size_insert_of_get {files : Std.TreeMap FileId FileRuntime} {id : FileId}
    {f g : FileRuntime} (hf : files[id]? = some f) : (files.insert id g).size = files.size := by
  rw [Std.TreeMap.size_insert, if_pos]
  exact Std.TreeMap.mem_iff_isSome_getElem?.2 (by rw [hf]; rfl)

/-- What starting files leaves alone. -/
structure Steady (s s' : TransferSession) : Prop where
  state : s'.state = s.state
  count : s'.completedFiles = s.completedFiles
  size : s'.files.size = s.files.size

instance : IsTrans TransferSession Steady where
  trans _ _ _ h h' :=
    ⟨h'.state.trans h.state, h'.count.trans h.count, h'.size.trans h.size⟩

instance : Std.Refl Steady where
  refl _ := ⟨rfl, rfl, rfl⟩

theorem startFile_steady (id : FileId) : Within Steady (startFile id) s := by
  simp only [Within, startFile, allocateStreamId, ends_bind, ends_get]
  split
  · simp only [ends_steps, ends_calls]
    refine ⟨fun f hf => ⟨fun _ => ⟨rfl, rfl, rfl⟩, fun _ => ⟨rfl, rfl, ?_⟩⟩,
      fun _ => ⟨rfl, rfl, rfl⟩⟩
    show (s.files.insert id _).size = _
    exact size_insert_of_get hf
  · exact ⟨rfl, rfl, rfl⟩

theorem startPendingLoop_steady (fuel : Nat) : Within Steady (startPendingLoop fuel) s := by
  induction fuel generalizing s with
  | zero => exact ⟨rfl, rfl, rfl⟩
  | succ fuel ih =>
      unfold startPendingLoop
      refine Within.get_bind ?_
      refine Within.ite (fun _ => .pure _) fun _ => ?_
      cases s.pendingResumes.keys.head? with
      | none => exact .pure _
      | some id =>
          refine Within.bind (m := set _) ⟨rfl, rfl, rfl⟩ fun _ s₁ => ?_
          refine Within.bind (startFile_steady id) fun events s₂ => ?_
          exact Within.bind ih fun _ _ => .pure _

/-- A file that is complete already takes an id and nothing else. -/
theorem startFile_complete {id : FileId} {f : FileRuntime} (hf : s.files[id]? = some f)
    (hc : f.complete = true) :
    Ends (startFile id) s
      (fun _ s' => s.nextStreamId + 1 ≤ u64Max ∧
        s' = { s with nextStreamId := s.nextStreamId + 1 })
      fun _ s' => u64Max < s.nextStreamId + 1 ∧ s' = s := by
  simp only [startFile, allocateStreamId, ends_bind, ends_get]
  cases hadd : checkedAdd s.nextStreamId 1 with
  | some next =>
      obtain ⟨hle, rfl⟩ := checkedAdd_eq_some.1 hadd
      simp only [ends_steps, ends_file]
      refine ⟨fun f' hf' => ⟨fun _ => ⟨hle, trivial⟩, fun h => ?_⟩, fun hnone => ?_⟩
      · obtain rfl := Option.some.inj (hf.symm.trans hf')
        exact absurd (.inr hc) h
      · rw [hf] at hnone
        cases hnone
  | none =>
      refine ⟨?_, rfl⟩
      unfold checkedAdd at hadd
      split at hadd
      · cases hadd
      · omega

/-- Every file is complete and has no stream. -/
def AllDone (s : TransferSession) : Prop :=
  ∀ (id : FileId) (f : FileRuntime), s.files[id]? = some f →
    f.complete = true ∧ f.activeStreamId = none

theorem Tracks.all_done (h : Tracks m s) (hall : s.completedFiles = s.files.size) : AllDone s := by
  intro id f hf
  obtain ⟨hmem, hid, hok⟩ := h.get hf
  have hc := h.all_iff.1 hall _ hmem
  rw [hid, completeAt_eq hf] at hc
  exact ⟨hc, hok.idle hc⟩

theorem AllDone.inactive (h : AllDone s) : s.activeFileCount = 0 :=
  activeFileCount_idle fun id f hf => (h id f hf).2

/-- When all is done what is pending is only taken off the list: the loop gets
through if there is a stream id for each. -/
theorem startPendingLoop_done {fuel : Nat} (hdone : AllDone s) (hw : PendingKnown s)
    (hparallel : 0 < s.config.maxParallelFiles) (hfuel : s.pendingResumes.size ≤ fuel) :
    Ends (startPendingLoop fuel) s (fun _ s' => s.idsSuffice ∧ AllDone s')
      fun _ _ => ¬ s.idsSuffice := by
  induction fuel generalizing s with
  | zero => exact ⟨.inl (Nat.le_zero.1 hfuel), hdone⟩
  | succ fuel ih =>
      unfold startPendingLoop
      rw [ends_bind, ends_get, ends_ite]
      refine ⟨fun h => absurd (by rw [hdone.inactive]; exact hparallel) h, fun _ => ?_⟩
      cases hid : s.pendingResumes.keys.head? with
      | none =>
          refine ⟨.inl ?_, hdone⟩
          rw [List.head?_eq_none_iff, ← List.length_eq_zero_iff, Std.TreeMap.length_keys] at hid
          exact hid
      | some id =>
          have hmem : id ∈ s.pendingResumes := Std.TreeMap.mem_keys.1 (List.mem_of_mem_head? hid)
          have hsize := Std.TreeMap.size_erase (t := s.pendingResumes) (k := id)
          rw [if_pos (Std.TreeMap.contains_iff_mem.2 hmem)] at hsize
          have hpos : 0 < s.pendingResumes.size := by
            rw [← Std.TreeMap.length_keys]
            exact List.length_pos_of_mem (List.mem_of_mem_head? hid)
          obtain ⟨f, hf⟩ := Option.isSome_iff_exists.1 (hw id hmem)
          rw [ends_bind, ends_set, ends_bind]
          refine (startFile_complete (s := { s with
            pendingResumes := s.pendingResumes.erase id }) hf (hdone id f hf).1).mono ?_ ?_
          · rintro events s₁ ⟨hle, rfl⟩
            rw [ends_bind]
            refine (ih (s := { s with
              pendingResumes := s.pendingResumes.erase id
              nextStreamId := s.nextStreamId + 1 }) hdone
              (fun id' h => hw id' (Std.TreeMap.mem_of_mem_erase h)) hparallel
              (by show (s.pendingResumes.erase id).size ≤ fuel; omega)).mono ?_ ?_
            · rintro events' s₂ ⟨hids, hdone'⟩
              refine ⟨.inr ?_, hdone'⟩
              have hids' : (s.pendingResumes.erase id).size = 0 ∨
                s.nextStreamId + 1 + (s.pendingResumes.erase id).size ≤ u64Max := hids
              have hle' : s.nextStreamId + 1 ≤ u64Max := hle
              omega
            · rintro e s₂ hids (h | h)
              · omega
              · refine hids (.inr ?_)
                show s.nextStreamId + 1 + (s.pendingResumes.erase id).size ≤ u64Max
                omega
          · rintro e s₁ ⟨hlt, rfl⟩ (h | h)
            · omega
            · have hlt' : u64Max < s.nextStreamId + 1 := hlt
              omega

/-- Starting files never moves an ended session. -/
theorem startPendingFiles_steady (hterm : s.state.terminal = true) :
    Within Steady startPendingFiles s := by
  unfold startPendingFiles
  refine Within.get_bind ?_
  refine Within.bind_of (P := fun s' => s'.state = s.state) ?_ fun events s₁ _ hstate => ?_
  · exact Ends.mono (startPendingLoop_steady _) (fun _ _ h => ⟨h, h.state⟩) fun _ _ h => h
  refine Within.get_bind ?_
  refine Within.ite (fun h => ?_) fun _ => .pure _
  rw [← hstate, h.2] at hterm
  cases hterm

theorem startPendingFiles_done (hdone : AllDone s) (hw : PendingKnown s)
    (hparallel : 0 < s.config.maxParallelFiles) :
    Ends startPendingFiles s (fun _ _ => s.idsSuffice) fun _ _ => ¬ s.idsSuffice := by
  unfold startPendingFiles
  rw [ends_bind, ends_get, ends_bind]
  refine (startPendingLoop_done hdone hw hparallel (Nat.le_refl _)).mono ?_ fun _ _ h => h
  rintro events s₁ ⟨hids, hdone'⟩
  rw [ends_bind, ends_get, ends_ite, hdone'.inactive]
  exact ⟨fun h => absurd h.1 (Nat.lt_irrefl _), fun _ => hids⟩

theorem handleFileCompleteAck_stays (hg : Grounded s) (hterm : s.state.terminal = true)
    (id : FileId) (finalSize : Nat) (contentHash : Digest) :
    StaysUnless (Finishes s id finalSize contentHash)
      (handleFileCompleteAck id finalSize contentHash) s := by
  simp only [StaysUnless, handleFileCompleteAck, ends_steps, ends_requireRole, ends_file,
    ends_markComplete]
  refine ⟨fun hrole => ⟨fun f hf => ⟨fun hc => ?_, fun hc => ⟨fun hbad => ?_, fun hsame =>
    ⟨fun hbad => ?_, fun hall => ?_⟩⟩⟩, fun hnone => ?_⟩, fun hrole => ?_⟩
  · refine iff_of_true trivial fun h => ?_
    obtain ⟨f', hf', hc', _⟩ := h.file
    obtain rfl := Option.some.inj (hf.symm.trans hf')
    exact absurd hc (by rw [hc']; exact Bool.false_ne_true)
  · refine iff_of_true trivial fun h => ?_
    obtain ⟨f', hf', _, hsize, hhash, _⟩ := h.file
    obtain rfl := Option.some.inj (hf.symm.trans hf')
    exact hbad.elim (· hsize) (· hhash)
  · refine iff_of_true trivial fun h => ?_
    obtain ⟨f', hf', _, _, _, hsent, hfin⟩ := h.file
    obtain rfl := Option.some.inj (hf.symm.trans hf')
    rcases hbad with hbad | ⟨hbad, hleft⟩
    · exact hbad hsent
    · exact hfin.elim (fun h => by cases hbad.symm.trans h) hleft
  · simp only [not_or, not_not, not_and_or] at hsame hall
    obtain ⟨rfl, rfl⟩ := hsame
    have hcomplete := @Edit.complete
      (.handleControl (.fileComplete id f.entry.size f.entry.contentHash)) s s id f hf
      (by simpa using hc) (.inl ⟨hrole, rfl⟩)
    obtain ⟨⟨m, ht⟩, hw⟩ := hg.offered hrole
    have ht' := hcomplete.tracks ht fun ha => by cases hrole.symm.trans ha
    have hw' := hcomplete.pendingKnown hrole hw
    have hsize : (s.files.insert id
        { f with complete := true, activeStreamId := none }).size = s.files.size :=
      size_insert_of_get hf
    have hfinishes : s.completedFiles + 1 = s.files.size → s.idsSuffice →
        Finishes s id f.entry.size f.entry.contentHash := fun hlast hids =>
      ⟨hrole, ⟨f, hf, by simpa using hc, rfl, rfl, hall.1, hall.2.imp (by simp) (·)⟩, hlast, hids⟩
    by_cases hlast : s.completedFiles + 1 = s.files.size
    · -- the last file: the ids for what is pending decide
      have hdone := ht'.all_done (hlast.trans hsize.symm)
      have hsteady := startPendingFiles_steady (s := { s with
        files := s.files.insert id { f with complete := true, activeStreamId := none }
        completedFiles := s.completedFiles + 1
        completedSize := s.completedSize + f.entry.size }) hterm
      refine Ends.mono (Ends.and hsteady (startPendingFiles_done hdone hw' hg.parallel)) ?_ ?_
      · rintro events s₁ ⟨h, hids⟩
        simp only [ends_changeState]
        refine ⟨fun _ => ?_, fun hne => ?_⟩
        · refine turned_iff (hfinishes hlast hids) fun heq => ?_
          rw [← heq] at hterm
          cases hterm
        · exact absurd (h.count.trans (hlast.trans (hsize.symm.trans h.size.symm))) hne
      · rintro e s₁ ⟨h, hids⟩
        exact iff_of_true h.state fun hf => hids hf.ids
    · have hnot : ¬ Finishes s id f.entry.size f.entry.contentHash := fun h => hlast h.last
      refine Ends.mono (startPendingFiles_steady (s := { s with
        files := s.files.insert id { f with complete := true, activeStreamId := none }
        completedFiles := s.completedFiles + 1
        completedSize := s.completedSize + f.entry.size }) hterm) ?_ ?_
      · intro events s₁ h
        simp only [ends_changeState]
        refine ⟨fun heq => ?_, fun _ => iff_of_true h.state hnot⟩
        exact absurd ((h.count.symm.trans heq).trans (h.size.trans hsize)) hlast
      · intro e s₁ h
        exact iff_of_true h.state hnot
  · refine iff_of_true trivial fun h => ?_
    obtain ⟨f', hf', _⟩ := h.file
    cases hnone.symm.trans hf'
  · exact iff_of_true trivial fun h => hrole h.role

/-! ## The handlers that look at the state -/

/-- Whichever way `m` ends, the state is the one it started in. -/
abbrev Stays {α : Type} (m : SessionM α) (s : TransferSession) : Prop :=
  Ends m s (fun _ s' => s'.state = s.state) fun _ s' => s'.state = s.state

theorem Stays.unless {C : Prop} {α : Type} {m : SessionM α} (h : Stays m s) (hC : ¬ C) :
    StaysUnless C m s :=
  Ends.mono h (fun _ _ h => iff_of_true h hC) fun _ _ h => iff_of_true h hC

theorem handleSessionHello_stays (hterm : s.state.terminal = true) (id : TransferId)
    (version : Nat) (suite : CryptoSuite) (digest : Digest) :
    Stays (handleSessionHello id version suite digest) s := by
  simp only [Stays, handleSessionHello, ends_steps, ends_calls]
  refine ⟨fun _ => ⟨fun _ => ⟨fun _ => trivial, fun _ => ⟨fun _ => trivial, fun hst => ?_⟩⟩,
    fun _ => trivial⟩, fun _ => trivial⟩
  rw [not_not.1 hst] at hterm
  cases hterm

theorem handleManifestBegin_stays (fileCount totalSize : Nat) (digest : Digest) :
    Stays (handleManifestBegin fileCount totalSize digest) s := by
  simp only [Stays, handleManifestBegin, ends_steps, ends_calls]
  exact ⟨fun _ => ⟨fun _ => ⟨fun _ => trivial, fun _ => trivial⟩, fun _ =>
    ⟨fun _ => trivial, fun _ => ⟨fun _ => trivial, fun _ => trivial⟩⟩⟩, fun _ => trivial⟩

theorem handleManifestItem_stays (entry : ManifestEntry) : Stays (handleManifestItem entry) s := by
  simp only [Stays, handleManifestItem, ends_bind, ends_get, ends_requireRole]
  refine ⟨fun _ => ?_, fun _ => trivial⟩
  cases s.assembly with
  | none =>
      simp only [ends_ite, ends_pure, ends_throw]
      exact ⟨fun _ => trivial, fun _ => trivial⟩
  | some assembly =>
      simp only [ends_steps]
      refine ⟨fun _ => trivial, fun _ => ?_⟩
      cases assembly.entries.find? (·.fileId = entry.fileId) with
      | some existing =>
          simp only [ends_ite, ends_pure, ends_throw]
          exact ⟨fun _ => trivial, fun _ => trivial⟩
      | none => exact rfl

theorem handleReceiveDecision_stays (hterm : s.state.terminal = true) (accepted : Bool) :
    Stays (handleReceiveDecision accepted) s := by
  simp only [Stays, handleReceiveDecision, ends_steps, ends_calls]
  refine ⟨fun _ => ⟨fun _ => ⟨fun _ => trivial, fun _ => trivial⟩, fun hst => ?_⟩, fun _ => trivial⟩
  rw [not_not.1 hst] at hterm
  cases hterm

theorem handleResumeQuery_stays (id : FileId) (contentHash : Digest) (size : Nat) :
    Stays (handleResumeQuery id contentHash size) s := by
  simp only [Stays, handleResumeQuery, ends_steps, ends_calls, ends_repeatComplete]
  simp

theorem handleResumeState_stays (hterm : s.state.terminal = true) (id : FileId)
    (state : DurableState) : Stays (handleResumeState id state) s := by
  simp only [Stays, handleResumeState, ends_steps, ends_calls]
  refine ⟨fun _ => ⟨fun _ => trivial, fun hst => ?_⟩, fun _ => trivial⟩
  rcases not_not.1 hst with hst | hst | hst
  · rw [hst] at hterm
    cases hterm
  · rw [hst] at hterm
    cases hterm
  · rw [hst] at hterm
    cases hterm

theorem handleRemoteCheckpoint_stays (id : FileId) (durableOffset checkpointId : Nat) :
    Stays (handleRemoteCheckpoint id durableOffset checkpointId) s := by
  simp only [Stays, handleRemoteCheckpoint, ends_steps, ends_calls]
  refine ⟨fun _ => ⟨fun f hf => ⟨fun _ => ⟨fun _ => trivial, fun _ => trivial⟩, fun _ => ?_⟩,
    fun _ => trivial⟩, fun _ => trivial⟩
  cases checkedAdd f.baseOffset f.sendOffset with
  | none => exact rfl
  | some maximum =>
      simp only [ends_steps, ends_calls]
      exact ⟨fun _ => ⟨fun _ => trivial, fun _ => trivial⟩, fun _ => trivial⟩

theorem handleTransferComplete_stays (hterm : s.state.terminal = true) (id : TransferId)
    (completedFiles totalSize : Nat) :
    Stays (handleTransferComplete id completedFiles totalSize) s := by
  simp only [Stays, handleTransferComplete, ends_steps, ends_calls]
  refine ⟨fun _ => ⟨fun _ => ⟨fun _ => trivial, fun _ => ⟨fun _ => trivial, fun hst => ?_⟩⟩,
    fun _ => trivial⟩, fun _ => trivial⟩
  simp only [not_or, not_not] at hst
  rw [hst.1] at hterm
  cases hterm

/-- `reconnect` refuses an ended session, or repeats what is complete. -/
theorem reconnect_stays (hterm : s.state.terminal = true) : Stays reconnect s := by
  simp only [Stays, reconnect, ends_steps, ends_queueTransfers, ends_stateError]
  refine ⟨fun _ => trivial, fun _ => ⟨fun _ => trivial, fun hst => ?_⟩⟩
  simp only [not_or] at hst
  cases h : s.state with
  | completed => exact absurd h hst.1
  | rejected => exact absurd h hst.2.1
  | cancelled => exact absurd h hst.2.2
  | _ =>
      rw [h] at hterm
      cases hterm

/-! ## The handlers that do not -/

theorem handleManifestEnd_stays (hterm : s.state.terminal = true) (digest : Digest) :
    StaysUnless (TurnsControl s (.manifestEnd digest)) (handleManifestEnd digest) s := by
  simp only [StaysUnless, handleManifestEnd, ends_bind, ends_get, ends_requireRole]
  refine ⟨fun hrole => ?_, fun hrole => iff_of_true trivial fun h => hrole h.1⟩
  cases ha : s.assembly with
  | none =>
      simp only [ends_ite, ends_pure, ends_throw]
      have hnot : ¬ TurnsControl s (.manifestEnd digest) := by
        rintro ⟨_, a, _, ha', _⟩
        cases ha.symm.trans ha'
      exact ⟨fun _ => iff_of_true trivial hnot, fun _ => iff_of_true trivial hnot⟩
  | some assembly =>
      simp only [ends_bind, ends_set]
      cases hfinish : assembly.finish digest with
      | error e =>
          refine iff_of_true rfl fun h => ?_
          obtain ⟨_, a, m, ha', hm⟩ := h
          obtain rfl := Option.some.inj (ha.symm.trans ha')
          cases hfinish.symm.trans hm
      | ok m =>
          simp only [ends_bind, ends_modify, ends_changeState]
          refine turned_iff ⟨hrole, assembly, m, ha, hfinish⟩ fun heq => ?_
          rw [← heq] at hterm
          cases hterm

theorem handleFileBegin_stays (hterm : s.state.terminal = true) (id : FileId)
    (streamId baseOffset remainingSize : Nat) (contentHash : Digest) :
    StaysUnless (Begins s id baseOffset remainingSize contentHash)
      (handleFileBegin id streamId baseOffset remainingSize contentHash) s := by
  simp only [StaysUnless, handleFileBegin, ends_steps, ends_calls, ends_repeatComplete]
  have hbegins : ∀ {f}, s.files[id]? = some f → Begins s id baseOffset remainingSize contentHash →
      f.complete = false ∧ baseOffset ≤ f.entry.size ∧
    contentHash = f.entry.contentHash ∧ remainingSize = f.entry.size - baseOffset ∧
    f.activeStreamId = none ∧ baseOffset = f.durableOffset := by
    rintro f hf hb
    obtain ⟨f', hf', h⟩ := hb.file
    obtain rfl := Option.some.inj (hf.symm.trans hf')
    exact h
  refine ⟨fun hrole => ⟨fun f hf => ⟨fun hc => ?_, fun hc => ⟨fun hle => ⟨fun hbad => ?_,
    fun hsame => ?_⟩, fun hle => ?_⟩⟩, fun hnone => ?_⟩, fun hrole => ?_⟩
  · exact iff_of_true trivial fun h =>
      absurd hc (by rw [(hbegins hf h).1]; exact Bool.false_ne_true)
  · refine iff_of_true trivial fun h => ?_
    obtain ⟨_, _, hhash, hrem, _⟩ := hbegins hf h
    exact hbad.elim (· hhash) (· hrem)
  · cases hactive : f.activeStreamId with
    | some active =>
        have hnot : ¬ Begins s id baseOffset remainingSize contentHash := fun h => by
          cases hactive.symm.trans (hbegins hf h).2.2.2.2.1
        simp only [ends_ite, ends_pure, ends_throw]
        exact ⟨fun _ => iff_of_true trivial hnot, fun _ => iff_of_true trivial hnot⟩
    | none =>
        simp only [ends_steps, ends_calls]
        refine ⟨fun hfull => ?_, fun hroom => ⟨fun hne => ?_, fun hbase => ?_⟩⟩
        · exact iff_of_true trivial fun h => Nat.not_le.2 h.room hfull
        · exact iff_of_true trivial fun h => hne (hbegins hf h).2.2.2.2.2
        · simp only [not_or, not_not] at hsame hbase
          refine turned_iff ⟨hrole, ⟨f, hf, by simpa using hc, hle, hsame.1, hsame.2, hactive,
            hbase⟩, Nat.lt_of_not_le hroom⟩ fun heq => ?_
          rw [← heq] at hterm
          cases hterm
  · exact iff_of_true trivial fun h => hle (hbegins hf h).2.1
  · refine iff_of_true trivial fun h => ?_
    obtain ⟨f, hf, _⟩ := h.file
    cases hnone.symm.trans hf
  · exact iff_of_true trivial fun h => hrole h.role

theorem handleFileRejected_stays (hterm : s.state.terminal = true) (id : FileId)
    (reason : FileRejectReason) :
    StaysUnless (TurnsControl s (.fileRejected id reason)) (handleFileRejected id reason) s := by
  simp only [StaysUnless, handleFileRejected, ends_bind, ends_calls]
  refine ⟨fun hrole => ⟨fun f hf => ?_, fun hnone => ?_⟩, fun hrole => ?_⟩
  · refine turned_iff ⟨hrole, by rw [hf]; rfl⟩ fun heq => ?_
    rw [← heq] at hterm
    cases hterm
  · exact iff_of_true trivial fun h => absurd h.2 (by rw [hnone]; exact Bool.false_ne_true)
  · exact iff_of_true trivial fun h => hrole h.1

theorem handleTransferError_stays (hterm : s.state.terminal = true) (scope : TransferErrorScope)
    (code : Nat) (retryable : Bool) (message : Bytes) :
    StaysUnless (TurnsControl s (.transferError scope code retryable message))
      (handleTransferError scope code retryable message) s := by
  cases retryable with
  | true => exact (reconnect_stays hterm).unless nofun
  | false =>
      simp only [StaysUnless, handleTransferError, Bool.false_eq_true, if_false, ends_changeState]
      refine turned_iff rfl fun heq => ?_
      rw [← heq] at hterm
      cases hterm

theorem handleControl_stays (hg : Grounded s) (hterm : s.state.terminal = true)
    (message : TransferControl) :
    StaysUnless (TurnsControl s message) (handleControl message) s := by
  cases message with
  | sessionHello => exact (handleSessionHello_stays hterm _ _ _ _).unless not_false
  | manifestBegin => exact (handleManifestBegin_stays _ _ _).unless not_false
  | manifestItem fileId relativePath size contentHash metadata =>
      simp only [handleControl]
      split
      · exact iff_of_true rfl not_false
      · exact (handleManifestItem_stays _).unless not_false
  | manifestEnd digest => exact handleManifestEnd_stays hterm digest
  | receiveDecision => exact (handleReceiveDecision_stays hterm _).unless not_false
  | resumeQuery => exact (handleResumeQuery_stays _ _ _).unless not_false
  | resumeState => exact (handleResumeState_stays hterm _ _).unless not_false
  | fileBegin => exact handleFileBegin_stays hterm _ _ _ _ _
  | checkpoint => exact (handleRemoteCheckpoint_stays _ _ _).unless not_false
  | fileComplete => exact handleFileCompleteAck_stays hg hterm _ _ _
  | fileRejected id reason => exact handleFileRejected_stays hterm id reason
  | transferComplete => exact (handleTransferComplete_stays hterm _ _ _).unless not_false
  | transferError scope code retryable message =>
      exact handleTransferError_stays hterm scope code retryable message

theorem handlePairing_stays (hterm : s.state.terminal = true) (message : PairingControl) :
    StaysUnless (Turns s (.handlePairing message)) (handlePairing message) s := by
  cases message with
  | pathSelected =>
      simp only [StaysUnless, handlePairing, ends_bind, ends_checkTransferId, ends_get]
      refine ⟨fun _ => ?_, fun _ => iff_of_true trivial not_false⟩
      split
      · exact iff_of_true rfl not_false
      · exact iff_of_true rfl not_false
  | relayOpen =>
      simp only [StaysUnless, handlePairing, ends_steps, ends_checkTransferId]
      exact ⟨fun _ => iff_of_true trivial not_false, fun _ => iff_of_true trivial not_false⟩
  | relayClosed id reason =>
      simp only [StaysUnless, handlePairing, ends_bind, ends_checkTransferId, ends_get]
      refine ⟨fun hid => ?_, fun hid => iff_of_true trivial fun h => hid h.1⟩
      cases hpath : s.path with
      | relay relayId =>
          simp only [ends_steps, ends_changeState]
          refine ⟨fun hreason => turned_iff ⟨hid, ⟨relayId, hpath⟩, hreason⟩ fun heq => ?_,
            fun hreason => iff_of_true trivial fun h => hreason h.2.2⟩
          rw [← heq] at hterm
          cases hterm
      | _ =>
          refine iff_of_true rfl fun h => ?_
          obtain ⟨_, ⟨_, hrelay⟩, _⟩ := h
          cases hpath.symm.trans hrelay
  | cancel id reasonCode =>
      simp only [StaysUnless, handlePairing, ends_bind, ends_calls]
      refine ⟨fun hid => ?_, fun hid => iff_of_true trivial fun h => hid h.1⟩
      by_cases hst : s.state = .cancelled
      · exact iff_of_true hst.symm fun h => h.2 hst
      · exact turned_iff ⟨hid, hst⟩ (Ne.symm hst)
  | candidateList => exact iff_of_true rfl not_false
  | pathCheckAuthorization => exact iff_of_true rfl not_false
  | other => exact iff_of_true rfl not_false

/-- Data does not move the state, and it is new exactly if the chunk is the
next one. -/
theorem handleData_takes (chunk : DataChunk) :
    Ends (handleData chunk) s
      (fun events s' => s'.state = s.state ∧
        ((events.any fun | .dataReceived .. => true | _ => false) = true ↔ Takes s chunk))
      fun _ s' => s'.state = s.state ∧ ¬ Takes s chunk := by
  have hfile : ∀ {f}, s.files[chunk.fileId]? = some f → Takes s chunk →
      f.activeStreamId = some chunk.streamId ∧
      chunk.offset = f.receivedOffset - f.baseOffset ∧
      chunk.offset + chunk.bytes.length ≤ f.entry.size - f.baseOffset ∧
      (chunk.fin = true → f.baseOffset + (chunk.offset + chunk.bytes.length) = f.entry.size) := by
    rintro f hf ht
    obtain ⟨f', hf', h⟩ := ht.file
    obtain rfl := Option.some.inj (hf.symm.trans hf')
    exact h
  simp only [handleData, ends_bind, ends_calls]
  refine ⟨fun hrole => ⟨fun f hf => ?_, fun hnone => ⟨trivial, fun h => ?_⟩⟩,
    fun hrole => ⟨trivial, fun h => hrole h.role⟩⟩
  · cases hactive : f.activeStreamId with
    | none => exact ⟨rfl, fun h => by cases hactive.symm.trans (hfile hf h).1⟩
    | some streamId =>
        simp only [ends_steps]
        refine ⟨fun hne => ⟨trivial, fun h => hne ?_⟩, fun hstream => ?_⟩
        · exact Option.some.inj (hactive.symm.trans (hfile hf h).1)
        cases hadd : checkedAdd chunk.offset chunk.bytes.length with
        | none =>
            refine ⟨rfl, fun h => ?_⟩
            rw [checkedAdd, if_pos h.range] at hadd
            cases hadd
        | some stop =>
            obtain ⟨hrange, rfl⟩ := checkedAdd_eq_some.1 hadd
            simp only [acceptChunk, ends_steps, ends_setFile]
            refine ⟨fun hover => ⟨trivial, fun h => ?_⟩, fun hle => ⟨fun hdup => ⟨trivial, ?_⟩,
              fun _ => ⟨fun hne => ⟨trivial, fun h => ?_⟩, fun hnext => ⟨fun hfin => ⟨trivial,
              fun h => ?_⟩, fun hfin => ⟨fun _ => ⟨trivial, ?_⟩, fun _ => ⟨trivial, ?_⟩⟩⟩⟩⟩⟩
            · exact Nat.not_le.2 hover (hfile hf h).2.2.1
            · refine iff_of_false (by simp) fun h => ?_
              have := (hfile hf h).2.1
              omega
            · exact hne (hfile hf h).2.1
            · exact hfin.2 ((hfile hf h).2.2.2 hfin.1)
            all_goals
              refine iff_of_true (by simp) ⟨hrole, ⟨f, hf, ?_, not_not.1 hnext,
                Nat.le_of_not_lt hle, fun h => ?_⟩, hrange⟩
              · rw [hactive, not_not.1 hstream]
              · by_contra hne
                exact hfin ⟨h, hne⟩
  · obtain ⟨f, hf, _⟩ := h.file
    cases hnone.symm.trans hf

theorem handleDataWithStorage_stays (hterm : s.state.terminal = true) (chunk : DataChunk)
    (written : Except CoreError Unit) :
    StaysUnless (Turns s (.handleDataWithStorage chunk written))
      (handleDataWithStorage chunk written) s := by
  have hnot : ¬ Takes s chunk → ¬ Turns s (.handleDataWithStorage chunk written) := by
    intro h hturns
    cases written with
    | error e => exact h hturns
    | ok => exact hturns
  simp only [StaysUnless, handleDataWithStorage, ends_bind, ends_file]
  refine ⟨fun f _ => Ends.mono (handleData_takes chunk) (fun events s₁ h => ?_)
    fun _ _ h => iff_of_true h.1 (hnot h.2), fun hnone => iff_of_true trivial (hnot fun h => ?_)⟩
  · simp only [ends_ite, ends_pure]
    refine ⟨fun hany => ?_, fun hany => iff_of_true h.1 (hnot fun ht => hany (h.2.2 ht))⟩
    cases written with
    | error e =>
        refine turned_iff (h.2.1 hany) fun heq => ?_
        rw [← heq] at hterm
        cases hterm
    | ok => exact iff_of_true h.1 fun h => h
  · obtain ⟨f, hf, _⟩ := h.file
    cases hnone.symm.trans hf

theorem respondToResumeQueryWithStorage_stays (id : FileId) (contentHash : Digest) (size : Nat)
    (stored : Except CoreError DurableState) :
    Stays (respondToResumeQueryWithStorage id contentHash size stored) s := by
  cases stored with
  | error e => exact rfl
  | ok state =>
      simp only [Stays, respondToResumeQueryWithStorage, ends_steps, setDurableState, ends_calls]
      refine ⟨fun f _ => ⟨fun _ => ⟨fun _ => trivial, fun _ => ?_⟩, fun _ => trivial⟩,
        fun _ => trivial⟩
      exact handleResumeQuery_stays id contentHash size

/-! ## Runs -/

/-- What one message of the peer does to a session that has ended. -/
theorem perform_stays (hg : Grounded s) (hterm : s.state.terminal = true) {op : Op}
    (hpeer : op.fromPeer = true) : StaysUnless (Turns s op) (perform op) s := by
  cases op with
  | handleControl message => exact handleControl_stays hg hterm message
  | handleControlWithFlags message errorFlag =>
      cases errorFlag with
      | true => exact iff_of_true rfl fun h => absurd h.1 nofun
      | false =>
          have hturns : ¬ TurnsControl s message ↔
              ¬ Turns s (.handleControlWithFlags message false) :=
            not_congr ⟨fun h => ⟨rfl, h⟩, fun h => h.2⟩
          show Ends (handleControl message) s _ _
          exact Ends.mono (handleControl_stays hg hterm message) (fun _ _ h => h.trans hturns)
            fun _ _ h => h.trans hturns
  | handlePairing message => exact handlePairing_stays hterm message
  | handleData chunk =>
      exact Ends.mono (handleData_takes chunk) (fun _ _ h => iff_of_true h.1 fun h => h)
        fun _ _ h => iff_of_true h.1 fun h => h
  | handleDataWithStorage chunk written => exact handleDataWithStorage_stays hterm chunk written
  | respondToResumeQueryWithStorage =>
      exact (respondToResumeQueryWithStorage_stays _ _ _ _).unless nofun
  | _ => cases hpeer

/-- A session that has ended stays as it ended along exactly those runs of the
peer's messages none of which turns it. -/
theorem terminal_iff_unturned {id : TransferId} {config : SessionConfig}
    (hs : (∃ m, newOfferer id m config = .ok s) ∨ newAccepter id config = .ok s)
    (ops : List Op) (hterm : (final s ops).state.terminal = true) {messages : List Op}
    (hpeer : ∀ op ∈ messages, op.fromPeer = true) :
    (∀ t ∈ history (final s ops) messages, t.after.state = (final s ops).state) ↔
      ∀ t ∈ history (final s ops) messages, ¬ Turns t.before t.op := by
  induction messages generalizing ops with
  | nil =>
      exact iff_of_true (fun _ h => absurd h List.not_mem_nil) fun _ h => absurd h List.not_mem_nil
  | cons op messages ih =>
      have hstep : (take (final s ops) op).after.state = (final s ops).state ↔
          ¬ Turns (final s ops) op :=
        Ends.after
          (P := fun s' : TransferSession =>
            s'.state = (final s ops).state ↔ ¬ Turns (final s ops) op)
          (perform_stays (grounded_run hs ops) hterm (hpeer op List.mem_cons_self))
      have hnext : (take (final s ops) op).after = final s (ops ++ [op]) :=
        (final_append s ops [op]).symm
      show (∀ t ∈ take _ op :: history _ messages, _) ↔ ∀ t ∈ take _ op :: history _ messages, _
      rw [List.forall_mem_cons, List.forall_mem_cons, hstep]
      refine and_congr_right fun hcalm => ?_
      have hsame := hstep.2 hcalm
      rw [hnext] at hsame ⊢
      rw [← hsame] at hterm ⊢
      exact ih (ops ++ [op]) hterm fun op' hop' => hpeer op' (List.mem_cons_of_mem _ hop')

/-- The offered file is accepted, received, stored and completed. -/
def sampleCompleted : List Op :=
  sampleOffer ++ [.acceptOffer .accept .ask (ascii "inbox"), sampleBegin,
    .handleData ⟨sampleId, 1, 0, [1, 2, 3], true⟩, .checkpoint sampleId 3 1,
    .completeFile sampleId 3 sampleDigest]

/-- An error of the peer turns a completed transfer into a failed one. -/
theorem completed_turns_failed :
    ¬ ∀ (id : TransferId) (config : SessionConfig) (s : TransferSession) (ops messages : List Op),
      newAccepter id config = .ok s → (final s ops).state.terminal = true →
      (∀ op ∈ messages, op.fromPeer = true) →
      ∀ t ∈ history (final s ops) messages, t.after.state = (final s ops).state := by
  intro hall
  have hterm : (final sampleAccepter sampleCompleted).state = .completed := by decide +kernel
  have hfailed : (take (final sampleAccepter sampleCompleted)
      (.handleControl (.transferError .session 0 false []))).after.state = .failed := by
    decide +kernel
  have hstays := hall sampleId {} sampleAccepter sampleCompleted
    [.handleControl (.transferError .session 0 false [])] rfl (by rw [hterm]; rfl) (by decide) _
    List.mem_cons_self
  rw [hfailed, hterm] at hstays
  cases hstays

/-- The peer repeats the end of its manifest after the transfer is complete. -/
theorem terminal_iff_unturned_repeated :
    (final sampleAccepter sampleCompleted).state.terminal = true ∧
      ((∀ t ∈ history (final sampleAccepter sampleCompleted)
          [.handleControl (.manifestEnd sampleDigest)],
            t.after.state = (final sampleAccepter sampleCompleted).state) ↔
        ∀ t ∈ history (final sampleAccepter sampleCompleted)
          [.handleControl (.manifestEnd sampleDigest)], ¬ Turns t.before t.op) :=
  have hterm : (final sampleAccepter sampleCompleted).state.terminal = true := by decide +kernel
  have hnew : newAccepter sampleId {} = .ok sampleAccepter := rfl
  ⟨hterm, terminal_iff_unturned (.inr hnew) sampleCompleted hterm (by decide)⟩

end DartUdp.Session
