import DartUdp.Lib.MapSum
import DartUdp.Proofs.SessionConsent
import DartUdp.Proofs.SessionTracks
import DartUdp.Session.Panics

/-!
# The arithmetic of a session stays in range

The offsets of every file keep their order along every run, and the counters
count: so none of the plain operations of a call leaves the range of a `u64`,
and the session on the machine does what the session on naturals does.

The module is for `arithmetic_holds`. `Ranged` is what the arithmetic relies on,
`perform_agrees` compares a call on the two kinds of numbers, and `Edits.next` keeps
the order of the offsets.
-/

namespace DartUdp.Session

open DartUdp.Lib DartUdp.Transfer

variable {op : Op} {t s s' : TransferSession} {m : Manifest}

/-! ## What the arithmetic relies on -/

/-- The files are sound, and there is room to count one more. -/
structure Ranged (s : TransferSession) : Prop where
  file : ∀ (id : FileId) (f : FileRuntime), s.files[id]? = some f →
    FileOk s.role f ∧ f.entry.size ≤ u64Max
  room : ∀ (id : FileId) (f : FileRuntime), s.files[id]? = some f → f.complete = false →
    s.completedFiles + 1 ≤ u64Max ∧ s.completedSize + f.entry.size ≤ u64Max

theorem weigh_room {files : Std.TreeMap FileId FileRuntime} {w : ManifestEntry → Nat}
    {entries : List ManifestEntry} {e : ManifestEntry} (he : e ∈ entries)
    (hnot : completeAt files e.fileId = false) :
    weigh files w entries + w e ≤ (entries.map w).sum := by
  refine sum_map_add_le he (fun e' _ => ?_) ?_
  · split
    · exact Nat.le_refl _
    · exact Nat.zero_le _
  · rw [hnot]
    simp

theorem Manifest.size_le (m : Manifest) {e : ManifestEntry} (he : e ∈ m.entries) :
    e.size ≤ u64Max := by
  have hsum : e.size ≤ (m.entries.map (·.size)).sum :=
    List.single_le_sum (fun _ _ => Nat.zero_le _) _ (List.mem_map_of_mem he)
  have := m.ok.bound
  rw [m.ok.sum] at hsum
  omega

theorem Tracks.ranged (h : Tracks m s) : Ranged s := by
  refine ⟨fun id f hf => ?_, fun id f hf hc => ?_⟩
  · obtain ⟨hmem, _, hok⟩ := h.get hf
    exact ⟨hok, m.size_le hmem⟩
  · obtain ⟨hmem, hid, _⟩ := h.get hf
    have hnot : completeAt s.files f.entry.fileId = false := by
      rw [hid, completeAt_eq hf, hc]
    have hcount := weigh_room (w := fun _ => 1) hmem hnot
    have htotal := weigh_room (w := (·.size)) hmem hnot
    have hlength := m.ok.length
    have hbound := m.ok.bound
    rw [← h.count, show (m.entries.map fun _ => 1).sum = m.entries.length by simp] at hcount
    rw [← h.total, m.ok.sum] at htotal
    have : maxManifestFiles ≤ u64Max := by decide
    exact ⟨by omega, by omega⟩

theorem ranged_empty (h : ∀ id : FileId, s.files[id]? = none) : Ranged s :=
  ⟨fun id _ hf => absurd ((h id).symm.trans hf) nofun,
    fun id _ hf => absurd ((h id).symm.trans hf) nofun⟩

/-- Every file an offerer can start fits what is left of it. -/
def Startable (s : TransferSession) : Prop :=
  ∀ (id : FileId) (f : FileRuntime), s.files[id]? = some f → f.durableOffset ≤ f.entry.size

theorem Ranged.startable (h : Ranged s) : Startable s := fun id f hf => (h.file id f hf).1.durable

theorem Edits.tracks (h : Edits op t s s') (hrole : s.role = .offerer) (ht : Tracks m s) :
    Tracks m s' := by
  induction h with
  | refl => exact ht
  | tail hfirst hstep ih =>
      have hnot := (Edits.role_eq hfirst).trans hrole
      exact hstep.tracks ih fun ha => absurd (hnot.symm.trans ha) nofun

/-- An offerer knows its files from a manifest. -/
structure Counts (s : TransferSession) : Prop extends Ranged s where
  offered : s.role = .offerer → ∃ m, Tracks m s

theorem Offering.counts {id : TransferId} (h : Offering id m s) : Counts s :=
  ⟨h.tracks.ranged, fun _ => ⟨m, h.tracks⟩⟩

theorem Accepting.counts {id : TransferId} (h : Accepting id s) : Counts s := by
  refine ⟨?_, fun hrole => absurd (h.role.symm.trans hrole) nofun⟩
  cases hm : s.manifest with
  | none => exact ranged_empty (h.blank hm).1
  | some m => exact (h.tracks m hm).1.ranged

/-! ## The methods with arithmetic of their own -/

theorem startFile_agrees (h : Startable s) (id : FileId) :
    Agrees (Panics.startFile id) (startFile id) s := by
  unfold Panics.startFile startFile
  refine Agrees.safe_bind ?_
  simp only [allocateStreamId, ends_bind, ends_get]
  split
  · simp only [ends_steps]
    refine Agrees.safe_bind ?_
    simp only [ends_file]
    refine ⟨fun f hf => ?_, fun _ => trivial⟩
    refine Agrees.ite (fun _ => .pure _) fun _ => ?_
    refine Agrees.safe_bind ?_
    simp only [ends_setFile]
    refine Agrees.sub (h id f hf) ?_
    exact Agrees.safe_bind (by simp only [ends_queueTransfer]; exact .pure _)
  · trivial

theorem startPendingLoop_agrees (fuel : Nat) (hrole : s.role = .offerer) (ht : Tracks m s) :
    Agrees (Panics.startPendingLoop fuel) (startPendingLoop fuel) s := by
  induction fuel generalizing s with
  | zero => exact .pure _
  | succ fuel ih =>
      unfold Panics.startPendingLoop startPendingLoop
      refine Agrees.get_bind ?_
      refine Agrees.ite (fun _ => .pure _) fun hroom => ?_
      cases s.pendingResumes.keys.head? with
      | none => exact .pure _
      | some id =>
          refine Agrees.set_bind ?_
          have ht₁ : Tracks m { s with pendingResumes := s.pendingResumes.erase id } :=
            ht.congr rfl rfl rfl rfl
          refine Agrees.bind (startFile_agrees ht₁.ranged.startable id) ?_
          refine (@startFile_does .start s _ (by exact hrole) (by exact not_not.1 hroom) id).mono
            (fun events s₂ hstart => ?_) fun _ _ _ => trivial
          have hrole₂ : s₂.role = .offerer := hstart.role_eq.trans hrole
          have ht₂ : Tracks m s₂ := hstart.tracks hrole ht₁
          exact Agrees.last (ih hrole₂ ht₂) _

theorem startPendingFiles_agrees (hrole : s.role = .offerer) (ht : Tracks m s) :
    Agrees Panics.startPendingFiles startPendingFiles s := by
  unfold Panics.startPendingFiles startPendingFiles
  refine Agrees.get_bind ?_
  refine Agrees.bind (startPendingLoop_agrees _ hrole ht) ?_
  refine Ends.of_forall (fun events s₁ => ?_) fun _ _ => trivial
  refine Agrees.get_bind ?_
  refine Agrees.ite (fun _ => ?_) fun _ => .pure _
  exact Agrees.last .of_safe _

theorem handleResumeState_agrees (id : FileId) (state : DurableState) (h : Counts s) :
    Agrees (Panics.handleResumeState id state) (handleResumeState id state) s := by
  unfold Panics.handleResumeState handleResumeState
  refine Agrees.safe_bind ?_
  rw [ends_requireRole]
  refine ⟨fun hrole => ?_, fun _ => trivial⟩
  obtain ⟨m, ht⟩ := h.offered hrole
  refine Agrees.get_bind ?_
  refine Agrees.ite (fun _ => ?_) fun _ => ?_
  · exact .of_safe
  refine Agrees.safe_bind ?_
  rw [ends_file]
  refine ⟨fun f hf => ?_, fun _ => trivial⟩
  refine Agrees.safe_bind ?_
  rw [ends_validateOffset]
  refine ⟨fun hle => ?_, fun _ => trivial⟩
  refine Agrees.ite (fun _ => .pure _) fun _ => ?_
  refine Agrees.ite (fun _ => .throw _) fun _ => ?_
  refine Agrees.ite (fun _ => .pure _) fun _ => ?_
  refine Agrees.safe_bind ?_
  rw [ends_setFile]
  refine Agrees.safe_bind ?_
  rw [ends_modify]
  refine startPendingFiles_agrees hrole (m := m) ?_
  obtain ⟨_, _, hok⟩ := ht.get hf
  exact ht.write (g := { f with
      durableOffset := state.durableOffset
      checkpointId := state.checkpointId
      stateHash := state.stateHash })
    hf rfl rfl ⟨hle, hok.received, hok.sent, hok.unsent, hok.idle, hok.begun⟩ rfl rfl rfl rfl

theorem queueData_agrees (id : FileId) (bytes : Bytes) (fin : Bool) (h : Ranged s) :
    Agrees (Panics.queueData id bytes fin) (queueData id bytes fin) s := by
  unfold Panics.queueData queueData
  refine Agrees.safe_bind ?_
  rw [ends_requireRole]
  refine ⟨fun _ => ?_, fun _ => trivial⟩
  refine Agrees.safe_bind ?_
  rw [ends_file]
  refine ⟨fun f hf => ?_, fun _ => trivial⟩
  cases f.activeStreamId with
  | none => exact .throw _
  | some streamId =>
      have hsent := (h.file id f hf).1.sent
      refine Agrees.sub (by omega) ?_
      dsimp only
      cases hadd : checkedAdd f.sendOffset bytes.length with
      | none => exact .throw _
      | some offset =>
          obtain ⟨_, rfl⟩ := checkedAdd_eq_some.1 hadd
          refine Agrees.ite (fun _ => .throw _) fun _ => ?_
          refine Agrees.ite (fun _ => .throw _) fun _ => ?_
          refine Agrees.safe_bind ?_
          rw [ends_setFile]
          refine Agrees.sub (Nat.le_add_left _ _) ?_
          exact Agrees.safe_bind (by rw [ends_modify]; exact .pure _)

theorem handleFileBegin_agrees (id : FileId) (streamId baseOffset remainingSize : Nat)
    (contentHash : Digest) :
    Agrees (Panics.handleFileBegin id streamId baseOffset remainingSize contentHash)
      (handleFileBegin id streamId baseOffset remainingSize contentHash) s := by
  unfold Panics.handleFileBegin handleFileBegin
  refine Agrees.safe_bind ?_
  rw [ends_requireRole]
  refine ⟨fun _ => ?_, fun _ => trivial⟩
  refine Agrees.safe_bind ?_
  rw [ends_file]
  refine ⟨fun f hf => ?_, fun _ => trivial⟩
  refine Agrees.ite (fun _ => ?_) fun _ => ?_
  · exact .of_safe
  refine Agrees.safe_bind ?_
  rw [ends_validateOffset]
  refine ⟨fun hle => ?_, fun _ => trivial⟩
  refine Agrees.sub hle ?_
  refine Agrees.ite (fun _ => .throw _) fun _ => ?_
  cases f.activeStreamId with
  | some streamId => exact Agrees.ite (fun _ => .pure _) fun _ => .throw _
  | none =>
      refine Agrees.get_bind ?_
      refine Agrees.ite (fun _ => .throw _) fun _ => ?_
      refine Agrees.ite (fun _ => .throw _) fun _ => ?_
      exact Agrees.safe_bind (by rw [ends_setFile]; exact .of_safe)

theorem acceptChunk_agrees {f : FileRuntime} {chunk : DataChunk} {stop : Nat}
    (hstop : f.baseOffset + stop ≤ u64Max) (hoffset : chunk.offset ≤ stop) :
    Agrees (Panics.acceptChunk f chunk stop) (acceptChunk f chunk stop) s := by
  unfold Panics.acceptChunk acceptChunk
  refine Agrees.add hstop ?_
  refine Agrees.safe_bind ?_
  rw [ends_setFile]
  refine Agrees.ite (fun _ => .throw _) fun _ => ?_
  refine Agrees.safe_bind ?_
  rw [ends_setFile]
  refine Agrees.add (by dsimp only; omega) ?_
  exact Agrees.ite (fun _ => .pure _) fun _ => .pure _

theorem handleData_agrees (chunk : DataChunk) (h : Ranged s) :
    Agrees (Panics.handleData chunk) (handleData chunk) s := by
  unfold Panics.handleData handleData
  refine Agrees.safe_bind ?_
  rw [ends_requireRole]
  refine ⟨fun hrole => ?_, fun _ => trivial⟩
  refine Agrees.safe_bind ?_
  rw [ends_file]
  refine ⟨fun f hf => ?_, fun _ => trivial⟩
  obtain ⟨hok, hsize⟩ := h.file _ f hf
  have hsent := hok.sent
  have hbegun := hok.begun hrole
  cases hactive : f.activeStreamId with
  | none => exact .throw _
  | some streamId =>
      refine Agrees.ite (fun _ => .throw _) fun _ => ?_
      refine Agrees.sub (hbegun (by rw [hactive]; rfl)) (Agrees.sub (by omega) ?_)
      dsimp only
      cases hadd : checkedAdd chunk.offset chunk.bytes.length with
      | none => exact .throw _
      | some stop =>
          obtain ⟨_, rfl⟩ := checkedAdd_eq_some.1 hadd
          refine Agrees.ite (fun _ => .throw _) fun hle => ?_
          refine Agrees.ite (fun _ => .pure _) fun _ => ?_
          refine Agrees.ite (fun _ => .throw _) fun _ => ?_
          exact acceptChunk_agrees (by omega) (Nat.le_add_right _ _)

theorem markComplete_agrees {f : FileRuntime} {id : FileId} {size : Nat}
    (hcount : s.completedFiles + 1 ≤ u64Max) (htotal : s.completedSize + size ≤ u64Max) :
    Agrees (Panics.markComplete f id size) (markComplete f id size) s := by
  unfold Panics.markComplete
  unfold Agrees
  rw [bind_ok (get_run s)]
  exact Agrees.add (m := markComplete f id size) hcount (Agrees.add htotal rfl)

theorem completeFile_agrees (id : FileId) (finalSize : Nat) (contentHash : Digest)
    (h : Ranged s) :
    Agrees (Panics.completeFile id finalSize contentHash)
      (completeFile id finalSize contentHash) s := by
  unfold Panics.completeFile completeFile
  refine Agrees.safe_bind ?_
  rw [ends_requireRole]
  refine ⟨fun _ => ?_, fun _ => trivial⟩
  refine Agrees.safe_bind ?_
  rw [ends_file]
  refine ⟨fun f hf => ?_, fun _ => trivial⟩
  refine Agrees.ite (fun _ => .pure _) fun hc => ?_
  refine Agrees.safe_bind ?_
  simp only [checkCompletion, ends_steps]
  refine ⟨fun _ => trivial, fun _ => ⟨fun _ => trivial, fun hsame => ⟨fun _ => trivial,
    fun _ => ?_⟩⟩⟩
  simp only [not_or, not_not] at hsame
  obtain ⟨hcount, htotal⟩ := h.room id f hf (by simpa using hc)
  refine Agrees.bind (markComplete_agrees hcount (by rw [hsame.1]; exact htotal)) ?_
  rw [ends_markComplete]
  refine Agrees.safe_bind ?_
  rw [ends_queueTransfer]
  refine Agrees.get_bind ?_
  refine Agrees.ite (fun _ => ?_) fun _ => .pure _
  refine Agrees.safe_bind (Ends.of_forall (fun _ _ => ?_) fun _ _ => trivial)
  exact Agrees.last .of_safe _

theorem handleFileCompleteAck_agrees (id : FileId) (finalSize : Nat) (contentHash : Digest)
    (h : Counts s) :
    Agrees (Panics.handleFileCompleteAck id finalSize contentHash)
      (handleFileCompleteAck id finalSize contentHash) s := by
  unfold Panics.handleFileCompleteAck handleFileCompleteAck
  refine Agrees.safe_bind ?_
  rw [ends_requireRole]
  refine ⟨fun hrole => ?_, fun _ => trivial⟩
  obtain ⟨m, ht⟩ := h.offered hrole
  refine Agrees.safe_bind ?_
  rw [ends_file]
  refine ⟨fun f hf => ?_, fun _ => trivial⟩
  have hsent := (ht.ranged.file id f hf).1.sent
  refine Agrees.ite (fun _ => .pure _) fun hc => ?_
  refine Agrees.ite (fun _ => .throw _) fun hsame => ?_
  refine Agrees.sub (by omega) ?_
  refine Agrees.ite (fun _ => .throw _) fun _ => ?_
  simp only [not_or, not_not] at hsame
  obtain ⟨hcount, htotal⟩ := ht.ranged.room id f hf (by simpa using hc)
  obtain ⟨rfl, rfl⟩ := hsame
  have hcomplete := @Edit.complete
    (.handleControl (.fileComplete id f.entry.size f.entry.contentHash)) s s id f hf
    (by simpa using hc) (.inl ⟨hrole, rfl⟩)
  refine Agrees.bind (markComplete_agrees hcount htotal) ?_
  rw [ends_markComplete]
  refine Agrees.bind (startPendingFiles_agrees hrole (Edits.tracks (.single hcomplete) hrole ht)) ?_
  refine Ends.of_forall (fun _ _ => ?_) fun _ _ => trivial
  refine Agrees.get_bind ?_
  refine Agrees.ite (fun _ => ?_) fun _ => .pure _
  exact Agrees.last .of_safe _

/-! ## All the calls -/

theorem handleControl_agrees (message : TransferControl) (h : Counts s) :
    Agrees (Panics.handleControl message) (handleControl message) s := by
  cases message with
  | resumeState => exact handleResumeState_agrees _ _ h
  | fileBegin => exact handleFileBegin_agrees ..
  | fileComplete => exact handleFileCompleteAck_agrees _ _ _ h
  | _ => exact .of_safe

theorem handleDataWithStorage_agrees (chunk : DataChunk) (written : Except CoreError Unit)
    (h : Ranged s) :
    Agrees (Panics.handleDataWithStorage chunk written) (handleDataWithStorage chunk written)
      s := by
  unfold Panics.handleDataWithStorage handleDataWithStorage
  refine Agrees.safe_bind ?_
  rw [ends_file]
  refine ⟨fun _ _ => ?_, fun _ => trivial⟩
  refine Agrees.bind (handleData_agrees chunk h)
    (Ends.of_forall (fun events s' => ?_) fun _ _ => trivial)
  refine Agrees.ite (fun _ => ?_) fun _ => .pure _
  cases written with
  | error e => exact Agrees.safe_bind (by rw [ends_modify]; exact .throw _)
  | ok => exact .pure _

theorem completeFileWithStorage_agrees (id : FileId) (finalSize : Nat) (contentHash : Digest)
    (stored : Except CoreError Unit) (h : Ranged s) :
    Agrees (Panics.completeFileWithStorage id finalSize contentHash stored)
      (completeFileWithStorage id finalSize contentHash stored) s := by
  unfold Panics.completeFileWithStorage completeFileWithStorage
  refine Agrees.safe_bind ?_
  rw [ends_file]
  refine ⟨fun f _ => ?_, fun _ => trivial⟩
  refine Agrees.ite (fun _ => Agrees.safe_bind ?_) fun _ => ?_
  · simp only [checkCompletion, ends_steps]
    refine ⟨fun _ => trivial, fun _ => ⟨fun _ => trivial, fun _ => ⟨fun _ => trivial, fun _ => ?_⟩⟩⟩
    cases stored with
    | error e => exact .throw _
    | ok => exact completeFile_agrees id finalSize contentHash h
  · cases stored with
    | error e => exact .throw _
    | ok => exact completeFile_agrees id finalSize contentHash h

theorem perform_agrees (op : Op) (h : Counts s) : Agrees (Panics.perform op) (perform op) s := by
  cases op with
  | handleControl message => exact handleControl_agrees message h
  | handleControlWithFlags message errorFlag =>
      cases errorFlag with
      | true => exact .throw _
      | false => exact handleControl_agrees message h
  | handleData chunk => exact handleData_agrees chunk h.toRanged
  | handleDataWithStorage chunk written =>
      exact handleDataWithStorage_agrees chunk written h.toRanged
  | queueData id bytes fin => exact (queueData_agrees id bytes fin h.toRanged).last _
  | completeFile => exact completeFile_agrees _ _ _ h.toRanged
  | completeFileWithStorage => exact completeFileWithStorage_agrees _ _ _ _ h.toRanged
  | _ => exact rfl

/-! ## The order of the offsets and the counts -/

/-- The files that are marked complete. -/
def TransferSession.completed (s : TransferSession) : List FileRuntime :=
  (s.files.toList.map (·.2)).filter (·.complete)

/-- The offsets of the active files are in order, and the counters count the
complete ones within their range. -/
structure Sound (s : TransferSession) : Prop where
  received : s.role = .accepter → ∀ (id : FileId) (f : FileRuntime), s.files[id]? = some f →
    f.activeStreamId.isSome → f.baseOffset ≤ f.receivedOffset ∧ f.receivedOffset ≤ f.entry.size
  sent : s.role = .offerer → ∀ (id : FileId) (f : FileRuntime), s.files[id]? = some f →
    f.activeStreamId.isSome → f.baseOffset + f.sendOffset ≤ f.entry.size
  files : s.completedFiles = s.completed.length
  sizes : s.completedSize = (s.completed.map (·.entry.size)).sum
  range : s.completedFiles ≤ u64Max ∧ s.completedSize ≤ u64Max ∧ s.nextStreamId ≤ u64Max

theorem weigh_eq_filter (files : Std.TreeMap FileId FileRuntime) (w : ManifestEntry → Nat)
    (entries : List ManifestEntry) :
    weigh files w entries = ((entries.filter fun e => completeAt files e.fileId).map w).sum := by
  unfold weigh
  induction entries with
  | nil => rfl
  | cons e rest ih =>
      rw [List.map_cons, List.sum_cons, ih, List.filter_cons]
      by_cases h : completeAt files e.fileId = true
      · rw [if_pos h, if_pos h, List.map_cons, List.sum_cons]
      · rw [if_neg h, if_neg h, Nat.zero_add]

/-- The files of the session are the entries of its manifest. -/
theorem Tracks.entries_perm (h : Tracks m s) :
    (s.files.toList.map (·.2.entry)).Perm m.entries := by
  have hget : ∀ p ∈ s.files.toList, s.files[p.1]? = some p.2 := fun p hp =>
    Std.TreeMap.mem_toList_iff_getElem?_eq_some.1 hp
  have hids : (s.files.toList.map (·.2.entry)).map (·.fileId) = s.files.toList.map (·.1) := by
    rw [List.map_map]
    exact List.map_congr_left fun p hp => (h.get (hget p hp)).2.1
  have hkeys : (s.files.toList.map (·.1)).Nodup := by
    rw [Std.TreeMap.map_fst_toList_eq_keys]
    exact s.files.nodup_keys
  have hnodup : (s.files.toList.map (·.2.entry)).Nodup := List.Nodup.of_map _ (hids ▸ hkeys)
  rw [List.perm_ext_iff_of_nodup hnodup (List.Nodup.of_map _ m.ok.ids)]
  intro e
  rw [List.mem_map]
  constructor
  · rintro ⟨p, hp, rfl⟩
    exact (h.get (hget p hp)).1
  · intro he
    obtain ⟨f, hf, hentry, _⟩ := h.file e he
    exact ⟨(e.fileId, f), Std.TreeMap.mem_toList_iff_getElem?_eq_some.2 hf, hentry⟩

theorem Tracks.completed_perm (h : Tracks m s) :
    (s.completed.map (·.entry)).Perm
      (m.entries.filter fun e => completeAt s.files e.fileId) := by
  have hcompleted : s.completed.map (·.entry) =
      (s.files.toList.map (·.2.entry)).filter fun e => completeAt s.files e.fileId := by
    unfold TransferSession.completed
    rw [List.filter_map, List.filter_map, List.map_map]
    show _ = List.map _ _
    congr 1
    refine List.filter_congr fun p hp => ?_
    have hget := Std.TreeMap.mem_toList_iff_getElem?_eq_some.1 hp
    show p.2.complete = completeAt s.files p.2.entry.fileId
    rw [(h.get hget).2.1, completeAt_eq hget]
  rw [hcompleted]
  exact h.entries_perm.filter _

theorem Tracks.counted (h : Tracks m s) (hnext : s.nextStreamId ≤ u64Max) : Sound s := by
  have hperm := h.completed_perm
  have hfiles : s.completedFiles = s.completed.length := by
    have := hperm.length_eq
    rw [h.count, weigh_eq_filter]
    simpa using this.symm
  have hsizes : s.completedSize = (s.completed.map (·.entry.size)).sum := by
    have := (hperm.map (·.size)).sum_eq
    rw [h.total, weigh_eq_filter, ← this, List.map_map]
    rfl
  refine ⟨fun hrole id f hf hactive => ?_, fun _ id f hf _ => (h.get hf).2.2.sent, hfiles, hsizes,
    ?_, ?_, hnext⟩
  · obtain ⟨_, _, hok⟩ := h.get hf
    exact ⟨hok.begun hrole hactive, hok.received⟩
  · have hle := weigh_one_le s.files m.entries
    have := m.ok.length
    rw [h.count]
    exact (hle.trans this).trans (by decide)
  · have hle : weigh s.files (·.size) m.entries ≤ (m.entries.map (·.size)).sum :=
      List.sum_le_sum fun e _ => by
        split
        · exact Nat.le_refl _
        · exact Nat.zero_le _
    have := m.ok.bound
    rw [m.ok.sum] at hle
    rw [h.total]
    omega

theorem Edit.next (h : Edit op t s s') (hnext : s.nextStreamId ≤ u64Max) :
    s'.nextStreamId ≤ u64Max := by
  cases h with
  | streamId hn => exact hn
  | write _ hw =>
      cases hw with
      | began _ _ _ _ hn => exact hn
      | _ => exact hnext
  | _ => exact hnext

theorem Edits.next (h : Edits op t s s') (hnext : s.nextStreamId ≤ u64Max) :
    s'.nextStreamId ≤ u64Max := by
  induction h with
  | refl => exact hnext
  | tail _ hstep ih => exact hstep.next ih

theorem next_run {s : TransferSession} (hnext : s.nextStreamId ≤ u64Max) (ops : List Op) :
    (final s ops).nextStreamId ≤ u64Max :=
  final_keeps (I := fun t => t.nextStreamId ≤ u64Max) ops hnext
    fun _ op h => Edits.next (perform_does op).after h

/-- Along every run of either end, against whatever the peer sends, the offsets
keep their order, the counters count, and no call leaves the range of the
machine's integers. -/
theorem arithmetic_holds {id : TransferId} {config : SessionConfig}
    (hs : (∃ m, newOfferer id m config = .ok s) ∨ newAccepter id config = .ok s)
    (hfirst : config.firstDataStreamId ≤ u64Max) (ops : List Op) :
    Sound (final s ops) ∧ ∀ op, Agrees (Panics.perform op) (perform op) (final s ops) := by
  rcases hs with ⟨m, hs⟩ | hs
  · have hstart : s.nextStreamId = config.firstDataStreamId := by
      obtain ⟨-, rfl⟩ := newOfferer_ok hs
      rfl
    have hoffering := offering_run hs ops
    exact ⟨hoffering.tracks.counted (next_run (by rw [hstart]; exact hfirst) ops),
      fun op => perform_agrees op hoffering.counts⟩
  · have hstart : s.nextStreamId = config.firstDataStreamId := by
      obtain ⟨-, rfl⟩ := newAccepter_ok hs
      rfl
    have haccepting := accepting_run hs ops
    have hnext := next_run (s := s) (by rw [hstart]; exact hfirst) ops
    refine ⟨?_, fun op => perform_agrees op haccepting.counts⟩
    cases hm : (final s ops).manifest with
    | some m => exact (haccepting.tracks m hm).1.counted hnext
    | none =>
        obtain ⟨hnone, hcount, htotal⟩ := haccepting.blank hm
        have hnil : (final s ops).completed = [] := by
          have : (final s ops).files.toList = [] := List.eq_nil_iff_forall_not_mem.2 fun p hp =>
            absurd ((hnone p.1).symm.trans (Std.TreeMap.mem_toList_iff_getElem?_eq_some.1 hp)) nofun
          rw [TransferSession.completed, this]
          rfl
        refine ⟨fun _ id f hf => absurd ((hnone id).symm.trans hf) nofun,
          fun _ id f hf => absurd ((hnone id).symm.trans hf) nofun, ?_, ?_, ?_, ?_, hnext⟩
        · rw [hnil, hcount]
          rfl
        · rw [hnil, htotal]
          rfl
        · rw [hcount]
          exact Nat.zero_le _
        · rw [htotal]
          exact Nat.zero_le _

/-- An accepter in the middle of a file. -/
theorem arithmetic_holds_receiving :
    newAccepter sampleId {} = .ok sampleAccepter ∧
      Sound (final sampleAccepter (sampleOffer ++ [.acceptOffer .accept .ask (ascii "inbox"),
        sampleBegin, .handleData ⟨sampleId, 1, 0, [1, 2], false⟩])) :=
  have hnew : newAccepter sampleId {} = .ok sampleAccepter := rfl
  ⟨hnew, (arithmetic_holds (.inr hnew) (by decide) _).1⟩

end DartUdp.Session
