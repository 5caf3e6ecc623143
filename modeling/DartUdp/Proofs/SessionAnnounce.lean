import DartUdp.Proofs.SessionSchedule

/-!
# Word that the transfer is complete

`complete_file` counts before it queues a `TransferComplete`: it does so with the last
file. The answer to a question about a file that is already complete does not count. It
comes with the counters as they are, so that a peer that asks for a complete file, or
begins it again, while others are missing is told of a transfer of fewer files. Every
other call that queues the message finds the session completed.

The module is for `honest_iff_no_early_repeat`. `perform_announces` says that every
other call is honest and `perform_lies` that such a repetition is not; the theorem
is an induction over the run with both.
-/

namespace DartUdp.Session

open DartUdp.Lib DartUdp.Transfer

variable {op : Op} {t s s' : TransferSession} {id : TransferId} {m : Manifest}
  {config : SessionConfig}

/-- All the files of the manifest are marked as complete. -/
structure Finished (m : Manifest) (s : TransferSession) : Prop where
  manifest : s.manifest = some m
  files : ∀ e ∈ m.entries, completeAt s.files e.fileId = true

/-- A message that says that the transfer is complete is only queued when it is, with the
number and the size of the files of the manifest. -/
def Honest (s : TransferSession) : Prop :=
  ∀ transferId completedFiles totalSize,
    .transfer (.transferComplete transferId completedFiles totalSize) ∈ s.controls →
      ∃ m, Finished m s ∧ completedFiles = m.fileCount ∧ totalSize = m.totalSize

/-! ## The manifest and its files -/

/-- A decision is only made about a manifest. -/
def Offered (s : TransferSession) : Prop :=
  s.state = .awaitingDecision ∨ s.state = .completed → s.manifest.isSome

theorem Edit.offered (h : Edit op t s s') (ha : Accepting id s) (ho : Offered s) : Offered s' := by
  cases h with
  | controls | data | path | activity | streamId | pending | decision | assemble | extend
  | discard | write | complete | restart => exact ho
  | turn _ hrole => exact absurd (ha.role.symm.trans hrole) nofun
  | state st hloose =>
      rintro (h | h)
      · rw [show st = _ from h] at hloose
        cases hloose
      · rw [show st = _ from h] at hloose
        cases hloose
  | start =>
      rintro (h | h)
      · cases h
      · cases h
  | hello =>
      rintro (h | h)
      · cases h
      · cases h
  | install => exact fun _ => rfl
  | acceptEmpty _ hst => exact fun _ => ho (.inl hst)
  | finish _ fileId f hf =>
      intro _
      obtain ⟨m, hm, -⟩ := ha.known hf
      show s.manifest.isSome
      rw [hm]
      rfl

theorem Edits.offered (h : Edits op t s s') (ha : Accepting id s) (ho : Offered s) :
    Offered s' := by
  induction h with
  | refl => exact ho
  | tail hpre hstep ih => exact hstep.offered (Edits.accepting hpre ha) ih

theorem offered_run (hs : newAccepter id config = .ok s) (ops : List Op) :
    Offered (final s ops) := by
  induction ops using List.reverseRecOn with
  | nil =>
      obtain ⟨-, rfl⟩ := newAccepter_ok hs
      rintro (h | h)
      · cases h
      · cases h
  | append_singleton ops op ih =>
      rw [final_append]
      exact Edits.offered (perform_does op).after (accepting_run hs ops) ih

/-- What is complete stays complete. -/
theorem Edit.finished (h : Edit op t s s') (ha : Accepting id s) (hf : Finished m s) :
    Finished m s' := by
  cases h with
  | controls | data | path | activity | streamId | pending | decision | state | turn | start
  | hello | assemble | extend | discard | acceptEmpty | finish => exact ⟨hf.manifest, hf.files⟩
  | install a _ hassembly =>
      have hnone := (ha.assembling a hassembly).2
      rw [hf.manifest] at hnone
      cases hnone
  | @write fileId f g _ _ _ hget hw =>
      refine ⟨hf.manifest, fun e he => ?_⟩
      have hall := hf.files e he
      show completeAt (s.files.insert fileId g) e.fileId = true
      rw [completeAt_insert]
      split
      · next heq =>
          rw [hw.complete, ← completeAt_eq hget, heq, hall]
      · exact hall
  | complete fileId f hget =>
      refine ⟨hf.manifest, fun e he => ?_⟩
      show completeAt (s.files.insert fileId { f with complete := true, activeStreamId := none })
        e.fileId = true
      rw [completeAt_insert]
      split
      · rfl
      · exact hf.files e he
  | restart =>
      refine ⟨hf.manifest, fun e he => ?_⟩
      show completeAt (s.files.map fun _ f => f.restart s.role) e.fileId = true
      rw [completeAt_restart, hf.files e he]

theorem Edits.finished (h : Edits op t s s') (ha : Accepting id s) (hf : Finished m s) :
    Finished m s' := by
  induction h with
  | refl => exact hf
  | tail hpre hstep ih => exact hstep.finished (Edits.accepting hpre ha) ih

/-- When the counter has reached the number of the files, it says what the manifest says. -/
theorem Tracks.finished (h : Tracks m s) (hm : s.manifest = some m)
    (hall : s.completedFiles = s.files.size) :
    Finished m s ∧ s.completedFiles = m.fileCount ∧ s.completedSize = m.totalSize := by
  have hfiles := h.all_iff.1 hall
  refine ⟨⟨hm, hfiles⟩, hall.trans h.size, ?_⟩
  rw [h.total, weigh_all hfiles, m.ok.sum]

/-! ## Who says so -/

/-- A question about a complete file is taken while other files are missing. -/
structure Early (s : TransferSession) (fileId : FileId) (takes : FileRuntime → Prop) : Prop where
  role : s.role = .accepter
  file : ∃ f, s.files[fileId]? = some f ∧ f.complete = true ∧ takes f
  missing : s.completedFiles ≠ s.files.size

/-- The query is about the file the manifest has. -/
def FileRuntime.asked (contentHash : Digest) (size : Nat) (f : FileRuntime) : Prop :=
  f.entry.contentHash = contentHash ∧ f.entry.size = size

def EarlyControl (s : TransferSession) : TransferControl → Prop
  | .resumeQuery fileId contentHash size => Early s fileId (FileRuntime.asked contentHash size)
  | .fileBegin fileId .. => Early s fileId fun _ => True
  | _ => False

/-- A call that repeats the completion of a file while other files are missing. -/
def RepeatsEarly (s : TransferSession) : Op → Prop
  | .handleControl message => EarlyControl s message
  | .handleControlWithFlags message errorFlag => errorFlag = false ∧ EarlyControl s message
  | .respondToResumeQueryWithStorage fileId contentHash size (.ok stored) =>
      Early s fileId fun f => f.asked contentHash size ∧ stored.durableOffset ≤ f.entry.size ∧
        ¬ f.staleCheckpoint stored.durableOffset stored.checkpointId
  | _ => False

/-- The counter of complete files has reached the number of files. -/
def Counted (s : TransferSession) : Prop :=
  s.state = .completed ∨
    s.completedFiles = s.files.size ∧ ∃ fileId : FileId, (s.files[fileId]?).isSome

/-- What a call queues about completion says what the counters say, and unless `E` they have
reached the number of files. -/
def Announces (E : Prop) (s s' : TransferSession) : Prop :=
  ∀ message ∈ s'.controls, message.completes = true → message ∈ s.controls ∨
    message = .transfer (.transferComplete s'.transferId s'.completedFiles s'.completedSize) ∧
      (Counted s' ∨ E)

theorem Announces.of_keep {E : Prop} (hcontrols : ∀ message ∈ s'.controls,
    message.completes = true → message ∈ s.controls) : Announces E s s' :=
  fun message hm hc => .inl (hcontrols message hm hc)

theorem Announces.refl {E : Prop} (s : TransferSession) : Announces E s s :=
  .of_keep fun _ hm _ => hm

/-- One message that does not say so is queued. -/
theorem Announces.queue {E : Prop} {message : OutboundMessage} (hnot : message.completes = false)
    (hcontrols : s'.controls = s.controls ++ [message]) : Announces E s s' := by
  intro other hm hc
  rw [hcontrols] at hm
  rcases List.mem_append.1 hm with hm | hm
  · exact .inl hm
  · rw [List.mem_singleton.1 hm, hnot] at hc
    cases hc

/-- One message that does not say so is queued, and then one that does. -/
theorem Announces.pair {E : Prop} {message : OutboundMessage}
    (hcontrols : s'.controls = s.controls ++ [message,
      .transfer (.transferComplete s'.transferId s'.completedFiles s'.completedSize)])
    (hnot : message.completes = false) (hcounted : Counted s' ∨ E) : Announces E s s' := by
  intro other hm hc
  rw [hcontrols] at hm
  rcases List.mem_append.1 hm with hm | hm
  · exact .inl hm
  · rcases List.mem_cons.1 hm with rfl | hm
    · rw [hnot] at hc
      cases hc
    · exact .inr ⟨List.mem_singleton.1 hm, hcounted⟩

theorem acceptOffer_announces {E : Prop} (ha : Accepting id s) (decision : AcceptDecision)
    (policy : OverwritePolicy) (label : Bytes) :
    Within (Announces E) (acceptOffer decision policy label) s := by
  simp only [Within, acceptOffer, ends_steps, ends_calls]
  refine ⟨fun _ => ⟨fun _ => .refl s, fun _ => ⟨fun _ => .queue rfl rfl, fun _ =>
    ⟨fun hempty => ?_, fun _ => .queue rfl rfl⟩⟩⟩, fun _ => .refl s⟩
  obtain ⟨hcount, htotal⟩ : s.completedFiles = 0 ∧ s.completedSize = 0 := by
    cases hm : s.manifest with
    | none => exact (ha.blank hm).2
    | some m =>
        have ht := (ha.tracks m hm).1
        have hnil : m.entries = [] := by
          rw [← List.length_eq_zero_iff, ← ht.size]
          simpa [Std.TreeMap.isEmpty_eq_size_eq_zero] using hempty
        rw [ht.count, ht.total, hnil]
        exact ⟨rfl, rfl⟩
  have hcontrols : s.controls ++
      [.transfer (.receiveDecision (decision == .accept) policy label)] ++
        [.transfer (.transferComplete s.transferId 0 0)] =
      s.controls ++ [.transfer (.receiveDecision (decision == .accept) policy label),
        .transfer (.transferComplete s.transferId s.completedFiles s.completedSize)] := by
    rw [List.append_assoc, hcount, htotal]
    rfl
  exact .pair hcontrols rfl (.inl (.inl rfl))

theorem completeFile_announces {E : Prop} (fileId : FileId) (finalSize : Nat)
    (contentHash : Digest) :
    Within (Announces E) (completeFile fileId finalSize contentHash) s := by
  simp only [Within, completeFile, checkCompletion, ends_steps, ends_calls, ends_markComplete]
  refine ⟨fun _ => ⟨fun f hf => ⟨fun _ => .refl s, fun _ => ⟨fun _ => .refl s, fun _ =>
    ⟨fun _ => .refl s, fun _ => ⟨fun _ => .refl s, fun _ => ⟨fun _ => ?_, fun _ => ?_⟩⟩⟩⟩⟩,
    fun _ => .refl s⟩, fun _ => .refl s⟩
  · exact .pair (List.append_assoc ..) rfl (.inl (.inl rfl))
  · exact .queue rfl rfl

theorem completeFileWithStorage_announces {E : Prop} (fileId : FileId) (finalSize : Nat)
    (contentHash : Digest) (stored : Except CoreError Unit) :
    Within (Announces E) (completeFileWithStorage fileId finalSize contentHash stored) s := by
  simp only [Within, completeFileWithStorage, checkCompletion, ends_steps, ends_file]
  refine ⟨fun f _ => ⟨fun _ => ⟨fun _ => .refl s, fun _ => ⟨fun _ => .refl s, fun _ =>
    ⟨fun _ => .refl s, fun _ => ?_⟩⟩⟩, fun _ => ?_⟩, fun _ => .refl s⟩
  all_goals
    cases stored with
    | error e => exact .refl s
    | ok => exact completeFile_announces fileId finalSize contentHash

theorem reconnect_announces {E : Prop} (hrole : s.role = .accepter) :
    Within (Announces E) reconnect s := by
  simp only [Within, reconnect, ends_steps, ends_queueTransfers, ends_calls]
  refine ⟨fun hst => ?_, fun _ => ⟨fun _ => .refl s, fun _ => ⟨fun hofferer => ?_, fun _ => ?_⟩⟩⟩
  · intro message hm hc
    rw [List.nil_append] at hm
    obtain ⟨control, hcontrol, rfl⟩ := List.mem_map.1 hm
    rcases List.mem_append.1 hcontrol with hin | hin
    · obtain ⟨entry, -, rfl⟩ := List.mem_map.1 hin
      cases hc
    · obtain rfl := List.mem_singleton.1 hin
      exact .inr ⟨rfl, .inl (.inl hst.1)⟩
  · rw [hrole] at hofferer
    cases hofferer
  · exact .of_keep fun _ hm _ => hm

theorem handleTransferError_announces {E : Prop} (hrole : s.role = .accepter)
    (scope : TransferErrorScope) (code : Nat) (retryable : Bool) (message : Bytes) :
    Within (Announces E) (handleTransferError scope code retryable message) s := by
  refine .ite (fun _ => reconnect_announces hrole) fun _ => ?_
  rw [Within, ends_changeState]
  exact .of_keep fun _ hm _ => hm

/-- The counters as they are: all files are counted, or it is too early. -/
theorem counted_or_early {fileId : FileId} {f : FileRuntime} {takes : FileRuntime → Prop}
    (hrole : s.role = .accepter) (hf : s.files[fileId]? = some f) (hc : f.complete = true)
    (htakes : takes f) :
    (s.completedFiles = s.files.size ∧ ∃ fileId : FileId, (s.files[fileId]?).isSome) ∨
      Early s fileId takes := by
  by_cases hall : s.completedFiles = s.files.size
  · exact .inl ⟨hall, fileId, by rw [hf]; rfl⟩
  · exact .inr ⟨hrole, ⟨f, hf, hc, htakes⟩, hall⟩

theorem handleResumeQuery_announces (fileId : FileId) (contentHash : Digest) (size : Nat) :
    Within (Announces (Early s fileId (FileRuntime.asked contentHash size)))
      (handleResumeQuery fileId contentHash size) s := by
  simp only [Within, handleResumeQuery, ends_steps, ends_calls, ends_repeatComplete]
  refine ⟨fun hrole => ⟨fun f hf => ⟨fun _ => .refl s, fun hsame => ⟨fun hc => ?_, fun _ =>
    ⟨fun _ => ⟨fun _ => .refl s, fun _ => .refl s⟩, fun _ => .queue rfl rfl⟩⟩⟩,
    fun _ => .refl s⟩, fun _ => .refl s⟩
  rw [not_or, not_not, not_not] at hsame
  exact .pair rfl rfl ((counted_or_early hrole hf hc hsame).imp_left .inr)

theorem handleFileBegin_announces (fileId : FileId) (streamId baseOffset remainingSize : Nat)
    (contentHash : Digest) :
    Within (Announces (Early s fileId fun _ => True))
      (handleFileBegin fileId streamId baseOffset remainingSize contentHash) s := by
  simp only [Within, handleFileBegin, ends_steps, ends_calls, ends_repeatComplete]
  refine ⟨fun hrole => ⟨fun f hf => ⟨fun hc => ?_, fun _ => ⟨fun _ =>
    ⟨fun _ => .refl s, fun _ => ?_⟩, fun _ => .refl s⟩⟩, fun _ => .refl s⟩, fun _ => .refl s⟩
  · exact .pair rfl rfl ((counted_or_early hrole hf hc trivial).imp_left .inr)
  · split
    · simp only [ends_ite, ends_pure, ends_throw]
      exact ⟨fun _ => .refl s, fun _ => .refl s⟩
    · simp only [ends_steps, ends_calls]
      exact ⟨fun _ => .refl s, fun _ => ⟨fun _ => .refl s, fun _ => .of_keep fun _ hm _ => hm⟩⟩

theorem respondToResumeQueryWithStorage_announces (fileId : FileId) (contentHash : Digest)
    (size : Nat) (stored : Except CoreError DurableState) :
    Within (Announces
        (RepeatsEarly s (.respondToResumeQueryWithStorage fileId contentHash size stored)))
      (respondToResumeQueryWithStorage fileId contentHash size stored) s := by
  cases stored with
  | error e => exact .refl s
  | ok answer =>
      simp only [Within, respondToResumeQueryWithStorage, setDurableState, ends_steps, ends_calls]
      refine ⟨fun f hf => ⟨fun hle => ⟨fun _ => .refl s, fun hfresh => ?_⟩, fun _ => .refl s⟩,
        fun _ => .refl s⟩
      have hsize := size_insert_of_get (g := { f with
        durableOffset := answer.durableOffset
        checkpointId := answer.checkpointId
        stateHash := answer.stateHash }) hf
      refine Ends.mono (handleResumeQuery_announces fileId contentHash size)
        (fun _ _ h message hm hc => ?_) fun _ _ h message hm hc => ?_
      all_goals
        refine (h message hm hc).imp_right fun hnew => ⟨hnew.1, hnew.2.imp_right fun hearly => ?_⟩
        obtain ⟨g, hg, hcomplete, hasked⟩ := hearly.file
        obtain rfl := Option.some.inj (Std.TreeMap.getElem?_insert_self.symm.trans hg)
        have hmissing := hearly.missing
        rw [hsize] at hmissing
        exact ⟨hearly.role, ⟨f, hf, hcomplete, hasked, hle, hfresh⟩, hmissing⟩

theorem handleControl_announces (ha : Accepting id s) (message : TransferControl) :
    Within (Announces (EarlyControl s message)) (handleControl message) s := by
  have hquiet : Within (Moves (announcedBy message) (Regresses s (.handleControl message)))
      (handleControl message) s := perform_moves (fun _ => ⟨_, ha⟩) (.handleControl message)
  cases message with
  | resumeQuery => exact handleResumeQuery_announces ..
  | fileBegin => exact handleFileBegin_announces ..
  | transferError scope code retryable text =>
      exact handleTransferError_announces ha.role scope code retryable text
  | _ =>
      refine hquiet.mono fun s' h => .of_keep fun message hm hc => ?_
      exact (h.quiet message hm hc).resolve_right Bool.false_ne_true

/-- Every call of an accepter. -/
theorem perform_announces (ha : Accepting id s) (op : Op) :
    Within (Announces (RepeatsEarly s op)) (perform op) s := by
  have hquiet := perform_moves (fun _ => ⟨_, ha⟩) op
  cases op with
  | acceptOffer => exact acceptOffer_announces ha ..
  | completeFile => exact completeFile_announces ..
  | completeFileWithStorage => exact completeFileWithStorage_announces ..
  | respondToResumeQueryWithStorage => exact respondToResumeQueryWithStorage_announces ..
  | reconnect => exact reconnect_announces ha.role
  | handleControl message => exact handleControl_announces ha message
  | handleControlWithFlags message errorFlag =>
      cases errorFlag with
      | true => exact .refl s
      | false =>
          refine (handleControl_announces ha message).mono fun s' h message hm hc => ?_
          exact (h message hm hc).imp_right fun hnew => ⟨hnew.1, hnew.2.imp_right fun hearly =>
            ⟨rfl, hearly⟩⟩
  | _ =>
      refine hquiet.mono fun s' h => .of_keep fun message hm hc => ?_
      exact (h.quiet message hm hc).resolve_right Bool.false_ne_true

/-! ## Along runs -/

theorem Announces.honest {E : Prop} (h : Announces E s s') (hnot : ¬ E) (ha : Accepting id s')
    (ho : Offered s') (hkeep : ∀ m, Finished m s → Finished m s') (hs : Honest s) : Honest s' := by
  intro transferId completedFiles totalSize hm
  rcases h _ hm rfl with hold | ⟨hnew, hcounted⟩
  · obtain ⟨m, hfinished, hcounts⟩ := hs _ _ _ hold
    exact ⟨m, hkeep m hfinished, hcounts⟩
  · cases hnew
    obtain ⟨m, hmanifest, hall⟩ : ∃ m, s'.manifest = some m ∧
        s'.completedFiles = s'.files.size := by
      rcases hcounted.resolve_right hnot with hst | ⟨hall, fileId, hknown⟩
      · obtain ⟨m, hmanifest⟩ := Option.isSome_iff_exists.1 (ho (.inr hst))
        exact ⟨m, hmanifest, ha.done hst⟩
      · obtain ⟨f, hf⟩ := Option.isSome_iff_exists.1 hknown
        obtain ⟨m, hmanifest, -⟩ := ha.known hf
        exact ⟨m, hmanifest, hall⟩
    exact ⟨m, (ha.tracks m hmanifest).1.finished hmanifest hall⟩

/-- Word that the transfer is complete, and a file is missing. -/
structure Lies (s : TransferSession) : Prop where
  queued : ∃ transferId completedFiles totalSize,
    .transfer (.transferComplete transferId completedFiles totalSize) ∈ s.controls
  missing : s.completedFiles ≠ s.files.size

theorem Lies.not_honest (h : Lies s) (ha : Accepting id s) : ¬ Honest s := by
  intro hhonest
  obtain ⟨transferId, completedFiles, totalSize, hm⟩ := h.queued
  obtain ⟨m, hfinished, -⟩ := hhonest _ _ _ hm
  exact h.missing ((ha.tracks m hfinished.manifest).1.all_iff.2 hfinished.files)

theorem handleResumeQuery_lies {fileId : FileId} {contentHash : Digest} {size : Nat}
    (h : Early s fileId (FileRuntime.asked contentHash size)) :
    Ends (handleResumeQuery fileId contentHash size) s (fun _ s' => Lies s')
      fun _ s' => Lies s' := by
  obtain ⟨hrole, ⟨f, hf, hc, hsame⟩, hmissing⟩ := h
  simp only [handleResumeQuery, ends_steps, ends_calls, ends_repeatComplete]
  refine ⟨fun _ => ⟨fun g hg => ?_, fun hnone => ?_⟩, fun hnot => absurd hrole hnot⟩
  · obtain rfl := Option.some.inj (hf.symm.trans hg)
    refine ⟨fun hnot => ?_, fun _ => ⟨fun _ => ?_, fun hnot => absurd hc hnot⟩⟩
    · exact absurd hnot (not_or.2 ⟨not_not.2 hsame.1, not_not.2 hsame.2⟩)
    · exact ⟨⟨_, _, _, List.mem_append_right _ (List.mem_cons_of_mem _ List.mem_cons_self)⟩,
        hmissing⟩
  · rw [hf] at hnone
    cases hnone

theorem handleFileBegin_lies {fileId : FileId} {streamId baseOffset remainingSize : Nat}
    {contentHash : Digest} (h : Early s fileId fun _ => True) :
    Ends (handleFileBegin fileId streamId baseOffset remainingSize contentHash) s
      (fun _ s' => Lies s') fun _ s' => Lies s' := by
  obtain ⟨hrole, ⟨f, hf, hc, -⟩, hmissing⟩ := h
  rw [handleFileBegin, ends_bind, ends_requireRole]
  refine ⟨fun _ => ?_, fun hnot => absurd hrole hnot⟩
  rw [ends_bind, ends_file]
  refine ⟨fun g hg => ?_, fun hnone => ?_⟩
  · obtain rfl := Option.some.inj (hf.symm.trans hg)
    rw [ends_ite]
    refine ⟨fun _ => ?_, fun hnot => absurd hc hnot⟩
    exact ⟨⟨_, _, _, List.mem_append_right _ (List.mem_cons_of_mem _ List.mem_cons_self)⟩,
      hmissing⟩
  · rw [hf] at hnone
    cases hnone

theorem perform_lies {op : Op} (h : RepeatsEarly s op) : Lies (take s op).after := by
  have hcontrol : ∀ {message : TransferControl}, EarlyControl s message →
      Lies (after (handleControl message) s) := by
    intro message h
    cases message with
    | resumeQuery => exact (handleResumeQuery_lies h).after
    | fileBegin => exact (handleFileBegin_lies h).after
    | _ => exact h.elim
  cases op with
  | handleControl message => exact hcontrol h
  | handleControlWithFlags message errorFlag =>
      obtain ⟨rfl, h⟩ := h
      exact hcontrol h
  | respondToResumeQueryWithStorage fileId contentHash size stored =>
      cases stored with
      | error e => exact h.elim
      | ok answer =>
          obtain ⟨hrole, ⟨f, hf, hc, hasked, hle, hfresh⟩, hmissing⟩ := h
          refine Ends.after (P := Lies)
            (m := respondToResumeQueryWithStorage fileId contentHash size (.ok answer)) ?_
          simp only [respondToResumeQueryWithStorage, setDurableState, ends_steps, ends_calls]
          refine ⟨fun g hg => ?_, fun hnone => ?_⟩
          · obtain rfl := Option.some.inj (hf.symm.trans hg)
            refine ⟨fun _ => ⟨fun hstale => absurd hstale hfresh, fun _ => ?_⟩,
              fun hnot => absurd hle hnot⟩
            refine handleResumeQuery_lies
              ⟨hrole, ⟨_, Std.TreeMap.getElem?_insert_self, hc, hasked⟩, ?_⟩
            show s.completedFiles ≠ (s.files.insert fileId _).size
            rwa [size_insert_of_get hf]
          · rw [hf] at hnone
            cases hnone
  | _ => exact h.elim

/-- **Word of completion.** Along a run of an accepter, whatever it queues that says that the
transfer is complete is true and names the files of its manifest, exactly if no question about
a complete file is taken while other files are missing. -/
theorem honest_iff_no_early_repeat (hs : newAccepter id config = .ok s) (ops : List Op) :
    (∀ t ∈ history s ops, Honest t.after) ↔ ∀ t ∈ history s ops, ¬ RepeatsEarly t.before t.op := by
  constructor
  · intro h t ht hearly
    obtain ⟨before, behind, hsplit⟩ := List.append_of_mem ht
    obtain ⟨ops₁, op, ops₂, rfl, -, rfl⟩ := history_split hsplit
    have haccepting := accepting_run hs (ops₁ ++ [op])
    rw [final_snoc] at haccepting
    exact (perform_lies hearly).not_honest haccepting (h _ ht)
  · intro h
    have hboth : (∀ t ∈ history s ops, Honest t.after) ∧ Honest (final s ops) := by
      induction ops using List.reverseRecOn with
      | nil =>
          refine ⟨fun _ ht => absurd ht List.not_mem_nil, fun _ _ _ hm => ?_⟩
          obtain ⟨-, rfl⟩ := newAccepter_ok hs
          cases hm
      | append_singleton ops op ih =>
          rw [history_snoc] at h ⊢
          obtain ⟨hsteps, hlast⟩ := ih fun t ht => h t (List.mem_append_left _ ht)
          have hearly := h _ (List.mem_append_right _ List.mem_cons_self)
          have hedits := (perform_does (s := final s ops) op).after
          have hnext : Honest (take (final s ops) op).after :=
            (perform_announces (accepting_run hs ops) op).after.honest hearly
              (hedits.accepting (accepting_run hs ops))
              (hedits.offered (accepting_run hs ops) (offered_run hs ops))
              (fun m hm => hedits.finished (accepting_run hs ops) hm) hlast
          refine ⟨fun t ht => ?_, by rwa [final_snoc]⟩
          rcases List.mem_append.1 ht with ht | ht
          · exact hsteps t ht
          · rwa [List.mem_singleton.1 ht]
    exact hboth.1

/-! ## One file of two -/

def otherId : FileId := .replicate 16 2

/-- Two files of three bytes are offered and accepted, and the first is completed. -/
def sampleHalf : List Op :=
  [.start,
    .handleControl (.sessionHello sampleId protocolVersion .x25519ChaCha20Poly1305 sampleDigest
      sampleId),
    .handleControl (.manifestBegin 2 6 sampleDigest),
    .handleControl (.manifestItem sampleId (ascii "a") 3 sampleDigest ⟨none, none⟩),
    .handleControl (.manifestItem otherId (ascii "b") 3 sampleDigest ⟨none, none⟩),
    .handleControl (.manifestEnd sampleDigest), .acceptOffer .accept .ask (ascii "inbox"),
    sampleBegin, .handleData ⟨sampleId, 1, 0, [1, 2, 3], true⟩, .checkpoint sampleId 3 1,
    .completeFile sampleId 3 sampleDigest]

/-- The `FileBegin` of the first file comes once more. -/
theorem half_is_announced :
    ¬ ∀ (id : TransferId) (config : SessionConfig) (s : TransferSession) (ops : List Op),
      newAccepter id config = .ok s → ∀ t ∈ history s ops, Honest t.after := by
  intro hall
  have hrole : (final sampleAccepter sampleHalf).role = .accepter := by decide +kernel
  have hcomplete : ((final sampleAccepter sampleHalf).files[sampleId]?).any (·.complete) =
      true := by decide +kernel
  have hmissing : (final sampleAccepter sampleHalf).completedFiles ≠
      (final sampleAccepter sampleHalf).files.size := by decide +kernel
  obtain ⟨f, hf, hc⟩ := (Option.any_eq_true _ _).1 hcomplete
  have hearly : RepeatsEarly (final sampleAccepter sampleHalf) sampleBegin :=
    ⟨hrole, ⟨f, hf, hc, trivial⟩, hmissing⟩
  have hnew : newAccepter sampleId {} = .ok sampleAccepter := rfl
  have haccepting := accepting_run hnew (sampleHalf ++ [sampleBegin])
  rw [final_snoc] at haccepting
  refine (perform_lies hearly).not_honest haccepting ?_
  refine hall sampleId {} sampleAccepter (sampleHalf ++ [sampleBegin]) hnew _ ?_
  rw [history_snoc]
  exact List.mem_append_right _ List.mem_cons_self

theorem honest_iff_no_early_repeat_half :
    newAccepter sampleId {} = .ok sampleAccepter ∧
      ((∀ t ∈ history sampleAccepter sampleHalf, Honest t.after) ↔
        ∀ t ∈ history sampleAccepter sampleHalf, ¬ RepeatsEarly t.before t.op) := by
  have hnew : newAccepter sampleId {} = .ok sampleAccepter := rfl
  exact ⟨hnew, honest_iff_no_early_repeat hnew sampleHalf⟩

end DartUdp.Session
