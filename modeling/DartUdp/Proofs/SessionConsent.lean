import Mathlib.Data.List.Induction
import DartUdp.Proofs.SessionEdits

/-!
# Consent

An accepter must not take data before its user has said yes. What the code does
is this: the decision can be made only once in a run, so an acceptance and a
rejection exclude each other; data is only taken for an active file; and the
only call that makes a file active is a `FileBegin`. But `handle_file_begin`
does not look at the state, as `handle_resume_query` does: an offered file may
be begun before the decision, and after a rejection. Consent therefore holds in
exactly the runs in which no such `FileBegin` comes too early.

The module is for `consent_iff_begun_with_consent`. `perform_silent` says that an
idle session reports no data, `Edits.kept` that a decision stays, and `Phase.step`
is the step of the run.
-/

namespace DartUdp.Session

open DartUdp.Lib DartUdp.Transfer

variable {op : Op} {t s s' : TransferSession}

/-! ## Who reports data -/

/-- A report of received data. -/
def SessionEvent.isData : SessionEvent → Bool
  | .dataReceived .. => true
  | _ => false

/-- No data is reported. -/
abbrev Quiet (events : List SessionEvent) : Prop := ∀ e ∈ events, e.isData = false

/-- Whatever `m` reports, it is no data. -/
abbrev Silent (m : SessionM (List SessionEvent)) (s : TransferSession) : Prop :=
  Ends m s (fun events _ => Quiet events) fun _ _ => True

theorem quiet_nil : Quiet [] := fun _ he => absurd he List.not_mem_nil

theorem quiet_one {e : SessionEvent} (h : e.isData = false) : Quiet [e] := fun e' he => by
  rwa [List.mem_singleton.1 he]

theorem quiet_duplicate : Quiet [.duplicateControl] := quiet_one rfl

theorem Quiet.append {a b : List SessionEvent} (ha : Quiet a) (hb : Quiet b) : Quiet (a ++ b) := by
  simp only [Quiet, List.mem_append]
  exact fun e he => he.elim (ha e) (hb e)

theorem quiet_change {st st' : SessionState} :
    Quiet (if st = st' then [] else [.stateChanged st st']) := by
  split
  · exact quiet_nil
  · exact quiet_one rfl

theorem start_silent : Silent start s := by
  simp only [start, startOfferer, ends_steps, ends_stateError]
  refine ⟨fun _ => trivial, fun _ => ?_⟩
  split
  · simp only [ends_bind, ends_get]
    split
    · trivial
    · simp only [ends_bind, ends_changeState, ends_queueTransfers, ends_pure]
      exact quiet_change.append quiet_change
  · simp only [ends_changeState]
    exact quiet_change

theorem acceptOffer_silent (decision : AcceptDecision) (policy : OverwritePolicy)
    (label : Bytes) : Silent (acceptOffer decision policy label) s := by
  simp only [acceptOffer, ends_steps, ends_calls]
  exact ⟨fun _ => ⟨fun _ => trivial, fun _ => ⟨fun _ => quiet_change, fun _ =>
    ⟨fun _ => quiet_change.append quiet_change, fun _ => quiet_change⟩⟩⟩, fun _ => trivial⟩

theorem rejectOffer_silent (reasonCode : Nat) : Silent (rejectOffer reasonCode) s := by
  simp only [rejectOffer, ends_steps, ends_calls, ends_queuePairing]
  exact ⟨fun _ => ⟨fun _ => trivial, fun _ => quiet_change⟩, fun _ => trivial⟩

theorem startFile_silent (id : FileId) : Silent (startFile id) s := by
  simp only [startFile, allocateStreamId, ends_bind, ends_get]
  split
  · simp only [ends_steps, ends_calls]
    exact ⟨fun _ _ => ⟨fun _ => quiet_duplicate, fun _ => quiet_nil⟩, fun _ => trivial⟩
  · trivial

theorem startPendingLoop_silent (fuel : Nat) : Silent (startPendingLoop fuel) s := by
  induction fuel generalizing s with
  | zero => exact quiet_nil
  | succ fuel ih =>
      simp only [startPendingLoop, ends_steps]
      refine ⟨fun _ => quiet_nil, fun _ => ?_⟩
      split
      · exact quiet_nil
      · simp only [ends_steps]
        refine (startFile_silent _).mono (fun _ _ h => ?_) fun _ _ h => h
        exact ih.mono (fun _ _ h' => h.append h') fun _ _ h' => h'

theorem startPendingFiles_silent : Silent startPendingFiles s := by
  simp only [startPendingFiles, ends_bind, ends_get]
  refine (startPendingLoop_silent _).mono (fun _ _ h => ?_) fun _ _ h => h
  simp only [ends_steps, ends_changeState]
  exact ⟨fun _ => h.append quiet_change, fun _ => h⟩

theorem reconnect_silent : Silent reconnect s := by
  simp only [reconnect, ends_steps, ends_queueTransfers, ends_calls]
  refine ⟨fun _ => quiet_nil, fun _ => ⟨fun _ => trivial, fun _ => ⟨fun _ => ?_,
    fun _ => quiet_change⟩⟩⟩
  exact .of_forall (fun _ _ => quiet_change) fun _ _ => trivial

theorem handleControl_silent (message : TransferControl) : Silent (handleControl message) s := by
  cases message with
  | sessionHello =>
      simp only [handleControl, handleSessionHello, ends_steps, ends_requireRole,
        ends_checkTransferId, ends_stateError, ends_changeState]
      exact ⟨fun _ => ⟨fun _ => ⟨fun _ => quiet_duplicate, fun _ => ⟨fun _ => trivial,
        fun _ => ⟨fun _ => trivial, fun _ => ⟨fun _ => trivial, fun _ => quiet_change⟩⟩⟩⟩,
        fun _ => trivial⟩, fun _ => trivial⟩
  | manifestBegin =>
      simp only [handleControl, handleManifestBegin, ends_steps, ends_requireRole, ends_stateError]
      exact ⟨fun _ => ⟨fun _ => ⟨fun _ => quiet_duplicate, fun _ => trivial⟩, fun _ =>
        ⟨fun _ => trivial, fun _ => ⟨fun _ => trivial, fun _ => quiet_nil⟩⟩⟩, fun _ => trivial⟩
  | manifestItem =>
      simp only [handleControl]
      split
      · trivial
      · simp only [handleManifestItem, ends_bind, ends_get, ends_requireRole]
        refine ⟨fun _ => ?_, fun _ => trivial⟩
        split
        · simp only [ends_ite, ends_pure, ends_throw]
          exact ⟨fun _ => quiet_duplicate, fun _ => trivial⟩
        · simp only [ends_steps]
          refine ⟨fun _ => trivial, fun _ => ?_⟩
          split
          · simp only [ends_ite, ends_pure, ends_throw]
            exact ⟨fun _ => quiet_duplicate, fun _ => trivial⟩
          · exact quiet_nil
  | manifestEnd =>
      simp only [handleControl, handleManifestEnd, ends_bind, ends_get, ends_requireRole]
      refine ⟨fun _ => ?_, fun _ => trivial⟩
      split
      · simp only [ends_ite, ends_pure, ends_throw]
        exact ⟨fun _ => quiet_duplicate, fun _ => trivial⟩
      · simp only [ends_bind, ends_set]
        split
        · trivial
        · simp only [ends_bind, ends_modify, ends_changeState]
          exact quiet_change
  | receiveDecision =>
      simp only [handleControl, handleReceiveDecision, ends_steps, ends_requireRole,
        ends_stateError, ends_changeState]
      refine ⟨fun _ => ⟨fun _ => ⟨fun _ => quiet_duplicate, fun _ => trivial⟩, fun _ =>
        ⟨fun _ => quiet_change, fun _ => ?_⟩⟩, fun _ => trivial⟩
      split
      · trivial
      · simp only [ends_steps, ends_queueTransfers, ends_changeState]
        exact ⟨fun _ => quiet_change.append quiet_change, fun _ => quiet_change⟩
  | resumeQuery =>
      simp only [handleControl, handleResumeQuery, ends_steps, ends_requireRole, ends_file,
        ends_repeatComplete, ends_stateError, ends_queueTransfer]
      exact ⟨fun _ => ⟨fun _ _ => ⟨fun _ => trivial, fun _ => ⟨fun _ => quiet_duplicate, fun _ =>
        ⟨fun _ => ⟨fun _ => quiet_duplicate, fun _ => trivial⟩, fun _ => quiet_nil⟩⟩⟩,
        fun _ => trivial⟩, fun _ => trivial⟩
  | resumeState =>
      simp only [handleControl, handleResumeState, ends_steps, ends_requireRole, ends_file,
        ends_stateError, ends_validateOffset, ends_setFile]
      exact ⟨fun _ => ⟨fun _ => trivial, fun _ => ⟨fun _ _ => ⟨fun _ => ⟨fun _ => quiet_duplicate,
        fun _ => ⟨fun _ => trivial, fun _ => ⟨fun _ => quiet_duplicate,
        fun _ => startPendingFiles_silent⟩⟩⟩, fun _ => trivial⟩, fun _ => trivial⟩⟩,
        fun _ => trivial⟩
  | fileBegin =>
      simp only [handleControl, handleFileBegin, ends_steps, ends_requireRole, ends_file,
        ends_repeatComplete, ends_validateOffset]
      refine ⟨fun _ => ⟨fun _ _ => ⟨fun _ => quiet_duplicate, fun _ => ⟨fun _ =>
        ⟨fun _ => trivial, fun _ => ?_⟩, fun _ => trivial⟩⟩, fun _ => trivial⟩, fun _ => trivial⟩
      split
      · simp only [ends_ite, ends_pure, ends_throw]
        exact ⟨fun _ => quiet_duplicate, fun _ => trivial⟩
      · simp only [ends_steps, ends_setFile, ends_changeState]
        exact ⟨fun _ => trivial, fun _ => ⟨fun _ => trivial, fun _ => quiet_change⟩⟩
  | checkpoint =>
      simp only [handleControl, handleRemoteCheckpoint, ends_steps, ends_requireRole, ends_file]
      refine ⟨fun _ => ⟨fun _ _ => ⟨fun _ => ⟨fun _ => quiet_duplicate, fun _ => trivial⟩,
        fun _ => ?_⟩, fun _ => trivial⟩, fun _ => trivial⟩
      split
      · trivial
      · simp only [ends_steps, ends_validateOffset, ends_setFile]
        exact ⟨fun _ => ⟨fun _ => trivial, fun _ => quiet_nil⟩, fun _ => trivial⟩
  | fileComplete id =>
      simp only [handleControl, handleFileCompleteAck, ends_steps, ends_requireRole, ends_file,
        ends_markComplete]
      refine ⟨fun _ => ⟨fun _ _ => ⟨fun _ => quiet_duplicate, fun _ => ⟨fun _ => trivial,
        fun _ => ⟨fun _ => trivial, fun _ => ?_⟩⟩⟩, fun _ => trivial⟩, fun _ => trivial⟩
      refine startPendingFiles_silent.mono (fun events _ h => ?_) fun _ _ h => h
      have hdone : Quiet (.fileCompleted id :: events) :=
        (quiet_one (e := .fileCompleted id) rfl).append h
      simp only [ends_changeState]
      exact ⟨fun _ => hdone.append quiet_change, fun _ => hdone⟩
  | fileRejected =>
      simp only [handleControl, handleFileRejected, ends_bind, ends_requireRole, ends_file,
        ends_changeState]
      exact ⟨fun _ => ⟨fun _ _ => quiet_change, fun _ => trivial⟩, fun _ => trivial⟩
  | transferComplete =>
      simp only [handleControl, handleTransferComplete, ends_steps, ends_requireRole,
        ends_checkTransferId, ends_stateError, ends_changeState]
      exact ⟨fun _ => ⟨fun _ => ⟨fun _ => quiet_duplicate, fun _ => ⟨fun _ => trivial,
        fun _ => quiet_change.append (quiet_one rfl)⟩⟩, fun _ => trivial⟩,
        fun _ => trivial⟩
  | transferError =>
      simp only [handleControl, handleTransferError, ends_ite, ends_changeState]
      exact ⟨fun _ => reconnect_silent, fun _ => quiet_change⟩

theorem handlePairing_silent (message : PairingControl) : Silent (handlePairing message) s := by
  cases message with
  | pathSelected =>
      simp only [handlePairing, ends_bind, ends_checkTransferId, ends_get]
      refine ⟨fun _ => ?_, fun _ => trivial⟩
      split
      · trivial
      · exact quiet_one rfl
  | relayOpen =>
      simp only [handlePairing, ends_steps, ends_checkTransferId]
      exact ⟨fun _ => quiet_one rfl, fun _ => trivial⟩
  | relayClosed =>
      simp only [handlePairing, ends_bind, ends_checkTransferId, ends_get]
      refine ⟨fun _ => ?_, fun _ => trivial⟩
      split
      · simp only [ends_steps, ends_changeState]
        exact ⟨fun _ => quiet_change, fun _ => quiet_nil⟩
      · trivial
  | cancel =>
      simp only [handlePairing, ends_bind, ends_calls]
      exact ⟨fun _ => quiet_change, fun _ => trivial⟩
  | candidateList => trivial
  | pathCheckAuthorization => trivial
  | other => trivial

theorem checkpoint_silent (id : FileId) (durableOffset checkpointId : Nat) :
    Silent (checkpoint id durableOffset checkpointId) s := by
  simp only [checkpoint, ends_steps, ends_calls, ends_validateCheckpoint]
  exact ⟨fun _ => ⟨fun _ _ => ⟨fun _ => ⟨fun _ => trivial, fun _ => ⟨fun _ _ =>
    ⟨fun _ => quiet_duplicate, fun _ => quiet_one rfl⟩, fun _ => trivial⟩⟩, fun _ => trivial⟩,
    fun _ => trivial⟩, fun _ => trivial⟩

theorem completeFile_silent (id : FileId) (finalSize : Nat) (contentHash : Digest) :
    Silent (completeFile id finalSize contentHash) s := by
  simp only [completeFile, checkCompletion, ends_steps, ends_calls, ends_markComplete]
  refine ⟨fun _ => ⟨fun _ _ => ⟨fun _ => quiet_duplicate, fun _ => ⟨fun _ => trivial, fun _ =>
    ⟨fun _ => trivial, fun _ => ⟨fun _ => trivial, fun _ => ⟨fun _ => ?_,
    fun _ => quiet_one rfl⟩⟩⟩⟩⟩, fun _ => trivial⟩, fun _ => trivial⟩
  exact ((quiet_one rfl).append quiet_change).append (quiet_one rfl)

theorem queued_quiet {α : Type} {m : SessionM α} : Silent (do let _ ← m; return []) s := by
  rw [Silent, ends_bind]
  unfold Ends
  split
  · exact quiet_nil
  · trivial

/-- A call that takes in no data reports none. -/
theorem perform_quiet (op : Op) (hbrings : op.brings = none) : Silent (perform op) s := by
  cases op with
  | start => exact start_silent
  | acceptOffer => exact acceptOffer_silent ..
  | rejectOffer => exact rejectOffer_silent _
  | handleControl message => exact handleControl_silent message
  | handleControlWithFlags message errorFlag =>
      cases errorFlag with
      | true => trivial
      | false => exact handleControl_silent message
  | handlePairing message => exact handlePairing_silent message
  | handleData => cases hbrings
  | handleDataWithStorage => cases hbrings
  | checkpoint => exact checkpoint_silent ..
  | checkpointWithStorage id durableOffset checkpointId stateHash stored =>
      simp only [perform, checkpointWithStorage, ends_bind, ends_validateCheckpoint]
      refine ⟨fun _ _ => ⟨fun _ => ⟨fun _ => trivial, fun _ => ?_⟩, fun _ => trivial⟩,
        fun _ => trivial⟩
      cases stored with
      | error e => trivial
      | ok =>
          simp only [ends_bind, ends_calls]
          exact ⟨fun _ _ => checkpoint_silent .., fun _ => trivial⟩
  | completeFile => exact completeFile_silent ..
  | completeFileWithStorage id finalSize contentHash stored =>
      simp only [perform, completeFileWithStorage, checkCompletion, ends_steps, ends_file]
      refine ⟨fun f _ => ⟨fun _ => ⟨fun _ => trivial, fun _ => ⟨fun _ => trivial, fun _ =>
        ⟨fun _ => trivial, fun _ => ?_⟩⟩⟩, fun _ => ?_⟩, fun _ => trivial⟩
      all_goals
        cases stored with
        | error e => trivial
        | ok => exact completeFile_silent ..
  | respondToResumeQueryWithStorage id contentHash size stored =>
      cases stored with
      | error e => trivial
      | ok state =>
          simp only [perform, respondToResumeQueryWithStorage, ends_bind]
          exact .of_forall (fun _ _ => handleControl_silent (.resumeQuery id contentHash size))
            fun _ _ => trivial
  | reconnect => exact reconnect_silent
  | selectPath selected =>
      cases selected with
      | error e => trivial
      | ok path => exact quiet_one rfl
  | fallbackToRelay relay =>
      simp only [perform, fallbackToRelay, ends_steps]
      refine ⟨fun _ => trivial, fun _ => ?_⟩
      split
      · trivial
      · cases relay with
        | error e => trivial
        | ok ticket => exact quiet_one rfl
  | markPathFailed => exact quiet_nil
  | queueData => exact queued_quiet
  | setDurableState => exact queued_quiet
  | touch => exact queued_quiet
  | flush => exact queued_quiet
  | drainControl => exact queued_quiet
  | drainData => exact queued_quiet
  | resetForTest => exact queued_quiet
  | send => exact queued_quiet
  | sendFileRejection => exact queued_quiet
  | sendCancel => exact queued_quiet

/-- Data is reported for an active file. -/
theorem handleData_reports (chunk : DataChunk) :
    Ends (handleData chunk) s
      (fun _ _ => ∃ f, s.files[chunk.fileId]? = some f ∧ f.activeStreamId.isSome)
      fun _ _ => True := by
  simp only [handleData, ends_bind, ends_calls]
  refine ⟨fun _ => ⟨fun f hf => ?_, fun _ => trivial⟩, fun _ => trivial⟩
  split
  · trivial
  next active hactive =>
  have hsome : ∃ f, s.files[chunk.fileId]? = some f ∧ f.activeStreamId.isSome :=
    ⟨f, hf, by rw [hactive]; rfl⟩
  unfold Ends
  split
  · exact hsome
  · trivial

/-- No file is active. -/
def Idle (s : TransferSession) : Prop :=
  ∀ (id : FileId) (f : FileRuntime), s.files[id]? = some f → f.activeStreamId = none

/-- While no file is active, no call reports data. -/
theorem perform_silent (h : Idle s) (op : Op) : Silent (perform op) s := by
  have hdata : ∀ chunk, Ends (handleData chunk) s (fun _ _ => False) fun _ _ => True := by
    refine fun chunk => (handleData_reports chunk).mono (fun _ _ hex => ?_) fun _ _ h => h
    obtain ⟨f, hf, hactive⟩ := hex
    rw [h _ f hf] at hactive
    cases hactive
  by_cases hbrings : op.brings = none
  · exact perform_quiet op hbrings
  cases op with
  | handleData chunk => exact (hdata chunk).mono (fun _ _ h => h.elim) fun _ _ h => h
  | handleDataWithStorage chunk written =>
      simp only [perform, handleDataWithStorage, ends_bind, ends_file]
      exact ⟨fun _ _ => (hdata chunk).mono (fun _ _ h => h.elim) fun _ _ h => h,
        fun _ => trivial⟩
  | _ => exact absurd rfl hbrings

/-! ## The decision is made once

A decision needs the state `awaiting decision`. That state is only entered by
the end of a manifest, an assembly is only begun in `receiving manifest`, and
none of the states up to there is ever entered again. -/

/-- A decision may still come. -/
def Open (s : TransferSession) : Prop :=
  s.state = .new ∨ s.state = .awaitingHello ∨ s.state = .receivingManifest ∨
    s.state = .awaitingDecision ∨ s.assembly.isSome

/-- What an edit of an accepter keeps, apart from the files. -/
structure Kept (s s' : TransferSession) : Prop where
  opened : Open s' → Open s
  assembly : (s.state = .awaitingDecision → s.assembly = none) →
    s'.state = .awaitingDecision → s'.assembly = none

theorem Kept.refl (s : TransferSession) : Kept s s := ⟨id, id⟩

theorem Kept.trans {s s' s'' : TransferSession} (h : Kept s s') (h' : Kept s' s'') : Kept s s'' :=
  ⟨fun ho => h.opened (h'.opened ho), fun ha => h'.assembly (h.assembly ha)⟩

theorem Edit.kept (h : Edit op t s s') (hrole : s.role = .accepter) : Kept s s' := by
  cases h with
  | controls | data | path | activity | streamId | pending | decision => exact ⟨id, id⟩
  | write | complete | restart => exact ⟨id, id⟩
  | turn _ hoff => exact absurd (hrole.symm.trans hoff) nofun
  | state st hloose =>
      refine ⟨fun ho => ?_, fun _ heq => ?_⟩
      · rcases ho with h | h | h | h | h
        · rw [show st = _ from h] at hloose
          cases hloose
        · rw [show st = _ from h] at hloose
          cases hloose
        · rw [show st = _ from h] at hloose
          cases hloose
        · rw [show st = _ from h] at hloose
          cases hloose
        · exact .inr (.inr (.inr (.inr h)))
      · rw [show st = _ from heq] at hloose
        cases hloose
  | start _ hst => exact ⟨fun _ => .inl hst, fun _ h => by cases h⟩
  | hello _ _ hst => exact ⟨fun _ => .inr (.inl hst), fun _ h => by cases h⟩
  | assemble _ _ hst =>
      refine ⟨fun _ => .inr (.inr (.inl hst)), fun _ h => ?_⟩
      rw [show s.state = _ from h] at hst
      cases hst
  | extend a _ _ ha =>
      refine ⟨fun _ => .inr (.inr (.inr (.inr (by rw [ha]; rfl)))), fun hnone h => ?_⟩
      rw [hnone h] at ha
      cases ha
  | discard =>
      refine ⟨fun ho => ?_, fun _ _ => rfl⟩
      rcases ho with h | h | h | h | h
      · exact .inl h
      · exact .inr (.inl h)
      · exact .inr (.inr (.inl h))
      · exact .inr (.inr (.inr (.inl h)))
      · cases h
  | install a _ ha =>
      exact ⟨fun _ => .inr (.inr (.inr (.inr (by rw [ha]; rfl)))), fun _ _ => rfl⟩
  | acceptEmpty _ hst => exact ⟨fun _ => .inr (.inr (.inr (.inl hst))), fun _ h => by cases h⟩
  | finish =>
      refine ⟨fun ho => ?_, fun _ h => by cases h⟩
      rcases ho with h | h | h | h | h
      · cases h
      · cases h
      · cases h
      · cases h
      · exact .inr (.inr (.inr (.inr h)))

theorem Edits.kept (h : Edits op t s s') (hrole : s.role = .accepter) : Kept s s' := by
  induction h with
  | refl => exact .refl s
  | tail hpre hstep ih =>
      exact ih.trans (hstep.kept ((Edits.role_eq hpre).trans hrole))

/-- An accepter that begins no file stays idle. -/
theorem Edit.idle (h : Edit op t s s') (hnot : ¬ BeginsBy t op) (hrole : s.role = .accepter)
    (hidle : Idle s) : Idle s' := by
  cases h with
  | controls | data | path | activity | streamId | pending | decision => exact hidle
  | state | turn | start | hello | assemble | extend | discard | acceptEmpty | finish =>
      exact hidle
  | install =>
      intro id f hf
      obtain ⟨e, _, _, rfl⟩ := Manifest.runtimes_get.1 hf
      rfl
  | @write id f g _ _ _ hf hw =>
      intro id' f' hf'
      rw [Std.TreeMap.getElem?_insert] at hf'
      split at hf'
      · cases hf'
        cases hg : g.activeStreamId with
        | none => rfl
        | some n =>
            have := hw.active (by rw [hg]; rfl)
            rw [hidle id f hf, hrole] at this
            simp [hnot] at this
      · exact hidle id' f' hf'
  | complete id f hf hc =>
      intro id' f' hf'
      rw [Std.TreeMap.getElem?_insert] at hf'
      split at hf'
      · cases hf'
        rfl
      · exact hidle id' f' hf'
  | restart =>
      intro id f hf
      rw [Std.TreeMap.getElem?_map] at hf
      obtain ⟨f₀, hf₀, rfl⟩ := Option.map_eq_some_iff.1 hf
      unfold FileRuntime.restart
      split
      · exact hidle id f₀ hf₀
      · rfl

theorem Edits.idle (h : Edits op t s s') (hnot : ¬ BeginsBy t op) (hrole : s.role = .accepter)
    (hidle : Idle s) : Idle s' := by
  induction h with
  | refl => exact hidle
  | tail hpre hstep ih => exact hstep.idle hnot ((Edits.role_eq hpre).trans hrole) ih

/-! ## Consent along a run -/

namespace Taken

/-- `accept_offer` with the decision to accept has answered `Ok`. -/
def accepts (t : Taken) : Prop :=
  t.answer.isSome ∧ ∃ policy label, t.op = .acceptOffer .accept policy label

/-- `reject_offer` has answered `Ok`. -/
def rejects (t : Taken) : Prop := t.answer.isSome ∧ ∃ reasonCode, t.op = .rejectOffer reasonCode

/-- A file is active that was not before. -/
def activates (t : Taken) : Prop :=
  ∃ (id : FileId) (f : FileRuntime), t.after.files[id]? = some f ∧ f.activeStreamId.isSome ∧
    ¬ ∃ f₀, t.before.files[id]? = some f₀ ∧ f₀.activeStreamId.isSome

/-- Data is reported. -/
def receives (t : Taken) : Prop :=
  ∃ events, t.answer = some events ∧ ∃ e ∈ events, e.isData = true

end Taken

/-- A file becomes active or data is reported only after the offer has been
accepted, and never after it has been rejected. -/
def Consent (steps : List Taken) : Prop :=
  ∀ earlier t later, steps = earlier ++ t :: later → t.activates ∨ t.receives →
    (∃ a ∈ earlier, a.accepts) ∧ ∀ r ∈ earlier, ¬ r.rejects

/-- No file is begun before the offer has been accepted. -/
def BegunWithConsent (steps : List Taken) : Prop :=
  ∀ earlier t later, steps = earlier ++ t :: later → BeginsBy t.before t.op →
    ∃ a ∈ earlier, a.accepts

/-- An accepter with the steps taken so far. -/
structure Phase (earlier : List Taken) (s : TransferSession) : Prop where
  role : s.role = .accepter
  assembly : s.state = .awaitingDecision → s.assembly = none
  undecided : Open s → ∀ t ∈ earlier, ¬ t.accepts ∧ ¬ t.rejects
  once : ∀ a ∈ earlier, ∀ r ∈ earlier, a.accepts → ¬ r.rejects

/-- A decision closes the offer. -/
theorem decision_closes (hp : s.state = .awaitingDecision → s.assembly = none) {op : Op}
    (h : (take s op).accepts ∨ (take s op).rejects) :
    Open s ∧ ¬ Open (take s op).after := by
  have hclosed : ∀ (s' : TransferSession), s'.assembly = none →
      s'.state = .rejected ∨ s'.state = .awaitingResume ∨ s'.state = .completed →
      ¬ Open s' := by
    intro s' ha hst ho
    unfold Open at ho
    rw [ha] at ho
    rcases hst with h | h | h <;> rw [h] at ho <;> simp at ho
  rcases h with ⟨hsome, policy, label, hop⟩ | ⟨hsome, reasonCode, hop⟩
  · change op = _ at hop
    subst hop
    obtain ⟨events, hev⟩ := Option.isSome_iff_exists.1 hsome
    have hends : Ends (acceptOffer .accept policy label) s
        (fun _ s' => Open s ∧ ¬ Open s') fun _ _ => True := by
      simp only [acceptOffer, ends_steps, ends_calls]
      refine ⟨fun _ => ⟨fun _ => trivial, fun hst => ?_⟩, fun _ => trivial⟩
      have hopen : Open s := .inr (.inr (.inr (.inl (not_not.1 hst))))
      have hnone := hp (not_not.1 hst)
      exact ⟨fun _ => ⟨hopen, hclosed _ hnone (.inl rfl)⟩, fun _ =>
        ⟨fun _ => ⟨hopen, hclosed _ hnone (.inr (.inr rfl))⟩,
          fun _ => ⟨hopen, hclosed _ hnone (.inr (.inl rfl))⟩⟩⟩
    exact hends.answer hev
  · change op = _ at hop
    subst hop
    obtain ⟨events, hev⟩ := Option.isSome_iff_exists.1 hsome
    have hends : Ends (rejectOffer reasonCode) s
        (fun _ s' => Open s ∧ ¬ Open s') fun _ _ => True := by
      simp only [rejectOffer, ends_steps, ends_calls, ends_queuePairing]
      refine ⟨fun _ => ⟨fun _ => trivial, fun hst => ?_⟩, fun _ => trivial⟩
      exact ⟨.inr (.inr (.inr (.inl (not_not.1 hst)))), hclosed _ (hp (not_not.1 hst)) (.inl rfl)⟩
    exact hends.answer hev

/-- One step of an accepter. -/
theorem Phase.step {earlier : List Taken} (h : Phase earlier s) (op : Op) :
    Phase (earlier ++ [take s op]) (take s op).after := by
  have hedits : Edits op s s (take s op).after := (perform_does op).after
  have hkept := hedits.kept h.role
  -- a decision finds the offer open, so it is the first one
  have hfirst : (take s op).accepts ∨ (take s op).rejects →
      ∀ t ∈ earlier, ¬ t.accepts ∧ ¬ t.rejects := fun hd =>
    h.undecided (decision_closes h.assembly hd).1
  refine ⟨hedits.role_eq.trans h.role, hkept.assembly h.assembly, fun ho t ht => ?_, ?_⟩
  · rcases List.mem_append.1 ht with ht | ht
    · exact h.undecided (hkept.opened ho) t ht
    · obtain rfl := List.mem_singleton.1 ht
      refine ⟨fun ha => ?_, fun hr => ?_⟩
      · exact (decision_closes h.assembly (.inl ha)).2 ho
      · exact (decision_closes h.assembly (.inr hr)).2 ho
  · intro a ha r hr haccepts hrejects
    rcases List.mem_append.1 ha with ha | ha
    · rcases List.mem_append.1 hr with hr | hr
      · exact h.once a ha r hr haccepts hrejects
      · obtain rfl := List.mem_singleton.1 hr
        exact (hfirst (.inr hrejects) a ha).1 haccepts
    · obtain rfl := List.mem_singleton.1 ha
      rcases List.mem_append.1 hr with hr | hr
      · exact (hfirst (.inl haccepts) r hr).2 hrejects
      · obtain rfl := List.mem_singleton.1 hr
        obtain ⟨_, policy, label, hop⟩ := haccepts
        obtain ⟨_, reasonCode, hop'⟩ := hrejects
        rw [hop] at hop'
        cases hop'

section Run

variable {id : TransferId} {config : SessionConfig}

theorem phase_run (hs : newAccepter id config = .ok s) (ops : List Op) :
    Phase (history s ops) (final s ops) := by
  induction ops using List.reverseRecOn with
  | nil =>
      rw [(newAccepter_ok hs).2]
      exact ⟨rfl, fun _ => rfl, fun _ _ ht => absurd ht List.not_mem_nil,
        fun _ ha => absurd ha List.not_mem_nil⟩
  | append_singleton ops op ih =>
      rw [history_append, final_append]
      exact ih.step op

theorem BegunWithConsent.initial {earlier later : List Taken}
    (h : BegunWithConsent (earlier ++ later)) : BegunWithConsent earlier := by
  rintro pre t post rfl
  exact h pre t (post ++ later) (by simp)

/-- As long as no file is begun too early, nothing is active before the offer
has been accepted. -/
theorem idle_run (hs : newAccepter id config = .ok s) (ops : List Op)
    (h : BegunWithConsent (history s ops)) :
    (∃ a ∈ history s ops, a.accepts) ∨ Idle (final s ops) := by
  induction ops using List.reverseRecOn with
  | nil =>
      rw [(newAccepter_ok hs).2]
      refine .inr fun id f hf => ?_
      have hnone : (∅ : Std.TreeMap FileId FileRuntime)[id]? = none :=
        Std.TreeMap.getElem?_emptyc
      exact absurd (hnone.symm.trans hf) (by simp)
  | append_singleton ops op ih =>
      rw [history_append] at h ⊢
      have hconsent := h _ (take (final s ops) op) [] rfl
      rcases ih h.initial with ⟨a, ha, haccepts⟩ | hidle
      · exact .inl ⟨a, List.mem_append_left _ ha, haccepts⟩
      by_cases hb : BeginsBy (final s ops) op
      · obtain ⟨a, ha, haccepts⟩ := hconsent hb
        exact .inl ⟨a, List.mem_append_left _ ha, haccepts⟩
      · right
        rw [final_append]
        exact Edits.idle (perform_does op).after hb (phase_run hs ops).role hidle

/-- A `FileBegin` that passes the checks leaves its file active. -/
theorem handleFileBegin_active {fileId : FileId} {streamId baseOffset remainingSize : Nat}
    {contentHash : Digest} (h : Begins s fileId baseOffset remainingSize contentHash) :
    ∃ f, (after (handleFileBegin fileId streamId baseOffset remainingSize contentHash)
      s).files[fileId]? = some f ∧ f.activeStreamId.isSome := by
  obtain ⟨f, hf, hc, hle, hhash, hrem, hactive, hbase⟩ := h.file
  have hroom := Nat.not_le.2 h.room
  refine Ends.after (P := fun s' : TransferSession =>
    ∃ f, s'.files[fileId]? = some f ∧ f.activeStreamId.isSome) ?_
  simp only [handleFileBegin, ends_bind, ends_calls]
  refine ⟨fun _ => ⟨fun f' hf' => ?_, fun hnone => ?_⟩, fun hne => absurd h.role hne⟩
  · obtain rfl := Option.some.inj (hf.symm.trans hf')
    simp [hc, hle, hhash, ← hrem, hactive, hroom, ← hbase]
  · rw [hf] at hnone
    cases hnone

/-- The file of a `FileBegin` that passes the checks becomes active. -/
theorem activates_of_begins {op : Op} (h : BeginsBy s op) : (take s op).activates := by
  have hinactive : ∀ {fileId : FileId} {baseOffset remainingSize : Nat} {contentHash : Digest},
      Begins s fileId baseOffset remainingSize contentHash →
      ¬ ∃ f₀, s.files[fileId]? = some f₀ ∧ f₀.activeStreamId.isSome := by
    rintro fileId _ _ _ hb ⟨f₀, hf₀, hsome⟩
    obtain ⟨f, hf, _, _, _, _, hactive, _⟩ := hb.file
    obtain rfl := Option.some.inj (hf.symm.trans hf₀)
    rw [hactive] at hsome
    cases hsome
  cases op with
  | handleControl message =>
      cases message with
      | fileBegin =>
          obtain ⟨f, hf, hactive⟩ := handleFileBegin_active h
          exact ⟨_, f, hf, hactive, hinactive h⟩
      | _ => exact h.elim
  | handleControlWithFlags message errorFlag =>
      cases message with
      | fileBegin =>
          obtain ⟨rfl, hb⟩ := h
          obtain ⟨f, hf, hactive⟩ := handleFileBegin_active hb
          exact ⟨_, f, hf, hactive, hinactive hb⟩
      | _ => exact h.elim
  | _ => exact h.elim

/-- An accepter acts with consent in exactly the runs in which no `FileBegin`
that passes `handle_file_begin` comes before the acceptance. -/
theorem consent_iff_begun_with_consent (hs : newAccepter id config = .ok s) (ops : List Op) :
    Consent (history s ops) ↔ BegunWithConsent (history s ops) := by
  constructor
  · intro h earlier t later hsteps hb
    obtain ⟨ops₁, op, _, _, _, rfl⟩ := history_split hsteps
    exact (h earlier _ later hsteps (.inl (activates_of_begins hb))).1
  · intro h earlier t later hsteps hacts
    have hfront : BegunWithConsent (earlier ++ [t]) := by
      rw [hsteps, List.append_cons] at h
      exact h.initial
    obtain ⟨ops₁, op, _, _, rfl, rfl⟩ := history_split hsteps
    have hphase := phase_run hs ops₁
    suffices haccepted : ∃ a ∈ history s ops₁, a.accepts by
      obtain ⟨a, ha, haccepts⟩ := haccepted
      exact ⟨⟨a, ha, haccepts⟩, fun r hr => hphase.once a ha r hr haccepts⟩
    rcases idle_run hs ops₁ hfront.initial with haccepted | hidle
    · exact haccepted
    rcases hacts with ⟨fileId, f, hf, hactive, _⟩ | ⟨events, hev, e, he, hdata⟩
    · -- something was begun by this step
      by_contra hnone
      have hb : ¬ BeginsBy (final s ops₁) op := fun hb => hnone (hfront _ _ [] rfl hb)
      have hafter := Edits.idle (perform_does op).after hb hphase.role hidle
      rw [hafter fileId f hf] at hactive
      cases hactive
    · have := (perform_silent hidle op).answer hev e he
      rw [hdata] at this
      cases this

end Run

/-! ## An offer of one file -/

section Sample

def sampleId : Transfer.Id := .replicate 16 1

def sampleDigest : Digest := ⟨.sha256, .replicate 32 5⟩

def sampleAccepter : TransferSession :=
  { role := .accepter, transferId := sampleId, config := {} }

/-- The offer of a file `a` of three bytes, received up to its decision. -/
def sampleOffer : List Op :=
  [.start,
    .handleControl (.sessionHello sampleId protocolVersion .x25519ChaCha20Poly1305 sampleDigest
      sampleId),
    .handleControl (.manifestBegin 1 3 sampleDigest),
    .handleControl (.manifestItem sampleId (ascii "a") 3 sampleDigest ⟨none, none⟩),
    .handleControl (.manifestEnd sampleDigest)]

def sampleBegin : Op := .handleControl (.fileBegin sampleId 1 0 3 sampleDigest)

def sampleFile : FileRuntime :=
  { entry := ⟨sampleId, ascii "a", 3, sampleDigest, ⟨none, none⟩⟩
    stateHash := ⟨.sha256, .replicate 32 0⟩ }

/-- The user has rejected the offer, and the file is begun all the same. -/
theorem rejected_file_begins :
    ¬ ∀ (id : TransferId) (config : SessionConfig) (s : TransferSession) (ops : List Op),
      newAccepter id config = .ok s → Consent (history s ops) := by
  intro hall
  have hfile : (final sampleAccepter (sampleOffer ++ [.rejectOffer 0])).files[sampleId]? =
      some sampleFile := by decide +kernel
  have hroom : (final sampleAccepter (sampleOffer ++ [.rejectOffer 0])).activeFileCount <
      (final sampleAccepter (sampleOffer ++ [.rejectOffer 0])).config.maxParallelFiles := by
    decide +kernel
  have hrole : (final sampleAccepter (sampleOffer ++ [.rejectOffer 0])).role = .accepter := by
    decide +kernel
  have hbegins : BeginsBy (final sampleAccepter (sampleOffer ++ [.rejectOffer 0])) sampleBegin :=
    ⟨hrole, ⟨sampleFile, hfile, rfl, Nat.zero_le _, rfl, rfl, rfl, rfl⟩, hroom⟩
  have hsteps := history_append sampleAccepter (sampleOffer ++ [.rejectOffer 0]) [sampleBegin]
  obtain ⟨⟨a, ha, _, policy, label, hop⟩, _⟩ := hall sampleId {} sampleAccepter _ rfl _ _ [] hsteps
    (.inl (activates_of_begins hbegins))
  have hmem := op_mem_of_mem_history ha
  rw [hop] at hmem
  simp [sampleOffer] at hmem

/-- The user has accepted the offer before the file is begun. -/
theorem consent_iff_begun_with_consent_accepted :
    newAccepter sampleId {} = .ok sampleAccepter ∧
      (Consent (history sampleAccepter
          (sampleOffer ++ [.acceptOffer .accept .ask (ascii "inbox"), sampleBegin])) ↔
        BegunWithConsent (history sampleAccepter
          (sampleOffer ++ [.acceptOffer .accept .ask (ascii "inbox"), sampleBegin]))) :=
  have hnew : newAccepter sampleId {} = .ok sampleAccepter := rfl
  ⟨hnew, consent_iff_begun_with_consent hnew _⟩

end Sample

end DartUdp.Session
