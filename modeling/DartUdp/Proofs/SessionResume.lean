import DartUdp.Proofs.SessionTracks

/-!
# Completion across a reconnect

The connection breaks after the accepter has completed the transfer and before
the offerer has heard of it. Both ends reconnect, and from then on every control
message they queue is delivered in order, in whatever interleaving of the two
directions.

The accepter repeats a `FileComplete` for every file and the `TransferComplete`.
At the offerer, however, the reconnect has put the count of the bytes sent back
to zero, and `handle_file_complete_ack` wants that count to reach the end of the
file; and it has put the state back to `awaiting resume`, which only the
completion of a last file leaves. So the exchange gets through exactly when some
file is left to complete and every such file was last started at its end.

The module is for `completionSurvives_iff_canResume`. `accepter_answers` and
`offerer_hears_all` are the two ends, `delivers_of_settles` takes any interleaving
of them, and `needs_of_delivers` is the other direction.
-/

namespace DartUdp.Session

open DartUdp.Lib DartUdp.Transfer

variable {id : TransferId} {m : Manifest} {s s' : TransferSession}

/-! ## The two ends after the break -/

/-- Both ends, and the control messages on their way. -/
structure Link where
  offerer : TransferSession
  accepter : TransferSession
  toAccepter : List OutboundMessage
  toOfferer : List OutboundMessage

/-- A control message arrives. -/
def handle : OutboundMessage → SessionM (List SessionEvent)
  | .pairing message => handlePairing message
  | .transfer message => handleControl message

/-- The queue of a session goes on its way. -/
def TransferSession.drained (s : TransferSession) : TransferSession := { s with controls := [] }

/-- The accepter gets a message and sends what it queued. -/
def Link.reachAccepter (l : Link) (message : OutboundMessage) (rest : List OutboundMessage) :
    Link :=
  let accepter := after (handle message) l.accepter
  { l with
    accepter := accepter.drained
    toAccepter := rest
    toOfferer := l.toOfferer ++ accepter.controls }

/-- The offerer gets a message and sends what it queued. -/
def Link.reachOfferer (l : Link) (message : OutboundMessage) (rest : List OutboundMessage) :
    Link :=
  let offerer := after (handle message) l.offerer
  { l with
    offerer := offerer.drained
    toAccepter := l.toAccepter ++ offerer.controls
    toOfferer := rest }

/-- In whatever order the two directions are served, no handler fails, and once
all messages are delivered the offerer has completed. -/
inductive Delivers : Link → Prop
  | done {l : Link} (ha : l.toAccepter = []) (ho : l.toOfferer = [])
      (hst : l.offerer.state = .completed) : Delivers l
  | next {l : Link} (hany : l.toAccepter ≠ [] ∨ l.toOfferer ≠ [])
      (haok : ∀ message rest, l.toAccepter = message :: rest →
        (answer (handle message) l.accepter).isSome)
      (ha : ∀ message rest, l.toAccepter = message :: rest →
        Delivers (l.reachAccepter message rest))
      (hook : ∀ message rest, l.toOfferer = message :: rest →
        (answer (handle message) l.offerer).isSome)
      (ho : ∀ message rest, l.toOfferer = message :: rest →
        Delivers (l.reachOfferer message rest)) : Delivers l

/-- Both ends reconnect; what they had queued for the old connection is lost. -/
def relink (offerer accepter : TransferSession) : Link :=
  let offerer := after reconnect offerer.drained
  let accepter := after reconnect accepter.drained
  ⟨offerer.drained, accepter.drained, offerer.controls, accepter.controls⟩

/-- The completion of the accepter reaches the offerer after a reconnect. -/
def CompletionSurvives (offerer accepter : TransferSession) : Prop :=
  (answer reconnect offerer.drained).isSome ∧ (answer reconnect accepter.drained).isSome ∧
    Delivers (relink offerer accepter)

/-- What it takes at the offerer. -/
structure CanResume (offerer : TransferSession) : Prop where
  rejected : offerer.state ≠ .rejected
  cancelled : offerer.state ≠ .cancelled
  left : ∃ (id : FileId) (f : FileRuntime), offerer.files[id]? = some f ∧ f.complete = false
  atEnd : ∀ (id : FileId) (f : FileRuntime), offerer.files[id]? = some f → f.complete = false →
    f.baseOffset = f.entry.size

/-! ## The accepter answers -/

/-- What a reconnected offerer asks. -/
inductive Asks (id : TransferId) (m : Manifest) : OutboundMessage → Prop
  | hello (version : Nat) (suite : CryptoSuite) (ns : Vector UInt8 16) :
      Asks id m (.transfer (.sessionHello id version suite m.digest ns))
  | start (fileCount totalSize : Nat) :
      Asks id m (.transfer (.manifestBegin fileCount totalSize m.digest))
  | item (e : ManifestEntry) (he : e ∈ m.entries) :
      Asks id m (.transfer (.manifestItem e.fileId e.relativePath e.size e.contentHash e.metadata))
  | stop : Asks id m (.transfer (.manifestEnd m.digest))
  | query (e : ManifestEntry) (he : e ∈ m.entries) :
      Asks id m (.transfer (.resumeQuery e.fileId e.contentHash e.size))

/-- The news of one file. -/
def tellFile (e : ManifestEntry) : OutboundMessage :=
  .transfer (.fileComplete e.fileId e.size e.contentHash)

/-- The news of the transfer. -/
def tellAll (id : TransferId) (m : Manifest) : OutboundMessage :=
  .transfer (.transferComplete id m.entries.length (m.entries.map (·.size)).sum)

/-- What a completed accepter tells. -/
def Tells (id : TransferId) (m : Manifest) (message : OutboundMessage) : Prop :=
  message = tellAll id m ∨ ∃ e ∈ m.entries, message = tellFile e

/-- An accepter that has completed the manifest. -/
structure CompletedWith (id : TransferId) (m : Manifest) (s : TransferSession) : Prop where
  accepting : Accepting id s
  state : s.state = .completed
  manifest : s.manifest = some m

namespace CompletedWith

theorem controls (h : CompletedWith id m s) (c : List OutboundMessage) :
    CompletedWith id m { s with controls := c } :=
  ⟨h.accepting.queues c s.data, h.state, h.manifest⟩

theorem tracks (h : CompletedWith id m s) : Tracks m s := (h.accepting.tracks m h.manifest).1

theorem assembly (h : CompletedWith id m s) : s.assembly = none := by
  cases ha : s.assembly with
  | none => rfl
  | some a =>
      have := (h.accepting.assembling a ha).2
      rw [h.manifest] at this
      cases this

/-- Every file of the manifest is there and complete. -/
theorem file (h : CompletedWith id m s) {e : ManifestEntry} (he : e ∈ m.entries) :
    ∃ f, s.files[e.fileId]? = some f ∧ f.entry = e ∧ f.complete = true := by
  obtain ⟨f, hf, hentry, _⟩ := h.tracks.file e he
  refine ⟨f, hf, hentry, ?_⟩
  rw [← completeAt_eq hf]
  exact h.accepting.all_complete h.state h.manifest e he

theorem counts (h : CompletedWith id m s) :
    s.completedFiles = m.entries.length ∧ s.completedSize = (m.entries.map (·.size)).sum := by
  have hall := h.accepting.all_complete h.state h.manifest
  refine ⟨(h.accepting.done h.state).trans h.tracks.size, ?_⟩
  rw [h.tracks.total, weigh_all hall]

end CompletedWith

/-- The session has only queued news. -/
def HasTold (id : TransferId) (m : Manifest) (s s' : TransferSession) : Prop :=
  ∃ news, s' = { s with controls := s.controls ++ news } ∧ news.length ≤ 2 ∧
    ∀ t ∈ news, Tells id m t

theorem hasTold_refl (s : TransferSession) : HasTold id m s s :=
  ⟨[], by rw [List.append_nil], Nat.zero_le _, fun t ht => absurd ht List.not_mem_nil⟩

/-- A completed accepter answers every question and only queues news. -/
theorem accepter_answers {message : OutboundMessage} (h : CompletedWith id m s)
    (hask : Asks id m message) :
    Ends (handle message) s (fun _ s' => HasTold id m s s') fun _ _ => False := by
  have hremote := (h.accepting.tracks m h.manifest).2
  have hrole := h.accepting.role
  have hid := h.accepting.transferId
  have hst := h.state
  have hm := h.manifest
  have hnone := h.assembly
  have hdrop : HasTold id m s s := hasTold_refl s
  cases hask with
  | hello version suite ns =>
      simp only [handle, handleControl, handleSessionHello, ends_steps, ends_calls]
      refine ⟨fun _ => ⟨fun _ => ⟨fun _ => hdrop, fun hnew => ?_⟩, fun hne => hne hid⟩,
        fun hne => hne hrole⟩
      exact absurd ⟨hremote, by rw [hst]; decide⟩ hnew
  | start =>
      simp only [handle, handleControl, handleManifestBegin, ends_steps, ends_requireRole, hm, hst]
      refine ⟨fun _ => ⟨fun _ => ⟨fun _ => hdrop, fun hnew => ?_⟩, fun hne => ?_⟩,
        fun hne => hne hrole⟩
      · simp at hnew
      · simp at hne
  | item e he =>
      have hnew : ManifestEntry.new e.fileId e.relativePath e.size e.contentHash e.metadata =
          .ok e := if_pos (m.ok.paths e he)
      simp only [handle, handleControl, hnew, handleManifestItem, ends_steps, ends_requireRole,
        hnone, hm]
      refine ⟨fun _ => ⟨fun _ => hdrop, fun hne => hne ?_⟩, fun hne => hne hrole⟩
      exact Manifest.entry_of_mem he
  | stop =>
      simp only [handle, handleControl, handleManifestEnd, ends_steps, ends_requireRole, hnone, hm]
      refine ⟨fun _ => ⟨fun _ => hdrop, fun hne => ?_⟩, fun hne => hne hrole⟩
      simp at hne
  | query e he =>
      obtain ⟨f, hf, rfl, hc⟩ := h.file he
      simp only [handle, handleControl, handleResumeQuery, ends_steps, ends_calls,
        ends_repeatComplete]
      refine ⟨fun _ => ⟨fun f' hf' => ?_, fun hnone => ?_⟩, fun hne => hne hrole⟩
      · obtain rfl := Option.some.inj (hf.symm.trans hf')
        refine ⟨fun hne => by simp at hne, fun _ => ⟨fun _ => ?_, fun hne => absurd hc hne⟩⟩
        refine ⟨[tellFile f.entry, tellAll id m], ?_, Nat.le_refl _, fun t ht => ?_⟩
        · rw [hid, h.counts.1, h.counts.2]
          rfl
        · rcases List.mem_cons.1 ht with rfl | ht
          · exact .inr ⟨f.entry, he, rfl⟩
          · exact .inl (List.mem_singleton.1 ht)
      · rw [hf] at hnone
        cases hnone

/-! ## The offerer listens -/

/-- An offerer after its reconnect: nothing is pending and nothing runs. -/
structure Restarted (id : TransferId) (m : Manifest) (s : TransferSession) : Prop where
  offering : Offering id m s
  pending : s.pendingResumes = ∅
  idle : ∀ (id : FileId) (f : FileRuntime), s.files[id]? = some f → f.activeStreamId = none
  unsent : ∀ (id : FileId) (f : FileRuntime), s.files[id]? = some f → f.complete = false →
    f.sendOffset = 0 ∧ f.finQueued = false

/-- With nothing pending and nothing running, there is nothing to start. -/
theorem startPendingFiles_idle {Q : List SessionEvent → TransferSession → Prop}
    {E : CoreError → TransferSession → Prop} (hp : s.pendingResumes = ∅)
    (h : ∀ (id : FileId) (f : FileRuntime), s.files[id]? = some f → f.activeStreamId = none) :
    Ends startPendingFiles s Q E ↔ Q [] s := by
  have hsize : s.pendingResumes.size = 0 := by
    rw [hp]
    exact Std.TreeMap.size_emptyc
  simp only [startPendingFiles, ends_steps, hsize, startPendingLoop, activeFileCount_idle h]
  simp

/-- The file of the news is already complete. -/
theorem offerer_hears_again (h : Restarted id m s) {e : ManifestEntry} (he : e ∈ m.entries)
    (hc : completeAt s.files e.fileId = true) :
    Ends (handle (tellFile e)) s (fun _ s' => s' = s) fun _ _ => False := by
  obtain ⟨f, hf, rfl, _⟩ := h.offering.tracks.file e he
  rw [completeAt_eq hf] at hc
  simp only [handle, tellFile, handleControl, handleFileCompleteAck, ends_steps, ends_calls]
  refine ⟨fun _ => ⟨fun f' hf' => ?_, fun hnone => ?_⟩, fun hne => hne h.offering.role⟩
  · obtain rfl := Option.some.inj (hf.symm.trans hf')
    exact ⟨fun _ => trivial, fun hne => absurd hc hne⟩
  · rw [hf] at hnone
    cases hnone

/-- What the news of a file changes at the offerer. -/
structure Heard (m : Manifest) (e : ManifestEntry) (s s' : TransferSession) : Prop where
  complete : ∀ id, completeAt s'.files id = (decide (id = e.fileId) || completeAt s.files id)
  left : ∀ (id : FileId) (f : FileRuntime), s'.files[id]? = some f → f.complete = false →
    s.files[id]? = some f
  controls : s'.controls = s.controls
  done : (∀ e ∈ m.entries, completeAt s'.files e.fileId = true) →
    s'.state = .awaitingTransferComplete
  waiting : (∃ e ∈ m.entries, completeAt s'.files e.fileId = false) → s'.state = s.state

/-- The file of the news was last started at its end. -/
theorem offerer_hears (h : Restarted id m s) {e : ManifestEntry} (he : e ∈ m.entries)
    (hc : completeAt s.files e.fileId = false)
    (hend : ∀ f, s.files[e.fileId]? = some f → f.baseOffset = f.entry.size) :
    Ends (handle (tellFile e)) s (fun _ s' => Restarted id m s' ∧ Heard m e s s')
      fun _ _ => False := by
  obtain ⟨f, hf, rfl, _⟩ := h.offering.tracks.file e he
  rw [completeAt_eq hf] at hc
  -- the session with the file marked complete
  let s₁ : TransferSession :=
    { s with
      files := s.files.insert f.entry.fileId { f with complete := true, activeStreamId := none }
      completedFiles := s.completedFiles + 1
      completedSize := s.completedSize + f.entry.size }
  have hget : ∀ id', s₁.files[id']? =
      if f.entry.fileId = id' then some { f with complete := true, activeStreamId := none }
      else s.files[id']? := by
    intro id'
    show (s.files.insert _ _)[id']? = _
    rw [Std.TreeMap.getElem?_insert]
    by_cases hid : f.entry.fileId = id'
    · rw [if_pos hid, if_pos (Std.compare_eq_iff_eq.2 hid)]
    · rw [if_neg hid, if_neg (by rwa [Std.compare_eq_iff_eq])]
  have hidle : ∀ (id' : FileId) (f' : FileRuntime), s₁.files[id']? = some f' →
      f'.activeStreamId = none := by
    intro id' f' hf'
    rw [hget] at hf'
    split at hf'
    · cases hf'
      rfl
    · exact h.idle id' f' hf'
  have hleft : ∀ (id' : FileId) (f' : FileRuntime), s₁.files[id']? = some f' →
      f'.complete = false → s.files[id']? = some f' := by
    intro id' f' hf' hc'
    rw [hget] at hf'
    split at hf'
    · cases hf'
      cases hc'
    · exact hf'
  have hoffering : Offering id m s₁ :=
    (Edit.complete (t := s) f.entry.fileId f hf hc (.inl ⟨h.offering.role,
      (rfl : Op.hears (.handleControl (.fileComplete ..)) = _)⟩)).offering h.offering
  have hrestarted : ∀ st : SessionState, Restarted id m { s₁ with state := st } := by
    intro st
    exact ⟨hoffering.move st s.controls, h.pending, hidle,
      fun id' f' hf' hc' => h.unsent id' f' (hleft id' f' hf' hc') hc'⟩
  have hcomplete : ∀ id', completeAt s₁.files id' =
      (decide (id' = f.entry.fileId) || completeAt s.files id') := by
    intro id'
    show completeAt (s.files.insert _ _) id' = _
    rw [completeAt_insert]
    by_cases hid : f.entry.fileId = id'
    · simp [hid]
    · simp [hid, Ne.symm hid]
  have hall := hoffering.tracks.all_iff
  simp only [handle, tellFile, handleControl, handleFileCompleteAck, ends_steps, ends_requireRole,
    ends_file, ends_markComplete]
  refine ⟨fun _ => ⟨fun f' hf' => ?_, fun hnone => ?_⟩, fun hne => hne h.offering.role⟩
  · obtain rfl := Option.some.inj (hf.symm.trans hf')
    refine ⟨fun hne => absurd hne (by simp [hc]), fun _ => ⟨fun hne => absurd hne (by simp),
      fun _ => ⟨fun hne => ?_, fun _ => ?_⟩⟩⟩
    · rw [hend f hf, (h.unsent _ f hf hc).1] at hne
      simp at hne
    · rw [startPendingFiles_idle (s := s₁) h.pending hidle]
      simp only [ends_changeState]
      refine ⟨fun heq => ⟨hrestarted _, hcomplete, hleft, rfl, fun _ => rfl, fun hex => ?_⟩,
        fun hne => ⟨hrestarted _, hcomplete, hleft, rfl, fun hdone => ?_, fun _ => rfl⟩⟩
      · obtain ⟨e', he', hfalse⟩ := hex
        have := hall.1 heq e' he'
        rw [show completeAt s₁.files e'.fileId = false from hfalse] at this
        cases this
      · exact absurd (hall.2 hdone) hne
  · rw [hf] at hnone
    cases hnone

/-- The file of the news was last started before its end: the reconnect has
made the offerer forget what it sent since then. -/
theorem offerer_refuses (h : Restarted id m s) {e : ManifestEntry}
    (hc : completeAt s.files e.fileId = false)
    (hbefore : ∃ f, s.files[e.fileId]? = some f ∧ f.baseOffset ≠ f.entry.size) :
    Ends (handle (tellFile e)) s (fun _ _ => False) fun _ _ => True := by
  obtain ⟨f, hf, hne⟩ := hbefore
  have hok := (h.offering.tracks.get hf).2.2.sent
  rw [completeAt_eq hf] at hc
  simp only [handle, tellFile, handleControl, handleFileCompleteAck, ends_steps, ends_calls]
  refine ⟨fun _ => ⟨fun f' hf' => ?_, fun _ => trivial⟩, fun _ => trivial⟩
  obtain rfl := Option.some.inj (hf.symm.trans hf')
  refine ⟨fun hcomplete => absurd hcomplete (by simp [hc]), fun _ => ⟨fun _ => trivial,
    fun _ => ⟨fun _ => trivial, fun hsent => ?_⟩⟩⟩
  rw [(h.unsent _ f hf hc).1] at hsent hok
  omega

/-- The news of the transfer, by the state it finds the offerer in. -/
theorem offerer_hears_all (h : Restarted id m s)
    (hall : ∀ e ∈ m.entries, completeAt s.files e.fileId = true)
    (hst : s.state = .awaitingTransferComplete ∨ s.state = .completed) :
    Ends (handle (tellAll id m)) s (fun _ s' => s' = { s with state := .completed })
      fun _ _ => False := by
  have ht := h.offering.tracks
  have hcount : s.completedFiles = m.entries.length := (ht.all_iff.2 hall).trans ht.size
  have htotal : s.completedSize = (m.entries.map (·.size)).sum := by
    rw [ht.total, weigh_all hall]
  simp only [handle, tellAll, handleControl, handleTransferComplete, ends_steps, ends_calls]
  refine ⟨fun _ => ⟨fun _ => ⟨fun hdone => ?_, fun hdone => ⟨fun hne => ?_, fun _ => trivial⟩⟩,
    fun hne => hne h.offering.transferId⟩, fun hne => hne h.offering.role⟩
  · rw [← hdone]
  · rcases hne with hne | hne | hne
    · exact hne (hst.resolve_right hdone)
    · exact hne hcount.symm
    · exact hne htotal.symm

theorem offerer_refuses_all (hst : s.state = .awaitingResume) :
    Ends (handle (tellAll id m)) s (fun _ _ => False) fun _ _ => True := by
  simp only [handle, tellAll, handleControl, handleTransferComplete, ends_steps, ends_calls, hst]
  refine ⟨fun _ => ⟨fun _ => ⟨fun hdone => absurd hdone (by decide), fun _ => ⟨fun _ => trivial,
    fun hne => hne (.inl (by decide))⟩⟩, fun _ => trivial⟩, fun _ => trivial⟩

/-! ## The exchange gets through -/

theorem Restarted.drained (h : Restarted id m s) : Restarted id m s.drained :=
  ⟨h.offering.move s.state [], h.pending, h.idle, h.unsent⟩

/-- Every file that is left was last started at its end. -/
def AtEnd (s : TransferSession) : Prop :=
  ∀ (id : FileId) (f : FileRuntime), s.files[id]? = some f → f.complete = false →
    f.baseOffset = f.entry.size

/-- The news on its way to the offerer is what it waits for. -/
inductive Waits (id : TransferId) (m : Manifest) (s : TransferSession)
    (q : List OutboundMessage) : Prop
  | files (es : List ManifestEntry) (tail : List OutboundMessage)
      (hq : q = es.map tellFile ++ tellAll id m :: tail) (hes : ∀ e ∈ es, e ∈ m.entries)
      (htail : ∀ t ∈ tail, Tells id m t)
      (hcover : ∀ e ∈ m.entries, completeAt s.files e.fileId = false → e ∈ es) (hend : AtEnd s)
      (hst : (s.state = .awaitingResume ∧
          ∃ e ∈ m.entries, completeAt s.files e.fileId = false) ∨
        (s.state = .awaitingTransferComplete ∧
          ∀ e ∈ m.entries, completeAt s.files e.fileId = true))
  | done (hst : s.state = .completed)
      (hall : ∀ e ∈ m.entries, completeAt s.files e.fileId = true)
      (hq : ∀ t ∈ q, Tells id m t)

/-- A link on its way to the end. -/
structure Settles (id : TransferId) (m : Manifest) (l : Link) : Prop where
  accepter : CompletedWith id m l.accepter
  silentA : l.accepter.controls = []
  asks : ∀ message ∈ l.toAccepter, Asks id m message
  restarted : Restarted id m l.offerer
  silentO : l.offerer.controls = []
  waits : Waits id m l.offerer l.toOfferer

/-- An answer is at most two messages. -/
def Link.weight (l : Link) : Nat := 3 * l.toAccepter.length + l.toOfferer.length

variable {l : Link} {message : OutboundMessage} {rest : List OutboundMessage}

theorem Waits.append {q news : List OutboundMessage} (h : Waits id m s q)
    (hnews : ∀ t ∈ news, Tells id m t) : Waits id m s (q ++ news) := by
  cases h with
  | files es tail hq hes htail hcover hend hst =>
      refine .files es (tail ++ news) ?_ hes (fun t ht => ?_) hcover hend hst
      · rw [hq]
        simp
      · exact (List.mem_append.1 ht).elim (htail t) (hnews t)
  | done hst hall hq =>
      exact .done hst hall fun t ht => (List.mem_append.1 ht).elim (hq t) (hnews t)

theorem Settles.reachAccepter (h : Settles id m l) (hq : l.toAccepter = message :: rest) :
    (answer (handle message) l.accepter).isSome ∧
      Settles id m (l.reachAccepter message rest) ∧
      (l.reachAccepter message rest).weight < l.weight := by
  have hask := h.asks message (by rw [hq]; exact List.mem_cons_self)
  obtain ⟨hsome, _, news, hafter, hlen, hnews⟩ := (accepter_answers h.accepter hask).succeeds
  have hcontrols : (after (handle message) l.accepter).controls = news := by
    rw [hafter, h.silentA]
    rfl
  refine ⟨hsome, ⟨?_, rfl, fun t ht => ?_, h.restarted, h.silentO, ?_⟩, ?_⟩
  · show CompletedWith id m (after (handle message) l.accepter).drained
    rw [hafter]
    exact h.accepter.controls []
  · exact h.asks t (by rw [hq]; exact List.mem_cons_of_mem _ ht)
  · show Waits id m l.offerer (l.toOfferer ++ (after (handle message) l.accepter).controls)
    rw [hcontrols]
    exact h.waits.append hnews
  · show 3 * rest.length + (l.toOfferer ++ (after (handle message) l.accepter).controls).length <
      3 * l.toAccepter.length + l.toOfferer.length
    rw [hcontrols, hq, List.length_append, List.length_cons]
    omega

/-- The offerer has heard a piece of news it waits for. -/
theorem Settles.hear (h : Settles id m l) (hq : l.toOfferer = message :: rest)
    (hends : Ends (handle message) l.offerer
      (fun _ s' => Restarted id m s' ∧ s'.controls = [] ∧ Waits id m s' rest) fun _ _ => False) :
    (answer (handle message) l.offerer).isSome ∧
      Settles id m (l.reachOfferer message rest) ∧
      (l.reachOfferer message rest).weight < l.weight := by
  obtain ⟨hsome, _, hrestarted, hcontrols, hwaits⟩ := hends.succeeds
  have hto : (l.reachOfferer message rest).toAccepter = l.toAccepter := by
    show l.toAccepter ++ (after (handle message) l.offerer).controls = _
    rw [hcontrols, List.append_nil]
  refine ⟨hsome,
    ⟨h.accepter, h.silentA, by rw [hto]; exact h.asks, hrestarted.drained, rfl, ?_⟩, ?_⟩
  · show Waits id m (after (handle message) l.offerer).drained rest
    cases hwaits with
    | files es tail hq hes htail hcover hend hst =>
        exact .files es tail hq hes htail hcover hend hst
    | done hst hall hq => exact .done hst hall hq
  · show 3 * (l.reachOfferer message rest).toAccepter.length + rest.length <
      3 * l.toAccepter.length + l.toOfferer.length
    rw [hto, hq, List.length_cons]
    omega

theorem Settles.reachOfferer (h : Settles id m l) (hq : l.toOfferer = message :: rest) :
    (answer (handle message) l.offerer).isSome ∧
      Settles id m (l.reachOfferer message rest) ∧
      (l.reachOfferer message rest).weight < l.weight := by
  refine h.hear hq ?_
  have hr := h.restarted
  cases h.waits with
  | done hst hall hqs =>
      rw [hq] at hqs
      have hrest : ∀ t ∈ rest, Tells id m t := fun t ht => hqs t (List.mem_cons_of_mem _ ht)
      rcases hqs message List.mem_cons_self with rfl | ⟨e, he, rfl⟩
      · refine (offerer_hears_all hr hall (.inr hst)).mono (fun _ s' heq => ?_) fun _ _ h => h
        rw [← hst] at heq
        rw [show s' = l.offerer from heq]
        exact ⟨hr, h.silentO, .done hst hall hrest⟩
      · refine (offerer_hears_again hr he (hall e he)).mono (fun _ s' heq => ?_) fun _ _ h => h
        rw [heq]
        exact ⟨hr, h.silentO, .done hst hall hrest⟩
  | files es tail hqs hes htail hcover hend hst =>
      rw [hq] at hqs
      cases es with
      | nil =>
          -- all the files have been told of
          obtain ⟨rfl, rfl⟩ := List.cons.inj hqs
          rcases hst with ⟨_, e, he, hfalse⟩ | ⟨hst, hall⟩
          · exact absurd (hcover e he hfalse) List.not_mem_nil
          · refine (offerer_hears_all hr hall (.inl hst)).mono (fun _ s' heq => ?_) fun _ _ h => h
            rw [heq]
            refine ⟨?_, h.silentO, .done rfl hall htail⟩
            exact ⟨hr.offering.move .completed _, hr.pending, hr.idle, hr.unsent⟩
      | cons e es =>
          obtain ⟨rfl, rfl⟩ := List.cons.inj hqs
          have he := hes e List.mem_cons_self
          have hes' : ∀ e' ∈ es, e' ∈ m.entries := fun e' he' =>
            hes e' (List.mem_cons_of_mem _ he')
          cases hc : completeAt l.offerer.files e.fileId with
          | true =>
              refine (offerer_hears_again hr he hc).mono (fun _ s' heq => ?_) fun _ _ h => h
              rw [heq]
              refine ⟨hr, h.silentO, .files es tail rfl hes' htail (fun e' he' hfalse => ?_) hend
                hst⟩
              refine (List.mem_cons.1 (hcover e' he' hfalse)).resolve_left fun heq => ?_
              rw [heq, hc] at hfalse
              cases hfalse
          | false =>
              refine (offerer_hears hr he hc fun f hf => ?_).mono
                (fun _ s' hh => ⟨hh.1, hh.2.controls.trans h.silentO, ?_⟩) fun _ _ h => h
              · exact hend _ f hf (by rw [← completeAt_eq hf]; exact hc)
              · have hresume : l.offerer.state = .awaitingResume := by
                  rcases hst with ⟨hst, _⟩ | ⟨_, hall⟩
                  · exact hst
                  · rw [hall e he] at hc
                    cases hc
                obtain ⟨hrestarted, hheard⟩ := hh
                refine .files es tail rfl hes' htail (fun e' he' hfalse => ?_)
                  (fun id f hf hc' => hend id f (hheard.left id f hf hc') hc') ?_
                · rw [hheard.complete, Bool.or_eq_false_iff, decide_eq_false_iff_not] at hfalse
                  refine (List.mem_cons.1 (hcover e' he' hfalse.2)).resolve_left fun heq => ?_
                  exact hfalse.1 (by rw [heq])
                · by_cases hall : ∀ e ∈ m.entries, completeAt s'.files e.fileId = true
                  · exact .inr ⟨hheard.done hall, hall⟩
                  · have hex : ∃ e ∈ m.entries, completeAt s'.files e.fileId = false := by
                      simpa using hall
                    exact .inl ⟨(hheard.waiting hex).trans hresume, hex⟩

theorem delivers_of_settles {n : Nat} (hn : l.weight < n) (h : Settles id m l) : Delivers l := by
  induction n generalizing l with
  | zero => omega
  | succ n ih =>
      by_cases hany : l.toAccepter ≠ [] ∨ l.toOfferer ≠ []
      · refine .next hany (fun message rest hq => (h.reachAccepter hq).1)
          (fun message rest hq => ?_) (fun message rest hq => (h.reachOfferer hq).1)
          fun message rest hq => ?_
        · obtain ⟨_, hsettles, hless⟩ := h.reachAccepter hq
          exact ih (by omega) hsettles
        · obtain ⟨_, hsettles, hless⟩ := h.reachOfferer hq
          exact ih (by omega) hsettles
      · rw [not_or, not_not, not_not] at hany
        refine .done hany.1 hany.2 ?_
        cases h.waits with
        | done hst => exact hst
        | files es tail hq =>
            rw [hany.2] at hq
            simp at hq

/-! ## What the exchange needs -/

theorem Delivers.offerer_ok (h : Delivers l) (hq : l.toOfferer = message :: rest) :
    (answer (handle message) l.offerer).isSome ∧ Delivers (l.reachOfferer message rest) := by
  cases h with
  | done _ ho =>
      rw [ho] at hq
      cases hq
  | next _ _ _ hook ho => exact ⟨hook message rest hq, ho message rest hq⟩

/-- Serving only the direction to the offerer already shows what is needed: the
news of the files comes first, and the news of the transfer after it. -/
theorem needs_of_delivers {es : List ManifestEntry} {tail : List OutboundMessage}
    (h : Delivers l) (hr : Restarted id m l.offerer) (hst : l.offerer.state = .awaitingResume)
    (hq : l.toOfferer = es.map tellFile ++ tellAll id m :: tail)
    (hes : ∀ e ∈ es, e ∈ m.entries) :
    (∃ e ∈ m.entries, completeAt l.offerer.files e.fileId = false) ∧
      ∀ e ∈ es, ∀ f, l.offerer.files[e.fileId]? = some f → f.complete = false →
        f.baseOffset = f.entry.size := by
  induction es generalizing l with
  | nil =>
      obtain ⟨hsome, _⟩ := h.offerer_ok hq
      rw [(offerer_refuses_all hst).fails] at hsome
      cases hsome
  | cons e es ih =>
      rw [List.map_cons, List.cons_append] at hq
      obtain ⟨hsome, hnext⟩ := h.offerer_ok hq
      have he := hes e List.mem_cons_self
      have hes' : ∀ e' ∈ es, e' ∈ m.entries := fun e' he' => hes e' (List.mem_cons_of_mem _ he')
      cases hc : completeAt l.offerer.files e.fileId with
      | true =>
          obtain ⟨_, _, hsame⟩ := (offerer_hears_again hr he hc).succeeds
          have hoff : (l.reachOfferer (tellFile e)
              (es.map tellFile ++ tellAll id m :: tail)).offerer =
              l.offerer.drained := congrArg TransferSession.drained hsame
          obtain ⟨hex, hend⟩ := ih hnext (hoff ▸ hr.drained) (hoff ▸ hst) rfl hes'
          rw [hoff] at hex hend
          refine ⟨hex, fun e' he' f hf hc' => ?_⟩
          rcases List.mem_cons.1 he' with rfl | he'
          · rw [completeAt_eq hf, hc'] at hc
            cases hc
          · exact hend e' he' f hf hc'
      | false =>
          have hbase : ∀ f, l.offerer.files[e.fileId]? = some f → f.baseOffset = f.entry.size := by
            intro f hf
            by_contra hne
            rw [(offerer_refuses hr hc ⟨f, hf, hne⟩).fails] at hsome
            cases hsome
          obtain ⟨_, _, hrestarted, hheard⟩ := (offerer_hears hr he hc hbase).succeeds
          refine ⟨⟨e, he, hc⟩, fun e' he' f hf hc' => ?_⟩
          by_cases hid : e'.fileId = e.fileId
          · exact hbase f (hid ▸ hf)
          -- the other files are as they were, and the rest of the news is about them
          have hsame : completeAt (after (handle (tellFile e)) l.offerer).files e'.fileId =
              false := by
            rw [hheard.complete, completeAt_eq hf, hc']
            simpa using hid
          have hst' := (hheard.waiting ⟨e', hes e' he', hsame⟩).trans hst
          obtain ⟨_, hend⟩ := ih hnext hrestarted.drained hst' rfl hes'
          have he'' : e' ∈ es := (List.mem_cons.1 he').resolve_left fun heq => hid (by rw [heq])
          obtain ⟨f', hf', _⟩ := hrestarted.offering.tracks.file e' (hes e' he')
          rw [completeAt_eq hf'] at hsame
          have := hheard.left _ f' hf' hsame
          obtain rfl := Option.some.inj (this.symm.trans hf)
          exact hend e' he'' f' hf' hsame

/-! ## The reconnect -/

/-- A completed accepter repeats its news. -/
theorem accepter_reconnects (h : CompletedWith id m s) :
    Ends reconnect s
      (fun _ s' => CompletedWith id m s'.drained ∧ ∃ es : List ManifestEntry,
        s'.controls = es.map tellFile ++ [tellAll id m] ∧ (∀ e ∈ es, e ∈ m.entries) ∧
          ∀ e ∈ m.entries, e ∈ es)
      fun _ _ => False := by
  simp only [reconnect, ends_steps, ends_queueTransfers]
  refine ⟨fun _ => ⟨?_, (s.files.toList.filter (·.2.complete)).map (·.2.entry), ?_, ?_, ?_⟩,
    fun hne => absurd ⟨h.state, h.accepting.role⟩ hne⟩
  · exact ⟨h.accepting.queues [] [], h.state, h.manifest⟩
  · rw [h.accepting.transferId, h.counts.1, h.counts.2]
    simp only [TransferSession.completions, List.nil_append, List.map_append, List.map_map]
    rfl
  · intro e he
    obtain ⟨⟨fileId, f⟩, hmem, rfl⟩ := List.mem_map.1 he
    have hf := Std.TreeMap.mem_toList_iff_getElem?_eq_some.1 (List.mem_filter.1 hmem).1
    exact (h.tracks.get hf).1
  · intro e he
    obtain ⟨f, hf, rfl, hc⟩ := h.file he
    refine List.mem_map.2 ⟨(f.entry.fileId, f), List.mem_filter.2 ⟨?_, hc⟩, rfl⟩
    exact Std.TreeMap.mem_toList_iff_getElem?_eq_some.2 hf

/-- The queries for the files that are left. -/
theorem resumeQueries_asks (id : TransferId) (entries : List ManifestEntry)
    (hsub : ∀ e ∈ entries, e ∈ m.entries) (h : Tracks m s) :
    Ends (resumeQueries entries) s
      (fun _ s' => ∃ q, s' = { s with controls := s.controls ++ q } ∧ ∀ t ∈ q, Asks id m t)
      fun _ _ => False := by
  induction entries generalizing s with
  | nil => exact ⟨[], by rw [List.append_nil], fun t ht => absurd ht List.not_mem_nil⟩
  | cons e rest ih =>
      have he := hsub e List.mem_cons_self
      have hrest : ∀ e ∈ rest, e ∈ m.entries := fun e' he' => hsub e' (List.mem_cons_of_mem _ he')
      obtain ⟨f, hf, _⟩ := h.file e he
      simp only [resumeQueries, ends_bind, ends_calls, ends_ite]
      refine ⟨fun f' hf' => ⟨fun _ => ?_, fun _ => ih hrest h⟩, fun hnone => ?_⟩
      · have hqueued : Tracks m
            { s with
              controls := s.controls ++
                [.transfer (.resumeQuery e.fileId e.contentHash e.size)] } :=
          h.congr rfl rfl rfl rfl
        refine (ih hrest hqueued).mono (fun _ s' hq => ?_) fun _ _ h => h
        obtain ⟨q, hq, hasks⟩ := hq
        refine ⟨.transfer (.resumeQuery e.fileId e.contentHash e.size) :: q, ?_, fun t ht => ?_⟩
        · rw [hq]
          simp
        · rcases List.mem_cons.1 ht with rfl | ht
          · exact .query e he
          · exact hasks t ht
      · rw [hf] at hnone
        cases hnone

theorem offer_asks {t : OutboundMessage} (hid : s.transferId = id)
    (ht : t ∈ (s.offer m).map OutboundMessage.transfer) : Asks id m t := by
  obtain ⟨c, hc, rfl⟩ := List.mem_map.1 ht
  unfold TransferSession.offer at hc
  rcases List.mem_append.1 hc with hc | hc
  · rcases List.mem_cons.1 hc with rfl | hc
    · rw [hid]
      exact .hello _ _ _
    rcases List.mem_cons.1 hc with rfl | hc
    · exact .start _ _
    · obtain ⟨e, he, rfl⟩ := List.mem_map.1 hc
      exact .item e he
  · obtain rfl := List.mem_singleton.1 hc
    exact .stop

/-- An offerer that may reconnect asks for the files that are left. -/
theorem offerer_reconnects (h : Offering id m s) (hq : s.controls = [])
    (hst : ¬ (s.state = .completed ∨ s.state = .rejected ∨ s.state = .cancelled)) :
    Ends reconnect s
      (fun _ s' => Restarted id m s' ∧ s'.state = .awaitingResume ∧
        (∀ t ∈ s'.controls, Asks id m t) ∧
        s'.files = s.files.map fun _ (f : FileRuntime) => f.restart s.role)
      fun _ _ => False := by
  have hrole : s.role ≠ .accepter := by
    rw [h.role]
    decide
  simp only [reconnect, reconnectOfferer, ends_steps, ends_calls]
  refine ⟨fun hdone => absurd hdone.2 hrole, fun _ => ⟨fun hend => absurd hend hst, fun _ =>
    ⟨fun _ => ?_, fun hne => absurd h.role hne⟩⟩⟩
  split
  · next hnone =>
      rw [h.manifest] at hnone
      cases hnone
  next manifest hsome =>
  obtain rfl := Option.some.inj (h.manifest.symm.trans hsome)
  simp only [ends_bind, ends_queueTransfers]
  -- the session with its files put back
  let s₁ : TransferSession :=
    { s with
      data := []
      pendingResumes := ∅
      files := s.files.map fun _ (f : FileRuntime) => f.restart s.role }
  have hedits : Edits .reconnect s s s₁ :=
    Edits.step (.step (.single .restart)
      (.pending ∅ fun _ h => absurd h Std.TreeMap.not_mem_emptyc)) (.data [] (List.nil_subset _))
  have hoffering : Offering id m s₁ := hedits.offering h
  have hget : ∀ (id : FileId) (f : FileRuntime), s₁.files[id]? = some f →
      ∃ f₀, s.files[id]? = some f₀ ∧ f = f₀.restart s.role := by
    intro id f hf
    have hmap : s₁.files[id]? = (s.files[id]?).map (·.restart s.role) := Std.TreeMap.getElem?_map
    rw [hmap] at hf
    obtain ⟨f₀, hf₀, heq⟩ := Option.map_eq_some_iff.1 hf
    exact ⟨f₀, hf₀, heq.symm⟩
  have hrestarted : ∀ (c : List OutboundMessage) (st : SessionState),
      Restarted id m { s₁ with controls := c, state := st } := by
    intro c st
    refine ⟨⟨hoffering.role, hoffering.transferId, hoffering.manifest,
      hoffering.tracks.congr rfl rfl rfl rfl⟩, rfl, fun id f hf => ?_, fun id f hf hc => ?_⟩
    · obtain ⟨f₀, hf₀, rfl⟩ := hget id f hf
      unfold FileRuntime.restart
      split
      · next hcomplete => exact (h.tracks.get hf₀).2.2.idle hcomplete
      · rfl
    · obtain ⟨f₀, hf₀, rfl⟩ := hget id f hf
      unfold FileRuntime.restart at hc ⊢
      split at hc
      · next hcomplete =>
          rw [hcomplete] at hc
          cases hc
      · next hcomplete =>
          rw [if_neg hcomplete]
          exact ⟨rfl, rfl⟩
  have htracks : ∀ c, Tracks m { s₁ with controls := c } := fun c =>
    hoffering.tracks.congr rfl rfl rfl rfl
  refine (resumeQueries_asks id m.entries (fun _ he => he) (htracks _)).mono
    (fun _ s' hrun => ?_) fun _ _ hf => hf
  obtain ⟨q, rfl, hasks⟩ := hrun
  refine ⟨hrestarted _ _, trivial, fun t ht => ?_, rfl⟩
  change t ∈ s.controls ++ (TransferSession.offer _ m).map OutboundMessage.transfer ++ q at ht
  rw [hq, List.nil_append] at ht
  rcases List.mem_append.1 ht with ht | ht
  · exact offer_asks (by exact h.transferId) ht
  · exact hasks t ht

theorem offerer_cannot_reconnect (hrole : s.role = .offerer)
    (hst : s.state = .completed ∨ s.state = .rejected ∨ s.state = .cancelled) :
    Ends reconnect s (fun _ _ => False) fun _ _ => True := by
  simp only [reconnect, ends_steps, ends_queueTransfers, ends_calls]
  refine ⟨fun hdone => ?_, fun _ => ⟨fun _ => trivial, fun hne => absurd hst hne⟩⟩
  rw [hrole] at hdone
  exact absurd hdone.2 (by decide)

/-! ## Both ends of a transfer -/

section Ends

variable {offererConfig accepterConfig : SessionConfig} {offerer accepter : TransferSession}

theorem Offering.drained (h : Offering id m s) : Offering id m s.drained :=
  ⟨h.role, h.transferId, h.manifest, h.tracks.congr rfl rfl rfl rfl⟩

theorem restarted_left {f₀ : FileRuntime} {role : SessionRole} :
    (f₀.restart role).complete = f₀.complete ∧ (f₀.restart role).entry = f₀.entry ∧
      (f₀.restart role).baseOffset = f₀.baseOffset := by
  unfold FileRuntime.restart
  split
  · exact ⟨rfl, rfl, rfl⟩
  · exact ⟨rfl, rfl, rfl⟩

/-- The connection breaks when the accepter has completed the transfer and the
offerer has not. The completion survives exactly if the offerer may reconnect,
has a file left, and has last started every file that is left at its end. -/
theorem completionSurvives_iff_canResume
    (ho : newOfferer id m offererConfig = .ok offerer)
    (ha : newAccepter id accepterConfig = .ok accepter) (offererOps accepterOps : List Op)
    (hmanifest : (final accepter accepterOps).manifest = some m)
    (hcompleted : (final accepter accepterOps).state = .completed)
    (hbefore : (final offerer offererOps).state ≠ .completed) :
    CompletionSurvives (final offerer offererOps) (final accepter accepterOps) ↔
      CanResume (final offerer offererOps) := by
  have hoff := offering_run ho offererOps
  have hacc : CompletedWith id m (final accepter accepterOps).drained :=
    CompletedWith.controls ⟨accepting_run ha accepterOps, hcompleted, hmanifest⟩ []
  obtain ⟨hasome, _, hacc', es, hnews, hes, hcover⟩ := (accepter_reconnects hacc).succeeds
  by_cases hend : (final offerer offererOps).state = .rejected ∨
      (final offerer offererOps).state = .cancelled
  · -- the offerer itself refuses
    constructor
    · intro h
      have hosome := h.1
      rw [(offerer_cannot_reconnect hoff.drained.role (.inr hend)).fails] at hosome
      cases hosome
    · intro h
      rcases hend with hend | hend
      · exact absurd hend h.rejected
      · exact absurd hend h.cancelled
  obtain ⟨hosome, _, hr, hst, hasks, hfiles⟩ := (offerer_reconnects hoff.drained rfl
    (not_or.2 ⟨hbefore, hend⟩)).succeeds
  rw [not_or] at hend
  -- the files before and after the reconnect
  have hget : ∀ fileId : FileId,
      (after reconnect (final offerer offererOps).drained).files[fileId]? =
        ((final offerer offererOps).files[fileId]?).map
          (·.restart (final offerer offererOps).role) := by
    intro fileId
    rw [hfiles]
    exact Std.TreeMap.getElem?_map
  constructor
  · rintro ⟨_, _, hdelivers⟩
    obtain ⟨⟨e, he, hfalse⟩, hat⟩ := needs_of_delivers hdelivers hr.drained hst
      hnews hes
    refine ⟨hend.1, hend.2, ?_, fun fileId f hf hc => ?_⟩
    · obtain ⟨f, hf, _⟩ := hoff.tracks.file e he
      refine ⟨e.fileId, f, hf, ?_⟩
      have hf' := hget e.fileId
      rw [hf] at hf'
      change completeAt (after reconnect (final offerer offererOps).drained).files e.fileId =
        false at hfalse
      rwa [completeAt_eq hf', restarted_left.1] at hfalse
    · obtain ⟨hmem, hid, _⟩ := hoff.tracks.get hf
      have hf' := hget f.entry.fileId
      rw [hid, hf] at hf'
      rw [← hid] at hf'
      have := hat f.entry (hcover _ hmem) _ hf' (restarted_left.1.trans hc)
      rwa [restarted_left.2.1, restarted_left.2.2] at this
  · intro h
    obtain ⟨fileId, f, hf, hc⟩ := h.left
    obtain ⟨hmem, hid, _⟩ := hoff.tracks.get hf
    have hsettles : Settles id m
        (relink (final offerer offererOps) (final accepter accepterOps)) → _ :=
      delivers_of_settles (Nat.lt_succ_self _)
    refine ⟨hosome, hasome, hsettles ?_⟩
    refine ⟨hacc', rfl, hasks, hr.drained, rfl, .files es [] hnews hes ?_ ?_ ?_ (.inl ⟨hst, ?_⟩)⟩
    · exact fun t ht => absurd ht List.not_mem_nil
    · exact fun e he _ => hcover e he
    · intro fileId f' hf' hc'
      change (after reconnect (final offerer offererOps).drained).files[fileId]? = some f' at hf'
      rw [hget] at hf'
      obtain ⟨f₀, hf₀, rfl⟩ := Option.map_eq_some_iff.1 hf'
      rw [restarted_left.2.1, restarted_left.2.2]
      exact h.atEnd fileId f₀ hf₀ (restarted_left.1.symm.trans hc')
    · refine ⟨f.entry, hmem, ?_⟩
      have hf' := hget f.entry.fileId
      rw [hid, hf] at hf'
      show completeAt (after reconnect (final offerer offererOps).drained).files
        f.entry.fileId = false
      rw [hid, completeAt_eq hf', restarted_left.1, hc]

end Ends

/-! ## A transfer of one file

Each end is given what the other has queued, up to the completion of the file at
the accepter; what the accepter queues then is lost. -/

section Exchange

def exchangeId : Transfer.Id := .replicate 16 1

def exchangeDigest : Digest := ⟨.sha256, .replicate 32 5⟩

def exchangeManifest : Manifest where
  digest := exchangeDigest
  entries := [⟨exchangeId, ascii "a", 3, exchangeDigest, ⟨none, none⟩⟩]
  totalSize := 3
  ok :=
    { length := by decide
      ids := by decide
      paths := by decide
      sum := rfl
      bound := by decide }

def exchangeOfferer : TransferSession :=
  TransferSession.installManifest
    { role := .offerer, transferId := exchangeId, config := {} } exchangeManifest

def exchangeAccepter : TransferSession :=
  { role := .accepter, transferId := exchangeId, config := {} }

/-- The peer is given what the session has queued. -/
def TransferSession.arrivals (s : TransferSession) : List Op :=
  s.controls.map fun
    | .pairing message => .handlePairing message
    | .transfer message => .handleControl message

def offererStarts : List Op := [.start]

def accepterAccepts : List Op :=
  .start :: (final exchangeOfferer offererStarts).arrivals ++ [.acceptOffer .accept .ask []]

def offererQueries : List Op :=
  offererStarts ++ .drainControl :: (final exchangeAccepter accepterAccepts).arrivals

def accepterStates : List Op :=
  accepterAccepts ++ .drainControl :: (final exchangeOfferer offererQueries).arrivals

def offererSends : List Op :=
  offererQueries ++ .drainControl :: (final exchangeAccepter accepterStates).arrivals ++
    [.queueData exchangeId [1, 2, 3] true]

def accepterCompletes : List Op :=
  accepterStates ++ .drainControl :: (final exchangeOfferer offererSends).arrivals ++
    (final exchangeOfferer offererSends).data.map .handleData ++
    [.checkpoint exchangeId 3 1, .completeFile exchangeId 3 exchangeDigest]

theorem exchange_manifest :
    (final exchangeAccepter accepterCompletes).manifest = some exchangeManifest := by
  have hfields : (final exchangeAccepter accepterCompletes).manifest.map
      (fun m => (m.digest, m.entries, m.totalSize)) =
        some (exchangeManifest.digest, exchangeManifest.entries, exchangeManifest.totalSize) := by
    decide +kernel
  obtain ⟨m, hm, heq⟩ := Option.map_eq_some_iff.1 hfields
  rw [hm]
  simp only [Prod.mk.injEq] at heq
  exact congrArg some (Manifest.ext heq.1 heq.2.1 heq.2.2)

theorem exchange_states :
    (final exchangeAccepter accepterCompletes).state = .completed ∧
      (final exchangeOfferer offererSends).state = .sendingData := by decide +kernel

/-- All three bytes have been sent, received and completed, but the news of it
is lost. After the reconnect the offerer refuses it. -/
theorem completion_is_refused :
    ¬ ∀ (id : TransferId) (m : Manifest) (offererConfig accepterConfig : SessionConfig)
        (offerer accepter : TransferSession) (offererOps accepterOps : List Op),
      newOfferer id m offererConfig = .ok offerer →
      newAccepter id accepterConfig = .ok accepter →
      (final accepter accepterOps).manifest = some m →
      (final accepter accepterOps).state = .completed →
      (final offerer offererOps).state ≠ .completed →
      CompletionSurvives (final offerer offererOps) (final accepter accepterOps) := by
  intro hall
  obtain ⟨_, _, hdelivers⟩ := hall exchangeId exchangeManifest {} {} exchangeOfferer
    exchangeAccepter offererSends accepterCompletes rfl rfl exchange_manifest
    exchange_states.1 (by rw [exchange_states.2]; decide)
  have hq : (relink (final exchangeOfferer offererSends)
      (final exchangeAccepter accepterCompletes)).toOfferer =
      .transfer (.fileComplete exchangeId 3 exchangeDigest) ::
        [.transfer (.transferComplete exchangeId 1 3)] := by decide +kernel
  have hfails : (answer (handle (.transfer (.fileComplete exchangeId 3 exchangeDigest)))
      (relink (final exchangeOfferer offererSends)
        (final exchangeAccepter accepterCompletes)).offerer).isSome = false := by decide +kernel
  have hok := (hdelivers.offerer_ok hq).1
  rw [hfails] at hok
  cases hok

theorem completionSurvives_iff_canResume_one_file :
    newOfferer exchangeId exchangeManifest {} = .ok exchangeOfferer ∧
      newAccepter exchangeId {} = .ok exchangeAccepter ∧
      (CompletionSurvives (final exchangeOfferer offererSends)
          (final exchangeAccepter accepterCompletes) ↔
        CanResume (final exchangeOfferer offererSends)) := by
  have ho : newOfferer exchangeId exchangeManifest {} = .ok exchangeOfferer := rfl
  have ha : newAccepter exchangeId {} = .ok exchangeAccepter := rfl
  exact ⟨ho, ha, completionSurvives_iff_canResume ho ha offererSends accepterCompletes
    exchange_manifest exchange_states.1 (by rw [exchange_states.2]; decide)⟩

end Exchange

end DartUdp.Session
