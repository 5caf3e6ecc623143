import DartUdp.Session.Peers

/-!
# What a call can do to a session

Every call is a chain of a few kinds of edits, and each kind comes with what
the code has made sure of before it: what it says to the other end is so, and
what it does on the word of the call says which call that is. The invariants of
the session are then shown edit by edit, and no proof about runs looks into a
handler again.

`perform_does` is the result. On the way to it there is one lemma for each method of
the source (`handleControl_does` has those for the messages).
-/

namespace DartUdp.Session

open DartUdp.Lib DartUdp.Transfer

/-- The offsets of a file stay within it, and while it comes in what is there
starts no later than it ends. Only an offerer counts what it has sent, and a
complete file has no stream. -/
structure FileOk (role : SessionRole) (f : FileRuntime) : Prop where
  durable : f.durableOffset ≤ f.entry.size
  received : f.receivedOffset ≤ f.entry.size
  sent : f.baseOffset + f.sendOffset ≤ f.entry.size
  unsent : role = .accepter → f.sendOffset = 0
  idle : f.complete = true → f.activeStreamId = none
  begun : role = .accepter → f.activeStreamId.isSome → f.baseOffset ≤ f.receivedOffset

/-- The states that say nothing about what has happened before. -/
def SessionState.loose : SessionState → Bool
  | .awaitingResume | .sendingData | .receivingData | .rejected | .cancelled | .failed => true
  | _ => false

/-- The session waits for the last word of the transfer, or has had it. -/
def SessionState.closing : SessionState → Bool
  | .awaitingTransferComplete | .completed => true
  | _ => false

/-! ## What a call allows -/

/-- `handle_file_begin` gets past its own checks. -/
structure Begins (s : TransferSession) (id : FileId) (baseOffset remainingSize : Nat)
    (contentHash : Digest) : Prop where
  role : s.role = .accepter
  file : ∃ f, s.files[id]? = some f ∧ f.complete = false ∧ baseOffset ≤ f.entry.size ∧
    contentHash = f.entry.contentHash ∧ remainingSize = f.entry.size - baseOffset ∧
    f.activeStreamId = none ∧ baseOffset = f.durableOffset
  room : s.activeFileCount < s.config.maxParallelFiles

/-- A call that gets a file begun at the accepter. -/
def BeginsBy (s : TransferSession) : Op → Prop
  | .handleControl (.fileBegin id _ baseOffset remainingSize contentHash) =>
      Begins s id baseOffset remainingSize contentHash
  | .handleControlWithFlags (.fileBegin id _ baseOffset remainingSize contentHash) errorFlag =>
      errorFlag = false ∧ Begins s id baseOffset remainingSize contentHash
  | _ => False

/-- The peer's answer names a later checkpoint that is safe only up to an earlier byte,
and `handle_resume_state` takes it. -/
structure FallsBack (s : TransferSession) (id : FileId) (answer : DurableState) : Prop where
  role : s.role = .offerer
  resuming : s.state = .awaitingResume ∨ s.state = .sendingData ∨
    s.state = .awaitingTransferComplete
  file : ∃ f, s.files[id]? = some f ∧ f.complete = false ∧ answer.durableOffset ≤ f.entry.size ∧
    f.checkpointId < answer.checkpointId ∧ answer.durableOffset < f.durableOffset

/-- A call that takes the checkpoint of a file back. -/
def Regresses (s : TransferSession) : Op → Prop
  | .handleControl (.resumeState id durableOffset checkpointId stateHash) =>
      FallsBack s id ⟨durableOffset, checkpointId, stateHash⟩
  | .handleControlWithFlags (.resumeState id durableOffset checkpointId stateHash) errorFlag =>
      errorFlag = false ∧ FallsBack s id ⟨durableOffset, checkpointId, stateHash⟩
  | _ => False

/-- A message that can be answered with word that the transfer is complete. -/
def announcedBy : TransferControl → Bool
  | .resumeQuery .. | .fileBegin .. | .transferError .. => true
  | _ => false

/-- A call that can queue word that the transfer is complete. -/
def Op.announces : Op → Bool
  | .acceptOffer .. | .completeFile .. | .completeFileWithStorage .. => true
  | .respondToResumeQueryWithStorage .. | .reconnect => true
  | .handleControl message | .handleControlWithFlags message _ => announcedBy message
  | _ => false

/-- What a message says of the session that queues it is so. -/
def Says (op : Op) (s : TransferSession) : OutboundMessage → Prop
  | .transfer (.fileBegin ..) => False
  | .transfer (.fileComplete id size contentHash) =>
      s.role = .accepter ∧ ∃ (key : FileId) (f : FileRuntime), s.files[key]? = some f ∧
        (key = id ∨ f.entry.fileId = id) ∧ f.complete = true ∧ f.entry.size = size ∧
        f.entry.contentHash = contentHash
  | .transfer (.manifestBegin fileCount totalSize digest) =>
      s.role = .offerer ∧ ∃ m, s.manifest = some m ∧
        (fileCount, totalSize, digest) = (m.fileCount, m.totalSize, m.digest)
  | .transfer (.manifestItem id relativePath size contentHash metadata) =>
      s.role = .offerer ∧ ∃ m, s.manifest = some m ∧
        ⟨id, relativePath, size, contentHash, metadata⟩ ∈ m.entries
  | .transfer (.checkpoint id durableOffset _) | .transfer (.resumeState id durableOffset _ _) =>
      ∃ f, s.files[id]? = some f ∧ f.durableOffset = durableOffset
  | .transfer (.transferComplete ..) => op.announces = true
  | _ => True

/-! ## The edits -/

/-- A file is written, and with it the counter of the streams and the queues. -/
inductive Write (op : Op) (t s : TransferSession) (id : FileId) (f : FileRuntime) :
    FileRuntime → Nat → List OutboundMessage → List DataChunk → Prop
  | kept (durableOffset checkpointId : Nat) (stateHash : Digest)
      (hok : FileOk s.role f → durableOffset ≤ f.entry.size)
      (hback : ¬ f.staleCheckpoint durableOffset checkpointId ∨ Regresses t op)
      (hwhy : s.role = .offerer ∨ durableOffset ≤ f.durableOffset ∨
        op.restores = some (id, durableOffset) ∨
        durableOffset ≤ f.receivedOffset ∧ op.marks = some (id, durableOffset)) :
      Write op t s id f { f with durableOffset, checkpointId, stateHash }
        s.nextStreamId s.controls s.data
  | received (receivedOffset : Nat) (awaitingFinish : Bool) (hrole : s.role = .accepter)
      (hbrings : op.brings.isSome = true)
      (hok : FileOk s.role f → f.baseOffset ≤ receivedOffset ∧ receivedOffset ≤ f.entry.size) :
      Write op t s id f { f with receivedOffset, awaitingFinish } s.nextStreamId s.controls s.data
  | taken {streamId remainingSize : Nat} {contentHash : Digest} (hrole : s.role = .accepter)
      (hears : op.hears =
        some (.fileBegin id streamId f.durableOffset remainingSize contentHash))
      (hbegins : BeginsBy t op) (hc : f.complete = false) (hidle : f.activeStreamId = none)
      (hroom : s.activeFileCount < s.config.maxParallelFiles)
      (hle : f.durableOffset ≤ f.entry.size)
      (hremaining : remainingSize = f.entry.size - f.durableOffset) :
      Write op t s id f
        { f with
          activeStreamId := some streamId
          baseOffset := f.durableOffset
          receivedOffset := f.durableOffset
          awaitingFinish := remainingSize = 0 }
        s.nextStreamId s.controls s.data
  | began (hrole : s.role = .offerer) (hc : f.complete = false) (hidle : f.activeStreamId = none)
      (hroom : s.activeFileCount < s.config.maxParallelFiles)
      (hn : s.nextStreamId + 1 ≤ u64Max) :
      Write op t s id f
        { f with
          activeStreamId := some s.nextStreamId
          baseOffset := f.durableOffset
          sendOffset := 0
          finQueued := f.entry.size = f.durableOffset }
        (s.nextStreamId + 1)
        (s.controls ++ [.transfer (.fileBegin id s.nextStreamId f.durableOffset
          (f.entry.size - f.durableOffset) f.entry.contentHash)])
        s.data
  | cut {streamId : Nat} {bytes : Bytes} {fin : Bool} (hrole : s.role = .offerer)
      (hactive : f.activeStreamId = some streamId) (hqueues : op.queues = some (id, bytes))
      (hstart : t.files[id]? = some f)
      (hle : f.sendOffset + bytes.length ≤ f.entry.size - f.baseOffset)
      (hfin : fin = true → f.sendOffset + bytes.length = f.entry.size - f.baseOffset) :
      Write op t s id f { f with sendOffset := f.sendOffset + bytes.length, finQueued := fin }
        s.nextStreamId s.controls (s.data ++ [⟨id, streamId, f.sendOffset, bytes, fin⟩])

/-- The edits of a session that the call `op` makes, begun on the session `t`. -/
inductive Edit (op : Op) (t s : TransferSession) : TransferSession → Prop
  | controls (c : List OutboundMessage)
      (hc : ∀ message ∈ c, message ∈ s.controls ∨ Says op s message) :
      Edit op t s { s with controls := c }
  | data (d : List DataChunk) (hd : d ⊆ s.data) : Edit op t s { s with data := d }
  | path (p : PathState) : Edit op t s { s with path := p }
  | activity (n : Nat) : Edit op t s { s with lastActivityMillis := n }
  | streamId (hn : s.nextStreamId + 1 ≤ u64Max) :
      Edit op t s { s with nextStreamId := s.nextStreamId + 1 }
  | pending (p : Std.TreeMap FileId DurableState)
      (hp : ∀ id ∈ p, id ∈ s.pendingResumes ∨ (s.files[id]?).isSome) :
      Edit op t s { s with pendingResumes := p }
  | decision (d : Option Bool) : Edit op t s { s with receiveDecision := d }
  | state (st : SessionState) (hst : st.loose = true) : Edit op t s { s with state := st }
  | turn (st : SessionState) (hrole : s.role = .offerer)
      (hst : st.closing = true → s.state.closing = true ∨ s.files.isEmpty = true ∨
        s.completedFiles = s.files.size) :
      Edit op t s { s with state := st }
  | start (hrole : s.role = .accepter) (hst : s.state = .new) :
      Edit op t s { s with state := .awaitingHello }
  | hello (d : Digest) (hrole : s.role = .accepter) (hst : s.state = .awaitingHello) :
      Edit op t s { s with remoteManifestDigest := some d, state := .receivingManifest }
  | assemble (a : ManifestAssembly) (hrole : s.role = .accepter)
      (hst : s.state = .receivingManifest) (hd : s.remoteManifestDigest = some a.digest)
      (hempty : a.entries = [])
      (hears : op.hears = some (.manifestBegin a.expectedCount a.expectedSize a.digest)) :
      Edit op t s { s with assembly := some a }
  | extend (a : ManifestAssembly) (e : ManifestEntry) (hrole : s.role = .accepter)
      (ha : s.assembly = some a)
      (hears : op.hears =
        some (.manifestItem e.fileId e.relativePath e.size e.contentHash e.metadata)) :
      Edit op t s { s with assembly := some { a with entries := a.entries ++ [e] } }
  | discard : Edit op t s { s with assembly := none }
  | install (a : ManifestAssembly) {digest : Digest} {m : Manifest} (hrole : s.role = .accepter)
      (ha : s.assembly = some a) (hm : a.finish digest = .ok m) :
      Edit op t s { s.installManifest m with assembly := none, state := .awaitingDecision }
  | acceptEmpty (hrole : s.role = .accepter) (hst : s.state = .awaitingDecision)
      (hf : s.files.isEmpty = true) : Edit op t s { s with state := .completed }
  | write {id : FileId} {f g : FileRuntime} {n : Nat} {c : List OutboundMessage}
      {d : List DataChunk} (hf : s.files[id]? = some f) (hw : Write op t s id f g n c d) :
      Edit op t s
        { s with files := s.files.insert id g, nextStreamId := n, controls := c, data := d }
  | complete (id : FileId) (f : FileRuntime) (hf : s.files[id]? = some f)
      (hc : f.complete = false)
      (hwhy : s.role = .offerer ∧
          op.hears = some (.fileComplete id f.entry.size f.entry.contentHash) ∨
        s.role = .accepter ∧ f.durableOffset = f.entry.size) :
      Edit op t s
        { s with
          files := s.files.insert id { f with complete := true, activeStreamId := none }
          completedFiles := s.completedFiles + 1
          completedSize := s.completedSize + f.entry.size }
  | finish (hrole : s.role = .accepter) (id : FileId) (f : FileRuntime)
      (hf : s.files[id]? = some f) (hall : s.completedFiles = s.files.size) :
      Edit op t s { s with state := .completed }
  | restart : Edit op t s { s with files := s.files.map fun _ f => f.restart s.role }

/-- A chain of edits. -/
abbrev Edits (op : Op) (t : TransferSession) : TransferSession → TransferSession → Prop :=
  Relation.ReflTransGen (Edit op t)

/-- Whichever way `m` ends, it has made a chain of edits. -/
abbrev Does (op : Op) (t : TransferSession) {α : Type} (m : SessionM α) (s : TransferSession) :
    Prop :=
  Ends m s (fun _ => Edits op t s) fun _ => Edits op t s

variable {op : Op} {t s s' s'' : TransferSession} {α β : Type}

theorem Edits.step (h : Edits op t s s') (e : Edit op t s' s'') : Edits op t s s'' := .tail h e

theorem says_append {messages : List OutboundMessage}
    (h : ∀ message ∈ messages, Says op s message) :
    ∀ message ∈ s.controls ++ messages, message ∈ s.controls ∨ Says op s message :=
  fun message hm => (List.mem_append.1 hm).imp_right (h message)

/-- Messages are queued. -/
theorem Edit.tell {messages : List OutboundMessage}
    (h : ∀ message ∈ messages, Says op s message) :
    Edit op t s { s with controls := s.controls ++ messages } := .controls _ (says_append h)

theorem Edit.say {message : OutboundMessage} (h : Says op s message) :
    Edit op t s { s with controls := s.controls ++ [message] } :=
  .tell fun _ hm => List.mem_singleton.1 hm ▸ h

/-! ## The writes -/

namespace Write

variable {id : FileId} {f g : FileRuntime} {n : Nat} {c : List OutboundMessage} {d : List DataChunk}

theorem entry (h : Write op t s id f g n c d) : g.entry = f.entry := by cases h <;> rfl

theorem complete (h : Write op t s id f g n c d) : g.complete = f.complete := by cases h <;> rfl

theorem active (h : Write op t s id f g n c d) (hg : g.activeStreamId.isSome = true) :
    f.activeStreamId.isSome = true ∨ s.role = .offerer ∨ BeginsBy t op := by
  cases h with
  | kept | received => exact .inl hg
  | taken _ _ hbegins => exact .inr (.inr hbegins)
  | began hrole | cut hrole => exact .inr (.inl hrole)

theorem ok (h : Write op t s id f g n c d) (hf : FileOk s.role f) : FileOk s.role g := by
  have hsent := hf.sent
  cases h with
  | kept durableOffset checkpointId stateHash hok =>
      exact ⟨hok hf, hf.received, hsent, hf.unsent, hf.idle, hf.begun⟩
  | received receivedOffset awaitingFinish hrole hbrings hok =>
      exact ⟨hf.durable, (hok hf).2, hsent, hf.unsent, hf.idle, fun _ _ => (hok hf).1⟩
  | taken hrole _ _ hc _ _ hle =>
      refine ⟨hf.durable, hle, ?_, hf.unsent, fun hcomplete => ?_, fun _ _ => Nat.le_refl _⟩
      · rw [hf.unsent hrole]
        exact hle
      · exact absurd (hc.symm.trans hcomplete) Bool.false_ne_true
  | began hrole hc =>
      exact ⟨hf.durable, hf.received, hf.durable, fun _ => rfl,
        fun hcomplete => absurd (hc.symm.trans hcomplete) Bool.false_ne_true,
        fun ha => absurd (hrole.symm.trans ha) nofun⟩
  | @cut _ bytes _ hrole _ _ _ hle =>
      refine ⟨hf.durable, hf.received, ?_, fun ha => absurd (hrole.symm.trans ha) nofun, hf.idle,
        hf.begun⟩
      show f.baseOffset + (f.sendOffset + bytes.length) ≤ f.entry.size
      omega

end Write

/-! ## The files of a manifest -/

theorem Manifest.ids_distinct (m : Manifest) :
    (m.entries.map fun e =>
      (e.fileId, FileRuntime.new e ⟨m.digest.algorithm, .replicate 32 0⟩)).Pairwise
        fun a b => ¬ compare a.1 b.1 = .eq := by
  have := m.ok.ids
  rw [List.Nodup, List.pairwise_map] at this
  rw [List.pairwise_map]
  refine this.imp fun hne heq => hne ?_
  exact Std.compare_eq_iff_eq.1 heq

theorem Manifest.runtimes_get {m : Manifest} {id : FileId} {f : FileRuntime} :
    m.runtimes[id]? = some f ↔
      ∃ e ∈ m.entries, e.fileId = id ∧
        f = FileRuntime.new e ⟨m.digest.algorithm, .replicate 32 0⟩ := by
  have hin : ∀ e ∈ m.entries, m.runtimes[e.fileId]? =
      some (FileRuntime.new e ⟨m.digest.algorithm, .replicate 32 0⟩) := fun e he =>
    Std.TreeMap.getElem?_ofList_of_mem (Std.compare_eq_iff_eq.2 rfl) m.ids_distinct
      (List.mem_map_of_mem he)
  constructor
  · intro h
    by_cases hid : ∃ e ∈ m.entries, e.fileId = id
    · obtain ⟨e, he, rfl⟩ := hid
      rw [hin e he] at h
      exact ⟨e, he, rfl, (Option.some.inj h).symm⟩
    · have hnone : m.runtimes[id]? = none := by
        refine Std.TreeMap.getElem?_ofList_of_contains_eq_false ?_
        simpa using fun e he => (not_exists.1 hid e <| ⟨he, ·⟩)
      rw [hnone] at h
      cases h
  · rintro ⟨e, he, rfl, rfl⟩
    exact hin e he

theorem Manifest.runtimes_size (m : Manifest) : m.runtimes.size = m.entries.length := by
  unfold Manifest.runtimes
  rw [Std.TreeMap.size_ofList m.ids_distinct, List.length_map]

/-! ## The building blocks -/

section Blocks

variable {Q : α → TransferSession → Prop} {E : CoreError → TransferSession → Prop}

@[simp] theorem ends_changeState {Q : List SessionEvent → TransferSession → Prop}
    {st : SessionState} :
    Ends (changeState st) s Q E ↔
      Q (if s.state = st then [] else [.stateChanged s.state st]) { s with state := st } := by
  unfold changeState
  by_cases h : s.state = st
  · subst h
    simp
  · simp [h]

@[simp] theorem ends_requireRole {Q : Unit → TransferSession → Prop} {role : SessionRole}
    {operation : String} :
    Ends (requireRole role operation) s Q E ↔
      (s.role = role → Q () s) ∧ (s.role ≠ role → E (.invalidRole operation) s) := by
  simp [requireRole]

@[simp] theorem ends_checkTransferId {Q : Unit → TransferSession → Prop} {id : TransferId} :
    Ends (checkTransferId id) s Q E ↔
      (s.transferId = id → Q () s) ∧ (s.transferId ≠ id → E .invalidTransferId s) := by
  simp [checkTransferId]

@[simp] theorem ends_stateError {Q : List SessionEvent → TransferSession → Prop}
    {operation : String} :
    Ends (stateError operation) s Q E ↔ E (.invalidState operation s.state.name) s := by
  simp [stateError]

@[simp] theorem ends_file {Q : FileRuntime → TransferSession → Prop} {id : FileId} :
    Ends (file id) s Q E ↔
      (∀ f, s.files[id]? = some f → Q f s) ∧
        (s.files[id]? = none → E (.unknownFile id) s) := by
  simp only [file, ends_bind, ends_get]
  cases h : s.files[id]? with
  | none => simp
  | some f => simp

@[simp] theorem ends_setFile {Q : Unit → TransferSession → Prop} {id : FileId}
    {f : FileRuntime} :
    Ends (setFile id f) s Q E ↔ Q () { s with files := s.files.insert id f } := Iff.rfl

@[simp] theorem ends_queueTransfer {Q : Unit → TransferSession → Prop} {m : TransferControl} :
    Ends (queueTransfer m) s Q E ↔
      Q () { s with controls := s.controls ++ [.transfer m] } := Iff.rfl

@[simp] theorem ends_queuePairing {Q : Unit → TransferSession → Prop} {m : PairingControl} :
    Ends (queuePairing m) s Q E ↔
      Q () { s with controls := s.controls ++ [.pairing m] } := Iff.rfl

@[simp] theorem ends_queueTransfers {Q : Unit → TransferSession → Prop}
    {ms : List TransferControl} :
    Ends (queueTransfers ms) s Q E ↔
      Q () { s with controls := s.controls ++ ms.map .transfer } := Iff.rfl

@[simp] theorem ends_validateOffset {Q : Unit → TransferSession → Prop} {id : FileId}
    {offset maximum : Nat} :
    Ends (validateOffset id offset maximum) s Q E ↔
      (offset ≤ maximum → Q () s) ∧
        (¬ offset ≤ maximum → E (.invalidOffset id offset maximum) s) := by
  simp only [validateOffset, ends_ite, ends_throw, ends_pure, not_not]
  exact and_comm

@[simp] theorem ends_repeatComplete {Q : List SessionEvent → TransferSession → Prop}
    {f : FileRuntime} {id : FileId} :
    Ends (repeatComplete f id) s Q E ↔
      Q [.duplicateControl]
        { s with
          controls := s.controls ++
            [.transfer (.fileComplete id f.entry.size f.entry.contentHash),
              .transfer (.transferComplete s.transferId s.completedFiles s.completedSize)] } :=
  Iff.rfl

/-- The rules of the calls within a session, as one set for `simp`. -/
theorem ends_calls :
    (∀ (st : SessionState) (s : TransferSession) (Q : List SessionEvent → TransferSession → Prop)
      (E : CoreError → TransferSession → Prop), Ends (changeState st) s Q E ↔
        Q (if s.state = st then [] else [.stateChanged s.state st]) { s with state := st }) ∧
    (∀ (role : SessionRole) (operation : String) (s : TransferSession)
      (Q : Unit → TransferSession → Prop) (E : CoreError → TransferSession → Prop),
      Ends (requireRole role operation) s Q E ↔
        (s.role = role → Q () s) ∧ (s.role ≠ role → E (.invalidRole operation) s)) ∧
    (∀ (id : TransferId) (s : TransferSession) (Q : Unit → TransferSession → Prop)
      (E : CoreError → TransferSession → Prop), Ends (checkTransferId id) s Q E ↔
        (s.transferId = id → Q () s) ∧ (s.transferId ≠ id → E .invalidTransferId s)) ∧
    (∀ (operation : String) (s : TransferSession)
      (Q : List SessionEvent → TransferSession → Prop) (E : CoreError → TransferSession → Prop),
      Ends (stateError operation) s Q E ↔ E (.invalidState operation s.state.name) s) ∧
    (∀ (id : FileId) (s : TransferSession) (Q : FileRuntime → TransferSession → Prop)
      (E : CoreError → TransferSession → Prop), Ends (file id) s Q E ↔
        (∀ f, s.files[id]? = some f → Q f s) ∧ (s.files[id]? = none → E (.unknownFile id) s)) ∧
    (∀ (id : FileId) (f : FileRuntime) (s : TransferSession) (Q : Unit → TransferSession → Prop)
      (E : CoreError → TransferSession → Prop),
      Ends (setFile id f) s Q E ↔ Q () { s with files := s.files.insert id f }) ∧
    (∀ (m : TransferControl) (s : TransferSession) (Q : Unit → TransferSession → Prop)
      (E : CoreError → TransferSession → Prop), Ends (queueTransfer m) s Q E ↔
        Q () { s with controls := s.controls ++ [.transfer m] }) ∧
    ∀ (id : FileId) (offset maximum : Nat) (s : TransferSession)
      (Q : Unit → TransferSession → Prop) (E : CoreError → TransferSession → Prop),
      Ends (validateOffset id offset maximum) s Q E ↔ (offset ≤ maximum → Q () s) ∧
        (¬ offset ≤ maximum → E (.invalidOffset id offset maximum) s) :=
  ⟨fun _ _ _ _ => ends_changeState, fun _ _ _ _ _ => ends_requireRole,
    fun _ _ _ _ => ends_checkTransferId, fun _ _ _ _ => ends_stateError,
    fun _ _ _ _ => ends_file, fun _ _ _ _ _ => ends_setFile, fun _ _ _ _ => ends_queueTransfer,
    fun _ _ _ _ _ _ => ends_validateOffset⟩

end Blocks

/-- A chain may be made up of the chains of its parts. -/
theorem Does.bind {m : SessionM α} {f : α → SessionM β} (hm : Does op t m s)
    (hf : ∀ a s', Edits op t s s' → Does op t (f a) s') : Does op t (m >>= f) s := by
  cases hrun : m s with
  | ok a s' =>
      have hfirst : Edits op t s s' := hm.ok hrun
      unfold Does Ends
      rw [bind_ok hrun]
      exact (hf a s' hfirst).mono (fun _ _ h => hfirst.trans h) fun _ _ h => hfirst.trans h
  | error e s' =>
      unfold Does Ends
      rw [bind_error hrun]
      exact hm.error hrun

theorem Edit.role_eq (h : Edit op t s s') : s'.role = s.role := by
  cases h <;> rfl

theorem Edits.role_eq (h : Edits op t s s') : s'.role = s.role := by
  induction h with
  | refl => rfl
  | tail _ hstep ih => exact hstep.role_eq.trans ih

/-! ## The offer -/

theorem says_offer {m : Manifest} (hrole : s.role = .offerer) (hm : s.manifest = some m) :
    ∀ message ∈ (s.offer m).map OutboundMessage.transfer, Says op s message := by
  intro message hmem
  obtain ⟨control, hc, rfl⟩ := List.mem_map.1 hmem
  simp only [TransferSession.offer, List.cons_append, List.mem_cons, List.mem_append,
    List.mem_map, List.not_mem_nil, or_false] at hc
  rcases hc with rfl | rfl | ⟨e, he, rfl⟩ | rfl
  · trivial
  · exact ⟨hrole, m, hm, rfl⟩
  · exact ⟨hrole, m, hm, he⟩
  · trivial

theorem start_does : Does op t start s := by
  simp only [start, startOfferer, ends_steps, ends_stateError]
  refine ⟨fun _ => .refl, fun hst => ?_⟩
  cases hrole : s.role with
  | offerer =>
      simp only [ends_bind, ends_get]
      cases hm : s.manifest with
      | none => exact .refl
      | some manifest =>
          simp only [ends_bind, ends_changeState, ends_queueTransfers, ends_pure]
          exact Edits.step (.single (.tell (says_offer hrole hm)))
            (.turn .awaitingDecision hrole fun hc => by cases hc)
  | accepter =>
      simp only [ends_changeState]
      exact .single (.start hrole (not_not.1 hst))

theorem acceptOffer_does (hannounces : op.announces = true) (decision : AcceptDecision)
    (policy : OverwritePolicy) (label : Bytes) :
    Does op t (acceptOffer decision policy label) s := by
  simp only [acceptOffer, ends_steps, ends_calls]
  refine ⟨fun hrole => ⟨fun _ => .refl, fun hst => ?_⟩, fun _ => .refl⟩
  have htold : Says op s (.transfer (.receiveDecision (decision == .accept) policy label)) :=
    trivial
  refine ⟨fun _ => ?_, fun _ => ⟨fun hf => ?_, fun _ => ?_⟩⟩
  · exact Edits.step (.single (.say htold)) (.state .rejected rfl)
  · exact Edits.step (.step (.single (.say htold)) (.say (by exact hannounces)))
      (.acceptEmpty hrole (not_not.1 hst) hf)
  · exact Edits.step (.single (.say htold)) (.state .awaitingResume rfl)

theorem rejectOffer_does (reasonCode : Nat) : Does op t (rejectOffer reasonCode) s := by
  simp only [rejectOffer, ends_steps, ends_calls, ends_queuePairing]
  exact ⟨fun _ => ⟨fun _ => .refl, fun _ =>
    Edits.step (.single (.say (by trivial))) (.state .rejected rfl)⟩, fun _ => .refl⟩

theorem handleSessionHello_does (id : TransferId) (version : Nat) (suite : CryptoSuite)
    (digest : Digest) : Does op t (handleSessionHello id version suite digest) s := by
  simp only [handleSessionHello, ends_steps, ends_calls]
  refine ⟨fun hrole => ⟨fun _ => ⟨fun _ => .refl, fun _ => ⟨fun _ => .refl, fun hst => ?_⟩⟩,
    fun _ => .refl⟩, fun _ => .refl⟩
  refine ⟨fun _ => .refl, fun _ => ⟨fun _ => .refl, fun _ => ?_⟩⟩
  exact .single (.hello digest hrole (not_not.1 hst))

theorem handleManifestBegin_does {fileCount totalSize : Nat} {digest : Digest}
    (hears : op.hears = some (.manifestBegin fileCount totalSize digest)) :
    Does op t (handleManifestBegin fileCount totalSize digest) s := by
  simp only [handleManifestBegin, ends_steps, ends_calls]
  refine ⟨fun hrole => ⟨fun _ => ⟨fun _ => .refl, fun _ => .refl⟩, fun hst =>
    ⟨fun _ => .refl, fun hd => ⟨fun _ => .refl, fun _ => ?_⟩⟩⟩, fun _ => .refl⟩
  exact .single (.assemble _ hrole (not_not.1 hst) (not_not.1 hd) rfl hears)

theorem handleManifestItem_does {e : ManifestEntry}
    (hears : op.hears =
      some (.manifestItem e.fileId e.relativePath e.size e.contentHash e.metadata)) :
    Does op t (handleManifestItem e) s := by
  simp only [handleManifestItem, ends_bind, ends_get, ends_requireRole]
  refine ⟨fun hrole => ?_, fun _ => .refl⟩
  cases ha : s.assembly with
  | none =>
      simp only [ends_ite, ends_pure, ends_throw]
      exact ⟨fun _ => .refl, fun _ => .refl⟩
  | some assembly =>
      simp only [ends_steps]
      refine ⟨fun _ => .refl, fun _ => ?_⟩
      cases assembly.entries.find? (·.fileId = e.fileId) with
      | some existing =>
          simp only [ends_ite, ends_pure, ends_throw]
          exact ⟨fun _ => .refl, fun _ => .refl⟩
      | none => exact .single (.extend assembly e hrole ha hears)

theorem ManifestAssembly.finish_digest {a : ManifestAssembly} {digest : Digest} {m : Manifest}
    (h : a.finish digest = .ok m) : m.digest = a.digest ∧ m.entries = a.entries := by
  unfold ManifestAssembly.finish at h
  split at h
  · cases h
  next hd =>
  split at h
  · cases h
  split at h
  · cases h
  split at h
  · cases h
  obtain ⟨h1, h2⟩ := Manifest.new_ok h
  exact ⟨h1.trans (not_not.1 hd), h2⟩

theorem handleManifestEnd_does (digest : Digest) : Does op t (handleManifestEnd digest) s := by
  simp only [handleManifestEnd, ends_bind, ends_get, ends_requireRole]
  refine ⟨fun hrole => ?_, fun _ => .refl⟩
  cases ha : s.assembly with
  | none =>
      simp only [ends_ite, ends_pure, ends_throw]
      exact ⟨fun _ => .refl, fun _ => .refl⟩
  | some assembly =>
      simp only [ends_bind, ends_set]
      cases hfinish : assembly.finish digest with
      | error e => exact .single .discard
      | ok m =>
          simp only [ends_bind, ends_modify, ends_changeState]
          exact .single (.install assembly hrole ha hfinish)

theorem handleReceiveDecision_does (accepted : Bool) :
    Does op t (handleReceiveDecision accepted) s := by
  simp only [handleReceiveDecision, ends_steps, ends_calls]
  refine ⟨fun hrole => ⟨fun _ => ⟨fun _ => .refl, fun _ => .refl⟩, fun _ => ⟨fun _ => ?_,
    fun _ => ?_⟩⟩, fun _ => .refl⟩
  · exact Edits.step (.single (.decision (some accepted))) (.state .rejected rfl)
  · split
    · exact .single (.decision _)
    · next manifest _ =>
        have hasked : ∀ message ∈ (manifest.entries.map fun e =>
            TransferControl.resumeQuery e.fileId e.contentHash e.size).map .transfer,
              Says op s message := by
          intro message hm
          obtain ⟨control, hc, rfl⟩ := List.mem_map.1 hm
          obtain ⟨e, -, rfl⟩ := List.mem_map.1 hc
          trivial
        simp only [ends_steps, ends_queueTransfers, ends_changeState]
        have htold : Edits op t s _ :=
          Edits.step (.single (.tell hasked)) (.decision (some accepted))
        refine ⟨fun hempty => ?_, fun _ => Edits.step htold (.state .awaitingResume rfl)⟩
        exact Edits.step htold (.turn .awaitingTransferComplete hrole fun _ => .inr (.inl hempty))

/-! ## Resuming -/

/-- The answer that repeats the completion of a file. -/
theorem repeatComplete_queued {id : FileId} {f : FileRuntime} (hannounces : op.announces = true)
    (hrole : s.role = .accepter) (hf : s.files[id]? = some f) (hc : f.complete = true) :
    ∀ message ∈ [OutboundMessage.transfer (.fileComplete id f.entry.size f.entry.contentHash),
      .transfer (.transferComplete s.transferId s.completedFiles s.completedSize)],
        Says op s message := by
  intro message hm
  rcases List.mem_cons.1 hm with rfl | hm
  · exact ⟨hrole, id, f, hf, .inl rfl, hc, rfl, rfl⟩
  · obtain rfl := List.mem_singleton.1 hm
    exact hannounces

theorem handleResumeQuery_does (hannounces : op.announces = true) (id : FileId)
    (contentHash : Digest) (size : Nat) :
    Does op t (handleResumeQuery id contentHash size) s := by
  simp only [handleResumeQuery, ends_steps, ends_calls, ends_repeatComplete]
  refine ⟨fun hrole => ⟨fun f hf => ⟨fun _ => .refl, fun _ => ⟨fun hc =>
    .single (.tell (repeatComplete_queued hannounces hrole hf hc)), fun _ => ?_⟩⟩, fun _ => .refl⟩,
    fun _ => .refl⟩
  exact ⟨fun _ => ⟨fun _ => .refl, fun _ => .refl⟩, fun _ => .single (.say ⟨f, hf, rfl⟩)⟩

/-- Only an offerer starts files on its own. -/
theorem startFile_does (hrole : s.role = .offerer)
    (hroom : s.activeFileCount < s.config.maxParallelFiles) (id : FileId) :
    Does op t (startFile id) s := by
  simp only [startFile, allocateStreamId, ends_bind, ends_get]
  split
  · next next hnext =>
      obtain ⟨hn, rfl⟩ := checkedAdd_eq_some.1 hnext
      simp only [ends_steps, ends_calls]
      refine ⟨fun f hf => ⟨fun _ => .single (.streamId hn), fun hidle => ?_⟩,
        fun _ => .single (.streamId hn)⟩
      rw [not_or, Option.not_isSome_iff_eq_none, Bool.not_eq_true] at hidle
      exact .single (.write hf (.began hrole hidle.2 hidle.1 hroom hn))
  · exact .refl

theorem startPendingLoop_does (fuel : Nat) (hrole : s.role = .offerer) :
    Does op t (startPendingLoop fuel) s := by
  induction fuel generalizing s with
  | zero => exact .refl
  | succ fuel ih =>
      simp only [startPendingLoop, ends_steps]
      refine ⟨fun _ => .refl, fun hroom => ?_⟩
      split
      · exact .refl
      · next id _ =>
          have herase : Edits op t s { s with pendingResumes := s.pendingResumes.erase id } :=
            .single (.pending _ fun id' hid' => .inl (Std.TreeMap.mem_of_mem_erase hid'))
          rw [ends_bind, ends_set]
          refine Within.trans herase
            (Does.bind (startFile_does ?_ ?_ id) fun events s₂ hstart => ?_)
          · exact hrole
          · exact not_not.1 hroom
          · exact Does.bind (ih (hstart.role_eq.trans hrole)) fun _ _ _ => .refl

theorem startFile_pending (id : FileId) :
    Ends (startFile id) s (fun _ s' => s'.pendingResumes = s.pendingResumes) fun _ _ => True := by
  simp only [startFile, allocateStreamId, ends_bind, ends_get]
  split
  · simp only [ends_steps, ends_calls]
    exact ⟨fun _ _ => ⟨fun _ => trivial, fun _ => trivial⟩, fun _ => trivial⟩
  · trivial

/-- One turn of the loop. -/
theorem startPendingLoop_succ (fuel : Nat) :
    startPendingLoop (fuel + 1) s =
      if ¬ s.activeFileCount < s.config.maxParallelFiles then .ok [] s
      else
        match s.pendingResumes.keys.head? with
        | none => .ok [] s
        | some id =>
            (startFile id >>= fun events =>
              startPendingLoop fuel >>= fun events' => pure (events ++ events'))
              { s with pendingResumes := s.pendingResumes.erase id } := by
  simp only [startPendingLoop, bind_ok (get_run s)]
  split
  · rfl
  · cases s.pendingResumes.keys.head? with
    | none => rfl
    | some id => rfl

/-- The number of pending files is fuel enough: more of it changes nothing. -/
theorem startPendingLoop_fuel {fuel : Nat} (h : s.pendingResumes.size ≤ fuel) :
    startPendingLoop (fuel + 1) s = startPendingLoop fuel s := by
  induction fuel generalizing s with
  | zero =>
      have hnone : s.pendingResumes.keys.head? = none := by
        rw [List.head?_eq_none_iff, ← List.length_eq_zero_iff, Std.TreeMap.length_keys]
        omega
      rw [startPendingLoop_succ, hnone]
      split <;> rfl
  | succ fuel ih =>
      rw [startPendingLoop_succ, startPendingLoop_succ]
      split
      · rfl
      cases hid : s.pendingResumes.keys.head? with
      | none => rfl
      | some id =>
          have hmem : id ∈ s.pendingResumes := Std.TreeMap.mem_keys.1 (List.mem_of_mem_head? hid)
          have hsize : (s.pendingResumes.erase id).size ≤ fuel := by
            have := Std.TreeMap.size_erase (t := s.pendingResumes) (k := id)
            rw [if_pos (Std.TreeMap.contains_iff_mem.2 hmem)] at this
            omega
          simp only
          cases hrun : startFile id { s with pendingResumes := s.pendingResumes.erase id } with
          | error e s₁ => rw [bind_error hrun, bind_error hrun]
          | ok events s₁ =>
              have hsame := (startFile_pending id).ok hrun
              rw [bind_ok hrun, bind_ok hrun]
              show EStateM.bind _ _ s₁ = EStateM.bind _ _ s₁
              rw [EStateM.bind, EStateM.bind, ih (s := s₁) (by rw [hsame]; exact hsize)]

theorem startPendingFiles_does (hrole : s.role = .offerer) : Does op t startPendingFiles s := by
  simp only [startPendingFiles, ends_bind, ends_get]
  refine (startPendingLoop_does _ hrole).mono (fun events s₁ h => ?_) fun _ _ h => h
  simp only [ends_steps, ends_changeState]
  exact ⟨fun _ => Edits.step h (.state .sendingData rfl), fun _ => h⟩

theorem handleResumeState_does {id : FileId} {answer : DurableState}
    (hback : FallsBack s id answer → Regresses t op) :
    Does op t (handleResumeState id answer) s := by
  simp only [handleResumeState, ends_steps, ends_calls]
  refine ⟨fun hrole => ⟨fun _ => .refl, fun hst => ⟨fun f hf => ⟨fun hle => ⟨fun _ => .refl,
    fun hc => ⟨fun _ => .refl, fun hck => ⟨fun _ => .refl, fun _ => ?_⟩⟩⟩, fun _ => .refl⟩,
    fun _ => .refl⟩⟩, fun _ => .refl⟩
  have hfresh : ¬ f.staleCheckpoint answer.durableOffset answer.checkpointId ∨ Regresses t op := by
    by_cases hless : answer.durableOffset < f.durableOffset
    · exact .inr (hback ⟨hrole, not_not.1 hst, f, hf, by simpa using hc, hle, by omega, hless⟩)
    · refine .inl ?_
      unfold FileRuntime.staleCheckpoint
      omega
  have hfirst : Edits op t s
      { s with
        files := s.files.insert id
          { f with
            durableOffset := answer.durableOffset
            checkpointId := answer.checkpointId
            stateHash := answer.stateHash }
        pendingResumes := s.pendingResumes.insert id answer } := by
    refine Edits.step (.single (.write hf (.kept _ _ _ (fun _ => hle) hfresh (.inl hrole))))
      (.pending _ fun id' hid' => ?_)
    rcases Std.TreeMap.mem_insert.1 hid' with heq | hid'
    · obtain rfl := Std.compare_eq_iff_eq.1 heq
      exact .inr (by rw [Std.TreeMap.getElem?_insert_self]; rfl)
    · exact .inl hid'
  exact Within.trans hfirst (startPendingFiles_does hrole)

/-! ## Data -/

theorem queueData_does {id : FileId} {bytes : Bytes} (fin : Bool)
    (hqueues : op.queues = some (id, bytes)) : Does op s (queueData id bytes fin) s := by
  simp only [queueData, ends_bind, ends_calls]
  refine ⟨fun hrole => ⟨fun f hf => ?_, fun _ => .refl⟩, fun _ => .refl⟩
  split
  · exact .refl
  next streamId hactive =>
  split
  · exact .refl
  next offset hadd =>
  obtain ⟨-, rfl⟩ := checkedAdd_eq_some.1 hadd
  simp only [ends_steps, ends_setFile, Nat.add_sub_cancel]
  refine ⟨fun _ => .refl, fun hfits => ⟨fun _ => .refl, fun _ => ?_⟩⟩
  rw [not_or, not_and_not_right] at hfits
  exact .single (.write hf (.cut hrole hactive hqueues hf (Nat.le_of_not_lt hfits.1) hfits.2))

theorem handleFileBegin_does {id : FileId} {streamId baseOffset remainingSize : Nat}
    {contentHash : Digest} (hannounces : op.announces = true)
    (hears : op.hears = some (.fileBegin id streamId baseOffset remainingSize contentHash))
    (hbegins : Begins s id baseOffset remainingSize contentHash → BeginsBy t op) :
    Does op t (handleFileBegin id streamId baseOffset remainingSize contentHash) s := by
  simp only [handleFileBegin, ends_steps, ends_calls, ends_repeatComplete]
  refine ⟨fun hrole => ⟨fun f hf => ⟨fun hc =>
    .single (.tell (repeatComplete_queued hannounces hrole hf hc)), fun hc => ⟨fun hle =>
    ⟨fun _ => .refl, fun hsame => ?_⟩, fun _ => .refl⟩⟩, fun _ => .refl⟩, fun _ => .refl⟩
  split
  · simp only [ends_ite, ends_pure, ends_throw]
    exact ⟨fun _ => .refl, fun _ => .refl⟩
  next hactive =>
  simp only [ends_steps, ends_calls]
  refine ⟨fun _ => .refl, fun hroom => ⟨fun _ => .refl, fun hbase => ?_⟩⟩
  rw [not_not] at hbase
  rw [not_or, not_not, not_not] at hsame
  have hc : f.complete = false := by simpa using hc
  have hroom := Nat.lt_of_not_le hroom
  have hb := hbegins ⟨hrole, ⟨f, hf, hc, hle, hsame.1, hsame.2, hactive, hbase⟩, hroom⟩
  subst hbase
  exact Edits.step (.single (.write hf (.taken hrole hears hb hc hactive hroom hle hsame.2)))
    (.state .receivingData rfl)

theorem acceptChunk_does {f : FileRuntime} {chunk : DataChunk} {stop : Nat}
    (hrole : s.role = .accepter) (hbrings : op.brings.isSome = true)
    (hf : s.files[chunk.fileId]? = some f) (hle : stop ≤ f.entry.size - f.baseOffset) :
    Does op t (acceptChunk f chunk stop) s := by
  have hok : FileOk s.role f →
      f.baseOffset ≤ f.baseOffset + stop ∧ f.baseOffset + stop ≤ f.entry.size := fun h => by
    have := h.sent
    omega
  have hfirst : Edits op t s
      { s with
        files := s.files.insert chunk.fileId
          { f with receivedOffset := f.baseOffset + stop } } :=
    .single (.write hf (.received _ f.awaitingFinish hrole hbrings hok))
  have hnext : Edits op t s
      { s with
        files := (s.files.insert chunk.fileId
          { f with receivedOffset := f.baseOffset + stop }).insert chunk.fileId
          { f with
            receivedOffset := f.baseOffset + stop
            awaitingFinish := chunk.fin || f.awaitingFinish } } :=
    Edits.step hfirst (.write (f := { f with receivedOffset := f.baseOffset + stop })
      Std.TreeMap.getElem?_insert_self
      (.received (f.baseOffset + stop) (chunk.fin || f.awaitingFinish) hrole hbrings
        fun h => ⟨Nat.le_add_right _ _, h.received⟩))
  simp only [acceptChunk, ends_steps, ends_setFile]
  exact ⟨fun _ => hfirst, fun _ => ⟨fun _ => hnext, fun _ => hnext⟩⟩

theorem handleData_does (hbrings : op.brings.isSome = true) (chunk : DataChunk) :
    Does op t (handleData chunk) s := by
  simp only [handleData, ends_bind, ends_calls]
  refine ⟨fun hrole => ⟨fun f hf => ?_, fun _ => .refl⟩, fun _ => .refl⟩
  split
  · exact .refl
  simp only [ends_steps]
  refine ⟨fun _ => .refl, fun _ => ?_⟩
  split
  · exact .refl
  simp only [ends_steps]
  exact ⟨fun _ => .refl, fun hle => ⟨fun _ => .refl, fun _ => ⟨fun _ => .refl, fun _ =>
    acceptChunk_does hrole hbrings hf (Nat.le_of_not_lt hle)⟩⟩⟩

@[simp] theorem ends_validateCheckpoint {Q : Unit → TransferSession → Prop}
    {E : CoreError → TransferSession → Prop} {id : FileId} {durableOffset checkpointId : Nat} :
    Ends (validateCheckpoint id durableOffset checkpointId) s Q E ↔
      (∀ f, s.files[id]? = some f →
        (durableOffset ≤ f.receivedOffset →
          (f.staleCheckpoint durableOffset checkpointId →
            E (.invalidCheckpoint id checkpointId f.checkpointId) s) ∧
          (¬ f.staleCheckpoint durableOffset checkpointId → Q () s)) ∧
        (¬ durableOffset ≤ f.receivedOffset →
          E (.invalidOffset id durableOffset f.receivedOffset) s)) ∧
      (s.files[id]? = none → E (.unknownFile id) s) := by
  simp only [validateCheckpoint, ends_steps, ends_calls]

theorem checkpoint_does {id : FileId} {durableOffset : Nat} (checkpointId : Nat)
    (hmarks : op.marks = some (id, durableOffset)) :
    Does op t (checkpoint id durableOffset checkpointId) s := by
  simp only [checkpoint, ends_steps, ends_calls, ends_validateCheckpoint]
  refine ⟨fun _ => ⟨fun f hf => ⟨fun hle => ⟨fun _ => .refl, fun hfresh => ⟨fun f' hf' =>
    ⟨fun _ => .refl, fun _ => ?_⟩, fun _ => .refl⟩⟩, fun _ => .refl⟩, fun _ => .refl⟩,
    fun _ => .refl⟩
  obtain rfl : f = f' := Option.some.inj (hf.symm.trans hf')
  exact Edits.step (.single (.write hf (.kept _ _ _ (fun h => hle.trans h.received)
    (.inl hfresh) (.inr (.inr (.inr ⟨hle, hmarks⟩))))))
    (.say ⟨_, Std.TreeMap.getElem?_insert_self, rfl⟩)

theorem handleRemoteCheckpoint_does (id : FileId) (durableOffset checkpointId : Nat) :
    Does op t (handleRemoteCheckpoint id durableOffset checkpointId) s := by
  simp only [handleRemoteCheckpoint, ends_steps, ends_calls]
  refine ⟨fun hrole => ⟨fun f hf => ⟨fun _ => ⟨fun _ => .refl, fun _ => .refl⟩, fun _ => ?_⟩,
    fun _ => .refl⟩, fun _ => .refl⟩
  split
  · exact .refl
  next maximum hmax =>
  obtain ⟨_, rfl⟩ := checkedAdd_eq_some.1 hmax
  simp only [ends_steps, ends_calls]
  refine ⟨fun hle => ⟨fun _ => .refl, fun hfresh => ?_⟩, fun _ => .refl⟩
  exact .single (.write hf (.kept _ _ _ (fun h => hle.trans h.sent) (.inl hfresh) (.inl hrole)))

/-! ## Completion -/

@[simp] theorem ends_markComplete {Q : Unit → TransferSession → Prop}
    {E : CoreError → TransferSession → Prop} {f : FileRuntime} {id : FileId} {size : Nat} :
    Ends (markComplete f id size) s Q E ↔
      Q ()
        { s with
          files := s.files.insert id { f with complete := true, activeStreamId := none }
          completedFiles := s.completedFiles + 1
          completedSize := s.completedSize + size } := Iff.rfl

theorem completeFile_does (hannounces : op.announces = true) (id : FileId) (finalSize : Nat)
    (contentHash : Digest) : Does op t (completeFile id finalSize contentHash) s := by
  simp only [completeFile, checkCompletion, ends_steps, ends_calls, ends_markComplete]
  refine ⟨fun hrole => ⟨fun f hf => ⟨fun _ => .refl, fun hc => ⟨fun _ => .refl, fun _ =>
    ⟨fun _ => .refl, fun hsame => ⟨fun _ => .refl, fun hdurable => ?_⟩⟩⟩⟩, fun _ => .refl⟩,
    fun _ => .refl⟩
  rw [not_or, not_not, not_not] at hsame
  obtain ⟨rfl, rfl⟩ := hsame
  have hget := Std.TreeMap.getElem?_insert_self (t := s.files) (k := id)
    (v := { f with complete := true, activeStreamId := none })
  have hmarked :=
    @Edit.complete op t s id f hf (by simpa using hc) (.inr ⟨hrole, not_not.1 hdurable⟩)
  have htold := Edits.step (.single hmarked) (@Edit.say op t _
    (.transfer (.fileComplete id f.entry.size f.entry.contentHash))
    ⟨hrole, id, _, hget, .inl rfl, rfl, rfl, rfl⟩)
  refine ⟨fun hall => ?_, fun _ => htold⟩
  exact Edits.step (.step htold (.say (by exact hannounces))) (.finish hrole id _ hget hall)

theorem handleFileCompleteAck_does {id : FileId} {finalSize : Nat} {contentHash : Digest}
    (hears : op.hears = some (.fileComplete id finalSize contentHash)) :
    Does op t (handleFileCompleteAck id finalSize contentHash) s := by
  simp only [handleFileCompleteAck, ends_steps, ends_requireRole, ends_file, ends_markComplete]
  refine ⟨fun hrole => ⟨fun f hf => ⟨fun _ => .refl, fun hc => ⟨fun _ => .refl,
    fun hsame => ⟨fun _ => .refl, fun _ => ?_⟩⟩⟩, fun _ => .refl⟩, fun _ => .refl⟩
  rw [not_or, not_not, not_not] at hsame
  obtain ⟨rfl, rfl⟩ := hsame
  have hmarked := @Edit.complete op t s id f hf (by simpa using hc) (.inl ⟨hrole, hears⟩)
  refine (@startPendingFiles_does op t _ (by exact hrole)).mono (fun _ s₁ h => ?_)
    fun _ _ h => .head hmarked h
  have h : Edits op t s s₁ := .head hmarked h
  simp only [ends_changeState]
  exact ⟨fun hall => Edits.step h (.turn .awaitingTransferComplete (h.role_eq.trans hrole)
    fun _ => .inr (.inr hall)), fun _ => h⟩

theorem handleFileRejected_does (id : FileId) (reason : FileRejectReason) :
    Does op t (handleFileRejected id reason) s := by
  simp only [handleFileRejected, ends_bind, ends_calls]
  exact ⟨fun _ => ⟨fun _ _ => .single (.state .failed rfl), fun _ => .refl⟩, fun _ => .refl⟩

theorem handleTransferComplete_does (id : TransferId) (completedFiles totalSize : Nat) :
    Does op t (handleTransferComplete id completedFiles totalSize) s := by
  simp only [handleTransferComplete, ends_steps, ends_calls]
  refine ⟨fun hrole => ⟨fun _ => ⟨fun _ => .refl, fun _ => ⟨fun _ => .refl, fun hwaits => ?_⟩⟩,
    fun _ => .refl⟩, fun _ => .refl⟩
  rw [not_or, not_not] at hwaits
  refine .single (.turn .completed hrole fun _ => .inl ?_)
  rw [hwaits.1]
  rfl

/-! ## Reconnecting -/

theorem resumeQueries_does (entries : List ManifestEntry) :
    Does op t (resumeQueries entries) s := by
  induction entries generalizing s with
  | nil => exact .refl
  | cons entry rest ih =>
      simp only [resumeQueries, ends_bind, ends_calls, ends_ite]
      refine ⟨fun f _ => ⟨fun _ => ?_, fun _ => ih⟩, fun _ => .refl⟩
      exact Within.trans (.single (.say (by trivial))) ih

theorem reconnectOfferer_does (hrole : s.role = .offerer) : Does op t reconnectOfferer s := by
  simp only [reconnectOfferer, ends_bind, ends_get]
  split
  · exact .refl
  · next manifest hm =>
      simp only [ends_bind, ends_queueTransfers]
      exact Within.trans (.single (.tell (says_offer hrole hm))) (resumeQueries_does _)

theorem says_completions (hrole : s.role = .accepter) :
    ∀ control ∈ s.completions, Says op s (.transfer control) := by
  intro control hc
  obtain ⟨⟨id, f⟩, hentry, rfl⟩ := List.mem_map.1 hc
  obtain ⟨hin, hcomplete⟩ := List.mem_filter.1 hentry
  exact ⟨hrole, id, f, Std.TreeMap.mem_toList_iff_getElem?_eq_some.1 hin, .inr rfl, hcomplete,
    rfl, rfl⟩

theorem reconnect_does (hannounces : op.announces = true) : Does op t reconnect s := by
  simp only [reconnect, ends_steps, ends_queueTransfers, ends_calls]
  refine ⟨fun hst => ?_, fun _ => ⟨fun _ => .refl, fun _ => ?_⟩⟩
  · refine Edits.step (.single (.data [] (List.nil_subset _))) (.controls _ fun message hm => ?_)
    rw [List.nil_append] at hm
    obtain ⟨control, hcontrol, rfl⟩ := List.mem_map.1 hm
    rcases List.mem_append.1 hcontrol with hin | hin
    · exact .inr (says_completions hst.2 control hin)
    · exact List.mem_singleton.1 hin ▸ .inr hannounces
  have hfirst : Edits op t s
      { s with
        data := []
        pendingResumes := ∅
        files := s.files.map fun _ (f : FileRuntime) => f.restart s.role } :=
    Edits.step (.step (.single .restart)
      (.pending ∅ fun _ h => absurd h Std.TreeMap.not_mem_emptyc)) (.data [] (List.nil_subset _))
  refine ⟨fun hrole => ?_, fun _ => Edits.step hfirst (.state .awaitingResume rfl)⟩
  refine (Within.trans hfirst (@reconnectOfferer_does op t _ hrole)).mono (fun _ _ h => ?_)
    fun _ _ h => h
  exact Edits.step h (.state .awaitingResume rfl)

theorem handleTransferError_does (hannounces : op.announces = true) (scope : TransferErrorScope)
    (code : Nat) (retryable : Bool) (message : Bytes) :
    Does op t (handleTransferError scope code retryable message) s := by
  simp only [handleTransferError, ends_ite, ends_changeState]
  exact ⟨fun _ => reconnect_does hannounces, fun _ => .single (.state .failed rfl)⟩

/-! ## All the calls -/

theorem Op.hears_eq {message : TransferControl} (h : op.hears = some message) :
    op = .handleControl message ∨ op = .handleControlWithFlags message false := by
  cases op with
  | handleControl message' => exact .inl (congrArg _ (Option.some.inj h))
  | handleControlWithFlags message' errorFlag =>
      cases errorFlag with
      | true => cases h
      | false => exact .inr (by rw [Option.some.inj h])
  | _ => cases h

theorem Op.announces_of_hears {message : TransferControl} (h : op.hears = some message) :
    op.announces = announcedBy message := by
  rcases Op.hears_eq h with rfl | rfl <;> rfl

theorem ManifestEntry.new_ok {id : FileId} {relativePath : Bytes} {size : Nat}
    {contentHash : Digest} {metadata : FileMetadata} {e : ManifestEntry}
    (h : ManifestEntry.new id relativePath size contentHash metadata = .ok e) :
    e = ⟨id, relativePath, size, contentHash, metadata⟩ := by
  unfold ManifestEntry.new at h
  split at h
  · cases h
    rfl
  · cases h

theorem handleControl_does {message : TransferControl} (hears : op.hears = some message) :
    Does op s (handleControl message) s := by
  have hannounces := Op.announces_of_hears hears
  cases message with
  | sessionHello => exact handleSessionHello_does ..
  | manifestBegin => exact handleManifestBegin_does hears
  | manifestItem fileId relativePath size contentHash metadata =>
      simp only [handleControl]
      split
      · exact .refl
      · next e he =>
          obtain rfl := ManifestEntry.new_ok he
          exact handleManifestItem_does hears
  | manifestEnd => exact handleManifestEnd_does ..
  | receiveDecision => exact handleReceiveDecision_does ..
  | resumeQuery => exact handleResumeQuery_does hannounces ..
  | resumeState =>
      refine handleResumeState_does fun hback => ?_
      rcases Op.hears_eq hears with rfl | rfl
      · exact hback
      · exact ⟨rfl, hback⟩
  | fileBegin =>
      refine handleFileBegin_does hannounces hears fun hbegins => ?_
      rcases Op.hears_eq hears with rfl | rfl
      · exact hbegins
      · exact ⟨rfl, hbegins⟩
  | checkpoint => exact handleRemoteCheckpoint_does ..
  | fileComplete => exact handleFileCompleteAck_does hears
  | fileRejected id reason => exact handleFileRejected_does id reason
  | transferComplete => exact handleTransferComplete_does ..
  | transferError scope code retryable message =>
      exact handleTransferError_does hannounces scope code retryable message

theorem handlePairing_does (message : PairingControl) : Does op t (handlePairing message) s := by
  cases message with
  | pathSelected =>
      simp only [handlePairing, ends_bind, ends_checkTransferId, ends_get]
      refine ⟨fun _ => ?_, fun _ => .refl⟩
      split
      · exact .refl
      · exact .single (.path _)
  | relayOpen =>
      simp only [handlePairing, ends_steps, ends_checkTransferId]
      exact ⟨fun _ => .single (.path _), fun _ => .refl⟩
  | relayClosed =>
      simp only [handlePairing, ends_bind, ends_checkTransferId, ends_get]
      refine ⟨fun _ => ?_, fun _ => .refl⟩
      split
      · simp only [ends_steps, ends_changeState]
        exact ⟨fun _ => Edits.step (.single (.state .failed rfl)) (.path _),
          fun _ => .single (.path _)⟩
      · exact .refl
  | cancel =>
      simp only [handlePairing, ends_bind, ends_calls]
      exact ⟨fun _ => .single (.state .cancelled rfl), fun _ => .refl⟩
  | candidateList => exact .refl
  | pathCheckAuthorization => exact .refl
  | other => exact .refl

theorem handleDataWithStorage_does (hbrings : op.brings.isSome = true) (chunk : DataChunk)
    (written : Except CoreError Unit) : Does op t (handleDataWithStorage chunk written) s := by
  simp only [handleDataWithStorage, ends_bind, ends_file]
  refine ⟨fun f _ => (handleData_does hbrings chunk).mono (fun events s₁ h => ?_)
    fun _ _ h => h, fun _ => .refl⟩
  simp only [ends_ite, ends_pure]
  refine ⟨fun _ => ?_, fun _ => h⟩
  cases written with
  | error e => exact Edits.step h (.state .failed rfl)
  | ok => exact h

theorem setDurableState_does {id : FileId} {stored : DurableState}
    (hrestores : op.restores = some (id, stored.durableOffset)) :
    Does op t (setDurableState id stored) s := by
  simp only [setDurableState, ends_steps, ends_calls]
  refine ⟨fun f hf => ⟨fun hle => ⟨fun _ => .refl, fun hfresh => ?_⟩, fun _ => .refl⟩,
    fun _ => .refl⟩
  exact .single (.write hf (.kept _ _ _ (fun _ => hle) (.inl hfresh)
    (.inr (.inr (.inl hrestores)))))

theorem respondToResumeQueryWithStorage_does {id : FileId} {contentHash : Digest} {size : Nat}
    {stored : Except CoreError DurableState} (hannounces : op.announces = true)
    (hrestores : ∀ state, stored = .ok state → op.restores = some (id, state.durableOffset)) :
    Does op t (respondToResumeQueryWithStorage id contentHash size stored) s := by
  cases stored with
  | error e => exact .refl
  | ok state =>
      exact Does.bind (setDurableState_does (hrestores state rfl)) fun _ _ _ =>
        handleResumeQuery_does hannounces ..

theorem checkpointWithStorage_does {id : FileId} {durableOffset checkpointId : Nat}
    {stateHash : Digest} {stored : Except CoreError Unit}
    (hmarks : stored = .ok () → op.marks = some (id, durableOffset)) :
    Does op t (checkpointWithStorage id durableOffset checkpointId stateHash stored) s := by
  simp only [checkpointWithStorage, ends_bind, ends_validateCheckpoint]
  refine ⟨fun f hf => ⟨fun _ => ⟨fun _ => .refl, fun _ => ?_⟩, fun _ => .refl⟩, fun _ => .refl⟩
  cases stored with
  | error e => exact .refl
  | ok =>
      simp only [ends_bind, ends_calls]
      refine ⟨fun f' hf' => ?_, fun _ => .refl⟩
      have hsame : ¬ f'.staleCheckpoint f'.durableOffset f'.checkpointId := by
        unfold FileRuntime.staleCheckpoint
        omega
      exact Within.trans (.single (.write hf' (.kept f'.durableOffset f'.checkpointId stateHash
        FileOk.durable (.inl hsame) (.inr (.inl (Nat.le_refl _))))))
        (checkpoint_does checkpointId (hmarks rfl))

theorem completeFileWithStorage_does (hannounces : op.announces = true) (id : FileId)
    (finalSize : Nat) (contentHash : Digest) (stored : Except CoreError Unit) :
    Does op t (completeFileWithStorage id finalSize contentHash stored) s := by
  simp only [completeFileWithStorage, checkCompletion, ends_steps, ends_file]
  refine ⟨fun f _ => ⟨fun _ => ⟨fun _ => .refl, fun _ => ⟨fun _ => .refl, fun _ => ⟨fun _ => .refl,
    fun _ => ?_⟩⟩⟩, fun _ => ?_⟩, fun _ => .refl⟩
  all_goals
    cases stored with
    | error e => exact .refl
    | ok => exact completeFile_does hannounces id finalSize contentHash

theorem selectPath_does (selected : Except CoreError PathSelection) :
    Does op t (selectPath selected) s := by
  cases selected with
  | error e => exact .refl
  | ok path => exact Edits.step (.single (.path _)) (.say (by trivial))

theorem fallbackToRelay_does (relay : Except CoreError (RelayId × Bytes)) :
    Does op t (fallbackToRelay relay) s := by
  simp only [fallbackToRelay, ends_steps]
  refine ⟨fun _ => .refl, fun _ => ?_⟩
  split
  · exact .refl
  · cases relay with
    | error e => exact .refl
    | ok ticket => exact Edits.step (.single (.path _)) (.say (by trivial))

/-- What the channel has not taken is the rest of the queue. -/
theorem sendQueue_suffix {α : Type} (refuses : Nat → Option Bytes) (queue : List α) (n : Nat) :
    (sendQueue refuses queue n).1 <:+ queue := by
  induction queue generalizing n with
  | nil => exact List.suffix_refl _
  | cons message rest ih =>
      unfold sendQueue
      split
      · exact (ih (n + 1)).trans (List.suffix_cons _ _)
      · exact List.suffix_refl _

theorem flush_does (control data : Nat → Option Bytes) : Does op t (flush control data) s := by
  have hsent : Edits op t s { s with controls := (sendQueue control s.controls 0).1 } :=
    .single (.controls _ fun _ hm => .inl ((sendQueue_suffix control s.controls 0).subset hm))
  have hboth := Edits.step hsent (.data _ (sendQueue_suffix data s.data 0).subset)
  simp only [flush, ends_steps]
  split
  · exact hsent
  · simp only [ends_bind, ends_modify]
    split
    · exact hboth
    · exact hboth

/-- Every call is a chain of edits, and it starts a file at the accepter only if
it is a `FileBegin` that passes the handler's checks. -/
theorem perform_does (op : Op) : Does op s (perform op) s := by
  cases op with
  | start => exact start_does
  | acceptOffer => exact acceptOffer_does rfl ..
  | rejectOffer => exact rejectOffer_does _
  | handleControl message => exact handleControl_does rfl
  | handleControlWithFlags message errorFlag =>
      cases errorFlag with
      | true => exact .refl
      | false => exact handleControl_does rfl
  | handlePairing message => exact handlePairing_does message
  | handleData chunk => exact handleData_does rfl chunk
  | handleDataWithStorage => exact handleDataWithStorage_does rfl ..
  | queueData => exact Does.bind (queueData_does _ rfl) fun _ _ _ => .refl
  | checkpoint => exact checkpoint_does _ rfl
  | checkpointWithStorage =>
      exact checkpointWithStorage_does fun hstored => by rw [hstored]; rfl
  | completeFile => exact completeFile_does rfl ..
  | completeFileWithStorage => exact completeFileWithStorage_does rfl ..
  | setDurableState => exact Does.bind (setDurableState_does rfl) fun _ _ _ => .refl
  | respondToResumeQueryWithStorage =>
      exact respondToResumeQueryWithStorage_does rfl fun _ hstored => by rw [hstored]; rfl
  | reconnect => exact reconnect_does rfl
  | selectPath => exact selectPath_does _
  | fallbackToRelay => exact fallbackToRelay_does _
  | markPathFailed => exact .single (.path _)
  | touch => exact .single (.activity _)
  | flush => exact Does.bind (flush_does ..) fun _ _ _ => .refl
  | drainControl => exact .single (.controls _ fun _ hm => absurd hm List.not_mem_nil)
  | drainData => exact .single (.data _ (List.nil_subset _))
  | resetForTest =>
      exact Edits.step (.step (.step (.single (.controls []
        fun _ hm => absurd hm List.not_mem_nil)) (.data [] (List.nil_subset _)))
        (.path .unselected)) (.activity 0)
  | send => exact .single (.say (by trivial))
  | sendFileRejection => exact .single (.say (by trivial))
  | sendCancel => exact Edits.step (.single (.say (by trivial))) (.state .cancelled rfl)

/-! ## Creation -/

section Creation

variable {id : TransferId} {m : Manifest} {config : SessionConfig}

theorem newOfferer_ok (hs : newOfferer id m config = .ok s) : config.validate = true ∧
    s = TransferSession.installManifest { role := .offerer, transferId := id, config } m := by
  unfold newOfferer at hs
  split at hs
  · next hvalid => exact ⟨hvalid, (Except.ok.inj hs).symm⟩
  · cases hs

theorem newAccepter_ok (hs : newAccepter id config = .ok s) : config.validate = true ∧
    s = { role := .accepter, transferId := id, config } := by
  unfold newAccepter at hs
  split at hs
  · next hvalid => exact ⟨hvalid, (Except.ok.inj hs).symm⟩
  · cases hs

end Creation

end DartUdp.Session
