import DartUdp.Lib.Runs
import DartUdp.Proofs.SessionConsent
import DartUdp.Session.Stored

/-!
# What an accepter says is durable

The session keeps its own copy of what is durable beside the storage's. The
copy never gets ahead: a checkpoint goes to the storage first, and an answer to
a resume query is what the storage has said. So neither a `Checkpoint` nor a
`ResumeState` claims more than there is.

The module is for `advertised_is_durable`. `Edit.backed` keeps the copy behind the
storage, `onSession_backs` and `onStorage_backs` say it of the calls that use both,
and `driven_backs` of a run.
-/

namespace DartUdp.Session

open DartUdp.Lib DartUdp.Transfer

/-- The message claims no more than `durable` has. -/
def Claims (durable : FileId → Nat) : OutboundMessage → Prop
  | .transfer (.checkpoint fileId durableOffset _) => durableOffset ≤ durable fileId
  | .transfer (.resumeState fileId durableOffset _ _) => durableOffset ≤ durable fileId
  | _ => True

/-- An accepter whose copy and whose messages stay within `durable`. -/
structure Backed (durable : FileId → Nat) (s : TransferSession) : Prop where
  role : s.role = .accepter
  files : ∀ (id : FileId) (f : FileRuntime), s.files[id]? = some f →
    f.durableOffset ≤ durable id
  controls : ∀ message ∈ s.controls, Claims durable message

variable {durable durable' : FileId → Nat} {op : Op} {t₀ s s' : TransferSession} {id : FileId}
  {f g : FileRuntime}

theorem Claims.mono (hle : ∀ id, durable id ≤ durable' id) {message : OutboundMessage}
    (h : Claims durable message) : Claims durable' message := by
  unfold Claims at h ⊢
  split
  · exact h.trans (hle _)
  · exact h.trans (hle _)
  · trivial

theorem Backed.mono (h : Backed durable s) (hle : ∀ id, durable id ≤ durable' id) :
    Backed durable' s :=
  ⟨h.role, fun id f hf => (h.files id f hf).trans (hle id),
    fun message hm => (h.controls message hm).mono hle⟩

/-! ## The edits -/

theorem Backed.rest (h : Backed durable s) (hrole : s'.role = s.role)
    (hfiles : s'.files = s.files)
    (hcontrols : ∀ message ∈ s'.controls, message ∈ s.controls ∨ Claims durable message) :
    Backed durable s' :=
  ⟨hrole.trans h.role, hfiles ▸ h.files, fun message hm =>
    (hcontrols message hm).elim (h.controls message) fun hc => hc⟩

theorem Backed.setFile (h : Backed durable s) (hf : f.durableOffset ≤ durable id)
    (hrole : s'.role = s.role) (hfiles : s'.files = s.files.insert id f)
    (hcontrols : s'.controls = s.controls) : Backed durable s' := by
  refine ⟨hrole.trans h.role, fun id' f' hf' => ?_, hcontrols ▸ h.controls⟩
  rw [hfiles, Std.TreeMap.getElem?_insert] at hf'
  split at hf'
  · next heq =>
      obtain rfl := Option.some.inj hf'
      rwa [← Std.compare_eq_iff_eq.1 heq]
  · exact h.files id' f' hf'

/-- What a session says of its files is what it has. -/
theorem Backed.claims (h : Backed durable s) {message : OutboundMessage}
    (hsaid : Says op s message) : Claims durable message := by
  unfold Claims
  split
  · obtain ⟨f, hf, rfl⟩ := hsaid
    exact h.files _ f hf
  · obtain ⟨f, hf, rfl⟩ := hsaid
    exact h.files _ f hf
  · trivial

/-- An accepter goes by what it has, and by what it is told is durable. -/
theorem Edit.backed (hedit : Edit op t₀ s s') (h : Backed durable s)
    (hrestores : ∀ r ∈ op.restores, r.2 ≤ durable r.1)
    (hmarks : ∀ r ∈ op.marks, r.2 ≤ durable r.1) : Backed durable s' := by
  have hnot : s.role ≠ .offerer := fun heq => by cases h.role.symm.trans heq
  have hkeep : ∀ message ∈ s.controls, message ∈ s.controls ∨ Claims durable message :=
    fun _ => .inl
  cases hedit with
  | controls c hc => exact h.rest rfl rfl fun message hm => (hc message hm).imp_right h.claims
  | data | path | activity | streamId | pending | decision | state | turn | start | hello
  | assemble | extend | discard | acceptEmpty | finish => exact h.rest rfl rfl hkeep
  | install =>
      refine ⟨h.role, fun id f hf => ?_, h.controls⟩
      obtain ⟨e, -, -, rfl⟩ := Manifest.runtimes_get.1 hf
      exact Nat.zero_le _
  | @write id f _ _ _ _ hf hw =>
      have hdurable := h.files id f hf
      cases hw with
      | began hrole => exact absurd hrole hnot
      | cut hrole => exact absurd hrole hnot
      | received => exact h.setFile (by exact hdurable) rfl rfl rfl
      | taken => exact h.setFile (by exact hdurable) rfl rfl rfl
      | kept durableOffset checkpointId stateHash _ _ hwhy =>
          refine h.setFile (f := { f with durableOffset, checkpointId, stateHash }) ?_ rfl rfl rfl
          rcases hwhy with hrole | hle | hrestored | ⟨-, hmarked⟩
          · exact absurd hrole hnot
          · exact hle.trans hdurable
          · exact hrestores _ hrestored
          · exact hmarks _ hmarked
  | complete id f hf => exact h.setFile (by exact h.files id f hf) rfl rfl rfl
  | restart =>
      refine ⟨h.role, fun id g hg => ?_, h.controls⟩
      change (s.files.map fun _ (f : FileRuntime) => f.restart s.role)[id]? = some g at hg
      rw [Std.TreeMap.getElem?_map] at hg
      obtain ⟨f, hf, rfl⟩ := Option.map_eq_some_iff.1 hg
      have hsame : (f.restart s.role).durableOffset = f.durableOffset := by
        unfold FileRuntime.restart
        split <;> rfl
      rw [hsame]
      exact h.files id f hf

theorem Edits.backed (hedits : Edits op t₀ s s') (h : Backed durable s)
    (hrestores : ∀ r ∈ op.restores, r.2 ≤ durable r.1)
    (hmarks : ∀ r ∈ op.marks, r.2 ≤ durable r.1) : Backed durable s' := by
  induction hedits with
  | refl => exact h
  | tail _ hstep ih => exact hstep.backed ih hrestores hmarks

/-! ## With the storage -/

namespace Stored

variable {σ : Type} {storage : Storage σ} {offset : σ → TransferId → FileId → Nat} {store : σ}

/-- What a storage keeps to: no call makes less durable than there was, a
checkpoint that succeeds makes its offset durable, and the state it tells is no
further than what is. -/
structure Durable (storage : Storage σ) (offset : σ → TransferId → FileId → Nat) : Prop where
  state : ∀ (t : TransferId) (id : FileId) (store : σ) (state : DurableState),
    storage.durableState t id store = .ok state → state.durableOffset ≤ offset store t id
  write : ∀ (t : TransferId) (id : FileId) (n : Nat) (bytes : Bytes) (store : σ)
    (t' : TransferId) (id' : FileId),
    offset store t' id' ≤ offset (storage.writeData t id n bytes store).2 t' id'
  checkpoint : ∀ (t : TransferId) (id : FileId) (state : DurableState) (store : σ)
    (t' : TransferId) (id' : FileId),
    offset store t' id' ≤ offset (storage.checkpoint t id state store).2 t' id'
  complete : ∀ (t : TransferId) (id : FileId) (size : Nat) (hash : Digest) (store : σ)
    (t' : TransferId) (id' : FileId),
    offset store t' id' ≤ offset (storage.completeFile t id size hash store).2 t' id'
  made : ∀ (t : TransferId) (id : FileId) (state : DurableState) (store : σ),
    (storage.checkpoint t id state store).1 = .ok () →
    state.durableOffset ≤ offset (storage.checkpoint t id state store).2 t id

/-- The session is of the transfer `t` and stays within what its storage has. -/
structure Backs (offset : σ → TransferId → FileId → Nat) (t : TransferId)
    (p : TransferSession × σ) : Prop where
  transferId : p.1.transferId = t
  backed : Backed (offset p.2 t) p.1

variable {t : TransferId}

/-- Whichever way `m` ends, the session stays within what its storage has. -/
abbrev KeepsBacks (offset : σ → TransferId → FileId → Nat) (t : TransferId) {α : Type}
    (m : StoredM σ α) (p : TransferSession × σ) : Prop :=
  Ends m p (fun _ => Backs offset t) fun _ => Backs offset t

theorem transferId_eq (h : Edits op t₀ s s') : s'.transferId = s.transferId := by
  induction h with
  | refl => rfl
  | tail _ hstep ih => exact Eq.trans (by cases hstep <;> rfl) ih

/-- A call of the session, which the storage bears out where the call goes by it. -/
theorem onSession_backs {α : Type} {m : SessionM α} (h : Backs offset t (s, store))
    (hm : Does op t₀ m s) (hrestores : ∀ r ∈ op.restores, r.2 ≤ offset store t r.1)
    (hmarks : ∀ r ∈ op.marks, r.2 ≤ offset store t r.1) :
    Ends (onSession m) (s, store) (fun _ p => p.2 = store ∧ Backs offset t p)
      fun _ p => p.2 = store ∧ Backs offset t p := by
  have hafter : ∀ s', Edits op t₀ s s' → Backs offset t (s', store) := fun s' hedits =>
    ⟨(transferId_eq hedits).trans h.transferId, hedits.backed h.backed hrestores hmarks⟩
  rw [onSession, ends_zoom]
  exact Ends.mono hm (fun _ s' hedits => ⟨rfl, hafter s' hedits⟩)
    fun _ s' hedits => ⟨rfl, hafter s' hedits⟩

/-- A call of the storage that makes nothing less durable. -/
theorem onStorage_backs {α : Type} {call : σ → Except CoreError α × σ}
    (h : Backs offset t (s, store)) (hle : ∀ id, offset store t id ≤ offset (call store).2 t id) :
    Ends (onStorage call) (s, store)
      (fun a p => p = (s, (call store).2) ∧ (call store).1 = .ok a ∧ Backs offset t p)
      fun _ p => p = (s, (call store).2) ∧ Backs offset t p := by
  have hafter : Backs offset t (s, (call store).2) := ⟨h.transferId, h.backed.mono hle⟩
  rcases hcall : call store with ⟨r, store'⟩
  rw [hcall] at hafter
  cases r with
  | ok a =>
      have hrun : onStorage call (s, store) = .ok a (s, store') := by
        simp only [onStorage, hcall]
      rw [Ends, hrun]
      exact ⟨rfl, rfl, hafter⟩
  | error e =>
      have hrun : onStorage call (s, store) = .error e (s, store') := by
        simp only [onStorage, hcall]
      rw [Ends, hrun]
      exact ⟨rfl, hafter⟩

theorem handleDataWithStorage_backs (hS : Durable storage offset) (h : Backs offset t (s, store))
    (chunk : DataChunk) : KeepsBacks offset t (handleDataWithStorage storage chunk) (s, store) := by
  rw [KeepsBacks, handleDataWithStorage, ends_bind, onSession, ends_zoom, ends_file]
  refine ⟨fun f _ => ?_, fun _ => h⟩
  rw [ends_bind]
  have hdoes : Does (.handleData chunk) s (Session.handleData chunk) s := handleData_does rfl chunk
  refine Ends.mono (onSession_backs h hdoes (fun _ hr => by cases hr) fun _ hr => by cases hr) ?_
    fun _ _ h => h.2
  rintro events ⟨s₁, _⟩ ⟨rfl, h₁⟩
  cases dataOf events with
  | none => exact h₁
  | some bytes =>
      simp only [ends_steps, ends_tryCatch]
      refine Ends.mono (onStorage_backs h₁ fun id => hS.write _ _ _ _ _ _ _) ?_ ?_
      · exact fun _ _ h => h.2.2
      · rintro e _ ⟨rfl, h₂⟩
        rw [onSession, ends_zoom, ends_modify]
        exact ⟨h₂.transferId, h₂.backed.rest rfl rfl fun _ => .inl⟩

theorem respondToResumeQueryWithStorage_backs (hS : Durable storage offset)
    (h : Backs offset t (s, store)) (id : FileId) (contentHash : Digest) (size : Nat) :
    KeepsBacks offset t (respondToResumeQueryWithStorage storage id contentHash size)
      (s, store) := by
  obtain rfl : s.transferId = t := h.transferId
  rw [KeepsBacks, respondToResumeQueryWithStorage, ends_bind, ends_get]
  simp only [ends_bind]
  refine Ends.mono (onStorage_backs h fun _ => Nat.le_refl _) ?_ fun _ _ h => h.2
  rintro state _ ⟨rfl, hstate, h₁⟩
  have hle := hS.state s.transferId id store state hstate
  have hset : Does (.setDurableState id state) s (setDurableState id state) s :=
    setDurableState_does rfl
  refine Ends.mono (onSession_backs h₁ hset (fun r hr => ?_) fun _ hr => by cases hr) ?_
    fun _ _ h => h.2
  · obtain rfl := Option.some.inj hr
    exact hle
  rintro _ ⟨s₂, _⟩ ⟨rfl, h₂⟩
  have hanswer : Does (.handleControl (.resumeQuery id contentHash size)) s₂
      (handleResumeQuery id contentHash size) s₂ := handleResumeQuery_does rfl id contentHash size
  exact Ends.mono (onSession_backs h₂ hanswer (fun _ hr => by cases hr) fun _ hr => by cases hr)
    (fun _ _ h => h.2) fun _ _ h => h.2

/-- The storage has the checkpoint before the session says so. -/
theorem checkpointWithStorage_backs (hS : Durable storage offset) (h : Backs offset t (s, store))
    (id : FileId) (durableOffset checkpointId : Nat) (stateHash : Digest) :
    KeepsBacks offset t
      (checkpointWithStorage storage id durableOffset checkpointId stateHash) (s, store) := by
  obtain rfl : s.transferId = t := h.transferId
  rw [KeepsBacks, checkpointWithStorage, ends_bind, onSession, ends_zoom, ends_validateCheckpoint]
  refine ⟨fun f _ => ⟨fun _ => ⟨fun _ => h, fun _ => ?_⟩, fun _ => h⟩, fun _ => h⟩
  rw [ends_bind, ends_get]
  simp only [ends_bind]
  refine Ends.mono (onStorage_backs h fun _ => hS.checkpoint _ _ _ _ _ _) ?_ fun _ _ h => h.2
  rintro _ _ ⟨rfl, hok, h₁⟩
  have hle := hS.made _ _ _ _ hok
  rw [onSession, ends_zoom, ends_file]
  refine ⟨fun f' hf' => ?_, fun _ => h₁⟩
  rw [onSession, ends_zoom, ends_setFile]
  have hset : Backs offset s.transferId
      ({ s with files := s.files.insert id { f' with stateHash } },
      (storage.checkpoint s.transferId id ⟨durableOffset, checkpointId, stateHash⟩ store).2) :=
    ⟨rfl, h₁.backed.setFile (by exact h₁.backed.files id f' hf') rfl rfl rfl⟩
  have hdoes : Does (.checkpoint id durableOffset checkpointId) s
      (Session.checkpoint id durableOffset checkpointId)
      { s with files := s.files.insert id { f' with stateHash } } :=
    checkpoint_does checkpointId rfl
  refine Ends.mono (onSession_backs hset hdoes (fun _ hr => by cases hr) fun r hr => ?_)
    (fun _ _ h => h.2) fun _ _ h => h.2
  obtain rfl := Option.some.inj hr
  exact hle

theorem completeFileWithStorage_backs (hS : Durable storage offset) (h : Backs offset t (s, store))
    (id : FileId) (finalSize : Nat) (contentHash : Digest) :
    KeepsBacks offset t (completeFileWithStorage storage id finalSize contentHash) (s, store) := by
  rw [KeepsBacks, completeFileWithStorage, ends_bind, onSession, ends_zoom]
  simp only [validateFileCompletion, checkCompletion, ends_bind, ends_file, ends_ite, ends_throw,
    ends_pure]
  refine ⟨fun f _ => ⟨fun _ => ⟨fun _ => h, fun _ => ⟨fun _ => h, fun _ => ⟨fun _ => h,
    fun _ => ?_⟩⟩⟩, fun _ => ?_⟩, fun _ => h⟩
  all_goals
    rw [ends_get]
    refine Ends.mono (onStorage_backs h fun _ => hS.complete _ _ _ _ _ _ _) ?_ fun _ _ h => h.2
    rintro _ _ ⟨rfl, _, h₁⟩
    have hdoes : Does (.completeFile id finalSize contentHash) s
        (Session.completeFile id finalSize contentHash) s :=
      completeFile_does rfl id finalSize contentHash
    exact Ends.mono (onSession_backs h₁ hdoes (fun _ hr => by cases hr) fun _ hr => by cases hr)
      (fun _ _ h => h.2) fun _ _ h => h.2

theorem drive_backs (hS : Durable storage offset) {p : TransferSession × σ} (h : Backs offset t p)
    (op : StoredOp) : KeepsBacks offset t (drive storage op) p := by
  obtain ⟨s, store⟩ := p
  cases op with
  | call op hop =>
      have hplain : op.restores = none ∧ op.marks = none := by
        cases op <;> first | exact ⟨rfl, rfl⟩ | cases hop
      refine Ends.mono (onSession_backs h (perform_does op) ?_ ?_) (fun _ _ h => h.2)
        fun _ _ h => h.2
      · rw [hplain.1]
        intro _ hr
        cases hr
      · rw [hplain.2]
        intro _ hr
        cases hr
  | handleData chunk => exact handleDataWithStorage_backs hS h chunk
  | checkpoint => exact checkpointWithStorage_backs hS h _ _ _ _
  | respondToResumeQuery => exact respondToResumeQueryWithStorage_backs hS h _ _ _
  | completeFile => exact completeFileWithStorage_backs hS h _ _ _

theorem driven_backs (hS : Durable storage offset) {p : TransferSession × σ} (h : Backs offset t p)
    (ops : List StoredOp) : Backs offset t (driven storage p ops) :=
  run_keeps ops h fun _ op h => Ends.after (P := Backs offset t) (drive_backs hS h op)

/-- Along every run of an accepter that is driven with a storage, whatever of
the storage fails, no `Checkpoint` and no `ResumeState` in its queue claims more
than what is durable of the file. -/
theorem advertised_is_durable (hS : Durable storage offset) {config : SessionConfig}
    (hs : newAccepter t config = .ok s) (store : σ) (ops : List StoredOp) :
    ∀ message ∈ (driven storage (s, store) ops).1.controls,
      Claims (offset (driven storage (s, store) ops).2 t) message := by
  have hstart : Backs offset t (s, store) := by
    obtain ⟨-, rfl⟩ := newAccepter_ok hs
    exact ⟨rfl, rfl, fun id f hf => absurd (Std.TreeMap.getElem?_emptyc.symm.trans hf) nofun,
      nofun⟩
  exact (driven_backs hS hstart ops).backed.controls

/-- A storage of one offset, which a checkpoint moves forward. -/
def sampleStorage : Storage Nat where
  durableState _ _ n := .ok ⟨n, 0, ⟨.sha256, .replicate 32 0⟩⟩
  writeData _ _ _ _ n := (.ok (), n)
  checkpoint _ _ state n := (.ok (), max n state.durableOffset)
  completeFile _ _ _ _ n := (.ok (), n)

theorem sampleStorage_durable : Durable sampleStorage fun n _ _ => n where
  state _ _ n state h := by
    cases h
    exact Nat.le_refl n
  write _ _ _ _ n _ _ := Nat.le_refl n
  checkpoint _ _ state n _ _ := Nat.le_max_left n state.durableOffset
  complete _ _ _ _ n _ _ := Nat.le_refl n
  made _ _ state n _ := Nat.le_max_right n state.durableOffset

/-- Two bytes of the offered file come in and are made durable. -/
def sampleDriven : List StoredOp :=
  [.call .start rfl,
    .call (.handleControl (.sessionHello sampleId protocolVersion .x25519ChaCha20Poly1305
      sampleDigest sampleId)) rfl,
    .call (.handleControl (.manifestBegin 1 3 sampleDigest)) rfl,
    .call (.handleControl (.manifestItem sampleId (ascii "a") 3 sampleDigest ⟨none, none⟩)) rfl,
    .call (.handleControl (.manifestEnd sampleDigest)) rfl,
    .call (.acceptOffer .accept .ask (ascii "inbox")) rfl,
    .call sampleBegin rfl, .handleData ⟨sampleId, 1, 0, [1, 2], false⟩,
    .checkpoint sampleId 2 1 sampleDigest]

theorem advertised_is_durable_sample :
    (driven sampleStorage (sampleAccepter, 0) sampleDriven).1.controls.Forall
      (Claims fun _ => (driven sampleStorage (sampleAccepter, 0) sampleDriven).2) :=
  have hnew : newAccepter sampleId {} = .ok sampleAccepter := rfl
  List.forall_iff_forall_mem.2 (advertised_is_durable sampleStorage_durable hnew 0 sampleDriven)

end Stored

end DartUdp.Session
