import DartUdp.Proofs.SessionMoves

/-!
# What a stream carries

A stream id is handed out once, so it stands for one file from one offset on,
whatever order the messages come in and however often the ends reconnect. What
the offerer says of its streams and what it cuts from its files agree with that;
its moves are those that make more of it known. A file is complete at the offerer
on the accepter's word only.

`Offers` is the offerer's half of the invariant; `Edits.offers` keeps it, for
streams that have grown.
-/

namespace DartUdp.Session

open DartUdp.Lib DartUdp.Transfer

/-- What the streams handed out carry: a file, from where to where. -/
abbrev Streams := Nat → Option (FileId × Nat × Nat)

variable {source : FileId → Bytes} {m : Manifest} {streams streams' : Streams} {op : Op}
  {t s s' : TransferSession} {complete : FileId → Nat → Prop} {transferId : TransferId}
  {id : FileId} {f g : FileRuntime}

/-- What the offerer's messages say of the manifest and the streams is so. -/
def Told (m : Manifest) (streams : Streams) : OutboundMessage → Prop
  | .transfer (.fileBegin id streamId base remaining _) =>
      streams streamId = some (id, base, base + remaining)
  | .transfer (.manifestBegin fileCount totalSize digest) =>
      (fileCount, totalSize, digest) = (m.fileCount, m.totalSize, m.digest)
  | .transfer (.manifestItem id relativePath size contentHash metadata) =>
      ⟨id, relativePath, size, contentHash, metadata⟩ ∈ m.entries
  | _ => True

/-- The chunk is a piece of the file that its stream carries. -/
def CutFrom (source : FileId → Bytes) (streams : Streams) (chunk : DataChunk) : Prop :=
  ∃ start stop, streams chunk.streamId = some (chunk.fileId, start, stop) ∧
    chunk.bytes <+: (source chunk.fileId).drop (start + chunk.offset) ∧
    (chunk.fin = true → start + chunk.offset + chunk.bytes.length = stop)

/-- More streams are known. -/
def Streams.Grows (streams streams' : Streams) : Prop :=
  ∀ streamId carried, streams streamId = some carried → streams' streamId = some carried

theorem Streams.Grows.refl (streams : Streams) : streams.Grows streams := fun _ _ h => h

theorem Streams.grows_update {streamId : Nat} (h : streams streamId = none)
    (carried : FileId × Nat × Nat) :
    streams.Grows (Function.update streams streamId (some carried)) := by
  intro other carried' hcarried
  have hne : other ≠ streamId := fun heq => by
    rw [heq, h] at hcarried
    cases hcarried
  rwa [Function.update_of_ne hne]

theorem Told.mono (hgrows : streams.Grows streams') {message : OutboundMessage}
    (h : Told m streams message) : Told m streams' message := by
  unfold Told at h ⊢
  split
  · exact hgrows _ _ h
  · exact h
  · exact h
  · trivial

theorem CutFrom.mono (hgrows : streams.Grows streams') {chunk : DataChunk}
    (h : CutFrom source streams chunk) : CutFrom source streams' chunk := by
  obtain ⟨start, stop, hcarried, hrest⟩ := h
  exact ⟨start, stop, hgrows _ _ hcarried, hrest⟩

/-! ## The offerer -/

def AllComplete (s : TransferSession) : Prop :=
  ∀ (id : FileId) (f : FileRuntime), s.files[id]? = some f → f.complete = true

theorem Tracks.allComplete (h : Tracks m s)
    (hdone : s.files.isEmpty = true ∨ s.completedFiles = s.files.size) : AllComplete s := by
  intro id f hf
  rcases hdone with hempty | hall
  · rw [Std.TreeMap.getElem?_of_isEmpty hempty] at hf
    cases hf
  · obtain ⟨hmem, hid, -⟩ := h.get hf
    have hcomplete := h.all_iff.1 hall _ hmem
    rwa [hid, completeAt_eq hf] at hcomplete

/-- An offerer whose streams carry what they are known to, and that takes a file as
complete when it is so at the other end. -/
structure Offers (source : FileId → Bytes) (m : Manifest) (streams : Streams)
    (complete : FileId → Nat → Prop) (s : TransferSession) : Prop where
  role : s.role = .offerer
  manifest : s.manifest = some m
  fresh : ∀ streamId, s.nextStreamId ≤ streamId → streams streamId = none
  active : ∀ (id : FileId) (f : FileRuntime) (streamId : Nat), s.files[id]? = some f →
    f.activeStreamId = some streamId →
      streams streamId = some (id, f.baseOffset, f.baseOffset + (f.entry.size - f.baseOffset))
  controls : ∀ message ∈ s.controls, Told m streams message
  data : ∀ chunk ∈ s.data, CutFrom source streams chunk
  done : ∀ (id : FileId) (f : FileRuntime), s.files[id]? = some f → f.complete = true →
    complete id f.entry.size
  closing : s.state.closing = true → AllComplete s

theorem Offers.mono {complete' : FileId → Nat → Prop} (h : Offers source m streams complete s)
    (hmore : ∀ id size, complete id size → complete' id size) :
    Offers source m streams complete' s :=
  ⟨h.role, h.manifest, h.fresh, h.active, h.controls, h.data,
    fun id f hf hc => hmore _ _ (h.done id f hf hc), h.closing⟩

/-- What the offerer says of itself is what its messages say. -/
theorem Offers.told (h : Offers source m streams complete s) {message : OutboundMessage}
    (hsaid : Says op s message) : Told m streams message := by
  unfold Told
  split
  · exact hsaid.elim
  · obtain ⟨-, m', hm', heq⟩ := hsaid
    obtain rfl := Option.some.inj (h.manifest.symm.trans hm')
    exact heq
  · obtain ⟨-, m', hm', hmem⟩ := hsaid
    obtain rfl := Option.some.inj (h.manifest.symm.trans hm')
    exact hmem
  · trivial

theorem AllComplete.insert (h : AllComplete s) (hf : s.files[id]? = some f)
    (hall : f.complete = true → g.complete = true) (hfiles : s'.files = s.files.insert id g) :
    AllComplete s' := by
  intro id' f' hf'
  rw [hfiles, get_insert] at hf'
  split at hf'
  · obtain rfl := Option.some.inj hf'
    exact hall (h id f hf)
  · exact h id' f' hf'

/-- A file is written that stays on its stream or leaves it. -/
theorem Offers.put (h : Offers source m streams complete s) (hf : s.files[id]? = some f)
    (hfiles : s'.files = s.files.insert id g) (hentry : g.entry = f.entry)
    (hstream : g.activeStreamId = f.activeStreamId ∧ g.baseOffset = f.baseOffset ∨
      g.activeStreamId = none)
    (hdone : g.complete = true → f.complete = true ∨ complete id f.entry.size)
    (hall : f.complete = true → g.complete = true) (hrole : s'.role = s.role)
    (hmanifest : s'.manifest = s.manifest)
    (hnext : s'.nextStreamId = s.nextStreamId) (hcontrols : s'.controls = s.controls)
    (hdata : ∀ chunk ∈ s'.data, chunk ∈ s.data ∨ CutFrom source streams chunk)
    (hstate : s'.state = s.state) : Offers source m streams complete s' := by
  refine ⟨hrole.trans h.role, hmanifest.trans h.manifest, hnext ▸ h.fresh,
    fun id' f' streamId hf' hactive => ?_, hcontrols ▸ h.controls,
    fun chunk hc => (hdata chunk hc).elim (h.data chunk) fun hcut => hcut,
    fun id' f' hf' hc => ?_, fun hc => (h.closing (hstate ▸ hc)).insert hf hall hfiles⟩
  · rw [hfiles, get_insert] at hf'
    split at hf'
    · next heq =>
        obtain rfl := Option.some.inj hf'
        rcases hstream with ⟨hsame, hbase⟩ | hnone
        · rw [hbase, hentry, ← heq]
          exact h.active id f streamId hf (hsame.symm.trans hactive)
        · rw [hnone] at hactive
          cases hactive
    · exact h.active id' f' streamId hf' hactive
  · rw [hfiles, get_insert] at hf'
    split at hf'
    · next heq =>
        obtain rfl := Option.some.inj hf'
        rw [hentry, ← heq]
        exact (hdone hc).elim (h.done id f hf) fun hcomplete => hcomplete
    · exact h.done id' f' hf' hc

/-- A file is given the next stream: what that carries is known from now on. -/
theorem Offers.begin (h : Offers source m streams complete s) (hf : s.files[id]? = some f)
    (hfiles : s'.files = s.files.insert id g) (hentry : g.entry = f.entry)
    (hactive : g.activeStreamId = some s.nextStreamId) (hcomplete : g.complete = f.complete)
    {contentHash : Digest} (hrole : s'.role = s.role) (hmanifest : s'.manifest = s.manifest)
    (hnext : s'.nextStreamId = s.nextStreamId + 1)
    (hcontrols : s'.controls = s.controls ++ [.transfer (.fileBegin id s.nextStreamId g.baseOffset
      (f.entry.size - g.baseOffset) contentHash)])
    (hdata : s'.data = s.data) (hstate : s'.state = s.state) :
    streams.Grows (Function.update streams s.nextStreamId
        (some (id, g.baseOffset, g.baseOffset + (f.entry.size - g.baseOffset)))) ∧
      Offers source m (Function.update streams s.nextStreamId
        (some (id, g.baseOffset, g.baseOffset + (f.entry.size - g.baseOffset)))) complete s' := by
  have hgrows := Streams.grows_update (h.fresh _ (Nat.le_refl s.nextStreamId))
    (id, g.baseOffset, g.baseOffset + (f.entry.size - g.baseOffset))
  refine ⟨hgrows, hrole.trans h.role, hmanifest.trans h.manifest, fun streamId hle => ?_,
    fun id' f' streamId hf' hactive' => ?_, fun message hm => ?_,
    fun chunk hc => (h.data chunk (hdata ▸ hc)).mono hgrows, fun id' f' hf' hc => ?_,
    fun hc => (h.closing (hstate ▸ hc)).insert hf (fun hf => hcomplete.trans hf) hfiles⟩
  · rw [hnext] at hle
    rw [Function.update_of_ne (by omega)]
    exact h.fresh streamId (by omega)
  · rw [hfiles, get_insert] at hf'
    split at hf'
    · next heq =>
        obtain rfl := Option.some.inj hf'
        obtain rfl := Option.some.inj (hactive.symm.trans hactive')
        rw [Function.update_self, hentry, heq]
    · exact hgrows _ _ (h.active id' f' streamId hf' hactive')
  · rw [hcontrols] at hm
    rcases List.mem_append.1 hm with hm | hm
    · exact (h.controls message hm).mono hgrows
    · rw [List.mem_singleton.1 hm]
      exact Function.update_self ..
  · rw [hfiles, get_insert] at hf'
    split at hf'
    · next heq =>
        obtain rfl := Option.some.inj hf'
        rw [hentry, ← heq]
        exact h.done id f hf (hcomplete.symm.trans hc)
    · exact h.done id' f' hf' hc

theorem restart_complete (role : SessionRole) (f : FileRuntime) :
    (f.restart role).complete = f.complete := by
  unfold FileRuntime.restart
  split
  · rfl
  · rfl

theorem get_restart {files : Std.TreeMap FileId FileRuntime} {role : SessionRole}
    (h : (files.map fun _ (f : FileRuntime) => f.restart role)[id]? = some g) :
    ∃ f, files[id]? = some f ∧ g = f.restart role := by
  rw [Std.TreeMap.getElem?_map] at h
  obtain ⟨f, hf, rfl⟩ := Option.map_eq_some_iff.1 h
  exact ⟨f, hf, rfl⟩

/-- What a restarted file is like. -/
theorem restart_cases (role : SessionRole) (f : FileRuntime) :
    f.restart role = f ∨
      (f.restart role).entry = f.entry ∧ (f.restart role).activeStreamId = none ∧
        (f.restart role).durableOffset = f.durableOffset ∧
        (role = .accepter → (f.restart role).receivedOffset = f.durableOffset) := by
  unfold FileRuntime.restart
  split
  · exact .inl rfl
  · exact .inr ⟨rfl, rfl, rfl, fun hrole => if_pos hrole⟩

/-- A write to anything but the files. -/
theorem Offers.rest (h : Offers source m streams complete s) (hrole : s'.role = s.role)
    (hmanifest : s'.manifest = s.manifest) (hfiles : s'.files = s.files)
    (hnext : s.nextStreamId ≤ s'.nextStreamId)
    (hcontrols : ∀ message ∈ s'.controls, message ∈ s.controls ∨ Says op s message)
    (hdata : s'.data ⊆ s.data) (hstate : s'.state.closing = true → AllComplete s) :
    ∃ streams', streams.Grows streams' ∧ Offers source m streams' complete s' :=
  ⟨streams, .refl _, hrole.trans h.role, hmanifest.trans h.manifest,
    fun streamId hle => h.fresh streamId (hnext.trans hle), hfiles ▸ h.active,
    fun message hm => (hcontrols message hm).elim (h.controls message) h.told,
    fun chunk hc => h.data chunk (hdata hc), hfiles ▸ h.done,
    fun hc id f hf => hstate hc id f (hfiles ▸ hf)⟩

theorem loose_not_closing {st : SessionState} (h : st.loose = true) : ¬ st.closing = true := by
  cases st <;> simp_all [SessionState.loose, SessionState.closing]

/-- What an edit of the offerer keeps; it acts on the accepter's word. -/
theorem Edit.offers (hedit : Edit op t s s') (ho : Offering transferId m s)
    (h : Offers source m streams complete s)
    (hword : ∀ id size contentHash, op.hears = some (.fileComplete id size contentHash) →
      complete id size)
    (hreads : op.Reads source t) :
    ∃ streams', streams.Grows streams' ∧ Offers source m streams' complete s' := by
  have hnot : s.role ≠ .accepter := fun heq => by cases h.role.symm.trans heq
  have hkeep : ∀ message ∈ s.controls, message ∈ s.controls ∨ Says op s message :=
    fun _ => .inl
  have hsame := List.Subset.refl s.data
  have hnext := Nat.le_refl s.nextStreamId
  cases hedit with
  | controls c hc => exact h.rest rfl rfl rfl hnext hc hsame h.closing
  | data d hd => exact h.rest rfl rfl rfl hnext hkeep hd h.closing
  | path | activity | pending | decision | discard =>
      exact h.rest rfl rfl rfl hnext hkeep hsame h.closing
  | streamId => exact h.rest rfl rfl rfl (Nat.le_succ _) hkeep hsame h.closing
  | state st hst =>
      exact h.rest rfl rfl rfl hnext hkeep hsame fun hc => absurd hc (loose_not_closing hst)
  | turn st _ hst =>
      exact h.rest rfl rfl rfl hnext hkeep hsame fun hc => (hst hc).elim h.closing
        ho.tracks.allComplete
  | start hrole | hello _ hrole | assemble _ hrole | extend _ _ hrole | install _ hrole
  | acceptEmpty hrole | finish hrole => exact absurd hrole hnot
  | @write id f _ _ _ _ hf hw =>
      cases hw with
      | received _ _ hrole => exact absurd hrole hnot
      | taken hrole => exact absurd hrole hnot
      | began => exact ⟨_, h.begin hf rfl rfl rfl rfl rfl rfl rfl rfl rfl rfl⟩
      | @cut streamId bytes fin _ hactive hqueues hstart _ hfin =>
          refine ⟨streams, .refl _, h.put hf rfl rfl (.inl ⟨rfl, rfl⟩) .inl (fun hc => hc) rfl rfl
            rfl rfl (fun chunk hc => (List.mem_append.1 hc).imp_right fun hnew => ?_) rfl⟩
          rw [List.mem_singleton.1 hnew]
          refine ⟨_, _, h.active id f streamId hf hactive, hreads _ hqueues f hstart,
            fun hends => ?_⟩
          have hstop := hfin hends
          show f.baseOffset + f.sendOffset + bytes.length = _
          omega
      | kept =>
          exact ⟨streams, .refl _, h.put hf rfl rfl (.inl ⟨rfl, rfl⟩) .inl (fun hc => hc) rfl rfl
            rfl rfl (fun _ => .inl) rfl⟩
  | complete id f hf _ hwhy =>
      have hears := (hwhy.resolve_right fun hacc => hnot hacc.1).2
      exact ⟨streams, .refl _, h.put hf rfl rfl (.inr rfl) (fun _ => .inr (hword _ _ _ hears))
        (fun _ => rfl) rfl rfl rfl rfl (fun _ => .inl) rfl⟩
  | restart =>
      refine ⟨streams, .refl _, h.role, h.manifest, h.fresh, fun id g streamId hg hactive => ?_,
        h.controls, h.data, fun id g hg hc => ?_, fun hc id g hg => ?_⟩
      · obtain ⟨f, hf, rfl⟩ := get_restart hg
        rcases restart_cases s.role f with hsame | ⟨-, hnone, -, -⟩
        · rw [hsame] at hactive ⊢
          exact h.active id f streamId hf hactive
        · rw [hnone] at hactive
          cases hactive
      · obtain ⟨f, hf, rfl⟩ := get_restart hg
        rw [restart_complete] at hc
        have hentry : (f.restart s.role).entry = f.entry :=
          (restart_cases s.role f).elim (fun hsame => by rw [hsame]) (·.1)
        rw [hentry]
        exact h.done id f hf hc
      · obtain ⟨f, hf, rfl⟩ := get_restart hg
        rw [restart_complete]
        exact h.closing hc id f hf

theorem Edits.offers (hedits : Edits op t s s') (ho : Offering transferId m s)
    (h : Offers source m streams complete s)
    (hword : ∀ id size contentHash, op.hears = some (.fileComplete id size contentHash) →
      complete id size)
    (hreads : op.Reads source t) :
    ∃ streams', streams.Grows streams' ∧ Offers source m streams' complete s' := by
  induction hedits with
  | refl => exact ⟨streams, .refl _, h⟩
  | tail hpre hstep ih =>
      obtain ⟨streams₁, hgrows₁, h₁⟩ := ih
      obtain ⟨streams₂, hgrows₂, h₂⟩ := hstep.offers (Edits.offering hpre ho) h₁ hword hreads
      exact ⟨streams₂, fun _ _ hc => hgrows₂ _ _ (hgrows₁ _ _ hc), h₂⟩

end DartUdp.Session
