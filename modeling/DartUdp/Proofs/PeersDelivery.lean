import DartUdp.Proofs.PeersStreams
import DartUdp.Proofs.SessionConsent

/-!
# The files arrive

A chunk that comes in on a stream is a piece of the file that the stream carries,
and since the accepter takes only the piece that comes next, what it writes is the
file of the offerer. What the accepter gives out as durable is on its disk, and it
gives a file out as complete when all of it is durable. So when the offerer hears
that, the file has arrived.

`Gathers` is the accepter's half of the invariant and `Edits.takes` its rule;
`handleData_inOrder` is data with the disk it is written to.
-/

namespace DartUdp.Session

open DartUdp.Lib DartUdp.Transfer

variable {source : FileId → Bytes} {m : Manifest} {streams streams' : Streams} {K : Prop}
  {disk disk' : Disk} {refused : Bool} {op : Op} {t s s' : TransferSession}
  {transferId : TransferId} {id id' : FileId} {f g : FileRuntime} {chunk : DataChunk}

/-! ## The disk -/

/-- Nothing is on the disk but what the offerer has. -/
def Disk.From (source : FileId → Bytes) (disk : Disk) : Prop :=
  ∀ (id : FileId) (i : Nat) (b : UInt8), disk id i = some b → (source id)[i]? = some b

theorem Disk.From.write (h : disk.From source) {offset : Nat} {bytes : Bytes}
    (hbytes : bytes <+: (source id).drop offset) : (disk.write id offset bytes).From source := by
  intro id' i b hb
  unfold Disk.write at hb
  split at hb
  · next hin =>
      obtain ⟨rfl, hle, hlt⟩ := hin
      obtain ⟨rest, hrest⟩ := hbytes
      have hdrop : ((source id').drop offset)[i - offset]? = some b := by
        rw [← hrest, List.getElem?_append_left (by omega)]
        exact hb
      rwa [List.getElem?_drop, Nat.add_sub_cancel' hle] at hdrop
  · exact h id' i b hb

theorem Disk.Holds.mono {stop stop' : Nat} (h : disk.Holds id stop) (hle : stop' ≤ stop) :
    disk.Holds id stop' := fun i hi => h i (by omega)

/-- What is there stays, if under other bytes. -/
theorem Disk.isSome_write {i offset : Nat} {bytes : Bytes} (h : (disk id' i).isSome) :
    (disk.write id offset bytes id' i).isSome := by
  unfold Disk.write
  split
  · rw [List.getElem?_eq_getElem (by omega)]
    rfl
  · exact h

theorem Disk.Holds.write {stop offset : Nat} {bytes : Bytes} (h : disk.Holds id' stop) :
    (disk.write id offset bytes).Holds id' stop := fun i hi => Disk.isSome_write (h i hi)

/-- The file is written on where it ends. -/
theorem Disk.Holds.extend {offset : Nat} {bytes : Bytes} (h : disk.Holds id offset) :
    (disk.write id offset bytes).Holds id (offset + bytes.length) := by
  intro i hi
  by_cases hlt : i < offset
  · exact Disk.isSome_write (h i hlt)
  · unfold Disk.write
    rw [if_pos ⟨rfl, by omega, hi⟩, List.getElem?_eq_getElem (by omega)]
    rfl

/-! ## The accepter -/

/-- The file is complete at the accepter. -/
def Arrived (s : TransferSession) (id : FileId) (size : Nat) : Prop :=
  ∃ f, s.files[id]? = some f ∧ f.complete = true ∧ f.entry.size = size

/-- What the accepter's messages say of its files is so. -/
def Reported (s : TransferSession) : OutboundMessage → Prop
  | .transfer (.fileComplete id size _) => Arrived s id size
  | _ => True

theorem Reported.mono (hkeeps : ∀ id size, Arrived s id size → Arrived s' id size)
    {message : OutboundMessage} (h : Reported s message) : Reported s' message := by
  unfold Reported at h ⊢
  split
  · exact hkeeps _ _ h
  · trivial

theorem Accepting.reported (ha : Accepting transferId s) {message : OutboundMessage}
    (h : Says op s message) : Reported s message := by
  unfold Reported
  split
  · obtain ⟨-, key, f, hf, hkey, hc, hsize, -⟩ := h
    obtain ⟨m, -, htracks⟩ := ha.known hf
    have hown := (htracks.get hf).2.1
    obtain rfl := hkey.elim (fun heq => heq) fun heq => hown.symm.trans heq
    exact ⟨f, hf, hc, hsize⟩
  · trivial

/-- The stream a file is on carries it from its base to its end. -/
def OnStream (streams : Streams) (id : FileId) (f : FileRuntime) : Prop :=
  ∀ streamId, f.activeStreamId = some streamId →
    streams streamId = some (id, f.baseOffset, f.entry.size) ∧ f.baseOffset ≤ f.receivedOffset

/-- What is said to be there of a file is on the disk. What has been received is only
while the storage has refused nothing. -/
structure OnDisk (disk : Disk) (refused : Bool) (id : FileId) (f : FileRuntime) : Prop where
  durable : disk.Holds id f.durableOffset
  received : refused = false → disk.Holds id f.receivedOffset
  complete : f.complete = true → disk.Holds id f.entry.size

theorem OnStream.mono (hgrows : streams.Grows streams') (h : OnStream streams id f) :
    OnStream streams' id f := fun streamId hactive =>
  (h streamId hactive).imp_left (hgrows _ _)

theorem OnDisk.write {offset : Nat} {bytes : Bytes} (h : OnDisk disk refused id' f) :
    OnDisk (disk.write id offset bytes) refused id' f :=
  ⟨h.durable.write, fun hr => (h.received hr).write, fun hc => (h.complete hc).write⟩

theorem OnDisk.refuse (h : OnDisk disk refused id f) : OnDisk disk true id f :=
  ⟨h.durable, fun hr => Bool.noConfusion hr, h.complete⟩

/-- The assembly is of the offerer's entries. -/
structure PartOf (m : Manifest) (a : ManifestAssembly) : Prop where
  count : a.expectedCount = m.fileCount
  digest : a.digest = m.digest
  entries : a.entries ⊆ m.entries

/-- The manifest is the offerer's, but for the order of its entries. -/
def SameFiles (m m' : Manifest) : Prop := m'.digest = m.digest ∧ m'.entries.Perm m.entries

/-- An accepter of what the streams carry; with its disk, if its storage keeps its word. -/
structure Gathers (m : Manifest) (streams : Streams) (K : Prop) (disk : Disk) (refused : Bool)
    (s : TransferSession) : Prop where
  role : s.role = .accepter
  stream : ∀ (id : FileId) (f : FileRuntime), s.files[id]? = some f → OnStream streams id f
  disk : K → ∀ (id : FileId) (f : FileRuntime), s.files[id]? = some f → OnDisk disk refused id f
  assembly : ∀ a, s.assembly = some a → PartOf m a
  manifest : ∀ m', s.manifest = some m' → SameFiles m m'
  controls : ∀ message ∈ s.controls, Reported s message

theorem Gathers.mono (h : Gathers m streams K disk refused s) (hgrows : streams.Grows streams') :
    Gathers m streams' K disk refused s :=
  ⟨h.role, fun id f hf => (h.stream id f hf).mono hgrows, h.disk, h.assembly, h.manifest,
    h.controls⟩

theorem Arrived.put (hf : s.files[id]? = some f)
    (hfiles : ∀ id', s'.files[id']? = if id = id' then some g else s.files[id']?)
    (hentry : g.entry = f.entry) (hcomplete : f.complete = true → g.complete = true)
    {other : FileId} {size : Nat} (h : Arrived s other size) : Arrived s' other size := by
  obtain ⟨f', hf', hc, hsize⟩ := h
  by_cases hid : id = other
  · subst hid
    obtain rfl := Option.some.inj (hf.symm.trans hf')
    exact ⟨g, by rw [hfiles, if_pos rfl], hcomplete hc, hentry ▸ hsize⟩
  · exact ⟨f', by rwa [hfiles, if_neg hid], hc, hsize⟩

/-- One file is written, perhaps along with the disk. -/
theorem Gathers.put {refused' : Bool} (h : Gathers m streams K disk refused s)
    (hf : s.files[id]? = some f)
    (hfiles : ∀ id', s'.files[id']? = if id = id' then some g else s.files[id']?)
    (hentry : g.entry = f.entry) (hcomplete : f.complete = true → g.complete = true)
    (hstream : OnStream streams id g) (hdisk : K → OnDisk disk' refused' id g)
    (hothers : ∀ id' f', OnDisk disk refused id' f' → OnDisk disk' refused' id' f')
    (hrole : s'.role = s.role) (hassembly : s'.assembly = s.assembly)
    (hmanifest : s'.manifest = s.manifest) (hcontrols : s'.controls = s.controls) :
    Gathers m streams K disk' refused' s' ∧ ∀ id size, Arrived s id size → Arrived s' id size := by
  have hkeeps : ∀ id size, Arrived s id size → Arrived s' id size := fun _ _ =>
    Arrived.put hf hfiles hentry hcomplete
  refine ⟨⟨hrole.trans h.role, fun id' f' hf' => ?_, fun hK id' f' hf' => ?_,
    hassembly ▸ h.assembly, hmanifest ▸ h.manifest, fun message hm => ?_⟩, hkeeps⟩
  · rw [hfiles] at hf'
    split at hf'
    · next heq =>
        obtain rfl := Option.some.inj hf'
        exact heq ▸ hstream
    · exact h.stream id' f' hf'
  · rw [hfiles] at hf'
    split at hf'
    · next heq =>
        obtain rfl := Option.some.inj hf'
        exact heq ▸ hdisk hK
    · exact hothers id' f' (h.disk hK id' f' hf')
  · rw [hcontrols] at hm
    exact (h.controls message hm).mono hkeeps

/-- Anything but the files is written. -/
theorem Gathers.rest (h : Gathers m streams K disk refused s) (hrole : s'.role = s.role)
    (hfiles : s'.files = s.files) (hassembly : ∀ a, s'.assembly = some a → PartOf m a)
    (hmanifest : s'.manifest = s.manifest)
    (hcontrols : ∀ message ∈ s'.controls, message ∈ s.controls ∨ Reported s message) :
    Gathers m streams K disk refused s' ∧ ∀ id size, Arrived s id size → Arrived s' id size := by
  have hkeeps : ∀ id size, Arrived s id size → Arrived s' id size := by
    intro id size harrived
    unfold Arrived
    rw [hfiles]
    exact harrived
  exact ⟨⟨hrole.trans h.role, hfiles ▸ h.stream, hfiles ▸ h.disk, hassembly, hmanifest ▸ h.manifest,
    fun message hm => ((hcontrols message hm).elim (h.controls message) fun hr => hr).mono hkeeps⟩,
    hkeeps⟩

/-! ## What an edit of the accepter keeps -/

/-- All the entries there are to be have come. -/
theorem PartOf.sameFiles {a : ManifestAssembly} {digest : Digest} {m' : Manifest}
    (h : PartOf m a) (hm' : a.finish digest = .ok m') : SameFiles m m' := by
  obtain ⟨hdigest, hentries⟩ := ManifestAssembly.finish_digest hm'
  have hcount : a.entries.length = a.expectedCount := by
    unfold ManifestAssembly.finish at hm'
    split at hm'
    · cases hm'
    split at hm'
    · cases hm'
    · next hlength => exact not_not.1 hlength
  have hnodup : a.entries.Nodup := hentries ▸ List.Nodup.of_map _ m'.ok.ids
  refine ⟨hdigest.trans h.digest, hentries ▸ ?_⟩
  refine (List.subperm_of_subset hnodup h.entries).perm_of_length_le ?_
  exact (hcount.trans h.count).ge

/-- The manifest is there, and none of its files has begun. -/
theorem Gathers.install (h : Gathers m streams K disk refused s) {a : ManifestAssembly}
    {digest : Digest} {m' : Manifest} {st : SessionState}
    (hblank : ∀ id : FileId, s.files[id]? = none) (ha : s.assembly = some a)
    (hm' : a.finish digest = .ok m') :
    let s' := { s.installManifest m' with assembly := none, state := st }
    Gathers m streams K disk refused s' ∧ ∀ id size, Arrived s id size → Arrived s' id size := by
  have hnone : ∀ id size, ¬ Arrived s id size := by
    rintro id size ⟨f, hf, -⟩
    rw [hblank id] at hf
    cases hf
  have hnew : ∀ (id : FileId) (f : FileRuntime), m'.runtimes[id]? = some f →
      OnStream streams id f ∧ OnDisk disk refused id f := by
    intro id f hf
    obtain ⟨e, -, -, rfl⟩ := Manifest.runtimes_get.1 hf
    exact ⟨fun streamId hactive => absurd hactive.symm (Option.some_ne_none streamId),
      fun i hi => absurd hi (Nat.not_lt_zero i), fun _ i hi => absurd hi (Nat.not_lt_zero i),
      fun hc => Bool.noConfusion hc⟩
  refine ⟨⟨h.role, fun id f hf => (hnew id f hf).1, fun _ id f hf => (hnew id f hf).2,
    fun b hb => absurd hb.symm (Option.some_ne_none b), fun m₁ hm₁ => ?_, fun message hm => ?_⟩,
    fun id size harrived => absurd harrived (hnone id size)⟩
  · exact Option.some.inj hm₁ ▸ (h.assembly a ha).sameFiles hm'
  · exact (h.controls message hm).mono fun id size harrived => absurd harrived (hnone id size)

/-- The streams are left, and what is not on the disk has to come again. -/
theorem Gathers.restart (h : Gathers m streams K disk refused s) :
    let s' := { s with files := s.files.map fun _ f => f.restart s.role }
    Gathers m streams K disk refused s' ∧ ∀ id size, Arrived s id size → Arrived s' id size := by
  have hkeeps : ∀ id size, Arrived s id size →
      Arrived { s with files := s.files.map fun _ f => f.restart s.role } id size := by
    rintro id size ⟨f, hf, hc, hsize⟩
    refine ⟨f.restart s.role, ?_, (restart_complete _ f).trans hc, ?_⟩
    · show (s.files.map fun _ (f : FileRuntime) => f.restart s.role)[id]? = _
      rw [Std.TreeMap.getElem?_map, hf]
      rfl
    · exact (restart_cases s.role f).elim (fun hsame => by rw [hsame, hsize])
        fun hrest => by rw [hrest.1, hsize]
  refine ⟨⟨h.role, fun id g hg => ?_, fun hK id g hg => ?_, h.assembly, h.manifest,
    fun message hm => (h.controls message hm).mono hkeeps⟩, hkeeps⟩
  · obtain ⟨f, hf, rfl⟩ := get_restart hg
    rcases restart_cases s.role f with hsame | ⟨-, hnone, -, -⟩
    · exact hsame.symm ▸ h.stream id f hf
    · intro streamId hactive
      rw [hnone] at hactive
      cases hactive
  · obtain ⟨f, hf, rfl⟩ := get_restart hg
    have hon := h.disk hK id f hf
    rcases restart_cases s.role f with hsame | ⟨hentry, -, hdurable, hreceived⟩
    · exact hsame.symm ▸ hon
    · refine ⟨hdurable ▸ hon.durable, fun _ => ?_, fun hc => ?_⟩
      · rw [hreceived h.role]
        exact hon.durable
      · rw [hentry]
        exact hon.complete ((restart_complete _ f).symm.trans hc)

theorem Edit.takes (hedit : Edit op t s s') (ha : Accepting transferId s)
    (h : Gathers m streams K disk refused s) (hbrings : op.brings = none)
    (htold : ∀ message ∈ op.hears, message.isError = false → Told m streams (.transfer message))
    (hrestores : K → ∀ r ∈ op.restores, disk.Holds r.1 r.2)
    (hmarks : K → refused = true → ∀ r ∈ op.marks, disk.Holds r.1 r.2) :
    Gathers m streams K disk refused s' ∧ ∀ id size, Arrived s id size → Arrived s' id size := by
  have hnot : s.role ≠ .offerer := fun heq => by cases h.role.symm.trans heq
  have hkeep : ∀ message ∈ s.controls, message ∈ s.controls ∨ Reported s message :=
    fun _ => .inl
  cases hedit with
  | controls c hc =>
      exact h.rest rfl rfl h.assembly rfl fun message hm => (hc message hm).imp_right ha.reported
  | data | path | activity | streamId | pending | decision | state | start | hello | acceptEmpty
  | finish => exact h.rest rfl rfl h.assembly rfl hkeep
  | turn _ hrole => exact absurd hrole hnot
  | assemble a _ _ _ hempty hears =>
      obtain ⟨hcount, hrest⟩ := Prod.mk.inj (htold _ hears rfl)
      refine h.rest rfl rfl (fun b hb => ?_) rfl hkeep
      obtain rfl := Option.some.inj hb
      exact ⟨hcount, (Prod.mk.inj hrest).2, by rw [hempty]; exact List.nil_subset _⟩
  | extend a e _ hassembly hears =>
      obtain ⟨hcount, hdigest, hentries⟩ := h.assembly a hassembly
      refine h.rest rfl rfl (fun b hb => ?_) rfl hkeep
      obtain rfl := Option.some.inj hb
      refine ⟨hcount, hdigest,
        fun e' he' => (List.mem_append.1 he').elim (hentries ·) fun hin => ?_⟩
      rw [List.mem_singleton.1 hin]
      exact htold _ hears rfl
  | discard => exact h.rest rfl rfl (fun b hb => absurd hb.symm (Option.some_ne_none b)) rfl hkeep
  | install a hrole hassembly hm' =>
      exact h.install (ha.blank (ha.assembling a hassembly).2).1 hassembly hm'
  | @write id f _ _ _ _ hf hw =>
      cases hw with
      | received _ _ _ hdata => rw [hbrings] at hdata; cases hdata
      | began hrole => exact absurd hrole hnot
      | cut hrole => exact absurd hrole hnot
      | kept durableOffset checkpointId stateHash _ _ hwhy =>
          have hholds : K → disk.Holds id durableOffset := by
            intro hK
            have hon := h.disk hK id f hf
            rcases hwhy with hrole | hle | hrestored | ⟨hle, hmarked⟩
            · exact absurd hrole hnot
            · exact hon.durable.mono hle
            · exact hrestores hK _ hrestored
            · cases hr : refused with
              | false => exact (hon.received hr).mono hle
              | true => exact hmarks hK hr _ hmarked
          exact h.put (g := { f with durableOffset, checkpointId, stateHash }) hf
            (fun _ => get_insert) rfl (fun hc => hc) (h.stream id f hf)
            (fun hK => ⟨hholds hK, (h.disk hK id f hf).received, (h.disk hK id f hf).complete⟩)
            (fun _ _ hother => hother) rfl rfl rfl rfl
      | @taken streamId remainingSize contentHash _ hears _ _ _ _ hle hremaining =>
          have hcarried : streams streamId = some (id, f.durableOffset, f.entry.size) := by
            have hsaid : streams streamId =
              some (id, f.durableOffset, f.durableOffset + remainingSize) := htold _ hears rfl
            rwa [hremaining, Nat.add_sub_cancel' hle] at hsaid
          have hstream : OnStream streams id
              { f with
                activeStreamId := some streamId
                baseOffset := f.durableOffset
                receivedOffset := f.durableOffset
                awaitingFinish := remainingSize = 0 } := by
            intro other hother
            cases hother
            exact ⟨hcarried, Nat.le_refl _⟩
          exact h.put hf (fun _ => get_insert) rfl (fun hc => hc) hstream
            (fun hK => ⟨(h.disk hK id f hf).durable, fun _ => (h.disk hK id f hf).durable,
              (h.disk hK id f hf).complete⟩)
            (fun _ _ hother => hother) rfl rfl rfl rfl
  | complete id f hf _ hwhy =>
      have hdurable := (hwhy.resolve_left fun hoff => hnot hoff.1).2
      have hstream : OnStream streams id { f with complete := true, activeStreamId := none } :=
        fun other hother => absurd hother.symm (Option.some_ne_none other)
      refine h.put hf (fun _ => get_insert) rfl (fun _ => rfl) hstream (fun hK => ?_)
        (fun _ _ hother => hother) rfl rfl rfl rfl
      have hon := h.disk hK id f hf
      exact ⟨hon.durable, hon.received, fun _ => hdurable ▸ hon.durable⟩
  | restart => exact h.restart

theorem Edits.takes (hedits : Edits op t s s') (ha : Accepting transferId s)
    (h : Gathers m streams K disk refused s) (hbrings : op.brings = none)
    (htold : ∀ message ∈ op.hears, message.isError = false → Told m streams (.transfer message))
    (hrestores : K → ∀ r ∈ op.restores, disk.Holds r.1 r.2)
    (hmarks : K → refused = true → ∀ r ∈ op.marks, disk.Holds r.1 r.2) :
    Gathers m streams K disk refused s' ∧ ∀ id size, Arrived s id size → Arrived s' id size := by
  induction hedits with
  | refl => exact ⟨h, fun _ _ h => h⟩
  | tail hpre hstep ih =>
      obtain ⟨htakes, hkeeps⟩ :=
        hstep.takes (Edits.accepting hpre ha) ih.1 hbrings htold hrestores hmarks
      exact ⟨htakes, fun id size harrived => hkeeps id size (ih.2 id size harrived)⟩

/-! ## Data -/

/-- The chunk is on the stream of its file, where the file has got to, and the file
gets further by it. -/
structure TakenIn (chunk : DataChunk) (f : FileRuntime) (s s' : TransferSession) : Prop where
  role : s.role = .accepter
  file : s.files[chunk.fileId]? = some f
  active : f.activeStreamId = some chunk.streamId
  next : chunk.offset = f.receivedOffset - f.baseOffset
  result : ∃ files finish, s' = { s with files := files } ∧ ∀ id : FileId, files[id]? =
    if chunk.fileId = id then
      some
        { f with
          receivedOffset := f.baseOffset + (chunk.offset + chunk.bytes.length)
          awaitingFinish := finish }
    else s.files[id]?

/-- A chunk is taken in and reported, or nothing happens; only where the chunk ends the
file too early has the file got further and no one hears of it. -/
theorem handleData_ends (chunk : DataChunk) :
    Ends (handleData chunk) s
      (fun events s' => s' = s ∧ received events = [] ∨
        ∃ f, TakenIn chunk f s s' ∧
          received events = [(chunk.fileId, f.baseOffset + chunk.offset, chunk.bytes)])
      fun _ s' => s' = s ∨ chunk.fin = true ∧ ∃ f, TakenIn chunk f s s' ∧
        f.baseOffset + (chunk.offset + chunk.bytes.length) ≠ f.entry.size := by
  simp only [handleData, ends_bind, ends_calls]
  refine ⟨fun hrole => ⟨fun f hf => ?_, fun _ => .inl trivial⟩, fun _ => .inl trivial⟩
  split
  · exact .inl rfl
  next active hactive =>
  simp only [ends_steps]
  refine ⟨fun _ => .inl trivial, fun hsame => ?_⟩
  split
  · exact .inl rfl
  next stop hadd =>
  obtain ⟨-, rfl⟩ := checkedAdd_eq_some.1 hadd
  simp only [ends_steps, acceptChunk, ends_setFile]
  refine ⟨fun _ => .inl trivial, fun _ => ⟨fun _ => .inl ⟨trivial, rfl⟩, fun _ =>
    ⟨fun _ => .inl trivial, fun hnext => ⟨fun hshort => ?_, fun _ => ?_⟩⟩⟩⟩
  · refine .inr ⟨hshort.1, f, ⟨hrole, hf, ?_, not_not.1 hnext, _, f.awaitingFinish, rfl, ?_⟩,
      hshort.2⟩
    · rw [hactive, not_not.1 hsame]
    · exact fun _ => get_insert
  · have htaken : ∀ finish, TakenIn chunk f s
        { s with
          files := (s.files.insert chunk.fileId
            { f with receivedOffset := f.baseOffset + (chunk.offset + chunk.bytes.length) }).insert
              chunk.fileId
              { f with
                receivedOffset := f.baseOffset + (chunk.offset + chunk.bytes.length)
                awaitingFinish := finish } } := by
      intro finish
      refine ⟨hrole, hf, ?_, not_not.1 hnext, _, finish, rfl, fun id => ?_⟩
      · rw [hactive, not_not.1 hsame]
      · rw [get_insert, get_insert]
        split
        · rfl
        · rfl
    exact ⟨fun _ => .inr ⟨f, htaken _, rfl⟩, fun _ => .inr ⟨f, htaken _, rfl⟩⟩

/-- A chunk that was cut from the offerer's file is the piece that comes next. -/
theorem TakenIn.piece (htaken : TakenIn chunk f s s') (h : Gathers m streams K disk refused s)
    (hcut : CutFrom source streams chunk) :
    f.baseOffset + chunk.offset = f.receivedOffset ∧
      chunk.bytes <+: (source chunk.fileId).drop (f.baseOffset + chunk.offset) ∧
      (chunk.fin = true →
        f.baseOffset + (chunk.offset + chunk.bytes.length) = f.entry.size) := by
  obtain ⟨hcarried, hle⟩ := h.stream _ f htaken.file _ htaken.active
  obtain ⟨start, stop, hcarried', hbytes, hfin⟩ := hcut
  obtain ⟨-, hrest⟩ := Prod.mk.inj (Option.some.inj (hcarried'.symm.trans hcarried))
  obtain ⟨rfl, rfl⟩ := Prod.mk.inj hrest
  have hnext := htaken.next
  refine ⟨by omega, hbytes, fun hends => ?_⟩
  have hstop := hfin hends
  omega

/-- The file gets further; on the disk it does only if the chunk is written there. -/
theorem TakenIn.takes {refused' : Bool} (htaken : TakenIn chunk f s s')
    (h : Gathers m streams K disk refused s) (hcut : CutFrom source streams chunk)
    (hothers : ∀ id f, OnDisk disk refused id f → OnDisk disk' refused' id f)
    (hdisk : refused' = false → disk.Holds chunk.fileId f.receivedOffset →
      disk'.Holds chunk.fileId (f.receivedOffset + chunk.bytes.length))
    (hsame : refused' = false → refused = false) :
    Gathers m streams K disk' refused' s' ∧ ∀ id size, Arrived s id size → Arrived s' id size := by
  obtain ⟨hnext, -, -⟩ := htaken.piece h hcut
  obtain ⟨files, finish, rfl, hfiles⟩ := htaken.result
  refine h.put htaken.file hfiles rfl (fun hc => hc) (fun streamId hactive => ?_) (fun hK => ?_)
    hothers rfl rfl rfl rfl
  · obtain ⟨hcarried, hle⟩ := h.stream _ f htaken.file streamId hactive
    refine ⟨hcarried, ?_⟩
    show f.baseOffset ≤ f.baseOffset + (chunk.offset + chunk.bytes.length)
    omega
  · have hon := hothers _ f (h.disk hK _ f htaken.file)
    refine ⟨hon.durable, fun hr => ?_, hon.complete⟩
    show disk'.Holds chunk.fileId (f.baseOffset + (chunk.offset + chunk.bytes.length))
    rw [← Nat.add_assoc, hnext]
    exact hdisk hr ((h.disk hK _ f htaken.file).received (hsame hr))

/-- What is in order after the events of a call of the accepter. -/
structure InOrder (source : FileId → Bytes) (m : Manifest) (streams : Streams) (K : Prop)
    (disk : Disk) (refused : Bool) (s : TransferSession) (events : List SessionEvent)
    (s' : TransferSession) : Prop where
  takes : Gathers m streams K (disk.record events) refused s'
  keeps : ∀ id size, Arrived s id size → Arrived s' id size
  disk : disk.From source → (disk.record events).From source

theorem record_none {events : List SessionEvent} (h : received events = []) :
    disk.record events = disk := by
  unfold Disk.record
  rw [h]
  rfl

theorem InOrder.refl (h : Gathers m streams K disk refused s) {events : List SessionEvent}
    (hnone : received events = []) : InOrder source m streams K disk refused s events s := by
  have hsame : disk.record events = disk := record_none hnone
  exact ⟨hsame.symm ▸ h, fun _ _ h => h, fun hfrom => hsame.symm ▸ hfrom⟩

/-- One may believe of the storage that it has refused more. -/
theorem InOrder.weaken {events : List SessionEvent}
    (h : InOrder source m streams K disk refused s events s') (more : Bool) :
    InOrder source m streams K disk (refused || more) s events s' := by
  cases more with
  | false => rwa [Bool.or_false]
  | true =>
      rw [Bool.or_true]
      exact ⟨⟨h.takes.role, h.takes.stream, fun hK id f hf => (h.takes.disk hK id f hf).refuse,
        h.takes.assembly, h.takes.manifest, h.takes.controls⟩, h.keeps, h.disk⟩

theorem InOrder.fail {events : List SessionEvent}
    (h : InOrder source m streams K disk refused s events s') :
    InOrder source m streams K disk refused s events { s' with state := .failed } :=
  ⟨⟨h.takes.role, h.takes.stream, h.takes.disk, h.takes.assembly, h.takes.manifest,
    h.takes.controls⟩, h.keeps, h.disk⟩

/-- A chunk that was cut from the offerer's file comes in: written or refused, the
accepter is in order. -/
theorem handleData_inOrder (h : Gathers m streams K disk refused s)
    (hcut : CutFrom source streams chunk) :
    Ends (handleData chunk) s
      (fun events s' => InOrder source m streams K disk refused s events s' ∧
        (s' = s ∨ received events ≠ [] ∧ InOrder source m streams K disk true s [] s'))
      fun _ s' => s' = s := by
  refine (handleData_ends chunk).mono (fun events s' hout => ?_) fun _ s' hout => ?_
  · rcases hout with ⟨rfl, hnone⟩ | ⟨f, htaken, hreport⟩
    · exact ⟨.refl h hnone, .inl rfl⟩
    obtain ⟨hnext, hbytes, -⟩ := htaken.piece h hcut
    have hrecord : disk.record events =
        disk.write chunk.fileId (f.baseOffset + chunk.offset) chunk.bytes := by
      unfold Disk.record
      rw [hreport]
      rfl
    have hwritten : Gathers m streams K (disk.record events) refused s' ∧
        ∀ id size, Arrived s id size → Arrived s' id size :=
      htaken.takes h hcut (fun _ _ hon => hrecord ▸ hon.write) (fun _ hholds => by
        rw [hrecord, hnext]
        exact hholds.extend) fun hr => hr
    have hlost : Gathers m streams K disk true s' ∧
        ∀ id size, Arrived s id size → Arrived s' id size :=
      htaken.takes h hcut (fun _ _ => OnDisk.refuse) (fun hr => by cases hr) fun hr => by cases hr
    exact ⟨⟨hwritten.1, hwritten.2, fun hfrom => hrecord ▸ hfrom.write hbytes⟩,
      .inr ⟨by rw [hreport]; exact List.cons_ne_nil _ _, hlost.1, hlost.2, fun hfrom => hfrom⟩⟩
  · rcases hout with rfl | ⟨hfin, f, htaken, hne⟩
    · rfl
    · exact absurd ((htaken.piece h hcut).2.2 hfin) hne

end DartUdp.Session
