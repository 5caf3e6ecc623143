import Mathlib.Data.List.Induction
import DartUdp.Proofs.SessionEdits

/-!
# A session keeps to its manifest

From the moment a session has a manifest, its files are those of the manifest
and its counters count the complete ones. This holds along every run of either
end; for the accepter it comes with the story of where the manifest came from.

`Tracks` is the invariant and `Edit.tracks` its step; `offering_run` and
`accepting_run` carry it through the runs of the two ends.
-/

namespace DartUdp.Session

open DartUdp.Lib DartUdp.Transfer

variable {op : Op} {t s s' : TransferSession} {m : Manifest}

/-! ## Counting complete files -/

/-- The file is there and complete. -/
def completeAt (files : Std.TreeMap FileId FileRuntime) (id : FileId) : Bool :=
  files[id]?.any (·.complete)

/-- The weights of the complete files of a manifest, summed up. -/
def weigh (files : Std.TreeMap FileId FileRuntime) (w : ManifestEntry → Nat)
    (entries : List ManifestEntry) : Nat :=
  (entries.map fun e => if completeAt files e.fileId then w e else 0).sum

theorem weigh_congr {files files' : Std.TreeMap FileId FileRuntime} {w : ManifestEntry → Nat}
    {entries : List ManifestEntry}
    (h : ∀ e ∈ entries, completeAt files' e.fileId = completeAt files e.fileId) :
    weigh files' w entries = weigh files w entries := by
  unfold weigh
  congr 1
  exact List.map_congr_left fun e he => by rw [h e he]

/-- Completing one more file adds its weight. -/
theorem weigh_complete {files files' : Std.TreeMap FileId FileRuntime} {w : ManifestEntry → Nat}
    {entries : List ManifestEntry} {e : ManifestEntry}
    (hids : (entries.map (·.fileId)).Nodup) (he : e ∈ entries)
    (hbefore : completeAt files e.fileId = false) (hafter : completeAt files' e.fileId = true)
    (hother : ∀ id, id ≠ e.fileId → completeAt files' id = completeAt files id) :
    weigh files' w entries = weigh files w entries + w e := by
  induction entries with
  | nil => cases he
  | cons e' rest ih =>
      rw [List.map_cons, List.nodup_cons] at hids
      have hsplit : ∀ fs, weigh fs w (e' :: rest) =
          (if completeAt fs e'.fileId then w e' else 0) + weigh fs w rest := fun _ => rfl
      rw [hsplit, hsplit]
      rcases List.mem_cons.1 he with rfl | he
      · have hrest : weigh files' w rest = weigh files w rest :=
          weigh_congr fun e'' he'' => hother _ fun heq =>
            hids.1 (heq ▸ List.mem_map_of_mem he'')
        rw [hbefore, hafter, hrest]
        simp only [if_true, Bool.false_eq_true, if_false]
        omega
      · have hne : e'.fileId ≠ e.fileId := fun heq =>
          hids.1 (heq ▸ List.mem_map_of_mem he)
        rw [ih hids.2 he, hother _ hne]
        omega

theorem weigh_all {files : Std.TreeMap FileId FileRuntime} {w : ManifestEntry → Nat}
    {entries : List ManifestEntry} (h : ∀ e ∈ entries, completeAt files e.fileId = true) :
    weigh files w entries = (entries.map w).sum := by
  unfold weigh
  congr 1
  exact List.map_congr_left fun e he => by rw [h e he, if_pos rfl]

theorem weigh_one_le (files : Std.TreeMap FileId FileRuntime) (entries : List ManifestEntry) :
    weigh files (fun _ => 1) entries ≤ entries.length := by
  induction entries with
  | nil => exact Nat.le_refl _
  | cons e rest ih =>
      show (if completeAt files e.fileId then 1 else 0) + weigh files (fun _ => 1) rest ≤ _
      rw [List.length_cons]
      split
      · omega
      · omega

/-- The complete files are as many as the entries only if all are complete. -/
theorem complete_of_weigh {files : Std.TreeMap FileId FileRuntime}
    {entries : List ManifestEntry}
    (h : weigh files (fun _ => 1) entries = entries.length) :
    ∀ e ∈ entries, completeAt files e.fileId = true := by
  induction entries with
  | nil => exact fun _ he => absurd he List.not_mem_nil
  | cons e rest ih =>
      change (if completeAt files e.fileId then 1 else 0) + weigh files (fun _ => 1) rest =
        (e :: rest).length at h
      rw [List.length_cons] at h
      have hle := weigh_one_le files rest
      split at h
      · next hc =>
          intro e' he'
          rcases List.mem_cons.1 he' with rfl | he'
          · exact hc
          · exact ih (by omega) e' he'
      · omega

theorem activeFileCount_idle (h : ∀ (id : FileId) (f : FileRuntime), s.files[id]? = some f →
    f.activeStreamId = none) : s.activeFileCount = 0 := by
  unfold TransferSession.activeFileCount
  rw [List.countP_eq_zero]
  intro entry hentry
  rw [h entry.1 entry.2 (Std.TreeMap.mem_toList_iff_getElem?_eq_some.1 hentry)]
  exact Bool.false_ne_true

/-! ## The files and the counters -/

/-- The session has the files of the manifest and counts the complete ones. -/
structure Tracks (m : Manifest) (s : TransferSession) : Prop where
  file : ∀ e ∈ m.entries, ∃ f, s.files[e.fileId]? = some f ∧ f.entry = e ∧ FileOk s.role f
  only : ∀ (id : FileId) (f : FileRuntime), s.files[id]? = some f → ∃ e ∈ m.entries, e.fileId = id
  size : s.files.size = m.entries.length
  count : s.completedFiles = weigh s.files (fun _ => 1) m.entries
  total : s.completedSize = weigh s.files (·.size) m.entries

theorem Tracks.get (h : Tracks m s) {id : FileId} {f : FileRuntime} (hf : s.files[id]? = some f) :
    f.entry ∈ m.entries ∧ f.entry.fileId = id ∧ FileOk s.role f := by
  obtain ⟨e, he, rfl⟩ := h.only id f hf
  obtain ⟨f', hf', hentry, hok⟩ := h.file e he
  obtain rfl := Option.some.inj (hf'.symm.trans hf)
  rw [hentry]
  exact ⟨he, rfl, hok⟩

/-- The counter has reached the number of the files when all of them are complete. -/
theorem Tracks.all_iff (h : Tracks m s) :
    s.completedFiles = s.files.size ↔ ∀ e ∈ m.entries, completeAt s.files e.fileId = true := by
  constructor
  · intro heq
    exact complete_of_weigh (by rw [← h.count, heq, h.size])
  · intro hall
    rw [h.count, weigh_all hall, h.size]
    simp

/-- Tracking only looks at the files and the counters. -/
theorem Tracks.congr (h : Tracks m s) (hrole : s'.role = s.role) (hfiles : s'.files = s.files)
    (hcount : s'.completedFiles = s.completedFiles)
    (htotal : s'.completedSize = s.completedSize) : Tracks m s' := by
  refine ⟨?_, ?_, ?_, ?_, ?_⟩
  · rw [hfiles, hrole]
    exact h.file
  · rw [hfiles]
    exact h.only
  · rw [hfiles]
    exact h.size
  · rw [hfiles, hcount]
    exact h.count
  · rw [hfiles, htotal]
    exact h.total

theorem completeAt_insert {files : Std.TreeMap FileId FileRuntime} {id id' : FileId}
    {g : FileRuntime} :
    completeAt (files.insert id g) id' = if id = id' then g.complete else completeAt files id' := by
  unfold completeAt
  rw [Std.TreeMap.getElem?_insert]
  by_cases h : id = id'
  · subst h
    simp
  · rw [if_neg h, if_neg (by rwa [Std.compare_eq_iff_eq])]

theorem completeAt_eq {files : Std.TreeMap FileId FileRuntime} {id : FileId} {f : FileRuntime}
    (h : files[id]? = some f) : completeAt files id = f.complete := by
  unfold completeAt
  rw [h]
  rfl

/-- Files that change under their own ids stay those of the manifest. -/
theorem Tracks.insert (h : Tracks m s) {id : FileId} {f g : FileRuntime}
    (hf : s.files[id]? = some f) (hentry : g.entry = f.entry) (hok : FileOk s.role g)
    (hrole : s'.role = s.role) (hfiles : s'.files = s.files.insert id g)
    (hcount : s'.completedFiles = weigh s'.files (fun _ => 1) m.entries)
    (htotal : s'.completedSize = weigh s'.files (·.size) m.entries) : Tracks m s' := by
  have hget : ∀ id', s'.files[id']? = if id = id' then some g else s.files[id']? := by
    intro id'
    rw [hfiles, Std.TreeMap.getElem?_insert]
    by_cases hid : id = id'
    · rw [if_pos hid, if_pos (Std.compare_eq_iff_eq.2 hid)]
    · rw [if_neg hid, if_neg (by rwa [Std.compare_eq_iff_eq])]
  refine ⟨fun e he => ?_, fun id' f' hf' => ?_, ?_, hcount, htotal⟩
  · obtain ⟨f', hf', he', hok'⟩ := h.file e he
    rw [hget, hrole]
    by_cases hid : id = e.fileId
    · subst hid
      obtain rfl := Option.some.inj (hf.symm.trans hf')
      exact ⟨g, if_pos rfl, hentry.trans he', hok⟩
    · exact ⟨f', by rwa [if_neg hid], he', hok'⟩
  · rw [hget] at hf'
    split at hf'
    · next hid => exact hid ▸ h.only id f hf
    · exact h.only id' f' hf'
  · rw [hfiles, Std.TreeMap.size_insert, if_pos, h.size]
    exact Std.TreeMap.mem_iff_isSome_getElem?.2 (by rw [hf]; rfl)

theorem restart_ok {role : SessionRole} {f : FileRuntime} (h : FileOk role f) :
    FileOk role (f.restart role) ∧ (f.restart role).entry = f.entry ∧
      (f.restart role).complete = f.complete ∧
      (f.restart role).baseOffset = f.baseOffset := by
  unfold FileRuntime.restart
  split
  · exact ⟨h, rfl, rfl, rfl⟩
  · have := h.sent
    refine ⟨⟨h.durable, ?_, ?_, fun _ => rfl, fun _ => rfl, nofun⟩, rfl, rfl, rfl⟩
    · show (if role = .accepter then f.durableOffset else f.receivedOffset) ≤ f.entry.size
      split
      · exact h.durable
      · exact h.received
    · show f.baseOffset + 0 ≤ f.entry.size
      omega

theorem completeAt_restart {files : Std.TreeMap FileId FileRuntime} {role : SessionRole}
    (id : FileId) :
    completeAt (files.map fun _ (f : FileRuntime) => f.restart role) id = completeAt files id := by
  unfold completeAt
  rw [Std.TreeMap.getElem?_map]
  cases files[id]? with
  | none => rfl
  | some f =>
      show (f.restart role).complete = f.complete
      unfold FileRuntime.restart
      split <;> rfl

/-- A file is written that stays as complete as it is. -/
theorem Tracks.write (h : Tracks m s) {id : FileId} {f g : FileRuntime}
    (hf : s.files[id]? = some f) (hentry : g.entry = f.entry) (hcomplete : g.complete = f.complete)
    (hok : FileOk s.role g) (hrole : s'.role = s.role) (hfiles : s'.files = s.files.insert id g)
    (hcount : s'.completedFiles = s.completedFiles) (htotal : s'.completedSize = s.completedSize) :
    Tracks m s' := by
  have hsame : ∀ id', completeAt s'.files id' = completeAt s.files id' := by
    intro id'
    rw [hfiles, completeAt_insert]
    split
    · next hid => rw [← hid, completeAt_eq hf, hcomplete]
    · rfl
  refine h.insert hf hentry hok hrole hfiles ?_ ?_
  · exact hcount.trans (h.count.trans (weigh_congr fun e _ => hsame e.fileId).symm)
  · exact htotal.trans (h.total.trans (weigh_congr fun e _ => hsame e.fileId).symm)

/-- Every edit but a new manifest keeps to the one there is. -/
theorem Edit.tracks (h : Edit op t s s') (ht : Tracks m s)
    (hinstall : s.role = .accepter → s.assembly = none) : Tracks m s' := by
  cases h with
  | controls | data | path | activity | streamId | pending | decision =>
      exact ht.congr rfl rfl rfl rfl
  | state | turn | start | hello | assemble | extend | discard | acceptEmpty | finish =>
      exact ht.congr rfl rfl rfl rfl
  | install a hrole ha =>
      rw [hinstall hrole] at ha
      cases ha
  | write hf hw => exact ht.write hf hw.entry hw.complete (hw.ok (ht.get hf).2.2) rfl rfl rfl rfl
  | complete id f hf hc =>
      obtain ⟨hmem, hid, hok⟩ := ht.get hf
      have hadds : ∀ w : ManifestEntry → Nat,
          weigh (s.files.insert id { f with complete := true, activeStreamId := none }) w
            m.entries = weigh s.files w m.entries + w f.entry := by
        intro w
        refine weigh_complete m.ok.ids hmem ?_ ?_ fun id' hne => ?_
        · rw [hid, completeAt_eq hf, hc]
        · rw [completeAt_insert, if_pos hid.symm]
        · rw [completeAt_insert, if_neg fun heq => hne (heq.symm.trans hid.symm)]
      refine ht.insert (g := { f with complete := true, activeStreamId := none }) hf rfl ?_
        rfl rfl ?_ ?_
      · exact ⟨hok.durable, hok.received, hok.sent, hok.unsent, fun _ => rfl, nofun⟩
      · show s.completedFiles + 1 = _
        rw [hadds, ht.count]
      · show s.completedSize + f.entry.size = _
        rw [hadds, ht.total]
  | restart =>
      have hget : ∀ id : FileId, (s.files.map fun _ (f : FileRuntime) => f.restart s.role)[id]? =
          (s.files[id]?).map (·.restart s.role) := fun _ => Std.TreeMap.getElem?_map
      refine ⟨fun e he => ?_, fun id f hf => ?_, ?_, ?_, ?_⟩
      · obtain ⟨f, hf, hentry, hok⟩ := ht.file e he
        obtain ⟨hok', hentry', _, _⟩ := restart_ok hok
        refine ⟨f.restart s.role, ?_, hentry'.trans hentry, hok'⟩
        rw [hget, hf]
        rfl
      · rw [hget] at hf
        obtain ⟨f₀, hf₀, _⟩ := Option.map_eq_some_iff.1 hf
        exact ht.only id f₀ hf₀
      · exact Std.TreeMap.size_map.trans ht.size
      · exact ht.count.trans (weigh_congr fun e _ => completeAt_restart e.fileId).symm
      · exact ht.total.trans (weigh_congr fun e _ => completeAt_restart e.fileId).symm

/-- A fresh set of files. -/
theorem tracks_install (hfiles : s.files = m.runtimes) (hcount : s.completedFiles = 0)
    (htotal : s.completedSize = 0) : Tracks m s := by
  have hnone : ∀ e ∈ m.entries, completeAt m.runtimes e.fileId = false := by
    intro e he
    rw [completeAt_eq (Manifest.runtimes_get.2 ⟨e, he, rfl, rfl⟩)]
    rfl
  have hzero : ∀ w : ManifestEntry → Nat, weigh m.runtimes w m.entries = 0 := by
    intro w
    unfold weigh
    rw [List.map_congr_left fun e he => by rw [hnone e he]]
    simp
  refine ⟨fun e he => ?_, fun id f hf => ?_, ?_, ?_, ?_⟩
  · refine ⟨_, hfiles ▸ Manifest.runtimes_get.2 ⟨e, he, rfl, rfl⟩, rfl, ?_⟩
    exact ⟨Nat.zero_le _, Nat.zero_le _, Nat.zero_le _, fun _ => rfl, fun _ => rfl, nofun⟩
  · rw [hfiles] at hf
    obtain ⟨e, he, hid, _⟩ := Manifest.runtimes_get.1 hf
    exact ⟨e, he, hid⟩
  · rw [hfiles, m.runtimes_size]
  · rw [hfiles, hzero, hcount]
  · rw [hfiles, hzero, htotal]

/-! ## The offerer -/

/-- An offerer of a manifest. -/
structure Offering (id : TransferId) (m : Manifest) (s : TransferSession) : Prop where
  role : s.role = .offerer
  transferId : s.transferId = id
  manifest : s.manifest = some m
  tracks : Tracks m s

/-- The state and the queues are not what makes an offerer. -/
theorem Offering.move {id : TransferId} (h : Offering id m s) (st : SessionState)
    (c : List OutboundMessage) : Offering id m { s with state := st, controls := c } :=
  ⟨h.role, h.transferId, h.manifest, h.tracks.congr rfl rfl rfl rfl⟩

theorem Edit.offering {id : TransferId} (h : Edit op t s s') (ho : Offering id m s) :
    Offering id m s' := by
  have hnot : s.role ≠ .accepter := by
    rw [ho.role]
    decide
  have ht := h.tracks ho.tracks fun hrole => absurd hrole hnot
  cases h with
  | install _ hrole => exact absurd hrole hnot
  | _ => exact ⟨ho.role, ho.transferId, ho.manifest, ht⟩

theorem Edits.offering {id : TransferId} (h : Edits op t s s') (ho : Offering id m s) :
    Offering id m s' := by
  induction h with
  | refl => exact ho
  | tail _ hstep ih => exact hstep.offering ih

theorem offering_run {id : TransferId} {config : SessionConfig}
    (hs : newOfferer id m config = .ok s) (ops : List Op) : Offering id m (final s ops) := by
  refine final_keeps ops ?_ fun _ op h => Edits.offering (perform_does op).after h
  obtain ⟨-, rfl⟩ := newOfferer_ok hs
  exact ⟨rfl, rfl, rfl, tracks_install rfl rfl rfl⟩

/-! ## The accepter -/

/-- An accepter. The manifest is assembled under the digest of the hello, which
is taken only once; until it is there no file is known; and the session is
completed only when all of them are. -/
structure Accepting (id : TransferId) (s : TransferSession) : Prop where
  role : s.role = .accepter
  transferId : s.transferId = id
  early : s.state = .new ∨ s.state = .awaitingHello → s.assembly = none ∧ s.manifest = none
  receiving : s.state = .receivingManifest → s.manifest = none
  assembling : ∀ a, s.assembly = some a →
    s.remoteManifestDigest = some a.digest ∧ s.manifest = none
  blank : s.manifest = none →
    (∀ id : FileId, s.files[id]? = none) ∧ s.completedFiles = 0 ∧ s.completedSize = 0
  tracks : ∀ m, s.manifest = some m → Tracks m s ∧ s.remoteManifestDigest = some m.digest
  done : s.state = .completed → s.completedFiles = s.files.size

/-- An edit that leaves the manifest and what leads to it alone. -/
theorem Accepting.keep {id : TransferId} (h : Accepting id s)
    (htracks : ∀ m, Tracks m s → (s.role = .accepter → s.assembly = none) → Tracks m s')
    (hrole : s'.role = s.role) (hid : s'.transferId = s.transferId)
    (hstate : s'.state = s.state ∨ s'.state.loose = true)
    (hmanifest : s'.manifest = s.manifest)
    (hremote : s'.remoteManifestDigest = s.remoteManifestDigest)
    (hassembly : s'.assembly = s.assembly)
    (hblank : s.manifest = none →
      (∀ id : FileId, s'.files[id]? = none) ∧ s'.completedFiles = 0 ∧ s'.completedSize = 0)
    (hdone : s.state = .completed → s'.completedFiles = s'.files.size) : Accepting id s' := by
  have hsame : ∀ st : SessionState, st.loose = false → s'.state = st → s.state = st := by
    intro st hst heq
    rcases hstate with hs | hs
    · exact hs ▸ heq
    · rw [heq, hst] at hs
      cases hs
  refine ⟨hrole.trans h.role, hid.trans h.transferId, fun hst => ?_, fun hst => ?_,
    fun a ha => ?_, fun hm => ?_, fun m hm => ?_, fun hst => ?_⟩
  · rw [hassembly, hmanifest]
    exact h.early (hst.imp (hsame _ rfl) (hsame _ rfl))
  · rw [hmanifest]
    exact h.receiving (hsame _ rfl hst)
  · rw [hremote, hmanifest]
    exact h.assembling a (hassembly ▸ ha)
  · exact hblank (hmanifest ▸ hm)
  · obtain ⟨ht, hd⟩ := h.tracks m (hmanifest ▸ hm)
    refine ⟨htracks m ht fun _ => ?_, hremote.trans hd⟩
    cases ha : s.assembly with
    | none => rfl
    | some a =>
        have := (h.assembling a ha).2
        rw [hmanifest.symm.trans hm] at this
        cases this
  · exact hdone (hsame _ rfl hst)

/-- The queues are not what makes an accepter. -/
theorem Accepting.queues {id : TransferId} (h : Accepting id s) (c : List OutboundMessage)
    (d : List DataChunk) : Accepting id { s with controls := c, data := d } :=
  h.keep (fun _ ht _ => ht.congr rfl rfl rfl rfl) rfl rfl (.inl rfl) rfl rfl rfl h.blank h.done

theorem Accepting.known {id : TransferId} (h : Accepting id s) {fileId : FileId}
    {f : FileRuntime} (hf : s.files[fileId]? = some f) : ∃ m, s.manifest = some m ∧ Tracks m s := by
  cases hm : s.manifest with
  | none =>
      rw [(h.blank hm).1 fileId] at hf
      cases hf
  | some m => exact ⟨m, rfl, (h.tracks m hm).1⟩

/-- A completed accepter has no file left to complete. -/
theorem Accepting.all_complete {id : TransferId} (h : Accepting id s) (hst : s.state = .completed)
    (hm : s.manifest = some m) : ∀ e ∈ m.entries, completeAt s.files e.fileId = true :=
  (h.tracks m hm).1.all_iff.1 (h.done hst)

theorem Accepting.retrack {id : TransferId} (h : Accepting id s) (hrole : s'.role = s.role)
    (hmanifest : s'.manifest = s.manifest)
    (hremote : s'.remoteManifestDigest = s.remoteManifestDigest) (hfiles : s'.files = s.files)
    (hcount : s'.completedFiles = s.completedFiles)
    (htotal : s'.completedSize = s.completedSize) :
    ∀ m, s'.manifest = some m → Tracks m s' ∧ s'.remoteManifestDigest = some m.digest := by
  intro m hm
  obtain ⟨ht, hd⟩ := h.tracks m (hmanifest ▸ hm)
  exact ⟨ht.congr hrole hfiles hcount htotal, hremote.trans hd⟩

theorem Edit.accepting {id : TransferId} (h : Edit op t s s') (ha : Accepting id s) :
    Accepting id s' := by
  have htracks : ∀ m, Tracks m s → (s.role = .accepter → s.assembly = none) → Tracks m s' :=
    fun _ => h.tracks
  cases h with
  | controls | data | path | activity | streamId | pending | decision =>
      exact ha.keep htracks rfl rfl (.inl rfl) rfl rfl rfl ha.blank ha.done
  | state st hloose => exact ha.keep htracks rfl rfl (.inr hloose) rfl rfl rfl ha.blank ha.done
  | turn _ hrole => exact absurd (ha.role.symm.trans hrole) nofun
  | start _ hst =>
      obtain ⟨hassembly, hmanifest⟩ := ha.early (.inl hst)
      exact ⟨ha.role, ha.transferId, fun _ => ⟨hassembly, hmanifest⟩, nofun, ha.assembling,
        ha.blank, ha.retrack rfl rfl rfl rfl rfl rfl, nofun⟩
  | hello d _ hst =>
      obtain ⟨hassembly, hmanifest⟩ := ha.early (.inr hst)
      refine ⟨ha.role, ha.transferId, nofun, fun _ => hmanifest, fun a hsome => ?_, ha.blank,
        fun m hsome => ?_, nofun⟩
      · exact absurd (hassembly.symm.trans hsome) nofun
      · exact absurd (hmanifest.symm.trans hsome) nofun
  | assemble a _ hst hd _ =>
      have hmanifest := ha.receiving hst
      refine ⟨ha.role, ha.transferId, fun h => ?_, fun _ => hmanifest, fun a' hsome => ?_,
        ha.blank, ha.retrack rfl rfl rfl rfl rfl rfl, ha.done⟩
      · rw [show s.state = _ from hst] at h
        simp at h
      · cases hsome
        exact ⟨hd, hmanifest⟩
  | extend a _ _ hsome =>
      obtain ⟨hremote, hmanifest⟩ := ha.assembling a hsome
      refine ⟨ha.role, ha.transferId, fun h => ?_, ha.receiving, fun a'' hsome' => ?_, ha.blank,
        ha.retrack rfl rfl rfl rfl rfl rfl, ha.done⟩
      · exact absurd (hsome.symm.trans (ha.early h).1) nofun
      · cases hsome'
        exact ⟨hremote, hmanifest⟩
  | discard =>
      exact ⟨ha.role, ha.transferId, fun h => ⟨rfl, (ha.early h).2⟩, ha.receiving, nofun,
        ha.blank, ha.retrack rfl rfl rfl rfl rfl rfl, ha.done⟩
  | install a _ hsome hm' =>
      obtain ⟨hremote, hmanifest⟩ := ha.assembling a hsome
      obtain ⟨_, hcount, htotal⟩ := ha.blank hmanifest
      refine ⟨ha.role, ha.transferId, fun h => ?_, nofun, nofun, nofun, fun m hm => ?_, nofun⟩
      · rcases h with h | h <;> cases h
      · cases hm
        exact ⟨tracks_install rfl hcount htotal,
          hremote.trans (by rw [(ManifestAssembly.finish_digest hm').1])⟩
  | acceptEmpty _ hst hempty =>
      refine ⟨ha.role, ha.transferId, fun h => ?_, nofun, ha.assembling, ha.blank,
        ha.retrack rfl rfl rfl rfl rfl rfl,
        fun _ => ?_⟩
      · rcases h with h | h <;> cases h
      · show s.completedFiles = s.files.size
        have hsize : s.files.size = 0 := by
          rw [Std.TreeMap.isEmpty_eq_size_eq_zero] at hempty
          simpa using hempty
        cases hm : s.manifest with
        | none => rw [hsize, (ha.blank hm).2.1]
        | some m =>
            have ht := (ha.tracks m hm).1
            have hle := weigh_one_le s.files m.entries
            rw [← ht.count, ← ht.size] at hle
            omega
  | @write fileId f g _ _ _ hf =>
      refine ha.keep htracks rfl rfl (.inl rfl) rfl rfl rfl (fun hm => ?_) fun hst => ?_
      · rw [(ha.blank hm).1 fileId] at hf
        cases hf
      · show s.completedFiles = (s.files.insert fileId g).size
        rw [Std.TreeMap.size_insert, if_pos, ha.done hst]
        exact Std.TreeMap.mem_iff_isSome_getElem?.2 (by rw [hf]; rfl)
  | complete fileId f hf hc =>
      refine ha.keep htracks rfl rfl (.inl rfl) rfl rfl rfl (fun hm => ?_) fun hst => ?_
      · rw [(ha.blank hm).1 fileId] at hf
        cases hf
      · obtain ⟨m, hm, ht⟩ := ha.known hf
        obtain ⟨hmem, hid, _⟩ := ht.get hf
        have := ha.all_complete hst hm _ hmem
        rw [hid, completeAt_eq hf, hc] at this
        cases this
  | finish _ _ _ _ hall =>
      refine ⟨ha.role, ha.transferId, fun h => ?_, nofun, ha.assembling, ha.blank,
        ha.retrack rfl rfl rfl rfl rfl rfl,
        fun _ => hall⟩
      rcases h with h | h <;> cases h
  | restart =>
      refine ha.keep htracks rfl rfl (.inl rfl) rfl rfl rfl (fun hm => ?_) fun hst => ?_
      · obtain ⟨hnone, hcounts⟩ := ha.blank hm
        refine ⟨fun fileId => ?_, hcounts⟩
        show (s.files.map fun _ (f : FileRuntime) => f.restart s.role)[fileId]? = none
        rw [Std.TreeMap.getElem?_map, hnone fileId]
        rfl
      · exact (ha.done hst).trans Std.TreeMap.size_map.symm

theorem Edits.accepting {id : TransferId} (h : Edits op t s s') (ha : Accepting id s) :
    Accepting id s' := by
  induction h with
  | refl => exact ha
  | tail _ hstep ih => exact hstep.accepting ih

theorem accepting_run {id : TransferId} {config : SessionConfig}
    (hs : newAccepter id config = .ok s) (ops : List Op) : Accepting id (final s ops) := by
  refine final_keeps ops ?_ fun _ op h => Edits.accepting (perform_does op).after h
  obtain ⟨-, rfl⟩ := newAccepter_ok hs
  exact ⟨rfl, rfl, fun _ => ⟨rfl, rfl⟩, fun _ => rfl, nofun,
    fun _ => ⟨fun _ => Std.TreeMap.getElem?_emptyc, rfl, rfl⟩, nofun, nofun⟩

end DartUdp.Session
