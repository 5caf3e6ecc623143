import DartUdp.Proofs.StorageIntegrity

/-!
# A crash while a file is completed

Completing a file takes several writes, and a crash can come between any two of
them. What it leaves is one of four stages: nothing was installed; the file has
both names; it is at its destination only; the record says so. Recovery sees
the record and the partial file, and not the destination.

So a call that is repeated after reopening finishes the work of the first one
from the first stage and from the last. In between, the partial file is gone
and recovery takes the content for lost; only where that makes no difference
does the second call go through.

The module is for `finishes_iff_resumable`. `left_of_crash` finds the stage,
`pending_of_open` and `completed_of_open` are what opening makes of it, and
`pending_iff`, `linked_iff`, `moved_iff` and `recorded_iff` say when the second call
goes through.
-/

namespace DartUdp.Storage

open DartUdp.Lib DartUdp.Transfer

variable {d d' : Disk} {p q dst : Path} {H : Host} {policy : OverwritePolicy} {pid : Nat}
  {t : TransferId} {f : FileId} {r : StateRecord} {fs crash : Fs} {bytes : Bytes}

/-! ## Temporary names are no records -/

theorem extension_append {x y : Bytes} (hx : x ≠ []) (hy : (46 : UInt8) ∉ y) :
    extension (x ++ 46 :: y) = some y := by
  have hpos := List.length_pos_iff.2 hx
  have hidx : (x ++ 46 :: y).reverse.idxOf? 46 = some y.length := by
    rw [List.reverse_append, List.reverse_cons, List.append_assoc, List.idxOf?,
      List.findIdx?_append]
    have hnone : y.reverse.findIdx? (fun b => b == 46) = none := by
      rw [List.findIdx?_eq_none_iff]
      intro b hb
      simp only [beq_eq_false_iff_ne]
      rintro rfl
      exact hy (by simpa using hb)
    simp [hnone, List.findIdx?_cons]
  have hlen : (x ++ 46 :: y).length = x.length + y.length + 1 := by simp; omega
  simp only [extension, hidx]
  rw [if_neg (by omega), hlen, List.drop_append, List.drop_eq_nil_of_le (by omega),
    show x.length + y.length + 1 - y.length - x.length = 1 by omega]
  rfl

theorem tempPath_not_state {parent : Path} {counter : Nat} :
    ¬ IsState (tempPath parent pid counter) := by
  intro h
  have hname : (tempPath parent pid counter).getLast? =
      some ((ascii ".state.tmp." ++ ascii (toString pid)) ++ 46 :: ascii (toString counter)) := by
    simp [tempPath, ascii]
  have hdot : (46 : UInt8) ∉ ascii (toString counter) := fun hx =>
    absurd (mem_ascii_toString hx).1 (by decide)
  have hfront : ascii ".state.tmp." ++ ascii (toString pid) ≠ [] := by
    have hne : ascii ".state.tmp." ≠ [] := by decide
    simp [hne]
  rw [IsState, hname, Option.bind_some, extension_append hfront hdot] at h
  have hs : (115 : UInt8) ∈ ascii (toString counter) := by
    rw [Option.some.inj h]
    decide
  exact absurd (mem_ascii_toString hs).2 (by decide)

theorem partialPath_ne_tempPath {counter : Nat} :
    partialPath t f ≠ tempPath (sessionDirectory t) pid counter := by
  intro h
  have hsecond := congrArg (fun p : Path => p[1]?) h
  have hp : (partialPath t f)[1]? = some (ascii "partial") := rfl
  have hs : (tempPath (sessionDirectory t) pid counter)[1]? = some (ascii "sessions") := rfl
  simp only [hs, hp] at hsecond
  revert hsecond
  decide

/-! ## What a crash leaves -/

/-- How far the interrupted call had come. -/
inductive Stage where
  | pending
  | linked
  | moved
  | recorded
deriving DecidableEq, Repr

/-- The disk `crash` that a call left which was interrupted at `stage`, having
started on `fs` with the partial content `bytes` and the destination `dst`. -/
structure Left (policy : OverwritePolicy) (t : TransferId) (f : FileId) (r : StateRecord)
    (dst temp : Path) (bytes : Bytes) (stage : Stage) (fs crash : Fs) : Prop where
  outer : ∀ q, Outside q → q ≠ dst → Kept (splitSlash r.registration.relativePath) fs crash q
  inner : ∀ q, ¬ Outside q → q ≠ partialPath t f → q ≠ statePath t f → q ≠ temp →
    crash.get? q = fs.get? q
  dst_get : crash.get? dst = if stage = .pending then fs.get? dst else some (.file bytes)
  partial_get : crash.get? (partialPath t f) =
    if stage = .pending ∨ stage = .linked then some (.file bytes) else none
  state_get : crash.get? (statePath t f) =
    if stage = .recorded then some (.file (encodeState (r.completed (joinSlash dst))))
    else fs.get? (statePath t f)
  link : stage = .linked → policy = .noReplace

section Stages

variable {temp : Path} (hout : Outside dst)
  (ha : ¬ Above storageDirectory (splitSlash r.registration.relativePath))
  (hcand : Candidate (splitSlash r.registration.relativePath) dst)
  (htemp : ¬ Outside temp)
  (hpart : fs.get? (partialPath t f) = some (.file bytes))

include ha in
theorem Grown.inside {base : Fs} (h : Grown (splitSlash r.registration.relativePath) fs base)
    (hq : ¬ Outside q) : base.get? q = fs.get? q :=
  h.get fun hx => hq (hx.outside ha)

include ha hcand hpart in
theorem left_pending (h : Grown (splitSlash r.registration.relativePath) fs crash) :
    Left policy t f r dst temp bytes .pending fs crash where
  outer := fun q _ _ => h q
  inner := fun q hq _ _ _ => h.inside ha hq
  dst_get := by
    rw [if_pos rfl]
    exact h.get (hcand.not_above (splitSlash_ne_nil _))
  partial_get := by
    rw [if_pos (.inl rfl), h.inside ha fun hx => hx.ne_partialPath rfl]
    exact hpart
  state_get := by
    rw [if_neg (by simp), h.inside ha fun hx => hx.ne_statePath rfl]
  link := by simp

include hout ha hpart in
theorem left_linked {base : Fs} (h : Grown (splitSlash r.registration.relativePath) fs base)
    (hpolicy : policy = .noReplace)
    (hget : ∀ q, crash.get? q = if q = dst then some (.file bytes) else base.get? q) :
    Left policy t f r dst temp bytes .linked fs crash where
  outer := fun q _ hq => by
    have hsame : crash.get? q = base.get? q := by rw [hget, if_neg hq]
    exact (h q).trans (.inl hsame)
  inner := fun q hq _ _ _ => by
    rw [hget, if_neg fun hx : q = dst => hq (hx ▸ hout)]
    exact h.inside ha hq
  dst_get := by rw [hget, if_pos rfl, if_neg (by simp)]
  partial_get := by
    rw [hget, if_neg hout.ne_partialPath.symm, if_pos (.inr rfl),
      h.inside ha fun hx => hx.ne_partialPath rfl]
    exact hpart
  state_get := by
    rw [hget, if_neg hout.ne_statePath.symm, if_neg (by simp),
      h.inside ha fun hx => hx.ne_statePath rfl]
  link := fun _ => hpolicy

include hout ha htemp in
theorem left_moved {base : Fs} (h : Grown (splitSlash r.registration.relativePath) fs base)
    (hget : ∀ q, q ≠ temp → crash.get? q =
      if q = dst then some (.file bytes) else if q = partialPath t f then none else base.get? q)
    (hpt : partialPath t f ≠ temp) (hst : statePath t f ≠ temp) :
    Left policy t f r dst temp bytes .moved fs crash where
  outer := fun q hq hne => by
    have hsame : crash.get? q = base.get? q := by
      rw [hget q fun hx => htemp (hx ▸ hq), if_neg hne, if_neg hq.ne_partialPath]
    exact (h q).trans (.inl hsame)
  inner := fun q hq hpq _ htq => by
    rw [hget q htq, if_neg fun hx : q = dst => hq (hx ▸ hout), if_neg hpq]
    exact h.inside ha hq
  dst_get := by rw [hget dst fun hx => htemp (hx ▸ hout), if_pos rfl, if_neg (by simp)]
  partial_get := by
    rw [hget _ hpt, if_neg hout.ne_partialPath.symm, if_pos rfl, if_neg (by simp)]
  state_get := by
    rw [hget _ hst, if_neg hout.ne_statePath.symm, if_neg statePath_ne_partialPath,
      if_neg (by simp), h.inside ha fun hx => hx.ne_statePath rfl]
  link := by simp

end Stages

/-- The new record in its place. -/
theorem Left.record {temp : Path} {crash' : Fs} (hout : Outside dst)
    (h : Left policy t f r dst temp bytes .moved fs crash)
    (hget : ∀ q, crash'.get? q =
      if q = statePath t f then some (.file (encodeState (r.completed (joinSlash dst))))
      else crash.get? q) : Left policy t f r dst temp bytes .recorded fs crash' where
  outer := fun q hq hne => by
    have hsame : crash'.get? q = crash.get? q := by rw [hget, if_neg hq.ne_statePath]
    exact (h.outer q hq hne).trans (.inl hsame)
  inner := fun q hq hpq hsq htq => by
    rw [hget, if_neg hsq]
    exact h.inner q hq hpq hsq htq
  dst_get := by
    rw [hget, if_neg hout.ne_statePath, h.dst_get]
    rfl
  partial_get := by
    rw [hget, if_neg statePath_ne_partialPath.symm, h.partial_get]
    rfl
  state_get := by rw [hget, if_pos rfl, if_pos rfl]
  link := by simp

/-- Every disk on the way of a call that moved the partial file and wrote the
record is at one of the stages. -/
theorem left_of_crash {d₁ : Disk} {n : Node}
    (hstate : d.fs.get? (statePath t f) = some n)
    (ha : ¬ Above storageDirectory (splitSlash r.registration.relativePath))
    (hpart : d.fs.get? (partialPath t f) = some (.file bytes))
    (hat : InstalledAt H policy (partialPath t f) (splitSlash r.registration.relativePath) dst
      r.registration d d₁)
    (hwrite : writeState pid (statePath t f) (r.completed (joinSlash dst)) d₁ = .ok () d')
    (htrail : d.trail = []) (hcrash : crash ∈ d.fs :: d'.trail) :
    ∃ stage, Left policy t f r dst (tempPath (sessionDirectory t) pid d.tempCounter) bytes stage
      d.fs crash := by
  obtain ⟨hout, hstate₁⟩ := hat.outside hstate ha
  have hcand := (chosen_spec hat.chosen).1
  have hreplaced := writeState_step hstate₁ (statePath_ne_nil t f) hwrite
  rw [sessionDirectory_dropLast, hat.counter] at hreplaced
  obtain ⟨d₂, hens, -, -, n', hn', hget, htrail₁⟩ := hat.between
  have hn : n' = .file bytes := by
    have hsame := hens.grown.inside ha (q := partialPath t f) fun hx => hx.ne_partialPath rfl
    rw [hn', hpart] at hsame
    exact Option.some.inj hsame
  subst hn
  generalize htemp : tempPath (sessionDirectory t) pid d.tempCounter = temp at hreplaced ⊢
  have hnot : ¬ Outside temp := htemp ▸ tempPath_not_outside
  have hpt : partialPath t f ≠ temp := htemp ▸ partialPath_ne_tempPath
  have hst : statePath t f ≠ temp := by
    rintro rfl
    exact tempPath_not_state (htemp ▸ isState_statePath t f)
  have hmoved : Left policy t f r dst temp bytes .moved d.fs d₁.fs :=
    left_moved hout ha hnot hens.grown (fun q _ => hget q) hpt hst
  obtain ⟨fss, hfss, hbefore⟩ := hens.trail
  obtain ⟨fss₁, hfss₁, hmoving⟩ := htrail₁
  obtain ⟨fsTemp, hlast, htempGet⟩ := hreplaced.trail
  rw [hlast, hfss₁, hfss, htrail, List.nil_append] at hcrash
  simp only [List.mem_cons, List.mem_append, List.not_mem_nil, or_false] at hcrash
  rcases hcrash with rfl | (hx | hx) | rfl | rfl
  · exact ⟨.pending, left_pending ha hcand hpart (Grown.refl _ _)⟩
  · exact ⟨.pending, left_pending ha hcand hpart (hbefore _ hx)⟩
  · rcases hmoving _ hx with rfl | ⟨hpolicy, hlinked⟩
    · exact ⟨.moved, hmoved⟩
    · exact ⟨.linked, left_linked hout ha hpart hens.grown hpolicy hlinked⟩
  · refine ⟨.moved, left_moved hout ha hnot hens.grown (fun q hq => ?_) hpt hst⟩
    rw [htempGet, if_neg hq, hget]
  · exact ⟨.recorded, hmoved.record hout hreplaced.sets⟩

/-! ## Reopening -/

/-- The other records are as they were, so the record of the file is still the
only one of its name. -/
theorem Left.persisted {counter : Nat} {stage : Stage} {r' : StateRecord}
    (h : Left policy t f r dst (tempPath (sessionDirectory t) pid counter) bytes stage fs crash)
    (hp : Persisted fs t f r) (hr' : recordOf (crash.get? (statePath t f)) = some r')
    (hreg : r'.registration = r.registration) : Persisted crash t f r' where
  record := hr'
  transfer_eq := by rw [hreg]; exact hp.transfer_eq
  file_eq := by rw [hreg]; exact hp.file_eq
  unique := by
    intro p r'' hs hst hrec ht hf
    by_contra hne
    have hpart : p ≠ partialPath t f := by
      have := sessions_ne_partials (r := r) hs
      rwa [StateRecord.partialPath, hp.transfer_eq, hp.file_eq] at this
    have htemp : p ≠ tempPath (sessionDirectory t) pid counter := by
      rintro rfl
      exact tempPath_not_state hst
    rw [h.inner p (storage_of_sessions hs) hpart hne htemp] at hrec
    exact hne (hp.unique p r'' hs hst hrec ht hf)

/-- The record of a file in progress after reopening. -/
structure Pending (t : TransferId) (f : FileId) (r r' : StateRecord) (d : Disk) : Prop where
  record : recordOf (d.fs.get? (statePath t f)) = some r'
  registration : r'.registration = r.registration
  pending : r'.complete = false

/-- Recovery keeps the registration of a record, and that it is in progress. -/
theorem pending_of_open (hp : Persisted crash t f r) (hr : r.complete = false)
    (hopen : openStorage H pid (.boot crash) = .ok () d) :
    ∃ r', Pending t f r r' d ∧
      (∀ content, crash.get? (partialPath t f) = some (.file content) →
        r.durableOffset ≤ r.registration.size → r'.durableOffset = r.durableOffset ∧
          d.fs.get? (partialPath t f) = some (.file (setLen content r.durableOffset))) ∧
      (crash.get? (partialPath t f) = none →
        r'.durableOffset = 0 ∧ d.fs.get? (partialPath t f) = none) := by
  obtain ⟨d₀, d₁, r', hrun, -, h0, h1, hsp⟩ := openStorage_recovers (d := .boot crash) hp hopen
  have hrec := recoverRecord_inv hr hrun
  have hpp : r.partialPath = partialPath t f := by
    simp [StateRecord.partialPath, hp.transfer_eq, hp.file_eq]
  rw [hpp] at h0 h1
  have hsame : r'.registration = r.registration ∧ r'.complete = false ∧ r'.Valid := by
    have hv := recordOf_valid hp.record
    rcases hrec.record with rfl | rfl
    · exact ⟨rfl, hr, hv⟩
    · exact ⟨rfl, hr, hv.reset⟩
  obtain ⟨hreg, hpending, hvalid⟩ := hsame
  have hread : recordOf (d.fs.get? (statePath t f)) = some r' := by
    rw [hsp]
    exact recordOf_encodeState hvalid
  refine ⟨r', ⟨hread, hreg, hpending⟩, fun content hc hle => ?_, fun hc => ?_⟩
  · obtain ⟨hafter, hoff⟩ := hrec.found content (by rw [hpp, h0]; exact hc)
    rw [if_neg (Nat.not_lt.2 hle)] at hoff
    rw [hpp] at hafter
    exact ⟨hoff, by rw [h1, hafter, hoff]⟩
  · obtain ⟨hafter, hzero⟩ := hrec.missing (by rw [hpp, h0]; exact hc)
    rw [hpp] at hafter
    exact ⟨hzero, by rw [h1, hafter]⟩

/-- The record of a completed file whose content is in place is kept. -/
theorem recoverRecord_complete {r' : StateRecord} (hr : r.complete = true)
    (hout : Outside (splitSlash (r.installedRelativePath.getD r.registration.relativePath)))
    (hv : Verified H r.registration
      (d.fs.get? (splitSlash (r.installedRelativePath.getD r.registration.relativePath))))
    (h : recoverRecord H r d = .ok r' d') :
    r' = r ∧ H.opens r.registration.metadata = true := by
  simp only [recoverRecord] at h
  cases hpath : validateStoragePath r.registration.relativePath with
  | error e => rw [hpath] at h; cases h
  | ok u =>
      rw [hpath] at h
      simp only [hr, if_true, recoverComplete] at h
      obtain ⟨⟨⟩, d₁, hrem, h₁⟩ := bind_inv h
      have hsets := removeFileIfExists_inv hrem
      obtain ⟨path, d₂, hdest, h₂⟩ := bind_inv h₁
      obtain ⟨rfl, rfl, -⟩ := destinationPath_inv hdest
      obtain ⟨b, d₃, hmatch, h₃⟩ := bind_inv h₂
      obtain ⟨rfl, hb, hopens⟩ := destinationMatches_inv hmatch
      have hyes : b = true := by
        rw [hb, hsets.other hout.ne_partialPath]
        exact hv
      rw [if_pos hyes] at h₃
      exact ⟨(EStateM.Result.ok.inj h₃).1.symm, hopens hyes⟩

theorem completed_of_open (hp : Persisted crash t f r) (hr : r.complete = true)
    (hout : Outside (splitSlash (r.installedRelativePath.getD r.registration.relativePath)))
    (hv : Verified H r.registration
      (crash.get? (splitSlash (r.installedRelativePath.getD r.registration.relativePath))))
    (hopen : openStorage H pid (.boot crash) = .ok () d) :
    recordOf (d.fs.get? (statePath t f)) = some r ∧ H.opens r.registration.metadata = true := by
  obtain ⟨d₀, d₁, r', hrun, ho, h0, h1, hsp⟩ := openStorage_recovers (d := .boot crash) hp hopen
  obtain ⟨hr', hopens⟩ := recoverRecord_complete hr hout (by rw [ho _ hout]; exact hv) hrun
  rw [hsp, hr']
  exact ⟨recordOf_encodeState (recordOf_valid hp.record), hopens⟩

/-! ## The second call -/

/-- What a call did that installed a file in progress at `dst`. -/
structure Installs (H : Host) (policy : OverwritePolicy) (pid : Nat) (t : TransferId)
    (r : StateRecord) (dst : Path) (d d' : Disk) : Prop where
  outside : Outside dst
  chosen : chosen policy d.fs (splitSlash r.registration.relativePath) = some dst
  vacant : Vacant H policy d.fs dst
  verified : Verified H r.registration (d'.fs.get? dst)
  settles : H.Settles r.registration.metadata
  kept : ∀ q, Outside q → q ≠ dst →
    Kept (splitSlash r.registration.relativePath) d.fs d'.fs q
  free : d.fs.get? (tempPath (sessionDirectory t) pid d.tempCounter) = none

theorem installs_of_moved {d₀ d₁ : Disk} {n : Node} {record : StateRecord}
    (hstate : d.fs.get? (statePath t f) = some n)
    (ha : ¬ Above storageDirectory (splitSlash r.registration.relativePath))
    (hcounter : d₀.tempCounter = d.tempCounter)
    (hsource : ∀ q, q ≠ partialPath t f → d₀.fs.get? q = d.fs.get? q)
    (hat : InstalledAt H policy (partialPath t f) (splitSlash r.registration.relativePath) dst
      r.registration d₀ d₁)
    (hwrite : writeState pid (statePath t f) record d₁ = .ok () d') :
    Installs H policy pid t r dst d d' := by
  have hne := splitSlash_ne_nil r.registration.relativePath
  have hstate₀ : d₀.fs.get? (statePath t f) = some n := by
    rw [hsource _ statePath_ne_partialPath, hstate]
  obtain ⟨hout, hstate₁⟩ := hat.outside hstate₀ ha
  have hcand := (chosen_spec hat.chosen).1
  have hreplaced := writeState_step hstate₁ (statePath_ne_nil t f) hwrite
  have hstorage : partialPath t f ≠ storageDirectory := by
    simp [partialPath, partialDirectory, partialsDirectory, storageDirectory]
  obtain ⟨d₂, hens, hmoved⟩ := hat.between
  have hdst : d₂.fs.get? dst = d.fs.get? dst := by
    rw [hens.grown.get (hcand.not_above hne), hsource _ hout.ne_partialPath]
  refine ⟨hout, ?_, ?_, ?_, hat.settles, fun q hq hqd => ?_, ?_⟩
  · rw [← hat.chosen]
    refine (chosen_congr fun q hq => hsource q ?_).symm
    rintro rfl
    exact (hq.outside hne ha hstorage).ne_partialPath rfl
  · have hvacant := hmoved.vacant
    unfold Vacant Room at hvacant ⊢
    rwa [hdst] at hvacant
  · rw [hreplaced.sets.other hout.ne_statePath, hat.get.1]
    exact hat.verified
  · have h1 : d₀.fs.get? q = d.fs.get? q := hsource q hq.ne_partialPath
    have h2 : d'.fs.get? q = d₁.fs.get? q := hreplaced.sets.other hq.ne_statePath
    exact (Kept.trans (.inl h1) (hat.get.2 q hqd hq.ne_partialPath)).trans (.inl h2)
  · have hfree := hreplaced.free
    rw [sessionDirectory_dropLast, hat.counter, hcounter] at hfree
    rcases hat.get.2 (tempPath (sessionDirectory t) pid d.tempCounter)
      (fun hx => tempPath_not_outside (hx ▸ hout)) partialPath_ne_tempPath.symm with
      hx | ⟨_, hx, _⟩
    · rw [← hsource _ partialPath_ne_tempPath.symm, ← hx]
      exact hfree
    · rw [hfree] at hx
      cases hx

/-- A second call that ended well, on a record in progress. -/
theorem completeFile_installs {r' : StateRecord} {size : Nat} {hash : Digest}
    (hpending : Pending t f r r' d)
    (ha : ¬ Above storageDirectory (splitSlash r.registration.relativePath))
    (hpart : d.fs.get? (partialPath t f) ≠ none ∨ r.registration.size = 0)
    (h : completeFile H policy pid t f size hash d = .ok () d') :
    r'.durableOffset = r.registration.size ∧ ∃ dst, Installs H policy pid t r dst d d' := by
  obtain ⟨hrec, hreg, hprogress⟩ := hpending
  obtain ⟨n, hstate⟩ := recordOf_isSome hrec
  obtain ⟨-, -, ⟨hcomplete, _⟩ | ⟨_, hdurable, installed, d₁, hinstall, hwrite⟩⟩ :=
    completeFile_inv hrec h
  · rw [hprogress] at hcomplete
    cases hcomplete
  · rw [hreg] at hdurable hinstall
    refine ⟨hdurable, ?_⟩
    rcases install_inv hinstall with ⟨d₀, dst, -, hsource, hat⟩ | ⟨_, _, hnone, hsize, _⟩
    · rcases hsource with rfl | ⟨_, _, hsets, hcounter⟩
      · exact ⟨dst, installs_of_moved hstate ha rfl (fun _ _ => rfl) hat hwrite⟩
      · exact ⟨dst, installs_of_moved hstate ha hcounter (fun _ hq => hsets.other hq) hat hwrite⟩
    · rcases hpart with hx | hx
      · exact absurd hnone hx
      · exact absurd hx hsize

/-! ## Which crashes are survived -/

/-- Outside the storage directory there is one new file, with the registered
content, and nothing else has changed but for new directories. -/
def OneInstalled (H : Host) (registration : FileRegistration) (fs fs' : Fs) : Prop :=
  ∃ dst, Outside dst ∧ Verified H registration (fs'.get? dst) ∧
    ∀ q, Outside q → q ≠ dst →
      fs'.get? q = fs.get? q ∨ fs.get? q = none ∧ fs'.get? q = some .dir

/-- The call, repeated on the reopened disk `d`, ends well and leaves one
installed file, compared with the disk `fs` before the first call. -/
def Finishes (H : Host) (policy : OverwritePolicy) (pid : Nat) (t : TransferId) (f : FileId)
    (registration : FileRegistration) (fs : Fs) (d : Disk) : Prop :=
  ∃ d', completeFile H policy pid t f registration.size registration.contentHash d = .ok () d' ∧
    OneInstalled H registration fs d'.fs

/-- The crash left a record that says the file is complete; or it left the
partial file and no link to it; or the file is empty and may be installed over
itself. In the last two cases the record has to be written, so its temporary
name must be free on the reopened disk `d`. -/
def Resumable (policy : OverwritePolicy) (pid : Nat) (t : TransferId) (f : FileId)
    (registration : FileRegistration) (crash : Fs) (d : Disk) : Prop :=
  (∃ r, recordOf (crash.get? (statePath t f)) = some r ∧ r.complete = true) ∨
    d.fs.get? (tempPath (sessionDirectory t) pid d.tempCounter) = none ∧
      ((crash.get? (partialPath t f)).isSome ∧
          (policy = .noReplace → crash.get? (splitSlash registration.relativePath) = none) ∨
        policy = .replaceAfterConfirm ∧ registration.size = 0)

/-- A call was interrupted at `stage`, and the storage reopened as `d`. -/
structure Interrupted (H : Host) (policy : OverwritePolicy) (pid counter pid' : Nat)
    (t : TransferId) (f : FileId) (r : StateRecord) (dst : Path) (bytes : Bytes) (stage : Stage)
    (fs crash : Fs) (d : Disk) : Prop where
  persisted : Persisted fs t f r
  pending : r.complete = false
  durable : r.durableOffset = r.registration.size
  part : fs.get? (partialPath t f) = some (.file bytes)
  verified : Verified H r.registration (some (.file bytes))
  above : ¬ Above storageDirectory (splitSlash r.registration.relativePath)
  clear : Clear H (splitSlash r.registration.relativePath) fs
  chosen : chosen policy fs (splitSlash r.registration.relativePath) = some dst
  vacant : Vacant H policy fs dst
  outside : Outside dst
  settles : H.Settles r.registration.metadata
  left : Left policy t f r dst (tempPath (sessionDirectory t) pid counter) bytes stage fs crash
  opened : openStorage H pid' (.boot crash) = .ok () d

namespace Interrupted

variable {counter pid' : Nat} {stage : Stage}

theorem candidate (h : Interrupted H policy pid counter pid' t f r dst bytes stage fs crash d) :
    Candidate (splitSlash r.registration.relativePath) dst :=
  (chosen_spec h.chosen).1

theorem length_bytes
    (h : Interrupted H policy pid counter pid' t f r dst bytes stage fs crash d) :
    bytes.length = r.registration.size := by
  obtain ⟨content, hc, hsize, _⟩ := h.verified
  cases hc
  exact hsize

/-- What lies outside is as the crash left it. -/
theorem kept (h : Interrupted H policy pid counter pid' t f r dst bytes stage fs crash d)
    (hq : Outside q) (hne : q ≠ dst) :
    Kept (splitSlash r.registration.relativePath) fs d.fs q :=
  (h.left.outer q hq hne).trans (.inl (openStorage_outside h.opened hq))

theorem dst_get (h : Interrupted H policy pid counter pid' t f r dst bytes stage fs crash d) :
    d.fs.get? dst = if stage = .pending then fs.get? dst else some (.file bytes) := by
  rw [openStorage_outside h.opened h.outside]
  exact h.left.dst_get

/-- Before the record is replaced it is still in progress after reopening. -/
theorem record_pending
    (h : Interrupted H policy pid counter pid' t f r dst bytes stage fs crash d)
    (hstage : stage ≠ .recorded) : Persisted crash t f r := by
  have hstate := h.left.state_get
  rw [if_neg hstage] at hstate
  exact h.left.persisted h.persisted (by rw [hstate]; exact h.persisted.record) rfl

theorem not_complete
    (h : Interrupted H policy pid counter pid' t f r dst bytes stage fs crash d)
    (hstage : stage ≠ .recorded) :
    ¬ ∃ r', recordOf (crash.get? (statePath t f)) = some r' ∧ r'.complete = true := by
  rintro ⟨r', hr', hcomplete⟩
  rw [(h.record_pending hstage).record] at hr'
  obtain rfl := Option.some.inj hr'
  rw [h.pending] at hcomplete
  cases hcomplete

/-- Installing at the same destination again leaves one new file. -/
theorem oneInstalled
    (h : Interrupted H policy pid counter pid' t f r dst bytes stage fs crash d)
    (hinst : Installs H policy pid' t r dst d d') : OneInstalled H r.registration fs d'.fs := by
  refine ⟨dst, h.outside, hinst.verified, fun q hq hne => ?_⟩
  rcases (h.kept hq hne).trans (hinst.kept q hq hne) with hx | ⟨hx, hy, _⟩
  · exact .inl hx
  · exact .inr ⟨hx, hy⟩

/-- Where nothing was installed, the choice is the same. -/
theorem chosen_again
    (h : Interrupted H policy pid counter pid' t f r dst bytes .pending fs crash d) :
    Storage.chosen policy d.fs (splitSlash r.registration.relativePath) = some dst := by
  have hne := splitSlash_ne_nil r.registration.relativePath
  obtain ⟨n, hstate⟩ := recordOf_isSome h.persisted.record
  rw [← h.chosen]
  refine chosen_congr fun q hq => ?_
  by_cases hstorage : q = storageDirectory
  · -- The storage directory itself may be a candidate that is taken.
    obtain ⟨r', hp, _⟩ := pending_of_open (h.record_pending (by simp)) h.pending h.opened
    obtain ⟨n'', hstate''⟩ := recordOf_isSome hp.record
    rw [hstorage, (record_dirs hstate'').2, (record_dirs hstate).2]
  · have hout := hq.outside hne h.above hstorage
    by_cases hdst : q = dst
    · rw [hdst, h.dst_get, if_pos rfl]
    · exact (h.kept hout hdst).get (hq.not_above hne)

/-- The reopened storage is ready for a second call. -/
theorem ready (h : Interrupted H policy pid counter pid' t f r dst bytes stage fs crash d)
    {r' : StateRecord} {d₀ : Disk} (hp : Pending t f r r' d)
    (hdurable : r'.durableOffset = r.registration.size)
    (hother : ∀ q, q ≠ partialPath t f → d₀.fs.get? q = d.fs.get? q)
    (hcounter : d₀.tempCounter = d.tempCounter)
    (hpart : d₀.fs.get? (partialPath t f) = some (.file bytes))
    (hchosen : Storage.chosen policy d.fs (splitSlash r.registration.relativePath) = some dst)
    (hvacant : Vacant H policy d.fs dst)
    (hfree : d.fs.get? (tempPath (sessionDirectory t) pid' d.tempCounter) = none) :
    Ready H policy pid' t f r' dst d₀ := by
  obtain ⟨hrec, hreg, hpending⟩ := hp
  have hne := splitSlash_ne_nil r.registration.relativePath
  constructor
  case record => rw [hother _ statePath_ne_partialPath, hrec]
  case pending => exact hpending
  case durable => rw [hreg, hdurable]
  case verified => rw [hreg, hpart]; exact h.verified
  case clear =>
    rw [hreg]
    intro q hq
    have hout := hq.outside h.above
    rw [hother q hout.ne_partialPath]
    by_cases hdst : q = dst
    · exact absurd (hdst ▸ hq) (h.candidate.not_above hne)
    · rcases h.kept hout hdst with hx | ⟨_, hx, _⟩
      · rw [hx]
        exact h.clear q hq
      · exact .inl hx
  case chosen =>
    rw [hreg, ← hchosen]
    have hstorage : partialPath t f ≠ storageDirectory := by
      simp [partialPath, partialDirectory, partialsDirectory, storageDirectory]
    refine chosen_congr fun q hq => hother q ?_
    rintro rfl
    exact (hq.outside hne h.above hstorage).ne_partialPath rfl
  case vacant =>
    unfold Vacant Room at hvacant ⊢
    rwa [hother dst h.outside.ne_partialPath]
  case settles => rw [hreg]; exact h.settles
  case free => rw [hother _ partialPath_ne_tempPath.symm, hcounter, hfree]

/-- Nothing was installed: the second call does what the first would have done. -/
theorem pending_iff
    (h : Interrupted H policy pid counter pid' t f r dst bytes .pending fs crash d) :
    Finishes H policy pid' t f r.registration fs d ↔
      Resumable policy pid' t f r.registration crash d := by
  have hcrash := h.left.partial_get
  rw [if_pos (.inl rfl)] at hcrash
  obtain ⟨r', hp, hfound, -⟩ := pending_of_open (h.record_pending (by simp)) h.pending h.opened
  obtain ⟨hoffset, hpart⟩ := hfound bytes hcrash (by rw [h.durable])
  rw [h.durable, ← h.length_bytes, setLen_length] at hpart
  have hinstalls : ∀ {d'}, completeFile H policy pid' t f r.registration.size
      r.registration.contentHash d = .ok () d' → Installs H policy pid' t r dst d d' := by
    intro d' hrun
    obtain ⟨-, dst', hinst⟩ := completeFile_installs hp h.above (.inl (by simp [hpart])) hrun
    have hsame : dst' = dst := Option.some.inj (hinst.chosen.symm.trans h.chosen_again)
    exact hsame ▸ hinst
  constructor
  · rintro ⟨d', hrun, -⟩
    refine .inr ⟨(hinstalls hrun).free, .inl ⟨by rw [hcrash]; rfl, fun hpolicy => ?_⟩⟩
    have hdst := (chosen_spec h.chosen).2.2 (by simp [hpolicy])
    have hget := h.left.dst_get
    rw [if_pos rfl, h.vacant.2.1 (.inr hpolicy), hdst] at hget
    exact hget
  · rintro (hx | ⟨hfree, -⟩)
    · exact absurd hx (h.not_complete (by simp))
    · have hvacant : Vacant H policy d.fs dst := by
        have hget := h.dst_get
        rw [if_pos rfl] at hget
        have hv := h.vacant
        unfold Vacant Room at hv ⊢
        rwa [hget]
      have hready := h.ready hp (hoffset.trans h.durable) (fun _ _ => rfl) rfl hpart
        h.chosen_again hvacant hfree
      obtain ⟨d', hrun⟩ := completeFile_ok hready (by rw [hp.registration]; exact h.above)
      rw [hp.registration] at hrun
      exact ⟨d', hrun, h.oneInstalled (hinstalls hrun)⟩

/-- Both names are there: the destination is in the way of the second call. -/
theorem linked_iff
    (h : Interrupted H policy pid counter pid' t f r dst bytes .linked fs crash d) :
    Finishes H policy pid' t f r.registration fs d ↔
      Resumable policy pid' t f r.registration crash d := by
  have hpolicy := h.left.link rfl
  have hdest := (chosen_spec h.chosen).2.2 (by simp [hpolicy])
  have hcrash := h.left.partial_get
  rw [if_pos (.inr rfl)] at hcrash
  have hdst := h.dst_get
  rw [if_neg (by simp)] at hdst
  refine iff_of_false ?_ ?_
  · rintro ⟨d', hrun, -⟩
    obtain ⟨r', hp, hfound, -⟩ := pending_of_open (h.record_pending (by simp)) h.pending h.opened
    obtain ⟨-, hpart⟩ := hfound bytes hcrash (by rw [h.durable])
    obtain ⟨-, dst', hinst⟩ := completeFile_installs hp h.above (.inl (by simp [hpart])) hrun
    have hsame := (chosen_spec hinst.chosen).2.2 (by simp [hpolicy])
    have hnone := hinst.vacant.2.1 (.inr hpolicy)
    rw [hsame, ← hdest, hdst] at hnone
    cases hnone
  · rintro (hx | ⟨-, ⟨-, hx⟩ | ⟨hx, -⟩⟩)
    · exact h.not_complete (by simp) hx
    · have hget := h.left.dst_get
      rw [if_neg (by simp), hdest, hx hpolicy] at hget
      cases hget
    · rw [hpolicy] at hx
      cases hx

/-- The directory of the partial files is still there. -/
theorem partial_dir (h : Interrupted H policy pid counter pid' t f r dst bytes stage fs crash d) :
    d.fs.get? (partialDirectory t) = some .dir := by
  have hfs : fs.get? (partialDirectory t) = some .dir := Fs.parent_dir h.part
  have hlen : (partialDirectory t).length = 3 := rfl
  have hne : ∀ {q : Path}, q.length = 4 → partialDirectory t ≠ q := by
    rintro q hq rfl
    omega
  have hnot : ¬ Outside (partialDirectory t) := fun hx => hx ⟨_, rfl⟩
  rw [openStorage_frame h.opened (.inr (by omega)) fun {d p} hs => ?_]
  · show crash.get? _ = _
    rw [h.left.inner _ hnot (hne rfl) (hne rfl) (hne rfl), hfs]
  · rintro ⟨_, rfl | ⟨r', _, hx⟩⟩
    · revert hs
      simp [partialDirectory, partialsDirectory, sessionsDirectory, storageDirectory]
    · exact hne rfl hx

/-- An empty partial file is made again. -/
theorem source_again (h : Interrupted H policy pid counter pid' t f r dst bytes stage fs crash d)
    (hnone : d.fs.get? (partialPath t f) = none) :
    ∃ d₀, sourceExists (partialPath t f) 0 d = .ok true d₀ ∧
      d₀.tempCounter = d.tempCounter ∧ Sets d d₀ (partialPath t f) (some (.file [])) := by
  have hcan : d.fs.CanPut (partialPath t f) (.file []) :=
    ⟨by simp [partialPath], by simpa [partialPath] using h.partial_dir, by simp [hnone]⟩
  obtain ⟨fs₀, hput⟩ := Fs.put?_isSome hcan
  have hopen : openPartial (partialPath t f) d =
      .ok [] { d with fs := fs₀, trail := d.trail ++ [fs₀] } := by
    simp only [openPartial]
    rw [bind_ok (metadata_run _ d), hnone]
    exact bind_ok (write_ok hput)
  have hlen : fileLengthIfExists (partialPath t f) d = .ok none d := by
    simp only [fileLengthIfExists]
    rw [bind_ok (metadata_run _ d), hnone]
    rfl
  refine ⟨{ d with fs := fs₀, trail := d.trail ++ [fs₀] }, ?_, rfl, (Fs.put?_eq_some hput).2⟩
  simp only [sourceExists]
  rw [bind_ok hlen]
  exact bind_ok hopen

/-- The file is in place and its partial file gone. Recovery has put the record
back to the beginning, which is no step back for an empty file; but only the
policy that replaces puts it where it was. -/
theorem moved_iff
    (h : Interrupted H policy pid counter pid' t f r dst bytes .moved fs crash d) :
    Finishes H policy pid' t f r.registration fs d ↔
      Resumable policy pid' t f r.registration crash d := by
  have hcrash := h.left.partial_get
  rw [if_neg (by simp)] at hcrash
  obtain ⟨r', hp, -, hgone⟩ := pending_of_open (h.record_pending (by simp)) h.pending h.opened
  obtain ⟨hzero, hpart⟩ := hgone hcrash
  have hdst := h.dst_get
  rw [if_neg (by simp)] at hdst
  have hinstalls : r.registration.size = 0 → ∀ {d'}, completeFile H policy pid' t f
      r.registration.size r.registration.contentHash d = .ok () d' →
      ∃ dst', Installs H policy pid' t r dst' d d' := fun hsize {d'} hrun =>
    (completeFile_installs hp h.above (.inr hsize) hrun).2
  have hdest : policy ≠ .renameWithSuffix →
      dst = splitSlash r.registration.relativePath := (chosen_spec h.chosen).2.2
  constructor
  · rintro ⟨d', hrun, w, hw, ⟨content, hcontent, -⟩, hothers⟩
    have hsize : r.registration.size = 0 := by
      -- The record was put back to offset 0, and must be at the full size.
      obtain ⟨-, -, ⟨hx, _⟩ | ⟨-, hdurable, _⟩⟩ := completeFile_inv hp.record hrun
      · rw [hp.pending] at hx
        cases hx
      · rw [hp.registration, hzero] at hdurable
        exact hdurable.symm
    obtain ⟨dst', hinst⟩ := hinstalls hsize hrun
    have hoccupied : policy = .ask ∨ policy = .noReplace → False := by
      intro hpolicy
      have hne : policy ≠ .renameWithSuffix := by
        rcases hpolicy with rfl | rfl <;> simp
      have hnone := hinst.vacant.2.1 hpolicy
      rw [(chosen_spec hinst.chosen).2.2 hne, ← hdest hne, hdst] at hnone
      cases hnone
    have hrename : policy = .renameWithSuffix → False := by
      -- A second destination is chosen, and two files are new.
      intro hpolicy
      have hfree := (chosen_spec h.chosen).2.1 hpolicy
      have hfree' := (chosen_spec hinst.chosen).2.1 hpolicy
      have hne : dst ≠ dst' := by
        rintro rfl
        rw [hdst] at hfree'
        cases hfree'
      have hfirst : d'.fs.get? dst = some (.file bytes) := by
        rcases hinst.kept dst h.outside hne with hx | ⟨hx, _⟩
        · rw [hx, hdst]
        · rw [hdst] at hx
          cases hx
      have hbefore : fs.get? dst' = none := by
        rcases h.kept hinst.outside hne.symm with hx | ⟨hx, _⟩
        · rw [← hx]
          exact hfree'
        · exact hx
      obtain ⟨content', hsecond, -⟩ := hinst.verified
      by_cases hwd : w = dst
      · rcases hothers dst' hinst.outside (hwd ▸ hne.symm) with hx | ⟨-, hx⟩
        · rw [hsecond, hbefore] at hx
          cases hx
        · rw [hsecond] at hx
          cases hx
      · rcases hothers dst h.outside (Ne.symm hwd) with hx | ⟨-, hx⟩
        · rw [hfirst, hfree] at hx
          cases hx
        · rw [hfirst] at hx
          cases hx
    refine .inr ⟨hinst.free, .inr ⟨?_, hsize⟩⟩
    cases hpolicy : policy with
    | ask => exact (hoccupied (.inl hpolicy)).elim
    | noReplace => exact (hoccupied (.inr hpolicy)).elim
    | replaceAfterConfirm => rfl
    | renameWithSuffix => exact (hrename hpolicy).elim
  · rintro (hx | ⟨hfree, ⟨hx, -⟩ | ⟨hpolicy, hsize⟩⟩)
    · exact absurd hx (h.not_complete (by simp))
    · rw [hcrash] at hx
      cases hx
    · obtain ⟨d₀, hsource, hcounter, hsets⟩ := h.source_again hpart
      have hempty : bytes = [] := List.length_eq_zero_iff.1 (h.length_bytes.trans hsize)
      have hchosen : Storage.chosen policy d.fs (splitSlash r.registration.relativePath) =
          some dst := by
        rw [hdest (by simp [hpolicy]), hpolicy]
        rfl
      have hvacant : Vacant H policy d.fs dst := by
        refine ⟨by simp [hdst], fun hx => ?_, fun hx => by rw [hdst] at hx; cases hx⟩
        rw [hpolicy] at hx
        rcases hx with hx | hx <;> cases hx
      have hready := h.ready hp (hzero.trans hsize.symm) (fun q hq => hsets.other hq) hcounter
        (hempty ▸ hsets.self) hchosen hvacant hfree
      rw [← hsize, ← hp.registration] at hsource
      obtain ⟨d', hrun⟩ := completeFile_ok_of_source hp.record hsource hready
        (by rw [hp.registration]; exact h.above)
      rw [hp.registration] at hrun
      obtain ⟨dst', hinst⟩ := hinstalls hsize hrun
      have hsame : dst' = dst := Option.some.inj (hinst.chosen.symm.trans hchosen)
      exact ⟨d', hrun, h.oneInstalled (hsame ▸ hinst)⟩

/-- The record was replaced: the second call finds its work done, if the
record can be read at all. -/
theorem recorded_iff
    (h : Interrupted H policy pid counter pid' t f r dst bytes .recorded fs crash d) :
    Finishes H policy pid' t f r.registration fs d ↔
      Resumable policy pid' t f r.registration crash d := by
  have hvalid := recordOf_valid h.persisted.record
  have hrecord := recordOf_completed hvalid h.candidate
  have hstate := h.left.state_get
  rw [if_pos rfl] at hstate
  rw [← hstate] at hrecord
  by_cases hle : (joinSlash dst).length ≤ maxPathLen
  · rw [if_pos hle] at hrecord
    have hp := h.left.persisted h.persisted hrecord rfl
    obtain ⟨text, htext, -⟩ := h.candidate.path
    have hpath : splitSlash ((r.completed (joinSlash dst)).installedRelativePath.getD
        (r.completed (joinSlash dst)).registration.relativePath) = dst := by
      show splitSlash (joinSlash dst) = dst
      rw [htext, joinSlash_splitSlash]
    have hcrash := h.left.dst_get
    rw [if_neg (by simp)] at hcrash
    obtain ⟨hread, hopens⟩ := completed_of_open hp rfl (by rw [hpath]; exact h.outside)
      (by rw [hpath, hcrash]; exact h.verified) h.opened
    have hdst : Verified H r.registration (d.fs.get? dst) := by
      rw [h.dst_get, if_neg (by simp)]
      exact h.verified
    refine iff_of_true ⟨d, ?_, dst, h.outside, hdst, fun q hq hne => ?_⟩ (.inl ⟨_, hrecord, rfl⟩)
    · exact completeFile_ok_of_complete (r := r.completed (joinSlash dst)) hread rfl
        hopens (by rw [hpath]; exact hdst)
    · rcases h.kept hq hne with hx | ⟨hx, hy, _⟩
      · exact .inl hx
      · exact .inr ⟨hx, hy⟩
  · rw [if_neg hle] at hrecord
    have hnone := openStorage_unreadable (d := .boot crash) hrecord h.opened
    have hcrash := h.left.partial_get
    rw [if_neg (by simp)] at hcrash
    refine iff_of_false ?_ ?_
    · rintro ⟨d', hrun, -⟩
      simp only [completeFile] at hrun
      obtain ⟨r', d₁, hload, -⟩ := bind_inv hrun
      rw [(loadRecord_inv hload).1] at hnone
      cases hnone
    · rintro (⟨r', hr', -⟩ | ⟨-, ⟨hx, -⟩ | ⟨hpolicy, -⟩⟩)
      · rw [hrecord] at hr'
        cases hr'
      · rw [hcrash] at hx
        cases hx
      · have hdest := (chosen_spec h.chosen).2.2 (by simp [hpolicy])
        rw [hdest, joinSlash_splitSlash] at hle
        exact hle hvalid.path_text.1

end Interrupted

/-- A call of `complete_file` that would have ended well is interrupted by a
crash after any number of its writes, and the storage is reopened by a new
process. The call repeated then finishes exactly if the crash came before the
destination was written, or after the record was, or made no difference. -/
theorem finishes_iff_resumable {counter pid' size : Nat} {hash : Digest}
    (hp : Persisted fs t f r) (hr : r.complete = false)
    (hdurable : r.durableOffset = r.registration.size)
    (hpart : fs.get? (partialPath t f) = some (.file bytes))
    (hverified : Verified H r.registration (some (.file bytes)))
    (ha : ¬ Above storageDirectory (splitSlash r.registration.relativePath))
    (hrun : completeFile H policy pid t f size hash ⟨fs, counter, []⟩ = .ok () d')
    (hcrash : crash ∈ fs :: d'.trail)
    (hopen : openStorage H pid' (.boot crash) = .ok () d) :
    Finishes H policy pid' t f r.registration fs d ↔
      Resumable policy pid' t f r.registration crash d := by
  obtain ⟨n, hstate⟩ := recordOf_isSome hp.record
  obtain ⟨-, -, ⟨hx, _⟩ | ⟨-, -, installed, d₁, hinstall, hwrite⟩⟩ :=
    completeFile_inv hp.record hrun
  · rw [hr] at hx
    cases hx
  · rcases install_inv hinstall with ⟨d₀, dst, rfl, hsource, hat⟩ | ⟨_, _, hnone, _⟩
    · have hsame : d₀ = ⟨fs, counter, []⟩ := by
        rcases hsource with rfl | ⟨hnone, _⟩
        · rfl
        · have hgone : fs.get? (partialPath t f) = none := hnone
          rw [hpart] at hgone
          cases hgone
      subst hsame
      have hne := splitSlash_ne_nil r.registration.relativePath
      obtain ⟨stage, hleft⟩ := left_of_crash hstate ha hpart hat hwrite rfl hcrash
      have hinst := installs_of_moved hstate ha rfl (fun _ _ => rfl) hat hwrite
      obtain ⟨d₂, hens, -⟩ := hat.between
      have h : Interrupted H policy pid counter pid' t f r dst bytes stage fs crash d :=
        ⟨hp, hr, hdurable, hpart, hverified, ha, hens.clear, hat.chosen, hinst.vacant,
          hinst.outside, hinst.settles, hleft, hopen⟩
      cases stage with
      | pending => exact h.pending_iff
      | linked => exact h.linked_iff
      | moved => exact h.moved_iff
      | recorded => exact h.recorded_iff
    · have hgone : fs.get? (partialPath t f) = none := hnone
      rw [hpart] at hgone
      cases hgone

/-! ## A crash between the file and its record -/

section Sample

/-- The disk after a run that ended well. -/
def diskAfter (m : StorageM Unit) (d : Disk) : Option Disk :=
  match m d with
  | .ok _ d' => some d'
  | .error _ _ => none

theorem diskAfter_eq_some {m : StorageM Unit} (h : diskAfter m d = some d') : m d = .ok () d' := by
  unfold diskAfter at h
  split at h
  · next d₀ hrun =>
      obtain rfl := Option.some.inj h
      exact hrun
  · cases h

/-- The sample file is completed, and a crash leaves the disk of the given
point, which process 8 opens. -/
def interruptedRun (policy : OverwritePolicy) (point : Nat) : Option (Fs × Disk × Fs × Disk) := do
  let fs ← Fs.ofList (storageNodes sampleRecord [7, 8])
  let d' ← diskAfter
    (completeFile sampleHost policy 7 sampleId sampleId 2 sampleHash) (.boot fs)
  let crash ← (fs :: d'.trail)[point]?
  let d ← diskAfter (openStorage sampleHost 8) (.boot crash)
  pure (fs, d', crash, d)

theorem interruptedRun_spec {point : Nat} {d₁ d₂ : Disk}
    (h : interruptedRun policy point = some (fs, d₁, crash, d₂)) :
    Fs.ofList (storageNodes sampleRecord [7, 8]) = some fs ∧
      completeFile sampleHost policy 7 sampleId sampleId 2 sampleHash (.boot fs) =
        .ok () d₁ ∧ crash ∈ fs :: d₁.trail ∧
      openStorage sampleHost 8 (.boot crash) = .ok () d₂ := by
  simp only [interruptedRun] at h
  obtain ⟨fs', hfs, h₁⟩ := Option.bind_eq_some_iff.1 h
  obtain ⟨d', hd', h₂⟩ := Option.bind_eq_some_iff.1 h₁
  obtain ⟨crash', hcrash, h₃⟩ := Option.bind_eq_some_iff.1 h₂
  obtain ⟨d, hd, h₄⟩ := Option.bind_eq_some_iff.1 h₃
  cases h₄
  exact ⟨hfs, diskAfter_eq_some hd', List.mem_of_getElem? hcrash, diskAfter_eq_some hd⟩

theorem sample_persisted_alone (h : Fs.ofList (storageNodes sampleRecord [7, 8]) = some fs) :
    Persisted fs sampleId sampleId sampleRecord :=
  sample_persisted h (storageNodes_get h).2

theorem sample_second_call :
    (interruptedRun .ask 1).bind (fun x => Lib.failure (completeFile sampleHost .ask 8 sampleId
      sampleId 2 sampleHash) x.2.2.2) = some (.invalidOffset sampleId 0 2) := by
  decide +kernel

/-- The crash comes right after the rename, and the call is refused for ever
after: nothing of the content is taken to be safe. -/
theorem completion_is_lost :
    ¬ ∀ (H : Host) (policy : OverwritePolicy) (pid counter pid' size : Nat) (hash : Digest)
      (t : TransferId) (f : FileId) (r : StateRecord) (bytes : Bytes) (fs crash : Fs)
      (d' d : Disk), Persisted fs t f r → r.complete = false →
      r.durableOffset = r.registration.size →
      fs.get? (partialPath t f) = some (.file bytes) →
      Verified H r.registration (some (.file bytes)) →
      ¬ Above storageDirectory (splitSlash r.registration.relativePath) →
      completeFile H policy pid t f size hash ⟨fs, counter, []⟩ = .ok () d' →
      crash ∈ fs :: d'.trail → openStorage H pid' (.boot crash) = .ok () d →
      Finishes H policy pid' t f r.registration fs d := by
  intro hall
  obtain ⟨⟨fs, d', crash, d⟩, hrun, hfailed⟩ := Option.bind_eq_some_iff.1 sample_second_call
  obtain ⟨hfs, hfirst, hcrash, hopen⟩ := interruptedRun_spec hrun
  obtain ⟨d₂, hsecond, -⟩ := hall _ _ _ _ _ _ _ _ _ _ _ _ _ _ _ (sample_persisted_alone hfs) rfl
    rfl (storageNodes_get hfs).1 sample_verified sampleRecord_outside.not_above hfirst hcrash hopen
  have hok : Lib.failure (completeFile sampleHost .ask 8 sampleId sampleId 2 sampleHash) d =
      none := by
    simp only [Lib.failure]
    rw [show completeFile sampleHost .ask 8 sampleId sampleId 2 sampleHash d = .ok () d₂
      from hsecond]
  have hfailed' : Lib.failure (completeFile sampleHost .ask 8 sampleId sampleId 2
      sampleHash) d = some (.invalidOffset sampleId 0 2) := hfailed
  rw [hok] at hfailed'
  cases hfailed'

theorem sample_interrupted : (interruptedRun .noReplace 3).isSome = true := by decide +kernel

/-- Installed by a link under another policy, the crash just before the record
is renamed into place. -/
theorem finishes_iff_resumable_noReplace :
    ∃ fs d' crash d, Fs.ofList (storageNodes sampleRecord [7, 8]) = some fs ∧
      completeFile sampleHost .noReplace 7 sampleId sampleId 2 sampleHash
        ⟨fs, 0, []⟩ = .ok () d' ∧ crash ∈ fs :: d'.trail ∧
      openStorage sampleHost 8 (.boot crash) = .ok () d ∧
      (Finishes sampleHost .noReplace 8 sampleId sampleId sampleRecord.registration fs d ↔
        Resumable .noReplace 8 sampleId sampleId sampleRecord.registration crash d) := by
  obtain ⟨⟨fs, d', crash, d⟩, hrun⟩ := Option.isSome_iff_exists.1 sample_interrupted
  obtain ⟨hfs, hfirst, hcrash, hopen⟩ := interruptedRun_spec hrun
  exact ⟨fs, d', crash, d, hfs, hfirst, hcrash, hopen,
    finishes_iff_resumable (sample_persisted_alone hfs) rfl rfl (storageNodes_get hfs).1
      sample_verified sampleRecord_outside.not_above hfirst hcrash hopen⟩

end Sample

end DartUdp.Storage
