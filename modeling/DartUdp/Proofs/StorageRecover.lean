import DartUdp.Proofs.StorageRecord
import DartUdp.Storage.Storage

/-!
# What recovery does to a partial file

Each operation of the recovery has a small footprint: bringing one record in
line touches its partial file, and writing it back touches its record file. So
what becomes of one file is settled by its own record, however many others
are recovered before and after it.

For a file in progress the recovered partial file is the one found, set to
the recorded offset. That invents bytes when less was found than recorded,
and only then.

The module is for `openStorage_prefix_iff`. `recoverRecord_inv` is one record,
`recoverAll_recovers` and `recoverTransfers_recovers` are the loops,
`openStorage_recovers` the whole, and `setLen_prefix_iff` says when nothing is
invented.
-/

namespace DartUdp.Storage

open DartUdp.Lib DartUdp.Transfer

variable {d d' : Disk} {p q : Path}

/-! ## Footprints -/

theorem metadata_run (p : Path) (d : Disk) : metadata p d = .ok (d.fs.get? p) d := rfl

theorem write_step {operation : String} {f : Fs → Option Fs}
    (h : write operation f d = .ok () d') :
    f d.fs = some d'.fs ∧ d'.tempCounter = d.tempCounter ∧ d'.trail = d.trail ++ [d'.fs] := by
  simp only [write] at h
  rw [bind_ok (get_run d)] at h
  cases hf : f d.fs with
  | none => rw [hf] at h; cases h
  | some fs =>
      rw [hf] at h
      obtain ⟨-, rfl⟩ := EStateM.Result.ok.inj h
      exact ⟨rfl, rfl, rfl⟩

theorem write_inv {operation : String} {f : Fs → Option Fs}
    (h : write operation f d = .ok () d') : f d.fs = some d'.fs :=
  (write_step h).1

theorem write_ok {operation : String} {f : Fs → Option Fs} {fs : Fs} (h : f d.fs = some fs) :
    write operation f d = .ok () { d with fs, trail := d.trail ++ [fs] } := by
  simp only [write]
  rw [bind_ok (get_run d), h]
  rfl

/-- Put a node with the given content at `p`, and leave the rest. -/
def Sets (d d' : Disk) (p : Path) (n : Option Node) : Prop :=
  ∀ q, d'.fs.get? q = if q = p then n else d.fs.get? q

theorem Sets.other {n : Option Node} (h : Sets d d' p n) (hq : q ≠ p) :
    d'.fs.get? q = d.fs.get? q := by rw [h q, if_neg hq]

theorem Sets.self {n : Option Node} (h : Sets d d' p n) : d'.fs.get? p = n := by
  rw [h p, if_pos rfl]

theorem ensureDirectory_inv (h : ensureDirectory p d = .ok () d') :
    d.fs.get? p = some .dir ∧ d' = d ∨ d.fs.get? p = none ∧ Sets d d' p (some .dir) := by
  simp only [ensureDirectory] at h
  rw [bind_ok (metadata_run p d)] at h
  cases hp : d.fs.get? p with
  | none =>
      rw [hp] at h
      exact .inr ⟨rfl, (Fs.put?_eq_some (write_inv h)).2⟩
  | some n =>
      rw [hp] at h
      cases n with
      | dir =>
          obtain ⟨-, rfl⟩ := EStateM.Result.ok.inj h
          exact .inl ⟨rfl, rfl⟩
      | file bytes => cases h
      | symlink => cases h

theorem truncateFile_inv {length : Nat} (h : truncateFile p length d = .ok () d') :
    ∃ bytes, d.fs.get? p = some (.file bytes) ∧
      Sets d d' p (some (.file (setLen bytes length))) := by
  simp only [truncateFile] at h
  rw [bind_ok (metadata_run p d)] at h
  cases hp : d.fs.get? p with
  | none => rw [hp] at h; cases h
  | some n =>
      rw [hp] at h
      cases n with
      | file bytes => exact ⟨bytes, rfl, (Fs.put?_eq_some (write_inv h)).2⟩
      | dir => cases h
      | symlink => cases h

theorem removeFileIfExists_inv (h : removeFileIfExists p d = .ok () d') : Sets d d' p none := by
  simp only [removeFileIfExists] at h
  rw [bind_ok (metadata_run p d)] at h
  cases hp : d.fs.get? p with
  | none =>
      rw [hp] at h
      obtain ⟨-, rfl⟩ := EStateM.Result.ok.inj h
      intro q
      split
      · next hq => rw [hq, hp]
      · rfl
  | some n =>
      rw [hp] at h
      cases n with
      | dir => cases h
      | file bytes => exact Fs.erase?_eq_some (write_inv h)
      | symlink => exact Fs.erase?_eq_some (write_inv h)

theorem fileLengthIfExists_inv {n : Option Nat} (h : fileLengthIfExists p d = .ok n d') :
    d' = d ∧ (n = none ∧ d.fs.get? p = none ∨
      ∃ bytes, n = some bytes.length ∧ d.fs.get? p = some (.file bytes)) := by
  simp only [fileLengthIfExists] at h
  rw [bind_ok (metadata_run p d)] at h
  cases hp : d.fs.get? p with
  | none =>
      rw [hp] at h
      obtain ⟨rfl, rfl⟩ := EStateM.Result.ok.inj h
      exact ⟨rfl, .inl ⟨rfl, rfl⟩⟩
  | some n =>
      rw [hp] at h
      cases n with
      | dir => cases h
      | symlink => cases h
      | file bytes =>
          obtain ⟨rfl, rfl⟩ := EStateM.Result.ok.inj h
          exact ⟨rfl, .inr ⟨bytes, rfl, rfl⟩⟩

/-- A record is written to a temporary file first, which leaves no trace. -/
structure Replaced (d d' : Disk) (temp p : Path) (bytes : Bytes) : Prop where
  free : d.fs.get? temp = none
  sets : Sets d d' p (some (.file bytes))
  trail : ∃ fs, d'.trail = d.trail ++ [fs, d'.fs] ∧
    ∀ q, fs.get? q = if q = temp then some (.file bytes) else d.fs.get? q

theorem replaceState_inv {temp : Path} {bytes : Bytes}
    (h : replaceState temp p bytes d = .ok () d') :
    Replaced d d' temp p bytes ∧ d'.tempCounter = d.tempCounter := by
  simp only [replaceState] at h
  rw [bind_ok (metadata_run temp d)] at h
  cases htemp : d.fs.get? temp with
  | some n => rw [htemp] at h; cases h
  | none =>
      rw [htemp] at h
      obtain ⟨⟨⟩, d₁, hput, h₁⟩ := bind_inv h
      obtain ⟨hput, hcounter₁, htrail₁⟩ := write_step hput
      obtain ⟨hmove, hcounter₂, htrail₂⟩ := write_step h₁
      have hs₁ : Sets d d₁ temp (some (.file bytes)) := (Fs.put?_eq_some hput).2
      obtain ⟨-, n, hn, hget⟩ := Fs.rename?_eq_some hmove
      obtain rfl : Node.file bytes = n := by simpa [hs₁.self] using hn
      refine ⟨⟨htemp, fun q => ?_, d₁.fs, by rw [htrail₂, htrail₁]; simp, hs₁⟩,
        hcounter₂.trans hcounter₁⟩
      rw [hget, hs₁ q]
      split
      · rfl
      · split
        · next hq => rw [hq, htemp]
        · rfl

/-- Writing a record over an existing record file. -/
theorem writeState_step {pid : Nat} {record : StateRecord} {n : Node}
    (hp : d.fs.get? p = some n) (hne : p ≠ [])
    (h : writeState pid p record d = .ok () d') :
    Replaced d d' (tempPath p.dropLast pid d.tempCounter) p (encodeState record) := by
  simp only [writeState] at h
  obtain ⟨⟨⟩, d₁, hdir, h₁⟩ := bind_inv h
  have hparent : d.fs.get? p.dropLast = some .dir := by
    have hsplit := List.dropLast_concat_getLast hne
    rw [← hsplit] at hp
    exact Fs.parent_dir hp
  have hd₁ : d₁ = d := by
    rcases ensureDirectory_inv hdir with ⟨_, h⟩ | ⟨hnone, _⟩
    · exact h
    · rw [hparent] at hnone
      cases hnone
  rw [hd₁, bind_ok (get_run _), bind_ok (modify_run _ _)] at h₁
  cases hrun : replaceState (tempPath p.dropLast pid d.tempCounter) p (encodeState record)
      { d with tempCounter := (d.tempCounter + 1) % 2 ^ 64 } with
  | error e d₂ =>
      rw [tryCatch_error hrun] at h₁
      obtain ⟨_, _, _, h₂⟩ := bind_inv h₁
      cases h₂
  | ok u d₂ =>
      rw [tryCatch_ok hrun] at h₁
      obtain ⟨-, rfl⟩ := EStateM.Result.ok.inj h₁
      obtain ⟨⟨hfree, hsets, htrail⟩, _⟩ := replaceState_inv hrun
      exact ⟨hfree, hsets, htrail⟩

theorem writeState_inv {pid : Nat} {record : StateRecord} {n : Node}
    (hp : d.fs.get? p = some n) (hne : p ≠ [])
    (h : writeState pid p record d = .ok () d') :
    Sets d d' p (some (.file (encodeState record))) :=
  (writeState_step hp hne h).sets

/-- A free temporary name is all it takes to write a record over another. -/
theorem writeState_ok {pid : Nat} {record : StateRecord} {bytes : Bytes}
    (hp : d.fs.get? p = some (.file bytes)) (hne : p ≠ [])
    (hfree : d.fs.get? (tempPath p.dropLast pid d.tempCounter) = none) :
    ∃ d', writeState pid p record d = .ok () d' := by
  have hparent : d.fs.get? p.dropLast = some .dir := by
    have hsplit := List.dropLast_concat_getLast hne
    rw [← hsplit] at hp
    exact Fs.parent_dir hp
  have hdir : ensureDirectory p.dropLast d = .ok () d := by
    simp only [ensureDirectory]
    rw [bind_ok (metadata_run _ d), hparent]
    rfl
  have hcan : d.fs.CanPut (tempPath p.dropLast pid d.tempCounter)
      (.file (encodeState record)) :=
    ⟨by simp [tempPath], by simpa [tempPath] using hparent, by simp [hfree]⟩
  obtain ⟨fs₁, hput⟩ := Fs.put?_isSome hcan
  have hget := (Fs.put?_eq_some hput).2
  have hne' : p ≠ tempPath p.dropLast pid d.tempCounter := by
    intro hx
    rw [← hx, hp] at hfree
    cases hfree
  have hmove : ∃ fs₂, fs₁.rename? (tempPath p.dropLast pid d.tempCounter) p = some fs₂ := by
    refine Fs.rename?_isSome (by rw [hget, if_pos rfl]) hne ?_ ?_
    · rw [hget]
      split
      · next hx =>
          rw [hx] at hparent
          rw [hparent] at hfree
          cases hfree
      · exact hparent
    · rw [hget, if_neg hne', hp]
      simp
  obtain ⟨fs₂, hmove⟩ := hmove
  have hrun : replaceState (tempPath p.dropLast pid d.tempCounter) p (encodeState record)
      { d with tempCounter := (d.tempCounter + 1) % 2 ^ 64 } =
      .ok () ⟨fs₂, (d.tempCounter + 1) % 2 ^ 64, d.trail ++ [fs₁] ++ [fs₂]⟩ := by
    simp only [replaceState]
    rw [bind_ok (metadata_run _ _)]
    simp only [hfree]
    exact (bind_ok (write_ok hput)).trans (write_ok hmove)
  refine ⟨⟨fs₂, (d.tempCounter + 1) % 2 ^ 64, d.trail ++ [fs₁] ++ [fs₂]⟩, ?_⟩
  simp only [writeState]
  rw [bind_ok hdir, bind_ok (get_run _), bind_ok (modify_run _ _)]
  exact tryCatch_ok hrun

/-! ## One record -/

/-- The record a node holds. -/
def recordOf : Option Node → Option StateRecord
  | some (.file bytes) =>
      if bytes.length > maxStateSize then none else (readStateBytes bytes).toOption
  | _ => none

theorem readState_ok {r : StateRecord} (h : recordOf (d.fs.get? p) = some r) :
    readState p d = .ok r d := by
  unfold recordOf at h
  split at h
  · next bytes hp =>
      split at h
      · cases h
      · next hlen =>
          have hread : readFile p d = .ok bytes d := by
            simp only [readFile]
            rw [bind_ok (metadata_run p d), hp]
            rfl
          simp only [readState]
          rw [bind_ok hread, if_neg hlen]
          cases hb : readStateBytes bytes with
          | ok record =>
              rw [hb] at h
              obtain rfl := Option.some.inj h
              rfl
          | error e => rw [hb] at h; cases h
  · cases h

theorem readState_error (h : recordOf (d.fs.get? p) = none) :
    ∃ e, readState p d = .error e d := by
  simp only [readState]
  cases hp : d.fs.get? p with
  | none =>
      refine ⟨.io "read checkpoint state", bind_error ?_⟩
      simp only [readFile]
      rw [bind_ok (metadata_run p d), hp]
      rfl
  | some n =>
      cases n with
      | dir =>
          refine ⟨.io "read checkpoint state", bind_error ?_⟩
          simp only [readFile]
          rw [bind_ok (metadata_run p d), hp]
          rfl
      | symlink =>
          refine ⟨.io "read checkpoint state", bind_error ?_⟩
          simp only [readFile]
          rw [bind_ok (metadata_run p d), hp]
          rfl
      | file bytes =>
          have hread : readFile p d = .ok bytes d := by
            simp only [readFile]
            rw [bind_ok (metadata_run p d), hp]
            rfl
          rw [bind_ok hread]
          rw [hp] at h
          simp only [recordOf] at h
          by_cases hlen : bytes.length > maxStateSize
          · rw [if_pos hlen]
            exact ⟨_, rfl⟩
          · rw [if_neg hlen] at h ⊢
            cases hb : readStateBytes bytes with
            | ok record => rw [hb] at h; cases h
            | error e => exact ⟨e, rfl⟩

/-- The partial file of a record. -/
def StateRecord.partialPath (r : StateRecord) : Path :=
  Storage.partialPath r.registration.transferId r.registration.fileId

/-- The content found at a path; a missing file has none. -/
def contentOf : Option Node → Bytes
  | some (.file bytes) => bytes
  | _ => []

@[simp] theorem length_setLen (bytes : Bytes) (n : Nat) : (setLen bytes n).length = n := by
  simp only [setLen, List.length_append, List.length_take, List.length_replicate]
  omega

theorem setLen_length (bytes : Bytes) : setLen bytes bytes.length = bytes := by
  simp [setLen]

/-- The outcome of recovering a file in progress. -/
structure RecoveredPartial (d d' : Disk) (r r' : StateRecord) : Prop where
  frame : ∀ q, q ≠ r.partialPath → d'.fs.get? q = d.fs.get? q
  missing : d.fs.get? r.partialPath = none →
    d'.fs.get? r.partialPath = none ∧ r'.durableOffset = 0
  found : ∀ bytes, d.fs.get? r.partialPath = some (.file bytes) →
    d'.fs.get? r.partialPath = some (.file (setLen bytes r'.durableOffset)) ∧
      r'.durableOffset =
        if r.durableOffset > r.registration.size then 0 else r.durableOffset
  regular : ∀ n, d.fs.get? r.partialPath = some n → ∃ bytes, n = .file bytes
  record : r' = r ∨ r' = r.reset

theorem recoverPartial_inv {r r' : StateRecord} {bytes : Bytes}
    (hp : d.fs.get? r.partialPath = some (.file bytes))
    (h : recoverPartial r.partialPath r bytes.length d = .ok r' d') :
    Sets d d' r.partialPath (some (.file (setLen bytes r'.durableOffset))) ∧
      (r.durableOffset > r.registration.size ∧ r' = r.reset ∨
        r.durableOffset ≤ r.registration.size ∧ r' = r) := by
  -- After the first step the partial file is as long as the record says.
  have hlast : ∀ {d₁ : Disk} {r₁ : StateRecord} {content : Bytes},
      d₁.fs.get? r.partialPath = some (.file content) → content.length = r₁.durableOffset →
      (do
        let length := (← fileLengthIfExists r.partialPath).getD 0
        if length < r₁.durableOffset then do
          truncateFile r.partialPath 0
          pure r₁.reset
        else pure r₁ : StorageM StateRecord) d₁ = .ok r' d' → r' = r₁ ∧ d' = d₁ := by
    intro d₁ r₁ content hc hlen hrun
    obtain ⟨n, d₂, hfile, hrun⟩ := bind_inv hrun
    obtain ⟨rfl, hn | ⟨b, rfl, hb⟩⟩ := fileLengthIfExists_inv hfile
    · rw [hc] at hn
      cases hn.2
    · rw [hc] at hb
      obtain rfl : content = b := by simpa using hb
      rw [if_neg (by simp [hlen])] at hrun
      obtain ⟨rfl, rfl⟩ := EStateM.Result.ok.inj hrun
      exact ⟨rfl, rfl⟩
  simp only [recoverPartial] at h
  by_cases hbig : r.durableOffset > r.registration.size
  · rw [if_pos hbig] at h
    obtain ⟨⟨⟩, d₁, htrunc, h₁⟩ := bind_inv h
    obtain ⟨b, hb, hs⟩ := truncateFile_inv htrunc
    rw [hp] at hb
    obtain rfl : bytes = b := by simpa using hb
    obtain ⟨rfl, rfl⟩ := hlast hs.self (by simp [StateRecord.reset]) h₁
    exact ⟨hs, .inl ⟨hbig, rfl⟩⟩
  · rw [if_neg hbig] at h
    have hle : r.durableOffset ≤ r.registration.size := Nat.not_lt.1 hbig
    by_cases hne : bytes.length > r.registration.size || bytes.length != r.durableOffset
    · rw [if_pos hne] at h
      obtain ⟨⟨⟩, d₁, htrunc, h₁⟩ := bind_inv h
      obtain ⟨b, hb, hs⟩ := truncateFile_inv htrunc
      rw [hp] at hb
      obtain rfl : bytes = b := by simpa using hb
      obtain ⟨rfl, rfl⟩ := hlast hs.self (length_setLen _ _) h₁
      exact ⟨hs, .inr ⟨hle, rfl⟩⟩
    · rw [if_neg hne] at h
      have hlen : bytes.length = r.durableOffset := by
        simp only [Bool.or_eq_true, bne_iff_ne, ne_eq, not_or, not_not] at hne
        exact hne.2
      obtain ⟨rfl, rfl⟩ := hlast hp hlen h
      refine ⟨fun q => ?_, .inr ⟨hle, rfl⟩⟩
      rw [← hlen, setLen_length]
      split
      · next hq => rw [hq, hp]
      · rfl

theorem recoverRecord_inv {H : Host} {r r' : StateRecord} (hr : r.complete = false)
    (h : recoverRecord H r d = .ok r' d') : RecoveredPartial d d' r r' := by
  simp only [recoverRecord] at h
  cases hv : validateStoragePath r.registration.relativePath with
  | error e => rw [hv] at h; cases h
  | ok u =>
      rw [hv] at h
      simp only [hr, Bool.false_eq_true, if_false] at h
      obtain ⟨n, d₁, hlen, h₁⟩ := bind_inv h
      obtain ⟨rfl, ⟨rfl, hnone⟩ | ⟨bytes, rfl, hfile⟩⟩ := fileLengthIfExists_inv hlen
      · change d₁.fs.get? r.partialPath = none at hnone
        have hrun : d' = d₁ ∧ (r' = r ∨ r' = r.reset) ∧ r'.durableOffset = 0 := by
          by_cases hz : (r.durableOffset ≠ 0 || r.checkpointId ≠ 0) = true
          · simp only [hz, if_true] at h₁
            obtain ⟨rfl, rfl⟩ := EStateM.Result.ok.inj h₁
            exact ⟨rfl, .inr rfl, rfl⟩
          · simp only [hz] at h₁
            obtain ⟨rfl, rfl⟩ := EStateM.Result.ok.inj h₁
            refine ⟨rfl, .inl rfl, ?_⟩
            simp only [Bool.or_eq_true, decide_eq_true_eq, not_or, not_not] at hz
            exact hz.1
        obtain ⟨rfl, hrec, hzero⟩ := hrun
        refine ⟨fun _ _ => rfl, fun _ => ⟨hnone, hzero⟩, fun b hb => ?_, fun n hn => ?_, hrec⟩
        · rw [hnone] at hb; cases hb
        · rw [hnone] at hn; cases hn
      · obtain ⟨hs, hcase⟩ := recoverPartial_inv (r := r) hfile h₁
        change d₁.fs.get? r.partialPath = _ at hfile
        refine ⟨fun q hq => hs.other hq, fun hn => ?_, fun b hb => ?_, fun n hn => ?_, ?_⟩
        · rw [hfile] at hn; cases hn
        · rw [hfile] at hb
          obtain rfl : bytes = b := by simpa using hb
          refine ⟨hs.self, ?_⟩
          rcases hcase with ⟨hbig, rfl⟩ | ⟨hle, rfl⟩
          · rw [if_pos hbig]; rfl
          · rw [if_neg (Nat.not_lt.2 hle)]
        · rw [hfile] at hn
          exact ⟨bytes, (Option.some.inj hn).symm⟩
        · rcases hcase with ⟨_, rfl⟩ | ⟨_, rfl⟩
          · exact .inr rfl
          · exact .inl rfl

theorem destinationMatches_same {H : Host} {registration : FileRegistration} {b : Bool}
    (h : destinationMatches H p registration d = .ok b d') : d' = d := by
  simp only [destinationMatches] at h
  rw [bind_ok (metadata_run p d)] at h
  cases hm : d.fs.get? p with
  | none =>
      rw [hm] at h
      exact (EStateM.Result.ok.inj h).2.symm
  | some n =>
      rw [hm] at h
      cases n with
      | file bytes =>
          dsimp only at h
          split at h
          · exact (EStateM.Result.ok.inj h).2.symm
          · split at h
            · cases h
            · exact (EStateM.Result.ok.inj h).2.symm
      | dir => exact (EStateM.Result.ok.inj h).2.symm
      | symlink => exact (EStateM.Result.ok.inj h).2.symm

/-- Recovering any record touches its own partial file only. -/
theorem recoverRecord_frame {H : Host} {r r' : StateRecord}
    (h : recoverRecord H r d = .ok r' d') (hq : q ≠ r.partialPath) :
    d'.fs.get? q = d.fs.get? q := by
  cases hr : r.complete with
  | false => exact (recoverRecord_inv hr h).frame q hq
  | true =>
      simp only [recoverRecord] at h
      cases hv : validateStoragePath r.registration.relativePath with
      | error e => rw [hv] at h; cases h
      | ok u =>
          rw [hv] at h
          simp only [hr, if_true, recoverComplete] at h
          obtain ⟨⟨⟩, d₁, hrem, h₁⟩ := bind_inv h
          have hs := removeFileIfExists_inv hrem
          obtain ⟨path, d₂, hdest, h₂⟩ := bind_inv h₁
          have hd₂ : d₂ = d₁ := by
            simp only [destinationPath] at hdest
            cases hp : validateStoragePath
                (r.installedRelativePath.getD r.registration.relativePath) with
            | ok u => rw [hp] at hdest; exact (EStateM.Result.ok.inj hdest).2.symm
            | error e => rw [hp] at hdest; cases hdest
          obtain ⟨b, d₃, hmatch, h₃⟩ := bind_inv h₂
          have hd₃ : d₃ = d₂ := destinationMatches_same hmatch
          have hd' : d' = d₃ := by
            cases b
            · exact (EStateM.Result.ok.inj h₃).2.symm
            · exact (EStateM.Result.ok.inj h₃).2.symm
          rw [hd', hd₃, hd₂]
          exact hs.other hq

/-! ## All records -/

/-- A file `recover_states` takes for a record. -/
def IsState (p : Path) : Prop := (p.getLast?.bind extension) = some (ascii "state")

/-- What the recovery of the node at `p` may touch: the node itself and the
partial file of the record in it. -/
def Touches (d : Disk) (p q : Path) : Prop :=
  IsState p ∧ (q = p ∨ ∃ r, recordOf (d.fs.get? p) = some r ∧ q = r.partialPath)

/-- `path` is neither the storage directory nor in it. -/
def Outside (path : Path) : Prop := ¬ storageDirectory <+: path

theorem recordOf_isSome {n : Option Node} {r : StateRecord} (h : recordOf n = some r) :
    ∃ node, n = some node := by
  cases n with
  | none => cases h
  | some node => exact ⟨node, rfl⟩

/-- The recovery of one file, by what is in it. -/
theorem recoverState_inv {H : Host} {pid : Nat} (hne : p ≠ [])
    (h : recoverState H pid p d = .ok () d') :
    recordOf (d.fs.get? p) = none ∧ Sets d d' p none ∨
      ∃ r r' d₁, recordOf (d.fs.get? p) = some r ∧ recoverRecord H r d = .ok r' d₁ ∧
        (p ≠ r.partialPath → Sets d₁ d' p (some (.file (encodeState r')))) := by
  simp only [recoverState] at h
  cases hrec : recordOf (d.fs.get? p) with
  | none =>
      obtain ⟨e, herr⟩ := readState_error hrec
      have hcatch : (do
          try pure (some (← readState p)) catch _ => pure none :
          StorageM (Option StateRecord)) d = .ok none d :=
        (tryCatch_error (bind_error herr)).trans rfl
      rw [bind_ok hcatch] at h
      exact .inl ⟨rfl, removeFileIfExists_inv h⟩
  | some r =>
      have hcatch : (do
          try pure (some (← readState p)) catch _ => pure none :
          StorageM (Option StateRecord)) d = .ok (some r) d :=
        tryCatch_ok ((bind_ok (readState_ok hrec)).trans rfl)
      rw [bind_ok hcatch] at h
      obtain ⟨r', d₁, hrun, h₁⟩ := bind_inv h
      refine .inr ⟨r, r', d₁, rfl, hrun, fun hp => ?_⟩
      obtain ⟨node, hnode⟩ := recordOf_isSome hrec
      have hnode₁ : d₁.fs.get? p = some node := by
        rw [recoverRecord_frame hrun hp, hnode]
      exact writeState_inv hnode₁ hne h₁

theorem sessions_ne_partials {p : Path} {r : StateRecord}
    (h : p.dropLast.dropLast = sessionsDirectory) : p ≠ r.partialPath := by
  rintro rfl
  have : (r.partialPath).dropLast.dropLast = partialsDirectory := by
    simp [StateRecord.partialPath, partialPath, partialDirectory]
  rw [this] at h
  revert h
  decide

theorem storage_of_sessions (h : p.dropLast.dropLast = sessionsDirectory) : ¬ Outside p := by
  intro hout
  have hpre : sessionsDirectory <+: p := by
    rw [← h]
    exact (List.dropLast_prefix _).trans (List.dropLast_prefix _)
  exact hout (List.IsPrefix.trans ⟨[ascii "sessions"], rfl⟩ hpre)

/-- Recovery stays in the storage directory. -/
theorem not_touches_outside (hs : p.dropLast.dropLast = sessionsDirectory) (hq : Outside q) :
    ¬ Touches d p q := by
  rintro ⟨_, rfl | ⟨r, _, rfl⟩⟩
  · exact storage_of_sessions hs hq
  · exact hq ⟨_, rfl⟩

theorem recoverState_frame {H : Host} {pid : Nat}
    (hs : p.dropLast.dropLast = sessionsDirectory) (hst : IsState p)
    (h : recoverState H pid p d = .ok () d') (hq : ¬ Touches d p q) :
    d'.fs.get? q = d.fs.get? q := by
  have hne : p ≠ [] := by
    rintro rfl
    revert hs
    decide
  have hqp : q ≠ p := fun hx => hq ⟨hst, .inl hx⟩
  rcases recoverState_inv hne h with ⟨_, hsets⟩ | ⟨r, r', d₁, hr, hrun, hsets⟩
  · exact hsets.other hqp
  · rw [(hsets (sessions_ne_partials hs)).other hqp]
    exact recoverRecord_frame hrun fun hx => hq ⟨hst, .inr ⟨r, hr, hx⟩⟩

/-- One step of the scan of a directory. -/
theorem recoverAll_cons {H : Host} {pid : Nat} {ps : List Path}
    (h : recoverAll H pid (p :: ps) d = .ok () d') :
    ∃ d₁, recoverAll H pid ps d₁ = .ok () d' ∧
      (¬ IsState p ∧ d₁ = d ∨ IsState p ∧ recoverState H pid p d = .ok () d₁) := by
  simp only [recoverAll] at h
  by_cases hst : (p.getLast?.bind extension) = some (ascii "state")
  · rw [if_pos hst] at h
    obtain ⟨⟨⟩, d₁, hrun, h₁⟩ := bind_inv h
    exact ⟨d₁, h₁, .inr ⟨hst, hrun⟩⟩
  · rw [if_neg hst] at h
    exact ⟨d, h, .inl ⟨hst, rfl⟩⟩

/-- A file in the sessions is touched by its own recovery only. -/
theorem not_touches_session (hq : q.dropLast.dropLast = sessionsDirectory) (hne : q ≠ p) :
    ¬ Touches d p q := by
  rintro ⟨_, hx | ⟨r, _, hx⟩⟩
  · exact hne hx
  · exact sessions_ne_partials hq hx

theorem touches_congr (h : d'.fs.get? p = d.fs.get? p) : Touches d' p q ↔ Touches d p q := by
  simp only [Touches, h]

/-- A record file that has had no turn yet is as it was. -/
theorem recoverAll_cons_get {H : Host} {pid : Nat} {d₁ : Disk}
    (hs : p.dropLast.dropLast = sessionsDirectory)
    (hstep : ¬ IsState p ∧ d₁ = d ∨ IsState p ∧ recoverState H pid p d = .ok () d₁)
    (hq : ¬ Touches d p q) : d₁.fs.get? q = d.fs.get? q := by
  rcases hstep with ⟨_, rfl⟩ | ⟨hst, hrun⟩
  · rfl
  · exact recoverState_frame hs hst hrun hq

theorem recoverAll_frame {H : Host} {pid : Nat} : ∀ {ps : List Path} {d : Disk},
    (∀ p ∈ ps, p.dropLast.dropLast = sessionsDirectory) → ps.Nodup →
    recoverAll H pid ps d = .ok () d' → (∀ p ∈ ps, ¬ Touches d p q) →
    d'.fs.get? q = d.fs.get? q := by
  intro ps
  induction ps with
  | nil =>
      intro d _ _ h _
      obtain ⟨-, rfl⟩ := EStateM.Result.ok.inj h
      rfl
  | cons p ps ih =>
      intro d hs hnd h hq
      obtain ⟨hp, hnd'⟩ := List.nodup_cons.1 hnd
      obtain ⟨d₁, hrest, hstep⟩ := recoverAll_cons h
      have hget : ∀ x, ¬ Touches d p x → d₁.fs.get? x = d.fs.get? x := fun x =>
        recoverAll_cons_get (hs p (by simp)) hstep
      rw [ih (fun p' hp' => hs p' (by simp [hp'])) hnd' hrest fun p' hp' => ?_]
      · exact hget q (hq p (by simp))
      · rw [touches_congr]
        · exact hq p' (by simp [hp'])
        · exact hget p' (not_touches_session (hs p' (by simp [hp'])) fun hx => hp (hx ▸ hp'))

/-- On the way from `d` to `d'` the record `r` at `sp` was recovered, and
nothing else touched it or its partial file; what lies outside was as found. -/
def Recovered (H : Host) (r : StateRecord) (sp : Path) (d d' : Disk) : Prop :=
  ∃ d₀ d₁ r', recoverRecord H r d₀ = .ok r' d₁ ∧
    (∀ q, Outside q → d₀.fs.get? q = d.fs.get? q) ∧
    d₀.fs.get? r.partialPath = d.fs.get? r.partialPath ∧
    d'.fs.get? r.partialPath = d₁.fs.get? r.partialPath ∧
    d'.fs.get? sp = some (.file (encodeState r'))

theorem Recovered.congr {H : Host} {r : StateRecord} {sp : Path} {d₁ d₂ : Disk}
    (h : Recovered H r sp d₁ d₂) (h0 : ∀ q, Outside q → d₁.fs.get? q = d.fs.get? q)
    (h1 : d₁.fs.get? r.partialPath = d.fs.get? r.partialPath)
    (h2 : d'.fs.get? r.partialPath = d₂.fs.get? r.partialPath)
    (h3 : d'.fs.get? sp = d₂.fs.get? sp) : Recovered H r sp d d' := by
  obtain ⟨da, db, r', hrun, ho, ha, hb, hsp⟩ := h
  exact ⟨da, db, r', hrun, fun q hq => (ho q hq).trans (h0 q hq), ha.trans h1, h2.trans hb,
    h3.trans hsp⟩

theorem recoverAll_recovers {H : Host} {pid : Nat} {r : StateRecord} {sp : Path}
    (hst : IsState sp) : ∀ {ps : List Path} {d : Disk},
    (∀ p ∈ ps, p.dropLast.dropLast = sessionsDirectory) → ps.Nodup → sp ∈ ps →
    recordOf (d.fs.get? sp) = some r → (∀ p ∈ ps, p ≠ sp → ¬ Touches d p r.partialPath) →
    recoverAll H pid ps d = .ok () d' → Recovered H r sp d d' := by
  intro ps
  induction ps with
  | nil => intro d _ _ hmem; cases hmem
  | cons p ps ih =>
      intro d hs hnd hmem hrec hq h
      obtain ⟨hp, hnd'⟩ := List.nodup_cons.1 hnd
      obtain ⟨d₁, hrest, hstep⟩ := recoverAll_cons h
      have hs' : ∀ p' ∈ ps, p'.dropLast.dropLast = sessionsDirectory := fun p' hp' =>
        hs p' (by simp [hp'])
      have hget : ∀ x, ¬ Touches d p x → d₁.fs.get? x = d.fs.get? x := fun x =>
        recoverAll_cons_get (hs p (by simp)) hstep
      have hlater : ∀ p' ∈ ps, d₁.fs.get? p' = d.fs.get? p' := fun p' hp' =>
        hget p' (not_touches_session (hs' p' hp') fun hx => hp (hx ▸ hp'))
      by_cases hsp : p = sp
      · -- The turn of `sp`; the rest of the scan leaves it alone.
        subst hsp
        have hne : p ≠ [] := by
          rintro rfl
          have := hs [] (by simp)
          revert this
          decide
        have hpart : ∀ p' ∈ ps, ¬ Touches d₁ p' r.partialPath := by
          intro p' hp'
          rw [touches_congr (hlater p' hp')]
          exact hq p' (by simp [hp']) fun hx => hp (hx ▸ hp')
        have hself : ∀ p' ∈ ps, ¬ Touches d₁ p' p := by
          intro p' hp'
          exact not_touches_session (hs p (by simp)) fun hx => hp (hx ▸ hp')
        rcases hstep with ⟨hnot, _⟩ | ⟨_, hrun⟩
        · exact absurd hst hnot
        · rcases recoverState_inv hne hrun with ⟨hnone, _⟩ | ⟨r₀, r', d₀, hr₀, hrr, hsets⟩
          · rw [hrec] at hnone; cases hnone
          · rw [hrec] at hr₀
            obtain rfl := Option.some.inj hr₀
            have hpp : p ≠ r.partialPath := sessions_ne_partials (hs p (by simp))
            have hsets := hsets hpp
            refine ⟨d, d₀, r', hrr, fun _ _ => rfl, rfl, ?_, ?_⟩
            · rw [recoverAll_frame hs' hnd' hrest hpart, hsets.other (Ne.symm hpp)]
            · rw [recoverAll_frame hs' hnd' hrest hself, hsets.self]
      · have hmem' : sp ∈ ps := by
          rcases List.mem_cons.1 hmem with hx | hx
          · exact absurd hx.symm hsp
          · exact hx
        refine (ih hs' hnd' hmem' ?_ ?_ hrest).congr ?_ ?_ rfl rfl
        · rw [hlater sp hmem']; exact hrec
        · intro p' hp' hne
          rw [touches_congr (hlater p' hp')]
          exact hq p' (by simp [hp']) hne
        · exact fun q hout => hget q (not_touches_outside (hs p (by simp)) hout)
        · exact hget _ (hq p (by simp) hsp)

/-! ## All transfers -/

theorem recoverTransfers_cons {H : Host} {pid : Nat} {dir : Path} {dirs : List Path}
    (h : recoverTransfers H pid (dir :: dirs) d = .ok () d') :
    ∃ d₁, recoverTransfers H pid dirs d₁ = .ok () d' ∧
      (d.fs.get? dir = some .dir ∧ recoverAll H pid (d.fs.readDir dir) d = .ok () d₁ ∨
        d.fs.get? dir ≠ some .dir ∧ d₁ = d) := by
  simp only [recoverTransfers] at h
  rw [bind_ok (metadata_run dir d)] at h
  cases hdir : d.fs.get? dir with
  | none =>
      rw [hdir] at h
      exact ⟨d, h, .inr ⟨by simp, rfl⟩⟩
  | some n =>
      rw [hdir] at h
      cases n with
      | dir =>
          change (get >>= fun d => recoverAll H pid (d.fs.readDir dir) >>= fun _ =>
            recoverTransfers H pid dirs) d = _ at h
          rw [bind_ok (get_run d)] at h
          obtain ⟨⟨⟩, d₁, hrun, h₁⟩ := bind_inv h
          exact ⟨d₁, h₁, .inl ⟨rfl, hrun⟩⟩
      | file bytes => exact ⟨d, h, .inr ⟨by simp, rfl⟩⟩
      | symlink => exact ⟨d, h, .inr ⟨by simp, rfl⟩⟩

theorem readDir_sessions {dir : Path} (hdir : dir.dropLast = sessionsDirectory) :
    ∀ p ∈ d.fs.readDir dir, p.dropLast.dropLast = sessionsDirectory := by
  intro p hp
  rw [(Fs.mem_readDir.1 hp).2.1, hdir]

/-- The turn of one directory leaves alone what its files do not touch. -/
theorem recoverTransfers_cons_get {H : Host} {pid : Nat} {dir : Path} {d₁ : Disk}
    (hdir : dir.dropLast = sessionsDirectory)
    (hstep : d.fs.get? dir = some .dir ∧ recoverAll H pid (d.fs.readDir dir) d = .ok () d₁ ∨
      d.fs.get? dir ≠ some .dir ∧ d₁ = d)
    (hq : ∀ p, p.dropLast = dir → ¬ Touches d p q) : d₁.fs.get? q = d.fs.get? q := by
  rcases hstep with ⟨_, hrun⟩ | ⟨_, rfl⟩
  · exact recoverAll_frame (readDir_sessions hdir) (Fs.nodup_readDir _ _) hrun fun p hp =>
      hq p (Fs.mem_readDir.1 hp).2.1
  · rfl

theorem recoverTransfers_frame {H : Host} {pid : Nat} : ∀ {dirs : List Path} {d : Disk},
    (∀ dir ∈ dirs, dir.dropLast = sessionsDirectory) → dirs.Nodup →
    recoverTransfers H pid dirs d = .ok () d' →
    (∀ p, p.dropLast ∈ dirs → ¬ Touches d p q) → d'.fs.get? q = d.fs.get? q := by
  intro dirs
  induction dirs with
  | nil =>
      intro d _ _ h _
      obtain ⟨-, rfl⟩ := EStateM.Result.ok.inj h
      rfl
  | cons dir dirs ih =>
      intro d hs hnd h hq
      obtain ⟨hdir, hnd'⟩ := List.nodup_cons.1 hnd
      obtain ⟨d₁, hrest, hstep⟩ := recoverTransfers_cons h
      rw [ih (fun x hx => hs x (by simp [hx])) hnd' hrest fun p hp => ?_]
      · exact recoverTransfers_cons_get (hs dir (by simp)) hstep fun p hp =>
          hq p (by simp [hp])
      · rw [touches_congr]
        · exact hq p (by simp [hp])
        · refine recoverTransfers_cons_get (hs dir (by simp)) hstep fun p' hp' => ?_
          refine not_touches_session (hs _ (by simp [hp])) ?_
          rintro rfl
          exact hdir (hp' ▸ hp)

theorem recoverTransfers_recovers {H : Host} {pid : Nat} {r : StateRecord} {sp : Path}
    (hst : IsState sp) : ∀ {dirs : List Path} {d : Disk},
    (∀ dir ∈ dirs, dir.dropLast = sessionsDirectory) → dirs.Nodup → sp.dropLast ∈ dirs →
    d.fs.get? sp.dropLast = some .dir → recordOf (d.fs.get? sp) = some r →
    (∀ p, p.dropLast ∈ dirs → p ≠ sp → ¬ Touches d p r.partialPath) →
    recoverTransfers H pid dirs d = .ok () d' → Recovered H r sp d d' := by
  intro dirs
  induction dirs with
  | nil => intro d _ _ hmem; cases hmem
  | cons dir dirs ih =>
      intro d hs hnd hmem hparent hrec hq h
      obtain ⟨hdir, hnd'⟩ := List.nodup_cons.1 hnd
      obtain ⟨d₁, hrest, hstep⟩ := recoverTransfers_cons h
      have hds := hs dir (by simp)
      have hs' : ∀ x ∈ dirs, x.dropLast = sessionsDirectory := fun x hx => hs x (by simp [hx])
      have hsps : sp.dropLast.dropLast = sessionsDirectory := hs _ hmem
      have hget : ∀ x, x.dropLast.dropLast = sessionsDirectory → x.dropLast ≠ dir →
          d₁.fs.get? x = d.fs.get? x := fun x hx hne =>
        recoverTransfers_cons_get hds hstep fun p hp =>
          not_touches_session hx fun heq => hne (heq ▸ hp)
      by_cases hsp : sp.dropLast = dir
      · subst hsp
        rcases hstep with ⟨_, hrun⟩ | ⟨hnot, _⟩
        · have hin : sp ∈ d.fs.readDir sp.dropLast := by
            obtain ⟨n, hn⟩ := recordOf_isSome hrec
            refine Fs.mem_readDir.2 ⟨?_, rfl, by rw [hn]; rfl⟩
            rintro rfl
            revert hsps
            decide
          have hfirst := recoverAll_recovers hst (readDir_sessions hds) (Fs.nodup_readDir _ _)
            hin hrec (fun p hp hne => hq p (by simp [(Fs.mem_readDir.1 hp).2.1]) hne) hrun
          refine hfirst.congr (fun _ _ => rfl) rfl ?_ ?_
          · refine recoverTransfers_frame hs' hnd' hrest fun p hp => ?_
            have hps := hs' _ hp
            have hpne : p.dropLast ≠ sp.dropLast := fun hx => hdir (hx ▸ hp)
            rw [touches_congr (hget p hps hpne)]
            exact hq p (by simp [hp]) fun hx => hpne (by rw [hx])
          · refine recoverTransfers_frame hs' hnd' hrest fun p hp => ?_
            refine not_touches_session hsps ?_
            rintro rfl
            exact hdir hp
        · exact absurd hparent hnot
      · have hmem' : sp.dropLast ∈ dirs := by
          rcases List.mem_cons.1 hmem with hx | hx
          · exact absurd hx hsp
          · exact hx
        have hdirget : d₁.fs.get? sp.dropLast = d.fs.get? sp.dropLast := by
          refine recoverTransfers_cons_get hds hstep fun p hp => ?_
          rintro ⟨_, hx | ⟨r₀, _, hx⟩⟩
          · -- A transfer directory lies one level above the record files.
            have h1 : p.length = dir.length + 1 := by
              have := congrArg List.length hp
              have hpos : p ≠ [] := by
                rintro rfl
                rw [← hp] at hds
                revert hds
                decide
              have := List.length_pos_iff.2 hpos
              simp only [List.length_dropLast] at *
              omega
            have h2 := congrArg List.length hds
            have h3 := congrArg List.length hsps
            rw [hx] at h3
            simp only [List.length_dropLast] at h2 h3
            have : sessionsDirectory.length = 2 := by decide
            omega
          · have h3 := congrArg List.length hsps
            rw [hx] at h3
            have h4 : r₀.partialPath.length = 4 := by
              simp [StateRecord.partialPath, partialPath, partialDirectory, partialsDirectory,
                storageDirectory]
            simp only [List.length_dropLast, h4] at h3
            revert h3
            decide
        refine (ih hs' hnd' hmem' ?_ ?_ ?_ hrest).congr ?_ ?_ rfl rfl
        · rw [hdirget]; exact hparent
        · rw [hget sp hsps hsp]; exact hrec
        · intro p hp hne
          rw [touches_congr (hget p (hs' _ hp) fun hx => hdir (hx ▸ hp))]
          exact hq p (by simp [hp]) hne
        · refine fun q hout => recoverTransfers_cons_get hds hstep fun p hp => ?_
          exact not_touches_outside (by rw [hp, hds]) hout
        · refine recoverTransfers_cons_get hds hstep fun p hp => hq p (by simp [hp]) ?_
          rintro rfl
          exact hsp hp

/-- What every step keeps is kept. -/
theorem recoverAll_keeps {H : Host} {pid : Nat} {J : Disk → Prop}
    (hstep : ∀ {p d d'}, p.dropLast.dropLast = sessionsDirectory → IsState p →
      recoverState H pid p d = .ok () d' → J d → J d') : ∀ {ps : List Path} {d : Disk},
    (∀ p ∈ ps, p.dropLast.dropLast = sessionsDirectory) →
    recoverAll H pid ps d = .ok () d' → J d → J d' := by
  intro ps
  induction ps with
  | nil =>
      intro d _ h hJ
      obtain ⟨-, rfl⟩ := EStateM.Result.ok.inj h
      exact hJ
  | cons p ps ih =>
      intro d hs h hJ
      obtain ⟨d₁, hrest, ⟨_, rfl⟩ | ⟨hst, hrun⟩⟩ := recoverAll_cons h
      · exact ih (fun x hx => hs x (by simp [hx])) hrest hJ
      · exact ih (fun x hx => hs x (by simp [hx])) hrest (hstep (hs p (by simp)) hst hrun hJ)

theorem recoverTransfers_keeps {H : Host} {pid : Nat} {J : Disk → Prop}
    (hstep : ∀ {p d d'}, p.dropLast.dropLast = sessionsDirectory → IsState p →
      recoverState H pid p d = .ok () d' → J d → J d') : ∀ {dirs : List Path} {d : Disk},
    (∀ dir ∈ dirs, dir.dropLast = sessionsDirectory) →
    recoverTransfers H pid dirs d = .ok () d' → J d → J d' := by
  intro dirs
  induction dirs with
  | nil =>
      intro d _ h hJ
      obtain ⟨-, rfl⟩ := EStateM.Result.ok.inj h
      exact hJ
  | cons dir dirs ih =>
      intro d hs h hJ
      obtain ⟨d₁, hrest, ⟨_, hrun⟩ | ⟨_, rfl⟩⟩ := recoverTransfers_cons h
      · exact ih (fun x hx => hs x (by simp [hx])) hrest
          (recoverAll_keeps hstep (readDir_sessions (hs dir (by simp))) hrun hJ)
      · exact ih (fun x hx => hs x (by simp [hx])) hrest hJ

/-! ## Opening the storage -/

/-- What opening does before it recovers: at most it makes directories. -/
theorem ensureLayout_get (h : ensureLayout d = .ok () d') (p : Path) :
    d'.fs.get? p = d.fs.get? p ∨
      d.fs.get? p = none ∧ d'.fs.get? p = some .dir ∧ p.length ≤ 2 ∧ ¬ Outside p := by
  have hstep : ∀ {x : Path} {a b : Disk}, ensureDirectory x a = .ok () b →
      x.length ≤ 2 ∧ storageDirectory <+: x →
      b.fs.get? p = a.fs.get? p ∨
        a.fs.get? p = none ∧ b.fs.get? p = some .dir ∧ p.length ≤ 2 ∧ ¬ Outside p := by
    intro x a b hrun hx
    rcases ensureDirectory_inv hrun with ⟨_, rfl⟩ | ⟨hnone, hs⟩
    · exact .inl rfl
    · by_cases hp : p = x
      · subst hp
        exact .inr ⟨hnone, hs.self, hx.1, fun hout => hout hx.2⟩
      · exact .inl (hs.other hp)
  simp only [ensureLayout] at h
  obtain ⟨⟨⟩, d₁, h1, h⟩ := bind_inv h
  obtain ⟨⟨⟩, d₂, h2, h3⟩ := bind_inv h
  have e1 := hstep h1 (by decide)
  have e2 := hstep h2 (by decide)
  have e3 := hstep h3 (by decide)
  grind

/-- The record of the file `fileId` of the transfer `transferId` is `r`: it is
in the record file of that name, and in no other. -/
structure Persisted (fs : Fs) (transferId : TransferId) (fileId : FileId) (r : StateRecord) :
    Prop where
  record : recordOf (fs.get? (statePath transferId fileId)) = some r
  transfer_eq : r.registration.transferId = transferId
  file_eq : r.registration.fileId = fileId
  unique : ∀ p r', p.dropLast.dropLast = sessionsDirectory → IsState p →
    recordOf (fs.get? p) = some r' → r'.registration.transferId = transferId →
    r'.registration.fileId = fileId → p = statePath transferId fileId

theorem Id.toList_injective {a b : Id} (h : displayId a = displayId b) : a = b :=
  Vector.toList_inj.1 (hex_injective h)

theorem partialPath_inj {t t' : TransferId} {f f' : FileId}
    (h : partialPath t f = partialPath t' f') : t = t' ∧ f = f' := by
  simp only [partialPath, partialDirectory, List.append_assoc, List.cons_append, List.nil_append,
    List.append_cancel_left_eq, List.cons.injEq, and_true] at h
  exact ⟨Id.toList_injective h.1, Id.toList_injective (List.append_cancel_right h.2)⟩

theorem extension_state {x : Bytes} (hx : x ≠ []) :
    extension (x ++ ascii ".state") = some (ascii "state") := by
  have hrev : (x ++ ascii ".state").reverse = [101, 116, 97, 116, 115, 46] ++ x.reverse := by
    rw [List.reverse_append]
    rfl
  have hlen : (ascii ".state").length = 6 := by decide
  have hpos := List.length_pos_iff.2 hx
  have hidx : (x ++ ascii ".state").reverse.idxOf? 46 = some 5 := by
    rw [hrev]
    simp [List.idxOf?, List.findIdx?_cons]
  simp only [extension, hidx]
  rw [if_neg (by rw [List.length_append, hlen]; omega), List.length_append, hlen,
    List.drop_append, List.drop_eq_nil_of_le (by omega),
    show x.length + 6 - 5 - x.length = 1 by omega]
  rfl

theorem isState_statePath (t : TransferId) (f : FileId) : IsState (statePath t f) := by
  have hne : displayId f ≠ [] := by
    intro h
    have hnil : f.toList = [] := hex_injective (h.trans rfl)
    have hlen := congrArg List.length hnil
    simp at hlen
  simp only [IsState, statePath, List.getLast?_append, List.getLast?_singleton]
  exact extension_state hne

/-- Opening recovers the record of a file, whatever else there is. -/
theorem openStorage_recovers {H : Host} {pid : Nat} {t : TransferId} {f : FileId}
    {r : StateRecord} (hp : Persisted d.fs t f r)
    (h : openStorage H pid d = .ok () d') : Recovered H r (statePath t f) d d' := by
  simp only [openStorage] at h
  obtain ⟨⟨⟩, d₁, hlayout, h₁⟩ := bind_inv h
  have hget := ensureLayout_get hlayout
  have hlong : ∀ p : Path, 2 < p.length → d₁.fs.get? p = d.fs.get? p := by
    intro p hlen
    rcases hget p with hx | ⟨_, _, hle, _⟩
    · exact hx
    · omega
  simp only [recoverStates] at h₁
  rw [bind_ok (get_run d₁)] at h₁
  have hsp : (statePath t f).dropLast = sessionDirectory t := by simp [statePath]
  have hdd : (sessionDirectory t).dropLast = sessionsDirectory := by simp [sessionDirectory]
  have hlen : (statePath t f).length = 4 := by
    simp [statePath, sessionDirectory, sessionsDirectory, storageDirectory]
  have hrec : recordOf (d₁.fs.get? (statePath t f)) = some r := by
    rw [hlong _ (by omega)]
    exact hp.record
  have hparent : d₁.fs.get? (sessionDirectory t) = some .dir := by
    obtain ⟨n, hn⟩ := recordOf_isSome hrec
    exact Fs.parent_dir hn
  refine (recoverTransfers_recovers (isState_statePath t f)
    (fun dir hdir => (Fs.mem_readDir.1 hdir).2.1) (Fs.nodup_readDir _ _) ?_ ?_ hrec ?_ h₁).congr
    ?_ ?_ rfl rfl
  · rw [hsp]
    refine Fs.mem_readDir.2 ⟨by simp [sessionDirectory], hdd, by rw [hparent]; rfl⟩
  · rw [hsp]; exact hparent
  · rintro p hps hne ⟨hst, hx | ⟨r', hr', hx⟩⟩
    · exact sessions_ne_partials (Fs.mem_readDir.1 hps).2.1 hx.symm
    · have hpd := (Fs.mem_readDir.1 hps).2.1
      have hplen : 2 < p.length := by
        have := congrArg List.length hpd
        have h2 : sessionsDirectory.length = 2 := by decide
        simp only [List.length_dropLast] at this
        omega
      rw [hlong p hplen] at hr'
      obtain ⟨ht, hf⟩ := partialPath_inj hx
      exact hne (hp.unique p r' hpd hst hr' (ht.symm.trans hp.transfer_eq)
        (hf.symm.trans hp.file_eq))
  · intro q hq
    rcases hget q with hx | ⟨_, _, _, hnot⟩
    · exact hx
    · exact absurd hq hnot
  · refine hlong _ ?_
    simp [StateRecord.partialPath, partialPath, partialDirectory, partialsDirectory,
      storageDirectory]

theorem openStorage_keeps {H : Host} {pid : Nat} {J : Disk → Prop}
    (hstep : ∀ {p d d'}, p.dropLast.dropLast = sessionsDirectory → IsState p →
      recoverState H pid p d = .ok () d' → J d → J d')
    (hlayout : ∀ {d'}, ensureLayout d = .ok () d' → J d')
    (h : openStorage H pid d = .ok () d') : J d' := by
  simp only [openStorage] at h
  obtain ⟨⟨⟩, d₁, hlay, h₁⟩ := bind_inv h
  simp only [recoverStates] at h₁
  rw [bind_ok (get_run d₁)] at h₁
  exact recoverTransfers_keeps hstep (fun dir hdir => (Fs.mem_readDir.1 hdir).2.1) h₁
    (hlayout hlay)

/-- Opening leaves alone what is neither a record nor a partial file. -/
theorem openStorage_frame {H : Host} {pid : Nat} (h : openStorage H pid d = .ok () d')
    (hlayout : Outside q ∨ 2 < q.length)
    (hq : ∀ {d : Disk} {p : Path}, p.dropLast.dropLast = sessionsDirectory → ¬ Touches d p q) :
    d'.fs.get? q = d.fs.get? q := by
  refine openStorage_keeps (J := fun d' => d'.fs.get? q = d.fs.get? q) ?_ ?_ h
  · intro p d₁ d₂ hs hst hrun hJ
    rw [recoverState_frame hs hst hrun (hq hs), hJ]
  · intro d₁ hlay
    rcases ensureLayout_get hlay q with hx | ⟨_, _, hle, hnot⟩
    · exact hx
    · rcases hlayout with hy | hy
      · exact absurd hy hnot
      · omega

theorem openStorage_outside {H : Host} {pid : Nat} (h : openStorage H pid d = .ok () d')
    (hq : Outside q) : d'.fs.get? q = d.fs.get? q :=
  openStorage_frame h (.inl hq) fun hs => not_touches_outside hs hq

/-- A record that cannot be read does not come back. -/
theorem openStorage_unreadable {H : Host} {pid : Nat} {t : TransferId} {f : FileId}
    (hrec : recordOf (d.fs.get? (statePath t f)) = none)
    (h : openStorage H pid d = .ok () d') : recordOf (d'.fs.get? (statePath t f)) = none := by
  have hsp : (statePath t f).dropLast.dropLast = sessionsDirectory := by
    simp [statePath, sessionDirectory]
  refine openStorage_keeps (J := fun d' => recordOf (d'.fs.get? (statePath t f)) = none) ?_ ?_ h
  · intro p d₁ d₂ hs hst hrun hJ
    by_cases hp : p = statePath t f
    · subst hp
      rcases recoverState_inv (by simp [statePath]) hrun with ⟨_, hsets⟩ | ⟨r, _, _, hr, _⟩
      · rw [hsets.self]
        rfl
      · rw [hJ] at hr
        cases hr
    · rw [recoverState_frame hs hst hrun (not_touches_session hsp (Ne.symm hp)), hJ]
  · intro d₁ hlay
    rcases ensureLayout_get hlay (statePath t f) with hx | ⟨_, _, hle, _⟩
    · rw [hx, hrec]
    · simp [statePath, sessionDirectory, sessionsDirectory, storageDirectory] at hle

/-! ## No bytes are invented, or some are -/

/-- After recovery the partial file of a file holds a prefix of what was found,
as long as the recovered record says. -/
def PrefixRecovered (fs fs' : Fs) (t : TransferId) (f : FileId) : Prop :=
  ∃ r', recordOf (fs'.get? (statePath t f)) = some r' ∧
    contentOf (fs'.get? (partialPath t f)) <+: contentOf (fs.get? (partialPath t f)) ∧
    (contentOf (fs'.get? (partialPath t f))).length = r'.durableOffset

/-- The record is not ahead of the partial file it is about: that file is not
there at all, or holds the recorded offset, or the record is so wrong that it
is given up. -/
def NotAhead (fs : Fs) (r : StateRecord) : Prop :=
  fs.get? r.partialPath = none ∨ r.durableOffset > r.registration.size ∨
    r.durableOffset ≤ (contentOf (fs.get? r.partialPath)).length

theorem StateRecord.Valid.reset {r : StateRecord} (h : r.Valid) : r.reset.Valid :=
  ⟨h.path_text, h.path, h.size, h.modified, h.mode, by simp [StateRecord.reset],
    by simp [StateRecord.reset], h.installed⟩

theorem length_encodeString {text : Bytes} (h : GoodText text) :
    (encodeString text).length ≤ 4100 := by
  have := h.1
  simp only [encodeString, List.length_append, length_beBytes]
  unfold maxPathLen at this
  omega

theorem length_encodeOption {α : Type} {v : Option α} {n : Nat} (encode : α → Bytes)
    (h : ∀ a, v = some a → (encode a).length ≤ n) : (encodeOption encode v).length ≤ n + 1 := by
  cases v with
  | none => simp [encodeOption]
  | some a =>
      have := h a rfl
      simp only [encodeOption, List.length_cons]
      omega

theorem length_encodeState {r : StateRecord} (h : r.Valid) :
    (encodeState r).length ≤ maxStateSize := by
  have h1 := length_encodeString h.path_text
  have h2 : (encodeMetadata r.registration.metadata).length ≤ 14 := by
    have ha := length_encodeOption (n := 8) encodeI64
      (v := r.registration.metadata.modifiedTimeUnixSeconds) (by simp [encodeI64])
    have hb := length_encodeOption (n := 4) (beBytes 4)
      (v := r.registration.metadata.mode) (by simp)
    simp only [encodeMetadata, List.length_append]
    omega
  have h3 := length_encodeOption (n := 4100) encodeString
    (v := r.installedRelativePath) fun p hp => length_encodeString (h.installed p hp).1
  have hm : stateMagic.length = 8 := by decide
  simp only [encodeState, encodeDigest, List.length_append, List.length_cons, length_beBytes,
    Vector.length_toList, hm, maxStateSize]
  omega

/-- A record the storage wrote is there to be read. -/
theorem recordOf_encodeState {r : StateRecord} (h : r.Valid) :
    recordOf (some (.file (encodeState r))) = some r := by
  simp only [recordOf]
  rw [if_neg (Nat.not_lt.2 (length_encodeState h)), readStateBytes_encodeState h]
  rfl

theorem recordOf_valid {n : Option Node} {r : StateRecord} (h : recordOf n = some r) :
    r.Valid := by
  unfold recordOf at h
  split at h
  · next bytes =>
      split at h
      · cases h
      · cases hb : readStateBytes bytes with
        | error e => rw [hb] at h; cases h
        | ok r' =>
            rw [hb] at h
            obtain rfl := Option.some.inj h
            exact readStateBytes_valid hb
  · cases h

theorem setLen_prefix_iff {bytes : Bytes} {n : Nat} :
    setLen bytes n <+: bytes ↔ n ≤ bytes.length := by
  constructor
  · intro h
    have := h.length_le
    rwa [length_setLen] at this
  · intro h
    simp only [setLen, Nat.sub_eq_zero_of_le h, List.replicate_zero, List.append_nil]
    exact List.take_prefix _ _

/-- For a file in progress, however its partial file was found: if the storage
opens, recovery invents no bytes exactly if the record is not ahead of the
partial file. -/
theorem openStorage_prefix_iff {H : Host} {pid : Nat} {t : TransferId} {f : FileId}
    {r : StateRecord} (hp : Persisted d.fs t f r) (hr : r.complete = false)
    (h : openStorage H pid d = .ok () d') :
    PrefixRecovered d.fs d'.fs t f ↔ NotAhead d.fs r := by
  obtain ⟨d₀, d₁, r', hrun, -, h0, h1, hsp⟩ := openStorage_recovers hp h
  have hrec := recoverRecord_inv hr hrun
  have hpp : partialPath t f = r.partialPath := by
    simp [StateRecord.partialPath, hp.transfer_eq, hp.file_eq]
  have hvalid : r'.Valid := by
    have hv := recordOf_valid hp.record
    rcases hrec.record with rfl | rfl
    · exact hv
    · exact hv.reset
  have hread : recordOf (d'.fs.get? (statePath t f)) = some r' := by
    rw [hsp]
    exact recordOf_encodeState hvalid
  unfold PrefixRecovered NotAhead
  rw [hpp, h1, ← h0]
  cases hfound : d₀.fs.get? r.partialPath with
  | none =>
      obtain ⟨hnone, hzero⟩ := hrec.missing hfound
      refine ⟨fun _ => .inl rfl, fun _ => ⟨r', hread, ?_⟩⟩
      rw [hnone]
      exact ⟨List.prefix_refl _, by simp [contentOf, hzero]⟩
  | some n =>
      obtain ⟨bytes, rfl⟩ := hrec.regular n hfound
      obtain ⟨hafter, hoff⟩ := hrec.found bytes hfound
      rw [hafter]
      simp only [contentOf, length_setLen, setLen_prefix_iff]
      constructor
      · rintro ⟨r'', hr'', hle, hlen⟩
        rw [hread] at hr''
        obtain rfl := Option.some.inj hr''
        by_cases hbig : r.durableOffset > r.registration.size
        · exact .inr (.inl hbig)
        · rw [if_neg hbig] at hoff
          exact .inr (.inr (hoff ▸ hle))
      · rintro (hx | hbig | hle)
        · cases hx
        · rw [if_pos hbig] at hoff
          exact ⟨r', hread, by omega, rfl⟩
        · refine ⟨r', hread, ?_, rfl⟩
          split at hoff <;> omega

/-! ## A partial file cut short by a crash -/

section Sample

def sampleId : Id := Vector.replicate 16 0

/-- BLAKE3 of the bytes 7 and 8 and, if it is none of these, of the byte 7 alone. -/
def sampleBlake3 (bytes : Bytes) : Vector UInt8 32 :=
  let hash := beBytes 32 <|
    if bytes = [7, 8] then 0xd241b5ab32d2206564b51c8ec05944f6af6d7622c2f607f34c0622223a2b3cd7
    else 0x448bd8dd9624154a690f8e84dc52d6f633ba7cd545c4d3c9b4e0f6a2f6fa71f4
  .ofFn fun i => hash.getD i 0

def sampleHash : Digest := ⟨.blake3, sampleBlake3 [7, 8]⟩

/-- Two bytes were recorded as safe. -/
def sampleRecord : StateRecord :=
  ⟨⟨sampleId, sampleId, ascii "a", 2, sampleHash, ⟨none, none⟩⟩, 2, 1,
    zeroDigest .blake3, false, none⟩

/-- The storage of one file in progress with the given partial file. -/
def sampleNodes (content : Bytes) : List (Path × Node) :=
  [(partialPath sampleId sampleId, .file content),
    (statePath sampleId sampleId, .file (encodeState sampleRecord)),
    (partialDirectory sampleId, .dir), (sessionDirectory sampleId, .dir),
    (partialsDirectory, .dir), (sessionsDirectory, .dir), (storageDirectory, .dir)]

/-- A name has at most 255 bytes, and a file its owner may not read is not opened. -/
def sampleHost : Host where
  digest := fun _ => sampleBlake3
  syncAll := true
  fits := fun path => path.all (·.length ≤ 255)
  applyMetadata := fun _ => none
  opens := fun metadata => metadata.mode.all (· &&& 0o400 != 0)

theorem sample_record :
    recordOf (some (.file (encodeState sampleRecord))) = some sampleRecord := by
  decide +kernel

theorem sample_persisted {content : Bytes} {fs : Fs} (h : Fs.ofList (sampleNodes content) = some fs)
    (hs : fs.get? (statePath sampleId sampleId) = some (.file (encodeState sampleRecord))) :
    Persisted fs sampleId sampleId sampleRecord := by
  refine ⟨by rw [hs]; exact sample_record, rfl, rfl, fun p r' hp hst hrec _ _ => ?_⟩
  obtain ⟨n, hn⟩ := recordOf_isSome hrec
  have hne : p ≠ [] := by
    rintro rfl
    revert hp
    decide
  have hmem := (Fs.mem_of_get?_ofList h hn).resolve_left hne
  rw [hn] at hrec
  simp only [sampleNodes, List.mem_cons, Prod.mk.injEq, List.not_mem_nil, or_false] at hmem
  rcases hmem with ⟨rfl, _⟩ | ⟨rfl, _⟩ | ⟨_, rfl⟩ | ⟨_, rfl⟩ | ⟨_, rfl⟩ | ⟨_, rfl⟩ | ⟨_, rfl⟩
  · exact absurd rfl (sessions_ne_partials (r := sampleRecord) hp)
  · rfl
  all_goals cases hrec

/-- What opening makes of the sample's partial file. -/
def sampleRun (content : Bytes) : Option (Option Node) :=
  match Fs.ofList (sampleNodes content) with
  | none => none
  | some fs =>
      match openStorage sampleHost 7 (.boot fs) with
      | .ok _ d => some (d.fs.get? (partialPath sampleId sampleId))
      | .error _ _ => none

theorem sample_opens (content after : Bytes) (h : sampleRun content = some (some (.file after))) :
    ∃ fs d', Fs.ofList (sampleNodes content) = some fs ∧
      openStorage sampleHost 7 (.boot fs) = .ok () d' ∧
      d'.fs.get? (partialPath sampleId sampleId) = some (.file after) := by
  unfold sampleRun at h
  split at h
  · cases h
  · next fs hfs =>
      split at h
      · next d' hrun => exact ⟨fs, d', hfs, hrun, Option.some.inj h⟩
      · cases h

theorem sample_get {content : Bytes} {fs : Fs} (h : Fs.ofList (sampleNodes content) = some fs) :
    fs.get? (partialPath sampleId sampleId) = some (.file content) ∧
      fs.get? (statePath sampleId sampleId) = some (.file (encodeState sampleRecord)) := by
  simp only [sampleNodes, Fs.ofList] at h
  obtain ⟨fs₁, h₁, hput⟩ := Option.bind_eq_some_iff.1 h
  obtain ⟨fs₂, h₂, hput₂⟩ := Option.bind_eq_some_iff.1 h₁
  constructor
  · rw [(Fs.put?_eq_some hput).2, if_pos rfl]
  · rw [(Fs.put?_eq_some hput).2, if_neg, (Fs.put?_eq_some hput₂).2, if_pos rfl]
    decide +kernel

/-- One byte of two was found after a crash; recovery makes up the other. -/
theorem recovery_invents_a_byte :
    ¬ ∀ (H : Host) (pid : Nat) (d d' : Disk) (t : TransferId) (f : FileId) (r : StateRecord),
      Persisted d.fs t f r → r.complete = false → openStorage H pid d = .ok () d' →
      PrefixRecovered d.fs d'.fs t f := by
  intro hall
  obtain ⟨fs, d', hfs, hrun, hafter⟩ :=
    sample_opens [7] [7, 0] (by decide +kernel)
  obtain ⟨hbefore, hstate⟩ := sample_get hfs
  obtain ⟨r', _, hpre, _⟩ :=
    hall sampleHost 7 (.boot fs) d' _ _ _ (sample_persisted hfs hstate) rfl hrun
  rw [hafter, show (Disk.boot fs).fs = fs from rfl, hbefore] at hpre
  revert hpre
  decide

/-- Three bytes were found, one more than recorded: the last is cut off. -/
theorem openStorage_prefix_iff_longer :
    ∃ fs d', Fs.ofList (sampleNodes [7, 8, 9]) = some fs ∧
      openStorage sampleHost 7 (.boot fs) = .ok () d' ∧
      d'.fs.get? (partialPath sampleId sampleId) = some (.file [7, 8]) ∧
      (PrefixRecovered fs d'.fs sampleId sampleId ↔ NotAhead fs sampleRecord) := by
  obtain ⟨fs, d', hfs, hrun, hafter⟩ :=
    sample_opens [7, 8, 9] [7, 8] (by decide +kernel)
  obtain ⟨_, hstate⟩ := sample_get hfs
  exact ⟨fs, d', hfs, hrun, hafter,
    openStorage_prefix_iff (d := .boot fs) (sample_persisted hfs hstate) rfl hrun⟩

end Sample

end DartUdp.Storage
