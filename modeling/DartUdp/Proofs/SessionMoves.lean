import DartUdp.Lib.MapSum
import DartUdp.Proofs.SessionTracks

/-!
# What a call does to streams and checkpoints

Three bounds hold along every run: on the files that are active at once, on the
streams a file may be given, and on the checkpoint of a file. None of them is about a
whole session, so a call is described by how each of them can have moved, which is a
preorder: it is enough to look at the single edits. Most write no file at all. Of the
others only one may take a checkpoint back, under the condition `R`; and a message that
says that the transfer is complete is queued only by calls for which `Q` is said.
`perform_moves` puts the edits of a call together.
-/

namespace DartUdp.Session

open DartUdp.Lib DartUdp.Transfer

variable {Q R : Prop} {op : Op} {t s s' s'' : TransferSession}

/-! ## Checkpoints, streams and active files -/

/-- The checkpoint of a file has moved on or stayed. -/
structure Ordered (f g : FileRuntime) : Prop where
  checkpoint : f.checkpointId ≤ g.checkpointId
  durable : f.durableOffset ≤ g.durableOffset
  same : f.checkpointId = g.checkpointId → f.durableOffset = g.durableOffset

theorem Ordered.refl (f : FileRuntime) : Ordered f f := ⟨Nat.le_refl _, Nat.le_refl _, fun _ => rfl⟩

theorem Ordered.of_eq {f g : FileRuntime} (hid : g.checkpointId = f.checkpointId)
    (hdurable : g.durableOffset = f.durableOffset) : Ordered f g :=
  ⟨hid.ge, hdurable.ge, fun _ => hdurable.symm⟩

theorem Ordered.trans {f g h : FileRuntime} (hfg : Ordered f g) (hgh : Ordered g h) :
    Ordered f h := by
  have h₁ := hfg.checkpoint
  have h₂ := hgh.checkpoint
  refine ⟨by omega, Nat.le_trans hfg.durable hgh.durable, fun heq => ?_⟩
  exact (hfg.same (by omega)).trans (hgh.same (by omega))

theorem Ordered.of_not_stale {f : FileRuntime} {durableOffset checkpointId : Nat}
    (h : ¬ f.staleCheckpoint durableOffset checkpointId) {g : FileRuntime}
    (hid : g.checkpointId = checkpointId) (hdurable : g.durableOffset = durableOffset) :
    Ordered f g := by
  unfold FileRuntime.staleCheckpoint at h
  subst hid hdurable
  exact ⟨by omega, by omega, fun _ => by omega⟩

/-- The file takes in, or sends, on the stream. -/
def ActiveOn (s : TransferSession) (id : FileId) (streamId : Nat) : Prop :=
  ∃ f, s.files[id]? = some f ∧ f.activeStreamId = some streamId

/-- Every stream in use has been handed out, and to one file only. -/
structure Apart (s : TransferSession) : Prop where
  below : ∀ id streamId, ActiveOn s id streamId → streamId < s.nextStreamId
  one : ∀ id id' streamId, ActiveOn s id streamId → ActiveOn s id' streamId → id = id'

/-- The message says that the transfer is complete. -/
def OutboundMessage.completes : OutboundMessage → Bool
  | .transfer (.transferComplete ..) => true
  | _ => false

/-- How a call may move a session. -/
structure Moves (Q R : Prop) (s s' : TransferSession) : Prop where
  role : s'.role = s.role
  config : s'.config = s.config
  next : s.nextStreamId ≤ s'.nextStreamId
  quiet : ∀ message ∈ s'.controls, message.completes = true → message ∈ s.controls ∨ Q
  ordered : ∀ (id : FileId) (f : FileRuntime), s.files[id]? = some f →
    ∃ g, s'.files[id]? = some g ∧ (Ordered f g ∨ R)
  room : s.activeFileCount ≤ s.config.maxParallelFiles →
    s'.activeFileCount ≤ s'.config.maxParallelFiles
  fresh : s.role = .offerer → ∀ id streamId, ActiveOn s' id streamId →
    ActiveOn s id streamId ∨ s.nextStreamId ≤ streamId ∧ streamId < s'.nextStreamId
  apart : s.role = .offerer → Apart s → Apart s'

theorem Moves.trans (h : Moves Q R s s') (h' : Moves Q R s' s'') : Moves Q R s s'' := by
  refine ⟨h'.role.trans h.role, h'.config.trans h.config, Nat.le_trans h.next h'.next,
    fun message hm hc => ?_, fun id f hf => ?_, fun hroom => h'.room (h.room hroom),
    fun hrole id streamId hactive => ?_, fun hrole hapart => ?_⟩
  · rcases h'.quiet message hm hc with hm | hq
    · exact h.quiet message hm hc
    · exact .inr hq
  · obtain ⟨g, hg, hfg⟩ := h.ordered id f hf
    obtain ⟨k, hk, hgk⟩ := h'.ordered id g hg
    refine ⟨k, hk, ?_⟩
    rcases hfg with hfg | hr
    · exact hgk.imp_left hfg.trans
    · exact .inr hr
  · have hnext := h.next
    have hnext' := h'.next
    rcases h'.fresh (h.role.trans hrole) id streamId hactive with hactive | ⟨hlow, hhigh⟩
    · rcases h.fresh hrole id streamId hactive with hactive | ⟨hlow, hhigh⟩
      · exact .inl hactive
      · exact .inr ⟨hlow, by omega⟩
    · exact .inr ⟨by omega, hhigh⟩
  · exact h'.apart (h.role.trans hrole) (h.apart hrole hapart)

instance : IsTrans TransferSession (Moves Q R) where
  trans _ _ _ := Moves.trans

/-! ## The single writes -/

/-- A write to anything but the files. -/
theorem Moves.rest (hfiles : s'.files = s.files) (hnext : s'.nextStreamId = s.nextStreamId)
    (hrole : s'.role = s.role) (hconfig : s'.config = s.config)
    (hquiet : ∀ message ∈ s'.controls, message.completes = true → message ∈ s.controls ∨ Q) :
    Moves Q R s s' := by
  have hactive : ∀ id streamId, ActiveOn s' id streamId ↔ ActiveOn s id streamId := by
    intro id streamId
    rw [ActiveOn, ActiveOn, hfiles]
  refine ⟨hrole, hconfig, hnext.ge, hquiet, fun id f hf => ?_, fun hroom => ?_,
    fun _ id streamId h => .inl ((hactive _ _).1 h), fun _ hapart => ⟨?_, ?_⟩⟩
  · exact ⟨f, by rw [hfiles, hf], .inl (.refl f)⟩
  · rw [hconfig]
    unfold TransferSession.activeFileCount at hroom ⊢
    rwa [hfiles]
  · intro id streamId h
    rw [hnext]
    exact hapart.below _ _ ((hactive _ _).1 h)
  · intro id id' streamId h h'
    exact hapart.one _ _ _ ((hactive _ _).1 h) ((hactive _ _).1 h')

theorem Moves.refl (s : TransferSession) : Moves Q R s s :=
  .rest rfl rfl rfl rfl fun _ hm _ => .inl hm

instance : Std.Refl (Moves Q R) where
  refl := Moves.refl

theorem activeFileCount_eq (s : TransferSession) : s.activeFileCount =
    mapSum s.files fun f => if f.activeStreamId.isSome then 1 else 0 := by
  unfold TransferSession.activeFileCount mapSum
  induction s.files.toList with
  | nil => rfl
  | cons entry rest ih =>
      rw [List.countP_cons, List.map_cons, List.sum_cons, ih, Nat.add_comm]

/-- How the number of active files changes with one file. -/
theorem activeFileCount_insert {id : FileId} {f g : FileRuntime} (hf : s.files[id]? = some f)
    (hfiles : s'.files = s.files.insert id g) :
    s'.activeFileCount + (if f.activeStreamId.isSome then 1 else 0) =
      s.activeFileCount + if g.activeStreamId.isSome then 1 else 0 := by
  rw [activeFileCount_eq, activeFileCount_eq, hfiles]
  exact mapSum_insert_of_get g _ hf

theorem get_insert {files : Std.TreeMap FileId FileRuntime} {id id' : FileId} {g : FileRuntime} :
    (files.insert id g)[id']? = if id = id' then some g else files[id']? := by
  rw [Std.TreeMap.getElem?_insert]
  by_cases hid : id = id'
  · rw [if_pos hid, if_pos (Std.compare_eq_iff_eq.2 hid)]
  · rw [if_neg hid, if_neg (by rwa [Std.compare_eq_iff_eq])]

theorem activeOn_insert {id id' : FileId} {streamId : Nat} {g : FileRuntime}
    (hfiles : s'.files = s.files.insert id g) (h : ActiveOn s' id' streamId) :
    (id' = id ∧ g.activeStreamId = some streamId) ∨ ActiveOn s id' streamId := by
  obtain ⟨f', hf', hactive⟩ := h
  rw [hfiles, get_insert] at hf'
  split at hf'
  · next heq =>
      obtain rfl := Option.some.inj hf'
      exact .inl ⟨heq.symm, hactive⟩
  · exact .inr ⟨f', hf', hactive⟩

theorem ordered_insert {id : FileId} {f g : FileRuntime} (hf : s.files[id]? = some f)
    (hfiles : s'.files = s.files.insert id g) (hg : Ordered f g ∨ R) (id' : FileId)
    (f' : FileRuntime) (hf' : s.files[id']? = some f') :
    ∃ g', s'.files[id']? = some g' ∧ (Ordered f' g' ∨ R) := by
  rw [hfiles, get_insert]
  by_cases hid : id = id'
  · subst hid
    obtain rfl := Option.some.inj (hf.symm.trans hf')
    exact ⟨g, if_pos rfl, hg⟩
  · exact ⟨f', by rw [if_neg hid, hf'], .inl (.refl f')⟩

/-- A file is written that stays on its stream or leaves it. -/
theorem Moves.put {id : FileId} {f g : FileRuntime} (hf : s.files[id]? = some f)
    (hstream : g.activeStreamId = f.activeStreamId ∨ g.activeStreamId = none)
    (hordered : Ordered f g ∨ R) (hfiles : s'.files = s.files.insert id g)
    (hnext : s'.nextStreamId = s.nextStreamId) (hrole : s'.role = s.role)
    (hconfig : s'.config = s.config)
    (hquiet : ∀ message ∈ s'.controls, message.completes = true → message ∈ s.controls ∨ Q) :
    Moves Q R s s' := by
  have hactive : ∀ id' streamId, ActiveOn s' id' streamId → ActiveOn s id' streamId := by
    intro id' streamId h
    rcases activeOn_insert hfiles h with ⟨rfl, hg⟩ | h
    · rcases hstream with hsame | hnone
      · exact ⟨f, hf, hsame ▸ hg⟩
      · rw [hnone] at hg
        cases hg
    · exact h
  refine ⟨hrole, hconfig, hnext.ge, hquiet, ordered_insert hf hfiles hordered, fun hroom => ?_,
    fun _ id' streamId h => .inl (hactive _ _ h), fun _ hapart => ⟨?_, ?_⟩⟩
  · have hcount := activeFileCount_insert hf hfiles
    have hle : (if g.activeStreamId.isSome then 1 else 0) ≤
        if f.activeStreamId.isSome then 1 else 0 := by
      rcases hstream with hsame | hnone
      · rw [hsame]
      · rw [hnone]
        exact Nat.zero_le _
    rw [hconfig]
    omega
  · intro id' streamId h
    rw [hnext]
    exact hapart.below _ _ (hactive _ _ h)
  · intro id₁ id₂ streamId h₁ h₂
    exact hapart.one _ _ _ (hactive _ _ h₁) (hactive _ _ h₂)

/-- A file that was not active is given the next stream. -/
theorem Moves.start {id : FileId} {f g : FileRuntime} (hf : s.files[id]? = some f)
    (hidle : f.activeStreamId = none) (hroom : s.activeFileCount < s.config.maxParallelFiles)
    (hstream : g.activeStreamId = some s.nextStreamId) (hordered : Ordered f g)
    (hfiles : s'.files = s.files.insert id g) (hnext : s'.nextStreamId = s.nextStreamId + 1)
    (hrole : s'.role = s.role) (hconfig : s'.config = s.config)
    (hquiet : ∀ message ∈ s'.controls, message.completes = true → message ∈ s.controls ∨ Q) :
    Moves Q R s s' := by
  have hactive : ∀ id' streamId, ActiveOn s' id' streamId →
      (id' = id ∧ streamId = s.nextStreamId) ∨ ActiveOn s id' streamId := by
    intro id' streamId h
    refine (activeOn_insert hfiles h).imp_left fun hnew => ⟨hnew.1, ?_⟩
    rw [hstream] at hnew
    exact (Option.some.inj hnew.2).symm
  refine ⟨hrole, hconfig, by omega, hquiet, ordered_insert hf hfiles (.inl hordered),
    fun _ => ?_, fun _ id' streamId h => ?_, fun _ hapart => ⟨?_, ?_⟩⟩
  · have hcount := activeFileCount_insert hf hfiles
    rw [hidle, hstream] at hcount
    simp only [Option.isSome_none, Option.isSome_some, Bool.false_eq_true, if_false, if_true]
      at hcount
    rw [hconfig]
    omega
  · rcases hactive _ _ h with ⟨-, rfl⟩ | h
    · exact .inr ⟨Nat.le_refl _, by omega⟩
    · exact .inl h
  · intro id' streamId h
    rcases hactive _ _ h with ⟨-, rfl⟩ | h
    · omega
    · have := hapart.below _ _ h
      omega
  · intro id₁ id₂ streamId h₁ h₂
    rcases hactive _ _ h₁ with ⟨rfl, rfl⟩ | h₁
    · rcases hactive _ _ h₂ with ⟨rfl, -⟩ | h₂
      · rfl
      · exact absurd (hapart.below _ _ h₂) (Nat.lt_irrefl _)
    · rcases hactive _ _ h₂ with ⟨-, rfl⟩ | h₂
      · exact absurd (hapart.below _ _ h₁) (Nat.lt_irrefl _)
      · exact hapart.one _ _ _ h₁ h₂

/-- A file that was not active is begun at the accepter. -/
theorem Moves.begin {id : FileId} {f g : FileRuntime} (hf : s.files[id]? = some f)
    (hacc : s.role = .accepter) (hidle : f.activeStreamId = none)
    (hroom : s.activeFileCount < s.config.maxParallelFiles) (hordered : Ordered f g)
    (hfiles : s'.files = s.files.insert id g) (hnext : s'.nextStreamId = s.nextStreamId)
    (hrole : s'.role = s.role) (hconfig : s'.config = s.config)
    (hquiet : ∀ message ∈ s'.controls, message.completes = true → message ∈ s.controls ∨ Q) :
    Moves Q R s s' := by
  have hnot : s.role ≠ .offerer := by
    rw [hacc]
    decide
  refine ⟨hrole, hconfig, hnext.ge, hquiet, ordered_insert hf hfiles (.inl hordered),
    fun _ => ?_, fun h => absurd h hnot, fun h => absurd h hnot⟩
  have hcount := activeFileCount_insert hf hfiles
  rw [hidle] at hcount
  simp only [Option.isSome_none, Bool.false_eq_true, if_false] at hcount
  have hle : (if g.activeStreamId.isSome then 1 else 0) ≤ 1 := by
    split
    · exact Nat.le_refl _
    · exact Nat.zero_le _
  rw [hconfig]
  omega

theorem restart_stream (role : SessionRole) (f : FileRuntime) :
    (f.restart role).activeStreamId = f.activeStreamId ∨
      (f.restart role).activeStreamId = none := by
  unfold FileRuntime.restart
  split
  · exact .inl rfl
  · exact .inr rfl

theorem restart_ordered (role : SessionRole) (f : FileRuntime) : Ordered f (f.restart role) := by
  unfold FileRuntime.restart
  split
  · exact .refl f
  · exact .of_eq rfl rfl

/-- The files are taken off their streams. -/
theorem Moves.restart (hfiles : s'.files = s.files.map fun _ (f : FileRuntime) => f.restart s.role)
    (hnext : s'.nextStreamId = s.nextStreamId) (hrole : s'.role = s.role)
    (hconfig : s'.config = s.config)
    (hquiet : ∀ message ∈ s'.controls, message.completes = true → message ∈ s.controls ∨ Q) :
    Moves Q R s s' := by
  have hget : ∀ id : FileId, s'.files[id]? = (s.files[id]?).map (·.restart s.role) := by
    intro id
    rw [hfiles]
    exact Std.TreeMap.getElem?_map
  have hactive : ∀ id streamId, ActiveOn s' id streamId → ActiveOn s id streamId := by
    rintro id streamId ⟨g, hg, hstream⟩
    rw [hget] at hg
    obtain ⟨f, hf, rfl⟩ := Option.map_eq_some_iff.1 hg
    rcases restart_stream s.role f with hsame | hnone
    · exact ⟨f, hf, hsame ▸ hstream⟩
    · rw [hnone] at hstream
      cases hstream
  refine ⟨hrole, hconfig, hnext.ge, hquiet, fun id f hf => ?_, fun hroom => ?_,
    fun _ id streamId h => .inl (hactive _ _ h), fun _ hapart => ⟨?_, ?_⟩⟩
  · exact ⟨f.restart s.role, by rw [hget, hf]; rfl, .inl (restart_ordered _ _)⟩
  · rw [hconfig]
    refine Nat.le_trans ?_ hroom
    unfold TransferSession.activeFileCount
    rw [hfiles, Std.TreeMap.toList_map, List.countP_map]
    refine List.countP_mono_left fun entry _ h => ?_
    rcases restart_stream s.role entry.2 with hsame | hnone
    · rw [← hsame]
      exact h
    · have hsome : (entry.2.restart s.role).activeStreamId.isSome = true := h
      rw [hnone] at hsome
      cases hsome
  · intro id streamId h
    rw [hnext]
    exact hapart.below _ _ (hactive _ _ h)
  · intro id₁ id₂ streamId h₁ h₂
    exact hapart.one _ _ _ (hactive _ _ h₁) (hactive _ _ h₂)

/-- A manifest is installed where no file was known. -/
theorem Moves.install {m : Manifest} (hblank : ∀ id : FileId, s.files[id]? = none)
    (hacc : s.role = .accepter) (hfiles : s'.files = m.runtimes)
    (hnext : s'.nextStreamId = s.nextStreamId) (hrole : s'.role = s.role)
    (hconfig : s'.config = s.config)
    (hquiet : ∀ message ∈ s'.controls, message.completes = true → message ∈ s.controls ∨ Q) :
    Moves Q R s s' := by
  have hnot : s.role ≠ .offerer := by
    rw [hacc]
    decide
  refine ⟨hrole, hconfig, hnext.ge, hquiet, fun id f hf => ?_, fun _ => ?_,
    fun h => absurd h hnot, fun h => absurd h hnot⟩
  · rw [hblank id] at hf
    cases hf
  · rw [activeFileCount_idle fun id f hf => ?_]
    · exact Nat.zero_le _
    · rw [hfiles] at hf
      obtain ⟨e, -, -, rfl⟩ := Manifest.runtimes_get.1 hf
      rfl

/-- What was in the queue. -/
theorem quiet_keep : ∀ message ∈ s.controls, message.completes = true →
    message ∈ s.controls ∨ Q := fun _ hm _ => .inl hm

/-- An id that was handed out for nothing is gone. -/
theorem Moves.allocate : Moves Q R s { s with nextStreamId := s.nextStreamId + 1 } := by
  refine ⟨rfl, rfl, Nat.le_succ _, fun _ hm _ => .inl hm, fun id f hf => ⟨f, hf, .inl (.refl f)⟩,
    fun hroom => hroom, fun _ id streamId h => .inl h, fun _ hapart => ⟨?_, hapart.one⟩⟩
  intro id streamId h
  have := hapart.below id streamId h
  show streamId < s.nextStreamId + 1
  omega

/-! ## All the calls -/

theorem says_announces {message : OutboundMessage} (h : Says op s message)
    (hc : message.completes = true) : op.announces = true := by
  cases message with
  | pairing => cases hc
  | transfer control =>
      cases control with
      | transferComplete => exact h
      | _ => cases hc

theorem Edit.moves (h : Edit op t s s') (ha : s.role = .accepter → ∃ id, Accepting id s) :
    Moves op.announces (Regresses t op) s s' := by
  cases h with
  | controls c hc =>
      exact .rest rfl rfl rfl rfl fun message hm hcompletes =>
        (hc message hm).imp_right fun hsays => says_announces hsays hcompletes
  | data | path | activity | pending | decision | state | turn | start | hello | assemble | extend
  | discard | acceptEmpty | finish => exact .rest rfl rfl rfl rfl quiet_keep
  | streamId => exact .allocate
  | install a hrole hassembly =>
      obtain ⟨id, ha⟩ := ha hrole
      exact .install (ha.blank (ha.assembling a hassembly).2).1 hrole rfl rfl rfl rfl quiet_keep
  | write hf hw =>
      cases hw with
      | kept durableOffset checkpointId stateHash _ hback =>
          refine .put hf (.inl ?_) (hback.imp_left fun hfresh => .of_not_stale hfresh ?_ ?_)
            rfl rfl rfl rfl quiet_keep
          all_goals rfl
      | received | cut =>
          refine .put hf (.inl ?_) (.inl (.of_eq ?_ ?_)) rfl rfl rfl rfl quiet_keep
          all_goals rfl
      | taken hrole _ _ _ hidle hroom =>
          refine .begin hf hrole hidle hroom (.of_eq ?_ ?_) rfl rfl rfl rfl quiet_keep
          all_goals rfl
      | began _ _ hidle hroom =>
          refine .start hf hidle hroom ?_ (.of_eq ?_ ?_) rfl rfl rfl rfl fun message hm hc => ?_
          iterate 3 rfl
          refine (List.mem_append.1 hm).imp_right fun hnew => ?_
          rw [List.mem_singleton.1 hnew] at hc
          cases hc
  | complete id f hf =>
      refine .put hf (.inr ?_) (.inl (.of_eq ?_ ?_)) rfl rfl rfl rfl quiet_keep
      all_goals rfl
  | restart => exact .restart rfl rfl rfl rfl quiet_keep

theorem Edits.moves (h : Edits op t s s') (ha : s.role = .accepter → ∃ id, Accepting id s) :
    Moves op.announces (Regresses t op) s s' := by
  induction h with
  | refl => exact .refl s
  | tail hpre hstep ih =>
      refine ih.trans (hstep.moves fun hrole => ?_)
      obtain ⟨id, ha⟩ := ha ((Edits.role_eq hpre).symm.trans hrole)
      exact ⟨id, Edits.accepting hpre ha⟩

/-- Every call moves the session this way. -/
theorem perform_moves (ha : s.role = .accepter → ∃ id, Accepting id s) (op : Op) :
    Within (Moves op.announces (Regresses s op)) (perform op) s :=
  Ends.mono (perform_does op) (fun _ _ h => Edits.moves h ha) fun _ _ h => Edits.moves h ha

end DartUdp.Session
