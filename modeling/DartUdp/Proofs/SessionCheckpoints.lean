import DartUdp.Proofs.SessionSchedule

/-!
# Checkpoints move on

The checkpoint of a file comes from local checkpoints, from those of the peer, from its
answers to resume queries and from the storage. All of these compare the identifier, and
all but one compare the durable offset as well: `handle_resume_state` takes a later
checkpoint of the peer even if less of the file is durable by it. Along a run checkpoints
therefore move on exactly if no such answer comes.

The module is for `keeps_checkpoints_iff_no_regress`. `perform_moves` is the one
direction; for the other `handleResumeState_takes` says what such an answer does and
`not_advances_of_regresses` that it is a step back.
-/

namespace DartUdp.Session

open DartUdp.Lib DartUdp.Transfer

variable {s s' s'' : TransferSession} {id : TransferId} {m : Manifest} {config : SessionConfig}

/-- The checkpoints of all files have moved on or stayed. -/
def Advances (s s' : TransferSession) : Prop :=
  ∀ (fileId : FileId) (f : FileRuntime), s.files[fileId]? = some f →
    ∃ g, s'.files[fileId]? = some g ∧ Ordered f g

theorem Advances.refl (s : TransferSession) : Advances s s := fun _ f hf => ⟨f, hf, .refl f⟩

theorem Advances.trans (h : Advances s s') (h' : Advances s' s'') : Advances s s'' := by
  intro fileId f hf
  obtain ⟨g, hg, hfg⟩ := h fileId f hf
  obtain ⟨k, hk, hgk⟩ := h' fileId g hg
  exact ⟨k, hk, hfg.trans hgk⟩

/-- Between any two states of the run, the checkpoints have moved on or stayed. -/
def KeepsCheckpoints (s : TransferSession) (ops : List Op) : Prop :=
  ∀ earlier between later, ops = earlier ++ between ++ later →
    Advances (final s earlier) (final s (earlier ++ between))

/-! ## An answer that is taken -/

theorem handleResumeState_takes {fileId : FileId} {answer : DurableState}
    (h : FallsBack s fileId answer) :
    ∃ g, (after (handleResumeState fileId answer) s).files[fileId]? = some g ∧
      g.durableOffset = answer.durableOffset := by
  obtain ⟨hrole, hst, f, hf, hc, hle, hid, -⟩ := h
  refine Ends.after (P := fun s' : TransferSession => ∃ g : FileRuntime,
    s'.files[fileId]? = some g ∧ g.durableOffset = answer.durableOffset) ?_
  simp only [handleResumeState, ends_steps, ends_calls]
  refine ⟨fun _ => ⟨fun hnot => absurd hst hnot, fun _ => ⟨fun f' hf' => ?_, fun hnone => ?_⟩⟩,
    fun hnot => absurd hrole hnot⟩
  · obtain rfl := Option.some.inj (hf'.symm.trans hf)
    refine ⟨fun _ => ⟨fun hc' => ?_, fun _ => ⟨fun hck => by omega, fun _ =>
      ⟨fun hsame => by omega, fun _ => ?_⟩⟩⟩, fun hnot => absurd hle hnot⟩
    · rw [hc] at hc'
      cases hc'
    · have hput : (s.files.insert fileId { f' with
          durableOffset := answer.durableOffset
          checkpointId := answer.checkpointId
          stateHash := answer.stateHash })[fileId]? = some { f' with
            durableOffset := answer.durableOffset
            checkpointId := answer.checkpointId
            stateHash := answer.stateHash } := Std.TreeMap.getElem?_insert_self
      exact Ends.mono startPendingFiles_launches (fun _ _ h => h.durable hput)
        fun _ _ h => h.durable hput
  · rw [hf] at hnone
    cases hnone

/-- A call that takes a checkpoint back does not advance. -/
theorem not_advances_of_regresses {op : Op} (h : Regresses s op) :
    ¬ Advances s (take s op).after := by
  have hfalls : ∀ {fileId : FileId} {answer : DurableState}, FallsBack s fileId answer →
      ¬ Advances s (after (handleResumeState fileId answer) s) := by
    intro fileId answer h hadvances
    obtain ⟨g, hg, hdurable⟩ := handleResumeState_takes h
    obtain ⟨-, -, f, hf, -, -, -, hback⟩ := h
    obtain ⟨g', hg', hordered⟩ := hadvances fileId f hf
    obtain rfl := Option.some.inj (hg'.symm.trans hg)
    have hle := hordered.durable
    omega
  cases op with
  | handleControl message =>
      cases message with
      | resumeState => exact hfalls h
      | _ => exact h.elim
  | handleControlWithFlags message errorFlag =>
      cases message with
      | resumeState =>
          obtain ⟨rfl, h⟩ := h
          exact hfalls h
      | _ => exact h.elim
  | _ => exact h.elim

/-! ## Along runs -/

theorem advances_run
    (hs : (∃ m, newOfferer id m config = .ok s) ∨ newAccepter id config = .ok s)
    (earlier between : List Op)
    (h : ∀ t ∈ history s (earlier ++ between), ¬ Regresses t.before t.op) :
    Advances (final s earlier) (final s (earlier ++ between)) := by
  induction between using List.reverseRecOn with
  | nil =>
      rw [List.append_nil]
      exact .refl _
  | append_singleton between op ih =>
      rw [← List.append_assoc] at h ⊢
      rw [history_snoc] at h
      refine (ih fun t ht => h t (List.mem_append_left _ ht)).trans fun fileId f hf => ?_
      obtain ⟨g, hg, hordered⟩ := (moves_run hs (earlier ++ between) op).ordered fileId f hf
      have hstep := h _ (List.mem_append_right _ List.mem_cons_self)
      exact ⟨g, hg, hordered.resolve_right hstep⟩

/-- **Checkpoints.** Along a run the identifier and the durable offset of a file never go
back, and one identifier never comes with two offsets, exactly if `handle_resume_state`
never takes a later checkpoint by which less of the file is durable. -/
theorem keeps_checkpoints_iff_no_regress
    (hs : (∃ m, newOfferer id m config = .ok s) ∨ newAccepter id config = .ok s) (ops : List Op) :
    KeepsCheckpoints s ops ↔ ∀ t ∈ history s ops, ¬ Regresses t.before t.op := by
  constructor
  · intro hkeeps t ht hregresses
    obtain ⟨before, behind, hsplit⟩ := List.append_of_mem ht
    obtain ⟨ops₁, op, ops₂, rfl, -, rfl⟩ := history_split hsplit
    refine not_advances_of_regresses hregresses ?_
    have hadvances := hkeeps ops₁ [op] ops₂ (by rw [List.append_assoc, List.singleton_append])
    rwa [final_snoc] at hadvances
  · rintro h earlier between later rfl
    refine advances_run hs earlier between fun t ht => h t ?_
    rw [history_append]
    exact List.mem_append_left _ ht

/-! ## A later checkpoint with less behind it -/

/-- The peer says that all three bytes are durable by its first checkpoint, and none of them
by its second. -/
def sampleRegress : List Op :=
  [.start, .handleControl (.receiveDecision true .ask []),
    .handleControl (.resumeState sampleId 3 1 ⟨.sha256, .replicate 32 0⟩),
    .handleControl (.resumeState sampleId 0 2 ⟨.sha256, .replicate 32 0⟩)]

theorem checkpoint_goes_back :
    ¬ ∀ (id : TransferId) (m : Manifest) (config : SessionConfig) (s : TransferSession)
      (ops : List Op), newOfferer id m config = .ok s → KeepsCheckpoints s ops := by
  intro hall
  have hbefore : ((final sampleSender (sampleRegress.take 3)).files[sampleId]?).map
      (·.durableOffset) = some 3 := by decide +kernel
  have hafter : ((final sampleSender sampleRegress).files[sampleId]?).map (·.durableOffset) =
      some 0 := by decide +kernel
  obtain ⟨f, hf, hdurable⟩ := Option.map_eq_some_iff.1 hbefore
  obtain ⟨g, hg, hordered⟩ := hall sampleId sampleManifest {} sampleSender sampleRegress rfl
    (sampleRegress.take 3) (sampleRegress.drop 3) [] rfl sampleId f hf
  change (final sampleSender sampleRegress).files[sampleId]? = some g at hg
  rw [hg] at hafter
  have hzero : g.durableOffset = 0 := Option.some.inj hafter
  have hle := hordered.durable
  omega

theorem keeps_checkpoints_iff_no_regress_restarted :
    newOfferer sampleId sampleManifest {} = .ok sampleSender ∧
      (KeepsCheckpoints sampleSender sampleRestarted ↔
        ∀ t ∈ history sampleSender sampleRestarted, ¬ Regresses t.before t.op) := by
  have hnew : newOfferer sampleId sampleManifest {} = .ok sampleSender := rfl
  exact ⟨hnew, keeps_checkpoints_iff_no_regress (.inl ⟨sampleManifest, hnew⟩) sampleRestarted⟩

end DartUdp.Session
