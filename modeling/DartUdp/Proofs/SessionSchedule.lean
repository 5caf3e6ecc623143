import DartUdp.Proofs.SessionMoves
import DartUdp.Proofs.SessionRedelivery

/-!
# Files are started on streams of their own

No more files are active at a time than the configuration allows, and an offerer hands
out its streams in order, so a stream never comes up twice in a run. The loop that starts
the waiting files takes one of them in each turn, whether or not it starts it: their
number is what runs out, and not the room. A file that is active or complete is passed
over, and the stream that was meant for it is lost.

The module is for `files_are_scheduled`. `room_run`, `apart_run` and
`startedOnce_run` are its bounds along a run, and `startPendingLoop_enough` with
`startPendingLoop_exits` is the end of the loop.
-/

namespace DartUdp.Session

open DartUdp.Lib DartUdp.Transfer

variable {s s' s'' : TransferSession} {id : TransferId} {m : Manifest} {config : SessionConfig}

/-! ## Along runs -/

/-- How a step of a run moves the session. -/
theorem moves_run (hs : (∃ m, newOfferer id m config = .ok s) ∨ newAccepter id config = .ok s)
    (ops : List Op) (op : Op) :
    Moves op.announces (Regresses (final s ops) op) (final s ops) (final s (ops ++ [op])) := by
  rw [final_append]
  refine (perform_moves (fun hrole => ?_) op).after
  rcases hs with ⟨m, hs⟩ | hs
  · exact absurd ((offering_run hs ops).role.symm.trans hrole) nofun
  · exact ⟨id, accepting_run hs ops⟩

/-- No file of a session is active when it is created. -/
theorem created_idle (hs : (∃ m, newOfferer id m config = .ok s) ∨ newAccepter id config = .ok s)
    {fileId : FileId} {f : FileRuntime} (hf : s.files[fileId]? = some f) :
    f.activeStreamId = none := by
  rcases hs with ⟨m, hs⟩ | hs
  · obtain ⟨-, rfl⟩ := newOfferer_ok hs
    obtain ⟨e, -, -, rfl⟩ := Manifest.runtimes_get.1 hf
    rfl
  · obtain ⟨-, rfl⟩ := newAccepter_ok hs
    cases Std.TreeMap.getElem?_emptyc.symm.trans hf

theorem room_run (hs : (∃ m, newOfferer id m config = .ok s) ∨ newAccepter id config = .ok s)
    (ops : List Op) : (final s ops).activeFileCount ≤ (final s ops).config.maxParallelFiles := by
  induction ops using List.reverseRecOn with
  | nil =>
      show s.activeFileCount ≤ s.config.maxParallelFiles
      rw [activeFileCount_idle fun _ _ hf => created_idle hs hf]
      exact Nat.zero_le _
  | append_singleton ops op ih => exact (moves_run hs ops op).room ih

theorem apart_run (hs : newOfferer id m config = .ok s) (ops : List Op) : Apart (final s ops) := by
  induction ops using List.reverseRecOn with
  | nil =>
      have hnone : ∀ fileId streamId, ¬ ActiveOn s fileId streamId := by
        rintro fileId streamId ⟨f, hf, hactive⟩
        rw [created_idle (.inl ⟨m, hs⟩) hf] at hactive
        cases hactive
      exact ⟨fun _ _ h => absurd h (hnone _ _), fun _ _ _ h => absurd h (hnone _ _)⟩
  | append_singleton ops op ih =>
      exact (moves_run (.inl ⟨m, hs⟩) ops op).apart (offering_run hs ops).role ih

/-- The step gives the file the stream. -/
def Taken.starts (t : Taken) (fileId : FileId) (streamId : Nat) : Prop :=
  ActiveOn t.after fileId streamId ∧ ¬ ActiveOn t.before fileId streamId

/-- No stream is given out twice, neither by two steps nor by one to two files. -/
structure StartedOnce (steps : List Taken) : Prop where
  later : steps.Pairwise fun (t u : Taken) => ∀ fileId fileId' streamId,
    t.starts fileId streamId → ¬ u.starts fileId' streamId
  files : ∀ t ∈ steps, ∀ fileId fileId' streamId,
    t.starts fileId streamId → t.starts fileId' streamId → fileId = fileId'

theorem history_snoc (s : TransferSession) (ops : List Op) (op : Op) :
    history s (ops ++ [op]) = history s ops ++ [take (final s ops) op] := history_append ..

theorem final_snoc (s : TransferSession) (ops : List Op) (op : Op) :
    final s (ops ++ [op]) = (take (final s ops) op).after := final_append ..

/-- A step gives out streams from the next one on. -/
theorem starts_range (hs : newOfferer id m config = .ok s) (ops : List Op) (op : Op)
    {fileId : FileId} {streamId : Nat}
    (h : (take (final s ops) op).starts fileId streamId) :
    (final s ops).nextStreamId ≤ streamId ∧ streamId < (final s (ops ++ [op])).nextStreamId := by
  have hmoves := moves_run (.inl ⟨m, hs⟩) ops op
  rw [final_snoc] at hmoves ⊢
  exact (hmoves.fresh (offering_run hs ops).role _ _ h.1).resolve_left h.2

theorem started_below (hs : newOfferer id m config = .ok s) (ops : List Op) :
    ∀ t ∈ history s ops, ∀ fileId streamId, t.starts fileId streamId →
      streamId < (final s ops).nextStreamId := by
  induction ops using List.reverseRecOn with
  | nil => exact fun _ ht => absurd ht List.not_mem_nil
  | append_singleton ops op ih =>
      intro t ht fileId streamId hstarts
      rw [history_snoc] at ht
      rcases List.mem_append.1 ht with ht | ht
      · have hnext := (moves_run (.inl ⟨m, hs⟩) ops op).next
        have hbelow := ih t ht fileId streamId hstarts
        omega
      · obtain rfl := List.mem_singleton.1 ht
        exact (starts_range hs ops op hstarts).2

theorem startedOnce_run (hs : newOfferer id m config = .ok s) (ops : List Op) :
    StartedOnce (history s ops) := by
  induction ops using List.reverseRecOn with
  | nil => exact ⟨.nil, fun _ ht => absurd ht List.not_mem_nil⟩
  | append_singleton ops op ih =>
      rw [history_snoc]
      refine ⟨List.pairwise_append.2 ⟨ih.later, List.pairwise_singleton .., ?_⟩, ?_⟩
      · intro t ht u hu fileId fileId' streamId hstarts hstarts'
        obtain rfl := List.mem_singleton.1 hu
        have hbelow := started_below hs ops t ht fileId streamId hstarts
        have hrange := starts_range hs ops op hstarts'
        omega
      · intro t ht fileId fileId' streamId hstarts hstarts'
        rcases List.mem_append.1 ht with ht | ht
        · exact ih.files t ht fileId fileId' streamId hstarts hstarts'
        · obtain rfl := List.mem_singleton.1 ht
          have hapart := apart_run hs (ops ++ [op])
          rw [final_snoc] at hapart
          exact hapart.one _ _ _ hstarts.1 hstarts'.1

/-! ## The loop over the waiting files -/

/-- The file and the stream a `FileBegin` is about. -/
def OutboundMessage.begun : OutboundMessage → Option (FileId × Nat)
  | .transfer (.fileBegin fileId streamId _ _ _) => some (fileId, streamId)
  | _ => none

/-- The file as `start_file` leaves it. -/
def FileRuntime.started (f : FileRuntime) (streamId : Nat) : FileRuntime :=
  { f with
    activeStreamId := some streamId
    baseOffset := f.durableOffset
    sendOffset := 0
    finQueued := f.entry.size = f.durableOffset }

/-- The files of the list have been started on their streams, each once and none that was
active or complete, and nothing else has happened to files. -/
structure Launched (s s' : TransferSession) (begun : List (FileId × Nat)) : Prop where
  once : (begun.map Prod.fst).Nodup
  queued : ∃ messages, s'.controls = s.controls ++ messages ∧
    messages.map OutboundMessage.begun = begun.map some
  started : ∀ entry ∈ begun, ∃ f, s.files[entry.1]? = some f ∧ f.activeStreamId = none ∧
    f.complete = false ∧ s'.files[entry.1]? = some (f.started entry.2)
  others : ∀ fileId ∉ begun.map Prod.fst, s'.files[fileId]? = s.files[fileId]?

def Launches (s s' : TransferSession) : Prop := ∃ begun, Launched s s' begun

theorem Launched.append {begun begun' : List (FileId × Nat)} (h : Launched s s' begun)
    (h' : Launched s' s'' begun') : Launched s s'' (begun ++ begun') := by
  -- what has been started is active, and so not started again
  have hfresh : ∀ entry ∈ begun', entry.1 ∉ begun.map Prod.fst := by
    intro entry hentry hmem
    obtain ⟨first, hfirst, heq⟩ := List.mem_map.1 hmem
    obtain ⟨f, -, -, -, hf⟩ := h.started first hfirst
    obtain ⟨g, hg, hidle, -⟩ := h'.started entry hentry
    rw [heq] at hf
    obtain rfl := Option.some.inj (hf.symm.trans hg)
    cases hidle
  refine ⟨?_, ?_, fun entry hentry => ?_, fun fileId hnot => ?_⟩
  · rw [List.map_append]
    refine List.nodup_append.2 ⟨h.once, h'.once, fun a ha b hb heq => ?_⟩
    obtain ⟨entry, hentry, rfl⟩ := List.mem_map.1 hb
    exact hfresh entry hentry (heq ▸ ha)
  · obtain ⟨messages, hqueue, hmessages⟩ := h.queued
    obtain ⟨messages', hqueue', hmessages'⟩ := h'.queued
    refine ⟨messages ++ messages', ?_, ?_⟩
    · rw [hqueue', hqueue, List.append_assoc]
    · rw [List.map_append, List.map_append, hmessages, hmessages']
  · rcases List.mem_append.1 hentry with hentry | hentry
    · obtain ⟨f, hf, hidle, hc, hstarted⟩ := h.started entry hentry
      refine ⟨f, hf, hidle, hc, ?_⟩
      rw [h'.others _ fun hmem => ?_, hstarted]
      obtain ⟨second, hsecond, heq⟩ := List.mem_map.1 hmem
      exact hfresh second hsecond (heq ▸ List.mem_map_of_mem hentry)
    · obtain ⟨f, hf, hstarted⟩ := h'.started entry hentry
      exact ⟨f, by rw [← h.others _ (hfresh entry hentry), hf], hstarted⟩
  · rw [List.map_append, List.mem_append, not_or] at hnot
    rw [h'.others _ hnot.2, h.others _ hnot.1]

instance : IsTrans TransferSession Launches where
  trans _ _ _ h h' := by
    obtain ⟨begun, h⟩ := h
    obtain ⟨begun', h'⟩ := h'
    exact ⟨_, h.append h'⟩

/-- Starting files keeps their checkpoints. -/
theorem Launches.durable (h : Launches s s') {fileId : FileId} {f : FileRuntime}
    (hf : s.files[fileId]? = some f) :
    ∃ g, s'.files[fileId]? = some g ∧ g.durableOffset = f.durableOffset := by
  obtain ⟨begun, h⟩ := h
  by_cases hmem : fileId ∈ begun.map Prod.fst
  · obtain ⟨entry, hentry, rfl⟩ := List.mem_map.1 hmem
    obtain ⟨f', hf', -, -, hstarted⟩ := h.started entry hentry
    obtain rfl := Option.some.inj (hf'.symm.trans hf)
    exact ⟨_, hstarted, rfl⟩
  · exact ⟨f, by rw [h.others fileId hmem, hf], rfl⟩

/-- Nothing is started where the files and the queue stay. -/
theorem Launches.rest (hfiles : s'.files = s.files) (hcontrols : s'.controls = s.controls) :
    Launches s s' := by
  refine ⟨[], List.nodup_nil, ⟨[], by rw [hcontrols, List.append_nil], rfl⟩,
    fun _ h => absurd h List.not_mem_nil, fun _ _ => ?_⟩
  rw [hfiles]

instance : Std.Refl Launches where
  refl _ := .rest rfl rfl

theorem startFile_launches (fileId : FileId) : Within Launches (startFile fileId) s := by
  simp only [Within, startFile, allocateStreamId, ends_bind, ends_get]
  split
  · next next hnext =>
      simp only [ends_steps, ends_calls]
      refine ⟨fun f hf => ⟨fun _ => .rest rfl rfl, fun hidle => ?_⟩, fun _ => .rest rfl rfl⟩
      rw [not_or, Option.not_isSome_iff_eq_none, Bool.not_eq_true] at hidle
      refine ⟨[(fileId, s.nextStreamId)], List.nodup_singleton _, ⟨_, rfl, rfl⟩,
        fun entry hentry => ?_, fun fileId' hnot => ?_⟩
      · obtain rfl := List.mem_singleton.1 hentry
        exact ⟨f, hf, hidle.1, hidle.2, Std.TreeMap.getElem?_insert_self⟩
      · have hne : fileId ≠ fileId' := fun heq => hnot (List.mem_singleton.2 heq.symm)
        exact get_insert.trans (if_neg hne)
  · exact .rest rfl rfl

theorem startPendingLoop_launches (fuel : Nat) : Within Launches (startPendingLoop fuel) s := by
  induction fuel generalizing s with
  | zero => exact .pure _
  | succ fuel ih =>
      unfold startPendingLoop
      refine Within.get_bind (.ite (fun _ => .pure _) fun _ => ?_)
      cases s.pendingResumes.keys.head? with
      | none => exact .pure _
      | some fileId =>
          have herase : Launches s { s with pendingResumes := s.pendingResumes.erase fileId } :=
            .rest rfl rfl
          refine Within.bind (m := set _) herase fun _ s₁ => ?_
          exact Within.bind (startFile_launches fileId) fun _ _ => Within.bind ih fun _ _ => .pure _

theorem startPendingFiles_launches : Within Launches startPendingFiles s := by
  unfold startPendingFiles
  refine Within.get_bind (Within.bind (startPendingLoop_launches _) fun events s₁ => ?_)
  refine Within.get_bind (.ite (fun _ => ?_) fun _ => .pure _)
  refine Within.bind (m := changeState _) ?_ fun _ _ => .pure _
  rw [Within, ends_changeState]
  exact .rest rfl rfl

/-- Any fuel from the number of the waiting files on gives the same. -/
theorem startPendingLoop_enough {fuel : Nat} (h : s.pendingResumes.size ≤ fuel) :
    startPendingLoop fuel s = startPendingLoop s.pendingResumes.size s := by
  induction fuel, h using Nat.le_induction with
  | base => rfl
  | succ fuel hle ih => exact (startPendingLoop_fuel hle).trans ih

/-- The loop ends because there is no room, or because no file is waiting. -/
theorem startPendingLoop_exits {fuel : Nat} (h : s.pendingResumes.size ≤ fuel) :
    Ends (startPendingLoop fuel) s
      (fun _ s' => ¬ s'.activeFileCount < s'.config.maxParallelFiles ∨ s'.pendingResumes.size = 0)
      fun _ _ => True := by
  induction fuel generalizing s with
  | zero => exact .inr (Nat.le_zero.1 h)
  | succ fuel ih =>
      simp only [startPendingLoop, ends_steps]
      refine ⟨fun hfull => .inl hfull, fun _ => ?_⟩
      split
      · next hnone =>
          refine .inr ?_
          rw [List.head?_eq_none_iff] at hnone
          rw [← Std.TreeMap.length_keys, hnone, List.length_nil]
      · next fileId hsome =>
          have hmem := Std.TreeMap.mem_keys.1 (List.mem_of_mem_head? hsome)
          have hsize := Std.TreeMap.size_erase (t := s.pendingResumes) (k := fileId)
          rw [if_pos (Std.TreeMap.contains_iff_mem.2 hmem)] at hsize
          simp only [ends_bind, ends_set]
          refine (startFile_pending fileId).mono (fun _ s₁ hsame => ?_) fun _ _ _ => trivial
          have hle : s₁.pendingResumes.size ≤ fuel := by
            rw [hsame]
            show (s.pendingResumes.erase fileId).size ≤ fuel
            omega
          exact (ih hle).mono (fun _ _ h => h) fun _ _ h => h

/-- **File scheduling.** Along every run no more files are active than the configuration
allows. At the offerer each of them has a stream of its own, below the next one, and no
stream is given out twice in a run. From every state the loop over the waiting files ends,
with no room or no file left, and what it starts was neither active nor complete. -/
theorem files_are_scheduled
    (hs : (∃ m, newOfferer id m config = .ok s) ∨ newAccepter id config = .ok s) (ops : List Op) :
    (final s ops).activeFileCount ≤ (final s ops).config.maxParallelFiles ∧
      (s.role = .offerer → Apart (final s ops) ∧ StartedOnce (history s ops)) ∧
      ∀ t : TransferSession,
        (∀ fuel, t.pendingResumes.size ≤ fuel →
          startPendingLoop fuel t = startPendingLoop t.pendingResumes.size t) ∧
        Ends (startPendingLoop t.pendingResumes.size) t
          (fun _ t' => ¬ t'.activeFileCount < t'.config.maxParallelFiles ∨
            t'.pendingResumes.size = 0)
          (fun _ _ => True) ∧
        Within Launches startPendingFiles t := by
  refine ⟨room_run hs ops, fun hrole => ?_, fun t => ⟨fun fuel hle => ?_, ?_, ?_⟩⟩
  · rcases hs with ⟨m, hs⟩ | hs
    · exact ⟨apart_run hs ops, startedOnce_run hs ops⟩
    · obtain ⟨-, rfl⟩ := newAccepter_ok hs
      cases hrole
  · exact startPendingLoop_enough hle
  · exact startPendingLoop_exits (Nat.le_refl _)
  · exact startPendingFiles_launches

/-- The file of the sample offer is started, and after a new connection once more. -/
def sampleRestarted : List Op :=
  [.start, .handleControl (.receiveDecision true .ask []),
    .handleControl (.resumeState sampleId 0 0 ⟨.sha256, .replicate 32 0⟩), .reconnect,
    .handleControl (.resumeState sampleId 0 0 ⟨.sha256, .replicate 32 0⟩)]

theorem files_are_scheduled_restarted :
    (final sampleSender sampleRestarted).activeFileCount = 1 ∧
      (final sampleSender sampleRestarted).nextStreamId = 3 ∧
      Apart (final sampleSender sampleRestarted) ∧
      StartedOnce (history sampleSender sampleRestarted) := by
  have hnew : newOfferer sampleId sampleManifest {} = .ok sampleSender := rfl
  refine ⟨by decide +kernel, by decide +kernel, ?_⟩
  exact (files_are_scheduled (.inl ⟨sampleManifest, hnew⟩) sampleRestarted).2.1 rfl

end DartUdp.Session
