import DartUdp.Lib.Replays
import DartUdp.Proofs.SessionConsent
import DartUdp.Session.Stream

/-!
# Chunks arrive as they were cut

The offerer counts what it has sent from the base of the file, the accepter
where it is in the file. Chunk by chunk the two stay together, whatever the
cuts are and however often a chunk comes again.

The module is for `chunks_faithful`. `queueAll_sends` is what is queued for the
pieces, `handleData_next` and `handleData_before` are a chunk that is new and one
that is not, and `deliver_faithful` is the sequence.
-/

namespace DartUdp.Session

open DartUdp.Lib DartUdp.Transfer

variable {s : TransferSession} {id : FileId} {sid : Nat} {f : FileRuntime}

/-! ## The offerer -/

/-- The chunks of the pieces, from an offset on. -/
def chunksAt (id : FileId) (sid : Nat) : Nat → List (Bytes × Bool) → List DataChunk
  | _, [] => []
  | offset, (bytes, fin) :: rest =>
      ⟨id, sid, offset, bytes, fin⟩ :: chunksAt id sid (offset + bytes.length) rest

/-- An offerer in the middle of a file. -/
structure Sending (id : FileId) (sid base size offset : Nat) (s : TransferSession) : Prop where
  role : s.role = .offerer
  file : ∃ f, s.files[id]? = some f ∧ f.activeStreamId = some sid ∧ f.baseOffset = base ∧
    f.entry.size = size ∧ f.sendOffset = offset ∧ f.finQueued = false

theorem queueData_sends {base size offset : Nat} (h : Sending id sid base size offset s)
    {bytes : Bytes} {fin : Bool} (hle : base + offset + bytes.length ≤ size)
    (hfin : fin = true → base + offset + bytes.length = size) (hrange : size ≤ u64Max) :
    Ends (queueData id bytes fin) s
      (fun chunk s' => chunk = ⟨id, sid, offset, bytes, fin⟩ ∧
        (fin = false → Sending id sid base size (offset + bytes.length) s'))
      fun _ _ => False := by
  obtain ⟨f, hf, hactive, rfl, rfl, rfl, hqueued⟩ := h.file
  have hadd : checkedAdd f.sendOffset bytes.length = some (f.sendOffset + bytes.length) :=
    checkedAdd_eq_some.2 ⟨by omega, rfl⟩
  simp only [queueData, ends_bind, ends_calls]
  refine ⟨fun _ => ⟨fun f' hf' => ?_, fun hnone => ?_⟩, fun hne => hne h.role⟩
  · obtain rfl := Option.some.inj (hf.symm.trans hf')
    simp only [hactive, hadd, hqueued, ends_steps, ends_setFile]
    refine ⟨fun hbad => ?_, fun _ =>
      ⟨fun h => (by cases h), fun _ => ⟨?_, fun hnot => ⟨h.role, ?_⟩⟩⟩⟩
    · rcases hbad with hover | ⟨hlast, hne⟩
      · omega
      · have := hfin hlast
        omega
    · rw [Nat.add_sub_cancel]
    · exact ⟨_, Std.TreeMap.getElem?_insert_self, rfl, rfl, rfl, rfl, hnot⟩
  · rw [hf] at hnone
    cases hnone

theorem queueAll_sends {base size offset : Nat} {pieces : List Bytes} {last : Bytes}
    (h : Sending id sid base size offset s) (hrange : size ≤ u64Max)
    (hsize : base + offset + (pieces.flatten ++ last).length = size) :
    Ends (queueAll id (cuts pieces last)) s
      (fun chunks _ => chunks = chunksAt id sid offset (cuts pieces last)) fun _ _ => False := by
  induction pieces generalizing s offset with
  | nil =>
      have hlast : base + offset + last.length = size := hsize
      show Ends (queueAll id [(last, true)]) s _ _
      simp only [queueAll, ends_bind, ends_pure]
      refine (queueData_sends h hlast.le (fun _ => hlast) hrange).mono ?_ fun _ _ h => h
      rintro chunk s' ⟨rfl, _⟩
      rfl
  | cons piece pieces ih =>
      rw [List.flatten_cons, List.append_assoc, List.length_append] at hsize
      show Ends (queueAll id ((piece, false) :: cuts pieces last)) s _ _
      simp only [queueAll, ends_bind, ends_pure]
      have hle : base + offset + piece.length ≤ size := by omega
      have hopen : false = true → base + offset + piece.length = size := fun h => by cases h
      have hpiece := queueData_sends h hle hopen hrange
      refine hpiece.mono ?_ fun _ _ h => h
      rintro chunk s' ⟨rfl, hsending⟩
      refine (ih (hsending rfl) (by omega)).mono ?_ fun _ _ h => h
      rintro chunks s'' rfl
      rfl

/-! ## The chunks -/

/-- How many bytes the chunks have together. -/
def bytesIn (chunks : List DataChunk) : Nat := (chunks.flatMap (·.bytes)).length

@[simp] theorem bytesIn_nil : bytesIn [] = 0 := rfl

@[simp] theorem bytesIn_cons (c : DataChunk) (chunks : List DataChunk) :
    bytesIn (c :: chunks) = c.bytes.length + bytesIn chunks := by
  unfold bytesIn
  rw [List.flatMap_cons, List.length_append]

@[simp] theorem bytesIn_append (chunks chunks' : List DataChunk) :
    bytesIn (chunks ++ chunks') = bytesIn chunks + bytesIn chunks' := by
  unfold bytesIn
  rw [List.flatMap_append, List.length_append]

theorem chunksAt_bytes (offset : Nat) (pieces : List Bytes) (last : Bytes) :
    (chunksAt id sid offset (cuts pieces last)).flatMap (·.bytes) = pieces.flatten ++ last := by
  induction pieces generalizing offset with
  | nil => exact List.append_nil last
  | cons piece pieces ih =>
      show piece ++ (chunksAt id sid _ (cuts pieces last)).flatMap (·.bytes) = _
      rw [ih, List.flatten_cons, List.append_assoc]

/-- A chunk starts where those before it end, and nothing comes after the one
that ends the file. -/
theorem chunksAt_split {offset : Nat} {pieces : List Bytes} {last : Bytes}
    {before after : List DataChunk} {c : DataChunk}
    (h : chunksAt id sid offset (cuts pieces last) = before ++ c :: after) :
    c.fileId = id ∧ c.streamId = sid ∧ c.offset = offset + bytesIn before ∧
      (c.fin = true → after = []) := by
  induction pieces generalizing offset before with
  | nil =>
      change [(⟨id, sid, offset, last, true⟩ : DataChunk)] = _ at h
      cases before with
      | nil =>
          obtain ⟨rfl, rfl⟩ := List.cons.inj h
          exact ⟨rfl, rfl, rfl, fun _ => rfl⟩
      | cons _ before => cases before <;> cases h
  | cons piece pieces ih =>
      change (⟨id, sid, offset, piece, false⟩ : DataChunk) ::
        chunksAt id sid (offset + piece.length) (cuts pieces last) = _ at h
      cases before with
      | nil =>
          obtain ⟨rfl, rfl⟩ := List.cons.inj h
          exact ⟨rfl, rfl, rfl, nofun⟩
      | cons first before =>
          obtain ⟨rfl, hrest⟩ := List.cons.inj h
          obtain ⟨hid, hsid, hoffset, hfin⟩ := ih hrest
          refine ⟨hid, hsid, ?_, hfin⟩
          rw [hoffset, bytesIn_cons, Nat.add_assoc]

/-! ## The accepter -/

/-- An accepter in the middle of a file. -/
structure Receiving (id : FileId) (sid base size offset : Nat) (ended : Bool)
    (s : TransferSession) : Prop where
  role : s.role = .accepter
  file : ∃ f, s.files[id]? = some f ∧ f.activeStreamId = some sid ∧ f.baseOffset = base ∧
    f.entry.size = size ∧ f.receivedOffset = base + offset ∧ f.awaitingFinish = ended

/-- The events of a chunk that is taken. -/
def takenEvents (id : FileId) (base : Nat) (ended : Bool) (c : DataChunk) : List SessionEvent :=
  .dataReceived id (base + c.offset) c.bytes c.fin ::
    if c.fin || ended then [.fileReadyToComplete id] else []

variable {base size offset : Nat} {ended : Bool} {c : DataChunk}

/-- The chunk that is next. -/
theorem handleData_next (h : Receiving id sid base size offset ended s) (hid : c.fileId = id)
    (hsid : c.streamId = sid) (hoffset : c.offset = offset)
    (hle : base + offset + c.bytes.length ≤ size)
    (hfin : c.fin = true → base + offset + c.bytes.length = size) (hrange : size ≤ u64Max) :
    Ends (handleData c) s
      (fun events s' => events = takenEvents id base ended c ∧
        Receiving id sid base size (offset + c.bytes.length) (c.fin || ended) s')
      fun _ _ => False := by
  subst hid hsid hoffset
  obtain ⟨f, hf, hactive, rfl, rfl, hreceived, rfl⟩ := h.file
  have hadd : checkedAdd c.offset c.bytes.length = some (c.offset + c.bytes.length) :=
    checkedAdd_eq_some.2 ⟨by omega, rfl⟩
  have hexpected : f.receivedOffset - f.baseOffset = c.offset := by omega
  simp only [handleData, ends_bind, ends_calls]
  refine ⟨fun _ => ⟨fun f' hf' => ?_, fun hnone => ?_⟩, fun hne => hne h.role⟩
  · obtain rfl := Option.some.inj (hf.symm.trans hf')
    simp only [hactive, hadd, hexpected, acceptChunk, ends_steps, ends_setFile]
    refine ⟨fun hne => hne rfl, fun _ => ⟨fun hover => by omega, fun _ => ⟨fun hdup => by omega,
      fun _ => ⟨fun hne => hne rfl, fun _ => ⟨fun hbad => ?_, fun _ => ?_⟩⟩⟩⟩⟩
    · have := hfin hbad.1
      exact hbad.2 (by omega)
    · have hafter : Receiving c.fileId c.streamId f.baseOffset f.entry.size
          (c.offset + c.bytes.length) (c.fin || f.awaitingFinish)
          { s with
            files := (s.files.insert c.fileId
              { f with receivedOffset := f.baseOffset + (c.offset + c.bytes.length) }).insert
                c.fileId
                { f with
                  receivedOffset := f.baseOffset + (c.offset + c.bytes.length)
                  awaitingFinish := c.fin || f.awaitingFinish } } :=
        ⟨h.role, _, Std.TreeMap.getElem?_insert_self, hactive, rfl, rfl, rfl, rfl⟩
      rw [hactive] at hafter
      refine ⟨fun hready => ⟨?_, hafter⟩, fun hready => ⟨?_, hafter⟩⟩
      · rw [takenEvents, if_pos hready]
      · rw [takenEvents, if_neg hready]
  · rw [hf] at hnone
    cases hnone

/-- A chunk that lies before where the accepter is. -/
theorem handleData_before (h : Receiving id sid base size offset ended s) (hid : c.fileId = id)
    (hsid : c.streamId = sid) (hlt : c.offset < offset)
    (hle : c.offset + c.bytes.length ≤ offset) (hsize : base + offset ≤ size)
    (hrange : size ≤ u64Max) :
    Ends (handleData c) s (fun events s' => events = [.duplicateData id c.offset] ∧ s' = s)
      fun _ _ => False := by
  subst hid hsid
  obtain ⟨f, hf, hactive, rfl, rfl, hreceived, rfl⟩ := h.file
  have hadd : checkedAdd c.offset c.bytes.length = some (c.offset + c.bytes.length) :=
    checkedAdd_eq_some.2 ⟨by omega, rfl⟩
  have hexpected : f.receivedOffset - f.baseOffset = offset := by omega
  simp only [handleData, ends_bind, ends_calls]
  refine ⟨fun _ => ⟨fun f' hf' => ?_, fun hnone => ?_⟩, fun hne => hne h.role⟩
  · obtain rfl := Option.some.inj (hf.symm.trans hf')
    simp only [hactive, hadd, hexpected, ends_steps]
    exact ⟨fun hne => hne rfl, fun _ => ⟨fun hover => by omega,
      fun _ => ⟨fun _ => ⟨trivial, trivial⟩, fun hdup => absurd ⟨hlt, hle⟩ hdup⟩⟩⟩
  · rw [hf] at hnone
    cases hnone

/-! ## The log -/

/-- Delivering one more. -/
theorem ends_deliver_append {deliveries : List DataChunk} {c : DataChunk}
    {Q : List (DataChunk × List SessionEvent) → TransferSession → Prop}
    {E : CoreError → TransferSession → Prop} :
    Ends (deliver (deliveries ++ [c])) s Q E ↔
      Ends (deliver deliveries) s
        (fun log s' => Ends (handleData c) s' (fun events s'' => Q (log ++ [(c, events)]) s'') E)
        E := by
  induction deliveries generalizing s Q with
  | nil => simp only [List.nil_append, deliver, ends_bind, ends_pure]
  | cons d rest ih => simp only [List.cons_append, deliver, ends_bind, ends_pure, ih]

theorem contiguous_append {start : Nat} {l l' : List (FileId × Nat × Bytes)} :
    Contiguous id start (l ++ l') ↔
      Contiguous id start l ∧ Contiguous id (start + (l.flatMap (·.2.2)).length) l' := by
  induction l generalizing start with
  | nil => simp [Contiguous]
  | cons d rest ih =>
      obtain ⟨id', offset, bytes⟩ := d
      simp only [List.cons_append, Contiguous, ih, List.flatMap_cons, List.length_append,
        Nat.add_assoc, and_assoc]

/-- One more delivery to a log of what was faithful so far. -/
theorem Faithful.concat {bytes more : Bytes} {log : List (DataChunk × List SessionEvent)}
    {events : List SessionEvent} (h : Faithful id base bytes log)
    (hbytes : (received events).flatMap (·.2.2) = more)
    (hoffsets : Contiguous id (base + bytes.length) (received events))
    (hready : (∀ d ∈ log, d.1.fin = false) →
      (.fileReadyToComplete id ∈ events ↔ c.fin = true)) :
    Faithful id base (bytes ++ more) (log ++ [(c, events)]) := by
  refine ⟨?_, ?_, fun before d after hsplit hopen => ?_⟩
  · rw [List.flatMap_append, List.flatMap_append, h.bytes, List.flatMap_singleton, hbytes]
  · rw [List.flatMap_append, contiguous_append, h.bytes, List.flatMap_singleton]
    exact ⟨h.offsets, hoffsets⟩
  · rcases List.eq_nil_or_concat after with rfl | ⟨after, d', rfl⟩
    · obtain ⟨rfl, hd⟩ := List.append_inj' hsplit rfl
      obtain rfl := List.singleton_inj.1 hd
      exact hready hopen
    · have hsplit' : log ++ [(c, events)] = (before ++ d :: after) ++ [d'] := by
        rw [hsplit, List.concat_eq_append, List.append_assoc]
        rfl
      exact h.ready before d after (List.append_inj' hsplit' rfl).1 hopen

/-- One more delivery that brings nothing new. -/
theorem Faithful.again {bytes : Bytes} {log : List (DataChunk × List SessionEvent)}
    {events : List SessionEvent} (h : Faithful id base bytes log)
    (hbytes : (received events).flatMap (·.2.2) = [])
    (hoffsets : Contiguous id (base + bytes.length) (received events))
    (hready : (∀ d ∈ log, d.1.fin = false) →
      (.fileReadyToComplete id ∈ events ↔ c.fin = true)) :
    Faithful id base bytes (log ++ [(c, events)]) := by
  have hsame := h.concat hbytes hoffsets hready
  rwa [List.append_nil] at hsame

/-- As long as no delivery has ended the file, no chunk that has come has. -/
theorem not_ended {items deliveries : List DataChunk}
    {log : List (DataChunk × List SessionEvent)} (h : Replays items deliveries)
    (hlog : log.map (·.1) = deliveries) (hopen : ∀ d ∈ log, d.1.fin = false) :
    items.any (·.fin) = false := by
  rw [List.any_eq_false]
  intro c hc
  rw [← h.mem_iff, ← hlog, List.mem_map] at hc
  obtain ⟨d, hd, rfl⟩ := hc
  rw [hopen d hd]
  exact Bool.false_ne_true

theorem takenEvents_received :
    received (takenEvents id base ended c) = [(id, base + c.offset, c.bytes)] := by
  unfold takenEvents
  cases c.fin || ended <;> rfl

theorem takenEvents_ready :
    .fileReadyToComplete id ∈ takenEvents id base ended c ↔ (c.fin || ended) = true := by
  unfold takenEvents
  cases c.fin || ended <;> simp

/-- What has been delivered so far is in the log, and the accepter is where the
chunks that have come end. -/
theorem deliver_faithful {pieces : List Bytes} {last : Bytes}
    (h : Receiving id sid base size 0 false s)
    (hsize : base + (pieces.flatten ++ last).length = size) (hrange : size ≤ u64Max)
    {items deliveries rest : List DataChunk} (hreplays : Replays items deliveries)
    (hitems : chunksAt id sid 0 (cuts pieces last) = items ++ rest) :
    Ends (deliver deliveries) s
      (fun log s' => Faithful id base (items.flatMap (·.bytes)) log ∧
        Receiving id sid base size (bytesIn items) (items.any (·.fin)) s' ∧
        log.map (·.1) = deliveries)
      fun _ _ => False := by
  have hbytes : bytesIn (chunksAt id sid 0 (cuts pieces last)) =
      (pieces.flatten ++ last).length := by
    rw [bytesIn, chunksAt_bytes]
  induction hreplays generalizing rest with
  | nil =>
      refine ⟨⟨rfl, trivial, fun before d after hsplit => ?_⟩, h, rfl⟩
      exact absurd hsplit (by simp)
  | @next items deliveries hreplays c ih =>
      rw [List.append_assoc, List.singleton_append] at hitems
      obtain ⟨hid, hsid, hoffset, hfin⟩ := chunksAt_split hitems
      rw [hitems, bytesIn_append, bytesIn_cons] at hbytes
      rw [ends_deliver_append]
      refine (ih hitems).mono (fun log s' hs' => ?_) fun _ _ h => h
      obtain ⟨hlog, hreceiving, hdelivered⟩ := hs'
      have hend : c.fin = true → base + bytesIn items + c.bytes.length = size := fun hc => by
        rw [hfin hc, bytesIn_nil] at hbytes
        omega
      refine (handleData_next hreceiving hid hsid (by omega) (by omega) hend hrange).mono ?_
        fun _ _ h => h
      rintro events s'' ⟨rfl, hreceiving'⟩
      refine ⟨?_, ?_, ?_⟩
      · rw [List.flatMap_append, List.flatMap_singleton]
        refine hlog.concat ?_ ?_ fun hopen => ?_
        · rw [takenEvents_received, List.flatMap_singleton]
        · rw [takenEvents_received, hoffset, Nat.zero_add]
          exact ⟨rfl, rfl, trivial⟩
        · rw [takenEvents_ready, not_ended hreplays hdelivered hopen, Bool.or_false]
      · rw [bytesIn_append, bytesIn_cons, bytesIn_nil, Nat.add_zero, List.any_append,
          List.any_cons, List.any_nil, Bool.or_false, Bool.or_comm]
        exact hreceiving'
      · rw [List.map_append, hdelivered]
        rfl
  | @again items deliveries hreplays c hc ih =>
      obtain ⟨before, after, rfl⟩ := List.append_of_mem hc
      have hsplit := hitems
      rw [List.append_assoc, List.cons_append] at hsplit
      obtain ⟨hid, hsid, hoffset, hfin⟩ := chunksAt_split hsplit
      rw [hitems, bytesIn_append, bytesIn_append, bytesIn_cons] at hbytes
      rw [ends_deliver_append]
      refine (ih hitems).mono (fun log s' hs' => ?_) fun _ _ h => h
      obtain ⟨hlog, hreceiving, hdelivered⟩ := hs'
      have hplace : bytesIn (before ++ c :: after) =
          bytesIn before + (c.bytes.length + bytesIn after) := by
        rw [bytesIn_append, bytesIn_cons]
      by_cases hlt : c.offset < bytesIn (before ++ c :: after)
      · -- the chunk lies behind: nothing changes
        refine (handleData_before hreceiving hid hsid hlt (by omega) (by omega) hrange).mono ?_
          fun _ _ h => h
        rintro events s'' ⟨rfl, rfl⟩
        refine ⟨?_, hreceiving, by rw [List.map_append, hdelivered]; rfl⟩
        refine hlog.again rfl trivial fun hopen => iff_of_false (by simp) fun hc' => ?_
        have hnone := not_ended hreplays hdelivered hopen
        rw [List.any_eq_false] at hnone
        exact hnone c hc hc'
      · -- an empty chunk right where the accepter is: it is taken again
        have hempty : c.bytes = [] := List.length_eq_zero_iff.1 (by omega)
        have hend : c.fin = true →
            base + bytesIn (before ++ c :: after) + c.bytes.length = size := fun hc' => by
          obtain ⟨rfl, rfl⟩ := List.append_eq_nil_iff.1 (hfin hc')
          rw [bytesIn_nil] at hbytes
          rw [hplace]
          simp only [bytesIn_nil, hempty, List.length_nil] at hbytes ⊢
          omega
        refine (handleData_next hreceiving hid hsid (by omega)
          (by rw [hempty]; simp only [List.length_nil]; omega) hend hrange).mono ?_ fun _ _ h => h
        rintro events s'' ⟨rfl, hreceiving'⟩
        have hended : (c.fin || (before ++ c :: after).any (·.fin)) =
            (before ++ c :: after).any (·.fin) := by
          rw [List.any_append, List.any_cons]
          cases c.fin <;> simp
        rw [hended, hempty, List.length_nil, Nat.add_zero] at hreceiving'
        refine ⟨?_, hreceiving', by rw [List.map_append, hdelivered]; rfl⟩
        refine hlog.again ?_ ?_ fun hopen => ?_
        · rw [takenEvents_received, hempty]
          rfl
        · rw [takenEvents_received, ← bytesIn]
          exact ⟨rfl, by omega, trivial⟩
        · rw [takenEvents_ready, not_ended hreplays hdelivered hopen, Bool.or_false]

/-! ## From the beginning of a file -/

/-- A file that `start_file` has begun. -/
theorem startFile_sending (hrole : s.role = .offerer) (hf : s.files[id]? = some f)
    (hactive : f.activeStreamId = none) (hc : f.complete = false)
    (hids : s.nextStreamId + 1 ≤ u64Max) (hlt : f.durableOffset < f.entry.size) :
    Sending id s.nextStreamId f.durableOffset f.entry.size 0 (after (startFile id) s) := by
  refine Ends.after (P := Sending id s.nextStreamId f.durableOffset f.entry.size 0) ?_
  simp only [startFile, allocateStreamId, ends_steps, checkedAdd_eq_some.2 ⟨hids, rfl⟩, ends_calls]
  refine ⟨fun f' hf' => ⟨fun hbad => ?_, fun _ => ⟨hrole, ?_⟩⟩, fun hnone => ?_⟩
  · obtain rfl := Option.some.inj (hf.symm.trans hf')
    rcases hbad with hbad | hbad
    · rw [hactive] at hbad
      cases hbad
    · rw [hc] at hbad
      cases hbad
  · obtain rfl := Option.some.inj (hf.symm.trans hf')
    exact ⟨_, Std.TreeMap.getElem?_insert_self, rfl, rfl, rfl, rfl,
      decide_eq_false (Nat.ne_of_gt hlt)⟩
  · rw [hf] at hnone
    cases hnone

/-- A file that `handle_file_begin` has let in. -/
theorem handleFileBegin_receiving {remainingSize : Nat} {contentHash : Digest}
    (h : Begins s id base remainingSize contentHash) (hsize : remainingSize ≠ 0) :
    Receiving id sid base (base + remainingSize) 0 false
      (after (handleFileBegin id sid base remainingSize contentHash) s) := by
  obtain ⟨f, hf, hc, hle, hhash, hrem, hactive, hbase⟩ := h.file
  have hroom := Nat.not_le.2 h.room
  refine Ends.after (P := Receiving id sid base (base + remainingSize) 0 false) ?_
  simp only [handleFileBegin, ends_bind, ends_calls]
  refine ⟨fun hrole => ⟨fun f' hf' => ?_, fun hnone => ?_⟩, fun hne => absurd h.role hne⟩
  · obtain rfl := Option.some.inj (hf.symm.trans hf')
    simp only [hactive, ends_steps, ends_repeatComplete, ends_calls]
    refine ⟨fun hc' => (by cases hc.symm.trans hc'), fun _ => ⟨fun _ => ⟨fun hbad => ?_,
      fun _ => ⟨fun hfull => absurd hfull hroom, fun _ => ⟨fun hne => absurd hbase hne,
      fun _ => ⟨hrole, _, Std.TreeMap.getElem?_insert_self, rfl, rfl, ?_, rfl,
        decide_eq_false hsize⟩⟩⟩⟩, fun hover => absurd hle hover⟩⟩
    · exact hbad.elim (absurd hhash) (absurd hrem)
    · show f.entry.size = base + remainingSize
      omega
  · rw [hf] at hnone
    cases hnone

/-- A file that is begun from some offset and cut in whatever way, each chunk
coming in its turn and as often again as one likes, comes out as it was. -/
theorem chunks_faithful {so sa : TransferSession} {source : Bytes} {pieces : List Bytes}
    {last : Bytes} (hrole : so.role = .offerer) (hf : so.files[id]? = some f)
    (hactive : f.activeStreamId = none) (hc : f.complete = false)
    (hids : so.nextStreamId + 1 ≤ u64Max) (hsize : f.entry.size = source.length)
    (hrange : f.entry.size ≤ u64Max) (hbase : f.durableOffset < f.entry.size)
    (hcut : pieces.flatten ++ last = source.drop f.durableOffset)
    (hbegins : Begins sa id f.durableOffset (f.entry.size - f.durableOffset)
      f.entry.contentHash) :
    ∃ chunks so', queueAll id (cuts pieces last) (after (startFile id) so) = .ok chunks so' ∧
      ∀ deliveries, Replays chunks deliveries →
        ∃ log sa', deliver deliveries (after (handleFileBegin id so.nextStreamId f.durableOffset
            (f.entry.size - f.durableOffset) f.entry.contentHash) sa) = .ok log sa' ∧
          Faithful id f.durableOffset (source.drop f.durableOffset) log := by
  have hlength : (pieces.flatten ++ last).length = f.entry.size - f.durableOffset := by
    rw [hcut, List.length_drop, hsize]
  have hsending := startFile_sending hrole hf hactive hc hids hbase
  have hreceiving : Receiving id so.nextStreamId f.durableOffset
      (f.durableOffset + (f.entry.size - f.durableOffset)) 0 false
      (after (handleFileBegin id so.nextStreamId f.durableOffset
        (f.entry.size - f.durableOffset) f.entry.contentHash) sa) :=
    handleFileBegin_receiving hbegins (by omega)
  rw [show f.durableOffset + (f.entry.size - f.durableOffset) = f.entry.size by omega]
    at hreceiving
  have hqueue : Ends (queueAll id (cuts pieces last)) (after (startFile id) so)
      (fun chunks _ => chunks = chunksAt id so.nextStreamId 0 (cuts pieces last))
      fun _ _ => False := queueAll_sends hsending hrange (by omega)
  obtain ⟨chunks, so', hqueued, rfl⟩ := hqueue.returns
  refine ⟨_, so', hqueued, fun deliveries hreplays => ?_⟩
  obtain ⟨log, sa', hdelivered, hfaithful, _⟩ :=
    (deliver_faithful hreceiving (by omega) hrange hreplays (List.append_nil _).symm).returns
  refine ⟨log, sa', hdelivered, ?_⟩
  rwa [chunksAt_bytes, hcut] at hfaithful

/-! ## A file of three bytes in four pieces -/

/-- An offerer of the sample file that has not begun it. -/
def sampleOfferer : TransferSession :=
  { role := .offerer, transferId := sampleId, config := {}
    files := Std.TreeMap.ofList [(sampleId, sampleFile)] }

/-- The second of the pieces is empty. -/
theorem chunks_faithful_repeated :
    ∃ chunks so', queueAll sampleId (cuts [[1], [], [2]] [3])
        (after (startFile sampleId) sampleOfferer) = .ok chunks so' ∧
      ∀ deliveries, Replays chunks deliveries →
        ∃ log sa', deliver deliveries (after (handleFileBegin sampleId 1 0 3 sampleDigest)
            (final sampleAccepter (sampleOffer ++ [.acceptOffer .accept .ask (ascii "inbox")]))) =
              .ok log sa' ∧
          Faithful sampleId 0 [1, 2, 3] log :=
  have hfile : (final sampleAccepter
      (sampleOffer ++ [.acceptOffer .accept .ask (ascii "inbox")])).files[sampleId]? =
        some sampleFile := by decide +kernel
  have hroom : (final sampleAccepter
      (sampleOffer ++ [.acceptOffer .accept .ask (ascii "inbox")])).activeFileCount <
        (final sampleAccepter
          (sampleOffer ++
            [.acceptOffer .accept .ask (ascii "inbox")])).config.maxParallelFiles := by
    decide +kernel
  have hrole : (final sampleAccepter
      (sampleOffer ++ [.acceptOffer .accept .ask (ascii "inbox")])).role = .accepter := by
    decide +kernel
  have hoffered : sampleOfferer.files[sampleId]? = some sampleFile := by decide +kernel
  chunks_faithful rfl hoffered rfl rfl (by decide) rfl (by decide) (by decide)
    rfl ⟨hrole, ⟨sampleFile, hfile, rfl, Nat.zero_le _, rfl, rfl, rfl, rfl⟩, hroom⟩

end DartUdp.Session
