import DartUdp.Proofs.PeersDelivery
import DartUdp.Proofs.SessionResume

/-!
# Whatever is between the ends

The two halves of the invariant hold together over every run in which the ends are
honest, in whatever order and however often what they queue comes in. From it: what
is on the accepter's disk is the offerer's, the two have the same manifest, and a
transfer that is completed at the offerer has arrived.

The module is for `disk_is_source`, `manifest_is_offered` and
`completed_is_delivered`. `Joined` puts the halves together, `joined_step` is a turn
and `joined_run` a run; the first two theorems ask nothing of a storage that refuses
a write (`joined_fair`).
-/

namespace DartUdp.Session

open DartUdp.Lib DartUdp.Transfer

variable {source : FileId → Bytes} {m : Manifest} {streams streams' : Streams} {K : Prop}
  {start disk : Disk} {refused : Bool} {op : Op} {s s' : TransferSession} {id : TransferId}
  {p : Peers}

theorem Quiet.received {events : List SessionEvent} (h : Quiet events) : received events = [] := by
  unfold Session.received
  rw [List.filterMap_eq_nil_iff]
  intro e he
  cases e with
  | dataReceived => exact absurd (h _ he) Bool.noConfusion
  | _ => rfl

/-! ## A call of the accepter -/

/-- What holds of the answer of a call holds of the step that is taken. -/
theorem Ends.taken {P : List SessionEvent → TransferSession → Prop}
    (h : Ends (perform op) s P fun _ => P []) :
    P ((take s op).answer.getD []) (take s op).after := by
  unfold Ends at h
  unfold take answer after
  split at h
  · exact h
  · exact h

theorem handleDataWithStorage_inOrder {chunk : DataChunk} (written : Except CoreError Unit)
    (h : Gathers m streams K disk refused s) (hcut : CutFrom source streams chunk) :
    Ends (handleDataWithStorage chunk written) s
      (InOrder source m streams K disk
        (refused || (Op.handleDataWithStorage chunk written).refuses s) s)
      fun _ => InOrder source m streams K disk
        (refused || (Op.handleDataWithStorage chunk written).refuses s) s [] := by
  simp only [handleDataWithStorage, ends_bind, ends_file]
  refine ⟨fun _ _ => ?_, fun _ => InOrder.weaken (.refl h rfl) _⟩
  refine Ends.mono (Ends.and (handleData_inOrder h hcut) (Ends.run (handleData chunk) s))
    (fun events s' hout => ?_) fun _ s' hout => hout.1.symm ▸ InOrder.weaken (.refl h rfl) _
  obtain ⟨⟨hwritten, hlost⟩, hrun⟩ := hout
  simp only [ends_ite, ends_pure]
  refine ⟨fun _ => ?_, fun _ => hwritten.weaken _⟩
  cases written with
  | ok => exact hwritten.weaken _
  | error e =>
      simp only [ends_steps]
      rcases hlost with rfl | ⟨hreported, hlost⟩
      · exact (InOrder.weaken (.refl h rfl) _).fail
      · have hrefuses : (Op.handleDataWithStorage chunk (.error e)).refuses s = true := by
          have hanswer : (take s (.handleData chunk)).answer = some events := by
            unfold take answer
            simp only [perform, hrun]
          simp only [Op.refuses, hanswer, Option.getD_some, Bool.not_eq_true',
            List.isEmpty_eq_false_iff]
          exact hreported
        rw [hrefuses, Bool.or_true]
        exact hlost.fail

/-- Whatever an honest accepter is called for, it is in order afterwards. -/
theorem perform_inOrder (h : Gathers m streams K disk refused s) (ha : Accepting id s)
    (htold : ∀ message ∈ op.hears, message.isError = false → Told m streams (.transfer message))
    (hcut : ∀ chunk ∈ op.brings, CutFrom source streams chunk)
    (hrestores : K → ∀ r ∈ op.restores, disk.Holds r.1 r.2)
    (hmarks : K → refused = true → ∀ r ∈ op.marks, disk.Holds r.1 r.2) :
    InOrder source m streams K disk (refused || op.refuses s) s ((take s op).answer.getD [])
      (take s op).after := by
  refine Ends.taken (P := InOrder source m streams K disk (refused || op.refuses s) s) ?_
  cases hbrings : op.brings with
  | none =>
      refine Ends.mono (Ends.and (perform_does op) (perform_quiet op hbrings))
        (fun events s' hout => ?_) fun _ s' hout => ?_
      · obtain ⟨htakes, hkeeps⟩ := Edits.takes hout.1 ha h hbrings htold hrestores hmarks
        have hnone : disk.record events = disk := record_none hout.2.received
        exact InOrder.weaken ⟨by rwa [hnone], hkeeps, fun hfrom => by rwa [hnone]⟩ _
      · obtain ⟨htakes, hkeeps⟩ := Edits.takes hout.1 ha h hbrings htold hrestores hmarks
        exact InOrder.weaken ⟨htakes, hkeeps, fun hfrom => hfrom⟩ _
  | some chunk =>
      have hcut := hcut chunk hbrings
      cases op with
      | handleData chunk' =>
          obtain rfl := Option.some.inj hbrings
          exact (handleData_inOrder h hcut).mono (fun _ _ hout => hout.1.weaken _)
            fun _ _ hsame => hsame.symm ▸ InOrder.weaken (.refl h rfl) _
      | handleDataWithStorage chunk' written =>
          obtain rfl := Option.some.inj hbrings
          exact handleDataWithStorage_inOrder written h hcut
      | _ => cases hbrings

/-! ## Runs -/

/-- The ends with all that they have queued, over what the streams carry, and the disk
since the start. -/
structure Joined (source : FileId → Bytes) (id : TransferId) (m : Manifest) (start : Disk)
    (K : Prop) (streams : Streams) (p : Peers) : Prop where
  offering : Offering id m p.offerer
  accepting : Accepting id p.accepter
  offers : Offers source m streams (Arrived p.accepter) p.offerer
  takes : Gathers m streams K p.disk p.refused p.accepter
  disk : start.From source → p.disk.From source
  offered : ∀ message ∈ p.offered, Told m streams message
  chunks : ∀ chunk ∈ p.chunks, CutFrom source streams chunk
  answered : ∀ message ∈ p.answered, Reported p.accepter message

theorem Joined.offerer (h : Joined source id m start K streams p)
    (hgenuine : op.Genuine p.answered p.chunks) (hreads : op.Reads source p.offerer) :
    ∃ streams', Joined source id m start K streams' (p.step (.offerer op)) := by
  obtain ⟨streams', hgrows, hoffers⟩ := Edits.offers (perform_does op).after h.offering h.offers
    (fun id size contentHash hears => h.answered _ (hgenuine.hears _ hears rfl)) hreads
  refine ⟨streams', ⟨(perform_does op).after.offering h.offering, h.accepting, hoffers,
    h.takes.mono hgrows, h.disk, fun message hm => ?_, fun chunk hc => ?_, h.answered⟩⟩
  · exact (List.mem_append.1 hm).elim (fun hin => (h.offered message hin).mono hgrows)
      (hoffers.controls message)
  · exact (List.mem_append.1 hc).elim (fun hin => (h.chunks chunk hin).mono hgrows)
      (hoffers.data chunk)

theorem Joined.accepter (h : Joined source id m start K streams p)
    (hgenuine : op.Genuine p.offered p.chunks) (hstored : K → op.Stored p) :
    Joined source id m start K streams (p.step (.accepter op)) := by
  have horder := perform_inOrder h.takes h.accepting
    (fun message hears herror => h.offered _ (hgenuine.hears message hears herror))
    (fun chunk hbrings => h.chunks chunk (hgenuine.brings chunk hbrings))
    (fun hK => (hstored hK).restores) fun hK => (hstored hK).marks
  refine ⟨h.offering, (perform_does op).after.accepting h.accepting,
    h.offers.mono horder.keeps, horder.takes, fun hstart => horder.disk (h.disk hstart), h.offered,
    h.chunks,
    fun message hm => ?_⟩
  exact (List.mem_append.1 hm).elim (fun hin => (h.answered message hin).mono horder.keeps)
    (horder.takes.controls message)

theorem joined_step (h : ∃ streams, Joined source id m start K streams p) (turn : Turn)
    (hfair : p.Fair source turn) (hhonest : K → p.Honest source turn) :
    ∃ streams, Joined source id m start K streams (p.step turn) := by
  obtain ⟨streams, h⟩ := h
  cases turn with
  | offerer op => exact h.offerer hfair.1 hfair.2
  | accepter op => exact ⟨streams, h.accepter hfair fun hK => (hhonest hK).2⟩

section Run

variable {config config' : SessionConfig} {offerer accepter : TransferSession} {disk : Disk}
  {turns : List Turn}

theorem offers_new (ho : newOfferer id m config = .ok offerer) (complete : FileId → Nat → Prop) :
    Offers source m (fun _ => none) complete offerer := by
  obtain ⟨-, rfl⟩ := newOfferer_ok ho
  refine ⟨rfl, rfl, fun _ _ => rfl, fun id f streamId hf hactive => ?_,
    fun _ hm => absurd hm List.not_mem_nil, fun _ hc => absurd hc List.not_mem_nil,
    fun id f hf hc => ?_, fun hc => Bool.noConfusion hc⟩
  · obtain ⟨e, -, -, rfl⟩ := Manifest.runtimes_get.1 hf
    cases hactive
  · obtain ⟨e, -, -, rfl⟩ := Manifest.runtimes_get.1 hf
    cases hc

theorem takes_new (ha : newAccepter id config' = .ok accepter) :
    Gathers m (fun _ => none) K disk false accepter := by
  obtain ⟨-, rfl⟩ := newAccepter_ok ha
  have hnone : ∀ (id : FileId) (f : FileRuntime),
      (∅ : Std.TreeMap FileId FileRuntime)[id]? ≠ some f := fun id f hf => by
    rw [Std.TreeMap.getElem?_emptyc] at hf
    cases hf
  exact ⟨rfl, fun id f hf => absurd hf (hnone id f), fun _ id f hf => absurd hf (hnone id f),
    fun a ha => absurd ha.symm (Option.some_ne_none a),
    fun m' hm' => absurd hm'.symm (Option.some_ne_none m'),
    fun _ hm => absurd hm List.not_mem_nil⟩

theorem joined_new (ho : newOfferer id m config = .ok offerer)
    (ha : newAccepter id config' = .ok accepter) :
    Joined source id m disk K (fun _ => none) (.new offerer accepter disk) :=
  ⟨offering_run ho [], accepting_run ha [], offers_new ho _, takes_new ha, fun h => h,
    fun _ hm => absurd hm List.not_mem_nil, fun _ hc => absurd hc List.not_mem_nil,
    fun _ hm => absurd hm List.not_mem_nil⟩

/-- The invariant holds along every run of fair ends, and what it says of the disk if
the storage keeps its word. -/
theorem joined_run (ho : newOfferer id m config = .ok offerer)
    (ha : newAccepter id config' = .ok accepter)
    (hmeets : Meets Peers.step (fun p turn => p.Fair source turn ∧ (K → p.Honest source turn))
      (.new offerer accepter disk) turns) :
    ∃ streams, Joined source id m disk K streams ((Peers.new offerer accepter disk).run turns) :=
  hmeets.run ⟨_, joined_new ho ha⟩ fun _ turn h hturn => joined_step h turn hturn.1 hturn.2

/-- Of the ends alone nothing has to be known of the storage. -/
theorem joined_fair (ho : newOfferer id m config = .ok offerer)
    (ha : newAccepter id config' = .ok accepter)
    (hmeets : Meets Peers.step (Peers.Fair source) (.new offerer accepter disk) turns) :
    ∃ streams, Joined source id m disk False streams
      ((Peers.new offerer accepter disk).run turns) :=
  joined_run ho ha (hmeets.mono fun _ _ hfair => ⟨hfair, False.elim⟩)

end Run

/-! ## One file, with a reconnect -/

def exchangeSource (id : FileId) : Bytes := if id = exchangeId then [1, 2, 3] else []

def exchangePeers : Peers := .new exchangeOfferer exchangeAccepter fun _ _ => none

def offerTurns : List Turn :=
  [.offerer .start, .accepter .start,
    .accepter (.handleControl (.sessionHello exchangeId protocolVersion .x25519ChaCha20Poly1305
      exchangeDigest exchangeId)),
    .accepter (.handleControl (.manifestBegin 1 3 exchangeDigest)),
    .accepter (.handleControl (.manifestItem exchangeId (ascii "a") 3 exchangeDigest ⟨none, none⟩)),
    .accepter (.handleControl (.manifestEnd exchangeDigest)),
    .accepter (.acceptOffer .accept .ask []),
    .offerer (.handleControl (.receiveDecision true .ask []))]

/-- The accepter says what it has, and gets some more. -/
def resumeTurns (durable checkpointId streamId : Nat) (bytes : Bytes) (fin : Bool) : List Turn :=
  [.accepter (.handleControl (.resumeQuery exchangeId exchangeDigest 3)),
    .offerer (.handleControl (.resumeState exchangeId durable checkpointId
      ⟨.sha256, .replicate 32 0⟩)),
    .accepter (.handleControl
      (.fileBegin exchangeId streamId durable (3 - durable) exchangeDigest)),
    .offerer (.queueData exchangeId bytes fin),
    .accepter (.handleData ⟨exchangeId, streamId, 0, bytes, fin⟩),
    .accepter (.checkpoint exchangeId (durable + bytes.length) (checkpointId + 1))]

/-- The ends reconnect after the first byte, which then comes once more. -/
def exchangeTurns : List Turn :=
  offerTurns ++ resumeTurns 0 0 1 [1] false ++
    [.offerer .reconnect, .accepter .reconnect,
      .accepter (.handleData ⟨exchangeId, 1, 0, [1], false⟩)] ++
    resumeTurns 1 1 2 [2, 3] true ++
    [.accepter (.completeFile exchangeId 3 exchangeDigest),
      .offerer (.handleControl (.fileComplete exchangeId 3 exchangeDigest)),
      .offerer (.handleControl (.transferComplete exchangeId 1 3))]

theorem exchange_offerer : newOfferer exchangeId exchangeManifest {} = .ok exchangeOfferer := rfl

theorem exchange_accepter : newAccepter exchangeId {} = .ok exchangeAccepter := rfl

theorem exchange_honest :
    Meets Peers.step (Peers.Honest exchangeSource) exchangePeers exchangeTurns := by decide +kernel

theorem exchange_fair :
    Meets Peers.step (Peers.Fair exchangeSource) exchangePeers exchangeTurns :=
  exchange_honest.mono fun _ _ => Peers.Honest.fair

theorem exchange_blank : Disk.From exchangeSource fun _ _ => none := fun _ _ b hb =>
  absurd hb.symm (Option.some_ne_none b)

/-! ## What has arrived -/

section Run

variable {config config' : SessionConfig} {offerer accepter : TransferSession} {disk : Disk}
  {turns : List Turn}

/-- Whatever is lost, repeated or late between fair ends, and however often they
reconnect: nothing comes onto the accepter's disk but what the offerer has there. -/
theorem disk_is_source (ho : newOfferer id m config = .ok offerer)
    (ha : newAccepter id config' = .ok accepter) (hdisk : disk.From source)
    (hmeets : Meets Peers.step (Peers.Fair source) (.new offerer accepter disk) turns)
    (fileId : FileId) (i : Nat) (b : UInt8)
    (hb : ((Peers.new offerer accepter disk).run turns).disk fileId i = some b) :
    (source fileId)[i]? = some b := by
  obtain ⟨streams, h⟩ := joined_fair ho ha hmeets
  exact h.disk hdisk fileId i b hb

/-- The last byte of a file that came in over two streams. -/
theorem disk_is_source_resumed : (exchangeSource exchangeId)[2]? = some 3 :=
  disk_is_source exchange_offerer exchange_accepter exchange_blank exchange_fair exchangeId 2 3
    (by decide +kernel)

theorem Joined.manifests (h : Joined source id m start K streams p) {m' : Manifest}
    (hm' : p.accepter.manifest = some m') :
    m'.digest = m.digest ∧ m'.totalSize = m.totalSize ∧ m'.entries.Perm m.entries := by
  obtain ⟨hdigest, hperm⟩ := h.takes.manifest m' hm'
  refine ⟨hdigest, ?_, hperm⟩
  rw [← m'.ok.sum, ← m.ok.sum]
  exact (hperm.map _).sum_eq

/-- The manifest that the accepter puts together is the offerer's, up to the order of
its entries. -/
theorem manifest_is_offered (ho : newOfferer id m config = .ok offerer)
    (ha : newAccepter id config' = .ok accepter)
    (hmeets : Meets Peers.step (Peers.Fair source) (.new offerer accepter disk) turns)
    (m' : Manifest)
    (hm' : ((Peers.new offerer accepter disk).run turns).accepter.manifest = some m') :
    m'.digest = m.digest ∧ m'.totalSize = m.totalSize ∧ m'.entries.Perm m.entries := by
  obtain ⟨streams, h⟩ := joined_fair ho ha hmeets
  exact h.manifests hm'

theorem manifest_is_offered_resumed :
    ∃ m', (exchangePeers.run exchangeTurns).accepter.manifest = some m' ∧
      m'.entries.Perm exchangeManifest.entries := by
  have hsome : (exchangePeers.run exchangeTurns).accepter.manifest.isSome = true := by
    decide +kernel
  obtain ⟨m', hm'⟩ := Option.isSome_iff_exists.1 hsome
  exact ⟨m', hm', (manifest_is_offered exchange_offerer exchange_accepter exchange_fair
    m' hm').2.2⟩

/-- All of the file is on the disk, as the offerer has it. -/
def Disk.Delivers (source : FileId → Bytes) (disk : Disk) (fileId : FileId) (size : Nat) : Prop :=
  ∀ i < size, ∃ b, disk fileId i = some b ∧ (source fileId)[i]? = some b

theorem Joined.delivers (h : Joined source id m start True streams p)
    (hstart : start.From source) {fileId : FileId} {size : Nat}
    (harrived : Arrived p.accepter fileId size) : p.disk.Delivers source fileId size := by
  intro i hi
  obtain ⟨f, hf, hc, rfl⟩ := harrived
  obtain ⟨b, hb⟩ := Option.isSome_iff_exists.1 ((h.takes.disk trivial fileId f hf).complete hc i hi)
  exact ⟨b, hb, h.disk hstart fileId i b hb⟩

/-- A file that is complete at either end is on the accepter's disk as the offerer has
it; and when the transfer is completed at the offerer, all the files are. -/
theorem completed_is_delivered (ho : newOfferer id m config = .ok offerer)
    (ha : newAccepter id config' = .ok accepter) (hdisk : disk.From source)
    (hmeets : Meets Peers.step (Peers.Honest source) (.new offerer accepter disk) turns) :
    let p := (Peers.new offerer accepter disk).run turns
    (∀ s ∈ [p.offerer, p.accepter], ∀ (fileId : FileId) (f : FileRuntime),
      s.files[fileId]? = some f → f.complete = true →
        p.disk.Delivers source fileId f.entry.size) ∧
      (p.offerer.state = .completed →
        ∀ e ∈ m.entries, p.disk.Delivers source e.fileId e.size) := by
  obtain ⟨streams, h⟩ := joined_run (K := True) ho ha
    (hmeets.mono fun _ _ hturn => ⟨hturn.fair, fun _ => hturn⟩)
  refine ⟨fun s hs fileId f hf hc => ?_, fun hcompleted e he => ?_⟩
  · rcases List.mem_cons.1 hs with rfl | hs
    · exact h.delivers hdisk (h.offers.done fileId f hf hc)
    · obtain rfl := List.mem_singleton.1 hs
      exact h.delivers hdisk ⟨f, hf, hc, rfl⟩
  · obtain ⟨f, hf, rfl, -⟩ := h.offering.tracks.file e he
    have hclosing : ((Peers.new offerer accepter disk).run turns).offerer.state.closing = true := by
      rw [hcompleted]
      rfl
    exact h.delivers hdisk (h.offers.done _ f hf (h.offers.closing hclosing _ f hf))

theorem completed_is_delivered_resumed :
    (exchangePeers.run exchangeTurns).disk.Delivers exchangeSource exchangeId 3 :=
  (completed_is_delivered exchange_offerer exchange_accepter exchange_blank exchange_honest).2
    (by decide +kernel) ⟨exchangeId, ascii "a", 3, exchangeDigest, ⟨none, none⟩⟩
    (List.mem_singleton.2 rfl)

end Run

end DartUdp.Session
