import DartUdp.Proofs.ConnStages
import DartUdp.Proofs.AckRanges

/-!
# Packets processed at most once

A packet whose number was recorded before is a duplicate, and its frames are not
processed again. What was recorded is remembered in the ranges an ACK carries,
of which there are at most 32. As long as they are enough, no number is taken for
a new one twice; a number that fell off is new again.

The module is for `processed_once`. `Edit.received` says that only a packet received
changes the ranges, `record_isNew` which numbers are new, and `perform_remembers`
keeps that every number processed is remembered.
-/

namespace DartUdp.Core

open DartUdp.Lib DartUdp.Udp

variable {suite : Suite} {L : Prop} {k : Cause} {c : Connection} {v v' : View} {p : Packet}
  {n : Nat} {numbers : List Nat}

/-! ## The numbers that are new -/

/-- The number of the packet, when `record_received` answers that it is new. A
Retry has none. -/
def newNumber (p : Packet) (c : Connection) : List Nat :=
  if p.packetType ≠ .retry ∧ answer (receivePacket p) c = some true then [p.packetNumber] else []

/-- The numbers whose frames an operation processes. -/
def processed (suite : Suite) (c : Connection) : Op → List Nat
  | .onDatagram packet => newNumber packet c
  | .onDatagramBytes bytes =>
      match decodeDatagram suite bytes c with
      | .ok packet c' => newNumber packet c'
      | .error _ _ => []
  | _ => []

/-- The numbers whose frames a run processes, in order. -/
def processedNumbers (suite : Suite) (c : Connection) : List Op → List Nat
  | [] => []
  | op :: ops => processed suite c op ++ processedNumbers suite (after (perform suite op) c) ops

/-- The packet is one the connection records. -/
def Lands (c : Connection) (p : Packet) : Prop :=
  c.state ≠ .closed ∧ p.connectionId = c.id ∧ p.packetType ≠ .retry

/-- A packet that is recorded needs no more ranges than there may be. -/
def RangesSuffice (suite : Suite) (c : Connection) (op : Op) : Prop :=
  ∀ p, delivered suite c op = some p → Lands c p → c.transport.received.Fits p.packetNumber

/-! ## What edits do to the ranges -/

/-- The view remembers the number. -/
def View.Remembers (v : View) (n : Nat) : Prop := v.received.any (·.contains n) = true

theorem View.Outward.received (h : v.Outward v') : v'.received = v.received := by
  obtain ⟨streams, pending, rfl, _⟩ := h
  rfl

/-- Only a packet that comes in changes the ranges, by its own number. -/
theorem Edit.received (e : Edit suite L k v v') : v'.received = v.received ∨
    ∃ p now receivedAt, k = .packet p ∧ p.packetType ≠ .retry ∧
      v'.received =
        (ReceivedPackets.record ⟨v.received, receivedAt⟩ p.packetNumber now).2.ranges := by
  cases e with
  | record p ranges hk h htype hranges =>
      obtain ⟨receivedAt, now, hranges⟩ := hranges
      exact .inr ⟨p, now, receivedAt, hk, htype, hranges⟩
  | read id maxLen s hk hs =>
      obtain ⟨_, _, _, heq⟩ := v.read_eq id maxLen s
      exact .inl (by rw [heq]; rfl)
  | lose n count sp => exact .inl (View.outward_putBackAll (v.forget n) count _).received
  | drop n count m sp => exact .inl (View.outward_putBackAll (v.forget n) count _).received
  | emit q v₁ sp ht =>
      obtain ⟨sent, hsent⟩ := v₁.account_eq q
      exact .inl (by rw [hsent]; exact ht.outward.received)
  | pass q v₁ ht =>
      obtain ⟨sent, hsent⟩ := v₁.account_eq q
      exact .inl (by rw [hsent]; exact ht.outward.received)
  | lost q v₁ next hl ht => exact .inl ht.outward.received
  | back q v₁ ht => exact .inl (ht.outward.trans (v₁.outward_putBack _ _)).received
  | _ => exact .inl rfl

/-- Nothing is forgotten as long as the number of the packet fits. -/
theorem Edits.remembers (e : Edits suite L k v v')
    (hfits : ∀ p, k = .packet p → p.packetType ≠ .retry →
      ReceivedPackets.Fits ⟨v.received, none⟩ p.packetNumber) (hn : v.Remembers n) :
    v'.Remembers n := by
  have hboth : v'.Remembers n ∧ ∀ p, k = .packet p → p.packetType ≠ .retry →
      ReceivedPackets.Fits ⟨v'.received, none⟩ p.packetNumber := by
    induction e with
    | refl => exact ⟨hn, hfits⟩
    | tail _ e ih =>
        obtain ⟨hn, hfits⟩ := ih
        rcases e.received with hsame | ⟨p, now, receivedAt, hk, htype, hranges⟩
        · unfold View.Remembers
          rw [hsame]
          exact ⟨hn, hfits⟩
        · have hcontains := fun m =>
            @contains_record m ⟨_, receivedAt⟩ p.packetNumber now (hfits p hk htype)
          refine ⟨?_, fun p' hk' _ => ?_⟩
          · unfold View.Remembers
            rw [hranges]
            exact (hcontains n).2 (.inl hn)
          · cases hk.symm.trans hk'
            rw [hranges]
            exact .inl ((hcontains _).2 (.inr rfl))
  exact hboth.1

/-! ## A packet -/

theorem receivePacket_ends (p : Packet) :
    Ends (receivePacket p) c
      (fun isNew c' => c.state ≠ .closed ∧ p.connectionId = c.id ∧
        (p.packetType = .retry ∧ c'.transport = c.transport ∨
          p.packetType ≠ .retry ∧ ∃ now,
            c.transport.received.record p.packetNumber now = (isNew, c'.transport.received)))
      fun _ c' => c'.transport = c.transport := by
  simp only [receivePacket, ends_steps]
  refine ⟨fun _ => trivial, fun hstate => ⟨fun _ => trivial, fun hid => ?_⟩⟩
  refine ends_onTimers (fun _ t => ?_) fun _ t => rfl
  simp only [recordReceived, ends_steps, ends_modifyTransport]
  refine ⟨fun hretry => ⟨hstate, not_not.1 hid, .inl ⟨hretry, trivial⟩⟩, fun hretry => ?_⟩
  exact ⟨hstate, not_not.1 hid, .inr ⟨hretry, c.now, rfl⟩⟩

theorem record_isNew {received received' : ReceivedPackets} {isNew : Bool} {now : Nat}
    (h : received.record n now = (isNew, received')) : isNew = !received.contains n := by
  unfold ReceivedPackets.record at h
  split at h
  · next hin =>
      rw [hin]
      exact (congrArg Prod.fst h).symm
  · next hnot =>
      rw [Bool.eq_false_iff.2 hnot]
      exact (congrArg Prod.fst h).symm

/-- A packet whose number fits is new only when its number was not there, and the
number is there afterwards. -/
theorem onDatagram_remembers (suite : Suite)
    (hfits : Lands c p → c.transport.received.Fits p.packetNumber) :
    (∀ n ∈ newNumber p c, ¬ c.view.Remembers n) ∧
      ∀ n, c.view.Remembers n ∨ n ∈ newNumber p c →
        (after (onDatagram suite p) c).view.Remembers n := by
  have hends := receivePacket_ends (c := c) p
  have hmem : ∀ n ∈ newNumber p c, n = p.packetNumber ∧ p.packetType ≠ .retry ∧
      ∃ c₁, receivePacket p c = .ok true c₁ := by
    intro n hn
    unfold newNumber at hn
    split at hn
    · next h =>
        refine ⟨List.mem_singleton.1 hn, h.1, ?_⟩
        have hanswer := h.2
        unfold answer at hanswer
        split at hanswer
        · next isNew c₁ hrun =>
            cases hanswer
            exact ⟨c₁, hrun⟩
        · cases hanswer
    · cases hn
  rw [onDatagram_eq]
  unfold after
  cases hrun : receivePacket p c with
  | error e c₁ =>
      rw [bind_error hrun]
      refine ⟨fun n hn => ?_, fun n hn => ?_⟩
      · obtain ⟨_, _, c₁, hrun'⟩ := hmem n hn
        cases hrun.symm.trans hrun'
      · rcases hn with hn | hn
        · show c₁.transport.received.ranges.any _ = true
          rw [hends.error hrun]
          exact hn
        · obtain ⟨_, _, c₁, hrun'⟩ := hmem n hn
          cases hrun.symm.trans hrun'
  | ok isNew c₁ =>
      obtain ⟨hstate, hid, hrecord⟩ := hends.ok hrun
      rw [bind_ok hrun]
      refine ⟨fun n hn => ?_, fun n hn => ?_⟩
      · obtain ⟨rfl, htype, c₂, hrun'⟩ := hmem n hn
        cases hrun.symm.trans hrun'
        obtain ⟨-, now, heq⟩ := hrecord.resolve_left fun h => htype h.1
        have hnew := record_isNew heq
        intro hin
        rw [show c.transport.received.contains p.packetNumber = true from hin] at hnew
        cases hnew
      · -- The number is there once it was recorded, so no later part forgets any.
        have hedits : Edits suite True (.packet p) c₁.view
            (after (handlePacket suite p isNew) c₁).view :=
          Ends.after (P := fun c' => Edits suite True _ c₁.view c'.view)
            ((handlePacket_does suite p isNew).mono (fun _ _ h => h.mono) fun _ _ h => h)
        show (after (handlePacket suite p isNew) c₁).view.Remembers n
        rcases hrecord with ⟨htype, hsame⟩ | ⟨htype, now, heq⟩
        · refine hedits.remembers (fun p' hp' htype' => ?_) ?_
          · cases hp'
            exact absurd htype htype'
          · rcases hn with hn | hn
            · show c₁.transport.received.ranges.any _ = true
              rw [hsame]
              exact hn
            · exact absurd htype (hmem n hn).2.1
        · have hreceived : c₁.transport.received =
              (c.transport.received.record p.packetNumber now).2 := by rw [heq]
          have hcontains := fun m => @contains_record m _ _ now (hfits ⟨hstate, hid, htype⟩)
          rw [← hreceived] at hcontains
          refine hedits.remembers (fun p' hp' _ => ?_) ((hcontains n).2 (hn.imp_right fun hn =>
            (hmem n hn).1))
          cases hp'
          exact .inl ((hcontains _).2 (.inr rfl))

/-! ## Over every run -/

/-- An operation for which the ranges suffice processes no number that is there,
and the numbers it processes are there afterwards. -/
theorem perform_remembers (suite : Suite) {op : Op} (h : RangesSuffice suite c op) :
    (∀ n ∈ processed suite c op, ¬ c.view.Remembers n) ∧
      ∀ n, c.view.Remembers n ∨ n ∈ processed suite c op →
        (after (perform suite op) c).view.Remembers n := by
  have hquiet : (∀ p, cause suite c op ≠ .packet p) → ∀ n, c.view.Remembers n →
      (after (perform suite op) c).view.Remembers n := fun hk n hn =>
    (perform_edits suite op c).remembers (fun p hp => absurd hp (hk p)) hn
  cases op with
  | onDatagram p =>
      have hafter : after (perform suite (.onDatagram p)) c = after (onDatagram suite p) c :=
        after_bind_pure ..
      rw [hafter]
      exact onDatagram_remembers suite fun hlands => h p rfl hlands
  | onDatagramBytes bytes =>
      have hafter : after (perform suite (.onDatagramBytes bytes)) c =
          after (onDatagramBytes suite bytes) c := after_bind_pure ..
      have hcrypto := decodeDatagram_ends (c := c) suite bytes
      rw [hafter, onDatagramBytes]
      unfold processed
      dsimp only
      cases hrun : decodeDatagram suite bytes c with
      | ok p c₁ =>
          have hview := hcrypto.ok hrun
          have hdecoded : decoded suite bytes c = some p := by
            unfold decoded answer
            rw [hrun]
          have hlands : Lands c₁ p → c₁.transport.received.Fits p.packetNumber := fun hlands => by
            have hfits : ReceivedPackets.Fits ⟨c.view.received, none⟩ p.packetNumber :=
              h p hdecoded ⟨?_, ?_, hlands.2.2⟩
            · rw [← hview] at hfits
              exact hfits
            · exact hlands.1 ∘ (congrArg View.state hview).trans
            · exact hlands.2.1.trans (congrArg View.id hview)
          have hsame : after (decodeDatagram suite bytes >>= onDatagram suite) c =
              after (onDatagram suite p) c₁ := by
            unfold after
            rw [bind_ok hrun]
          rw [hsame, ← hview]
          exact onDatagram_remembers suite hlands
      | error e c₁ =>
          have hsame : after (decodeDatagram suite bytes >>= onDatagram suite) c = c₁ := by
            unfold after
            rw [bind_error hrun]
          rw [hsame, hcrypto.error hrun]
          refine ⟨fun n hn => absurd hn List.not_mem_nil, fun n hn => ?_⟩
          exact hn.resolve_right List.not_mem_nil
  | _ =>
      refine ⟨fun n hn => absurd hn List.not_mem_nil, fun n hn => hquiet (by simp [cause]) n ?_⟩
      exact hn.resolve_right List.not_mem_nil

theorem nodup_processed (suite : Suite) (c : Connection) (op : Op) :
    (processed suite c op).Nodup := by
  have hnew : ∀ p c, (newNumber p c).Nodup := fun p c => by
    unfold newNumber
    split
    · exact List.nodup_singleton _
    · exact .nil
  unfold processed
  split
  · exact hnew _ _
  · split
    · exact hnew _ _
    · exact .nil
  · exact .nil

/-- In every run in which no recorded packet needs more than 32 ranges, the frames
of a packet number are processed at most once. -/
theorem processed_once (suite : Suite) (c : Connection) (ops : List Op)
    (h : Meets (fun c op => after (perform suite op) c) (RangesSuffice suite) c ops) :
    (processedNumbers suite c ops).Nodup := by
  have hgen : (processedNumbers suite c ops).Nodup ∧
      ∀ n ∈ processedNumbers suite c ops, ¬ c.view.Remembers n := by
    induction ops generalizing c with
    | nil => exact ⟨.nil, fun _ hn => absurd hn List.not_mem_nil⟩
    | cons op ops ih =>
        obtain ⟨hnew, hkept⟩ := perform_remembers suite h.1
        obtain ⟨hnodup, hfresh⟩ := ih _ h.2
        refine ⟨List.nodup_append.2 ⟨nodup_processed suite c op, hnodup, ?_⟩, fun n hn => ?_⟩
        · rintro n hn _ hn' rfl
          exact hfresh n hn' (hkept n (.inr hn))
        · rcases List.mem_append.1 hn with hn | hn
          · exact hnew n hn
          · exact fun hin => hfresh n hn (hkept n (.inl hin))
  exact hgen.1

/-- A packet with a frame that does nothing. -/
def pongPacket (n : Nat) : Op := .onDatagram ⟨.data, ⟨ackElicitingFlag⟩, 7, n, [.pong 0]⟩

/-- A packet that comes twice is processed once. -/
theorem duplicate_is_processed_once : ∃ c, Fresh sampleSuite .server {} c ∧
    (processedNumbers sampleSuite c [pongPacket 5, pongPacket 5]).Nodup := by
  obtain ⟨c, hc, hp⟩ := of_checks (r := sampleConnection .server {})
    (p := fun c => decide ((c.transport.received.widened 5).length ≤ maxAckRanges) &&
      (after (perform sampleSuite (pongPacket 5)) c).transport.received.contains 5)
    (by decide +kernel)
  rw [Bool.and_eq_true, decide_eq_true_eq] at hp
  refine ⟨c, sampleConnection_fresh hc, processed_once sampleSuite c _ ⟨?_, ?_, trivial⟩⟩
  · intro p hdelivered _
    cases hdelivered
    exact .inr hp.1
  · intro p hdelivered _
    cases hdelivered
    exact .inl hp.2

/-- Every other number from 0 to 64, then 0 again: it has fallen off the 32
ranges, and its frames are processed a second time. -/
theorem forgotten_packet_is_processed_again : ∃ c, Fresh sampleSuite .server {} c ∧
    ¬ (processedNumbers sampleSuite c
      (((List.range 33).map fun i => pongPacket (2 * i)) ++ [pongPacket 0])).Nodup := by
  obtain ⟨c, hc, hp⟩ := of_checks (r := sampleConnection .server {})
    (p := fun c => decide ((processedNumbers sampleSuite c
      (((List.range 33).map fun i => pongPacket (2 * i)) ++ [pongPacket 0])).count 0 = 2))
    (by decide +kernel)
  refine ⟨c, sampleConnection_fresh hc, fun h => ?_⟩
  have hcount := List.nodup_iff_count_le_one.1 h 0
  rw [of_decide_eq_true hp] at hcount
  exact absurd hcount (by decide)

end DartUdp.Core
