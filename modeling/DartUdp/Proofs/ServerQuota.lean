import DartUdp.Lib.MapSum
import DartUdp.Lib.Runs
import DartUdp.Server.Quota

/-!
# The relay quotas hold

Each counter is, as a natural number, the sum of what the calls hold from it: a call
holds its count from the session once it has reserved there and until it gives it
back, and from the server once it has reserved there. A reservation adds at most up
to the limit, so what has been granted is within it, and a call that is refused holds
nothing.

The module is for `quotas_hold`. `reserveCounter_cases` is one step at a counter,
`Accounted` the invariant and `Accounted.step` its step; by `Accounted.measure_lt`
the calls come to an end.
-/

namespace DartUdp.Server

open DartUdp.Lib

/-! ## One reservation -/

/-- An exchange under way adds the amount, within the limit. -/
def Reserving.Sane (amount limit : UInt64) : Reserving → Prop
  | .load => True
  | .exchange current next => next.toNat = current.toNat + amount.toNat ∧ next ≤ limit
  | .done _ => False

theorem checkedSum_eq_some {a b c : UInt64} (h : checkedSum a b = some c) :
    c.toNat = a.toNat + b.toNat := by
  unfold checkedSum at h
  split at h
  · next hlt =>
      cases h
      rw [UInt64.toNat_add, Nat.mod_eq_of_lt hlt]
  · cases h

/-- The attempt fails, or an exchange within the limit comes next. -/
theorem attempt_cases (amount limit current : UInt64) :
    Reserving.attempt amount limit current = .done false ∨
      (∃ next, Reserving.attempt amount limit current = .exchange current next) ∧
        (Reserving.attempt amount limit current).Sane amount limit := by
  unfold Reserving.attempt
  split
  · exact .inl rfl
  · next next hsum =>
      split
      · exact .inl rfl
      · next hle => exact .inr ⟨⟨next, rfl⟩, checkedSum_eq_some hsum, UInt64.not_lt.1 hle⟩

/-- An operation reserves the amount, or it leaves the counter alone. -/
theorem reserveCounter_cases {amount limit : UInt64} (hlimit : limit ≠ 0) (spurious : Bool)
    (counter : UInt64) {reserving : Reserving} (h : reserving.Sane amount limit) :
    (∃ counter', reserveCounter amount limit spurious counter reserving = (counter', .done true) ∧
      counter'.toNat = counter.toNat + amount.toNat ∧ counter' ≤ limit) ∨
    reserveCounter amount limit spurious counter reserving = (counter, .done false) ∨
    ∃ reserving', reserveCounter amount limit spurious counter reserving = (counter, reserving') ∧
      reserving'.Sane amount limit := by
  have hattempt : (counter, Reserving.attempt amount limit counter) = (counter, .done false) ∨
      ∃ reserving', (counter, Reserving.attempt amount limit counter) = (counter, reserving') ∧
        reserving'.Sane amount limit := by
    rcases attempt_cases amount limit counter with hfails | ⟨-, hsane⟩
    · exact .inl (by rw [hfails])
    · exact .inr ⟨_, rfl, hsane⟩
  cases reserving with
  | load =>
      rw [reserveCounter, if_neg hlimit]
      exact .inr hattempt
  | exchange current next =>
      rw [reserveCounter]
      split
      · next hexchange =>
          obtain ⟨rfl, -⟩ := hexchange
          exact .inl ⟨next, rfl, h⟩
      · exact .inr hattempt
  | done reserved => exact h.elim

/-! ## What the calls hold -/

def CallStage.holdsSession : CallStage → Bool
  | .total _ | .release | .measure | .granted => true
  | .session _ | .refused => false

def CallStage.holdsTotal : CallStage → Bool
  | .measure | .granted => true
  | _ => false

/-- The bytes of a call, if it holds them. -/
def heldAt (holds : Bool) (count : UInt64) : Nat := if holds then count.toNat else 0

/-- The bytes of the calls of a kind. -/
def bytesOf (kind : Call → Bool) (calls : List Call) : Nat :=
  (calls.map fun call => heldAt (kind call) call.count).sum

/-- The bytes granted to a session. -/
def grantedTo (session : SessionKey) : List Call → Nat :=
  bytesOf fun call => call.session == session && call.stage == .granted

/-- The bytes granted to all sessions. -/
def grantedInAll : List Call → Nat := bytesOf fun call => call.stage == .granted

def heldOf (session : SessionKey) : List Call → Nat :=
  bytesOf fun call => call.session == session && call.stage.holdsSession

def heldInAll : List Call → Nat := bytesOf fun call => call.stage.holdsTotal

theorem heldAt_mono {holds holds' : Bool} (h : holds → holds') (count : UInt64) :
    heldAt holds count ≤ heldAt holds' count := by
  unfold heldAt
  by_cases hholds : holds
  · rw [if_pos hholds, if_pos (h hholds)]
  · rw [if_neg hholds]
    exact Nat.zero_le _

theorem bytesOf_mono {kind kind' : Call → Bool} {calls : List Call}
    (h : ∀ call ∈ calls, kind call → kind' call) : bytesOf kind calls ≤ bytesOf kind' calls :=
  List.sum_le_sum fun call hcall => heldAt_mono (h call hcall) _

theorem bytesOf_congr {kind kind' : Call → Bool} {calls : List Call}
    (h : ∀ call ∈ calls, kind call = kind' call) : bytesOf kind calls = bytesOf kind' calls := by
  unfold bytesOf
  rw [List.map_congr_left fun call hcall => by rw [h call hcall]]

theorem bytesOf_append (kind : Call → Bool) (calls : List Call) {call : Call}
    (h : kind call = false) : bytesOf kind (calls ++ [call]) = bytesOf kind calls := by
  simp [bytesOf, heldAt, h]

/-- A call goes on, and is of the kind before or after. -/
theorem bytesOf_set {calls : List Call} {i : Nat} {call : Call} (h : calls[i]? = some call)
    (kind : Call → Bool) (stage : CallStage) :
    bytesOf kind (calls.set i { call with stage }) + heldAt (kind call) call.count =
      bytesOf kind calls + heldAt (kind { call with stage }) call.count :=
  sum_map_set h _ _

/-- A call that is of one kind and not of another is missing there. -/
theorem bytesOf_add_le (kind kind' : Call → Bool) {calls : List Call} {call : Call}
    (hcall : call ∈ calls) (h : ∀ c ∈ calls, kind c → kind' c) (hnot : kind call = false)
    (hkind : kind' call = true) : bytesOf kind calls + call.count.toNat ≤ bytesOf kind' calls := by
  refine sum_map_add_le hcall (fun c hc => heldAt_mono (h c hc) _) ?_
  simp [heldAt, hnot, hkind]

/-! ## The accounts -/

def Call.Sane (config : RelayConfig) (call : Call) : Prop :=
  match call.stage with
  | .session reserving => reserving.Sane call.count config.maxBytesPerSession
  | .total reserving => reserving.Sane call.count config.maxBytesTotal
  | _ => True

/-- The counters are what the calls hold, within the limits. -/
structure Accounted (s : Quotas) : Prop where
  session : ∀ i, (s.sessionBytes i).toNat = heldOf i s.calls
  total : s.totalRelayBytes.toNat = heldInAll s.calls
  measured : s.relayBytes.toNat = grantedInAll s.calls
  sessionLimit : ∀ i, s.sessionBytes i ≤ s.config.maxBytesPerSession
  totalLimit : s.totalRelayBytes ≤ s.config.maxBytesTotal
  call : ∀ call ∈ s.calls, call.Sane s.config

/-- A call goes on, and each counter moves by what the call holds from it. -/
theorem Accounted.moves {s s' : Quotas} (h : Accounted s) {i : Nat} {call : Call}
    (hi : s.calls[i]? = some call) {stage : CallStage}
    (hcalls : s'.calls = s.calls.set i { call with stage }) (hconfig : s'.config = s.config)
    (hsession : ∀ k, (s'.sessionBytes k).toNat +
        heldAt (call.session == k && call.stage.holdsSession) call.count =
      (s.sessionBytes k).toNat + heldAt (call.session == k && stage.holdsSession) call.count)
    (htotal : s'.totalRelayBytes.toNat + heldAt call.stage.holdsTotal call.count =
      s.totalRelayBytes.toNat + heldAt stage.holdsTotal call.count)
    (hmeasured : s'.relayBytes.toNat + heldAt (call.stage == .granted) call.count =
      s.relayBytes.toNat + heldAt (stage == .granted) call.count)
    (hsessionLimit : ∀ k, s'.sessionBytes k ≤ s.config.maxBytesPerSession)
    (htotalLimit : s'.totalRelayBytes ≤ s.config.maxBytesTotal)
    (hsane : Call.Sane s.config { call with stage }) : Accounted s' := by
  refine ⟨fun k => ?_, ?_, ?_, fun k => ?_, ?_, fun c hc => ?_⟩
  · have hset := bytesOf_set hi (fun call => call.session == k && call.stage.holdsSession) stage
    have hold := h.session k
    have hnew := hsession k
    unfold heldOf at hold ⊢
    dsimp only at hset
    rw [hcalls]
    omega
  · have hset := bytesOf_set hi (fun call => call.stage.holdsTotal) stage
    have hold := h.total
    unfold heldInAll at hold ⊢
    dsimp only at hset
    rw [hcalls]
    omega
  · have hset := bytesOf_set hi (fun call => call.stage == .granted) stage
    have hold := h.measured
    unfold grantedInAll at hold ⊢
    dsimp only at hset
    rw [hcalls]
    omega
  · rw [hconfig]
    exact hsessionLimit k
  · rw [hconfig]
    exact htotalLimit
  · rw [hconfig]
    rw [hcalls] at hc
    rcases List.mem_or_eq_of_mem_set hc with hc | rfl
    · exact h.call c hc
    · exact hsane

/-- What a call holds of its session's counter is in the counter. -/
theorem Accounted.count_le {s : Quotas} (h : Accounted s) {call : Call} (hcall : call ∈ s.calls)
    (hholds : call.stage.holdsSession = true) : call.count ≤ s.sessionBytes call.session := by
  have hle := bytesOf_add_le (fun _ => false)
    (fun c => c.session == call.session && c.stage.holdsSession) hcall
    (fun _ _ hc => by cases hc) rfl (by simp [hholds])
  rw [UInt64.le_iff_toNat_le, h.session]
  exact (Nat.le_add_left _ _).trans hle

/-- The metrics have room for a call that has reserved its bytes. -/
theorem Accounted.measure_lt {s : Quotas} (h : Accounted s) {call : Call} (hcall : call ∈ s.calls)
    (hstage : call.stage = .measure) : s.relayBytes.toNat + call.count.toNat < 2 ^ 64 := by
  have hle := bytesOf_add_le (fun c => c.stage == .granted) (fun c => c.stage.holdsTotal) hcall
    (fun c _ hc => by rw [beq_iff_eq] at hc; rw [hc]; rfl) (by rw [hstage]; rfl)
    (by rw [hstage]; rfl)
  have htotal := h.total
  have hlt := s.totalRelayBytes.toNat_lt
  rw [h.measured]
  unfold heldInAll at htotal
  unfold grantedInAll
  omega

theorem update_le {counters : SessionKey → UInt64} {limit counter : UInt64}
    (h : ∀ k, counters k ≤ limit) (session : SessionKey) (hcounter : counter ≤ limit)
    (k : SessionKey) : Function.update counters session counter k ≤ limit := by
  by_cases hk : k = session
  · rwa [hk, Function.update_self]
  · rw [Function.update_of_ne hk]
    exact h k

theorem afterSession_sane {amount limit : UInt64} {reserving : Reserving}
    (h : reserving.Sane amount limit) : Quotas.afterSession reserving = .session reserving := by
  cases reserving with
  | load | exchange => rfl
  | done => exact h.elim

theorem afterTotal_sane {amount limit : UInt64} {reserving : Reserving}
    (h : reserving.Sane amount limit) : Quotas.afterTotal reserving = .total reserving := by
  cases reserving with
  | load | exchange => rfl
  | done => exact h.elim

section

variable {s : Quotas} (hsession : s.config.maxBytesPerSession ≠ 0)
  (htotal : s.config.maxBytesTotal ≠ 0)

include hsession htotal

/-- Every operation of a call keeps the accounts. -/
theorem Accounted.goOn (h : Accounted s) {i : Nat} {call : Call} (hi : s.calls[i]? = some call)
    (spurious : Bool) :
    Accounted { (s.reserveRelayBytes spurious call).1 with
      calls := s.calls.set i { call with stage := (s.reserveRelayBytes spurious call).2 } } := by
  have hmem : call ∈ s.calls := List.mem_of_getElem? hi
  have hsane := h.call call hmem
  cases hstage : call.stage with
  | session reserving =>
      simp only [Call.Sane, hstage] at hsane
      rcases reserveCounter_cases hsession spurious (s.sessionBytes call.session) hsane with
        ⟨counter, hrun, hcount, hle⟩ | hrun | ⟨reserving', hrun, hsane'⟩
      · simp only [Quotas.reserveRelayBytes, hstage, hrun, Quotas.afterSession]
        refine h.moves hi rfl rfl (fun k => ?_) ?_ ?_ (update_le h.sessionLimit _ hle) h.totalLimit
          trivial
        · by_cases hk : call.session = k
          · subst hk
            simp only [Function.update_self, hstage, beq_self_eq_true, heldAt,
              CallStage.holdsSession, Bool.and_true, Bool.and_false]
            exact hcount
          · simp [Function.update_of_ne (Ne.symm hk), heldAt, hk]
        · simp [heldAt, hstage, CallStage.holdsTotal]
        · simp [heldAt, hstage]
      · simp only [Quotas.reserveRelayBytes, hstage, hrun, Quotas.afterSession,
          Function.update_eq_self]
        refine h.moves hi rfl rfl (fun k => ?_) ?_ ?_ h.sessionLimit h.totalLimit trivial
        · simp [heldAt, hstage, CallStage.holdsSession]
        · simp [heldAt, hstage, CallStage.holdsTotal]
        · simp [heldAt, hstage]
      · simp only [Quotas.reserveRelayBytes, hstage, hrun, afterSession_sane hsane',
          Function.update_eq_self]
        refine h.moves hi rfl rfl (fun k => ?_) ?_ ?_ h.sessionLimit h.totalLimit hsane'
        · simp [heldAt, hstage, CallStage.holdsSession]
        · simp [heldAt, hstage, CallStage.holdsTotal]
        · simp [heldAt, hstage]
  | total reserving =>
      simp only [Call.Sane, hstage] at hsane
      rcases reserveCounter_cases htotal spurious s.totalRelayBytes hsane with
        ⟨counter, hrun, hcount, hle⟩ | hrun | ⟨reserving', hrun, hsane'⟩
      · simp only [Quotas.reserveRelayBytes, hstage, hrun, Quotas.afterTotal]
        refine h.moves hi rfl rfl (fun k => ?_) ?_ ?_ h.sessionLimit hle trivial
        · simp [heldAt, hstage, CallStage.holdsSession]
        · simpa [heldAt, hstage, CallStage.holdsTotal] using hcount
        · simp [heldAt, hstage]
      · simp only [Quotas.reserveRelayBytes, hstage, hrun, Quotas.afterTotal]
        refine h.moves hi rfl rfl (fun k => ?_) ?_ ?_ h.sessionLimit h.totalLimit trivial
        · simp [heldAt, hstage, CallStage.holdsSession]
        · simp [heldAt, hstage, CallStage.holdsTotal]
        · simp [heldAt, hstage]
      · simp only [Quotas.reserveRelayBytes, hstage, hrun, afterTotal_sane hsane']
        refine h.moves hi rfl rfl (fun k => ?_) ?_ ?_ h.sessionLimit h.totalLimit hsane'
        · simp [heldAt, hstage, CallStage.holdsSession]
        · simp [heldAt, hstage, CallStage.holdsTotal]
        · simp [heldAt, hstage]
  | release =>
      have hle := h.count_le hmem (by rw [hstage]; rfl)
      have hback : (s.sessionBytes call.session - call.count).toNat + call.count.toNat =
          (s.sessionBytes call.session).toNat := by
        rw [UInt64.toNat_sub_of_le _ _ hle]
        exact Nat.sub_add_cancel (UInt64.le_iff_toNat_le.1 hle)
      have hlimit : s.sessionBytes call.session - call.count ≤ s.config.maxBytesPerSession := by
        have hwas := UInt64.le_iff_toNat_le.1 (h.sessionLimit call.session)
        rw [UInt64.le_iff_toNat_le]
        omega
      simp only [Quotas.reserveRelayBytes, hstage]
      refine h.moves hi rfl rfl (fun k => ?_) ?_ ?_ (update_le h.sessionLimit _ hlimit) h.totalLimit
        trivial
      · by_cases hk : call.session = k
        · subst hk
          simpa [Function.update_self, hstage, heldAt, CallStage.holdsSession] using hback
        · simp [Function.update_of_ne (Ne.symm hk), heldAt, hk]
      · simp [heldAt, hstage, CallStage.holdsTotal]
      · simp [heldAt, hstage]
  | measure =>
      have hsum : (s.relayBytes + call.count).toNat = s.relayBytes.toNat + call.count.toNat := by
        rw [UInt64.toNat_add, Nat.mod_eq_of_lt (h.measure_lt hmem hstage)]
      simp only [Quotas.reserveRelayBytes, hstage]
      refine h.moves hi rfl rfl (fun k => ?_) ?_ ?_ h.sessionLimit h.totalLimit trivial
      · simp [heldAt, hstage, CallStage.holdsSession]
      · simp [heldAt, hstage, CallStage.holdsTotal]
      · rw [hstage]
        exact hsum
  | granted =>
      simp only [Quotas.reserveRelayBytes, hstage]
      refine h.moves hi rfl rfl (fun k => ?_) ?_ ?_ h.sessionLimit h.totalLimit trivial
      · rw [hstage]
      · rw [hstage]
      · rw [hstage]
  | refused =>
      simp only [Quotas.reserveRelayBytes, hstage]
      refine h.moves hi rfl rfl (fun k => ?_) ?_ ?_ h.sessionLimit h.totalLimit trivial
      · rw [hstage]
      · rw [hstage]
      · rw [hstage]

theorem Accounted.step (h : Accounted s) (a : QuotaAction) : Accounted (s.step a) := by
  cases a with
  | call session count =>
      refine ⟨fun k => ?_, ?_, ?_, h.sessionLimit, h.totalLimit, fun call hcall => ?_⟩
      · exact (h.session k).trans (bytesOf_append _ _ (Bool.and_false _)).symm
      · exact h.total.trans (bytesOf_append _ _ rfl).symm
      · exact h.measured.trans (bytesOf_append _ _ rfl).symm
      · rcases List.mem_append.1 hcall with hcall | hcall
        · exact h.call call hcall
        · rw [List.mem_singleton.1 hcall]
          trivial
  | goOn i spurious =>
      unfold Quotas.step
      dsimp only
      split
      · exact h
      · next call hi => exact h.goOn hsession htotal hi spurious

end

theorem step_config (s : Quotas) (a : QuotaAction) : (s.step a).config = s.config := by
  cases a with
  | call => rfl
  | goOn i spurious =>
      unfold Quotas.step
      dsimp only
      split
      · rfl
      · unfold Quotas.reserveRelayBytes
        dsimp only
        split
        all_goals rfl

theorem accounted_start (config : RelayConfig) : Accounted { config } where
  session := fun _ => rfl
  total := rfl
  measured := rfl
  sessionLimit := fun _ => UInt64.zero_le
  totalLimit := UInt64.zero_le
  call := fun _ hcall => by cases hcall

/-- The next operation of a call stays within the range of its counter. -/
def Call.Exact (s : Quotas) (call : Call) : Prop :=
  match call.stage with
  | .session (.exchange current next) | .total (.exchange current next) =>
      next.toNat = current.toNat + call.count.toNat
  | .release => call.count ≤ s.sessionBytes call.session
  | .measure => s.relayBytes.toNat + call.count.toNat < 2 ^ 64
  | _ => True

theorem Accounted.exact {s : Quotas} (h : Accounted s) {call : Call} (hcall : call ∈ s.calls) :
    call.Exact s := by
  have hsane := h.call call hcall
  unfold Call.Exact
  cases hstage : call.stage with
  | session reserving =>
      cases reserving with
      | exchange current next =>
          simp only [Call.Sane, hstage, Reserving.Sane] at hsane
          exact hsane.1
      | load | done => trivial
  | total reserving =>
      cases reserving with
      | exchange current next =>
          simp only [Call.Sane, hstage, Reserving.Sane] at hsane
          exact hsane.1
      | load | done => trivial
  | release => exact h.count_le hcall (by rw [hstage]; rfl)
  | measure => exact h.measure_lt hcall hstage
  | granted | refused => trivial

/-- Every call has returned. -/
def Finished (calls : List Call) : Prop :=
  ∀ call ∈ calls, call.stage = .granted ∨ call.stage = .refused

/-- With both limits set, any number of calls may reserve at the same time: what is
granted to a session and in all is within the limits, no operation leaves the range
of its counter, and when all calls have returned the counters are what has been
granted, as if the refused calls had never been made. -/
theorem quotas_hold (config : RelayConfig) (hsession : config.maxBytesPerSession ≠ 0)
    (htotal : config.maxBytesTotal ≠ 0) (actions : List QuotaAction) {s : Quotas}
    (hrun : s = Quotas.run { config } actions) :
    (∀ i, grantedTo i s.calls ≤ config.maxBytesPerSession.toNat) ∧
      grantedInAll s.calls ≤ config.maxBytesTotal.toNat ∧
      (∀ call ∈ s.calls, call.Exact s) ∧
      (Finished s.calls → (∀ i, (s.sessionBytes i).toNat = grantedTo i s.calls) ∧
        s.totalRelayBytes.toNat = grantedInAll s.calls) := by
  have hinv : s.config = config ∧ Accounted s := by
    rw [hrun]
    refine run_keeps (I := fun s => s.config = config ∧ Accounted s) actions
      ⟨rfl, accounted_start config⟩ fun s a h => ⟨(step_config s a).trans h.1, h.2.step ?_ ?_ a⟩
    · rw [h.1]
      exact hsession
    · rw [h.1]
      exact htotal
  obtain ⟨rfl, h⟩ := hinv
  refine ⟨fun i => ?_, ?_, fun call hcall => h.exact hcall, fun hfinished => ⟨fun i => ?_, ?_⟩⟩
  · have hle := UInt64.le_iff_toNat_le.1 (h.sessionLimit i)
    rw [h.session i] at hle
    refine (bytesOf_mono fun call _ hgranted => ?_).trans hle
    rw [Bool.and_eq_true, beq_iff_eq, beq_iff_eq] at hgranted
    rw [hgranted.1, hgranted.2]
    simp [CallStage.holdsSession]
  · have hle := UInt64.le_iff_toNat_le.1 h.totalLimit
    rw [h.total] at hle
    refine (bytesOf_mono fun call _ hgranted => ?_).trans hle
    rw [beq_iff_eq] at hgranted
    rw [hgranted]
    rfl
  · rw [h.session i]
    refine bytesOf_congr fun call hcall => ?_
    rcases hfinished call hcall with hstage | hstage
    · rw [hstage]
      rfl
    · rw [hstage]
      rfl
  · rw [h.total]
    refine bytesOf_congr fun call hcall => ?_
    rcases hfinished call hcall with hstage | hstage
    · rw [hstage]
      rfl
    · rw [hstage]
      rfl

/-- Two relays reserve 60 bytes each of the server's 100 at the same time, and the
second gives back what it has from its session. -/
def twoRelays : List QuotaAction :=
  [.call 0 60, .call 1 60] ++ (List.replicate 4 [.goOn 0 false, .goOn 1 false]).flatten ++
    [.goOn 0 false, .goOn 1 false]

theorem quotas_hold_two :
    let s := Quotas.run { config := { maxBytesTotal := 100 } } twoRelays
    grantedInAll s.calls ≤ 100 ∧ (∀ i, (s.sessionBytes i).toNat = grantedTo i s.calls) ∧
      s.totalRelayBytes.toNat = grantedInAll s.calls := by
  have h := quotas_hold { maxBytesTotal := 100 } (by decide) (by decide) twoRelays rfl
  refine ⟨h.2.1, h.2.2.2 ?_⟩
  show ∀ call ∈ _, _ ∨ _
  decide +kernel

end DartUdp.Server
