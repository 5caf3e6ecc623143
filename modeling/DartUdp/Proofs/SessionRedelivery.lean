import DartUdp.Lib.Replays
import DartUdp.Proofs.SessionConsent
import DartUdp.Proofs.SessionTerminal

/-!
# Messages of the offer that come again

An accepter should not mind that a message of the offer it has already taken
comes again. It does not before the `ManifestBegin` and after the `ManifestEnd`.
In between it does: a repeated `ManifestBegin` throws away the items that have
come, and a repeated item is one too many once all of them are there.

The module is for `redelivery_iff`. `Admits` and `Refuses` are what a session does
with one message; the lemmas take the messages of the offer in their order, and
`exchange_iff` puts them together.
-/

namespace DartUdp.Session

open DartUdp.Lib DartUdp.Transfer

variable {s s' : TransferSession} {offerer : TransferSession} {m m' : Manifest}

/-- The message an entry is sent in. -/
def ManifestEntry.message (e : ManifestEntry) : TransferControl :=
  .manifestItem e.fileId e.relativePath e.size e.contentHash e.metadata

/-- The items up to the first `ManifestEnd`, of which `got` have come: none comes
when all are there, and since the last `ManifestBegin` each of them has come, in
the order of the manifest. -/
def Fitting (items : List ManifestEntry) : List ManifestEntry → List TransferControl → Prop
  | _, [] => True
  | _, .manifestBegin .. :: rest => Fitting items [] rest
  | got, .manifestItem fileId relativePath size contentHash metadata :: rest =>
      got.length < items.length ∧
        Fitting items
          (if ⟨fileId, relativePath, size, contentHash, metadata⟩ ∈ got then got
            else got ++ [⟨fileId, relativePath, size, contentHash, metadata⟩]) rest
  | got, .manifestEnd _ :: _ => got = items
  | got, _ :: rest => Fitting items got rest

/-- Every message is taken, and the session ends up as `s'`. -/
structure Tolerates (s : TransferSession) (deliveries : List TransferControl)
    (s' : TransferSession) : Prop where
  taken : ∀ t ∈ history s (deliveries.map .handleControl), t.answer.isSome
  final : final s (deliveries.map .handleControl) = s'

/-- The message is taken, and leaves the session as `s'`. -/
abbrev Admits (s : TransferSession) (message : TransferControl) (s' : TransferSession) : Prop :=
  Ends (handleControl message) s (fun _ s₁ => s₁ = s') fun _ _ => False

/-- The message is refused. -/
abbrev Refuses (s : TransferSession) (message : TransferControl) : Prop :=
  Ends (handleControl message) s (fun _ _ => False) fun _ _ => True

theorem Admits.run {message : TransferControl} (h : Admits s message s') :
    ∃ events, take s (.handleControl message) = ⟨s, .handleControl message, some events, s'⟩ := by
  unfold take
  cases hrun : perform (.handleControl message) s with
  | ok events s₁ =>
      obtain rfl := h.ok hrun
      exact ⟨events, by simp [answer, after, hrun]⟩
  | error e s₁ => exact (h.error hrun).elim

theorem tolerates_nil : Tolerates s [] s' ↔ s = s' :=
  ⟨fun h => h.final, fun h => ⟨by simp [history], h⟩⟩

theorem Admits.tolerates_iff {message : TransferControl} {rest : List TransferControl}
    {s₁ : TransferSession} (h : Admits s message s₁) :
    Tolerates s (message :: rest) s' ↔ Tolerates s₁ rest s' := by
  obtain ⟨events, hrun⟩ := h.run
  have hsteps : history s ((message :: rest).map .handleControl) =
      ⟨s, .handleControl message, some events, s₁⟩ ::
        history s₁ (rest.map .handleControl) := by
    simp only [List.map_cons, history, hrun]
  have hfinal : Session.final s ((message :: rest).map .handleControl) =
      Session.final s₁ (rest.map .handleControl) := by
    simp only [Session.final, List.map_cons, List.foldl_cons, hrun]
  constructor
  · rintro ⟨htaken, hend⟩
    rw [hsteps] at htaken
    exact ⟨fun t ht => htaken t (List.mem_cons_of_mem _ ht), hfinal.symm.trans hend⟩
  · rintro ⟨htaken, hend⟩
    refine ⟨?_, hfinal.trans hend⟩
    rw [hsteps]
    intro t ht
    rcases List.mem_cons.1 ht with rfl | ht
    · rfl
    · exact htaken t ht

theorem Refuses.not_tolerates {message : TransferControl} {rest : List TransferControl}
    (h : Refuses s message) : ¬ Tolerates s (message :: rest) s' := by
  intro htol
  have hsome := htol.taken (take s (.handleControl message)) (by simp [history])
  unfold take answer at hsome
  cases hrun : perform (.handleControl message) s with
  | ok events s₁ => exact h.ok hrun
  | error e s₁ => simp [hrun] at hsome

/-! ## The stages of the exchange -/

/-- The session is the accepter the offer is meant for. -/
structure Suits (offerer s : TransferSession) : Prop where
  role : s.role = .accepter
  transferId : s.transferId = offerer.transferId
  version : s.config.protocolVersion = offerer.config.protocolVersion
  suite : s.config.cryptoSuite = offerer.config.cryptoSuite

/-- The session after the hello. -/
def TransferSession.met (s : TransferSession) (digest : Digest) : TransferSession :=
  { s with remoteManifestDigest := some digest, state := .receivingManifest }

/-- The session after the begin and the items of `got`. -/
def TransferSession.taking (s : TransferSession) (m : Manifest) (got : List ManifestEntry) :
    TransferSession :=
  { s.met m.digest with assembly := some ⟨m.fileCount, m.totalSize, m.digest, got⟩ }

/-- The session after the end, with `m'` made of what has come. -/
def TransferSession.received (s : TransferSession) (digest : Digest) (m' : Manifest) :
    TransferSession :=
  { ({ s.met digest with assembly := none } : TransferSession).installManifest m' with
    state := .awaitingDecision }

/-- The hello of the offer. -/
def TransferSession.hello (s : TransferSession) (digest : Digest) : TransferControl :=
  .sessionHello s.transferId s.config.protocolVersion s.config.cryptoSuite digest s.transferId

theorem hello_admits (h : Suits offerer s) (hst : s.state = .awaitingHello) (digest : Digest) :
    Admits s (offerer.hello digest) (s.met digest) := by
  simp [Admits, TransferSession.hello, handleControl, handleSessionHello, h.role, h.transferId,
    h.version, h.suite, hst, TransferSession.met]

theorem hello_again (h : Suits offerer s) (hst : s.state ≠ .awaitingHello) {digest : Digest}
    (hremote : s.remoteManifestDigest = some digest) : Admits s (offerer.hello digest) s := by
  simp [Admits, TransferSession.hello, handleControl, handleSessionHello, h.role, h.transferId, hst,
    hremote]

theorem begin_admits (hrole : s.role = .accepter) (hst : s.state = .receivingManifest)
    (hremote : s.remoteManifestDigest = some m.digest) :
    Admits s (.manifestBegin m.fileCount m.totalSize m.digest)
      { s with assembly := some ⟨m.fileCount, m.totalSize, m.digest, []⟩ } := by
  have hcount : m.fileCount ≤ maxManifestFiles := m.ok.length
  simp [Admits, handleControl, handleManifestBegin, hrole, hst, hremote, hcount]

theorem find_entry {got : List ManifestEntry} (hgot : ∀ e ∈ got, e ∈ m.entries)
    {e : ManifestEntry} (he : e ∈ m.entries) :
    got.find? (·.fileId = e.fileId) = if e ∈ got then some e else none := by
  cases hfind : got.find? (·.fileId = e.fileId) with
  | none =>
      have hno := List.find?_eq_none.1 hfind e
      simp only [decide_true, not_true, imp_false] at hno
      rw [if_neg hno]
  | some e' =>
      have hmem := List.mem_of_find?_eq_some hfind
      have hid : e'.fileId = e.fileId := by simpa using List.find?_some hfind
      obtain rfl := List.inj_on_of_nodup_map m.ok.ids (hgot e' hmem) he hid
      rw [if_pos hmem]

/-- The entry a message of the manifest is read as. -/
theorem entry_new {e : ManifestEntry} (he : e ∈ m.entries) :
    ManifestEntry.new e.fileId e.relativePath e.size e.contentHash e.metadata = .ok e := by
  rw [ManifestEntry.new, if_pos (m.ok.paths e he)]

theorem item_refused (hrole : s.role = .accepter) {got : List ManifestEntry}
    (hfull : ¬ got.length < m.entries.length) {e : ManifestEntry} (he : e ∈ m.entries) :
    Refuses (s.taking m got) e.message := by
  have hfull : m.fileCount ≤ got.length := Nat.le_of_not_lt hfull
  simp [Refuses, ManifestEntry.message, handleControl, entry_new he, handleManifestItem,
    TransferSession.taking, TransferSession.met, hrole, hfull]

theorem item_admits (hrole : s.role = .accepter) {got : List ManifestEntry}
    (hgot : ∀ e ∈ got, e ∈ m.entries) (hroom : got.length < m.entries.length)
    {e : ManifestEntry} (he : e ∈ m.entries) :
    Admits (s.taking m got) e.message (s.taking m (if e ∈ got then got else got ++ [e])) := by
  have hroom : ¬ m.fileCount ≤ got.length := Nat.not_le.2 hroom
  simp only [Admits, ManifestEntry.message, handleControl, entry_new he, handleManifestItem,
    TransferSession.taking, TransferSession.met, ends_steps, ends_requireRole, hrole, ge_iff_le,
    hroom, find_entry hgot he]
  by_cases hin : e ∈ got
  · simp [hin]
  · simp [hin]

theorem totalSize_eq {entries : List ManifestEntry} {sum : Nat}
    (h : sum + (entries.map (·.size)).sum ≤ u64Max) :
    totalSize entries sum = .ok (sum + (entries.map (·.size)).sum) := by
  induction entries generalizing sum with
  | nil => rfl
  | cons e rest ih =>
      rw [List.map_cons, List.sum_cons] at h ⊢
      have hadd : checkedAdd sum e.size = some (sum + e.size) :=
        checkedAdd_eq_some.2 ⟨by omega, rfl⟩
      simp only [totalSize, hadd]
      rw [ih (by omega), Nat.add_assoc]

/-- All the items give the manifest. -/
theorem finish_whole (hm : Manifest.new m.digest m.entries = .ok m) :
    ManifestAssembly.finish ⟨m.fileCount, m.totalSize, m.digest, m.entries⟩ m.digest = .ok m := by
  have hsum : totalSize m.entries 0 = .ok m.totalSize := by
    have hle : 0 + (m.entries.map (·.size)).sum ≤ u64Max := by
      rw [m.ok.sum, Nat.zero_add]
      exact m.ok.bound
    rw [totalSize_eq hle, m.ok.sum, Nat.zero_add]
  simp [ManifestAssembly.finish, Manifest.fileCount, hsum, hm]

/-- A manifest made of the items that have come has these for its entries. -/
theorem entries_of_finish {assembly : ManifestAssembly} {digest : Digest}
    (h : assembly.finish digest = .ok m') :
    m'.digest = digest ∧ m'.entries = assembly.entries := by
  unfold ManifestAssembly.finish at h
  split at h
  · cases h
  split at h
  · cases h
  split at h
  · cases h
  split at h
  · cases h
  · exact Manifest.new_ok h

theorem end_refused (hrole : s.role = .accepter) {got : List ManifestEntry} {e : CoreError}
    (h : ManifestAssembly.finish ⟨m.fileCount, m.totalSize, m.digest, got⟩ m.digest = .error e) :
    Refuses (s.taking m got) (.manifestEnd m.digest) := by
  simp [Refuses, handleControl, handleManifestEnd, TransferSession.taking, TransferSession.met,
    hrole, h]

theorem end_admits (hrole : s.role = .accepter) {got : List ManifestEntry}
    (h : ManifestAssembly.finish ⟨m.fileCount, m.totalSize, m.digest, got⟩ m.digest = .ok m') :
    Admits (s.taking m got) (.manifestEnd m.digest) (s.received m.digest m') := by
  simp [Admits, handleControl, handleManifestEnd, TransferSession.taking, TransferSession.met,
    TransferSession.received, TransferSession.installManifest, hrole, h]

/-! ## After the exchange -/

theorem mem_offer {message : TransferControl} :
    message ∈ offerer.offer m ↔ message = offerer.hello m.digest ∨
      message = .manifestBegin m.fileCount m.totalSize m.digest ∨
      (∃ e ∈ m.entries, message = e.message) ∨ message = .manifestEnd m.digest := by
  simp only [TransferSession.offer, TransferSession.hello, ManifestEntry.message,
    List.cons_append, List.mem_cons, List.mem_append, List.mem_map, List.not_mem_nil, or_false,
    eq_comm (b := message)]

/-- A message of the offer that comes after the end changes nothing. -/
theorem received_admits (h : Suits offerer s) {message : TransferControl}
    (hmessage : message ∈ offerer.offer m) (hdigest : m'.digest = m.digest) :
    Admits (s.received m.digest m') message (s.received m.digest m') ∨
      m' ≠ m ∧ Refuses (s.received m.digest m') message := by
  rcases mem_offer.1 hmessage with rfl | rfl | ⟨e, he, rfl⟩ | rfl
  · have hs : Suits offerer (s.received m.digest m') := ⟨h.role, h.transferId, h.version, h.suite⟩
    exact .inl (hello_again hs (by simp [TransferSession.received]) rfl)
  · left
    simp [Admits, handleControl, handleManifestBegin, TransferSession.received,
      TransferSession.met, TransferSession.installManifest, h.role, hdigest]
  · by_cases hentry : m'.entry e.fileId = some e
    · left
      simp [Admits, ManifestEntry.message, handleControl, entry_new he, handleManifestItem,
        TransferSession.received, TransferSession.met, TransferSession.installManifest, h.role,
        hentry]
    · refine .inr ⟨fun heq => hentry ?_, ?_⟩
      · rw [heq]
        exact Manifest.entry_of_mem he
      · simp [Refuses, ManifestEntry.message, handleControl, entry_new he, handleManifestItem,
          TransferSession.received, TransferSession.met, TransferSession.installManifest, h.role,
          hentry]
  · left
    simp [Admits, handleControl, handleManifestEnd, TransferSession.received,
      TransferSession.met, TransferSession.installManifest, h.role, hdigest]

theorem received_tolerates (h : Suits offerer s) {deliveries : List TransferControl}
    (hall : ∀ a ∈ deliveries, a ∈ offerer.offer m) :
    Tolerates (s.received m.digest m) deliveries (s.received m.digest m) := by
  induction deliveries with
  | nil => exact tolerates_nil.2 rfl
  | cons a rest ih =>
      have hsame : m.digest = m.digest := rfl
      rcases received_admits h (hall a List.mem_cons_self) hsame with hadmits | ⟨hne, _⟩
      · exact hadmits.tolerates_iff.2 (ih fun b hb => hall b (List.mem_cons_of_mem _ hb))
      · exact absurd rfl hne

theorem received_final (h : Suits offerer s) (hdigest : m'.digest = m.digest)
    {deliveries : List TransferControl} (hall : ∀ a ∈ deliveries, a ∈ offerer.offer m)
    (htol : Tolerates (s.received m.digest m') deliveries s') : s' = s.received m.digest m' := by
  induction deliveries with
  | nil => exact (tolerates_nil.1 htol).symm
  | cons a rest ih =>
      rcases received_admits h (hall a List.mem_cons_self) hdigest with hadmits | ⟨_, hrefuses⟩
      · exact ih (fun b hb => hall b (List.mem_cons_of_mem _ hb)) (hadmits.tolerates_iff.1 htol)
      · exact absurd htol hrefuses.not_tolerates

/-! ## The whole exchange -/

/-- From the begin on, by induction on what is delivered. -/
theorem taking_iff (h : Suits offerer s) (hm : Manifest.new m.digest m.entries = .ok m)
    {got : List ManifestEntry} (hgot : ∀ e ∈ got, e ∈ m.entries)
    {deliveries : List TransferControl} (hall : ∀ a ∈ deliveries, a ∈ offerer.offer m)
    (hend : .manifestEnd m.digest ∈ deliveries) :
    Tolerates (s.taking m got) deliveries (s.received m.digest m) ↔
      Fitting m.entries got deliveries := by
  induction deliveries generalizing got with
  | nil => cases hend
  | cons a rest ih =>
      have hrest : ∀ b ∈ rest, b ∈ offerer.offer m := fun b hb => hall b (List.mem_cons_of_mem _ hb)
      have hlater : a ≠ .manifestEnd m.digest → .manifestEnd m.digest ∈ rest := fun hne =>
        (List.mem_cons.1 hend).resolve_left fun heq => hne heq.symm
      rcases mem_offer.1 (hall a List.mem_cons_self) with rfl | rfl | ⟨e, he, rfl⟩ | rfl
      · have hs : Suits offerer (s.taking m got) := ⟨h.role, h.transferId, h.version, h.suite⟩
        have hadmits : Admits (s.taking m got) (offerer.hello m.digest) (s.taking m got) :=
          hello_again hs (by simp [TransferSession.taking, TransferSession.met]) rfl
        rw [hadmits.tolerates_iff]
        exact ih hgot hrest (hlater (by simp [TransferSession.hello]))
      · have hadmits : Admits (s.taking m got)
            (.manifestBegin m.fileCount m.totalSize m.digest) (s.taking m []) :=
          begin_admits h.role rfl rfl
        rw [hadmits.tolerates_iff]
        exact ih (by simp) hrest (hlater (by simp))
      · by_cases hroom : got.length < m.entries.length
        · rw [(item_admits h.role hgot hroom he).tolerates_iff]
          have hmem : ∀ e' ∈ (if e ∈ got then got else got ++ [e]), e' ∈ m.entries := by
            intro e' he'
            split at he'
            · exact hgot e' he'
            · rcases List.mem_append.1 he' with he' | he'
              · exact hgot e' he'
              · rwa [List.mem_singleton.1 he']
          rw [ih hmem hrest (hlater (by simp [ManifestEntry.message]))]
          exact (and_iff_right hroom).symm
        · exact iff_of_false (item_refused h.role hroom he).not_tolerates fun hfit => hroom hfit.1
      · cases hfinish : ManifestAssembly.finish ⟨m.fileCount, m.totalSize, m.digest, got⟩
            m.digest with
        | error e =>
            refine iff_of_false (end_refused h.role hfinish).not_tolerates fun hfit => ?_
            have hwhole : got = m.entries := hfit
            rw [hwhole, finish_whole hm] at hfinish
            cases hfinish
        | ok m' =>
            obtain ⟨hdigest, hentries⟩ := entries_of_finish hfinish
            rw [(end_admits h.role hfinish).tolerates_iff]
            constructor
            · intro htol
              have hsame := received_final h hdigest hrest htol
              have hmanifest : some m = some m' := congrArg TransferSession.manifest hsame
              exact hentries.symm.trans (congrArg Manifest.entries (Option.some.inj hmanifest)).symm
            · intro hfit
              have hwhole : got = m.entries := hfit
              rw [hwhole, finish_whole hm] at hfinish
              cases hfinish
              exact received_tolerates h hrest

/-- Repeated hellos before the begin. -/
theorem met_iff (h : Suits offerer s) {before rest : List TransferControl}
    (hbefore : ∀ a ∈ before, a = offerer.hello m.digest) :
    Tolerates (s.met m.digest) (before ++ rest) s' ↔ Tolerates (s.met m.digest) rest s' := by
  induction before with
  | nil => exact Iff.rfl
  | cons a before ih =>
      obtain rfl := hbefore a List.mem_cons_self
      have hs : Suits offerer (s.met m.digest) := ⟨h.role, h.transferId, h.version, h.suite⟩
      have hadmits : Admits (s.met m.digest) (offerer.hello m.digest) (s.met m.digest) :=
        hello_again hs (by simp [TransferSession.met]) rfl
      rw [List.cons_append, hadmits.tolerates_iff]
      exact ih fun b hb => hbefore b (List.mem_cons_of_mem _ hb)

theorem fitting_hellos {items got : List ManifestEntry} {before rest : List TransferControl}
    (hbefore : ∀ a ∈ before, a = offerer.hello m.digest) :
    Fitting items got (before ++ rest) ↔ Fitting items got rest := by
  induction before with
  | nil => exact Iff.rfl
  | cons a before ih =>
      obtain rfl := hbefore a List.mem_cons_self
      exact ih fun b hb => hbefore b (List.mem_cons_of_mem _ hb)

theorem exchange_iff (h : Suits offerer s) (hst : s.state = .awaitingHello)
    (hm : Manifest.new m.digest m.entries = .ok m) {deliveries : List TransferControl}
    (hreplays : Replays (offerer.offer m) deliveries) :
    Tolerates s deliveries (s.received m.digest m) ↔ Fitting m.entries [] deliveries := by
  have hmem : ∀ a, a ∈ deliveries ↔ a ∈ offerer.offer m := fun a => hreplays.mem_iff
  have hcut : Replays ([offerer.hello m.digest] ++
      .manifestBegin m.fileCount m.totalSize m.digest ::
        (m.entries.map ManifestEntry.message ++ [.manifestEnd m.digest])) deliveries := hreplays
  obtain ⟨before, rest, rfl, hbefore⟩ := hcut.cut
  have hhello : ∀ a ∈ before, a = offerer.hello m.digest :=
    fun a ha => List.mem_singleton.1 (hbefore.mem_iff.1 ha)
  cases before with
  | nil => cases hbefore.mem_iff.2 List.mem_cons_self
  | cons a before =>
      have hfirst := hhello a List.mem_cons_self
      have hhellos : ∀ b ∈ before, b = offerer.hello m.digest :=
        fun b hb => hhello b (List.mem_cons_of_mem _ hb)
      subst hfirst
      have hadmits : Admits (s.met m.digest) (.manifestBegin m.fileCount m.totalSize m.digest)
          (s.taking m []) := begin_admits h.role rfl rfl
      rw [List.cons_append, (hello_admits h hst m.digest).tolerates_iff, met_iff h hhellos,
        hadmits.tolerates_iff]
      have hend : TransferControl.manifestEnd m.digest ∈ rest := by
        have hin := (hmem (.manifestEnd m.digest)).2 (mem_offer.2 (.inr (.inr (.inr rfl))))
        rcases List.mem_append.1 hin with hin | hin
        · cases hhello _ hin
        · exact (List.mem_cons.1 hin).resolve_left (by simp)
      rw [taking_iff h hm (by simp) (fun b hb => (hmem b).1
        (List.mem_append_right _ (List.mem_cons_of_mem _ hb))) hend]
      rw [← List.cons_append, fitting_hellos hhello]
      exact Iff.rfl

/-- The items alone, each once and in order. -/
theorem fitting_items {got later : List ManifestEntry} (hnodup : (got ++ later).Nodup) :
    Fitting (got ++ later) got
      (later.map ManifestEntry.message ++ [.manifestEnd m.digest]) := by
  induction later generalizing got with
  | nil => exact (List.append_nil got).symm
  | cons e later ih =>
      have hnew : e ∉ got := fun h =>
        (List.disjoint_of_nodup_append hnodup) h List.mem_cons_self
      have hnext := @ih (got ++ [e]) (by simpa using hnodup)
      rw [List.append_assoc, List.singleton_append] at hnext
      refine ⟨by simp, ?_⟩
      rw [if_neg (show (⟨e.fileId, e.relativePath, e.size, e.contentHash, e.metadata⟩ :
        ManifestEntry) ∉ got from hnew)]
      exact hnext

theorem fitting_offer : Fitting m.entries [] (offerer.offer m) := by
  have hnodup : ([] ++ m.entries).Nodup := m.ok.ids.of_map
  exact fitting_items hnodup

/-- The accepter of a transfer is one its offer suits. -/
theorem suits_run {id : TransferId} {config config' : SessionConfig} {accepter : TransferSession}
    (hofferer : newOfferer id m config = .ok offerer)
    (haccepter : newAccepter id config' = .ok accepter)
    (hversion : config'.protocolVersion = config.protocolVersion)
    (hsuite : config'.cryptoSuite = config.cryptoSuite) (ops : List Op) :
    Suits offerer (final accepter ops) := by
  have hrun := accepting_run haccepter ops
  have hconfig : (final accepter ops).config = config' := by
    rw [config_run, (newAccepter_ok haccepter).2]
  have hown : offerer.transferId = id ∧ offerer.config = config := by
    obtain ⟨-, rfl⟩ := newOfferer_ok hofferer
    exact ⟨rfl, rfl⟩
  exact ⟨hrun.role, hrun.transferId.trans hown.1.symm, by rw [hconfig, hown.2, hversion],
    by rw [hconfig, hown.2, hsuite]⟩

/-- **The offer again.** The messages of an offer come in order to an accepter
that waits for it, with repetitions of those that have come. All are taken, and
the accepter ends up as without the repetitions, exactly if no item comes when
all have come and the `ManifestEnd` finds every item sent again that a repeated
`ManifestBegin` has thrown away. -/
theorem redelivery_iff {id : TransferId} {digest : Digest} {entries : List ManifestEntry}
    {config config' : SessionConfig} {accepter : TransferSession} {ops : List Op}
    {deliveries : List TransferControl} (hm : Manifest.new digest entries = .ok m)
    (hofferer : newOfferer id m config = .ok offerer)
    (haccepter : newAccepter id config' = .ok accepter)
    (hversion : config'.protocolVersion = config.protocolVersion)
    (hsuite : config'.cryptoSuite = config.cryptoSuite)
    (hst : (final accepter ops).state = .awaitingHello)
    (hreplays : Replays (offerer.offer m) deliveries) :
    Tolerates (final accepter ops) deliveries
        (final (final accepter ops) ((offerer.offer m).map .handleControl)) ↔
      Fitting m.entries [] deliveries := by
  have hsuits := suits_run hofferer haccepter hversion hsuite ops
  obtain ⟨hdigest, hentries⟩ := Manifest.new_ok hm
  rw [← hdigest, ← hentries] at hm
  have hplain := (exchange_iff hsuits hst hm (.refl _)).2 fitting_offer
  rw [hplain.final]
  exact exchange_iff hsuits hst hm hreplays

/-! ## An offer of one file, with repetitions -/

def sampleManifest : Manifest where
  digest := sampleDigest
  entries := [sampleFile.entry]
  totalSize := 3
  ok := ⟨by decide, by decide, by decide, rfl, by decide⟩

def sampleSender : TransferSession :=
  TransferSession.installManifest { role := .offerer, transferId := sampleId, config := {} }
    sampleManifest

def sampleMessages : List TransferControl := sampleSender.offer sampleManifest

/-- The hello and the begin come twice before the item, and all of them once
more after the end. -/
def sampleRepeated : List TransferControl :=
  sampleMessages.take 2 ++ sampleMessages.take 2 ++ sampleMessages.drop 2 ++ sampleMessages

theorem sampleRepeated_replays : Replays sampleMessages sampleRepeated := by
  have hfirst : Replays (sampleMessages.take 2) (sampleMessages.take 2 ++ sampleMessages.take 2) :=
    (Replays.refl _).agains fun _ h => h
  have hall : Replays sampleMessages
      (sampleMessages.take 2 ++ sampleMessages.take 2 ++ sampleMessages.drop 2) :=
    (hfirst.next sampleFile.entry.message).next (.manifestEnd sampleDigest)
  exact hall.agains fun _ h => h

theorem redelivery_iff_sample :
    Manifest.new sampleDigest [sampleFile.entry] = .ok sampleManifest ∧
      newOfferer sampleId sampleManifest {} = .ok sampleSender ∧
      newAccepter sampleId {} = .ok sampleAccepter ∧
      Replays (sampleSender.offer sampleManifest) sampleRepeated ∧
      Tolerates (final sampleAccepter [.start]) sampleRepeated
        (final (final sampleAccepter [.start])
          ((sampleSender.offer sampleManifest).map .handleControl)) := by
  have hm : Manifest.new sampleDigest [sampleFile.entry] = .ok sampleManifest := rfl
  have hofferer : newOfferer sampleId sampleManifest {} = .ok sampleSender := rfl
  have haccepter : newAccepter sampleId {} = .ok sampleAccepter := rfl
  have hst : (final sampleAccepter [.start]).state = .awaitingHello := by decide +kernel
  have hfitting : Fitting sampleManifest.entries [] sampleRepeated :=
    ⟨by decide, rfl⟩
  exact ⟨hm, hofferer, haccepter, sampleRepeated_replays, (redelivery_iff hm hofferer haccepter
    rfl rfl hst sampleRepeated_replays).2 hfitting⟩

/-- **An item too many.** The only item of the offer comes again before the end,
and is refused. -/
theorem repeated_item_refused : ∃ deliveries,
    Replays (sampleSender.offer sampleManifest) deliveries ∧
    failure (handleControl sampleFile.entry.message)
      (final sampleAccepter (.start :: (sampleMessages.take 3).map .handleControl)) =
      some (.manifestCountMismatch 1 2) ∧
    ¬ Tolerates (final sampleAccepter [.start]) deliveries
      (final (final sampleAccepter [.start]) (sampleMessages.map .handleControl)) := by
  have hthree : Replays (sampleMessages.take 3)
      (sampleMessages.take 3 ++ [sampleFile.entry.message]) :=
    (Replays.refl _).again (by decide)
  refine ⟨_, hthree.next (.manifestEnd sampleDigest), by decide +kernel, fun htol => ?_⟩
  have hsome := List.all_eq_true.2 htol.taken
  revert hsome
  decide +kernel

end DartUdp.Session
