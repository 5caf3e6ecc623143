import DartUdp.Lib.Runs
import DartUdp.Proofs.ServerSteps

/-!
# The offerer's messages reach the accepter in order

The messages of the offerer that are kept or forwarded are numbered in turn. The
numbers in the queue of the accepter, then those its own task has yet to write, the
pending messages it has taken in joining, and then those of the offerer's task are
0, 1, 2, ..., unless a write has failed. A step could only break this by writing for
the offerer while pending messages are still to be written, and that is what nothing
in the server prevents.

The module is for `forwarded_in_order`. `Ordered` is the invariant, `Effect.ordered`
keeps it under every effect that is no overtaking, and `Lined.forwarded_prefix`
reads the queue off it.
-/

namespace DartUdp.Server

open DartUdp.Lib DartUdp.Protocol
open DartUdp.Transfer (TransferId Digest)
open DartUdp.Session (RelayId)

variable {s s' : Rendezvous} {c c' : Locked} {peer : Peer} {who : Option Peer}

/-! ## Numbers and what they stand for -/

/-- A numbered entry is for the accepter and has the message of that number. -/
def Outgoing.Carries (accepter : Peer) (routed : List Message) (out : Outgoing) : Prop :=
  ∀ i, out.number = some i → out.target = accepter ∧ routed[i]? = some out.message

def Task.Carries (accepter : Peer) (routed : List Message) (task : Task) : Prop :=
  (∀ out ∈ task.sends, out.Carries accepter routed) ∧
    ∀ message t requestId target i, task.stage = .offering message t requestId target (some i) →
      target = accepter ∧ routed[i]? = some message

theorem Outgoing.carries_of_none {accepter : Peer} {routed : List Message} {out : Outgoing}
    (h : out.number = none) : out.Carries accepter routed := by
  intro i hi
  rw [h] at hi
  cases hi

theorem Outgoing.Carries.append {accepter : Peer} {routed : List Message} {out : Outgoing}
    (h : out.Carries accepter routed) (message : Message) :
    out.Carries accepter (routed ++ [message]) := by
  intro i hi
  obtain ⟨htarget, hmessage⟩ := h i hi
  exact ⟨htarget, by
    rw [List.getElem?_append_left (List.getElem?_eq_some_iff.1 hmessage).1, hmessage]⟩

theorem Task.Carries.append {accepter : Peer} {routed : List Message} {task : Task}
    (h : task.Carries accepter routed) (message : Message) :
    task.Carries accepter (routed ++ [message]) := by
  refine ⟨fun out hout => (h.1 out hout).append message, ?_⟩
  intro m t requestId target i hstage
  obtain ⟨htarget, hm⟩ := h.2 m t requestId target i hstage
  exact ⟨htarget, by rw [List.getElem?_append_left (List.getElem?_eq_some_iff.1 hm).1, hm]⟩

theorem inFlight_of_ended {stage : Stage} (h : stage = .listening ∨ stage = .stopped) :
    stage.inFlight = [] := by
  rcases h with rfl | rfl
  · rfl
  · rfl

theorem Task.inFlight_of_neutral {task : Task} (hneutral : ∀ out ∈ task.sends, out.Neutral)
    (hstage : task.stage.inFlight = []) : task.inFlight = [] := by
  rw [Task.inFlight, numbers_of_neutral hneutral, hstage]
  rfl

theorem carries_of_numbers_eq_nil {accepter : Peer} {routed : List Message}
    {outs : List Outgoing} (h : numbers outs = []) :
    ∀ out ∈ outs, out.Carries accepter routed := by
  intro out hout i hi
  rw [List.filterMap_eq_nil_iff.1 h out hout] at hi
  cases hi

theorem Task.carries_of_inFlight_eq_nil {accepter : Peer} {routed : List Message} {task : Task}
    (h : task.inFlight = []) : task.Carries accepter routed := by
  obtain ⟨hsends, hstage⟩ := List.append_eq_nil_iff.1 h
  refine ⟨carries_of_numbers_eq_nil hsends, ?_⟩
  intro message t requestId target i hoffering
  rw [hoffering] at hstage
  cases hstage

theorem numbers_append (outs outs' : List Outgoing) :
    numbers (outs ++ outs') = numbers outs ++ numbers outs' := List.filterMap_append ..

theorem numbers_cons_none {out : Outgoing} {outs : List Outgoing} (h : out.number = none) :
    numbers (out :: outs) = numbers outs := List.filterMap_cons_none h

theorem numbers_cons_some {out : Outgoing} {outs : List Outgoing} {i : Nat}
    (h : out.number = some i) : numbers (out :: outs) = i :: numbers outs :=
  List.filterMap_cons_some h

/-! ## The order -/

/-- The message that a task has read and not yet kept or forwarded. -/
def Task.underWay (task : Task) : List Message :=
  match task.stage with
  | .authorizing message _ | .targeting message _ => [message]
  | _ => []

/-- The numbers of the offerer's messages from the queue of the accepter back to the
task of the offerer. -/
def Rendezvous.line (s : Rendezvous) (accepter : Peer) : List Nat :=
  numbers (s.queues accepter) ++ (s.tasks accepter).inFlight ++
    (s.tasks s.locked.state.offerer).inFlight

/-- Nothing of the offerer has been written, and all that was routed is pending. -/
structure Waiting (s : Rendezvous) : Prop where
  queue : ∀ q, numbers (s.queues q) = []
  task : ∀ p, (s.tasks p).inFlight = []
  pending : s.locked.state.pendingForAccepter.map (·.1) = s.routed

/-- The offerer's messages are on their way to the accepter, in order. -/
structure Lined (s : Rendezvous) (accepter : Peer) : Prop where
  queue : ∀ q, q ≠ accepter → numbers (s.queues q) = []
  task : ∀ p, p ≠ accepter → p ≠ s.locked.state.offerer → (s.tasks p).inFlight = []
  line : (s.line accepter).Sublist (List.range s.routed.length)
  complete : s.broken = false → s.line accepter = List.range s.routed.length
  queueCarries : ∀ q, ∀ out ∈ s.queues q, out.Carries accepter s.routed
  taskCarries : ∀ p, (s.tasks p).Carries accepter s.routed

structure Ordered (s : Rendezvous) : Prop where
  read : (s.routed ++ (s.tasks s.locked.state.offerer).underWay).Sublist s.read
  waiting : s.locked.state.accepter = none → Waiting s
  lined : ∀ a, s.locked.state.accepter = some a → Lined s a

/-! ## Steps that move no message of the offerer -/

/-- A message under way stays so, or is no more. -/
theorem Ordered.read_update (h : Ordered s) {task : Task} {read : List Message}
    (hread : s.read.Sublist read) (hunder : task.underWay.Sublist (s.tasks peer).underWay) :
    (s.routed ++ (Function.update s.tasks peer task s.locked.state.offerer).underWay).Sublist
      read := by
  refine (List.Sublist.append_left ?_ _).trans (h.read.trans hread)
  by_cases hp : s.locked.state.offerer = peer
  · rw [hp, Function.update_self]
    exact hunder
  · rw [Function.update_of_ne hp]

theorem underWay_of_ended {task : Task} (h : task.stage = .listening ∨ task.stage = .stopped) :
    task.underWay = [] := by
  unfold Task.underWay
  rcases h with h | h
  · rw [h]
  · rw [h]

/-- One task changes and may lose what it had to write; the queues get nothing of
the offerer's. -/
theorem Ordered.update (h : Ordered s) {task : Task}
    (htasks : s'.tasks = Function.update s.tasks peer task) (hrouted : s'.routed = s.routed)
    (hkept : Kept s.locked s'.locked) (hbroken : s.broken = true → s'.broken = true)
    (hnumbers : ∀ q, numbers (s'.queues q) = numbers (s.queues q))
    (hqueues : ∀ q, ∀ out ∈ s'.queues q, out ∈ s.queues q ∨ out.number = none)
    (hread : (s'.routed ++ (s'.tasks s'.locked.state.offerer).underWay).Sublist s'.read)
    (hflight : task.inFlight = (s.tasks peer).inFlight ∨
      s'.broken = true ∧ task.inFlight = [])
    (hcarries : ∀ a, s.locked.state.accepter = some a → task.Carries a s.routed) :
    Ordered s' := by
  have hother (p : Peer) (hp : p ≠ peer) : s'.tasks p = s.tasks p := by
    rw [htasks, Function.update_of_ne hp]
  have hself : s'.tasks peer = task := by
    rw [htasks, Function.update_self]
  have hless (p : Peer) : (s'.tasks p).inFlight.Sublist (s.tasks p).inFlight := by
    by_cases hp : p = peer
    · rw [hp, hself]
      rcases hflight with hflight | ⟨-, hflight⟩
      · rw [hflight]
      · rw [hflight]
        exact List.nil_sublist _
    · rw [hother p hp]
  have hsame (hwhole : s'.broken = false) (p : Peer) :
      (s'.tasks p).inFlight = (s.tasks p).inFlight := by
    by_cases hp : p = peer
    · rw [hp, hself]
      rcases hflight with hflight | ⟨hbroken', -⟩
      · exact hflight
      · rw [hwhole] at hbroken'
        cases hbroken'
    · rw [hother p hp]
  have hnothing {p : Peer} (hp : (s.tasks p).inFlight = []) : (s'.tasks p).inFlight = [] := by
    have hsub := hless p
    rw [hp] at hsub
    exact List.sublist_nil.1 hsub
  refine ⟨hread, fun hvacant => ?_, fun a ha => ?_⟩
  · have hwaiting := h.waiting (hkept.accepter.symm.trans hvacant)
    refine ⟨fun q => (hnumbers q).trans (hwaiting.queue q), fun p => hnothing (hwaiting.task p), ?_⟩
    rw [hkept.pending, hrouted]
    exact hwaiting.pending
  · rw [hkept.accepter] at ha
    have hlined := h.lined a ha
    refine ⟨fun q hq => (hnumbers q).trans (hlined.queue q hq), fun p hp hp' => ?_, ?_, ?_, ?_, ?_⟩
    · rw [hkept.offerer] at hp'
      exact hnothing (hlined.task p hp hp')
    · rw [hrouted]
      refine List.Sublist.trans ?_ hlined.line
      rw [Rendezvous.line, Rendezvous.line, hnumbers, hkept.offerer]
      exact (((List.Sublist.refl _).append (hless a)).append (hless _))
    · intro hwhole
      have hwas : s.broken = false := by
        cases hb : s.broken with
        | false => rfl
        | true =>
            rw [hbroken hb] at hwhole
            cases hwhole
      rw [hrouted, ← hlined.complete hwas, Rendezvous.line, Rendezvous.line, hnumbers,
        hkept.offerer, hsame hwhole, hsame hwhole]
    · intro q out hout
      rw [hrouted]
      exact (hqueues q out hout).elim (hlined.queueCarries q out) Outgoing.carries_of_none
    · intro p
      rw [hrouted]
      by_cases hp : p = peer
      · rw [hp, hself]
        exact hcarries a ha
      · rw [hother p hp]
        exact hlined.taskCarries p

/-! ## Steps that move one -/

/-- The step writes a message of the offerer while the accepter's task has still
pending messages to write. -/
def Rendezvous.overtakes (s : Rendezvous) : Action → Bool
  | .goOn peer =>
      match (s.tasks peer).sends, s.locked.state.accepter with
      | out :: _, some accepter =>
          peer == s.locked.state.offerer && out.number.isSome &&
            !(s.tasks accepter).inFlight.isEmpty
      | _, _ => false
  | _ => false

/-- A message of the offerer goes from its task, or the accepter's, to the queue. -/
theorem Ordered.writes (h : Ordered s) (hsane : Sane s) {out : Outgoing} {task : Task} {i : Nat}
    (htasks : s'.tasks = Function.update s.tasks peer task)
    (hqueues : s'.queues = pushed s.queues out) (hlocked : s'.locked = s.locked)
    (hread : s'.read = s.read) (hrouted : s'.routed = s.routed) (hbroken : s'.broken = s.broken)
    (hsends : (s.tasks peer).sends = out :: task.sends) (hi : out.number = some i)
    (hstage : task.stage = (s.tasks peer).stage)
    (hturn : ∀ a, s.locked.state.accepter = some a → peer = s.locked.state.offerer →
      (s.tasks a).inFlight = []) : Ordered s' := by
  have hwrites : (s.tasks peer).inFlight = i :: task.inFlight := by
    rw [Task.inFlight, Task.inFlight, hsends, numbers_cons_some hi, hstage]
    rfl
  refine ⟨?_, fun hvacant => ?_, fun a ha => ?_⟩
  · rw [htasks, hlocked, hread, hrouted]
    refine h.read_update (List.Sublist.refl _) ?_
    rw [Task.underWay, Task.underWay, hstage]
  · rw [hlocked] at hvacant
    rw [(h.waiting hvacant).task peer] at hwrites
    cases hwrites
  · rw [hlocked] at ha
    have hlined := h.lined a ha
    have hne : s.locked.state.offerer ≠ a := by
      rintro rfl
      exact hsane.vacant ha
    obtain ⟨rfl, hmessage⟩ := (hlined.taskCarries peer).1 out (by simp [hsends]) i hi
    have hpeer : peer = out.target ∨ peer = s.locked.state.offerer := by
      by_contra hp
      rw [not_or] at hp
      rw [hlined.task peer hp.1 hp.2] at hwrites
      cases hwrites
    have hline : s'.line out.target = s.line out.target := by
      rw [Rendezvous.line, Rendezvous.line, htasks, hqueues, hlocked, pushed, Function.update_self,
        numbers_append, numbers_cons_some hi]
      rcases hpeer with rfl | hpeer
      · rw [Function.update_self, Function.update_of_ne hne, hwrites]
        simp [numbers]
      · rw [← hpeer, Function.update_self, Function.update_of_ne (by rw [hpeer]; exact hne.symm),
          hwrites, hturn _ ha hpeer]
        simp [numbers]
    refine ⟨fun q hq => ?_, fun p hp hp' => ?_, ?_, ?_, fun q x hx => ?_, fun p => ?_⟩
    · rw [hqueues, pushed, Function.update_of_ne hq]
      exact hlined.queue q hq
    · rw [hlocked] at hp'
      have hne' : p ≠ peer := by
        rintro rfl
        exact hpeer.elim hp hp'
      rw [htasks, Function.update_of_ne hne']
      exact hlined.task p hp hp'
    · rw [hline, hrouted]
      exact hlined.line
    · rw [hline, hrouted, hbroken]
      exact hlined.complete
    · rw [hrouted]
      rw [hqueues, pushed] at hx
      by_cases hq : q = out.target
      · rw [hq, Function.update_self] at hx
        rcases List.mem_append.1 hx with hx | hx
        · exact hlined.queueCarries _ x hx
        · rw [List.mem_singleton.1 hx]
          exact (hlined.taskCarries peer).1 out (by simp [hsends])
      · rw [Function.update_of_ne hq] at hx
        exact hlined.queueCarries q x hx
    · rw [htasks, hrouted]
      by_cases hp : p = peer
      · rw [hp, Function.update_self]
        refine ⟨fun x hx => (hlined.taskCarries peer).1 x ?_, ?_⟩
        · rw [hsends]
          exact List.mem_cons_of_mem _ hx
        · rw [hstage]
          exact (hlined.taskCarries peer).2
      · rw [Function.update_of_ne hp]
        exact hlined.taskCarries p

/-- The next message of the offerer is routed, and has an accepter to go to. -/
theorem Ordered.routes (h : Ordered s) (hsane : Sane s) {message : Message} {requestId : UInt64}
    {target : Peer} {task : Task} (htasks : s'.tasks = Function.update s.tasks peer task)
    (hqueues : s'.queues = s.queues) (hlocked : s'.locked = s.locked)
    (hread : s'.read = s.read) (hrouted : s'.routed = s.routed ++ [message])
    (hbroken : s'.broken = s.broken) (hrole : (s.tasks peer).role = some .offerer)
    (hstage : (s.tasks peer).stage = .targeting message requestId)
    (haccepter : s.locked.state.accepter = some target) (hidle : (s.tasks peer).inFlight = [])
    (hflight : task.inFlight = [s.routed.length]) (hunder : task.underWay = [])
    (hcarries : task.Carries target (s.routed ++ [message])) : Ordered s' := by
  obtain rfl := (hsane.role peer).1 hrole
  have hne : target ≠ s.locked.state.offerer := by
    rintro rfl
    exact hsane.vacant haccepter
  refine ⟨?_, fun hvacant => ?_, fun a ha => ?_⟩
  · have hread' := h.read
    have hmessage : (s.tasks s.locked.state.offerer).underWay = [message] := by
      rw [Task.underWay, hstage]
    rw [hmessage] at hread'
    rwa [htasks, hlocked, hread, hrouted, Function.update_self, hunder, List.append_nil]
  · rw [hlocked, haccepter] at hvacant
    cases hvacant
  · rw [hlocked, haccepter] at ha
    cases ha
    have hlined := h.lined target haccepter
    have hline : s'.line target = s.line target ++ [s.routed.length] := by
      rw [Rendezvous.line, Rendezvous.line, htasks, hqueues, hlocked, Function.update_self,
        Function.update_of_ne hne, hflight, hidle, List.append_nil]
    refine ⟨fun q hq => ?_, fun p hp hp' => ?_, ?_, ?_, fun q x hx => ?_, fun p => ?_⟩
    · rw [hqueues]
      exact hlined.queue q hq
    · rw [hlocked] at hp'
      rw [htasks, Function.update_of_ne hp']
      exact hlined.task p hp hp'
    · rw [hline, hrouted, List.length_append, List.length_singleton, List.range_succ]
      exact hlined.line.append_right _
    · rw [hbroken]
      intro hwhole
      rw [hline, hrouted, List.length_append, List.length_singleton, List.range_succ,
        hlined.complete hwhole]
    · rw [hqueues] at hx
      rw [hrouted]
      exact (hlined.queueCarries q x hx).append message
    · rw [htasks, hrouted]
      by_cases hp : p = s.locked.state.offerer
      · rw [hp, Function.update_self]
        exact hcarries
      · rw [Function.update_of_ne hp]
        exact (hlined.taskCarries p).append message

/-- The accepter takes over what was pending. -/
theorem Ordered.joins (h : Ordered s) (hsane : Sane s) {task : Task}
    (htasks : s'.tasks = Function.update s.tasks peer task) (hqueues : s'.queues = s.queues)
    (hread : s'.read = s.read) (hrouted : s'.routed = s.routed)
    (hrole : (s.tasks peer).role = none) (hjoins : Joins peer s.locked s'.locked)
    (hunder : task.underWay = [])
    (hflight : task.inFlight = List.range s.routed.length ∨
      s'.broken = true ∧ task.inFlight = [])
    (hcarries : task.Carries peer s.routed) : Ordered s' := by
  have hwaiting := h.waiting hjoins.vacant
  have hne : s.locked.state.offerer ≠ peer := by
    intro hp
    rw [(hsane.role peer).2 hp.symm] at hrole
    cases hrole
  refine ⟨?_, fun hvacant => ?_, fun a ha => ?_⟩
  · rw [htasks, hread, hrouted, hjoins.offerer]
    refine h.read_update (List.Sublist.refl _) ?_
    rw [hunder]
    exact List.nil_sublist _
  · rw [hjoins.accepter] at hvacant
    cases hvacant
  · rw [hjoins.accepter] at ha
    cases ha
    have hline : s'.line peer = task.inFlight := by
      rw [Rendezvous.line, htasks, hqueues, hjoins.offerer, Function.update_self,
        Function.update_of_ne hne, hwaiting.queue, hwaiting.task, List.nil_append, List.append_nil]
    refine ⟨fun q _ => ?_, fun p hp _ => ?_, ?_, ?_, fun q x hx => ?_, fun p => ?_⟩
    · rw [hqueues]
      exact hwaiting.queue q
    · rw [htasks, Function.update_of_ne hp]
      exact hwaiting.task p
    · rw [hline, hrouted]
      rcases hflight with hflight | ⟨-, hflight⟩
      · rw [hflight]
      · rw [hflight]
        exact List.nil_sublist _
    · intro hwhole
      rcases hflight with hflight | ⟨hlost, -⟩
      · rw [hline, hflight, hrouted]
      · rw [hlost] at hwhole
        cases hwhole
    · rw [hqueues] at hx
      exact carries_of_numbers_eq_nil (hwaiting.queue q) x hx
    · rw [htasks, hrouted]
      by_cases hp : p = peer
      · rw [hp, Function.update_self]
        exact hcarries
      · rw [Function.update_of_ne hp]
        exact Task.carries_of_inFlight_eq_nil (hwaiting.task p)

/-! ## The step -/

theorem numbers_pushed {queues : Peer → List Outgoing} {out : Outgoing} (h : out.number = none)
    (q : Peer) : numbers (pushed queues out q) = numbers (queues q) := by
  by_cases hq : q = out.target
  · rw [hq, pushed, Function.update_self, numbers_append, numbers_cons_none h]
    exact List.append_nil _
  · rw [pushed, Function.update_of_ne hq]

theorem mem_pushed_cases {queues : Peer → List Outgoing} {out x : Outgoing} {q : Peer}
    (h : x ∈ pushed queues out q) : x ∈ queues q ∨ x = out := by
  by_cases hq : q = out.target
  · rw [hq, pushed, Function.update_self] at h
    rw [hq]
    exact (List.mem_append.1 h).imp_right List.mem_singleton.1
  · rw [pushed, Function.update_of_ne hq] at h
    exact .inl h

theorem Ordered.task_carries (h : Ordered s) (p : Peer) :
    ∀ a, s.locked.state.accepter = some a → (s.tasks p).Carries a s.routed :=
  fun a ha => (h.lined a ha).taskCarries p

theorem Effect.ordered (heffect : Effect s who s') (hsane : Sane s) (h : Ordered s)
    (hturn : ∀ p out rest a i, who = some p → (s.tasks p).sends = out :: rest →
      out.number = some i → s.locked.state.accepter = some a → p = s.locked.state.offerer →
      (s.tasks a).inFlight = []) : Ordered s' := by
  have hstays (p : Peer) {task : Task} (hstage : task.stage = .listening ∨ task.stage = .stopped) :
      task.underWay.Sublist (s.tasks p).underWay := by
    rw [underWay_of_ended hstage]
    exact List.nil_sublist _
  cases heffect with
  | @still _ c listed kept =>
      refine @Ordered.update s _ 0 h (s.tasks 0) ?_ rfl kept id (fun _ => rfl) (fun _ _ => .inl) ?_
        (.inl rfl) (h.task_carries 0)
      · rw [Function.update_eq_self]
      · dsimp only
        rw [kept.offerer]
        exact h.read
  | @post _ out neutral =>
      refine @Ordered.update s _ 0 h (s.tasks 0) ?_ rfl (Std.Refl.refl _) id
        (numbers_pushed neutral.number) ?_ h.read (.inl rfl) (h.task_carries 0)
      · rw [Function.update_eq_self]
      · intro q x hx
        refine (mem_pushed_cases hx).imp_right ?_
        rintro rfl
        exact neutral.number
  | @write peer out rest sends =>
      cases hi : out.number with
      | none =>
          have hflight : ({ s.tasks peer with sends := rest } : Task).inFlight =
              (s.tasks peer).inFlight := by
            rw [Task.inFlight, Task.inFlight, sends, numbers_cons_none hi]
          refine h.update rfl rfl (Std.Refl.refl _) id (numbers_pushed hi) ?_
            (h.read_update (List.Sublist.refl _) (List.Sublist.refl _)) (.inl hflight)
            fun a ha => ?_
          · intro q x hx
            refine (mem_pushed_cases hx).imp_right ?_
            rintro rfl
            exact hi
          · obtain ⟨hcarries, hstage⟩ := h.task_carries peer a ha
            refine ⟨fun x hx => hcarries x ?_, hstage⟩
            rw [sends]
            exact List.mem_cons_of_mem _ hx
      | some i =>
          exact h.writes hsane rfl rfl rfl rfl rfl rfl sends hi rfl
            fun a ha hp => hturn peer out rest a i rfl sends hi ha hp
  | @settle _ peer c task read broken kept role stage neutral hread hbroken lost =>
      have hflight := Task.inFlight_of_neutral neutral (inFlight_of_ended stage)
      refine h.update rfl rfl kept hbroken (fun _ => rfl) (fun _ _ => .inl) ?_ ?_ fun a _ =>
        Task.carries_of_inFlight_eq_nil hflight
      · dsimp only
        rw [kept.offerer]
        exact h.read_update hread (hstays peer stage)
      · exact lost.elim (fun hlost => .inr ⟨hlost, hflight⟩)
          fun hidle => .inl (hflight.trans hidle.symm)
  | @knock _ peer requestId role sends stage =>
      have hflight : ({ s.tasks peer with stage := .joining requestId } : Task).inFlight = [] := by
        rw [Task.inFlight, sends]
        rfl
      refine h.update rfl rfl (Std.Refl.refl _) id (fun _ => rfl) (fun _ _ => .inl)
        (h.read_update (List.Sublist.refl _) (List.nil_sublist _)) (.inl ?_)
        fun a _ => Task.carries_of_inFlight_eq_nil hflight
      rw [hflight, Task.inFlight, sends, stage]
      rfl
  | @take _ peer role message c task kept was sends stage hrole neutral next offer =>
      have hstage : task.stage.inFlight = [] := by
        rcases next with ⟨⟨requestId, next⟩, -⟩ | ⟨requestId, next⟩
        · rw [next]
          rfl
        · rw [next]
          rfl
      have hunder : task.underWay = [message] := by
        rcases next with ⟨⟨requestId, next⟩, -⟩ | ⟨requestId, next⟩
        · rw [Task.underWay, next]
        · rw [Task.underWay, next]
      have hflight := Task.inFlight_of_neutral neutral hstage
      refine h.update rfl rfl kept id (fun _ => rfl) (fun _ _ => .inl) ?_ (.inl ?_)
        fun a _ => Task.carries_of_inFlight_eq_nil hflight
      · dsimp only
        rw [kept.offerer]
        have hread := h.read
        by_cases hp : s.locked.state.offerer = peer
        · have hofferer := (hsane.role peer).2 hp.symm
          rw [was] at hofferer
          cases hofferer
          rw [hp, Function.update_self, hunder, if_pos rfl]
          refine List.Sublist.append_right ?_ _
          exact (List.sublist_append_left _ _).trans hread
        · have haccepter : role ≠ .offerer := by
            rintro rfl
            exact hp ((hsane.role peer).1 was).symm
          rw [Function.update_of_ne hp, if_neg haccepter]
          exact hread
      · rw [hflight, Task.inFlight, sends, stage]
        rfl
  | @check _ peer message requestId sends stage =>
      have hflight : ({ s.tasks peer with stage := .targeting message requestId } : Task).inFlight =
          [] := by
        rw [Task.inFlight, sends]
        rfl
      refine h.update rfl rfl (Std.Refl.refl _) id (fun _ => rfl) (fun _ _ => .inl)
        (h.read_update (List.Sublist.refl _) ?_) (.inl ?_)
        fun a _ => Task.carries_of_inFlight_eq_nil hflight
      · rw [Task.underWay, Task.underWay, stage]
      · rw [hflight, Task.inFlight, sends, stage]
        rfl
  | @keep _ peer message requestId role sends stage vacant =>
      obtain rfl := (hsane.role peer).1 role
      have hwaiting := h.waiting vacant
      have hread := h.read
      have hunder : (s.tasks s.locked.state.offerer).underWay = [message] := by
        rw [Task.underWay, stage]
      rw [hunder] at hread
      refine ⟨?_, fun _ => ⟨hwaiting.queue, fun p => ?_, ?_⟩, fun a ha => ?_⟩
      · dsimp only
        rw [Function.update_self, underWay_of_ended (.inl rfl), List.append_nil]
        exact hread
      · dsimp only
        by_cases hp : p = s.locked.state.offerer
        · rw [hp, Function.update_self, Task.inFlight, sends]
          rfl
        · rw [Function.update_of_ne hp]
          exact hwaiting.task p
      · rw [List.map_append, hwaiting.pending]
        rfl
      · rw [vacant] at ha
        cases ha
  | @forward _ peer target message requestId role sends stage accepter plain =>
      refine h.routes hsane rfl rfl rfl rfl rfl rfl role stage accepter ?_ rfl rfl ?_
      · rw [Task.inFlight, sends, stage]
        rfl
      · refine ⟨fun out hout i hi => ?_, fun _ _ _ _ _ hstage => by cases hstage⟩
        obtain rfl := List.mem_singleton.1 hout
        cases hi
        exact ⟨rfl, by simp⟩
  | @aim _ peer target message requestId t d role sends stage accepter offer =>
      refine h.routes hsane rfl rfl rfl rfl rfl rfl role stage accepter ?_ ?_ rfl ?_
      · rw [Task.inFlight, sends, stage]
        rfl
      · rw [Task.inFlight, sends]
        rfl
      · refine ⟨fun out hout => ?_, fun _ _ _ _ _ hstage => ?_⟩
        · rw [sends] at hout
          cases hout
        · cases hstage
          exact ⟨rfl, by simp⟩
  | @gather _ peer target message requestId t number ahead role sends stage neutral =>
      refine h.update rfl rfl (Std.Refl.refl _) id (fun _ => rfl) (fun _ _ => .inl)
        (h.read_update (List.Sublist.refl _) (hstays peer (.inl rfl))) (.inl ?_) fun a ha => ?_
      · rw [Task.inFlight, Task.inFlight, sends, stage, numbers_append, numbers_of_neutral neutral]
        cases number with
        | none => rfl
        | some i => rfl
      · refine ⟨fun out hout i hi => ?_, fun _ _ _ _ _ hstage => by cases hstage⟩
        rcases List.mem_append.1 hout with hout | hout
        · rw [(neutral out hout).number] at hi
          cases hi
        · obtain rfl := List.mem_singleton.1 hout
          exact (h.task_carries peer a ha).2 message t requestId target i
            (by rw [stage]; cases hi; rfl)
  | @join peer c requestId outs sends stage joins admits delivers =>
      have hsane' := hsane.task peer
      simp only [Task.Sane, stage] at hsane'
      have hpending := (h.waiting joins.vacant).pending
      obtain ⟨joinTicket, requestId, tickets, pathAuth, htickets, -, rfl⟩ := delivers
      refine h.joins hsane rfl rfl rfl rfl hsane' joins rfl (.inl ?_)
        ⟨fun out hout i hi => ?_, fun _ _ _ _ _ hstage => by cases hstage⟩
      · rw [Task.inFlight, numbers_append, numbers_deliverAll _ _ _ _ htickets.ticketOf, ← hpending,
          List.length_map, List.range_eq_range']
        exact List.append_nil _
      · rcases List.mem_append.1 hout with hout | hout
        · simp only [List.mem_cons, List.not_mem_nil, or_false] at hout
          rcases hout with rfl | rfl
          · cases hi
          · cases hi
        · obtain ⟨htarget, j, rfl, hj⟩ := mem_deliverAll _ _ _ _ htickets.ticketOf hout hi
          rw [← hpending, Nat.zero_add]
          exact ⟨htarget, hj⟩
  | @joinLost peer c requestId task sends stage joins admits role next neutral =>
      have hsane' := hsane.task peer
      simp only [Task.Sane, stage] at hsane'
      have hflight := Task.inFlight_of_neutral neutral (inFlight_of_ended (.inl next))
      exact h.joins hsane rfl rfl rfl rfl hsane' joins (underWay_of_ended (.inl next))
        (.inr ⟨rfl, hflight⟩) (Task.carries_of_inFlight_eq_nil hflight)
  | @settleIn _ peer sends stage =>
      have hidle : (s.tasks peer).inFlight = [] := by
        rw [Task.inFlight, sends, stage]
        rfl
      have hflight : ({ s.tasks peer with role := some .accepter, stage := .listening } :
          Task).inFlight = [] := by
        rw [Task.inFlight, sends]
        rfl
      exact h.update rfl rfl (Std.Refl.refl _) id (fun _ => rfl) (fun _ _ => .inl)
        (h.read_update (List.Sublist.refl _) (hstays peer (.inl rfl)))
        (.inl (hflight.trans hidle.symm))
        fun a _ => Task.carries_of_inFlight_eq_nil hflight

theorem step_ordered (hsane : Sane s) (h : Ordered s) (a : Action)
    (hturn : s.overtakes a = false) : Ordered (s.step a) := by
  refine (step_effect hsane a).ordered hsane h fun p out rest accepter i hwho hsends hi ha hp => ?_
  cases a with
  | goOn peer =>
      cases hwho
      rw [hp] at hsends
      simpa [Rendezvous.overtakes, hsends, ha, hp, hi] using hturn
  | _ => cases hwho

/-! ## The messages in the queue -/

/-- The messages of the offerer in a queue. -/
def forwarded (queue : List Outgoing) : List Message :=
  (queue.filter (·.number.isSome)).map (·.message)

theorem map_forwarded {accepter : Peer} {routed : List Message} {queue : List Outgoing}
    (h : ∀ out ∈ queue, out.Carries accepter routed) :
    (forwarded queue).map some = (numbers queue).map (routed[·]?) := by
  induction queue with
  | nil => rfl
  | cons out queue ih =>
      have hrest := ih fun x hx => h x (List.mem_cons_of_mem _ hx)
      cases hi : out.number with
      | none => simpa [forwarded, numbers_cons_none hi, hi] using hrest
      | some i =>
          rw [numbers_cons_some hi, List.map_cons, (h out List.mem_cons_self i hi).2, ← hrest]
          simp [forwarded, hi]

theorem map_range_getElem? (routed : List Message) :
    (List.range routed.length).map (routed[·]?) = routed.map some := by
  refine List.ext_getElem (by simp) fun i hi hi' => ?_
  have hlt : i < routed.length := by simpa using hi
  simp [hlt]

theorem filterMap_some (l : List Message) : (l.map some).filterMap id = l := by
  rw [List.filterMap_map]
  exact List.filterMap_some

theorem Lined.forwarded_sublist {accepter : Peer} (h : Lined s accepter) :
    (forwarded (s.queues accepter)).Sublist s.routed := by
  have hsub : (numbers (s.queues accepter)).Sublist (List.range s.routed.length) := by
    refine List.Sublist.trans ?_ h.line
    rw [Rendezvous.line, List.append_assoc]
    exact List.sublist_append_left ..
  have hmap := (hsub.map (s.routed[·]?)).filterMap id
  rwa [map_range_getElem?, ← map_forwarded (h.queueCarries accepter), filterMap_some,
    filterMap_some] at hmap

/-- Short of a failure nothing is missing between the messages in the queue. -/
theorem Lined.forwarded_prefix {accepter : Peer} (h : Lined s accepter)
    (hwhole : s.broken = false) :
    ∃ rest, s.routed.map some = (forwarded (s.queues accepter)).map some ++ rest ∧
      ((s.tasks accepter).inFlight = [] → (s.tasks s.locked.state.offerer).inFlight = [] →
        rest = []) := by
  refine ⟨((s.tasks accepter).inFlight ++ (s.tasks s.locked.state.offerer).inFlight).map
    (s.routed[·]?), ?_, fun hidle hidle' => ?_⟩
  · rw [map_forwarded (h.queueCarries accepter), ← List.map_append, ← List.append_assoc,
      ← map_range_getElem?, ← h.complete hwhole]
    rfl
  · rw [hidle, hidle']
    rfl

section

variable (config : ServerConfig) (id : PairingId) (relayId : RelayId)
  (relayTicket : SessionTicket) (offerer : Peer) (now lifetime : Nat) (unixMillis : UInt64)
  (random : Nat → Option (Vector UInt8 32))

theorem start_ordered : Ordered
    (Rendezvous.start config id relayId relayTicket offerer now lifetime unixMillis random) where
  read := by simp [Rendezvous.start, Task.underWay]
  waiting := by
    refine fun _ => ⟨fun _ => rfl, fun p => ?_, rfl⟩
    by_cases h : p = offerer
    · simp [Rendezvous.start, h, Task.inFlight, numbers, Stage.inFlight]
    · simp [Rendezvous.start, h, Task.inFlight, numbers, Stage.inFlight]
  lined := fun a ha => by cases ha

/-- In a run in which the task of the offerer waits for the pending messages to be
written, the accepter's queue has the routed messages of the offerer in the order
they were sent, none of them twice; short of a failure none is missing, and once
nothing is left to be written they are all there. Nobody else gets any. -/
theorem forwarded_in_order (actions : List Action)
    (hturn : Meets Rendezvous.step (fun s a => s.overtakes a = false)
      (Rendezvous.start config id relayId relayTicket offerer now lifetime unixMillis random)
      actions)
    {s : Rendezvous} (hrun : s = (Rendezvous.start config id relayId relayTicket offerer now
      lifetime unixMillis random).run actions)
    {accepter : Peer} (haccepter : s.locked.state.accepter = some accepter) :
    (forwarded (s.queues accepter)).Sublist s.routed ∧ s.routed.Sublist s.read ∧
      (∀ q, q ≠ accepter → forwarded (s.queues q) = []) ∧
      (s.broken = false → forwarded (s.queues accepter) <+: s.routed ∧
        ((s.tasks accepter).inFlight = [] → (s.tasks s.locked.state.offerer).inFlight = [] →
          forwarded (s.queues accepter) = s.routed)) := by
  have hinv : Sane s ∧ Ordered s := by
    rw [hrun]
    exact hturn.run (I := fun s => Sane s ∧ Ordered s)
      ⟨start_sane config id relayId relayTicket offerer now lifetime unixMillis random,
        start_ordered config id relayId relayTicket offerer now lifetime unixMillis random⟩
      fun s a h hturn => ⟨step_sane h.1 a, step_ordered h.1 h.2 a hturn⟩
  have hlined := hinv.2.lined accepter haccepter
  have hinj : Function.Injective (some : Message → Option Message) := Option.some_injective _
  refine ⟨hlined.forwarded_sublist, (List.sublist_append_left _ _).trans hinv.2.read,
    fun q hq => ?_, fun hwhole => ?_⟩
  · have hmap := map_forwarded (hlined.queueCarries q)
    rw [hlined.queue q hq] at hmap
    exact List.map_eq_nil_iff.1 hmap
  · obtain ⟨rest, hrest, hidle⟩ := hlined.forwarded_prefix hwhole
    refine ⟨?_, fun ha ho => ?_⟩
    · rw [← List.prefix_map_iff_of_injective hinj, hrest]
      exact List.prefix_append ..
    · rw [hidle ha ho, List.append_nil] at hrest
      exact (List.map_injective_iff.2 hinj hrest).symm

end

/-! ## A message that overtakes another -/

def sampleCancel (reasonCode : UInt16) : Message :=
  .pairing (.cancel (Vector.replicate 16 4) reasonCode)

/-- The offerer cancels twice; the accepter joins in between and has not yet been
written the first cancellation when the second is forwarded. -/
def cancelTwice : List Action :=
  [.receive 0 (sampleCancel 1) 1, .goOn 0, .receive 1 sampleJoin 2, .goOn 1,
    .receive 0 (sampleCancel 2) 3, .goOn 0, .goOn 0] ++ List.replicate 4 (.goOn 1)

theorem second_cancel_overtakes :
    let s := samplePairing.run cancelTwice
    s.read = [sampleCancel 1, sampleCancel 2] ∧ s.routed = s.read ∧ s.broken = false ∧
      (s.tasks 0).inFlight = [] ∧ (s.tasks 1).inFlight = [] ∧
      forwarded (s.queues 1) = [sampleCancel 2, sampleCancel 1] := by
  decide +kernel

/-- The same, with the pending message written first. -/
def cancelInTurn : List Action :=
  [.receive 0 (sampleCancel 1) 1, .goOn 0, .receive 1 sampleJoin 2] ++
    List.replicate 5 (.goOn 1) ++ [.receive 0 (sampleCancel 2) 3, .goOn 0, .goOn 0]

theorem forwarded_in_order_cancels :
    forwarded ((samplePairing.run cancelInTurn).queues 1) =
      (samplePairing.run cancelInTurn).routed :=
  ((forwarded_in_order {} (Vector.replicate 16 1) (Vector.replicate 16 2)
    (List.replicate 32 3) 0 0 600000000000 0 sampleRandom cancelInTurn (by decide +kernel) rfl
    (by decide +kernel)).2.2.2 (by decide +kernel)).2 (by decide +kernel) (by decide +kernel)

end DartUdp.Server
