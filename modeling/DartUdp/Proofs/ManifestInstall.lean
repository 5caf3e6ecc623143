import DartUdp.Proofs.ResumeSources
import DartUdp.Proofs.StorageClobber

/-!
# Installing the files of a manifest

A manifest is accepted if every path in it is one on its own and no two are the same.
What the paths are to each other beyond that is not looked at: one file may have the
path of a directory that another one is to lie in. Of two such files the one that
comes second finds a file where it needs a directory.

On a destination with nothing in it this is all that can go wrong with files the host
takes (`Host.Takes`): names and paths that are not too long for it, and permissions with
which a file can be opened again to be synced. What is there is at any time the files
installed so far and the directories they lie in (`Laid`), so a path that is none of these
files' and has none of them above it is free.

The module is for `manifest_installs`. `Laid.free` says that the next file has room,
`Laid.installs` installs it and `Laid.installs_all` all of them, in any order.
-/

namespace DartUdp.Storage

open DartUdp.Lib DartUdp.Transfer DartUdp.Session

variable {d d' : Disk} {p q : Path} {H : Host} {policy : OverwritePolicy} {pid : Nat}
  {t : TransferId} {e e' : ManifestEntry} {done entries : List ManifestEntry} {fs : Fs}

/-! ## Destinations -/

/-- Where the file of an entry is to go. -/
def goal (e : ManifestEntry) : Path := splitSlash e.relativePath

theorem goal_ne_nil (e : ManifestEntry) : goal e ≠ [] := splitSlash_ne_nil e.relativePath

/-- The names of the path are such as files have, and what is to be set on the file can
be set. -/
structure Host.Takes (H : Host) (e : ManifestEntry) : Prop where
  fits : ∀ q, q <+: goal e → H.fits q = true
  settles : H.Settles e.metadata

/-- The file has been received in full: it is on record, and its content is right. -/
structure Received (H : Host) (pid : Nat) (t : TransferId) (e : ManifestEntry) (d : Disk) :
    Prop where
  record : ∃ r, recordAt t e.fileId d.fs = some r ∧
    r.registration = .fromManifestEntry t e ∧ r.complete = false ∧ r.durableOffset = e.size
  verified : Verified H (.fromManifestEntry t e) (d.fs.get? (partialPath t e.fileId))
  unspent : Unspent pid d.fs

/-- The files of `done` are where they are to go, and the only other things outside of the
storage are the directories they lie in. -/
structure Laid (H : Host) (t : TransferId) (done : List ManifestEntry) (fs : Fs) : Prop where
  files : ∀ e ∈ done, Verified H (.fromManifestEntry t e) (fs.get? (goal e))
  rest : ∀ q, Outside q → q ≠ [] → (∀ e ∈ done, q ≠ goal e) → fs.get? q = none ∨
    fs.get? q = some .dir ∧ ∃ e ∈ done, Above q (goal e)

/-- Neither is the path of one the path of the other, nor a directory above it. -/
def Apart (e e' : ManifestEntry) : Prop :=
  goal e ≠ goal e' ∧ ¬ Above (goal e) (goal e') ∧ ¬ Above (goal e') (goal e)

theorem Laid.spares (h : Laid H t done d.fs) (hout : ∀ e ∈ done, Outside (goal e))
    (hspares : Spares Outside d d') : Laid H t done d'.fs where
  files := fun e he => by
    rw [hspares _ (hout e he)]
    exact h.files e he
  rest := fun q hq hne hdone => by
    rw [hspares q hq]
    exact h.rest q hq hne hdone

theorem Above.trans_outside (h : Above q p) (hout : Outside p) : Outside q :=
  fun hpre => hout (hpre.trans h.1)

theorem chosen_of_free (h : fs.get? p = none) : chosen policy fs p = some p := by
  cases policy with
  | renameWithSuffix => simp [chosen, h]
  | ask => rfl
  | noReplace => rfl
  | replaceAfterConfirm => rfl

/-- Nothing is at the destination yet, and nothing is in its way. -/
theorem Laid.free (h : Laid H t done fs) (hout : Outside (goal e))
    (hfits : ∀ q, q <+: goal e → H.fits q = true) (hapart : ∀ e' ∈ done, Apart e' e) :
    fs.get? (goal e) = none ∧ Clear H (goal e) fs := by
  constructor
  · rcases h.rest (goal e) hout (goal_ne_nil e) fun e' he' => (hapart e' he').1.symm with
      hnone | ⟨-, e', he', habove⟩
    · exact hnone
    · exact absurd habove (hapart e' he').2.2
  · intro q hq
    by_cases hnil : q = []
    · subst hnil
      exact .inl fs.get?_nil
    · have hne : ∀ e' ∈ done, q ≠ goal e' := by
        rintro e' he' rfl
        exact (hapart e' he').2.1 hq
      rcases h.rest q (hq.trans_outside hout) hnil hne with hnone | ⟨hdir, -⟩
      · exact .inr ⟨hnone, hfits q hq.1⟩
      · exact .inl hdir

/-! ## One file -/

/-- A completion that ends well moves the partial file, to the destination if that is free. -/
theorem Received.moves {size : Nat} {hash : Digest} (h : Received H pid t e d)
    (hout : Outside (goal e))
    (hrun : completeFile H policy pid t e.fileId size hash d = .ok () d') :
    Clear H (goal e) d.fs ∧ (d.fs.get? (goal e) = none →
      d'.fs.get? (goal e) = d.fs.get? (partialPath t e.fileId) ∧
        ∀ q, Outside q → q ≠ goal e → Kept (goal e) d.fs d'.fs q) := by
  obtain ⟨r, hrec, hreg, hpending, -⟩ := h.record
  obtain ⟨bytes, hfile, -⟩ := h.verified
  have hgoal : splitSlash r.registration.relativePath = goal e := by rw [hreg]; rfl
  obtain ⟨n, hstate⟩ := recordOf_isSome hrec
  obtain ⟨-, -, ⟨hcomplete, -⟩ | ⟨-, -, installed, d₁, hinstall, hwrite⟩⟩ :=
    completeFile_inv hrec hrun
  · rw [hpending] at hcomplete
    cases hcomplete
  · rcases install_inv hinstall with ⟨d₀, dst, rfl, rfl | ⟨hnone, -⟩, hat⟩ | ⟨-, -, hnone, -⟩
    · have hgiven := hat
      rw [hgoal] at hat
      obtain ⟨hdst, hstate₁⟩ := hgiven.outside hstate (hgoal ▸ hout.not_above)
      have hsets := writeState_inv hstate₁ (statePath_ne_nil t e.fileId) hwrite
      obtain ⟨d₂, hens, -⟩ := hat.between
      refine ⟨hens.clear, fun hfree => ?_⟩
      have hsame : dst = goal e := by
        have hchosen := hat.chosen
        rw [chosen_of_free hfree] at hchosen
        exact (Option.some.inj hchosen).symm
      subst hsame
      refine ⟨(hsets.other hout.ne_statePath).trans hat.get.1, fun q hq hne => ?_⟩
      exact (hat.get.2 q hne hq.ne_partialPath).trans (.inl (hsets.other hq.ne_statePath))
    · rw [hfile] at hnone
      cases hnone
    · rw [hfile] at hnone
      cases hnone

/-- A file that was received is installed, if nothing installed before is in its way. -/
theorem Laid.installs (policy : OverwritePolicy) (h : Laid H t done d.fs) (hout : Outside (goal e))
    (htakes : H.Takes e) (houts : ∀ e' ∈ done, Outside (goal e'))
    (hapart : ∀ e' ∈ done, Apart e' e) (hreceived : Received H pid t e d) :
    ∃ d', completeFile H policy pid t e.fileId e.size e.contentHash d = .ok () d' ∧
      Laid H t (e :: done) d'.fs := by
  obtain ⟨hfree, hclear⟩ := h.free hout htakes.fits hapart
  obtain ⟨r, hrec, hreg, hpending, hfull⟩ := hreceived.record
  have hgoal : splitSlash r.registration.relativePath = goal e := by rw [hreg]; rfl
  have hready : Ready H policy pid t e.fileId r (goal e) d :=
    { record := hrec
      pending := hpending
      durable := by rw [hfull, hreg]; rfl
      verified := by rw [hreg]; exact hreceived.verified
      clear := by rw [hgoal]; exact hclear
      chosen := by rw [hgoal]; exact chosen_of_free hfree
      vacant := ⟨by rw [hfree]; simp, fun _ => hfree, fun _ => htakes.fits _ List.prefix_rfl⟩
      settles := by rw [hreg]; exact htakes.settles
      free := hreceived.unspent _ _ (by simp [sessionDirectory]) }
  obtain ⟨d', hrun⟩ := completeFile_ok hready (hgoal ▸ hout.not_above)
  rw [hreg] at hrun
  obtain ⟨-, hmoves⟩ := hreceived.moves hout hrun
  obtain ⟨hself, hkept⟩ := hmoves hfree
  refine ⟨d', hrun, fun e' he' => ?_, fun q hq hne hdone => ?_⟩
  · rcases List.mem_cons.1 he' with rfl | he'
    · rw [hself]
      exact hreceived.verified
    · rw [(hkept _ (houts e' he') (hapart e' he').1).get (hapart e' he').2.1]
      exact h.files e' he'
  · have hq' := hkept q hq (hdone e List.mem_cons_self)
    rcases hq' with hsame | ⟨-, hdir, habove⟩
    · rw [hsame]
      have hold := h.rest q hq hne fun e' he' => hdone e' (List.mem_cons_of_mem _ he')
      rcases hold with hnone | ⟨hdir, e', he', habove⟩
      · exact .inl hnone
      · exact .inr ⟨hdir, e', List.mem_cons_of_mem _ he', habove⟩
    · exact .inr ⟨hdir, e, List.mem_cons_self, habove⟩

/-- Where a file is installed there is no way to what would lie below it. -/
theorem Received.blocked (h : Received H pid t e' d) (hout : Outside (goal e'))
    (hverified : Verified H (.fromManifestEntry t e) (d.fs.get? (goal e)))
    (habove : Above (goal e) (goal e')) (size : Nat) (hash : Digest) :
    answer (completeFile H policy pid t e'.fileId size hash) d = none := by
  have hfails : Ends (completeFile H policy pid t e'.fileId size hash) d (fun _ _ => False)
      fun _ _ => True := by
    refine (Ends.run _ _).mono (fun _ d' hrun => ?_) fun _ _ _ => trivial
    obtain ⟨bytes, hfile, -⟩ := hverified
    rcases (h.moves hout hrun).1 _ habove with hx | ⟨hx, -⟩
    · rw [hfile] at hx
      cases hx
    · rw [hfile] at hx
      cases hx
  exact hfails.fails

/-! ## All files, in any order -/

/-- The files of `order` are completed one after the other, whatever is done inside of the
storage before each, as long as it is received by then. In the end the files of `entries`
are where they are to go. -/
def InstallsAll (H : Host) (policy : OverwritePolicy) (pid : Nat) (t : TransferId)
    (entries : List ManifestEntry) : List ManifestEntry → Disk → Prop
  | [], d => ∀ e ∈ entries, Verified H (.fromManifestEntry t e) (d.fs.get? (goal e))
  | e :: rest, d => ∀ d₁, Spares Outside d d₁ → Received H pid t e d₁ →
      ∃ d₂, completeFile H policy pid t e.fileId e.size e.contentHash d₁ = .ok () d₂ ∧
        InstallsAll H policy pid t entries rest d₂

/-- The induction over the order: what is installed so far is apart from what follows. -/
theorem Laid.installs_all {order : List ManifestEntry} (h : Laid H t done d.fs)
    (houts : ∀ e ∈ done ++ order, Outside (goal e)) (htakes : ∀ e ∈ order, H.Takes e)
    (horder : order.Pairwise Apart)
    (hdone : ∀ e' ∈ done, ∀ e ∈ order, Apart e' e) (hall : ∀ e ∈ entries, e ∈ done ++ order) :
    InstallsAll H policy pid t entries order d := by
  induction order generalizing done d with
  | nil =>
      intro e he
      exact h.files e (by simpa using hall e he)
  | cons e rest ih =>
      intro d₁ hspares hreceived
      have houts' : ∀ e' ∈ done, Outside (goal e') := fun e' he' =>
        houts e' (List.mem_append_left _ he')
      have hlaid := (h.spares houts' hspares).installs policy
        (houts e (List.mem_append_right _ List.mem_cons_self)) (htakes e List.mem_cons_self) houts'
        (fun e' he' => hdone e' he' e List.mem_cons_self) hreceived
      obtain ⟨d₂, hrun, h₂⟩ := hlaid
      have hmem : ∀ {x}, x ∈ done ++ e :: rest ↔ x ∈ (e :: done) ++ rest := by
        intro x
        simp only [List.mem_append, List.mem_cons, or_left_comm, or_assoc]
      obtain ⟨hfirst, hrest⟩ := List.pairwise_cons.1 horder
      refine ⟨d₂, hrun, ih h₂ (fun e' he' => houts e' (hmem.2 he'))
        (fun e' he' => htakes e' (List.mem_cons_of_mem _ he')) hrest ?_
        fun e' he' => hmem.1 (hall e' he')⟩
      intro e' he' e'' he''
      rcases List.mem_cons.1 he' with rfl | he'
      · exact hfirst e'' he''
      · exact hdone e' he' e'' (List.mem_cons_of_mem _ he'')

theorem Apart.symm (h : Apart e e') : Apart e' e := ⟨h.1.symm, h.2.2, h.2.1⟩

/-- No path of an accepted manifest stands twice. -/
theorem apart_of_manifest {digest : Digest} {m : Manifest}
    (h : Manifest.new digest entries = .ok m)
    (hapart : ∀ e ∈ m.entries, ∀ e' ∈ m.entries, ¬ Above (goal e) (goal e')) :
    m.entries.Pairwise Apart := by
  have hpaths : m.entries.Pairwise fun e e' => e.relativePath ≠ e'.relativePath :=
    List.pairwise_map.1 (Manifest.new_paths h)
  refine hpaths.imp_of_mem fun {e e'} he he' hne => ?_
  exact ⟨fun hx => hne (splitSlash_injective hx), hapart e he e' he', hapart e' he' e he⟩

/-- Receiving files changes nothing outside of the storage. -/
theorem runMethods_inside {methods : List Method} (hm : ∀ m ∈ methods, m.Receives) :
    Spares Outside d (runMethods H policy pid d methods) := by
  induction methods generalizing d with
  | nil => exact Std.Refl.refl d
  | cons m rest ih =>
      have hstep : Spares Outside d (after (m.run H policy pid) d) :=
        (m.within (hm m List.mem_cons_self) fun t f _ => inside_footprint pid t f).after
      exact IsTrans.trans _ _ _ hstep (ih fun m' hm' => hm m' (List.mem_cons_of_mem _ hm'))

/-- A file of one byte. -/
def byteFile (name : String) (id : UInt8) : ManifestEntry :=
  ⟨.replicate 16 id, ascii name, 1, ⟨.blake3, sampleBlake3 [7]⟩, ⟨none, none⟩⟩

def receiving (entry : ManifestEntry) : List Method :=
  [.call (.registerFile (.fromManifestEntry sampleId entry)),
    .call (.writeData sampleId entry.fileId 0 [7]),
    .call (.checkpoint sampleId entry.fileId ⟨1, 1, zeroDigest .blake3⟩)]

def completing (entry : ManifestEntry) : Method :=
  .call (.completeFile sampleId entry.fileId entry.size entry.contentHash)

/-- Two files in one directory. -/
def siblings : List ManifestEntry := [byteFile "a/b" 1, byteFile "a/c" 2]

theorem siblings_asks : ∀ m ∈ siblings.flatMap receiving, m.Receives ∧ m.Asks := by
  have hfields : ∀ {name : String} {id : UInt8}, utf8Valid (ascii name) = true →
      (FileRegistration.fromManifestEntry sampleId (byteFile name id)).Typed := by
    intro name id hname
    refine ⟨hname, Nat.one_lt_two_pow (by decide), ?_, ?_⟩
    · intro v hv
      cases hv
    · intro v hv
      cases hv
  have htyped : ∀ e ∈ siblings, (FileRegistration.fromManifestEntry sampleId e).Typed ∧
      Outside (goal e) := by
    intro e he
    simp only [siblings, List.mem_cons, List.not_mem_nil, or_false] at he
    rcases he with rfl | rfl
    · exact ⟨hfields (by decide), outside_iff.2 (by decide)⟩
    · exact ⟨hfields (by decide), outside_iff.2 (by decide)⟩
  intro m hm
  obtain ⟨e, he, hm⟩ := List.mem_flatMap.1 hm
  simp only [receiving, List.mem_cons, List.not_mem_nil, or_false] at hm
  rcases hm with rfl | rfl | rfl
  · exact ⟨trivial, htyped e he⟩
  · exact ⟨trivial, trivial⟩
  · exact ⟨trivial, ⟨by decide, by decide⟩⟩

/-- A storage on an empty destination that has received both. -/
def siblingsReceived : Disk :=
  runMethods sampleHost .ask 7 (.boot .empty) (.openStorage :: siblings.flatMap receiving)

theorem siblingsReceived_served :
    Served sampleHost 7 siblingsReceived.fs ∧ Spares Outside (.boot .empty) siblingsReceived := by
  have hopens : (diskAfter (openStorage sampleHost 7) (.boot .empty)).isSome = true := by
    decide +kernel
  obtain ⟨d₀, hd₀⟩ := Option.isSome_iff_exists.1 hopens
  have hopen := diskAfter_eq_some hd₀
  have hafter : after (Method.run sampleHost .ask 7 .openStorage) (.boot .empty) = d₀ := by
    show after (openStorage sampleHost 7) (.boot .empty) = d₀
    rw [after, hopen]
  have hreceived : siblingsReceived = runMethods sampleHost .ask 7 d₀
      (siblings.flatMap receiving) := by
    unfold siblingsReceived runMethods
    rw [List.foldl_cons, hafter]
  have hinside : Spares Outside (.boot .empty) d₀ := openStorage_inside.ok hopen
  rw [hreceived]
  refine ⟨(openStorage_served empty_records empty_unspent hopen).run (fun _ => rfl) fun m hm =>
    (siblings_asks m hm).2, ?_⟩
  exact IsTrans.trans _ _ _ hinside (runMethods_inside fun m hm => (siblings_asks m hm).1)

/-- A file, and another one in a directory of the same name. -/
def nested : List ManifestEntry := [byteFile "a" 1, byteFile "a/b" 2]

/-- A file whose name is longer than names are. -/
def longNamed : ManifestEntry :=
  { byteFile "a" 1 with relativePath := List.replicate 256 97 }

/-- A file its owner may write and not read. -/
def unreadable : ManifestEntry := { byteFile "a" 1 with metadata := ⟨none, some 0o200⟩ }

end DartUdp.Storage
