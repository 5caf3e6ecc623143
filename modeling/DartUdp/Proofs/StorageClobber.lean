import DartUdp.Proofs.StorageServed

/-!
# What stands in the way of a file

A storage makes its own files in its own directory, and installs the files it has
received beside whatever else is in the destination tree. Unless it was told to
replace files, nothing that is there is lost: every write outside of its own directory
is one at a name that was found to be free just before, or makes a directory where there
was nothing.

With the policy that renames, the name is the first one that is free. With the two that
do not, a name that is taken stops the call before anything is moved.

The module is for `nothing_is_clobbered`. `Method.leaves` says of every method that
what is there stays, `completeFile_renames` and `completeFile_refuses` what the
policies add to that.
-/

namespace DartUdp.Storage

open DartUdp.Lib DartUdp.Transfer DartUdp.Session

variable {d d' : Disk} {p q : Path} {H : Host} {policy : OverwritePolicy} {pid : Nat}
  {t : TransferId} {f : FileId} {r : StateRecord} {registration : FileRegistration}

/-! ## The methods that stay inside -/

theorem inside_footprint (pid : Nat) (t : TransferId) (f : FileId) :
    Footprint (Spares Outside) pid t f := by
  refine spares_footprint fun q hq hout => ?_
  rcases hq with rfl | rfl | rfl | rfl | ⟨counter, rfl⟩
  · exact hout ⟨_, rfl⟩
  · exact hout ⟨_, rfl⟩
  · exact hout ⟨_, rfl⟩
  · exact hout ⟨_, rfl⟩
  · exact hout ⟨_, rfl⟩

theorem Reads.tryCatch {α : Type} {m : StorageM α} {g : StorageError → StorageM α} (hm : Reads m)
    (hg : ∀ e, Reads (g e)) : Reads (tryCatch m g) := by
  intro d
  rw [Within, ends_tryCatch]
  refine Ends.mono (hm d) (fun _ _ h => h) fun e d' hd' => ?_
  subst hd'
  exact hg e d'

theorem recoverState_inside (hs : p.dropLast.dropLast = sessionsDirectory) :
    Within (Spares Outside) (recoverState H pid p) d := by
  have hdir : sessionsDirectory <+: p.dropLast := hs ▸ List.dropLast_prefix _
  have hp : ¬ Outside p := storage_of_sessions hs
  refine .bind (Reads.within ?_) fun found d₁ => ?_
  · exact .tryCatch (.bind readState_reads fun record => .pure _) fun _ => .pure _
  · cases found with
    | none => exact removeFileIfExists_within fun _ _ => erase_spares hp
    | some record =>
        refine .bind ?_ fun record d₂ => ?_
        · exact recoverRecord_within (fun _ _ _ => put_spares (partialPath_inside _ _))
            fun _ _ => erase_spares (partialPath_inside _ _)
        · refine writeState_spares hp (inside_of_below hdir) fun counter => ?_
          exact inside_of_below (hdir.trans (List.prefix_append _ _))

theorem recoverAll_inside : ∀ {ps : List Path} {d : Disk},
    (∀ p ∈ ps, p.dropLast.dropLast = sessionsDirectory) →
    Within (Spares Outside) (recoverAll H pid ps) d := by
  intro ps
  induction ps with
  | nil => exact fun _ => .pure _
  | cons p ps ih =>
      intro d hs
      have hrest : ∀ d, Within (Spares Outside) (recoverAll H pid ps) d := fun _ =>
        ih fun x hx => hs x (List.mem_cons_of_mem _ hx)
      simp only [recoverAll]
      refine .ite (fun _ => ?_) fun _ => hrest _
      exact .bind (recoverState_inside (hs p List.mem_cons_self)) fun _ _ => hrest _

theorem recoverTransfers_inside : ∀ {dirs : List Path} {d : Disk},
    (∀ dir ∈ dirs, dir.dropLast = sessionsDirectory) →
    Within (Spares Outside) (recoverTransfers H pid dirs) d := by
  intro dirs
  induction dirs with
  | nil => exact fun _ => .pure _
  | cons dir dirs ih =>
      intro d hs
      have hrest : ∀ d, Within (Spares Outside) (recoverTransfers H pid dirs) d := fun _ =>
        ih fun x hx => hs x (List.mem_cons_of_mem _ hx)
      have hdir := hs dir List.mem_cons_self
      refine .bind metadata_reads.within fun node d₁ => ?_
      cases node with
      | none => exact hrest _
      | some node =>
          cases node with
          | file bytes => exact hrest _
          | dir =>
              refine .get_bind (.bind ?_ fun _ _ => hrest _)
              exact recoverAll_inside (readDir_sessions hdir)
          | symlink => exact hrest _

theorem openStorage_inside : Within (Spares Outside) (openStorage H pid) d := by
  have hlayout : Within (Spares Outside) ensureLayout d := by
    refine .bind (ensureDirectory_spares fun h => h ⟨_, rfl⟩) fun _ _ => ?_
    refine .bind (ensureDirectory_spares fun h => h ⟨_, rfl⟩) fun _ _ => ?_
    exact ensureDirectory_spares fun h => h ⟨_, rfl⟩
  refine .bind hlayout fun _ d₁ => .get_bind ?_
  exact recoverTransfers_inside fun dir hdir => (Fs.mem_readDir.1 hdir).2.1

theorem removeDirectoryIfExists_inside (hp : storageDirectory <+: p) :
    Within (Spares Outside) (removeDirectoryIfExists p) d := by
  refine .bind metadata_reads.within fun node d₁ => ?_
  cases node with
  | none => exact .pure _
  | some node =>
      cases node with
      | file bytes => exact .throw _
      | symlink => exact .throw _
      | dir =>
          refine write_spares fun fs fs' h q hq => ?_
          rw [Fs.removeTree?_eq_some h, if_neg]
          exact fun hpre => hq (hp.trans hpre)

theorem cleanupTransfer_inside : Within (Spares Outside) (cleanupTransfer t) d :=
  .bind (removeDirectoryIfExists_inside ⟨_, rfl⟩) fun _ _ =>
    removeDirectoryIfExists_inside ⟨_, rfl⟩

/-! ## The one that does not -/

/-- What was at a path of `P` is there still. -/
def Leaves (P : Path → Prop) (d d' : Disk) : Prop :=
  ∀ q n, P q → d.fs.get? q = some n → d'.fs.get? q = some n

instance (P : Path → Prop) : IsTrans Disk (Leaves P) :=
  ⟨fun _ _ _ h1 h2 q n hq h => h2 q n hq (h1 q n hq h)⟩

instance (P : Path → Prop) : Std.Refl (Leaves P) := ⟨fun _ _ _ _ h => h⟩

theorem Spares.leaves {P : Path → Prop} (h : Spares P d d') : Leaves P d d' :=
  fun q _ hq hn => (h q hq).trans hn

section Leaves

variable {P : Path → Prop} {src dst : Path} {operation : String}

/-- A directory is made where there was nothing. -/
theorem ensureDirectory_leaves : Within (Leaves P) (ensureDirectory p) d := by
  refine (Ends.run _ _).mono (fun _ d' h => ?_) fun _ d' h => ?_
  · intro q _ _ hn
    rcases ensureDirectory_inv h with ⟨-, rfl⟩ | ⟨hnone, hsets⟩
    · exact hn
    · rw [hsets.other, hn]
      rintro rfl
      rw [hnone] at hn
      cases hn
  · simp only [ensureDirectory] at h
    rw [bind_ok (metadata_run p d)] at h
    cases hnode : d.fs.get? p with
    | none =>
        rw [hnode] at h
        rw [write_ends.error h]
        exact Std.Refl.refl _
    | some node =>
        rw [hnode] at h
        cases node with
        | dir => cases h
        | file bytes =>
            obtain ⟨-, rfl⟩ := EStateM.Result.error.inj h
            exact Std.Refl.refl _
        | symlink =>
            obtain ⟨-, rfl⟩ := EStateM.Result.error.inj h
            exact Std.Refl.refl _

theorem ensureParent_leaves : Within (Leaves P) (ensureParent H p) d :=
  .bind metadata_reads.within fun _ _ => .ite (fun _ => .throw _) fun _ => ensureDirectory_leaves

theorem ensureBelow_leaves : ∀ {names current : Path} {d : Disk},
    Within (Leaves P) (ensureBelow H current names) d := by
  intro names
  induction names with
  | nil => exact fun {_ _} => .pure _
  | cons name names ih =>
      intro current d
      exact .bind ensureParent_leaves fun _ _ => ih

theorem ensureSafeParent_leaves : Within (Leaves P) (ensureSafeParent H p) d :=
  ensureBelow_leaves

/-- What is moved to a free name replaces nothing. -/
theorem renameInto_leaves (hsrc : ¬ P src) (hfree : d.fs.get? dst = none) :
    Within (Leaves P) (renameInto H src dst) d := by
  refine metadata_reads.bind_within fun _ _ => .ite (fun _ => .throw _) fun _ => ?_
  refine write_ends.mono (fun _ d' h => ?_) fun _ d' h => h ▸ Std.Refl.refl _
  obtain ⟨-, n, -, hget⟩ := Fs.rename?_eq_some h
  intro q n' hq hn
  rw [hget, if_neg, if_neg, hn]
  · rintro rfl
    exact hsrc hq
  · rintro rfl
    rw [hfree] at hn
    cases hn

theorem link_leaves : Within (Leaves P) (write operation (·.link? src dst)) d := by
  refine write_ends.mono (fun _ d' h => ?_) fun _ d' h => h ▸ Std.Refl.refl _
  obtain ⟨hfree, bytes, -, hget⟩ := Fs.link?_eq_some h
  intro q n' hq hn
  rw [hget, if_neg, hn]
  rintro rfl
  rw [hfree] at hn
  cases hn

/-- The check and the write that relies on it come one right after the other. -/
theorem moveIntoPlace_leaves (hpolicy : policy ≠ .replaceAfterConfirm) (hsrc : ¬ P src)
    (hfree : policy = .renameWithSuffix → d.fs.get? dst = none) :
    Within (Leaves P) (moveIntoPlace H src dst policy f) d := by
  have hexists : ∀ {e : StorageError} {m : StorageM Unit},
      (d.fs.get? dst = none → Within (Leaves P) m d) →
      Within (Leaves P) (do
        if ← pathExists H dst then throw e
        m : StorageM Unit) d := by
    intro e m hm
    refine pathExists_reads.bind_within fun found hfound => ?_
    refine .ite (fun _ => .throw _) fun hno => hm ?_
    obtain ⟨-, rfl, -⟩ := pathExists_inv hfound
    simpa using hno
  cases policy with
  | ask => exact hexists fun hnone => renameInto_leaves hsrc hnone
  | noReplace =>
      refine hexists fun _ => .bind link_leaves fun _ d₁ => ?_
      exact Within.mono (erase_spares hsrc) fun _ h => h.leaves
  | replaceAfterConfirm => exact absurd rfl hpolicy
  | renameWithSuffix => exact renameInto_leaves hsrc (hfree rfl)

theorem installPartial_leaves (hpolicy : policy ≠ .replaceAfterConfirm) (hsrc : ¬ P src) :
    Within (Leaves P) (installPartial H policy f src dst registration) d := by
  refine .bind fileLengthIfExists_reads.within fun length d₁ => .ite (fun _ => .throw _) fun _ => ?_
  refine .bind hashFile_reads.within fun hash d₂ => .ite (fun _ => .throw _) fun _ => ?_
  refine .bind openPartialExisting_reads.within fun _ d₃ => ?_
  refine .bind ensureSafeParent_leaves fun _ d₄ => ?_
  refine chooseDestination_reads.bind_within fun path hchoose => .bind ?_ fun _ _ =>
    .bind settleFile_reads.within fun _ _ => .pure _
  exact moveIntoPlace_leaves hpolicy hsrc (chosen_spec (chosen_of_run hchoose)).2.1

end Leaves

theorem completeFile_leaves {size : Nat} {hash : Digest}
    (hpolicy : policy ≠ .replaceAfterConfirm) :
    Within (Leaves Outside) (completeFile H policy pid t f size hash) d := by
  have hfoot := inside_footprint pid t f
  refine .bind loadRecord_reads.within fun record d₁ => ?_
  refine .ite (fun _ => .throw _) fun _ => .ite (fun _ => .throw _) fun _ => ?_
  refine .ite (fun _ => ?_) fun _ => ?_
  · refine .bind destinationPath_reads.within fun path d₂ => ?_
    refine .bind destinationMatches_reads.within fun matched d₃ => ?_
    exact .ite (fun _ => .pure _) fun _ => .throw _
  · refine .ite (fun _ => .throw _) fun _ => .bind ?_ fun installed d₂ => ?_
    · refine .bind destinationPath_reads.within fun destination d₂ => ?_
      have hsource : Within (Leaves Outside) (sourceExists (partialPath t f)
          record.registration.size) d₂ := by
        refine .bind fileLengthIfExists_reads.within fun length d₃ => ?_
        refine .ite (fun _ => .pure _) fun _ => .ite (fun _ => .bind ?_ fun _ _ => .pure _)
          fun _ => .pure _
        exact Within.mono (openPartial_within hfoot.put) fun _ h => h.leaves
      refine .bind hsource fun found d₃ => .ite (fun _ => ?_) fun _ => ?_
      · exact installPartial_leaves hpolicy (partialPath_inside t f)
      · refine .bind destinationMatches_reads.within fun matched d₄ => ?_
        exact .ite (fun _ => .pure _) fun _ => .throw _
    · exact Within.mono (hfoot.record _ _) fun _ h => h.leaves

/-- Whatever is asked of the storage, and whichever way it ends. -/
theorem Method.leaves {m : Method} (hpolicy : policy ≠ .replaceAfterConfirm) :
    Within (Leaves Outside) (m.run H policy pid) d := by
  have hinside : ∀ {m : StorageM Unit}, Within (Spares Outside) m d → Within (Leaves Outside) m d :=
    fun h => Within.mono h fun _ h' => h'.leaves
  cases m with
  | openStorage => exact hinside openStorage_inside
  | call c =>
      cases c with
      | registerFile registration => exact hinside (inside_footprint _ _ _).registerFile
      | writeData t f offset data => exact hinside (writeData_within (inside_footprint pid t f).put)
      | checkpoint t f state => exact hinside (inside_footprint _ _ _).checkpoint
      | completeFile t f size hash => exact completeFile_leaves hpolicy
  | resetFile t f => exact hinside (inside_footprint _ _ _).resetFile
  | cleanupTransfer t => exact hinside cleanupTransfer_inside
  | durableState t f =>
      exact .bind durableState_reads.within fun _ _ => .pure _

theorem runMethods_leaves {methods : List Method} (hpolicy : policy ≠ .replaceAfterConfirm) :
    Leaves Outside d (runMethods H policy pid d methods) := by
  induction methods generalizing d with
  | nil => exact Std.Refl.refl d
  | cons m rest ih =>
      have hstep : Leaves Outside d (after (m.run H policy pid) d) := (m.leaves hpolicy).after
      exact IsTrans.trans _ _ _ hstep ih

/-! ## The first free name -/

/-- `dst` is `destination` if that is free, or else the first free name in the order of
the suffixes. -/
def FirstFree (fs : Fs) (destination dst : Path) : Prop :=
  fs.get? destination = none ∧ dst = destination ∨
    fs.get? destination ≠ none ∧ ∃ index, 1 ≤ index ∧ index < 2 ^ 32 ∧
      fs.get? (suffixedPath destination index) = none ∧
      (∀ earlier, 1 ≤ earlier → earlier < index →
        fs.get? (suffixedPath destination earlier) ≠ none) ∧
      dst = suffixedPath destination index

theorem chosen_firstFree {fs : Fs} {destination dst : Path}
    (h : chosen .renameWithSuffix fs destination = some dst) : FirstFree fs destination dst := by
  simp only [chosen] at h
  split at h
  · next htaken =>
      obtain ⟨index, hle, hlt, hfree, hearlier, rfl⟩ := firstFree_iff.1 h
      have hbound := u32Max_suffixes
      exact .inr ⟨Option.isSome_iff_ne_none.1 htaken, index, hle, by omega, hfree, hearlier, rfl⟩
  · next hfree =>
      obtain rfl := Option.some.inj h
      exact .inl ⟨by simpa using hfree, rfl⟩

/-- The content received so far was checked and moved to `dst`, the first name that
was free, and the record says so. -/
structure Renamed (H : Host) (t : TransferId) (f : FileId) (r : StateRecord) (dst : Path)
    (d d' : Disk) : Prop where
  free : FirstFree d.fs (splitSlash r.registration.relativePath) dst
  installed : d'.fs.get? dst = some (.file (contentAt t f d.fs))
  verified : Verified H r.registration (d'.fs.get? dst)
  record : d'.fs.get? (statePath t f) =
    some (.file (encodeState (r.completed (joinSlash dst))))
  moved : d'.fs.get? (partialPath t f) = none

/-- The file that is moved has the content received so far. -/
theorem InstalledAt.source {d₀ : Disk} {dst : Path}
    (hat : InstalledAt H policy (partialPath t f) (splitSlash r.registration.relativePath) dst
      r.registration d₀ d')
    (hsource : d₀ = d ∨ d.fs.get? (partialPath t f) = none ∧ r.registration.size = 0 ∧
      Sets d d₀ (partialPath t f) (some (.file [])) ∧ d₀.tempCounter = d.tempCounter) :
    d₀.fs.get? (partialPath t f) = some (.file (contentAt t f d.fs)) := by
  unfold contentAt
  rcases hsource with rfl | ⟨hnone, -, hsets, -⟩
  · obtain ⟨bytes, hfile, -⟩ := hat.verified
    rw [hfile]
    rfl
  · rw [hsets.self, hnone]
    rfl

/-- The partial file of a file that is received in full is still there to be moved. -/
theorem completeFile_renames {size : Nat} {hash : Digest} (hserved : Served H pid d.fs)
    (hrec : recordAt t f d.fs = some r) (hpending : r.complete = false)
    (h : completeFile H .renameWithSuffix pid t f size hash d = .ok () d') :
    ∃ dst, Renamed H t f r dst d d' := by
  have hout := hserved.outside hrec
  have hne := splitSlash_ne_nil r.registration.relativePath
  obtain ⟨n, hstate⟩ := recordOf_isSome hrec
  obtain ⟨-, -, ⟨hcomplete, -⟩ | ⟨-, hfull, installed, d₁, hinstall, hwrite⟩⟩ :=
    completeFile_inv hrec h
  · rw [hpending] at hcomplete
    cases hcomplete
  · rcases install_inv hinstall with
      ⟨d₀, dst, rfl, hsource, hat⟩ | ⟨rfl, rfl, hnone, hsize, -, hopens⟩
    · have hcontent := hat.source hsource
      have hstate₀ : d₀.fs.get? (statePath t f) = some n := by
        rcases hsource with rfl | ⟨-, -, hsets, -⟩
        · exact hstate
        · rw [hsets.other statePath_ne_partialPath, hstate]
      have hchosen : chosen .renameWithSuffix d.fs (splitSlash r.registration.relativePath) =
          some dst := by
        rcases hsource with rfl | ⟨-, -, hsets, -⟩
        · exact hat.chosen
        · rw [← chosen_of_sets hne hout.not_above hsets]
          exact hat.chosen
      obtain ⟨hdst, hstate₁⟩ := hat.outside hstate₀ hout.not_above
      have hsets := writeState_inv hstate₁ (statePath_ne_nil t f) hwrite
      have hmoved : d'.fs.get? dst = some (.file (contentAt t f d.fs)) := by
        rw [hsets.other hdst.ne_statePath, hat.get.1, hcontent]
      refine ⟨dst, chosen_firstFree hchosen, hmoved, ?_, hsets.self, ?_⟩
      · rw [hmoved, ← hcontent]
        exact hat.verified
      · rw [hsets.other statePath_ne_partialPath.symm]
        obtain ⟨d₂, -, hmove⟩ := hat.between
        obtain ⟨m, -, hget, -⟩ := hmove.moved
        rw [hget, if_neg hdst.ne_partialPath.symm, if_pos rfl]
    · have hsafe := (hserved.tended.disciplined t f r hrec hpending hopens).1
      unfold contentAt at hsafe
      rw [hnone, hfull] at hsafe
      exact absurd (Nat.le_zero.1 hsafe) hsize

/-! ## A name that is taken -/

theorem moveIntoPlace_refuses {dst : Path} {n : Node} (src : Path) (f : FileId)
    (hpolicy : policy = .ask ∨ policy = .noReplace) (htaken : d.fs.get? dst = some n) :
    ∃ e, moveIntoPlace H src dst policy f d = .error e d := by
  have hroom : Room H d.fs dst := fun hnone => by
    rw [htaken] at hnone
    cases hnone
  have hexists : pathExists H dst d = .ok true d := by
    rw [pathExists_ok hroom, htaken]
    rfl
  rcases hpolicy with rfl | rfl
  · refine ⟨.overwriteNeedsConfirmation f, ?_⟩
    simp only [moveIntoPlace]
    rw [bind_ok hexists]
    rfl
  · refine ⟨.alreadyExists f, ?_⟩
    simp only [moveIntoPlace]
    rw [bind_ok hexists]
    rfl

theorem installPartial_refuses {src destination : Path} {n : Node}
    (hpolicy : policy = .ask ∨ policy = .noReplace)
    (hverified : Verified H registration (d.fs.get? src))
    (htaken : d.fs.get? destination = some n) :
    Ends (installPartial H policy f src destination registration) d (fun _ _ => False)
      fun _ d' => Leaves (fun _ => True) d d' := by
  obtain ⟨bytes, hfile, hsize, hhash⟩ := hverified
  simp only [installPartial]
  rw [Ends, bind_ok (fileLengthIfExists_ok hfile), if_neg (by simpa using hsize),
    bind_ok (hashFile_run hfile), if_neg (by simpa using hhash),
    bind_ok (openPartialExisting_run hfile)]
  refine ends_bind.2 (Ends.mono ensureSafeParent_leaves (fun _ d₁ h₁ => ?_) fun _ _ h => h)
  have htaken₁ := h₁ destination n trivial htaken
  have hchoose : chooseDestination H policy destination f d₁ = .ok destination d₁ := by
    rcases hpolicy with rfl | rfl
    · rfl
    · rfl
  obtain ⟨e, hmove⟩ := moveIntoPlace_refuses (H := H) src f hpolicy htaken₁
  rw [Ends, bind_ok hchoose, bind_error hmove]
  exact h₁

/-- Without leave to replace it, what is at the destination stops the call before
anything is moved: at most it has made directories. -/
theorem completeFile_refuses {size : Nat} {hash : Digest}
    (hpolicy : policy = .ask ∨ policy = .noReplace) (hrec : recordAt t f d.fs = some r)
    (hpending : r.complete = false)
    (hverified : Verified H r.registration (d.fs.get? (partialPath t f)))
    (htaken : d.fs.get? (splitSlash r.registration.relativePath) ≠ none) :
    Ends (completeFile H policy pid t f size hash) d (fun _ _ => False)
      fun _ d' => Leaves (fun _ => True) d d' := by
  have hrefl : Leaves (fun _ => True) d d := Std.Refl.refl d
  obtain ⟨bytes, hfile, hcontent⟩ := hverified
  obtain ⟨n, hn⟩ := Option.ne_none_iff_exists'.1 htaken
  have hsource : sourceExists (partialPath t f) r.registration.size d = .ok true d := by
    simp only [sourceExists]
    rw [bind_ok (fileLengthIfExists_ok hfile)]
    rfl
  have hinstall : Ends (install H policy t f r.registration) d (fun _ _ => False)
      fun _ d' => Leaves (fun _ => True) d d' := by
    simp only [install]
    rw [Ends, bind_ok (destinationPath_ok (recordOf_valid hrec).path d), bind_ok hsource]
    exact installPartial_refuses hpolicy ⟨bytes, hfile, hcontent⟩ hn
  simp only [completeFile]
  rw [Ends, bind_ok (loadRecord_ok hrec)]
  refine ends_ite.2 ⟨fun _ => hrefl, fun _ => ends_ite.2 ⟨fun _ => hrefl, fun _ => ?_⟩⟩
  refine ends_ite.2 ⟨fun hcomplete => ?_, fun _ => ends_ite.2 ⟨fun _ => hrefl, fun _ => ?_⟩⟩
  · rw [hpending] at hcomplete
    cases hcomplete
  · exact ends_bind.2 (hinstall.mono (fun _ _ h => h.elim) fun _ _ h => h)

theorem Leaves.same (h : Leaves (fun _ => True) d d')
    (hrec : recordAt t f d.fs = some r) {n : Node} (hn : d.fs.get? (partialPath t f) = some n) :
    Same t f d.fs d'.fs := by
  obtain ⟨node, hstate⟩ := recordOf_isSome hrec
  refine ⟨?_, ?_⟩
  · unfold recordAt
    rw [h _ node trivial hstate, hstate]
  · unfold contentAt
    rw [h _ n trivial hn, hn]

/-! ## No clobbering -/

/-- How the files in progress are completed, by the policy. -/
structure Careful (H : Host) (policy : OverwritePolicy) (pid : Nat) (d : Disk) : Prop where
  /-- With the policy that renames, a file is put where there is nothing yet. -/
  renames : H.Reliable → policy = .renameWithSuffix → ∀ t f r, recordAt t f d.fs = some r →
    r.complete = false → ∀ size hash d',
      completeFile H policy pid t f size hash d = .ok () d' → ∃ dst, Renamed H t f r dst d d'
  /-- With a policy that does not replace, a file is not put where there is something. -/
  refuses : policy = .ask ∨ policy = .noReplace → ∀ t f r, recordAt t f d.fs = some r →
    r.complete = false → Verified H r.registration (d.fs.get? (partialPath t f)) →
    d.fs.get? (splitSlash r.registration.relativePath) ≠ none → ∀ size hash,
      Ends (completeFile H policy pid t f size hash) d (fun _ _ => False)
        fun _ d' => Same t f d.fs d'.fs

theorem Served.careful (h : H.Reliable → Served H pid d.fs) : Careful H policy pid d where
  renames := by
    rintro hreliable rfl t f r hrec hpending size hash d' hrun
    exact completeFile_renames (h hreliable) hrec hpending hrun
  refuses := by
    intro hchoice t f r hrec hpending hverified htaken size hash
    obtain ⟨bytes, hfile, hcontent⟩ := hverified
    refine (completeFile_refuses hchoice hrec hpending ⟨bytes, hfile, hcontent⟩ htaken).mono
      (fun _ _ h => h) fun _ d' h => h.same hrec hfile

/-- Unless the storage was told to replace files, whatever is asked of it, in whatever
order and whichever way it ends, what was outside of its directory is there still; and
on every storage that was opened, wherever that leads, files are completed with care. -/
theorem nothing_is_clobbered (hpolicy : policy ≠ .replaceAfterConfirm) :
    (∀ methods, Leaves Outside d (runMethods H policy pid d methods)) ∧
      ∀ d₀ methods, Records Proper d.fs → Unspent pid d.fs → openStorage H pid d = .ok () d₀ →
        (∀ m ∈ methods, m.Asks) → Careful H policy pid (runMethods H policy pid d₀ methods) := by
  refine ⟨fun methods => runMethods_leaves hpolicy, ?_⟩
  intro d₀ methods hproper hfree hopen hm
  exact Served.careful fun hreliable => (openStorage_served hproper hfree hopen).run hreliable hm

/-- A file is received and completed, and then received again. -/
def receivedTwice : List Method :=
  let received : List Method :=
    [.call (.registerFile sampleRecord.registration),
      .call (.writeData sampleId sampleId 0 [7, 8]),
      .call (.checkpoint sampleId sampleId ⟨2, 1, zeroDigest .blake3⟩)]
  received ++ [.call (.completeFile sampleId sampleId 2 sampleHash),
    .durableState sampleId sampleId, .cleanupTransfer sampleId] ++ received

theorem receivedTwice_asks : ∀ m ∈ receivedTwice, m.Asks := by
  have hout : Outside (splitSlash sampleRecord.registration.relativePath) := by
    rw [outside_iff]
    decide
  intro m hm
  simp only [receivedTwice, List.cons_append, List.nil_append, List.mem_cons, List.not_mem_nil,
    or_false] at hm
  rcases hm with rfl | rfl | rfl | rfl | rfl | rfl | rfl | rfl | rfl
  · exact ⟨sampleRegistration_typed, hout⟩
  · trivial
  · exact sampleState_typed
  · trivial
  · trivial
  · trivial
  · exact ⟨sampleRegistration_typed, hout⟩
  · trivial
  · exact sampleState_typed

theorem nothing_is_clobbered_twice :
    ∃ d₀, openStorage sampleHost 7 (.boot .empty) = .ok () d₀ ∧ sampleHost.Reliable ∧
      Leaves Outside d₀ (runMethods sampleHost .renameWithSuffix 7 d₀ receivedTwice) ∧
      Careful sampleHost .renameWithSuffix 7
        (runMethods sampleHost .renameWithSuffix 7 d₀ receivedTwice) := by
  have hopens : (diskAfter (openStorage sampleHost 7) (.boot .empty)).isSome = true := by
    decide +kernel
  obtain ⟨d₀, hd₀⟩ := Option.isSome_iff_exists.1 hopens
  have hopen := diskAfter_eq_some hd₀
  have hpolicy : OverwritePolicy.renameWithSuffix ≠ .replaceAfterConfirm := by decide
  exact ⟨d₀, hopen, fun _ => rfl, (nothing_is_clobbered hpolicy).1 _,
    (nothing_is_clobbered hpolicy).2 d₀ _ empty_records empty_unspent hopen receivedTwice_asks⟩

example : (runMethods sampleHost .renameWithSuffix 7 (.boot .empty) (.openStorage ::
      receivedTwice ++ [.call (.completeFile sampleId sampleId 2 sampleHash)])).fs.get?
    [ascii "a.1"] = some (.file [7, 8]) := by decide +kernel

end DartUdp.Storage
