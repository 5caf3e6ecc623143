import DartUdp.Proofs.StoragePaths
import DartUdp.Proofs.StorageRecover

/-!
# What completing a file does to the disk

Every part of `complete_file` is described both ways: what follows when it
ended well, and what is enough for it to end well. The choice of the
destination is a function of the policy and of the files that are there.

A call that ends well leaves the verified content at the recorded destination,
by whichever exit it left, and a record that says so. That record can be read
again unless the suffix made the destination longer than a path may be.

`completeFile_inv` and `completeFile_ok` are the two ways for the whole, from the
lemmas `_inv` and `_ok` for the parts; `InstalledAt` is what an installation leaves.
-/

namespace DartUdp.Storage

open DartUdp.Lib DartUdp.Transfer

variable {d d' : Disk} {p q : Path} {H : Host} {policy : OverwritePolicy} {pid : Nat}
  {t : TransferId} {f : FileId} {r : StateRecord}

/-! ## The disks left on the way -/

/-- On the way from `d` to `d'` every disk was one of `P`. -/
def Trails (P : Fs → Prop) (d d' : Disk) : Prop :=
  ∃ fss, d'.trail = d.trail ++ fss ∧ ∀ fs ∈ fss, P fs

theorem Trails.refl {P : Fs → Prop} (d : Disk) : Trails P d d := ⟨[], by simp, by simp⟩

theorem Trails.trans {P : Fs → Prop} {d₁ d₂ d₃ : Disk} (h1 : Trails P d₁ d₂)
    (h2 : Trails P d₂ d₃) : Trails P d₁ d₃ := by
  obtain ⟨s1, e1, p1⟩ := h1
  obtain ⟨s2, e2, p2⟩ := h2
  refine ⟨s1 ++ s2, by rw [e2, e1, List.append_assoc], fun fs hfs => ?_⟩
  rcases List.mem_append.1 hfs with hx | hx
  · exact p1 fs hx
  · exact p2 fs hx

theorem Trails.mono {P Q : Fs → Prop} (h : Trails P d d') (hPQ : ∀ fs, P fs → Q fs) :
    Trails Q d d' := by
  obtain ⟨s, e, hp⟩ := h
  exact ⟨s, e, fun fs hfs => hPQ fs (hp fs hfs)⟩

/-! ## Directories -/

/-- `q` is one of the directories `path` lies in. -/
def Above (q path : Path) : Prop := q <+: path ∧ q ≠ path

/-- The node at `q` is the same, or a directory above `path` was made there. -/
def Kept (path : Path) (fs fs' : Fs) (q : Path) : Prop :=
  fs'.get? q = fs.get? q ∨ fs.get? q = none ∧ fs'.get? q = some .dir ∧ Above q path

theorem Kept.trans {path : Path} {fs₁ fs₂ fs₃ : Fs} (h1 : Kept path fs₁ fs₂ q)
    (h2 : Kept path fs₂ fs₃ q) : Kept path fs₁ fs₃ q := by
  rcases h1 with e1 | ⟨n1, s1, a1⟩
  · rcases h2 with e2 | ⟨n2, s2, a2⟩
    · exact .inl (e2.trans e1)
    · exact .inr ⟨e1 ▸ n2, s2, a2⟩
  · rcases h2 with e2 | ⟨n2, _, _⟩
    · exact .inr ⟨n1, e2.trans s1, a1⟩
    · rw [s1] at n2; cases n2

theorem Kept.get {fs fs' : Fs} (h : Kept p fs fs' q) (hq : ¬ Above q p) :
    fs'.get? q = fs.get? q := by
  rcases h with hx | ⟨_, _, ha⟩
  · exact hx
  · exact absurd ha hq

/-- The directories above `path` may be made where there was nothing. -/
def Grown (path : Path) (fs fs' : Fs) : Prop := ∀ q, Kept path fs fs' q

theorem Grown.refl (path : Path) (fs : Fs) : Grown path fs fs := fun _ => .inl rfl

theorem Grown.trans {path : Path} {fs₁ fs₂ fs₃ : Fs} (h1 : Grown path fs₁ fs₂)
    (h2 : Grown path fs₂ fs₃) : Grown path fs₁ fs₃ := fun q => (h1 q).trans (h2 q)

theorem Grown.get {fs fs' : Fs} (h : Grown p fs fs') (hq : ¬ Above q p) :
    fs'.get? q = fs.get? q := (h q).get hq

/-- Every directory above `path` is one, or is still to be made and can be. -/
def Clear (H : Host) (path : Path) (fs : Fs) : Prop :=
  ∀ q, Above q path → fs.get? q = some .dir ∨ fs.get? q = none ∧ H.fits q = true

/-- The parents of `path` were made, and nothing else. -/
structure Ensured (H : Host) (path : Path) (d d' : Disk) : Prop where
  clear : Clear H path d.fs
  dirs : ∀ q, Above q path → d'.fs.get? q = some .dir
  grown : Grown path d.fs d'.fs
  counter : d'.tempCounter = d.tempCounter
  trail : Trails (Grown path d.fs) d d'

theorem above_append {current names path : Path} {name : Bytes}
    (h : path.dropLast = current ++ name :: names) (hne : path ≠ []) :
    Above (current ++ [name]) path := by
  constructor
  · refine List.IsPrefix.trans ?_ (List.dropLast_prefix path)
    rw [h]
    exact ⟨names, by simp⟩
  · intro hx
    have h1 := congrArg List.length h
    have h2 := congrArg List.length hx
    have h3 := List.length_pos_iff.2 hne
    simp only [List.length_dropLast, List.length_append, List.length_cons,
      List.length_nil] at h1 h2
    omega

theorem above_cases {path : Path} (h : Above q path) : q <+: path.dropLast := by
  obtain ⟨⟨s, hs⟩, hne⟩ := h
  have hs' : s ≠ [] := by
    rintro rfl
    exact hne (by simpa using hs)
  refine ⟨s.dropLast, ?_⟩
  rw [← hs, List.dropLast_append_of_ne_nil hs']

theorem ensureDirectory_step (h : ensureDirectory p d = .ok () d') :
    (d.fs.get? p = some .dir ∨ d.fs.get? p = none) ∧ d'.fs.get? p = some .dir ∧
      (∀ q, q ≠ p → d'.fs.get? q = d.fs.get? q) ∧ d'.tempCounter = d.tempCounter ∧
      Trails (· = d'.fs) d d' := by
  simp only [ensureDirectory] at h
  rw [bind_ok (metadata_run p d)] at h
  cases hp : d.fs.get? p with
  | none =>
      rw [hp] at h
      obtain ⟨hput, hcounter, htrail⟩ := write_step h
      have hs := (Fs.put?_eq_some hput).2
      exact ⟨.inr rfl, by rw [hs, if_pos rfl], fun q hq => by rw [hs, if_neg hq], hcounter,
        [d'.fs], htrail, by simp⟩
  | some n =>
      rw [hp] at h
      cases n with
      | dir =>
          obtain ⟨-, rfl⟩ := EStateM.Result.ok.inj h
          exact ⟨.inl rfl, hp, fun _ _ => rfl, rfl, Trails.refl _⟩
      | file bytes => cases h
      | symlink => cases h

theorem ensureDirectory_ok (hne : p ≠ []) (hparent : d.fs.get? p.dropLast = some .dir)
    (h : d.fs.get? p = some .dir ∨ d.fs.get? p = none) :
    ∃ d', ensureDirectory p d = .ok () d' := by
  simp only [ensureDirectory]
  rw [bind_ok (metadata_run p d)]
  rcases h with hp | hp
  · rw [hp]
    exact ⟨d, rfl⟩
  · have hcan : d.fs.CanPut p .dir := ⟨hne, hparent, fun _ => rfl⟩
    obtain ⟨fs, hput⟩ := Fs.put?_isSome hcan
    rw [hp]
    exact ⟨_, write_ok hput⟩

theorem ensureParent_step (h : ensureParent H p d = .ok () d') :
    (d.fs.get? p = some .dir ∨ d.fs.get? p = none ∧ H.fits p = true) ∧
      ensureDirectory p d = .ok () d' := by
  simp only [ensureParent] at h
  rw [bind_ok (metadata_run p d)] at h
  split at h
  · cases h
  · next hfits =>
      refine ⟨(ensureDirectory_step h).1.imp_right fun hnone => ⟨hnone, ?_⟩, h⟩
      simpa [hnone] using hfits

theorem ensureParent_ok (hne : p ≠ []) (hparent : d.fs.get? p.dropLast = some .dir)
    (h : d.fs.get? p = some .dir ∨ d.fs.get? p = none ∧ H.fits p = true) :
    ∃ d', ensureParent H p d = .ok () d' := by
  obtain ⟨d', hdir⟩ := ensureDirectory_ok hne hparent (h.imp_right And.left)
  refine ⟨d', ?_⟩
  simp only [ensureParent]
  rw [bind_ok (metadata_run p d), if_neg]
  · exact hdir
  · rcases h with hx | ⟨hx, hfits⟩
    · simp [hx]
    · simp [hx, hfits]

/-- The loop of `ensure_safe_parent`, on what is left of the way down. -/
theorem ensureBelow_inv {path : Path} (hne : path ≠ []) : ∀ {names current : Path} {d : Disk},
    path.dropLast = current ++ names → ensureBelow H current names d = .ok () d' →
    (∀ q, q <+: path.dropLast → ¬ q <+: current →
        d.fs.get? q = some .dir ∨ d.fs.get? q = none ∧ H.fits q = true) ∧
      (∀ q, q <+: path.dropLast → ¬ q <+: current → d'.fs.get? q = some .dir) ∧
      Grown path d.fs d'.fs ∧ d'.tempCounter = d.tempCounter ∧
      Trails (Grown path d.fs) d d' := by
  intro names
  induction names with
  | nil =>
      intro current d hpath h
      obtain ⟨-, rfl⟩ := EStateM.Result.ok.inj h
      rw [List.append_nil] at hpath
      exact ⟨fun q h1 h2 => absurd (hpath ▸ h1) h2, fun q h1 h2 => absurd (hpath ▸ h1) h2,
        Grown.refl _ _, rfl, Trails.refl _⟩
  | cons name names ih =>
      intro current d hpath h
      obtain ⟨⟨⟩, d₁, hparent, hrest⟩ := bind_inv h
      obtain ⟨hclear, hdir⟩ := ensureParent_step hparent
      obtain ⟨-, hself, hother, hcounter, htrail⟩ := ensureDirectory_step hdir
      have habove : Above (current ++ [name]) path := above_append hpath hne
      have hgrown : Grown path d.fs d₁.fs := by
        intro q
        by_cases hq : q = current ++ [name]
        · subst hq
          rcases hclear with hx | ⟨hx, -⟩
          · exact .inl (hself.trans hx.symm)
          · exact .inr ⟨hx, hself, habove⟩
        · exact .inl (hother q hq)
      have hpath' : path.dropLast = (current ++ [name]) ++ names := by rw [hpath]; simp
      obtain ⟨c1, c2, c3, c4, c5⟩ := ih hpath' hrest
      -- A prefix of `current ++ [name]` that is none of `current` is all of it.
      have hlast : ∀ {q}, q <+: current ++ [name] → ¬ q <+: current → q = current ++ [name] := by
        intro q h1 h2
        rcases List.prefix_concat_iff.1 h1 with hx | hx
        · exact hx
        · exact absurd hx h2
      refine ⟨fun q h1 h2 => ?_, fun q h1 h2 => ?_, hgrown.trans c3, c4.trans hcounter, ?_⟩
      · by_cases hq : q <+: current ++ [name]
        · rw [hlast hq h2]
          exact hclear
        · have hq' : q ≠ current ++ [name] := fun hx => hq (hx ▸ List.prefix_rfl)
          rw [← hother q hq']
          exact c1 q h1 hq
      · by_cases hq : q <+: current ++ [name]
        · rw [hlast hq h2]
          rcases c3 (current ++ [name]) with hx | ⟨_, hx, _⟩
          · exact hx.trans hself
          · exact hx
        · exact c2 q h1 hq
      · refine (htrail.mono ?_).trans (c5.mono fun fs hfs => hgrown.trans hfs)
        rintro fs rfl
        exact hgrown

theorem ensureSafeParent_inv {path : Path} (hne : path ≠ [])
    (h : ensureSafeParent H path d = .ok () d') : Ensured H path d d' := by
  have hpath : path.dropLast = [] ++ path.dropLast := rfl
  obtain ⟨c1, c2, c3, c4, c5⟩ := ensureBelow_inv hne hpath h
  refine ⟨fun q hq => ?_, fun q hq => ?_, c3, c4, c5⟩
  · by_cases hnil : q <+: []
    · obtain rfl := List.prefix_nil.1 hnil
      exact .inl d.fs.get?_nil
    · exact c1 q (above_cases hq) hnil
  · by_cases hnil : q <+: []
    · obtain rfl := List.prefix_nil.1 hnil
      exact d'.fs.get?_nil
    · exact c2 q (above_cases hq) hnil

theorem ensureBelow_ok {path : Path} (hne : path ≠ []) : ∀ {names current : Path} {d : Disk},
    path.dropLast = current ++ names → d.fs.get? current = some .dir → Clear H path d.fs →
    ∃ d', ensureBelow H current names d = .ok () d' := by
  intro names
  induction names with
  | nil => intro current d _ _ _; exact ⟨d, rfl⟩
  | cons name names ih =>
      intro current d hpath hcur hclear
      have habove : Above (current ++ [name]) path := above_append hpath hne
      obtain ⟨d₁, hparent⟩ := ensureParent_ok (p := current ++ [name]) (by simp)
        (by simpa using hcur) (hclear _ habove)
      obtain ⟨_, hself, hother, _, _⟩ := ensureDirectory_step (ensureParent_step hparent).2
      have hclear₁ : Clear H path d₁.fs := by
        intro q hq
        by_cases hx : q = current ++ [name]
        · exact .inl (hx ▸ hself)
        · rw [hother q hx]
          exact hclear q hq
      obtain ⟨d', hrest⟩ := ih (by rw [hpath]; simp) hself hclear₁
      exact ⟨d', (bind_ok hparent).trans hrest⟩

theorem ensureSafeParent_ok {path : Path} (hne : path ≠ []) (h : Clear H path d.fs) :
    ∃ d', ensureSafeParent H path d = .ok () d' :=
  ensureBelow_ok hne rfl d.fs.get?_nil h

/-! ## The destination -/

/-- The first suffix that is free. -/
def firstFree (fs : Fs) (destination : Path) : Nat → Nat → Option Path
  | 0, _ => none
  | left + 1, index =>
      if (fs.get? (suffixedPath destination index)).isSome then
        firstFree fs destination left (index + 1)
      else some (suffixedPath destination index)

/-- The destination the policy chooses, given what is there. -/
def chosen (policy : OverwritePolicy) (fs : Fs) (destination : Path) : Option Path :=
  match policy with
  | .renameWithSuffix =>
      if (fs.get? destination).isSome then firstFree fs destination u32Max 1
      else some destination
  | _ => some destination

/-- Nothing that is still to be put at the path has too long a name for it. -/
def Room (H : Host) (fs : Fs) (path : Path) : Prop := fs.get? path = none → H.fits path = true

theorem pathExists_ok (h : Room H d.fs p) : pathExists H p d = .ok (d.fs.get? p).isSome d := by
  simp only [pathExists]
  rw [bind_ok (metadata_run p d)]
  cases hp : d.fs.get? p with
  | some n => rfl
  | none =>
      simp only [Option.isSome_none, Bool.false_eq_true, if_false, h hp, if_true]
      rfl

theorem pathExists_inv {found : Bool} (h : pathExists H p d = .ok found d') :
    d' = d ∧ found = (d.fs.get? p).isSome ∧ Room H d.fs p := by
  simp only [pathExists] at h
  rw [bind_ok (metadata_run p d)] at h
  split at h
  · next hsome =>
      obtain ⟨rfl, rfl⟩ := EStateM.Result.ok.inj h
      exact ⟨rfl, hsome.symm, fun hnone => by rw [hnone] at hsome; cases hsome⟩
  · next hnone =>
      split at h
      · next hfits =>
          obtain ⟨rfl, rfl⟩ := EStateM.Result.ok.inj h
          exact ⟨rfl, (Bool.not_eq_true _ ▸ hnone).symm, fun _ => hfits⟩
      · cases h

theorem searchSuffix_inv (destination : Path) (f : FileId) {path : Path} : ∀ left index,
    searchSuffix H destination f left index d = .ok path d' →
      d' = d ∧ firstFree d.fs destination left index = some path ∧ Room H d.fs path := by
  intro left
  induction left with
  | zero =>
      intro index h
      cases h
  | succ left ih =>
      intro index h
      simp only [searchSuffix] at h
      obtain ⟨found, d₁, hexists, h₁⟩ := bind_inv h
      obtain ⟨rfl, rfl, hroom⟩ := pathExists_inv hexists
      rw [firstFree]
      split at h₁
      · next hfound =>
          rw [if_pos hfound]
          exact ih (index + 1) h₁
      · next hfound =>
          obtain ⟨rfl, rfl⟩ := EStateM.Result.ok.inj h₁
          rw [if_neg hfound]
          exact ⟨rfl, rfl, hroom⟩

theorem searchSuffix_ok (destination : Path) (f : FileId) {path : Path}
    (hroom : Room H d.fs path) : ∀ left index,
    firstFree d.fs destination left index = some path →
      searchSuffix H destination f left index d = .ok path d := by
  intro left
  induction left with
  | zero =>
      intro index h
      cases h
  | succ left ih =>
      intro index h
      rw [firstFree] at h
      simp only [searchSuffix]
      split at h
      · next hfound =>
          rw [bind_ok (pathExists_ok fun hnone => by rw [hnone] at hfound; cases hfound),
            if_pos hfound]
          exact ih (index + 1) h
      · next hfound =>
          obtain rfl := Option.some.inj h
          rw [bind_ok (pathExists_ok hroom), if_neg hfound]
          rfl

/-- The choice that is made is that of the policy. Only a name that was looked for
is known not to be too long. -/
theorem chooseDestination_inv {destination path : Path}
    (h : chooseDestination H policy destination f d = .ok path d') :
    d' = d ∧ chosen policy d.fs destination = some path ∧
      (policy = .renameWithSuffix → Room H d.fs path) := by
  cases policy with
  | renameWithSuffix =>
      simp only [chooseDestination] at h
      obtain ⟨found, d₁, hexists, h₁⟩ := bind_inv h
      obtain ⟨rfl, rfl, hroom⟩ := pathExists_inv hexists
      simp only [chosen]
      split at h₁
      · next hfound =>
          obtain ⟨rfl, hfree, hpath⟩ := searchSuffix_inv destination f u32Max 1 h₁
          rw [if_pos hfound]
          exact ⟨rfl, hfree, fun _ => hpath⟩
      · next hfound =>
          obtain ⟨rfl, rfl⟩ := EStateM.Result.ok.inj h₁
          rw [if_neg hfound]
          exact ⟨rfl, rfl, fun _ => hroom⟩
  | ask =>
      obtain ⟨rfl, rfl⟩ := EStateM.Result.ok.inj h
      exact ⟨rfl, rfl, fun hx => by cases hx⟩
  | noReplace =>
      obtain ⟨rfl, rfl⟩ := EStateM.Result.ok.inj h
      exact ⟨rfl, rfl, fun hx => by cases hx⟩
  | replaceAfterConfirm =>
      obtain ⟨rfl, rfl⟩ := EStateM.Result.ok.inj h
      exact ⟨rfl, rfl, fun hx => by cases hx⟩

theorem chooseDestination_ok {destination path : Path}
    (hchosen : chosen policy d.fs destination = some path) (hroom : Room H d.fs path) :
    chooseDestination H policy destination f d = .ok path d := by
  cases policy with
  | renameWithSuffix =>
      simp only [chooseDestination]
      simp only [chosen] at hchosen
      split at hchosen
      · next hfound =>
          rw [bind_ok (pathExists_ok fun hnone => by rw [hnone] at hfound; cases hfound),
            if_pos hfound]
          exact searchSuffix_ok destination f hroom u32Max 1 hchosen
      · next hfound =>
          obtain rfl := Option.some.inj hchosen
          rw [bind_ok (pathExists_ok hroom), if_neg hfound]
          rfl
  | ask => exact Option.some.inj hchosen ▸ rfl
  | noReplace => exact Option.some.inj hchosen ▸ rfl
  | replaceAfterConfirm => exact Option.some.inj hchosen ▸ rfl

/-- The names `choose_destination` may come up with. -/
def Candidate (destination path : Path) : Prop :=
  path = destination ∨ ∃ index < 2 ^ 32, path = suffixedPath destination index

theorem firstFree_spec {fs : Fs} {destination path : Path} : ∀ {left index},
    index + left ≤ 2 ^ 32 → firstFree fs destination left index = some path →
    Candidate destination path ∧ fs.get? path = none := by
  intro left
  induction left with
  | zero => intro index _ h; cases h
  | succ left ih =>
      intro index hle h
      simp only [firstFree] at h
      split at h
      · exact ih (by omega) h
      · next hfree =>
          obtain rfl := Option.some.inj h
          exact ⟨.inr ⟨index, by omega, rfl⟩, by simpa using hfree⟩

theorem u32Max_suffixes : 1 + u32Max ≤ 2 ^ 32 := by decide

theorem chosen_spec {fs : Fs} {destination path : Path}
    (h : chosen policy fs destination = some path) :
    Candidate destination path ∧ (policy = .renameWithSuffix → fs.get? path = none) ∧
      (policy ≠ .renameWithSuffix → path = destination) := by
  cases policy with
  | renameWithSuffix =>
      simp only [chosen] at h
      split at h
      · obtain ⟨hc, hnone⟩ := firstFree_spec u32Max_suffixes h
        exact ⟨hc, fun _ => hnone, by simp⟩
      · next hfree =>
          obtain rfl := Option.some.inj h
          exact ⟨.inl rfl, fun _ => by simpa using hfree, by simp⟩
  | ask =>
      obtain rfl := Option.some.inj h
      exact ⟨.inl rfl, by simp, by simp⟩
  | noReplace =>
      obtain rfl := Option.some.inj h
      exact ⟨.inl rfl, by simp, by simp⟩
  | replaceAfterConfirm =>
      obtain rfl := Option.some.inj h
      exact ⟨.inl rfl, by simp, by simp⟩

theorem firstFree_congr {fs fs' : Fs} {destination : Path}
    (h : ∀ q, Candidate destination q → fs'.get? q = fs.get? q) : ∀ left index,
    index + left ≤ 2 ^ 32 →
    firstFree fs' destination left index = firstFree fs destination left index := by
  intro left
  induction left with
  | zero => intro index _; rfl
  | succ left ih =>
      intro index hle
      simp only [firstFree]
      rw [h _ (.inr ⟨index, by omega, rfl⟩), ih _ (by omega)]

/-- The choice depends on the candidates only. -/
theorem chosen_congr {fs fs' : Fs} {destination : Path}
    (h : ∀ q, Candidate destination q → fs'.get? q = fs.get? q) :
    chosen policy fs' destination = chosen policy fs destination := by
  cases policy with
  | renameWithSuffix => simp only [chosen, h _ (.inl rfl), firstFree_congr h _ _ u32Max_suffixes]
  | ask => rfl
  | noReplace => rfl
  | replaceAfterConfirm => rfl

theorem Above.length_lt (h : Above q p) : q.length < p.length := by
  obtain ⟨hpre, hne⟩ := h
  have := hpre.length_le
  rcases Nat.lt_or_eq_of_le this with hx | hx
  · exact hx
  · exact absurd (hpre.eq_of_length hx) hne

theorem Candidate.length {destination path : Path} (h : Candidate destination path)
    (hne : destination ≠ []) : path.length = destination.length := by
  have := List.length_pos_iff.2 hne
  rcases h with rfl | ⟨index, hindex, rfl⟩
  · rfl
  · simp only [suffixedPath, List.length_append, List.length_dropLast, List.length_singleton]
    omega

theorem Candidate.dropLast {destination path : Path} (h : Candidate destination path) :
    path.dropLast = destination.dropLast := by
  rcases h with rfl | ⟨index, hindex, rfl⟩
  · rfl
  · simp [suffixedPath]

theorem Candidate.not_above {destination path : Path} (h : Candidate destination path)
    (hne : destination ≠ []) : ¬ Above path destination := by
  intro ha
  have := ha.length_lt
  rw [h.length hne] at this
  omega

/-! ## Outside the storage -/

theorem suffixed_ne_storage (destination : Path) (index : Nat) :
    suffixedPath destination index ≠ storageDirectory := by
  intro h
  have hlast := congrArg (fun p : Path => p.getLast?.bind List.getLast?) h
  have hstorage : storageDirectory.getLast?.bind List.getLast? = some 114 := by decide
  have hsome : ∃ b ∈ ascii (toString index),
      (suffixedPath destination index).getLast?.bind List.getLast? = some b := by
    have hne : ascii (toString index) ≠ [] := by
      intro hx
      have := length_suffix index
      simp only [suffix, hx, List.append_nil] at this
      revert this
      decide
    refine ⟨(ascii (toString index)).getLast hne, List.getLast_mem hne, ?_⟩
    have hget := List.getLast?_eq_some_getLast hne
    simp only [suffixedPath, List.getLast?_append, List.getLast?_singleton, Option.some_or,
      Option.bind_some, hget]
  obtain ⟨b, hb, heq⟩ := hsome
  rw [heq, hstorage] at hlast
  obtain rfl := Option.some.inj hlast
  exact absurd (mem_ascii_toString hb).2 (by decide)

/-- A candidate for a path that is not in the storage is not in it either,
unless it is the storage directory. -/
theorem Candidate.outside {destination path : Path} (h : Candidate destination path)
    (hdest : destination ≠ []) (ha : ¬ Above storageDirectory destination)
    (hne : path ≠ storageDirectory) : Outside path := by
  intro hpre
  rcases h with rfl | ⟨index, hindex, rfl⟩
  · exact ha ⟨hpre, Ne.symm hne⟩
  · have hdir : storageDirectory <+: (suffixedPath destination index).dropLast :=
      above_cases ⟨hpre, Ne.symm hne⟩
    rw [Candidate.dropLast (.inr ⟨index, hindex, rfl⟩)] at hdir
    refine ha ⟨hdir.trans (List.dropLast_prefix _), fun hx => ?_⟩
    have h1 := hdir.length_le
    have h2 := List.length_pos_iff.2 hdest
    rw [hx, List.length_dropLast] at h1
    omega

theorem Above.outside (h : Above q p) (ha : ¬ Above storageDirectory p) : Outside q := by
  intro hpre
  refine ha ⟨hpre.trans h.1, fun hx => ?_⟩
  rw [← hx] at h
  exact h.2 (h.1.eq_of_length_le hpre.length_le)

theorem Outside.ne_statePath (h : Outside p) : p ≠ statePath t f := by
  rintro rfl
  exact h ⟨_, rfl⟩

theorem Outside.ne_partialPath (h : Outside p) : p ≠ partialPath t f := by
  rintro rfl
  exact h ⟨_, rfl⟩

/-! ## Moving the file -/

/-- The policy lets a file be moved to `path`, and the file system does. -/
def Vacant (H : Host) (policy : OverwritePolicy) (fs : Fs) (path : Path) : Prop :=
  fs.get? path ≠ some .dir ∧
    (policy = .ask ∨ policy = .noReplace → fs.get? path = none) ∧ Room H fs path

/-- The file at `src` was moved to `dst`. Only a link leaves both names for a
moment. -/
structure Moved (H : Host) (policy : OverwritePolicy) (src dst : Path) (d d' : Disk) : Prop where
  vacant : Vacant H policy d.fs dst
  counter : d'.tempCounter = d.tempCounter
  moved : ∃ n, d.fs.get? src = some n ∧
    (∀ q, d'.fs.get? q = if q = dst then some n else if q = src then none else d.fs.get? q) ∧
    Trails (fun fs => fs = d'.fs ∨ policy = .noReplace ∧
      ∀ q, fs.get? q = if q = dst then some n else d.fs.get? q) d d'

theorem renameInto_moved {src dst : Path}
    (hfree : policy = .ask ∨ policy = .noReplace → d.fs.get? dst = none)
    (h : renameInto H src dst d = .ok () d') : Moved H policy src dst d d' := by
  simp only [renameInto] at h
  rw [bind_ok (metadata_run dst d)] at h
  split at h
  · cases h
  · next hfits =>
      obtain ⟨hmove, hcounter, htrail⟩ := write_step h
      obtain ⟨hdir, n, hn, hget⟩ := Fs.rename?_eq_some hmove
      have hroom : Room H d.fs dst := fun hnone => by simpa [hnone] using hfits
      exact ⟨⟨hdir, hfree, hroom⟩, hcounter, n, hn, hget, [d'.fs], htrail, by simp⟩

theorem renameInto_ok {src dst : Path} {fs : Fs} (hroom : Room H d.fs dst)
    (h : d.fs.rename? src dst = some fs) :
    renameInto H src dst d = .ok () { d with fs, trail := d.trail ++ [fs] } := by
  simp only [renameInto]
  rw [bind_ok (metadata_run dst d), if_neg]
  · exact write_ok h
  · cases hdst : d.fs.get? dst with
    | some n => simp
    | none => simp [hroom hdst]

theorem link_moved {first second : String} {src dst : Path} {d₁ : Disk}
    (hroom : Room H d.fs dst) (h₁ : write first (·.link? src dst) d = .ok () d₁)
    (h₂ : write second (·.erase? src) d₁ = .ok () d') : Moved H .noReplace src dst d d' := by
  obtain ⟨hlink, hcounter₁, htrail₁⟩ := write_step h₁
  obtain ⟨herase, hcounter₂, htrail₂⟩ := write_step h₂
  obtain ⟨hnone, bytes, hsrc, hget₁⟩ := Fs.link?_eq_some hlink
  have hget₂ := Fs.erase?_eq_some herase
  have hne : dst ≠ src := by
    rintro rfl
    rw [hsrc] at hnone
    cases hnone
  refine ⟨⟨by simp [hnone], fun _ => hnone, hroom⟩, hcounter₂.trans hcounter₁, .file bytes, hsrc,
    fun q => ?_, [d₁.fs, d'.fs], by rw [htrail₂, htrail₁]; simp, fun fs hfs => ?_⟩
  · rw [hget₂, hget₁]
    by_cases hq : q = src
    · rw [if_pos hq, if_neg (hq ▸ Ne.symm hne), if_pos hq]
    · rw [if_neg hq, if_neg hq]
  · rcases List.mem_cons.1 hfs with rfl | hx
    · exact .inr ⟨rfl, hget₁⟩
    · exact .inl (List.mem_singleton.1 hx)

theorem moveIntoPlace_inv {src dst : Path}
    (h : moveIntoPlace H src dst policy f d = .ok () d') : Moved H policy src dst d d' := by
  have hexists : ∀ {e : StorageError} {m : StorageM Unit},
      (do
        if ← pathExists H dst then throw e
        m : StorageM Unit) d = .ok () d' →
      d.fs.get? dst = none ∧ Room H d.fs dst ∧ m d = .ok () d' := by
    intro e m hrun
    obtain ⟨found, d₁, hfound, hrun⟩ := bind_inv hrun
    obtain ⟨rfl, rfl, hroom⟩ := pathExists_inv hfound
    cases hd : d₁.fs.get? dst with
    | none =>
        rw [hd] at hrun
        exact ⟨rfl, hroom, hrun⟩
    | some n =>
        rw [hd] at hrun
        cases hrun
  cases policy with
  | ask =>
      obtain ⟨hnone, -, hrun⟩ := hexists h
      exact renameInto_moved (fun _ => hnone) hrun
  | noReplace =>
      obtain ⟨-, hroom, hrun⟩ := hexists h
      obtain ⟨⟨⟩, d₁, h₁, h₂⟩ := bind_inv hrun
      exact link_moved hroom h₁ h₂
  | replaceAfterConfirm => exact renameInto_moved (by simp) h
  | renameWithSuffix => exact renameInto_moved (by simp) h

theorem moveIntoPlace_ok {src dst : Path} {bytes : Bytes}
    (hsrc : d.fs.get? src = some (.file bytes)) (hne : dst ≠ [])
    (hparent : d.fs.get? dst.dropLast = some .dir) (hv : Vacant H policy d.fs dst) :
    ∃ d', moveIntoPlace H src dst policy f d = .ok () d' := by
  obtain ⟨hdir, hfree, hroom⟩ := hv
  obtain ⟨fs, hmove⟩ := Fs.rename?_isSome hsrc hne hparent hdir
  have hrename : renameInto H src dst d = .ok () { d with fs, trail := d.trail ++ [fs] } :=
    renameInto_ok hroom hmove
  have hexists : d.fs.get? dst = none → ∀ {e : StorageError} {m : StorageM Unit},
      (do
        if ← pathExists H dst then throw e
        m : StorageM Unit) d = m d := by
    intro hnone e m
    rw [bind_ok (pathExists_ok hroom), hnone]
    rfl
  cases policy with
  | ask => exact ⟨_, (hexists (hfree (.inl rfl))).trans hrename⟩
  | noReplace =>
      have hnone := hfree (.inr rfl)
      have hcan : d.fs.CanPut dst (.file bytes) := ⟨hne, hparent, fun hx => absurd hx hdir⟩
      obtain ⟨fs₁, hput⟩ := Fs.put?_isSome hcan
      have hlink : d.fs.link? src dst = some fs₁ := by simp only [Fs.link?, hsrc, hnone, hput]
      have hsrc₁ : fs₁.get? src ≠ some .dir := by
        rw [(Fs.put?_eq_some hput).2]
        split
        · simp
        · simp [hsrc]
      obtain ⟨fs₂, herase⟩ := Fs.erase?_isSome hsrc₁
      exact ⟨_, (hexists hnone).trans ((bind_ok (write_ok hlink)).trans (write_ok herase))⟩
  | replaceAfterConfirm => exact ⟨_, hrename⟩
  | renameWithSuffix => exact ⟨_, hrename⟩

/-- What is left to do on an installed file ends well. -/
def Host.Settles (H : Host) (metadata : FileMetadata) : Prop :=
  H.applyMetadata metadata = none ∧ (H.syncAll = true → H.opens metadata = true)

theorem settleFile_inv {metadata : FileMetadata} (h : settleFile H metadata d = .ok () d') :
    d' = d ∧ H.Settles metadata := by
  simp only [settleFile] at h
  cases happly : H.applyMetadata metadata with
  | some operation =>
      rw [happly] at h
      cases h
  | none =>
      rw [happly] at h
      dsimp only at h
      split at h
      · cases h
      · next hopens =>
          obtain ⟨-, rfl⟩ := EStateM.Result.ok.inj h
          exact ⟨rfl, happly, fun hsync => by simpa [hsync] using hopens⟩

theorem settleFile_ok {metadata : FileMetadata} (h : H.Settles metadata) :
    settleFile H metadata d = .ok () d := by
  obtain ⟨happly, hopens⟩ := h
  unfold settleFile
  rw [happly]
  dsimp only
  rw [if_neg]
  · rfl
  · cases hsync : H.syncAll with
    | false => simp
    | true => simp [hopens hsync]

/-! ## Checking the content -/

/-- The node is a file with the registered content. -/
def Verified (H : Host) (registration : FileRegistration) (n : Option Node) : Prop :=
  ∃ bytes, n = some (.file bytes) ∧ bytes.length = registration.size ∧
    (⟨registration.contentHash.algorithm,
      H.digest registration.contentHash.algorithm bytes⟩ : Digest) = registration.contentHash

theorem destinationMatches_inv {registration : FileRegistration} {b : Bool}
    (h : destinationMatches H p registration d = .ok b d') :
    d' = d ∧ (b = true ↔ Verified H registration (d.fs.get? p)) ∧
      (b = true → H.opens registration.metadata = true) := by
  have hsame := destinationMatches_same h
  simp only [destinationMatches] at h
  rw [bind_ok (metadata_run p d)] at h
  have hnone : (∀ bytes, d.fs.get? p ≠ some (.file bytes)) → b = false →
      (b = true ↔ Verified H registration (d.fs.get? p)) ∧
        (b = true → H.opens registration.metadata = true) := by
    rintro hfile rfl
    refine ⟨iff_of_false Bool.false_ne_true fun hv => ?_, fun hx => by cases hx⟩
    obtain ⟨bytes, hbytes, -⟩ := hv
    exact hfile bytes hbytes
  cases hp : d.fs.get? p with
  | none =>
      rw [hp] at h hnone
      exact ⟨hsame, hnone (fun _ hx => by cases hx) (EStateM.Result.ok.inj h).1.symm⟩
  | some n =>
      rw [hp] at h hnone
      cases n with
      | file bytes =>
          refine ⟨hsame, ?_⟩
          dsimp only at h
          split at h
          · next hsize =>
              obtain rfl := (EStateM.Result.ok.inj h).1
              refine ⟨iff_of_false Bool.false_ne_true fun hv => ?_, fun hx => by cases hx⟩
              obtain ⟨bytes', hbytes, hlen, -⟩ := hv
              obtain rfl := Node.file.inj (Option.some.inj hbytes)
              exact hsize hlen
          · next hsize =>
              split at h
              · cases h
              · next hopens =>
                  obtain rfl := (EStateM.Result.ok.inj h).1
                  refine ⟨?_, fun _ => by simpa using hopens⟩
                  simp [Verified, Decidable.not_not.1 hsize]
      | dir => exact ⟨hsame, hnone (fun _ hx => by cases hx) (EStateM.Result.ok.inj h).1.symm⟩
      | symlink =>
          exact ⟨hsame, hnone (fun _ hx => by cases hx) (EStateM.Result.ok.inj h).1.symm⟩

theorem destinationMatches_ok {registration : FileRegistration}
    (hv : Verified H registration (d.fs.get? p)) (hopens : H.opens registration.metadata = true) :
    destinationMatches H p registration d = .ok true d := by
  obtain ⟨bytes, hfile, hsize, hhash⟩ := hv
  simp only [destinationMatches]
  rw [bind_ok (metadata_run p d), hfile]
  dsimp only
  rw [if_neg (not_not.2 hsize), if_neg (by simp [hopens])]
  simp only [hhash, beq_self_eq_true]
  rfl

theorem destinationPath_inv {path : Bytes} (h : destinationPath path d = .ok p d') :
    d' = d ∧ p = splitSlash path ∧ validateStoragePath path = .ok () := by
  simp only [destinationPath] at h
  cases hv : validateStoragePath path with
  | ok u =>
      rw [hv] at h
      obtain ⟨rfl, rfl⟩ := EStateM.Result.ok.inj h
      exact ⟨rfl, rfl, rfl⟩
  | error e => rw [hv] at h; cases h

theorem destinationPath_ok {path : Bytes} (h : validateStoragePath path = .ok ()) (d : Disk) :
    destinationPath path d = .ok (splitSlash path) d := by
  simp only [destinationPath, h]
  rfl

theorem fileLengthIfExists_ok {bytes : Bytes} (h : d.fs.get? p = some (.file bytes)) :
    fileLengthIfExists p d = .ok (some bytes.length) d := by
  simp only [fileLengthIfExists]
  rw [bind_ok (metadata_run p d), h]
  rfl

theorem hashFile_run {bytes : Bytes} {algorithm : HashAlgorithm}
    (h : d.fs.get? p = some (.file bytes)) :
    hashFile H p algorithm d = .ok ⟨algorithm, H.digest algorithm bytes⟩ d := by
  simp only [hashFile]
  rw [bind_ok (metadata_run p d), h]
  rfl

theorem openPartialExisting_run {bytes : Bytes} (h : d.fs.get? p = some (.file bytes)) :
    openPartialExisting p d = .ok () d := by
  simp only [openPartialExisting]
  rw [bind_ok (metadata_run p d), h]
  rfl

theorem loadRecord_ok (h : recordOf (d.fs.get? (statePath t f)) = some r) :
    loadRecord t f d = .ok r d := by
  obtain ⟨n, hn⟩ := recordOf_isSome h
  have hread : readStateIfExists (statePath t f) d = .ok (some r) d := by
    simp only [readStateIfExists]
    rw [bind_ok (metadata_run _ d), hn]
    exact (bind_ok (readState_ok h)).trans rfl
  simp only [loadRecord]
  rw [bind_ok hread]
  rfl

theorem loadRecord_inv (h : loadRecord t f d = .ok r d') :
    recordOf (d.fs.get? (statePath t f)) = some r ∧ d' = d := by
  cases hrec : recordOf (d.fs.get? (statePath t f)) with
  | some r' =>
      rw [loadRecord_ok hrec] at h
      obtain ⟨rfl, rfl⟩ := EStateM.Result.ok.inj h
      exact ⟨rfl, rfl⟩
  | none =>
      exfalso
      simp only [loadRecord, readStateIfExists] at h
      obtain ⟨o, d₁, hread, h₁⟩ := bind_inv h
      rw [bind_ok (metadata_run _ d)] at hread
      cases hn : d.fs.get? (statePath t f) with
      | none =>
          rw [hn] at hread
          obtain ⟨rfl, rfl⟩ := EStateM.Result.ok.inj hread
          cases h₁
      | some n =>
          rw [hn] at hread
          obtain ⟨r', d₂, hstate, _⟩ := bind_inv hread
          obtain ⟨e, herr⟩ := readState_error hrec
          rw [herr] at hstate
          cases hstate

/-! ## Installing -/

/-- The partial file was checked and moved to `dst`, a candidate for
`destination`; the directories above were made before. -/
structure InstalledAt (H : Host) (policy : OverwritePolicy) (src destination dst : Path)
    (registration : FileRegistration) (d d' : Disk) : Prop where
  verified : Verified H registration (d.fs.get? src)
  chosen : chosen policy d.fs destination = some dst
  between : ∃ d₁, Ensured H destination d d₁ ∧ Moved H policy src dst d₁ d'
  settles : H.Settles registration.metadata

theorem Ensured.chosen {destination : Path} (h : Ensured H destination d d')
    (hne : destination ≠ []) :
    chosen policy d'.fs destination = chosen policy d.fs destination :=
  chosen_congr fun _ hq => h.grown.get (hq.not_above hne)

theorem installPartial_inv {src destination : Path} {registration : FileRegistration}
    {installed : Bytes} (hne : destination ≠ [])
    (h : installPartial H policy f src destination registration d = .ok installed d') :
    ∃ dst, installed = joinSlash dst ∧
      InstalledAt H policy src destination dst registration d d' := by
  simp only [installPartial] at h
  obtain ⟨n, d₁, hlen, h₁⟩ := bind_inv h
  obtain ⟨rfl, hn⟩ := fileLengthIfExists_inv hlen
  split at h₁
  · cases h₁
  · next hsize =>
      rcases hn with ⟨rfl, hnone⟩ | ⟨bytes, rfl, hfile⟩
      · obtain ⟨hash, d₂, hhash, _⟩ := bind_inv h₁
        simp only [hashFile] at hhash
        rw [bind_ok (metadata_run src d₁), hnone] at hhash
        cases hhash
      · rw [bind_ok (hashFile_run hfile)] at h₁
        split at h₁
        · cases h₁
        · next hhash =>
            rw [bind_ok (openPartialExisting_run hfile)] at h₁
            obtain ⟨⟨⟩, d₂, hensure, h₂⟩ := bind_inv h₁
            have hens := ensureSafeParent_inv hne hensure
            obtain ⟨dst, d₃, hchoose, h₃⟩ := bind_inv h₂
            obtain ⟨rfl, hc, -⟩ := chooseDestination_inv hchoose
            obtain ⟨⟨⟩, d₄, hmove, h₄⟩ := bind_inv h₃
            obtain ⟨⟨⟩, d₅, hsettle, h₅⟩ := bind_inv h₄
            obtain ⟨rfl, hsettles⟩ := settleFile_inv hsettle
            obtain ⟨rfl, rfl⟩ := EStateM.Result.ok.inj h₅
            refine ⟨dst, rfl, ⟨bytes, hfile, ?_, ?_⟩, ?_, ⟨d₃, hens, moveIntoPlace_inv hmove⟩,
              hsettles⟩
            · simpa using hsize
            · simpa using hhash
            · rw [← hens.chosen hne]
              exact hc

theorem installPartial_ok {src destination dst : Path} {registration : FileRegistration}
    (hne : destination ≠ []) (hverified : Verified H registration (d.fs.get? src))
    (hclear : Clear H destination d.fs) (hchosen : chosen policy d.fs destination = some dst)
    (hv : Vacant H policy d.fs dst) (hsettles : H.Settles registration.metadata) :
    ∃ d', installPartial H policy f src destination registration d = .ok (joinSlash dst) d' := by
  obtain ⟨bytes, hfile, hsize, hhash⟩ := hverified
  obtain ⟨d₁, hensure⟩ := ensureSafeParent_ok hne hclear
  have hens := ensureSafeParent_inv hne hensure
  have hcand := (chosen_spec hchosen).1
  have hdst : d₁.fs.get? dst = d.fs.get? dst := hens.grown.get (hcand.not_above hne)
  have hsrc : d₁.fs.get? src = some (.file bytes) := by
    rcases hens.grown src with hx | ⟨hx, _⟩
    · exact hx.trans hfile
    · rw [hfile] at hx
      cases hx
  have hdst_ne : dst ≠ [] := by
    intro hx
    have hlen := hcand.length hne
    rw [hx] at hlen
    exact hne (List.length_eq_zero_iff.1 hlen.symm)
  have habove : Above dst.dropLast destination := by
    rw [hcand.dropLast]
    refine ⟨List.dropLast_prefix _, fun hx => ?_⟩
    have := congrArg List.length hx
    have hpos := List.length_pos_iff.2 hne
    rw [List.length_dropLast] at this
    omega
  have hv₁ : Vacant H policy d₁.fs dst := by
    unfold Vacant Room at hv ⊢
    rwa [hdst]
  obtain ⟨d₂, hmove⟩ := moveIntoPlace_ok (f := f) hsrc hdst_ne (hens.dirs _ habove) hv₁
  refine ⟨d₂, ?_⟩
  simp only [installPartial]
  rw [bind_ok (fileLengthIfExists_ok hfile), if_neg (by simpa using hsize),
    bind_ok (hashFile_run hfile), if_neg (by simpa using hhash),
    bind_ok (openPartialExisting_run hfile), bind_ok hensure]
  have hchoose : chooseDestination H policy destination f d₁ = .ok dst d₁ :=
    chooseDestination_ok ((hens.chosen hne).trans hchosen) hv₁.2.2
  rw [bind_ok hchoose, bind_ok hmove, bind_ok (settleFile_ok hsettles)]
  rfl

/-- What is not moved, and not made, is left alone. -/
theorem InstalledAt.get {src destination dst : Path} {registration : FileRegistration}
    (h : InstalledAt H policy src destination dst registration d d') :
    d'.fs.get? dst = d.fs.get? src ∧
      ∀ q, q ≠ dst → q ≠ src → Kept destination d.fs d'.fs q := by
  obtain ⟨⟨bytes, hfile, _⟩, _, ⟨d₁, hens, _, _, n, hn, hget, _⟩, _⟩ := h
  constructor
  · rw [hget, if_pos rfl, ← hn]
    rcases hens.grown src with hx | ⟨hx, _⟩
    · exact hx
    · rw [hfile] at hx
      cases hx
  · intro q hq1 hq2
    have hsame : d'.fs.get? q = d₁.fs.get? q := by rw [hget, if_neg hq1, if_neg hq2]
    exact (hens.grown q).trans (.inl hsame)

theorem sourceExists_inv {size : Nat} {b : Bool} (h : sourceExists p size d = .ok b d') :
    b = true ∧ d' = d ∧ (∃ bytes, d.fs.get? p = some (.file bytes)) ∨
      b = true ∧ d.fs.get? p = none ∧ size = 0 ∧ Sets d d' p (some (.file [])) ∧
        d'.tempCounter = d.tempCounter ∨
      b = false ∧ d' = d ∧ d.fs.get? p = none ∧ size ≠ 0 := by
  simp only [sourceExists] at h
  obtain ⟨n, d₁, hlen, h₁⟩ := bind_inv h
  obtain ⟨rfl, ⟨rfl, hnone⟩ | ⟨bytes, rfl, hfile⟩⟩ := fileLengthIfExists_inv hlen
  · simp only [Option.isSome_none, Bool.false_eq_true, if_false] at h₁
    split at h₁
    · next hsize =>
        obtain ⟨content, d₂, hopen, h₂⟩ := bind_inv h₁
        obtain ⟨rfl, rfl⟩ := EStateM.Result.ok.inj h₂
        simp only [openPartial] at hopen
        rw [bind_ok (metadata_run p d₁), hnone] at hopen
        obtain ⟨⟨⟩, d₃, hput, hlast⟩ := bind_inv hopen
        obtain ⟨-, rfl⟩ := EStateM.Result.ok.inj hlast
        obtain ⟨hput, hcounter, _⟩ := write_step hput
        exact .inr (.inl ⟨rfl, hnone, hsize, (Fs.put?_eq_some hput).2, hcounter⟩)
    · next hsize =>
        obtain ⟨rfl, rfl⟩ := EStateM.Result.ok.inj h₁
        exact .inr (.inr ⟨rfl, rfl, hnone, hsize⟩)
  · simp only [Option.isSome_some, if_true] at h₁
    obtain ⟨rfl, rfl⟩ := EStateM.Result.ok.inj h₁
    exact .inl ⟨rfl, rfl, bytes, hfile⟩

/-- The two ways to have a file installed: its partial file is moved, or it
has been moved before. -/
theorem install_inv {registration : FileRegistration} {installed : Bytes}
    (h : install H policy t f registration d = .ok installed d') :
    (∃ d₀ dst, installed = joinSlash dst ∧
      (d₀ = d ∨ d.fs.get? (partialPath t f) = none ∧ registration.size = 0 ∧
        Sets d d₀ (partialPath t f) (some (.file [])) ∧ d₀.tempCounter = d.tempCounter) ∧
      InstalledAt H policy (partialPath t f) (splitSlash registration.relativePath) dst
        registration d₀ d') ∨
    (d' = d ∧ installed = registration.relativePath ∧
      d.fs.get? (partialPath t f) = none ∧ registration.size ≠ 0 ∧
      Verified H registration (d.fs.get? (splitSlash registration.relativePath)) ∧
      H.opens registration.metadata = true) := by
  simp only [install] at h
  obtain ⟨destination, d₁, hdest, h₁⟩ := bind_inv h
  obtain ⟨rfl, rfl, -⟩ := destinationPath_inv hdest
  have hne := splitSlash_ne_nil registration.relativePath
  obtain ⟨b, d₀, hsource, h₂⟩ := bind_inv h₁
  rcases sourceExists_inv hsource with ⟨rfl, rfl, _⟩ | ⟨rfl, hnone, hsize, hsets, hcounter⟩ |
    ⟨rfl, rfl, hnone, hsize⟩
  · obtain ⟨dst, hinst, hat⟩ := installPartial_inv hne h₂
    exact .inl ⟨d₀, dst, hinst, .inl rfl, hat⟩
  · obtain ⟨dst, hinst, hat⟩ := installPartial_inv hne h₂
    exact .inl ⟨d₀, dst, hinst, .inr ⟨hnone, hsize, hsets, hcounter⟩, hat⟩
  · simp only [Bool.false_eq_true, if_false] at h₂
    obtain ⟨m, d₂, hmatch, h₃⟩ := bind_inv h₂
    obtain ⟨rfl, hm, hopens⟩ := destinationMatches_inv hmatch
    split at h₃
    · next hyes =>
        obtain ⟨rfl, rfl⟩ := EStateM.Result.ok.inj h₃
        exact .inr ⟨rfl, rfl, hnone, hsize, hm.1 hyes, hopens hyes⟩
    · cases h₃

/-! ## Completing -/

/-- The ways a call of `complete_file` can end well, by the record it found. -/
theorem completeFile_inv {size : Nat} {hash : Digest}
    (hrec : recordOf (d.fs.get? (statePath t f)) = some r)
    (h : completeFile H policy pid t f size hash d = .ok () d') :
    size = r.registration.size ∧ hash = r.registration.contentHash ∧
      (r.complete = true ∧ d' = d ∧ Verified H r.registration
          (d.fs.get? (splitSlash (r.installedRelativePath.getD r.registration.relativePath))) ∨
        r.complete = false ∧ r.durableOffset = r.registration.size ∧
          ∃ installed d₁, install H policy t f r.registration d = .ok installed d₁ ∧
            writeState pid (statePath t f) (r.completed installed) d₁ = .ok () d') := by
  simp only [completeFile] at h
  rw [bind_ok (loadRecord_ok hrec)] at h
  split at h
  · cases h
  · next hsize =>
      split at h
      · cases h
      · next hhash =>
          refine ⟨by simpa using hsize, by simpa using hhash, ?_⟩
          split at h
          · next hcomplete =>
              obtain ⟨path, d₁, hdest, h₁⟩ := bind_inv h
              obtain ⟨rfl, rfl, -⟩ := destinationPath_inv hdest
              obtain ⟨m, d₂, hmatch, h₂⟩ := bind_inv h₁
              obtain ⟨rfl, hm, -⟩ := destinationMatches_inv hmatch
              split at h₂
              · next hyes =>
                  obtain ⟨-, rfl⟩ := EStateM.Result.ok.inj h₂
                  exact .inl ⟨hcomplete, rfl, hm.1 hyes⟩
              · cases h₂
          · next hcomplete =>
              split at h
              · cases h
              · next hdurable =>
                  obtain ⟨installed, d₁, hinst, h₁⟩ := bind_inv h
                  exact .inr ⟨by simpa using hcomplete, by simpa using hdurable, installed, d₁,
                    hinst, h₁⟩

theorem InstalledAt.counter {src destination dst : Path} {registration : FileRegistration}
    (h : InstalledAt H policy src destination dst registration d d') :
    d'.tempCounter = d.tempCounter := by
  obtain ⟨d₁, hens, hmoved⟩ := h.between
  exact hmoved.counter.trans hens.counter

/-- What is enough for a first call of `complete_file` to end well. -/
structure Ready (H : Host) (policy : OverwritePolicy) (pid : Nat) (t : TransferId) (f : FileId)
    (r : StateRecord) (dst : Path) (d : Disk) : Prop where
  record : recordOf (d.fs.get? (statePath t f)) = some r
  pending : r.complete = false
  durable : r.durableOffset = r.registration.size
  verified : Verified H r.registration (d.fs.get? (partialPath t f))
  clear : Clear H (splitSlash r.registration.relativePath) d.fs
  chosen : chosen policy d.fs (splitSlash r.registration.relativePath) = some dst
  vacant : Vacant H policy d.fs dst
  settles : H.Settles r.registration.metadata
  free : d.fs.get? (tempPath (sessionDirectory t) pid d.tempCounter) = none

theorem recordOf_file {n : Option Node} (h : recordOf n = some r) :
    ∃ bytes, n = some (.file bytes) := by
  unfold recordOf at h
  split at h
  · next bytes => exact ⟨bytes, rfl⟩
  · cases h

/-- The directory of the records of a transfer, and the ones above it. -/
theorem record_dirs {fs : Fs} {n : Node} (h : fs.get? (statePath t f) = some n) :
    fs.get? (sessionDirectory t) = some .dir ∧ fs.get? storageDirectory = some .dir := by
  have h1 : fs.get? (sessionDirectory t) = some .dir := Fs.parent_dir h
  have h2 : fs.get? sessionsDirectory = some .dir := Fs.parent_dir h1
  exact ⟨h1, Fs.parent_dir h2⟩

theorem sessionDirectory_dropLast (t : TransferId) (f : FileId) :
    (statePath t f).dropLast = sessionDirectory t := by simp [statePath]

theorem statePath_ne_nil (t : TransferId) (f : FileId) : statePath t f ≠ [] := by
  simp [statePath]

theorem statePath_ne_partialPath {t' : TransferId} {f' : FileId} :
    statePath t f ≠ partialPath t' f' := by
  intro h
  have hsecond := congrArg (fun p : Path => p[1]?) h
  have hs : (statePath t f)[1]? = some (ascii "sessions") := rfl
  have hp : (partialPath t' f')[1]? = some (ascii "partial") := rfl
  simp only [hs, hp] at hsecond
  revert hsecond
  decide

theorem tempPath_not_outside {t : TransferId} {counter : Nat} :
    ¬ Outside (tempPath (sessionDirectory t) pid counter) :=
  fun h => h ⟨_, rfl⟩

/-- A destination that was chosen and is vacant lies outside the storage. -/
theorem outside_of_chosen {fs : Fs} {n : Node} {destination dst : Path}
    (hstate : fs.get? (statePath t f) = some n) (hne : destination ≠ [])
    (ha : ¬ Above storageDirectory destination) (hcand : Candidate destination dst)
    (hv : fs.get? dst ≠ some .dir) : Outside dst := by
  refine hcand.outside hne ha fun hx => hv ?_
  rw [hx]
  exact (record_dirs hstate).2

/-- The call, from the disk `d₀` on which the partial file is there. -/
theorem completeFile_ok_of_source {dst : Path} {d₀ : Disk}
    (hrec : recordOf (d₀.fs.get? (statePath t f)) = some r)
    (hsource : sourceExists (partialPath t f) r.registration.size d₀ = .ok true d)
    (h : Ready H policy pid t f r dst d)
    (ha : ¬ Above storageDirectory (splitSlash r.registration.relativePath)) :
    ∃ d', completeFile H policy pid t f r.registration.size r.registration.contentHash d₀ =
      .ok () d' := by
  have hne := splitSlash_ne_nil r.registration.relativePath
  obtain ⟨bytes, hstate⟩ := recordOf_file h.record
  obtain ⟨content, hpartial, _⟩ := h.verified
  have hout : Outside dst :=
    outside_of_chosen hstate hne ha (chosen_spec h.chosen).1 h.vacant.1
  obtain ⟨d₁, hinstall⟩ := installPartial_ok (f := f) hne h.verified h.clear h.chosen h.vacant
    h.settles
  obtain ⟨dst', hdst', hat⟩ := installPartial_inv hne hinstall
  have hsame : dst' = dst := Option.some.inj (hat.chosen.symm.trans h.chosen)
  subst hsame
  have hget := hat.get.2
  have hstate₁ : d₁.fs.get? (statePath t f) = some (.file bytes) := by
    rcases hget _ hout.ne_statePath.symm statePath_ne_partialPath with hx | ⟨hx, _⟩
    · exact hx.trans hstate
    · rw [hstate] at hx
      cases hx
  have hfree₁ : d₁.fs.get? (tempPath (statePath t f).dropLast pid d₁.tempCounter) = none := by
    rw [sessionDirectory_dropLast, hat.counter]
    by_cases hp : tempPath (sessionDirectory t) pid d.tempCounter = partialPath t f
    · have hfree := h.free
      rw [hp, hpartial] at hfree
      cases hfree
    · rcases hget _ (fun hx => tempPath_not_outside (hx ▸ hout)) hp with hx | ⟨_, _, hx⟩
      · exact hx.trans h.free
      · exact absurd (hx.outside ha) tempPath_not_outside
  obtain ⟨d', hwrite⟩ := @writeState_ok _ _ _ (r.completed (joinSlash dst')) _ hstate₁
    (statePath_ne_nil t f) hfree₁
  have hrun : install H policy t f r.registration d₀ = .ok (joinSlash dst') d₁ := by
    simp only [install]
    rw [bind_ok (destinationPath_ok (recordOf_valid h.record).path d₀), bind_ok hsource]
    exact hinstall
  refine ⟨d', ?_⟩
  simp only [completeFile]
  rw [bind_ok (loadRecord_ok hrec), if_neg (by simp), if_neg (by simp),
    if_neg (by simp [h.pending]), if_neg (by simp [h.durable]), bind_ok hrun]
  exact hwrite

theorem completeFile_ok {dst : Path} (h : Ready H policy pid t f r dst d)
    (ha : ¬ Above storageDirectory (splitSlash r.registration.relativePath)) :
    ∃ d', completeFile H policy pid t f r.registration.size r.registration.contentHash d =
      .ok () d' := by
  refine completeFile_ok_of_source h.record ?_ h ha
  obtain ⟨content, hpartial, _⟩ := h.verified
  simp only [sourceExists]
  rw [bind_ok (fileLengthIfExists_ok hpartial)]
  rfl

/-- A call that finds its work done. -/
theorem completeFile_ok_of_complete
    (hrec : recordOf (d.fs.get? (statePath t f)) = some r) (hr : r.complete = true)
    (hopens : H.opens r.registration.metadata = true)
    (hv : Verified H r.registration
      (d.fs.get? (splitSlash (r.installedRelativePath.getD r.registration.relativePath)))) :
    completeFile H policy pid t f r.registration.size r.registration.contentHash d = .ok () d := by
  have hvalid := recordOf_valid hrec
  have hpath : validateStoragePath (r.installedRelativePath.getD r.registration.relativePath) =
      .ok () := by
    cases hi : r.installedRelativePath with
    | none => exact hvalid.path
    | some path => exact (hvalid.installed path hi).2
  simp only [completeFile]
  rw [bind_ok (loadRecord_ok hrec), if_neg (by simp), if_neg (by simp), if_pos hr,
    bind_ok (destinationPath_ok hpath d), bind_ok (destinationMatches_ok hv hopens), if_pos rfl]
  rfl

end DartUdp.Storage
