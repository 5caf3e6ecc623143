import DartUdp.Lib.FsWalk
import DartUdp.Client.ManifestFiles

/-!
# The two walks of the sources agree

The builder of the manifest goes through the directories with a stack, the client with
a recursion, and each makes up the names on its own. Both reach a file along the same
path of names, so what a walk collects is described without the walk: the files that
some names lead to, under the name these names give. The order in which the entries of
a directory come, which the two walks do not share, does not show in it.

Both loops read every directory at most once, so the fuel they are given is enough.

The module is for `walks_agree`. `collectSources_adds` says what the one walk
collects and `collectPending_reaches` what the stack of the other leads to;
`collectSourceFiles_get` and `collect_mem` are the same two in one form.
-/

namespace DartUdp.Client

open DartUdp.Lib DartUdp.Transfer DartUdp.Storage
open DartUdp.Session (Manifest ManifestEntry)
open DartUdp.Storage.ManifestBuilder (Candidate)

/-! ## Results of a walk -/

section

variable {ε α β : Type} {x : ExceptT ε Option α} {f : α → ExceptT ε Option β}

theorem walk_bind_inv {b : β} (h : (x >>= f) = some (.ok b)) :
    ∃ a, x = some (.ok a) ∧ f a = some (.ok b) := by
  change Option.bind x _ = _ at h
  cases x with
  | none => cases h
  | some r =>
      cases r with
      | error e => cases h
      | ok a => exact ⟨a, rfl, h⟩

theorem walk_bind_ne_none (hx : x ≠ none) (hf : ∀ a, x = some (.ok a) → f a ≠ none) :
    (x >>= f) ≠ none := by
  cases x with
  | none => exact absurd rfl hx
  | some r =>
      cases r with
      | error e => exact fun h => by cases h
      | ok a => exact hf a rfl

theorem walk_lift_inv {r : Except ε α} {a : α}
    (h : (liftM r : ExceptT ε Option α) = some (.ok a)) : r = .ok a := Option.some.inj h

theorem walk_lift_ne_none (r : Except ε α) : (liftM r : ExceptT ε Option α) ≠ none := fun h => by
  cases h

end

section

variable {fs : Fs} {tree : SourceTree} {config : ManifestBuildConfig} {H : Hashes}
  {path : Path} {relative : Bytes} {x start : Candidate} {files files' : SourceFiles}
  {pending pending' candidates candidates' : List Candidate}

/-! ## What a walk should collect -/

/-- The name of what is `names` below something called `relative`. -/
def nameBelow (relative : Bytes) (names : List Bytes) : Bytes :=
  names.foldl (fun above name => above ++ slash :: name) relative

/-- Some names lead from the start to the file `x`, which they name. -/
def Leads (fs : Fs) (start x : Candidate) : Prop :=
  ∃ names bytes, x.1 = start.1 ++ names ∧ x.2 = nameBelow start.2 names ∧
    fs.get? x.1 = some (.file bytes)

/-- From a file nothing leads further. -/
theorem leads_file {bytes : Bytes} (h : fs.get? path = some (.file bytes)) :
    Leads fs (path, relative) x ↔ x = (path, relative) := by
  constructor
  · rintro ⟨names, bytes', hpath, hname, hfile⟩
    cases names with
    | nil =>
        rw [List.append_nil] at hpath
        exact Prod.ext hpath hname
    | cons name names =>
        rw [hpath] at hfile
        have hdir := Fs.dir_of_below hfile (List.cons_ne_nil _ _)
        rw [h] at hdir
        cases hdir
  · rintro rfl
    exact ⟨[], bytes, (List.append_nil _).symm, rfl, h⟩

/-- From a directory every way leads through one of its entries. -/
theorem leads_dir (h : fs.get? path = some .dir) :
    Leads fs (path, relative) x ↔
      ∃ entry ∈ fs.readDir path,
      Leads fs (entry, relative ++ slash :: entry.getLast?.getD []) x := by
  constructor
  · rintro ⟨names, bytes, hpath, hname, hfile⟩
    cases names with
    | nil =>
        rw [List.append_nil] at hpath
        rw [hpath, h] at hfile
        cases hfile
    | cons name names =>
        have hbelow := hfile
        rw [hpath] at hbelow
        refine ⟨_, Fs.entry_of_below hbelow, names, bytes, ?_, ?_, hfile⟩
        · rw [hpath]
          exact List.append_cons ..
        · rw [hname, List.getLast?_concat]
          rfl
  · rintro ⟨entry, hentry, names, bytes, hpath, hname, hfile⟩
    obtain ⟨name, rfl, -⟩ := Fs.mem_readDir_iff.1 hentry
    rw [List.getLast?_concat] at hname
    refine ⟨name :: names, bytes, ?_, hname, hfile⟩
    rw [hpath]
    exact (List.append_cons ..).symm

/-- The source stands for a file or a directory with a name. -/
def Opens (tree : SourceTree) (source : Bytes) (start : Candidate) : Prop :=
  tree.canonicalize source = some start.1 ∧ SourceTree.fileName start.1 = some start.2

/-- A file at or below one of the sources, under its name in the manifest. -/
def Sourced (tree : SourceTree) (sources : List Bytes) (x : Candidate) : Prop :=
  ∃ source ∈ sources, ∃ start, Opens tree source start ∧ Leads tree.fs start x

theorem sourced_cons {source : Bytes} {sources : List Bytes} (h : Opens tree source start) :
    Sourced tree (source :: sources) x ↔ Leads tree.fs start x ∨ Sourced tree sources x := by
  constructor
  · rintro ⟨source', hsource, start', hopens, hleads⟩
    rcases List.mem_cons.1 hsource with rfl | hsource
    · have hpath := Option.some.inj (hopens.1.symm.trans h.1)
      have hname := hopens.2
      rw [hpath, h.2] at hname
      rw [show start' = start from Prod.ext hpath (Option.some.inj hname).symm] at hleads
      exact .inl hleads
    · exact .inr ⟨source', hsource, start', hopens, hleads⟩
  · rintro (hleads | ⟨source', hsource, hrest⟩)
    · exact ⟨source, List.mem_cons_self, start, h, hleads⟩
    · exact ⟨source', List.mem_cons_of_mem _ hsource, hrest⟩

/-- A name that was opened is not empty. -/
theorem name_ne_nil {node : Node} (hnode : tree.fs.get? path = some node)
    (hname : SourceTree.fileName path = some relative) : relative ≠ [] := by
  obtain ⟨hlast, -⟩ := Option.filter_eq_some_iff.1 hname
  exact tree.named path node hnode relative (List.mem_of_getLast? hlast)

/-! ## The walk of the client -/

/-- What is looked up afterwards was there before or has the property. -/
def Adds (S : Candidate → Prop) (files files' : SourceFiles) : Prop :=
  ∀ name path, files'[name]? = some path ↔ files[name]? = some path ∨ S (path, name)

theorem Adds.trans {S T : Candidate → Prop} {files'' : SourceFiles} (h : Adds S files files')
    (h' : Adds T files' files'') : Adds (fun x => S x ∨ T x) files files'' := fun name path => by
  rw [h' name path, h name path, or_assoc]

theorem Adds.congr {S T : Candidate → Prop} (h : Adds S files files') (heq : ∀ x, S x ↔ T x) :
    Adds T files files' := fun name path => by
  rw [h name path, heq]

theorem Adds.none (files : SourceFiles) : Adds (fun _ => False) files files := fun _ _ =>
  (or_iff_left id).symm

theorem insert_adds (h : insert files relative path = .ok files') :
    Adds (fun x => x = (path, relative)) files files' := by
  unfold insert at h
  split at h
  · cases h
  next hfree =>
  obtain rfl := Except.ok.inj h
  intro name path'
  simp only [Std.TreeMap.getElem?_insert, Prod.mk.injEq]
  split
  · next heq =>
      obtain rfl := Std.compare_eq_iff_eq.1 heq
      rw [Option.not_isSome_iff_eq_none.1 hfree, Option.some.injEq]
      exact ⟨fun h => .inr ⟨h.symm, rfl⟩, fun h => (h.resolve_left fun h => by cases h).1.symm⟩
  · next hne =>
      refine (or_iff_left fun h => hne ?_).symm
      rw [h.2]
      exact Std.ReflCmp.compare_self

theorem childName_ok {child : Bytes} (h : childName relative path = .ok child) :
    child = relative ++ slash :: path.getLast?.getD [] := by
  unfold childName at h
  split at h
  · exact (Except.ok.inj h).symm
  · cases h

/-- The entries of a directory, each with what it leads to. -/
theorem collectEntries_adds {recurse : Path → Bytes → SourceFiles → WalkM SourceFiles}
    (hrecurse : ∀ path relative files files', tree.fs.get? path = some .dir →
      recurse path relative files = some (.ok files') →
        Adds (Leads tree.fs (path, relative)) files files')
    {entries : List Path}
    (h : collectEntries tree recurse relative entries files = some (.ok files')) :
    Adds (fun x => ∃ entry ∈ entries,
      Leads tree.fs (entry, relative ++ slash :: entry.getLast?.getD []) x) files files' := by
  induction entries generalizing files with
  | nil =>
      obtain rfl := Except.ok.inj (Option.some.inj h)
      exact (Adds.none files).congr fun x => by simp
  | cons path entries ih =>
      have hcons : ∀ {files₁ : SourceFiles},
          Adds (Leads tree.fs (path, relative ++ slash :: path.getLast?.getD [])) files files₁ →
          collectEntries tree recurse relative entries files₁ = some (.ok files') →
          Adds (fun x => ∃ entry ∈ path :: entries,
            Leads tree.fs (entry, relative ++ slash :: entry.getLast?.getD []) x) files files' :=
        fun hfirst hrest => (hfirst.trans (ih hrest)).congr fun x => by
          simp only [List.exists_mem_cons_iff]
      rw [collectEntries] at h
      split at h
      · cases h
      · cases h
      · next hdir =>
          obtain ⟨child, hchild, hrest⟩ := walk_bind_inv h
          obtain rfl := childName_ok (walk_lift_inv hchild)
          obtain ⟨files₁, hstep, hlast⟩ := walk_bind_inv hrest
          exact hcons (hrecurse _ _ _ _ hdir hstep) hlast
      · next bytes hfile =>
          obtain ⟨child, hchild, hrest⟩ := walk_bind_inv h
          obtain rfl := childName_ok (walk_lift_inv hchild)
          obtain ⟨files₁, hstep, hlast⟩ := walk_bind_inv hrest
          have hadds := insert_adds (walk_lift_inv hstep)
          exact hcons (hadds.congr fun x => (leads_file hfile).symm) hlast

theorem mem_sortedEntries {directory entry : Path} :
    entry ∈ sortedEntries tree directory ↔ entry ∈ tree.fs.readDir directory :=
  (List.perm_insertionSort _ _).mem_iff

/-- The induction is on the fuel: a directory hands its entries one unit less. -/
theorem collectDirectory_adds {fuel : Nat} (hdir : tree.fs.get? path = some .dir)
    (h : collectDirectory tree fuel path relative files = some (.ok files')) :
    Adds (Leads tree.fs (path, relative)) files files' := by
  induction fuel generalizing path relative files files' with
  | zero => cases h
  | succ fuel ih =>
      rw [collectDirectory] at h
      have hentries := collectEntries_adds (fun _ _ _ _ hdir h => ih hdir h) h
      exact hentries.congr fun x => by simp only [leads_dir hdir, mem_sortedEntries]

theorem symlinkMetadata_some {source : Bytes} {node : Node}
    (hnode : tree.symlinkMetadata source = some node)
    (hpath : tree.canonicalize source = some path) : tree.fs.get? path = some node := by
  rw [SourceTree.symlinkMetadata, hpath] at hnode
  exact hnode

theorem collectSources_adds {sources : List Bytes}
    (h : collectSources tree sources files = some (.ok files')) :
    Adds (Sourced tree sources) files files' := by
  induction sources generalizing files with
  | nil =>
      obtain rfl := Except.ok.inj (Option.some.inj h)
      exact (Adds.none files).congr fun x => by simp [Sourced]
  | cons source sources ih =>
      rw [collectSources] at h
      split at h
      · cases h
      · cases h
      · cases h
      · next bytes path hnode hpath =>
          split at h
          · cases h
          · next name hname =>
              obtain ⟨files₁, hstep, h⟩ := walk_bind_inv h
              have hfile := symlinkMetadata_some hnode hpath
              have hadds := (insert_adds (walk_lift_inv hstep)).congr fun x =>
                (leads_file hfile).symm
              exact (hadds.trans (ih h)).congr fun x => (sourced_cons ⟨hpath, hname⟩).symm
      · next path hnode hpath =>
          split at h
          · cases h
          · next name hname =>
              obtain ⟨files₁, hstep, h⟩ := walk_bind_inv h
              have hadds := collectDirectory_adds (symlinkMetadata_some hnode hpath) hstep
              exact (hadds.trans (ih h)).congr fun x => (sourced_cons ⟨hpath, hname⟩).symm

/-- The files the client knows are the files at or below the sources. -/
theorem collectSourceFiles_get {sources : List Bytes}
    (h : collectSourceFiles tree sources = some (.ok files)) (name : Bytes) (path : Path) :
    files[name]? = some path ↔ Sourced tree sources (path, name) := by
  rw [collectSources_adds h name path]
  exact or_iff_right fun h => by simp at h

/-! ## The walk of the builder -/

/-- What has been collected, and what the directories on the stack still lead to. -/
def Reaches (fs : Fs) (pending candidates : List Candidate) (x : Candidate) : Prop :=
  x ∈ candidates ∨ ∃ start ∈ pending, Leads fs start x

theorem reaches_push : Reaches fs (start :: pending) candidates x ↔
    Leads fs start x ∨ Reaches fs pending candidates x := by
  rw [Reaches, Reaches, List.exists_mem_cons_iff, or_left_comm]

theorem reaches_append {found : Candidate} : Reaches fs pending (candidates ++ [found]) x ↔
    x = found ∨ Reaches fs pending candidates x := by
  rw [Reaches, Reaches, List.mem_append, List.mem_singleton, or_assoc, or_left_comm]

/-- Directories with a name: what is on the stack. -/
def Stacked (fs : Fs) (pending : List Candidate) : Prop :=
  ∀ start ∈ pending, fs.get? start.1 = some .dir ∧ start.2 ≠ []

/-- What reading the directories on the stack will cost at most. -/
def weight (fs : Fs) (pending : List Candidate) : Nat :=
  (pending.map fun start => fs.inside start.1 + 1).sum

theorem relativeName_eq {name : Bytes} (h : relative ≠ []) :
    ManifestBuilder.relativeName relative name = relative ++ slash :: name := by
  cases relative with
  | nil => exact absurd rfl h
  | cons byte rest => rfl

theorem mem_sortByName {l : List Candidate} : x ∈ ManifestBuilder.sortByName l ↔ x ∈ l :=
  (List.perm_insertionSort _ _).mem_iff

/-- The children of a directory are its entries, each once. -/
theorem children_ok {children : List Candidate}
    (h : ManifestBuilder.children tree path = .ok children) :
    (children.map (·.1)).Perm (tree.fs.readDir path) ∧
      ∀ child ∈ children, child.2 = child.1.getLast?.getD [] := by
  unfold ManifestBuilder.children at h
  split at h
  · cases h
  · obtain rfl := Except.ok.inj h
    constructor
    · refine ((List.perm_insertionSort _ _).map _).trans ?_
      rw [List.map_map]
      exact .of_eq (List.map_id _)
    · intro child hchild
      obtain ⟨entry, -, rfl⟩ := List.mem_map.1 (mem_sortByName.1 hchild)
      rfl

/-- The children of one directory, each with what it leads to. Only a directory goes on
the stack. -/
theorem collectChildren_reaches (hname : relative ≠ []) {children : List Candidate}
    (h : ManifestBuilder.collectChildren config tree relative children pending candidates =
      .ok (pending', candidates')) :
    (∀ x, Reaches tree.fs pending' candidates' x ↔ Reaches tree.fs pending candidates x ∨
      ∃ child ∈ children, Leads tree.fs (child.1, relative ++ slash :: child.2) x) ∧
      (Stacked tree.fs pending → Stacked tree.fs pending') ∧
      weight tree.fs pending' ≤ weight tree.fs pending + weight tree.fs children := by
  induction children generalizing pending candidates with
  | nil =>
      obtain ⟨rfl, rfl⟩ := Prod.mk.inj (Except.ok.inj h)
      exact ⟨fun x => by simp, id, Nat.le_add_right _ _⟩
  | cons child children ih =>
      obtain ⟨path, name⟩ := child
      have hweight : weight tree.fs ((path, name) :: children) =
          tree.fs.inside path + 1 + weight tree.fs children := by
        simp only [weight, List.map_cons, List.sum_cons]
      simp only [ManifestBuilder.collectChildren, relativeName_eq hname] at h
      split at h
      · cases h
      · cases h
      · next hdir =>
          obtain ⟨hreaches, hstacked, hle⟩ := ih h
          refine ⟨fun x => ?_, fun hs => hstacked ?_, ?_⟩
          · rw [hreaches x, reaches_push, List.exists_mem_cons_iff, or_assoc, or_left_comm]
          · refine List.forall_mem_cons.2 ⟨⟨hdir, ?_⟩, hs⟩
            exact fun hnil => hname (List.append_eq_nil_iff.1 hnil).1
          · have hpush : weight tree.fs ((path, relative ++ slash :: name) :: pending) =
                tree.fs.inside path + 1 + weight tree.fs pending := by
              simp only [weight, List.map_cons, List.sum_cons]
            omega
      · next bytes hfile =>
          split at h
          · cases h
          · obtain ⟨hreaches, hstacked, hle⟩ := ih h
            refine ⟨fun x => ?_, hstacked, by omega⟩
            rw [hreaches x, reaches_append, List.exists_mem_cons_iff, leads_file hfile, or_assoc,
              or_left_comm]

/-- What one round of the outer loop does: the directory on top is read. -/
theorem round_reaches {children : List Candidate} (hdir : tree.fs.get? path = some .dir)
    (hname : relative ≠ []) (hstacked : Stacked tree.fs pending)
    (hchildren : ManifestBuilder.children tree path = .ok children)
    (h : ManifestBuilder.collectChildren config tree relative children.reverse pending candidates =
      .ok (pending', candidates')) :
    (∀ x, Reaches tree.fs pending' candidates' x ↔
      Reaches tree.fs ((path, relative) :: pending) candidates x) ∧
      Stacked tree.fs pending' ∧
      weight tree.fs pending' < weight tree.fs ((path, relative) :: pending) := by
  obtain ⟨hperm, hnames⟩ := children_ok hchildren
  obtain ⟨hreaches, hstacked', hle⟩ := collectChildren_reaches hname h
  have hleads : ∀ x, (∃ child ∈ children.reverse,
      Leads tree.fs (child.1, relative ++ slash :: child.2) x) ↔
      Leads tree.fs (path, relative) x := by
    intro x
    rw [leads_dir hdir]
    constructor
    · rintro ⟨child, hchild, hchild'⟩
      rw [List.mem_reverse] at hchild
      rw [hnames child hchild] at hchild'
      exact ⟨child.1, hperm.mem_iff.1 (List.mem_map_of_mem hchild), hchild'⟩
    · rintro ⟨entry, hentry, hentry'⟩
      obtain ⟨child, hchild, rfl⟩ := List.mem_map.1 (hperm.mem_iff.2 hentry)
      refine ⟨child, List.mem_reverse.2 hchild, ?_⟩
      rwa [hnames child hchild]
  refine ⟨fun x => ?_, hstacked' hstacked, ?_⟩
  · rw [hreaches x, hleads x, reaches_push, or_comm]
  · have hreversed : weight tree.fs children.reverse = weight tree.fs children := by
      rw [weight, weight, List.map_reverse, List.sum_reverse]
    have hinside := tree.fs.sum_inside (hperm.nodup_iff.2 (Fs.nodup_readDir _ _))
      fun entry hentry => hperm.mem_iff.1 hentry
    rw [List.map_map] at hinside
    have hsum : weight tree.fs children ≤ tree.fs.inside path := hinside
    have htop : weight tree.fs ((path, relative) :: pending) =
        tree.fs.inside path + 1 + weight tree.fs pending := by
      simp only [weight, List.map_cons, List.sum_cons]
    omega

/-- The loop ends before its fuel does, with what the stack leads to. -/
theorem collectPending_reaches {fuel : Nat} (hstacked : Stacked tree.fs pending) :
    (weight tree.fs pending ≤ fuel →
      ManifestBuilder.collectPending config tree fuel pending candidates ≠ none) ∧
      (ManifestBuilder.collectPending config tree fuel pending candidates =
        some (.ok candidates') → ∀ x, x ∈ candidates' ↔ Reaches tree.fs pending candidates x) := by
  induction fuel generalizing pending candidates with
  | zero =>
      cases pending with
      | nil =>
          refine ⟨fun _ h => (by cases h), fun h x => ?_⟩
          obtain rfl := Except.ok.inj (Option.some.inj h)
          simp [Reaches]
      | cons start pending =>
          refine ⟨fun hle => ?_, fun h => (by cases h)⟩
          simp only [weight, List.map_cons, List.sum_cons] at hle
          omega
  | succ fuel ih =>
      cases pending with
      | nil =>
          refine ⟨fun _ h => (by cases h), fun h x => ?_⟩
          obtain rfl := Except.ok.inj (Option.some.inj h)
          simp [Reaches]
      | cons start pending =>
          obtain ⟨path, relative⟩ := start
          obtain ⟨⟨hdir, hname⟩, hrest⟩ := List.forall_mem_cons.1 hstacked
          rw [ManifestBuilder.collectPending]
          constructor
          · intro hle
            refine walk_bind_ne_none (walk_lift_ne_none _) fun children hchildren => ?_
            refine walk_bind_ne_none (walk_lift_ne_none _) fun next hnext => ?_
            obtain ⟨-, hstacked', hlt⟩ := round_reaches hdir hname hrest
              (walk_lift_inv hchildren) (walk_lift_inv hnext)
            exact (ih hstacked').1 (Nat.le_of_lt_succ (Nat.lt_of_lt_of_le hlt hle))
          · intro h x
            obtain ⟨children, hchildren, hround⟩ := walk_bind_inv h
            obtain ⟨next, hnext, hloop⟩ := walk_bind_inv hround
            obtain ⟨hreaches, hstacked', -⟩ := round_reaches hdir hname hrest
              (walk_lift_inv hchildren) (walk_lift_inv hnext)
            rw [(ih hstacked').2 hloop x, hreaches x]

theorem collect_mem {sources : List Bytes}
    (h : ManifestBuilder.collect config tree sources candidates = some (.ok candidates')) :
    x ∈ candidates' ↔ x ∈ candidates ∨ Sourced tree sources x := by
  induction sources generalizing candidates with
  | nil =>
      obtain rfl := Except.ok.inj (Option.some.inj h)
      simp [Sourced]
  | cons source sources ih =>
      rw [ManifestBuilder.collect] at h
      split at h
      · cases h
      · cases h
      · cases h
      · next bytes path hnode hpath =>
          split at h
          · cases h
          · next name hname =>
              have hopens : Opens tree source (path, name) := ⟨hpath, hname⟩
              have hfile := symlinkMetadata_some hnode hpath
              rw [ih h, sourced_cons hopens, leads_file hfile, List.mem_append,
                List.mem_singleton, or_assoc]
      · next path hnode hpath =>
          split at h
          · cases h
          · next name hname =>
              obtain ⟨collected, hstep, hrest⟩ := walk_bind_inv h
              have hdir := symlinkMetadata_some hnode hpath
              have hstacked : Stacked tree.fs [(path, name)] := by
                intro start hstart
                obtain rfl := List.mem_singleton.1 hstart
                exact ⟨hdir, name_ne_nil hdir hname⟩
              have hreaches := (collectPending_reaches hstacked).2 hstep x
              have hopens : Opens tree source (path, name) := ⟨hpath, hname⟩
              rw [ih hrest, hreaches, sourced_cons hopens]
              simp [Reaches, or_assoc]

/-! ## Both walks end -/

theorem collectEntries_ne_none {recurse : Path → Bytes → SourceFiles → WalkM SourceFiles}
    {entries : List Path}
    (h : ∀ entry ∈ entries, ∀ relative files, recurse entry relative files ≠ none) :
    collectEntries tree recurse relative entries files ≠ none := by
  induction entries generalizing files with
  | nil => exact fun h => by cases h
  | cons path entries ih =>
      obtain ⟨hpath, hrest⟩ := List.forall_mem_cons.1 h
      rw [collectEntries]
      split
      · exact fun h => by cases h
      · exact fun h => by cases h
      · refine walk_bind_ne_none (walk_lift_ne_none _) fun child _ => ?_
        exact walk_bind_ne_none (hpath child files) fun _ _ => ih hrest
      · refine walk_bind_ne_none (walk_lift_ne_none _) fun child _ => ?_
        exact walk_bind_ne_none (walk_lift_ne_none _) fun _ _ => ih hrest

theorem collectDirectory_ne_none {fuel : Nat} (h : tree.fs.inside path < fuel) :
    collectDirectory tree fuel path relative files ≠ none := by
  induction fuel generalizing path relative files with
  | zero => exact absurd h (Nat.not_lt_zero _)
  | succ fuel ih =>
      refine collectEntries_ne_none fun entry hentry relative files => ih ?_
      have hlt := Fs.inside_lt_of_entry (mem_sortedEntries.1 hentry)
      omega

theorem collectSources_ne_none (sources : List Bytes) :
    collectSources tree sources files ≠ none := by
  induction sources generalizing files with
  | nil => exact fun h => by cases h
  | cons source sources ih =>
      rw [collectSources]
      split
      · exact fun h => by cases h
      · exact fun h => by cases h
      · exact fun h => by cases h
      · split
        · exact fun h => by cases h
        · exact walk_bind_ne_none (walk_lift_ne_none _) fun _ _ => ih
      · split
        · exact fun h => by cases h
        · refine walk_bind_ne_none (collectDirectory_ne_none ?_) fun _ _ => ih
          exact Nat.lt_succ_of_le (Fs.inside_le _ _)

theorem collect_ne_none (sources : List Bytes) :
    ManifestBuilder.collect config tree sources candidates ≠ none := by
  induction sources generalizing candidates with
  | nil => exact fun h => by cases h
  | cons source sources ih =>
      rw [ManifestBuilder.collect]
      split
      · exact fun h => by cases h
      · exact fun h => by cases h
      · exact fun h => by cases h
      · split
        · exact fun h => by cases h
        · exact ih
      · next path hnode hpath =>
          split
          · exact fun h => by cases h
          · next name hname =>
              have hdir := symlinkMetadata_some hnode hpath
              have hstacked : Stacked tree.fs [(path, name)] := by
                intro start hstart
                obtain rfl := List.mem_singleton.1 hstart
                exact ⟨hdir, name_ne_nil hdir hname⟩
              have hloop := (@collectPending_reaches tree config _ candidates []
                (tree.fs.nodes.size + 1) hstacked).1
              refine walk_bind_ne_none (hloop ?_) fun _ _ => ih
              have hle := tree.fs.inside_le path
              simp only [weight, List.map_cons, List.map_nil, List.sum_cons, List.sum_nil]
              omega

/-- The builder and the client answer for every tree and every list of sources. -/
theorem walks_end (random : Nat → Option FileId) (sources : List Bytes) :
    ManifestBuilder.build H config tree random sources ≠ none ∧
      collectSourceFiles tree sources ≠ none :=
  ⟨walk_bind_ne_none (collect_ne_none sources) fun _ _ => walk_lift_ne_none _,
    collectSources_ne_none sources⟩

/-! ## The manifest -/

/-- The entry was made of the file of the candidate, under its name. -/
def HashedFrom (H : Hashes) (config : ManifestBuildConfig) (tree : SourceTree)
    (candidate : Candidate) (entry : ManifestEntry) : Prop :=
  entry.relativePath = candidate.2 ∧ ∃ bytes, tree.fs.get? candidate.1 = some (.file bytes) ∧
    entry.size = bytes.length ∧
    entry.contentHash = ⟨config.hashAlgorithm, H.digest config.hashAlgorithm bytes⟩

theorem hashSource_ok {random : Option FileId} {bytes : Bytes} {entry : ManifestEntry}
    (h : ManifestBuilder.hashSource H config tree random path relative bytes = .ok entry) :
    entry.relativePath = relative ∧ entry.size = bytes.length ∧
      entry.contentHash = ⟨config.hashAlgorithm, H.digest config.hashAlgorithm bytes⟩ := by
  unfold ManifestBuilder.hashSource at h
  split at h
  · cases h
  · simp only [ne_eq, not_true, if_false, ManifestEntry.new] at h
    split at h
    · cases h
    · next made =>
        obtain rfl := Except.ok.inj h
        split at made
        · obtain rfl := Except.ok.inj made
          exact ⟨rfl, rfl, rfl⟩
        · cases made

theorem entryFor_ok {random : Nat → Option FileId} {candidate : Candidate} {seen : List Bytes}
    {count total total' : Nat} {entry : ManifestEntry}
    (h : ManifestBuilder.entryFor H config tree random candidate seen count total =
      .ok (entry, total')) : HashedFrom H config tree candidate entry := by
  unfold ManifestBuilder.entryFor at h
  simp only at h
  split at h
  · cases h
  split at h
  · cases h
  split at h
  · cases h
  split at h
  · cases h
  · cases h
  · cases h
  next bytes hfile =>
  split at h
  · cases h
  split at h
  · cases h
  split at h
  · cases h
  split at h
  · cases h
  next made =>
  obtain ⟨rfl, -⟩ := Prod.mk.inj (Except.ok.inj h)
  obtain ⟨hname, hsize, hhash⟩ := hashSource_ok made
  exact ⟨hname, bytes, hfile, hsize, hhash⟩

/-- The entries are made of the candidates, one of each and in their order. -/
theorem entriesFor_ok {random : Nat → Option FileId} {seen : List Bytes} {total : Nat}
    {entries entries' : List ManifestEntry}
    (h : ManifestBuilder.entriesFor H config tree random candidates seen entries total =
      .ok entries') :
    ∃ made, entries' = entries ++ made ∧
      List.Forall₂ (HashedFrom H config tree) candidates made := by
  induction candidates generalizing seen entries total with
  | nil =>
      obtain rfl := Except.ok.inj h
      exact ⟨[], (List.append_nil _).symm, .nil⟩
  | cons candidate candidates ih =>
      rw [ManifestBuilder.entriesFor] at h
      split at h
      · cases h
      · next entry total' hentry =>
          obtain ⟨made, rfl, hmade⟩ := ih h
          exact ⟨entry :: made, List.append_cons .. |>.symm, .cons (entryFor_ok hentry) hmade⟩

theorem build_ok {random : Nat → Option FileId} {sources : List Bytes} {manifest : Manifest}
    (h : ManifestBuilder.build H config tree random sources = some (.ok manifest)) :
    ∃ candidates, ManifestBuilder.collect config tree sources [] = some (.ok candidates) ∧
      List.Forall₂ (HashedFrom H config tree) (ManifestBuilder.sortByName candidates)
        manifest.entries := by
  obtain ⟨candidates, hcollect, hbuild⟩ := walk_bind_inv h
  have hfrom := walk_lift_inv hbuild
  refine ⟨candidates, hcollect, ?_⟩
  unfold ManifestBuilder.buildFromCandidates at hfrom
  split at hfrom
  · cases hfrom
  · next entries hentries =>
      obtain ⟨made, rfl, hmade⟩ := entriesFor_ok hentries
      split at hfrom
      · cases hfrom
      · next manifest' hnew =>
          obtain rfl := Except.ok.inj hfrom
          rwa [(Manifest.new_ok hnew).2]

/-- If both walks succeed, the client knows exactly the names in the manifest, and under
the name of an entry the very file the entry was made of. -/
theorem walks_agree {random : Nat → Option FileId} {sources : List Bytes} {manifest : Manifest}
    (hbuild : ManifestBuilder.build H config tree random sources = some (.ok manifest))
    (hfiles : collectSourceFiles tree sources = some (.ok files)) :
    (∀ name, name ∈ files ↔ ∃ entry ∈ manifest.entries, entry.relativePath = name) ∧
      ∃ candidates, ManifestBuilder.collect config tree sources [] = some (.ok candidates) ∧
        List.Forall₂ (fun candidate entry => HashedFrom H config tree candidate entry ∧
            files[entry.relativePath]? = some candidate.1)
          (ManifestBuilder.sortByName candidates) manifest.entries := by
  obtain ⟨candidates, hcollect, hmade⟩ := build_ok hbuild
  have hmem : ∀ path name, (path, name) ∈ ManifestBuilder.sortByName candidates ↔
      files[name]? = some path := by
    intro path name
    rw [mem_sortByName, collect_mem hcollect, collectSourceFiles_get hfiles]
    exact or_iff_right List.not_mem_nil
  have hsame : List.Forall₂ Eq ((ManifestBuilder.sortByName candidates).map (·.2))
      (manifest.entries.map (·.relativePath)) :=
    List.forall₂_map_left_iff.2 (List.forall₂_map_right_iff.2 (hmade.imp fun _ _ h => h.1.symm))
  rw [List.forall₂_eq_eq_eq] at hsame
  constructor
  · intro name
    rw [Std.TreeMap.mem_iff_isSome_getElem?, Option.isSome_iff_exists, ← List.mem_map, ← hsame,
      List.mem_map]
    constructor
    · rintro ⟨path, hpath⟩
      exact ⟨(path, name), (hmem path name).2 hpath, rfl⟩
    · rintro ⟨candidate, hcandidate, rfl⟩
      exact ⟨candidate.1, (hmem _ _).1 hcandidate⟩
  · refine ⟨candidates, hcollect, ?_⟩
    have hfound := (List.forall₂_and_left _ _).2 ⟨fun candidate h => (hmem _ _).1 h, hmade⟩
    refine hfound.imp fun candidate entry h => ⟨h.2, ?_⟩
    rw [h.2.1]
    exact h.1

end

/-! ## A tree of two files -/

section Sample

/-- One file in the directory that is sent, and one below it. -/
def sourceNodes : List (Path × Node) :=
  [([ascii "d", ascii "e", ascii "f"], .file [1, 2]), ([ascii "d", ascii "e"], .dir),
    ([ascii "d", ascii "g"], .file [3]), ([ascii "d"], .dir)]

def sourceFs : Fs := (Fs.ofList sourceNodes).getD .empty

theorem sourceFs_eq : Fs.ofList sourceNodes = some sourceFs := by
  have hsome : (Fs.ofList sourceNodes).isSome = true := by decide +kernel
  obtain ⟨fs, hfs⟩ := Option.isSome_iff_exists.1 hsome
  rw [sourceFs, hfs]
  rfl

/-- The process works in the root. -/
def sourceTree : SourceTree where
  fs := sourceFs
  workingDirectory := []
  modified _ := none
  mode _ := some 420
  working := Fs.get?_nil _
  named := by
    intro p n hp name hname
    rcases Fs.mem_of_get?_ofList sourceFs_eq hp with rfl | hmem
    · cases hname
    · have hall : ∀ x ∈ sourceNodes, ∀ name ∈ x.1, name ≠ [] := by decide
      exact hall _ hmem name hname

def sourceHashes : Hashes := ⟨fun _ _ => .replicate 32 0⟩

/-- A walk that succeeded. -/
def answered {ε α : Type} (x : ExceptT ε Option α) : Bool :=
  match x with
  | some (.ok _) => true
  | _ => false

theorem answered_iff {ε α : Type} {x : ExceptT ε Option α} (h : answered x = true) :
    ∃ a, x = some (.ok a) := by
  unfold answered at h
  split at h
  · exact ⟨_, rfl⟩
  · cases h

/-- Both walks of the directory `d` succeed, and both know the file `d/e/f`. -/
theorem walks_agree_sample : ∃ manifest files,
    ManifestBuilder.build sourceHashes defaultBuildConfig sourceTree
      (fun count => some (.replicate 16 count.toUInt8)) [ascii "./d"] = some (.ok manifest) ∧
    collectSourceFiles sourceTree [ascii "./d"] = some (.ok files) ∧
    files[ascii "d/e/f"]? = some [ascii "d", ascii "e", ascii "f"] ∧
    ∃ entry ∈ manifest.entries, entry.relativePath = ascii "d/e/f" := by
  obtain ⟨manifest, hbuild⟩ := answered_iff
    (x := ManifestBuilder.build sourceHashes defaultBuildConfig sourceTree
      (fun count => some (.replicate 16 count.toUInt8)) [ascii "./d"]) (by decide +kernel)
  obtain ⟨files, hfiles⟩ := answered_iff
    (x := collectSourceFiles sourceTree [ascii "./d"]) (by decide +kernel)
  have hfound : files[ascii "d/e/f"]? = some [ascii "d", ascii "e", ascii "f"] := by
    refine (collectSourceFiles_get hfiles _ _).2 ⟨_, List.mem_singleton.2 rfl,
      ([ascii "d"], ascii "d"), ⟨by decide +kernel, by decide +kernel⟩, ?_⟩
    exact ⟨[ascii "e", ascii "f"], [1, 2], rfl, by decide, by decide +kernel⟩
  refine ⟨manifest, files, hbuild, hfiles, hfound, ?_⟩
  refine ((walks_agree hbuild hfiles).1 _).1 ?_
  rw [Std.TreeMap.mem_iff_isSome_getElem?, hfound]
  rfl

end Sample

end DartUdp.Client
