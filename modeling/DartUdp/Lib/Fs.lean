import DartUdp.Lib.Bytes

/-!
# A directory tree

The part of a file system below one directory. A path is the list of its
names from that directory down, and every node stands in a directory, which
is a field of the structure. A symbolic link is a node whose target is not
looked at: nothing here follows it.

`put?`, `erase?`, `removeTree?`, `rename?` and `link?` are the writes; they refuse
what a file system refuses. Everything a program does to files is built from them.
-/

namespace DartUdp.Lib

open Std

abbrev Path := List Bytes

inductive Node where
  | file (bytes : Bytes)
  | dir
  | symlink
deriving DecidableEq, Repr

/-- What stands at a path; the root is always a directory. -/
def lookup (nodes : TreeMap Path Node) (p : Path) : Option Node :=
  if p = [] then some .dir else nodes[p]?

theorem lookup_insert {nodes : TreeMap Path Node} {p : Path} (hp : p ≠ []) (n : Node) (q : Path) :
    lookup (nodes.insert p n) q = if q = p then some n else lookup nodes q := by
  simp only [lookup, TreeMap.getElem?_insert, Std.compare_eq_iff_eq]
  by_cases hq : q = p
  · subst hq
    simp [hp]
  · rw [if_neg hq, if_neg (Ne.symm hq)]

theorem lookup_erase {nodes : TreeMap Path Node} {p : Path} (hp : p ≠ []) (q : Path) :
    lookup (nodes.erase p) q = if q = p then none else lookup nodes q := by
  simp only [lookup, TreeMap.getElem?_erase, Std.compare_eq_iff_eq]
  by_cases hq : q = p
  · subst hq
    simp [hp]
  · rw [if_neg hq, if_neg (Ne.symm hq)]

theorem lookup_filter {nodes : TreeMap Path Node} {p : Path} (hp : p ≠ []) (q : Path) :
    lookup (nodes.filter fun q _ => !p.isPrefixOf q) q =
      if p <+: q then none else lookup nodes q := by
  simp only [lookup, TreeMap.getElem?_filter']
  by_cases hq : q = []
  · subst hq
    rw [if_pos rfl, if_neg (by simpa using hp), if_pos rfl]
  · rw [if_neg hq, if_neg hq]
    by_cases hpre : p <+: q
    · rw [if_pos hpre, List.isPrefixOf_iff_prefix.2 hpre]
      simp
    · have hfalse : p.isPrefixOf q = false := by
        rw [← Bool.not_eq_true, List.isPrefixOf_iff_prefix]
        exact hpre
      rw [if_neg hpre, hfalse]
      cases nodes[q]? <;> rfl

structure Fs where
  nodes : TreeMap Path Node
  rooted : ∀ dir name n, lookup nodes (dir ++ [name]) = some n →
    lookup nodes dir = some .dir

namespace Fs

/-- `symlink_metadata`, with the content of a file. -/
def get? (fs : Fs) (p : Path) : Option Node := lookup fs.nodes p

def empty : Fs where
  nodes := ∅
  rooted := fun dir name n h => by simp [lookup] at h

/-- The paths of the entries of a directory. -/
def readDir (fs : Fs) (dir : Path) : List Path :=
  fs.nodes.keys.filter fun p => p ≠ [] && p.dropLast == dir

theorem get?_nil (fs : Fs) : fs.get? [] = some .dir := by simp [get?, lookup]

theorem parent_dir {fs : Fs} {dir : Path} {name : Bytes} {n : Node}
    (h : fs.get? (dir ++ [name]) = some n) : fs.get? dir = some .dir :=
  fs.rooted dir name n h

/-- A write at `p` may put a node there if `p` is in a directory and a
directory is not overwritten. -/
def CanPut (fs : Fs) (p : Path) (n : Node) : Prop :=
  p ≠ [] ∧ fs.get? p.dropLast = some .dir ∧ (fs.get? p = some .dir → n = .dir)

instance (fs : Fs) (p : Path) (n : Node) : Decidable (fs.CanPut p n) :=
  inferInstanceAs (Decidable (_ ∧ _ ∧ _))

theorem CanPut.rooted {fs : Fs} {p : Path} {n : Node} (h : fs.CanPut p n) (dir : Path)
    (name : Bytes) (n' : Node)
    (hn : lookup (fs.nodes.insert p n) (dir ++ [name]) = some n') :
    lookup (fs.nodes.insert p n) dir = some .dir := by
  obtain ⟨hp, hparent, hdir⟩ := h
  rw [lookup_insert hp] at hn ⊢
  by_cases hpd : dir = p
  · subst hpd
    rw [if_neg (by simp)] at hn
    rw [if_pos rfl, hdir (fs.rooted _ _ _ hn)]
  · rw [if_neg hpd]
    by_cases hpn : dir ++ [name] = p
    · subst hpn
      simpa [get?] using hparent
    · rw [if_neg hpn] at hn
      exact fs.rooted _ _ _ hn

/-- Put a node at a path in a directory. -/
def put? (fs : Fs) (p : Path) (n : Node) : Option Fs :=
  if h : fs.CanPut p n then some ⟨fs.nodes.insert p n, h.rooted⟩ else none

theorem ne_nil_of_not_dir {fs : Fs} {p : Path} (h : fs.get? p ≠ some .dir) : p ≠ [] := by
  rintro rfl
  exact h fs.get?_nil

theorem rooted_erase {fs : Fs} {p : Path} (h : fs.get? p ≠ some .dir) (dir : Path)
    (name : Bytes) (n : Node) (hn : lookup (fs.nodes.erase p) (dir ++ [name]) = some n) :
    lookup (fs.nodes.erase p) dir = some .dir := by
  rw [lookup_erase (ne_nil_of_not_dir h)] at hn ⊢
  split at hn
  · cases hn
  · have hdir := fs.rooted _ _ _ hn
    rw [if_neg]
    · exact hdir
    · rintro rfl
      exact h hdir

/-- Remove a file or a link. -/
def erase? (fs : Fs) (p : Path) : Option Fs :=
  if h : fs.get? p ≠ some .dir then some ⟨fs.nodes.erase p, rooted_erase h⟩ else none

theorem rooted_filter {fs : Fs} {p : Path} (hp : p ≠ []) (dir : Path) (name : Bytes) (n : Node)
    (hn : lookup (fs.nodes.filter fun q _ => !p.isPrefixOf q) (dir ++ [name]) = some n) :
    lookup (fs.nodes.filter fun q _ => !p.isPrefixOf q) dir = some .dir := by
  rw [lookup_filter hp] at hn ⊢
  split at hn
  · cases hn
  · next hpre =>
      rw [if_neg fun hdir => hpre (hdir.trans (List.prefix_append _ _))]
      exact fs.rooted _ _ _ hn

/-- Remove a directory with all that is in it. -/
def removeTree? (fs : Fs) (p : Path) : Option Fs :=
  if h : p ≠ [] then
    some ⟨fs.nodes.filter fun q _ => !p.isPrefixOf q, rooted_filter h⟩
  else none

theorem put?_eq_some {fs fs' : Fs} {p : Path} {n : Node} (h : fs.put? p n = some fs') :
    fs.CanPut p n ∧ ∀ q, fs'.get? q = if q = p then some n else fs.get? q := by
  unfold put? at h
  split at h
  · next hc =>
      obtain rfl := Option.some.inj h
      exact ⟨hc, fun q => lookup_insert hc.1 n q⟩
  · cases h

theorem erase?_eq_some {fs fs' : Fs} {p : Path} (h : fs.erase? p = some fs') :
    ∀ q, fs'.get? q = if q = p then none else fs.get? q := by
  unfold erase? at h
  split at h
  · next hc =>
      obtain rfl := Option.some.inj h
      exact fun q => lookup_erase (ne_nil_of_not_dir hc) q
  · cases h

theorem removeTree?_eq_some {fs fs' : Fs} {p : Path} (h : fs.removeTree? p = some fs') :
    ∀ q, fs'.get? q = if p <+: q then none else fs.get? q := by
  unfold removeTree? at h
  split at h
  · next hp =>
      obtain rfl := Option.some.inj h
      exact fun q => lookup_filter hp q
  · cases h

/-- Move a file or a link, over another one if need be. -/
def rename? (fs : Fs) (p q : Path) : Option Fs :=
  match fs.get? p with
  | none => none
  | some n => (fs.erase? p).bind (·.put? q n)

theorem rename?_eq_some {fs fs' : Fs} {p q : Path} (h : fs.rename? p q = some fs') :
    fs.get? q ≠ some .dir ∧ ∃ n, fs.get? p = some n ∧
      ∀ x, fs'.get? x = if x = q then some n else if x = p then none else fs.get? x := by
  unfold rename? at h
  split at h
  · cases h
  · next n hp =>
      obtain ⟨fs₁, herase, hput⟩ := Option.bind_eq_some_iff.1 h
      have hdir : fs.get? p ≠ some .dir := by
        intro hd
        simp [erase?, hd] at herase
      obtain ⟨⟨_, _, hq⟩, hget⟩ := put?_eq_some hput
      refine ⟨fun hd => ?_, n, hp, fun x => ?_⟩
      · rw [erase?_eq_some herase] at hq
        by_cases hqp : q = p
        · exact hdir (hqp ▸ hd)
        · rw [if_neg hqp] at hq
          exact hdir (hp.trans (congrArg some (hq hd)))
      · rw [hget, erase?_eq_some herase]

/-- Give a file a second name. -/
def link? (fs : Fs) (p q : Path) : Option Fs :=
  match fs.get? p, fs.get? q with
  | some (.file bytes), none => fs.put? q (.file bytes)
  | _, _ => none

theorem link?_eq_some {fs fs' : Fs} {p q : Path} (h : fs.link? p q = some fs') :
    fs.get? q = none ∧ ∃ bytes, fs.get? p = some (.file bytes) ∧
      ∀ x, fs'.get? x = if x = q then some (.file bytes) else fs.get? x := by
  unfold link? at h
  split at h
  · next bytes hp hq => exact ⟨hq, bytes, hp, (put?_eq_some h).2⟩
  · cases h

theorem erase?_isSome {fs : Fs} {p : Path} (h : fs.get? p ≠ some .dir) :
    ∃ fs', fs.erase? p = some fs' := by
  unfold erase?
  rw [dif_pos h]
  exact ⟨_, rfl⟩

theorem put?_isSome {fs : Fs} {p : Path} {n : Node} (h : fs.CanPut p n) :
    ∃ fs', fs.put? p n = some fs' := by
  unfold put?
  rw [dif_pos h]
  exact ⟨_, rfl⟩

theorem rename?_isSome {fs : Fs} {p q : Path} {bytes : Bytes}
    (hp : fs.get? p = some (.file bytes)) (hne : q ≠ [])
    (hparent : fs.get? q.dropLast = some .dir) (hq : fs.get? q ≠ some .dir) :
    ∃ fs', fs.rename? p q = some fs' := by
  have hdir : fs.get? p ≠ some .dir := by simp [hp]
  obtain ⟨fs₁, herase⟩ := erase?_isSome hdir
  have hget := erase?_eq_some herase
  have hcan : fs₁.CanPut q (.file bytes) := by
    refine ⟨hne, ?_, fun hd => ?_⟩
    · rw [hget, if_neg, hparent]
      intro hx
      exact hdir (hx ▸ hparent)
    · rw [hget] at hd
      split at hd
      · cases hd
      · exact absurd hd hq
  obtain ⟨fs', hput⟩ := put?_isSome hcan
  exact ⟨fs', by simp only [rename?, hp, herase, Option.bind_some, hput]⟩

/-- A tree put together from its nodes, the directories last. -/
def ofList : List (Path × Node) → Option Fs
  | [] => some empty
  | (p, n) :: rest => (ofList rest).bind (·.put? p n)

/-- Such a tree holds nothing else. -/
theorem mem_of_get?_ofList {l : List (Path × Node)} {fs : Fs} {p : Path} {n : Node}
    (h : ofList l = some fs) (hp : fs.get? p = some n) : p = [] ∨ (p, n) ∈ l := by
  induction l generalizing fs with
  | nil =>
      obtain rfl := Option.some.inj h
      by_cases hnil : p = []
      · exact .inl hnil
      · simp [get?, lookup, empty, hnil] at hp
  | cons pn rest ih =>
      obtain ⟨fs', hrest, hput⟩ := Option.bind_eq_some_iff.1 h
      rw [(put?_eq_some hput).2] at hp
      split at hp
      · next heq =>
          obtain rfl := Option.some.inj hp
          exact .inr (by simp [heq])
      · rcases ih hrest hp with hx | hx
        · exact .inl hx
        · exact .inr (by simp [hx])

theorem mem_readDir {fs : Fs} {dir p : Path} :
    p ∈ fs.readDir dir ↔ p ≠ [] ∧ p.dropLast = dir ∧ (fs.get? p).isSome := by
  simp only [readDir, List.mem_filter, TreeMap.mem_keys, Bool.and_eq_true, decide_eq_true_eq,
    beq_iff_eq, ← TreeMap.isSome_getElem?_iff_mem, get?, lookup]
  constructor
  · rintro ⟨h1, h2, h3⟩
    exact ⟨h2, h3, by simpa [h2] using h1⟩
  · rintro ⟨h1, h2, h3⟩
    exact ⟨by simpa [h1] using h3, h1, h2⟩

theorem nodup_readDir (fs : Fs) (dir : Path) : (fs.readDir dir).Nodup :=
  TreeMap.nodup_keys.filter _

end Fs

end DartUdp.Lib
