import Sbfs.Paths
import Sbfs.Lib.NamedTree

/-! # Directories as a map

The abstract view of the directories: a map from directory and name to inode, on which
the methods of `Inode` act as the obvious map operations (`Namespace.service`).  The
service is as free as the callers can bear: `create` takes any inode that no entry names,
an operation that needs space may fail and change nothing, and nothing is said about
creating a name that exists. -/

namespace Sbfs

open NamedTree

structure Namespace where
  root : Position
  find : Position → Name → Option Position

namespace Namespace

/-- The namespace with entry `name` of `dir` replaced. -/
def set (ns : Namespace) (dir : Position) (name : Name) (inode : Option Position) : Namespace :=
  { ns with find := setEdge ns.find dir name inode }

/-- The namespace after `create` has taken `inode`, as a new directory or file. -/
def create (ns : Namespace) (dir : Position) (name : Name) (inode : Position) : Namespace :=
  { ns with find := setEdge (clearNode ns.find inode) dir name (some inode) }

/-- The methods of `Inode` on the map. -/
def service : Service InodeReq InodeReq.Ans Namespace
  | .find dir name, ns, r, ns' => r = ns.find dir name ∧ ns' = ns
  | .create dir name _ _, ns, r, ns' => ns.find dir name = none →
      (∃ inode, Loose ns.root ns.find inode ∧ r = (.kSuccess, some inode) ∧
        ns' = ns.create dir name inode) ∨ (r.1 = .kFail ∧ ns' = ns)
  | .remove dir name, ns, r, ns' =>
      r = (if (ns.find dir name).isSome then .kSuccess else .kFail) ∧ ns' = ns.set dir name none
  | .link dir name inode replace, ns, r, ns' =>
      (r = .kSuccess ∧ (ns.find dir name = none ∨ replace = true) ∧
        ns' = ns.set dir name (some inode)) ∨ (r = .kFail ∧ ns' = ns)
  | .unlink dir name, ns, r, ns' =>
      r = (if (ns.find dir name).isSome then .kSuccess else .kFail, ns.find dir name) ∧
        ns' = ns.set dir name none
  | _, ns, _, ns' => ns' = ns

@[simp] theorem set_root (ns : Namespace) (dir : Position) (name : Name) (inode : Option Position) :
    (ns.set dir name inode).root = ns.root := rfl

/-- The inode of a path, given by its parts. -/
def lookup (ns : Namespace) (cs : List Name) : Option Position := walk ns.find ns.root cs

/-- Every inode has one name at most, and the root has none. -/
def Tree (ns : Namespace) : Prop := IsTree ns.root ns.find

section

variable {ns ns' : Namespace} {dir : Position} {name : Name} {cs : List Name} {inode : Position}

theorem lookup_concat (cs : List Name) (c : Name) :
    ns.lookup (cs ++ [c]) = (ns.lookup cs).bind fun dir => ns.find dir c :=
  walk_concat

theorem Tree.set_none (tree : ns.Tree) (dir : Position) (name : Name) : (ns.set dir name none).Tree :=
  IsTree.erase tree dir name

theorem Tree.create (tree : ns.Tree) (loose : Loose ns.root ns.find inode) (dir : Position)
    (name : Name) : (ns.create dir name inode).Tree :=
  (IsTree.clear tree inode).insert (loose.of_sub fun _ _ _ edge => clearNode_some edge) dir name

/-- A new inode changes no path that was there. -/
theorem lookup_create (absent : ns.find dir name = none) (loose : Loose ns.root ns.find inode)
    {x : Position} (found : ns.lookup cs = some x) : (ns.create dir name inode).lookup cs = some x := by
  have kept : (ns.create dir name inode).lookup cs = ns.lookup cs := by
    refine walk_frame fun p l m pre (reached : walk ns.find ns.root p = some m) => ?_
    -- the walk goes on from `m`, so `m` has this entry
    obtain ⟨rest, rfl⟩ := pre
    have entered : ∃ y, ns.find m l = some y := by
      have whole : walk ns.find ns.root (p ++ [l] ++ rest) = some x := found
      rw [walk_append, walk_concat, reached] at whole
      obtain ⟨y, edge, -⟩ := Option.bind_eq_some_iff.mp whole
      exact ⟨y, edge⟩
    obtain ⟨y, edge⟩ := entered
    have apart : ¬ (m = dir ∧ l = name) := by
      rintro ⟨rfl, rfl⟩
      rw [absent] at edge
      cases edge
    have old : m ≠ inode := by
      rintro rfl
      cases p using List.reverseRecOn with
      | nil => exact loose.1 (Option.some.inj reached).symm
      | append_singleton p k =>
        rw [walk_concat] at reached
        obtain ⟨n, -, into⟩ := Option.bind_eq_some_iff.mp reached
        exact loose.2 n k into
    change setEdge (clearNode ns.find inode) dir name (some inode) m l = ns.find m l
    rw [setEdge_ne _ apart, clearNode_ne old]
  rw [kept, found]

/-- A path that runs through no changed entry leads to the same inode. -/
theorem Tree.lookup_frame (tree : ns.Tree) (root : ns'.root = ns.root)
    (changes : ∀ m l, ns'.find m l ≠ ns.find m l → ∃ ds, ns.lookup ds = some m ∧ ¬ ds ++ [l] <+: cs) :
    ns'.lookup cs = ns.lookup cs := by
  rw [lookup, lookup, root]
  refine walk_frame fun p l m pre reached => ?_
  by_contra changed
  obtain ⟨ds, here, off⟩ := changes m l changed
  exact tree.off_path here off pre reached ⟨rfl, rfl⟩

end

end Namespace

end Sbfs
