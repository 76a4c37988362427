import Sbfs.LinkCounts
import Sbfs.PathCoherence

/-! # The tree of files

The abstract view of the whole file system: the map of the directories (`Namespace`) together with
the type and the link count of each inode and what `.` and `..` stand for.  `FileTree.service` says
what the methods of `Inode` do to it as long as there is enough space, and `Fits` what they rely on.

A request that fits keeps the tree `Sound` (`Sound.serve`) and looks to the layer above like a request
to a `Namespace` (`Sound.toNamespace`). -/

namespace Sbfs

open NamedTree

/-- The entries that `create` writes into a new directory. -/
def dotsOf (inode dir : Position) : Name → Option Position := fun name =>
  if name = [46] then some inode else if name = [46, 46] then some dir else none

structure FileTree extends Namespace where
  /-- `none` for an inode that is not allocated. -/
  kind : Position → Option DiskInodeType
  links : Position → Nat
  dots : Position → Name → Option Position
  /-- The bytes of a file. -/
  content : Position → List UInt8

/-- `size` bytes of `buf` have been written at `offset`; where the file did not reach before, its bytes may be
any. -/
structure Patched (bytes : List UInt8) (offset size : Nat) (buf : Mem) (bytes' : List UInt8) : Prop where
  length : bytes'.length = max bytes.length (offset + size)
  inside : ∀ i, i < size → bytes'[offset + i]? = some (buf i)
  outside : ∀ i, i < bytes.length → i < offset ∨ offset + size ≤ i → bytes'[i]? = bytes[i]?

/-- The bytes after a `resize`, which does not say what the new ones are. -/
structure Cut (bytes : List UInt8) (newSize : Nat) (bytes' : List UInt8) : Prop where
  length : bytes'.length = newSize
  kept : ∀ i, i < bytes.length → i < newSize → bytes'[i]? = bytes[i]?

/-- What `read_data` returns, for a range that starts inside the file. -/
def ReadsAs (bytes : List UInt8) (offset : Nat) (buf : Mem) (size : Nat) (r : Int × Mem) : Prop :=
  0 < size → offset < bytes.length → offset + size < 2147483648 →
    r.1 = (min size (bytes.length - offset) : Nat) ∧
      ∀ i, r.2 i = if i < min size (bytes.length - offset) then bytes[offset + i]?.getD 0 else buf i

/-- What `write_data` returns and leaves; a range that ends past 2^31 may leave anything. -/
def WritesAs (bytes : List UInt8) (offset : Nat) (buf : Mem) (size : Nat) (ret : Int) (bytes' : List UInt8) : Prop :=
  offset + size < 2147483648 → ret = size ∧ Patched bytes offset size buf bytes'

namespace FileTree

variable (t : FileTree)

theorem eq_of {t u : FileTree} (root : t.root = u.root) (find : ∀ dir name, t.find dir name = u.find dir name)
    (kind : t.kind = u.kind) (links : t.links = u.links) (dots : ∀ dir name, t.dots dir name = u.dots dir name)
    (content : t.content = u.content) : t = u := by
  obtain ⟨⟨_, _⟩, _, _, _, _⟩ := t
  obtain ⟨⟨_, _⟩, _, _, _, _⟩ := u
  have sameFind := funext fun dir => funext (find dir)
  have sameDots := funext fun dir => funext (dots dir)
  simp only at root kind links sameFind sameDots content
  rw [root, sameFind, kind, links, sameDots, content]

/-- The tree with entry `name` of `dir` replaced. -/
def setEntry (dir : Position) (name : Name) (inode : Option Position) : FileTree :=
  { t with toNamespace := t.toNamespace.set dir name inode }

/-- The tree with the link count of `inode` changed. -/
def recount (inode : Position) (f : Nat → Nat) : FileTree :=
  { t with links := Function.update t.links inode (f (t.links inode)) }

/-- The tree after `create` has taken `inode`. -/
def create (dir : Position) (name : Name) (type : DiskInodeType) (inode : Position) : FileTree where
  toNamespace := t.toNamespace.create dir name inode
  kind := Function.update t.kind inode (some type)
  links := Function.update t.links inode 1
  dots := Function.update t.dots inode (if type = kDirectory then dotsOf inode dir else fun _ => none)
  content := Function.update t.content inode []

theorem create_kind (dir : Position) (name : Name) (type : DiskInodeType) (inode x : Position) :
    (t.create dir name type inode).kind x = if x = inode then some type else t.kind x :=
  Function.update_apply t.kind inode (some type) x

theorem create_find (dir : Position) (name : Name) (type : DiskInodeType) (inode : Position) :
    (t.create dir name type inode).find dir name = some inode :=
  setEdge_same (e := clearNode t.find inode) (some inode)

theorem create_find_some {t : FileTree} {type : DiskInodeType} {inode m z : Position} {dir : Position} {name l : Name}
    (edge : (t.create dir name type inode).find m l = some z) : m = dir ∧ l = name ∧ z = inode ∨ t.find m l = some z := by
  obtain ⟨is, same, new⟩ | ⟨-, old⟩ := setEdge_some (e := clearNode t.find inode) edge
  · exact .inl ⟨is, same, (Option.some.inj new).symm⟩
  · exact .inr (clearNode_some old)

theorem create_content (dir : Position) (name : Name) (type : DiskInodeType) (inode x : Position) :
    (t.create dir name type inode).content x = if x = inode then [] else t.content x :=
  Function.update_apply t.content inode [] x

/-- The tree with other bytes in a file. -/
def setContent (inode : Position) (bytes : List UInt8) : FileTree :=
  { t with content := Function.update t.content inode bytes }

@[simp] theorem setContent_self (inode : Position) (bytes : List UInt8) :
    (t.setContent inode bytes).content inode = bytes := by
  simp [setContent]

theorem setContent_ne {inode x : Position} (ne : x ≠ inode) (bytes : List UInt8) :
    (t.setContent inode bytes).content x = t.content x := by
  simp [setContent, ne]

/-- The tree after `unlink` of a name of `inode`. -/
def detach (dir : Position) (name : Name) (inode : Position) : FileTree :=
  (t.setEntry dir name none).recount inode (· - 1)

/-- The tree after an inode without entries has been freed. -/
def free (inode : Position) : FileTree :=
  { t with
    kind := Function.update t.kind inode none
    links := Function.update t.links inode 0
    dots := Function.update t.dots inode fun _ => none
    content := Function.update t.content inode [] }

/-- The number of entries of a directory. -/
noncomputable def size (dir : Position) : ℕ∞ :=
  {name | t.find dir name ≠ none}.encard + {name | t.dots dir name ≠ none}.encard

/-- `link` searches a directory of 23 blocks or more beyond its end, and fails. -/
def Large (dir : Position) : Prop := 352 < t.size dir

/-- What the look into an inode gives that `sb_rmdir` takes: `-ENOTDIR`, `-ENOTEMPTY`, or 0.  A directory without
`.` and `..` may pass for one with entries. -/
inductive LooksEmpty (dir : Position) : Int → Prop
  | notDirectory (other : t.kind dir ≠ some kDirectory) : LooksEmpty dir (-20)
  | notEmpty (isDir : t.kind dir = some kDirectory)
      (names : (∃ name, t.find dir name ≠ none) ∨ ∀ name, t.dots dir name = none) : LooksEmpty dir (-39)
  | empty (isDir : t.kind dir = some kDirectory) (none : ∀ name, t.find dir name = none) : LooksEmpty dir 0

/-- The methods of `Inode` on the tree, when there is enough space. -/
def service : Service InodeReq InodeReq.Ans FileTree
  | .find dir name, t, r, t' => r = t.find dir name ∧ t' = t
  | .create dir name type _, t, r, t' =>
      ∃ inode, t.kind inode = none ∧ r = (.kSuccess, some inode) ∧ t' = t.create dir name type inode
  | .remove dir name, t, r, t' =>
      match t.find dir name with
      | none => r = .kFail ∧ t' = t
      | some inode => r = .kSuccess ∧ t' = (t.setEntry dir name none).free inode
  | .link dir name inode replace, t, r, t' =>
      (r = .kSuccess ∧ (t.find dir name = none ∨ replace = true) ∧
        t' = (t.setEntry dir name (some inode)).recount inode (· + 1)) ∨
      (r = .kFail ∧ (replace = false ∧ t.find dir name ≠ none ∨ t.Large dir) ∧ t' = t)
  | .unlink dir name, t, r, t' =>
      match t.find dir name with
      | none => r = (.kFail, none) ∧ t' = t
      | some inode => r = (.kSuccess, some inode) ∧ t' = t.detach dir name inode
  | .checkEmpty dir, t, r, t' => t.LooksEmpty dir r ∧ t' = t
  | .readData inode offset buf size, t, r, t' => ReadsAs (t.content inode) offset buf size r ∧ t' = t
  | .writeData inode offset buf size, t, r, t' =>
      ∃ bytes, WritesAs (t.content inode) offset buf size r bytes ∧ t' = t.setContent inode bytes
  | .resize inode newSize, t, r, t' =>
      ∃ bytes, r = .kSuccess ∧ Cut (t.content inode) newSize bytes ∧ t' = t.setContent inode bytes
  | _, t, _, t' => t' = t

/-- Entries lead from directories to allocated inodes, and no inode has two names. -/
structure Sound : Prop where
  tree : t.toNamespace.Tree
  root : t.kind t.root = some kDirectory
  source : ∀ {dir name inode}, t.find dir name = some inode → t.kind dir = some kDirectory
  target : ∀ {dir name inode}, t.find dir name = some inode → t.kind inode ≠ none
  links : ∀ {dir name inode}, t.find dir name = some inode → t.links inode = 1

/-- The positions of allocated inodes are valid. -/
def Solid : Prop := ∀ x, t.kind x ≠ none → x.isValid = true

/-- What a request relies on: `create` is not for a name that exists, `remove` takes no directory with
entries, and `link` takes an inode that `unlink` has just left without a name. -/
def Fits : InodeReq → Prop
  | .find dir name => t.kind dir ≠ none ∧ IsPart name
  | .create dir name _ _ => t.kind dir = some kDirectory ∧ IsPart name ∧ t.find dir name = none
  | .remove dir name => t.kind dir = some kDirectory ∧ IsPart name ∧
      ∀ inode, t.find dir name = some inode → inode ≠ dir ∧ ∀ name, t.find inode name = none
  | .link dir name inode _ => t.kind dir = some kDirectory ∧ IsPart name ∧ t.kind inode ≠ none ∧ inode ≠ dir ∧
      Loose t.root t.find inode ∧ t.links inode = 0
  | .unlink dir name => t.kind dir = some kDirectory ∧ IsPart name
  | .checkEmpty dir => t.kind dir ≠ none
  | .readData inode _ _ _ => t.kind inode = some kFile
  | .writeData inode offset _ size => t.kind inode = some kFile ∧ offset < 4294967296 ∧ size < 2147483648
  | .resize inode newSize => t.kind inode = some kFile ∧ newSize < 4294967296
  | .sync inode _ => t.kind inode = some kFile
  | .undefined => True

end FileTree

/-- The requests that the callbacks may make. -/
def InodeReq.Allowed (q : InodeReq) (t : FileTree) : Prop := t.Sound ∧ t.Fits q

namespace FileTree.Sound

variable {t t' : FileTree} {dir inode x : Position} {name : Name} {cs : List Name}

/-- A path leads to an allocated inode. -/
theorem allocated (sound : t.Sound) (found : t.lookup cs = some x) : t.kind x ≠ none := by
  cases cs using List.reverseRecOn with
  | nil =>
    obtain rfl : t.root = x := Option.some.inj found
    rw [sound.root]
    exact Option.some_ne_none _
  | append_singleton cs c =>
    rw [Namespace.lookup_concat] at found
    obtain ⟨m, -, edge⟩ := Option.bind_eq_some_iff.mp found
    exact sound.target edge

/-- Nothing leads to an inode that is not allocated, or from it. -/
theorem loose (sound : t.Sound) (free : t.kind inode = none) : Loose t.root t.find inode := by
  refine ⟨?_, fun m l edge => sound.target edge free⟩
  rintro rfl
  rw [sound.root] at free
  cases free

theorem no_entries (sound : t.Sound) (file : t.kind x ≠ some kDirectory) (name : Name) : t.find x name = none := by
  cases found : t.find x name with
  | none => rfl
  | some y => exact absurd (sound.source found) file

/-- An entry of a directory that a path leads to does not lead back to it. -/
theorem other (sound : t.Sound) (here : t.lookup cs = some dir) (edge : t.find dir name = some x) : x ≠ dir := by
  rintro rfl
  have longer : t.lookup (cs ++ [name]) = some x := lookup_step here edge
  have same := congrArg List.length (sound.tree.path_unique here longer)
  rw [List.length_append, List.length_singleton] at same
  omega

/-- A new entry leaves the others. -/
theorem create_find_old {type : DiskInodeType} {m z : Position} {l : Name} (sound : t.Sound)
    (absent : t.find dir name = none) (unused : t.kind inode = none) (edge : t.find m l = some z) :
    (t.create dir name type inode).find m l = some z := by
  have apart : ¬ (m = dir ∧ l = name) := by
    rintro ⟨rfl, rfl⟩
    rw [absent] at edge
    cases edge
  have other : m ≠ inode := by
    rintro rfl
    exact absurd (unused.symm.trans (sound.source edge)) (by decide)
  exact (setEdge_ne _ apart).trans ((clearNode_ne other).trans edge)

theorem setEntry_none (sound : t.Sound) (dir : Position) (name : Name) : (t.setEntry dir name none).Sound where
  tree := sound.tree.set_none dir name
  root := sound.root
  source := fun edge => sound.source (setEdge_none_sub _ _ _ edge)
  target := fun edge => sound.target (setEdge_none_sub _ _ _ edge)
  links := fun edge => sound.links (setEdge_none_sub _ _ _ edge)

/-- The link count of an inode without a name may be anything. -/
theorem recount (sound : t.Sound) (loose : Loose t.root t.find inode) (f : Nat → Nat) :
    (t.recount inode f).Sound where
  tree := sound.tree
  root := sound.root
  source := sound.source
  target := sound.target
  links := by
    intro m l y edge
    have ne : y ≠ inode := fun is => loose.2 m l (is ▸ edge)
    exact (Function.update_of_ne ne _ _).trans (sound.links edge)

theorem free (sound : t.Sound) (loose : Loose t.root t.find inode) (empty : ∀ name, t.find inode name = none) :
    (t.free inode).Sound where
  tree := sound.tree
  root := (Function.update_of_ne loose.1.symm _ _).trans sound.root
  source := by
    intro m l y edge
    have ne : m ≠ inode := by
      rintro rfl
      exact Option.some_ne_none _ (edge.symm.trans (empty l))
    exact (Function.update_of_ne ne _ _).trans (sound.source edge)
  target := by
    intro m l y edge
    have ne : y ≠ inode := fun is => loose.2 m l (is ▸ edge)
    exact fun none => sound.target edge ((Function.update_of_ne ne _ _).symm.trans none)
  links := by
    intro m l y edge
    have ne : y ≠ inode := fun is => loose.2 m l (is ▸ edge)
    exact (Function.update_of_ne ne _ _).trans (sound.links edge)

theorem create (sound : t.Sound) (isDir : t.kind dir = some kDirectory) (unused : t.kind inode = none)
    (name : Name) (type : DiskInodeType) : (t.create dir name type inode).Sound := by
  have loose := sound.loose unused
  have other : dir ≠ inode := by
    rintro rfl
    rw [isDir] at unused
    cases unused
  -- an entry is the new one, or was there
  have edges : ∀ {m l y}, (t.create dir name type inode).find m l = some y →
      (m = dir ∧ y = inode) ∨ (y ≠ inode ∧ m ≠ inode ∧ t.find m l = some y) := by
    intro m l y edge
    obtain ⟨rfl, -, same⟩ | ⟨-, edge⟩ := setEdge_some edge
    · exact .inl ⟨rfl, (Option.some.inj same).symm⟩
    · have old := clearNode_some edge
      refine .inr ⟨fun is => loose.2 m l (is ▸ old), ?_, old⟩
      rintro rfl
      exact Option.some_ne_none _ ((sound.source old).symm.trans unused)
  constructor
  case tree => exact sound.tree.create loose dir name
  case root => exact (Function.update_of_ne loose.1.symm _ _).trans sound.root
  case source =>
    intro m l y edge
    obtain ⟨rfl, -⟩ | ⟨-, ne, old⟩ := edges edge
    · exact (Function.update_of_ne other _ _).trans isDir
    · exact (Function.update_of_ne ne _ _).trans (sound.source old)
  case target =>
    intro m l y edge none
    obtain ⟨-, rfl⟩ | ⟨ne, -, old⟩ := edges edge
    · have made : (t.create dir name type y).kind y = some type := Function.update_self y _ t.kind
      rw [made] at none
      cases none
    · exact sound.target old ((Function.update_of_ne ne _ _).symm.trans none)
  case links =>
    intro m l y edge
    obtain ⟨-, rfl⟩ | ⟨ne, -, old⟩ := edges edge
    · exact Function.update_self ..
    · exact (Function.update_of_ne ne _ _).trans (sound.links old)

theorem link (sound : t.Sound) (isDir : t.kind dir = some kDirectory) (allocated : t.kind inode ≠ none)
    (loose : Loose t.root t.find inode) (zero : t.links inode = 0) (name : Name) :
    ((t.setEntry dir name (some inode)).recount inode (· + 1)).Sound := by
  have edges : ∀ {m l y}, (t.setEntry dir name (some inode)).find m l = some y →
      (m = dir ∧ y = inode) ∨ (y ≠ inode ∧ t.find m l = some y) := by
    intro m l y edge
    obtain ⟨rfl, -, same⟩ | ⟨-, old⟩ := setEdge_some edge
    · exact .inl ⟨rfl, (Option.some.inj same).symm⟩
    · exact .inr ⟨fun is => loose.2 m l (is ▸ old), old⟩
  constructor
  case tree => exact IsTree.insert sound.tree loose dir name
  case root => exact sound.root
  case source =>
    intro m l y edge
    obtain ⟨rfl, -⟩ | ⟨-, old⟩ := edges edge
    · exact isDir
    · exact sound.source old
  case target =>
    intro m l y edge
    obtain ⟨-, rfl⟩ | ⟨-, old⟩ := edges edge
    · exact allocated
    · exact sound.target old
  case links =>
    intro m l y edge
    obtain ⟨-, rfl⟩ | ⟨ne, old⟩ := edges edge
    · exact (Function.update_self ..).trans (congrArg Nat.succ zero)
    · exact (Function.update_of_ne ne _ _).trans (sound.links old)

/-- A request that fits keeps the tree sound. -/
theorem serve (sound : t.Sound) {q : InodeReq} (fits : t.Fits q) {r : q.Ans} (answer : service q t r t') :
    t'.Sound := by
  cases q with
  | find => exact answer.2 ▸ sound
  | create dir name type mode =>
    obtain ⟨inode, unused, -, rfl⟩ := answer
    exact sound.create fits.1 unused name type
  | remove dir name =>
    obtain ⟨isDir, -, last⟩ := fits
    cases found : t.find dir name with
    | none =>
      simp only [service, found] at answer
      exact answer.2 ▸ sound
    | some inode =>
      simp only [service, found] at answer
      obtain ⟨-, rfl⟩ := answer
      refine (sound.setEntry_none dir name).free (IsTree.loose_erase sound.tree found) fun l => ?_
      -- the inode had no entries, and has none now
      cases edge : (t.setEntry dir name none).find inode l with
      | none => rfl
      | some y =>
        have old : t.find inode l = some y := setEdge_none_sub _ _ _ edge
        rw [(last inode found).2 l] at old
        cases old
  | link dir name inode replace =>
    obtain ⟨isDir, -, allocated, -, loose, zero⟩ := fits
    obtain ⟨-, -, rfl⟩ | ⟨-, -, rfl⟩ := answer
    · exact sound.link isDir allocated loose zero name
    · exact sound
  | unlink dir name =>
    cases found : t.find dir name with
    | none =>
      simp only [service, found] at answer
      exact answer.2 ▸ sound
    | some inode =>
      simp only [service, found] at answer
      obtain ⟨-, rfl⟩ := answer
      exact (sound.setEntry_none dir name).recount (IsTree.loose_erase sound.tree found) _
  | checkEmpty => exact answer.2 ▸ sound
  | readData => exact answer.2 ▸ sound
  | writeData =>
    obtain ⟨bytes, -, rfl⟩ := answer
    exact ⟨sound.tree, sound.root, sound.source, sound.target, sound.links⟩
  | resize =>
    obtain ⟨bytes, -, -, rfl⟩ := answer
    exact ⟨sound.tree, sound.root, sound.source, sound.target, sound.links⟩
  | sync => exact (show t' = t from answer) ▸ sound
  | undefined => exact Empty.elim r

/-- To the layer above the tree is a namespace. -/
theorem toNamespace (sound : t.Sound) {q : InodeReq} {r : q.Ans} (answer : service q t r t') :
    Namespace.service q t.toNamespace r t'.toNamespace := by
  -- taking out an entry that is not there changes nothing
  have unbound : ∀ {dir name}, t.find dir name = none → t.toNamespace.set dir name none = t.toNamespace := by
    intro dir name absent
    have same : setEdge t.find dir name none = t.find := by
      funext m l
      by_cases entry : m = dir ∧ l = name
      · rw [entry.1, entry.2, setEdge_same, absent]
      · exact setEdge_ne none entry
    rw [Namespace.set, same]
  cases q with
  | find => exact ⟨answer.1, congrArg _ answer.2⟩
  | create dir name type mode =>
    obtain ⟨inode, unused, rfl, rfl⟩ := answer
    exact fun _ => .inl ⟨inode, sound.loose unused, rfl, rfl⟩
  | remove dir name =>
    cases found : t.find dir name with
    | none =>
      simp only [service, found] at answer
      obtain ⟨rfl, rfl⟩ := answer
      exact ⟨by rw [found]; rfl, (unbound found).symm⟩
    | some inode =>
      simp only [service, found] at answer
      obtain ⟨rfl, rfl⟩ := answer
      exact ⟨by rw [found]; rfl, rfl⟩
  | link dir name inode replace =>
    obtain ⟨rfl, free, rfl⟩ | ⟨rfl, -, rfl⟩ := answer
    · exact .inl ⟨rfl, free, rfl⟩
    · exact .inr ⟨rfl, rfl⟩
  | unlink dir name =>
    cases found : t.find dir name with
    | none =>
      simp only [service, found] at answer
      obtain ⟨rfl, rfl⟩ := answer
      exact ⟨by rw [found]; rfl, (unbound found).symm⟩
    | some inode =>
      simp only [service, found] at answer
      obtain ⟨rfl, rfl⟩ := answer
      exact ⟨by rw [found]; rfl, rfl⟩
  | checkEmpty => exact congrArg _ answer.2
  | readData => exact congrArg _ answer.2
  | writeData =>
    obtain ⟨bytes, -, rfl⟩ := answer
    rfl
  | resize =>
    obtain ⟨bytes, -, -, rfl⟩ := answer
    rfl
  | sync => exact congrArg _ answer
  | undefined => exact Empty.elim r

end FileTree.Sound

end Sbfs
