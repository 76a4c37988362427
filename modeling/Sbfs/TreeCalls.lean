import Sbfs.Attributes
import Sbfs.FileTree

/-! # The callbacks on the tree of files

What each callback of `vfs.cpp` does to a sound tree when the kernel makes the call (`Issued`): it makes
only requests that fit, and `VfsCall.Effect` lists its outcomes.  The lemmas walk through the
text of the callbacks; that the path cache stays right comes from `Sbfs.PathCoherence`. -/

namespace Sbfs

open NamedTree ReqProg FileTree

/-- The callbacks that look at the tree, change it, or use a descriptor. -/
inductive VfsCall where
  | create (path : Name) (mode : UInt16)
  | mkdir (path : Name) (mode : UInt16)
  | unlink (path : Name)
  | rmdir (path : Name)
  | rename (oldPath newPath : Name) (flags : Nat)
  | open' (path : Name)
  | release (fh : Nat)
  | read (fh : Nat) (buf : Mem) (size : Nat) (offset : Int)
  | write (fh : Nat) (buf : Mem) (size : Nat) (offset : Int)
  | truncate (path : Name) (off : Int) (fh : Nat)
  | fsync (datasync : Int) (fh : Nat)

/-- What a callback hands out besides its result: `fi->fh`, the buffer of `read`, or what the callbacks that
only look have found. -/
inductive Out where
  | nothing
  | handle (fh : Option Nat)
  | bytes (buf : Mem)
  | stat (st : Option Stat)
  | names (names : List Name)

def VfsCall.body (v : Vfs) : VfsCall → VfsProg (Int × Out × Vfs)
  | create path mode => do
    let (ret, fh, v) ← v.sbCreate path mode
    return (ret, .handle fh, v)
  | mkdir path mode => do
    let (ret, v) ← v.sbMkdir path mode
    return (ret, .nothing, v)
  | unlink path => do
    let (ret, v) ← v.sbUnlink path
    return (ret, .nothing, v)
  | rmdir path => do
    let (ret, v) ← v.sbRmdir path
    return (ret, .nothing, v)
  | rename oldPath newPath flags => do
    let (ret, v) ← v.sbRename oldPath newPath flags
    return (ret, .nothing, v)
  | open' path => do
    let (ret, fh, v) ← v.sbOpen path
    return (ret, .handle fh, v)
  | release fh => return (0, .nothing, v.sbRelease fh)
  | read fh buf size offset => do
    let (ret, buf) ← v.sbRead fh buf size offset
    return (ret, .bytes buf, v)
  | write fh buf size offset => do
    let ret ← v.sbWrite fh buf size offset
    return (ret, .nothing, v)
  | truncate path off fh => do
    let (ret, v) ← v.sbTruncate path off fh
    return (ret, .nothing, v)
  | fsync datasync fh => do
    let ret ← v.sbFsync datasync fh
    return (ret, .nothing, v)

/-- The inode of a path that is given by its parent and its last part. -/
def FileTree.Dir (t : FileTree) (cs : List Name) (dir : Position) : Prop :=
  t.lookup cs = some dir ∧ t.kind dir = some kDirectory

/-- The calls that the kernel makes: with canonical paths, whose parents exist; `create` and `mkdir`
on names that do not exist, `unlink`, `open` and `truncate` not on directories, `rename` not of a
directory into itself, and `write` of less than 2 GiB at once. -/
inductive VfsCall.Issued (t : FileTree) : VfsCall → Prop
  | create {cs : List Name} {c : Name} {dir : Position} (mode : UInt16) (parts : ∀ d ∈ cs ++ [c], IsPart d)
      (parent : t.Dir cs dir) (absent : t.find dir c = none) : Issued t (create (canonical (cs ++ [c])) mode)
  | mkdir {cs : List Name} {c : Name} {dir : Position} (mode : UInt16) (parts : ∀ d ∈ cs ++ [c], IsPart d)
      (parent : t.Dir cs dir) (absent : t.find dir c = none) : Issued t (mkdir (canonical (cs ++ [c])) mode)
  | unlink {cs : List Name} {c : Name} {dir : Position} (parts : ∀ d ∈ cs ++ [c], IsPart d) (parent : t.Dir cs dir)
      (file : ∀ x, t.find dir c = some x → t.kind x ≠ some kDirectory) : Issued t (unlink (canonical (cs ++ [c])))
  | rmdir {cs : List Name} {c : Name} {dir : Position} (parts : ∀ d ∈ cs ++ [c], IsPart d) (parent : t.Dir cs dir) :
      Issued t (rmdir (canonical (cs ++ [c])))
  | rename {cs ds : List Name} {c d : Name} {dir dir' : Position} (flags : Nat) (parts : ∀ e ∈ cs ++ [c], IsPart e)
      (parts' : ∀ e ∈ ds ++ [d], IsPart e) (parent : t.Dir cs dir) (parent' : t.Dir ds dir')
      (outside : ¬ cs ++ [c] <+: ds) (outside' : flags.testBit 1 = true → ¬ ds ++ [d] <+: cs) :
      Issued t (rename (canonical (cs ++ [c])) (canonical (ds ++ [d])) flags)
  | open' {cs : List Name} (parts : ∀ c ∈ cs, IsPart c)
      (file : ∀ x, t.lookup cs = some x → t.kind x = some kFile) : Issued t (open' (canonical cs))
  | release (fh : Nat) : Issued t (release fh)
  | read (fh : Nat) (buf : Mem) (size : Nat) (offset : Int) : Issued t (read fh buf size offset)
  | write (fh : Nat) (buf : Mem) {size : Nat} (offset : Int) (small : size < 2147483648) :
      Issued t (write fh buf size offset)
  | truncate {cs : List Name} (off : Int) (fh : Nat) (parts : ∀ c ∈ cs, IsPart c)
      (file : ∀ x, t.lookup cs = some x → t.kind x = some kFile) : Issued t (truncate (canonical cs) off fh)
  | fsync (datasync : Int) (fh : Nat) : Issued t (fsync datasync fh)

/-- A `link` of the tree, which may have failed. -/
def FileTree.Linked (t : FileTree) (dir : Position) (name : Name) (inode : Position) (replace : Bool)
    (u : FileTree) : Prop := ∃ r, service (.link dir name inode replace) t r u

/-- What the steps of `sb_rename` do to the tree, once it has found the source `x`. -/
inductive FileTree.Renamed (t : FileTree) (dir : Position) (c : Name) (dir' : Position) (d : Name) (flags : Nat)
    (x : Position) : FileTree → Prop
  | moved {u : FileTree} (plain : flags.testBit 1 = false)
      (link : (t.detach dir c x).Linked dir' d x (!flags.testBit 0) u) : Renamed t dir c dir' d flags x u
  | exchanged {y : Position} {w u : FileTree} (flag : flags.testBit 1 = true)
      (target : (t.detach dir c x).find dir' d = some y)
      (back : ((t.detach dir c x).detach dir' d y).Linked dir c y false w)
      (link : w.Linked dir' d x (!flags.testBit 0) u) : Renamed t dir c dir' d flags x u

/-- The descriptor that a call uses. -/
def VfsCall.uses : VfsCall → Option Nat
  | read fh _ _ _ => some fh
  | write fh _ _ _ => some fh
  | truncate _ _ fh => some fh
  | fsync _ fh => some fh
  | _ => none

/-- The errors of the calls, and when they are returned: `-ENOENT`, `-ENOTDIR`, `-ENOTEMPTY`, `-EINVAL`, `-EBADF` and
`-EIO`.  Only of a `read` that starts at or behind the end of the file or ends past 2^31 it is not known whether it
fails; `fsync` fails when the device does. -/
inductive VfsCall.Error (m : FDManager) (t : FileTree) : VfsCall → Int → Prop
  | noName {cs : List Name} {c : Name} {dir : Position} {call : VfsCall}
      (names : call = unlink (canonical (cs ++ [c])) ∨ call = rmdir (canonical (cs ++ [c])) ∨
        ∃ newPath flags, call = rename (canonical (cs ++ [c])) newPath flags)
      (parts : ∀ d ∈ cs ++ [c], IsPart d) (parent : t.Dir cs dir) (absent : t.find dir c = none) : Error m t call (-2)
  | noFile {cs : List Name} {call : VfsCall} (names : call = open' (canonical cs) ∨
        ∃ off fh, call = truncate (canonical cs) off fh ∧ m.get fh = none)
      (absent : t.lookup cs = none) : Error m t call (-2)
  | notDirectory {cs : List Name} {c : Name} {dir x : Position} (parent : t.Dir cs dir) (found : t.find dir c = some x)
      (other : t.kind x ≠ some kDirectory) : Error m t (rmdir (canonical (cs ++ [c]))) (-20)
  | notEmpty {cs : List Name} {c : Name} {dir x : Position} (parent : t.Dir cs dir) (found : t.find dir c = some x)
      (isDir : t.kind x = some kDirectory) (names : (∃ name, t.find x name ≠ none) ∨ ∀ name, t.dots x name = none) :
      Error m t (rmdir (canonical (cs ++ [c]))) (-39)
  | tooLarge {call : VfsCall} (large : (∃ fh buf size offset, call = read fh buf size offset ∧ 4294967295 < size) ∨
        ∃ path off fh, call = truncate path off fh ∧ 4294967295 < off) : Error m t call (-22)
  | notOpen {fh : Nat} {call : VfsCall} (uses : (∃ buf size offset, call = read fh buf size offset) ∨
        (∃ buf size offset, call = write fh buf size offset) ∨ ∃ datasync, call = fsync datasync fh)
      (closed : m.get fh = none) : Error m t call (-9)
  | notRead {fh size : Nat} {buf : Mem} {offset : Int} {x : Position} (held : m.get fh = some (some x))
      (outside : size = 0 ∨ (t.content x).length ≤ uint32 offset ∨ 2147483648 ≤ uint32 offset + size) :
      Error m t (read fh buf size offset) (-5)
  | notSynced {datasync : Int} {fh : Nat} {x : Position} (held : m.get fh = some (some x)) :
      Error m t (fsync datasync fh) (-5)

/-- What a call returns and does to the descriptors and the tree. -/
inductive VfsCall.Effect (m : FDManager) (t : FileTree) : VfsCall → Int → Out → FDManager → FileTree → Prop
  | created {cs : List Name} {c : Name} {dir inode : Position} {mode : UInt16} (parent : t.Dir cs dir)
      (absent : t.find dir c = none) (unused : t.kind inode = none) (parts : ∀ d ∈ cs ++ [c], IsPart d) :
      Effect m t (create (canonical (cs ++ [c])) mode) 0 (.handle (some m.fdCounter)) (m.open' (some inode)).2
        (t.create dir c kFile inode)
  | made {cs : List Name} {c : Name} {dir inode : Position} {mode : UInt16} (parent : t.Dir cs dir)
      (absent : t.find dir c = none) (unused : t.kind inode = none) (parts : ∀ d ∈ cs ++ [c], IsPart d) :
      Effect m t (mkdir (canonical (cs ++ [c])) mode) 0 .nothing m (t.create dir c kDirectory inode)
  | removed {cs : List Name} {c : Name} {dir x : Position} {call : VfsCall}
      (removal : call = unlink (canonical (cs ++ [c])) ∧ t.kind x ≠ some kDirectory ∨
        call = rmdir (canonical (cs ++ [c])) ∧ t.kind x = some kDirectory)
      (parts : ∀ d ∈ cs ++ [c], IsPart d) (parent : t.Dir cs dir) (found : t.find dir c = some x)
      (empty : ∀ name, t.find x name = none) : Effect m t call 0 .nothing m ((t.setEntry dir c none).free x)
  | renamed {cs ds : List Name} {c d : Name} {dir dir' x : Position} {flags : Nat} {u : FileTree}
      (parts : ∀ e ∈ cs ++ [c], IsPart e) (parts' : ∀ e ∈ ds ++ [d], IsPart e) (parent : t.Dir cs dir)
      (parent' : t.Dir ds dir') (found : t.find dir c = some x) (outside : ¬ cs ++ [c] <+: ds)
      (outside' : flags.testBit 1 = true → ¬ ds ++ [d] <+: cs) (moves : t.Renamed dir c dir' d flags x u) :
      Effect m t (rename (canonical (cs ++ [c])) (canonical (ds ++ [d])) flags) 0 .nothing m u
  | opened {cs : List Name} {x : Position} (found : t.lookup cs = some x) (file : t.kind x = some kFile) :
      Effect m t (open' (canonical cs)) 0 (.handle (some m.fdCounter)) (m.open' (some x)).2 t
  | released (fh : Nat) : Effect m t (release fh) 0 .nothing (m.close fh) t
  | bytesRead {fh size : Nat} {buf out : Mem} {offset ret : Int} {x : Position} (held : m.get fh = some (some x))
      (reads : ReadsAs (t.content x) (uint32 offset) buf size (ret, out)) :
      Effect m t (read fh buf size offset) ret (.bytes out) m t
  | written {fh size : Nat} {buf : Mem} {offset ret : Int} {x : Position} {bytes : List UInt8}
      (held : m.get fh = some (some x)) (writes : WritesAs (t.content x) (uint32 offset) buf size ret bytes) :
      Effect m t (write fh buf size offset) ret .nothing m (t.setContent x bytes)
  | truncated {cs : List Name} {off : Int} {fh : Nat} {x : Position} {bytes : List UInt8}
      (target : m.get fh = some (some x) ∨ m.get fh = none ∧ t.lookup cs = some x) (file : t.kind x = some kFile)
      (cut : Cut (t.content x) (uint32 off) bytes) :
      Effect m t (truncate (canonical cs) off fh) 0 .nothing m (t.setContent x bytes)
  | synced {datasync : Int} {fh : Nat} {x : Position} (held : m.get fh = some (some x)) :
      Effect m t (fsync datasync fh) 0 .nothing m t
  | refused {call : VfsCall} {ret : Int} {out : Out} (error : call.Error m t ret) : Effect m t call ret out m t

/-! ## Resolution -/

section

variable {v v' : Vfs} {t u : FileTree} {cs ds : List Name} {c d : Name} {path : Name} {dir dir' cur : Position}
  {r : PathResolver}

theorem walk_meets (sound : t.Sound) (allocated : t.kind cur ≠ none) {rest : List (Name × Name)}
    (parts : ∀ p ∈ rest, IsPart p.1) :
    (r.walk cur rest).Meets service InodeReq.Allowed (fun _ u => u = t) t := by
  induction rest generalizing cur r with
  | nil => exact rfl
  | cons p rest ih =>
    simp only [PathResolver.walk, VfsProg.find, meets_bind, meets_call]
    refine ⟨⟨sound, allocated, parts p List.mem_cons_self⟩, ?_⟩
    rintro answer u ⟨rfl, rfl⟩
    cases found : u.find cur p.1 with
    | none => exact rfl
    | some inode =>
      cases remembered : r.remember p.2 inode with
      | none =>
        simp only [remembered]
        exact ⟨⟨sound, trivial⟩, fun answer => Empty.elim answer⟩
      | some r₁ =>
        simp only [remembered]
        exact ih (sound.target found) fun p member => parts p (List.mem_cons_of_mem _ member)

theorem walk_parts {cs : List Name} (parts : ∀ c ∈ cs, IsPart c) (done : List Name) (n : Nat) :
    ∀ p ∈ (cs.zip (keysFrom done cs)).drop n, IsPart p.1 :=
  fun _ member => parts _ (List.of_mem_zip (List.mem_of_mem_drop member)).1

theorem resolve_meets (sound : t.Sound) (spells : Spells path cs) (parts : ∀ c ∈ cs, IsPart c)
    (cached : r.pathCache.All (Right t.toNamespace)) :
    (r.resolve t.root path).Meets service InodeReq.Allowed (fun _ u => u = t) t := by
  by_cases root : cs = []
  · subst root
    rw [spells.root]
    exact rfl
  · obtain ⟨head, other, stripped⟩ := spells.key root parts
    obtain ⟨cur', ds', r', eq, -, here, -⟩ :=
      lookupPrefixes_spec (List.nil_prefix : [] <+: ([] : List Name)) (rfl : 0 = _) rfl parts cached
    have keys : (pathOf cs).drop 1 = keyOf cs := rfl
    simp only [PathResolver.resolve, head, ne_eq, not_true_eq_false, if_false, other, stripped, keys,
      split_parts root (components parts), split_keys root (components parts)]
    rw [List.length_nil] at eq
    rw [eq]
    exact walk_meets sound (sound.allocated here) (walk_parts parts [] _)

/-- To the layer above an allowed request is one to a namespace. -/
theorem namespace_answers (q : InodeReq) (t : FileTree) (r : q.Ans) (u : FileTree) (allowed : q.Allowed t)
    (answer : service q t r u) : Namespace.service q t.toNamespace r u.toNamespace :=
  allowed.1.toNamespace answer

/-- What a callback knows after it has resolved a path. -/
structure Resolved (v : Vfs) (t : FileTree) (cs : List Name) (inode : Position) (v' : Vfs) : Prop where
  value : inode = (t.lookup cs).getD .invalid
  coherent : Coherent v' t.toNamespace
  handles : v'.fdManager = v.fdManager

theorem vfsResolve_meets (sound : t.Sound) (coherent : Coherent v t.toNamespace) (spells : Spells path cs)
    (parts : ∀ c ∈ cs, IsPart c) :
    (v.resolve path).Meets service InodeReq.Allowed (fun a u => u = t ∧ Resolved v t cs a.1 a.2) t := by
  have walked : (v.resolve path).Meets service InodeReq.Allowed (fun a u => u = t ∧ a.2.fdManager = v.fdManager) t := by
    rw [Vfs.resolve, coherent.root, meets_bind]
    refine (resolve_meets sound spells parts coherent.cached).mono ?_
    rintro a u rfl
    exact ⟨rfl, rfl⟩
  refine (walked.and_ensures namespace_answers (coherent.resolve spells parts)).mono ?_
  rintro a u ⟨⟨rfl, handles⟩, -, value, coherent'⟩
  exact ⟨rfl, value, coherent', handles⟩

/-- The parent of a call, in the two ways in which it can be named. -/
theorem Resolved.parent {inode : Position} (resolved : Resolved v t cs inode v') (parent : t.Dir cs dir) :
    inode = dir := by
  rw [resolved.value, parent.1]
  rfl

/-- A path that resolves to an invalid inode leads nowhere. -/
theorem FileTree.Solid.lookup_none {inode : Position} (solid : t.Solid) (sound : t.Sound)
    (value : inode = (t.lookup cs).getD .invalid) (bad : (!inode.isValid) = true) : t.lookup cs = none := by
  refine Option.eq_none_iff_forall_ne_some.mpr fun x found => ?_
  rw [found, Option.getD_some] at value
  rw [value, solid x (sound.allocated found)] at bad
  cases bad

theorem removePrefix_meets {P : Vfs → FileTree → Prop} (sound : t.Sound)
    (post : ∀ r, P { v with pathResolver := r } t) :
    (v.removePrefix path).Meets service InodeReq.Allowed (fun v' u => P v' u) t := by
  rw [Vfs.removePrefix]
  split
  · exact ⟨⟨sound, trivial⟩, fun answer => Empty.elim answer⟩
  · exact post _

/-! ## The callbacks that change directories -/

theorem parent_parts (parts : ∀ d ∈ cs ++ [c], IsPart d) : ∀ d ∈ cs, IsPart d :=
  fun d member => parts d (List.mem_append_left _ member)

theorem last_part (parts : ∀ d ∈ cs ++ [c], IsPart d) : IsPart c := parts c (by simp)

/-- The request of `sb_create` and `sb_mkdir`. -/
theorem create_meets (sound : t.Sound) (isDir : t.kind dir = some kDirectory) (part : IsPart c)
    (absent : t.find dir c = none) (type : DiskInodeType) (mode : UInt16) :
    (VfsProg.create dir c type mode).Meets service InodeReq.Allowed (fun a u => ∃ inode, t.kind inode = none ∧
      a = (.kSuccess, some inode) ∧ u = t.create dir c type inode) t := by
  rw [VfsProg.create, meets_call]
  exact ⟨⟨sound, isDir, part, absent⟩, fun r u answer => answer⟩

theorem sbMkdir_meets (sound : t.Sound) (coherent : Coherent v t.toNamespace) (parts : ∀ d ∈ cs ++ [c], IsPart d)
    (parent : t.Dir cs dir) (valid : dir.isValid = true) (absent : t.find dir c = none) (mode : UInt16) :
    (v.sbMkdir (canonical (cs ++ [c])) mode).Meets service InodeReq.Allowed (fun a u =>
      VfsCall.Effect v.fdManager t (.mkdir (canonical (cs ++ [c])) mode) a.1 .nothing a.2.fdManager u) t := by
  have part := last_part parts
  rw [Vfs.sbMkdir, canonical_concat, splitFromLastSlash_pathOf cs part.component, meets_bind]
  refine (vfsResolve_meets sound coherent (.parent cs) (parent_parts parts)).mono ?_
  rintro ⟨x, v₁⟩ u ⟨rfl, resolved⟩
  obtain rfl := resolved.parent parent
  have handles := resolved.handles
  dsimp only at handles ⊢
  rw [valid, Bool.not_true, if_neg Bool.false_ne_true, meets_bind]
  refine (create_meets sound parent.2 part absent _ _).mono ?_
  rintro a w ⟨inode, unused, rfl, rfl⟩
  rw [meets_pure, handles, ← canonical_concat]
  exact .made parent absent unused parts

theorem sbCreate_meets (sound : t.Sound) (coherent : Coherent v t.toNamespace) (parts : ∀ d ∈ cs ++ [c], IsPart d)
    (parent : t.Dir cs dir) (valid : dir.isValid = true) (absent : t.find dir c = none) (mode : UInt16) :
    (v.sbCreate (canonical (cs ++ [c])) mode).Meets service InodeReq.Allowed (fun a u =>
      VfsCall.Effect v.fdManager t (.create (canonical (cs ++ [c])) mode) a.1 (.handle a.2.1) a.2.2.fdManager u) t := by
  have part := last_part parts
  rw [Vfs.sbCreate, canonical_concat, splitFromLastSlash_pathOf cs part.component, meets_bind]
  refine (vfsResolve_meets sound coherent (.parent cs) (parent_parts parts)).mono ?_
  rintro ⟨x, v₁⟩ u ⟨rfl, resolved⟩
  obtain rfl := resolved.parent parent
  have handles := resolved.handles
  dsimp only at handles ⊢
  rw [valid, Bool.not_true, if_neg Bool.false_ne_true, meets_bind]
  refine (create_meets sound parent.2 part absent _ _).mono ?_
  rintro a w ⟨inode, unused, rfl, rfl⟩
  rw [meets_pure, handles, ← canonical_concat]
  exact .created parent absent unused parts

/-- The common end of `sb_unlink` and `sb_rmdir`. -/
theorem removeThen_meets (sound : t.Sound) (parts : ∀ d ∈ cs ++ [c], IsPart d) (parent : t.Dir cs dir) {x : Position}
    (found : t.find dir c = some x) (empty : ∀ name, t.find x name = none) {call : VfsCall}
    (removal : call = .unlink (canonical (cs ++ [c])) ∧ t.kind x ≠ some kDirectory ∨
      call = .rmdir (canonical (cs ++ [c])) ∧ t.kind x = some kDirectory) :
    (do let _ ← VfsProg.remove dir c
        return ((0 : Int), ← v.removePrefix (canonical (cs ++ [c]))) : VfsProg (Int × Vfs)).Meets
      service InodeReq.Allowed (fun a u => call.Effect v.fdManager t a.1 .nothing a.2.fdManager u) t := by
  rw [meets_bind, VfsProg.remove, meets_call]
  have allowed : InodeReq.Allowed (.remove dir c) t := by
    refine ⟨sound, parent.2, last_part parts, fun y same => ?_⟩
    obtain rfl : x = y := Option.some.inj (found.symm.trans same)
    exact ⟨sound.other parent.1 found, empty⟩
  refine ⟨allowed, fun r u answer => ?_⟩
  have sound' := sound.serve allowed.2 answer
  simp only [service, found] at answer
  obtain ⟨-, rfl⟩ := answer
  rw [meets_bind]
  exact removePrefix_meets sound' fun _ => .removed removal parts parent found empty

theorem sbUnlink_meets (sound : t.Sound) (coherent : Coherent v t.toNamespace) (parts : ∀ d ∈ cs ++ [c], IsPart d)
    (parent : t.Dir cs dir) (valid : dir.isValid = true) (file : ∀ x, t.find dir c = some x → t.kind x ≠ some kDirectory) :
    (v.sbUnlink (canonical (cs ++ [c]))).Meets service InodeReq.Allowed (fun a u =>
      VfsCall.Effect v.fdManager t (.unlink (canonical (cs ++ [c]))) a.1 .nothing a.2.fdManager u) t := by
  have part := last_part parts
  rw [Vfs.sbUnlink, canonical_concat, splitFromLastSlash_pathOf cs part.component, meets_bind, ← canonical_concat]
  refine (vfsResolve_meets sound coherent (.parent cs) (parent_parts parts)).mono ?_
  rintro ⟨x, v₁⟩ u ⟨rfl, resolved⟩
  obtain rfl := resolved.parent parent
  have handles := resolved.handles
  dsimp only at handles ⊢
  rw [← handles, valid, Bool.not_true, if_neg Bool.false_ne_true, meets_bind, VfsProg.find, meets_call]
  refine ⟨⟨sound, by rw [parent.2]; exact Option.some_ne_none _, part⟩, ?_⟩
  rintro r w ⟨rfl, rfl⟩
  cases found : w.find x c with
  | none => exact .refused (.noName (.inl rfl) parts parent found)
  | some y =>
    have notDir := file y found
    exact removeThen_meets sound parts parent found (sound.no_entries notDir) (.inl ⟨rfl, notDir⟩)

theorem sbRmdir_meets (sound : t.Sound) (coherent : Coherent v t.toNamespace) (parts : ∀ d ∈ cs ++ [c], IsPart d)
    (parent : t.Dir cs dir) (valid : dir.isValid = true) :
    (v.sbRmdir (canonical (cs ++ [c]))).Meets service InodeReq.Allowed (fun a u =>
      VfsCall.Effect v.fdManager t (.rmdir (canonical (cs ++ [c]))) a.1 .nothing a.2.fdManager u) t := by
  have part := last_part parts
  rw [Vfs.sbRmdir, canonical_concat, splitFromLastSlash_pathOf cs part.component, meets_bind, ← canonical_concat]
  refine (vfsResolve_meets sound coherent (.parent cs) (parent_parts parts)).mono ?_
  rintro ⟨x, v₁⟩ u ⟨rfl, resolved⟩
  obtain rfl := resolved.parent parent
  have handles := resolved.handles
  dsimp only at handles ⊢
  rw [← handles, valid, Bool.not_true, if_neg Bool.false_ne_true, meets_bind, VfsProg.find, meets_call]
  refine ⟨⟨sound, by rw [parent.2]; exact Option.some_ne_none _, part⟩, ?_⟩
  rintro r w ⟨rfl, rfl⟩
  cases found : w.find x c with
  | none => exact .refused (.noName (.inr (.inl rfl)) parts parent found)
  | some y =>
    simp only
    rw [meets_bind, VfsProg.checkEmpty, meets_call]
    refine ⟨⟨sound, sound.target found⟩, ?_⟩
    rintro ret w' ⟨looks, rfl⟩
    cases looks with
    | notDirectory other => exact .refused (.notDirectory parent found other)
    | notEmpty isDir names => exact .refused (.notEmpty parent found isDir names)
    | empty isDir none => exact removeThen_meets sound parts parent found none (.inr ⟨rfl, isDir⟩)

/-! ### `sb_rename` -/

/-- An allocated inode without a name, as `unlink` leaves it. -/
structure FileTree.Unnamed (t : FileTree) (x : Position) : Prop where
  allocated : t.kind x ≠ none
  loose : Loose t.root t.find x
  links : t.links x = 0

theorem FileTree.Sound.detach (sound : t.Sound) {x : Position} (found : t.find dir c = some x) :
    (t.detach dir c x).Sound ∧ (t.detach dir c x).Unnamed x := by
  have loose : Loose t.root (setEdge t.find dir c none) x := IsTree.loose_erase sound.tree found
  refine ⟨(sound.setEntry_none dir c).recount loose _, sound.target found, loose, ?_⟩
  exact (Function.update_self ..).trans (congrArg Nat.pred (sound.links found))

theorem FileTree.Unnamed.detach {x y : Position} (unnamed : t.Unnamed x) (found : t.find dir c = some y) :
    (t.detach dir c y).Unnamed x := by
  have ne : x ≠ y := fun same => unnamed.loose.2 dir c (same ▸ found)
  exact ⟨unnamed.allocated, unnamed.loose.of_sub setEdge_none_sub, (Function.update_of_ne ne _ _).trans unnamed.links⟩

/-- A `link` that fails changes nothing. -/
theorem FileTree.Linked.cases {x : Position} {replace : Bool} (linked : t.Linked dir c x replace u) :
    u = (t.setEntry dir c (some x)).recount x (· + 1) ∧ (t.find dir c = none ∨ replace = true) ∨
      u = t ∧ (replace = false ∧ t.find dir c ≠ none ∨ t.Large dir) := by
  obtain ⟨r, ⟨-, free, same⟩ | ⟨-, cause, same⟩⟩ := linked
  · exact .inl ⟨same, free⟩
  · exact .inr ⟨same, cause⟩

theorem FileTree.Unnamed.linked {x y : Position} {replace : Bool} (unnamed : t.Unnamed x) (ne : y ≠ x)
    (linked : t.Linked dir c y replace u) : u.Unnamed x := by
  obtain ⟨rfl, -⟩ | ⟨rfl, -⟩ := linked.cases
  · exact ⟨unnamed.allocated, unnamed.loose.insert ne dir c,
      (Function.update_of_ne ne.symm _ _).trans unnamed.links⟩
  · exact unnamed

theorem FileTree.Linked.kind {x : Position} {replace : Bool} (linked : t.Linked dir c x replace u) :
    u.kind = t.kind ∧ u.dots = t.dots := by
  obtain ⟨rfl, -⟩ | ⟨rfl, -⟩ := linked.cases
  · exact ⟨rfl, rfl⟩
  · exact ⟨rfl, rfl⟩

theorem linkIn_meets {x : Position} (sound : t.Sound) (isDir : t.kind dir = some kDirectory) (part : IsPart c)
    (unnamed : t.Unnamed x) (ne : x ≠ dir) (replace : Bool) :
    (Vfs.linkIn dir c (some x) replace).Meets service InodeReq.Allowed
      (fun _ u => u.Sound ∧ t.Linked dir c x replace u) t := by
  rw [Vfs.linkIn]
  split
  · exact ⟨⟨sound, trivial⟩, fun answer => Empty.elim answer⟩
  · have fits : t.Fits (.link dir c x replace) :=
      ⟨isDir, part, unnamed.allocated, ne, unnamed.loose, unnamed.links⟩
    rw [meets_bind, VfsProg.link, meets_call]
    exact ⟨⟨sound, fits⟩, fun r u answer => ⟨sound.serve fits answer, r, answer⟩⟩

/-- The exchange step, after the source has lost its name. -/
theorem exchange_meets {x : Position} (sound : t.Sound) (isDir : t.kind dir = some kDirectory)
    (isDir' : t.kind dir' = some kDirectory) (part : IsPart c) (part' : IsPart d) (unnamed : t.Unnamed x)
    (ne : t.find dir' d ≠ some dir) :
    (Vfs.exchange dir c dir' d).Meets service InodeReq.Allowed (fun _ u => u.Sound ∧ u.Unnamed x ∧
      ∃ y, t.find dir' d = some y ∧ (t.detach dir' d y).Linked dir c y false u) t := by
  rw [Vfs.exchange]
  split
  · exact ⟨⟨sound, trivial⟩, fun answer => Empty.elim answer⟩
  · rw [meets_bind, VfsProg.unlink, meets_call]
    refine ⟨⟨sound, isDir', part'⟩, fun r u answer => ?_⟩
    cases found : t.find dir' d with
    | none =>
      simp only [service, found] at answer
      obtain ⟨rfl, rfl⟩ := answer
      exact ⟨⟨sound, trivial⟩, fun answer => Empty.elim answer⟩
    | some y =>
      simp only [service, found] at answer
      obtain ⟨rfl, rfl⟩ := answer
      obtain ⟨sound', unnamed'⟩ := sound.detach found
      have other : y ≠ x := fun same => unnamed.loose.2 dir' d (same ▸ found)
      have apart : y ≠ dir := fun same => ne (same ▸ found)
      refine (linkIn_meets sound' isDir part unnamed' apart false).mono ?_
      rintro _ w ⟨sound'', linked⟩
      exact ⟨sound'', (unnamed.detach found).linked other linked, y, rfl, linked⟩

theorem sbRename_meets (sound : t.Sound) (coherent : Coherent v t.toNamespace) (parts : ∀ e ∈ cs ++ [c], IsPart e)
    (parts' : ∀ e ∈ ds ++ [d], IsPart e) (parent : t.Dir cs dir) (valid : dir.isValid = true)
    (parent' : t.Dir ds dir') (flags : Nat)
    (outside : ¬ cs ++ [c] <+: ds) (outside' : flags.testBit 1 = true → ¬ ds ++ [d] <+: cs) :
    (v.sbRename (canonical (cs ++ [c])) (canonical (ds ++ [d])) flags).Meets service InodeReq.Allowed (fun a u =>
      VfsCall.Effect v.fdManager t (.rename (canonical (cs ++ [c])) (canonical (ds ++ [d])) flags) a.1
        .nothing a.2.fdManager u) t := by
  have part := last_part parts
  have part' := last_part parts'
  rw [Vfs.sbRename, canonical_concat, canonical_concat, splitFromLastSlash_pathOf cs part.component,
    splitFromLastSlash_pathOf ds part'.component, meets_bind, ← canonical_concat, ← canonical_concat]
  refine (vfsResolve_meets sound coherent (.parent cs) (parent_parts parts)).mono ?_
  rintro ⟨x, v₁⟩ u ⟨rfl, resolved⟩
  obtain rfl := resolved.parent parent
  have handles := resolved.handles
  have coherent₁ := resolved.coherent
  dsimp only at handles coherent₁ ⊢
  rw [← handles, valid, Bool.not_true, if_neg Bool.false_ne_true, meets_bind]
  refine (vfsResolve_meets sound coherent₁ (.parent ds) (parent_parts parts')).mono ?_
  rintro ⟨x', v₂⟩ u ⟨rfl, resolved'⟩
  obtain rfl := resolved'.parent parent'
  have handles' := resolved'.handles
  dsimp only at handles' ⊢
  rw [← handles', meets_bind, VfsProg.unlink, meets_call]
  refine ⟨⟨sound, parent.2, part⟩, fun r w answer => ?_⟩
  cases found : u.find x c with
  | none =>
    simp only [service, found] at answer
    obtain ⟨rfl, rfl⟩ := answer
    exact .refused (.noName (.inr (.inr ⟨_, _, rfl⟩)) parts parent found)
  | some source =>
    simp only [service, found] at answer
    obtain ⟨rfl, rfl⟩ := answer
    obtain ⟨sound₁, unnamed⟩ := sound.detach found
    -- the new parent does not lie below the source
    have apart : source ≠ x' := by
      rintro rfl
      exact outside (sound.tree.path_unique (lookup_step parent.1 found) parent'.1 ▸ List.prefix_rfl)
    have finish : ∀ w : FileTree, w.Sound → w.Unnamed source → w.kind = u.kind →
        (∀ w', w.Linked x' d source (!flags.testBit 0) w' → u.Renamed x c x' d flags source w') →
        (do Vfs.linkIn x' d (some source) (!flags.testBit 0)
            let v ← v₂.removePrefix (canonical (cs ++ [c]))
            let v ← v.removePrefix (canonical (ds ++ [d]))
            return ((0 : Int), v) : VfsProg (Int × Vfs)).Meets service InodeReq.Allowed (fun a w' =>
          VfsCall.Effect v₂.fdManager u (.rename (canonical (cs ++ [c])) (canonical (ds ++ [d])) flags) a.1
            .nothing a.2.fdManager w') w := by
      intro w soundW unnamedW kinds moves
      rw [meets_bind]
      have isDir : w.kind x' = some kDirectory := by rw [kinds, parent'.2]
      refine (linkIn_meets soundW isDir part' unnamedW apart _).mono ?_
      rintro _ w' ⟨sound', linked⟩
      rw [meets_bind]
      refine removePrefix_meets sound' fun r => ?_
      rw [meets_bind]
      exact removePrefix_meets sound' fun r => .renamed parts parts' parent parent' found outside outside' (moves w' linked)
    dsimp only
    split
    next flag =>
      rw [meets_bind]
      have back : (u.detach x c source).find x' d ≠ some x := by
        intro edge
        have old : u.find x' d = some x := setEdge_none_sub _ _ _ edge
        exact outside' flag (sound.tree.path_unique (lookup_step parent'.1 old) parent.1 ▸ List.prefix_rfl)
      refine (exchange_meets sound₁ parent.2 parent'.2 part part' unnamed back).mono ?_
      rintro _ w ⟨soundW, unnamedW, y, target, linked⟩
      exact finish w soundW unnamedW linked.kind.1 fun w' link => .exchanged flag target linked link
    next plain =>
      exact finish _ sound₁ unnamed rfl fun w' link => .moved (Bool.not_eq_true _ ▸ plain) link

/-! ## The callbacks that use descriptors -/

/-- A descriptor that is open is open on a file. -/
def FDManager.OnFile (m : FDManager) (t : FileTree) (fh : Nat) : Prop :=
  ∀ inode, m.get fh = some inode → ∃ x, inode = some x ∧ t.kind x = some kFile

/-- The descriptors in the table are open on files. -/
def FDManager.OnFiles (m : FDManager) (t : FileTree) : Prop := ∀ fh, m.OnFile t fh

theorem sbOpen_meets (sound : t.Sound) (solid : t.Solid) (coherent : Coherent v t.toNamespace)
    (parts : ∀ c ∈ cs, IsPart c) (file : ∀ x, t.lookup cs = some x → t.kind x = some kFile) :
    (v.sbOpen (canonical cs)).Meets service InodeReq.Allowed (fun a u =>
      VfsCall.Effect v.fdManager t (.open' (canonical cs)) a.1 (.handle a.2.1) a.2.2.fdManager u ∧
        Coherent a.2.2 u.toNamespace) t := by
  rw [Vfs.sbOpen, meets_bind]
  refine (vfsResolve_meets sound coherent (.inl rfl) parts).mono ?_
  rintro ⟨x, v₁⟩ u ⟨rfl, resolved⟩
  have handles := resolved.handles
  have coherent₁ := resolved.coherent
  dsimp only at handles coherent₁ ⊢
  rw [← handles]
  split
  next bad =>
    exact ⟨.refused (.noFile (.inl rfl) (solid.lookup_none sound resolved.value bad)), coherent₁⟩
  next valid =>
    have found := lookup_of_valid resolved.value valid
    exact ⟨.opened found (file x found), coherent₁.root, coherent₁.tree, coherent₁.cached⟩

theorem sbRead_meets (sound : t.Sound) {fh : Nat} (file : v.fdManager.OnFile t fh) (buf : Mem) (size : Nat)
    (offset : Int) :
    (v.sbRead fh buf size offset).Meets service InodeReq.Allowed (fun a u => u = t ∧
      VfsCall.Effect v.fdManager t (.read fh buf size offset) a.1 (.bytes a.2) v.fdManager t) t := by
  rw [Vfs.sbRead]
  split
  next large => exact ⟨rfl, .refused (.tooLarge (.inl ⟨fh, buf, size, offset, rfl, large⟩))⟩
  next =>
    split
    next closed => exact ⟨rfl, .refused (.notOpen (.inl ⟨buf, size, offset, rfl⟩) closed)⟩
    next inode found =>
      obtain ⟨x, rfl, file⟩ := file _ found
      rw [Vfs.useInode, meets_bind, VfsProg.readData, meets_call]
      refine ⟨⟨sound, file⟩, ?_⟩
      rintro ⟨ret, out⟩ u ⟨reads, rfl⟩
      dsimp only
      split
      next failed =>
        refine ⟨rfl, .refused (.notRead found ?_)⟩
        by_contra inside
        simp only [not_or, not_le] at inside
        have length := (reads (Nat.pos_of_ne_zero inside.1) inside.2.1 inside.2.2).1
        dsimp only at length
        omega
      next => exact ⟨rfl, .bytesRead found reads⟩

theorem uint32_lt (z : Int) : uint32 z < 4294967296 := by
  rw [uint32]
  omega

theorem sbWrite_meets (sound : t.Sound) {fh : Nat} (file : v.fdManager.OnFile t fh) (buf : Mem) {size : Nat}
    (offset : Int) (small : size < 2147483648) :
    (v.sbWrite fh buf size offset).Meets service InodeReq.Allowed (fun a u =>
      VfsCall.Effect v.fdManager t (.write fh buf size offset) a .nothing v.fdManager u ∧
        u.toNamespace = t.toNamespace) t := by
  rw [Vfs.sbWrite]
  rw [if_neg (by omega)]
  split
  next closed => exact ⟨.refused (.notOpen (.inr (.inl ⟨buf, size, offset, rfl⟩)) closed), rfl⟩
  next inode found =>
    obtain ⟨x, rfl, file⟩ := file _ found
    rw [Vfs.useInode, meets_bind, VfsProg.writeData, meets_call]
    refine ⟨⟨sound, file, uint32_lt offset, small⟩, ?_⟩
    rintro ret u ⟨bytes, writes, rfl⟩
    split
    next failed =>
      -- only a write past 2^31 can fail, and of that nothing is said
      refine ⟨.written found fun inside => ?_, rfl⟩
      have success := (writes inside).1
      omega
    next => exact ⟨.written found writes, rfl⟩

theorem truncateInode_meets {x : Position} (sound : t.Sound) (file : t.kind x = some kFile) (off : Int) :
    (Vfs.truncateInode x off).Meets service InodeReq.Allowed (fun ret u => ret = 0 ∧
      ∃ bytes, Cut (t.content x) (uint32 off) bytes ∧ u = t.setContent x bytes) t := by
  rw [Vfs.truncateInode, meets_bind, VfsProg.resize, meets_call]
  refine ⟨⟨sound, file, uint32_lt off⟩, ?_⟩
  rintro r u ⟨bytes, rfl, cut, rfl⟩
  exact ⟨rfl, bytes, cut, rfl⟩

theorem sbTruncate_meets (sound : t.Sound) (solid : t.Solid) (coherent : Coherent v t.toNamespace) {fh : Nat}
    (held : v.fdManager.OnFile t fh) (parts : ∀ c ∈ cs, IsPart c)
    (file : ∀ x, t.lookup cs = some x → t.kind x = some kFile) (off : Int) :
    (v.sbTruncate (canonical cs) off fh).Meets service InodeReq.Allowed
      (fun a u => VfsCall.Effect v.fdManager t (.truncate (canonical cs) off fh) a.1 .nothing a.2.fdManager u ∧
        Coherent a.2 u.toNamespace) t := by
  rw [Vfs.sbTruncate]
  split
  next large => exact ⟨.refused (.tooLarge (.inr ⟨canonical cs, off, fh, rfl, large⟩)), coherent⟩
  next =>
    split
    next inode found =>
      obtain ⟨x, rfl, isFile⟩ := held _ found
      rw [Vfs.useInode, meets_bind]
      refine (truncateInode_meets sound isFile off).mono ?_
      rintro r u ⟨rfl, bytes, cut, rfl⟩
      exact ⟨.truncated (.inl found) isFile cut, coherent⟩
    next closed =>
      rw [meets_bind]
      refine (vfsResolve_meets sound coherent (.inl rfl) parts).mono ?_
      rintro ⟨x, v₁⟩ u ⟨rfl, resolved⟩
      have handles := resolved.handles
      dsimp only at handles ⊢
      rw [← handles] at closed ⊢
      split
      next bad =>
        have absent := solid.lookup_none sound resolved.value bad
        exact ⟨.refused (.noFile (.inr ⟨off, fh, rfl, closed⟩) absent), resolved.coherent⟩
      next valid =>
        have found := lookup_of_valid resolved.value valid
        rw [meets_bind]
        refine (truncateInode_meets sound (file x found) off).mono ?_
        rintro r w ⟨rfl, bytes, cut, rfl⟩
        exact ⟨.truncated (.inr ⟨closed, found⟩) (file x found) cut, resolved.coherent⟩

theorem sbFsync_meets (sound : t.Sound) {fh : Nat} (file : v.fdManager.OnFile t fh) (datasync : Int) :
    (v.sbFsync datasync fh).Meets service InodeReq.Allowed (fun ret u => u = t ∧
      VfsCall.Effect v.fdManager t (.fsync datasync fh) ret .nothing v.fdManager t) t := by
  rw [Vfs.sbFsync]
  split
  next closed => exact ⟨rfl, .refused (.notOpen (.inr (.inr ⟨datasync, rfl⟩)) closed)⟩
  next inode found =>
    obtain ⟨x, rfl, file⟩ := file _ found
    rw [Vfs.useInode, meets_bind, VfsProg.sync, meets_call]
    refine ⟨⟨sound, file⟩, ?_⟩
    rintro r u rfl
    cases r with
    | kFail => exact ⟨rfl, .refused (.notSynced found)⟩
    | kSuccess => exact ⟨rfl, .synced found⟩

/-! ## All of them -/

/-- Each call that the kernel makes, with its descriptor open on a file, keeps the tree sound and the path
cache right, and has one of its effects. -/
theorem VfsCall.body_meets {call : VfsCall} (sound : t.Sound) (solid : t.Solid) (coherent : Coherent v t.toNamespace)
    (files : ∀ fh, call.uses = some fh → v.fdManager.OnFile t fh) (issued : call.Issued t) :
    (call.body v).Meets service InodeReq.Allowed (fun a u =>
      (call.Effect v.fdManager t a.1 a.2.1 a.2.2.fdManager u ∧ Coherent a.2.2 u.toNamespace) ∧ u.Sound) t := by
  refine Meets.and_invariant (fun q t r u allowed answer => allowed.1.serve allowed.2 answer) ?_ sound
  have unbound : ∀ {cs c dir}, t.Dir cs dir → t.find dir c = none → t.lookup (cs ++ [c]) = none := by
    intro cs c dir parent absent
    rw [Namespace.lookup_concat, parent.1, Option.bind_some, absent]
  have valid : ∀ {cs dir}, t.Dir cs dir → dir.isValid = true := fun parent =>
    solid _ (sound.allocated parent.1)
  cases issued with
  | create mode parts parent absent =>
    rw [body, meets_bind]
    exact (sbCreate_meets sound coherent parts parent (valid parent) absent mode).and_ensures namespace_answers
      (sbCreate_ensures coherent parts (unbound parent absent) mode)
  | mkdir mode parts parent absent =>
    rw [body, meets_bind]
    exact (sbMkdir_meets sound coherent parts parent (valid parent) absent mode).and_ensures namespace_answers
      (sbMkdir_ensures coherent parts (unbound parent absent) mode)
  | unlink parts parent file =>
    rw [body, meets_bind]
    exact (sbUnlink_meets sound coherent parts parent (valid parent) file).and_ensures namespace_answers
      (sbUnlink_ensures coherent parts)
  | rmdir parts parent =>
    rw [body, meets_bind]
    exact (sbRmdir_meets sound coherent parts parent (valid parent)).and_ensures namespace_answers
      (sbRmdir_ensures coherent parts)
  | rename flags parts parts' parent parent' outside outside' =>
    rw [body, meets_bind]
    exact (sbRename_meets sound coherent parts parts' parent (valid parent) parent' flags outside outside').and_ensures
      namespace_answers (sbRename_ensures coherent parts parts' flags)
  | open' parts file =>
    rw [body, meets_bind]
    exact sbOpen_meets sound solid coherent parts file
  | release fh => exact ⟨.released fh, coherent.root, coherent.tree, coherent.cached⟩
  | read fh buf size offset =>
    rw [body, meets_bind]
    refine (sbRead_meets sound (files fh rfl) buf size offset).mono ?_
    rintro a u ⟨rfl, effect⟩
    exact ⟨effect, coherent⟩
  | write fh buf offset small =>
    rw [body, meets_bind]
    refine (sbWrite_meets sound (files fh rfl) buf offset small).mono ?_
    rintro a u ⟨effect, same⟩
    exact ⟨effect, same ▸ coherent⟩
  | truncate off fh parts file =>
    rw [body, meets_bind]
    exact sbTruncate_meets sound solid coherent (files fh rfl) parts file off
  | fsync datasync fh =>
    rw [body, meets_bind]
    refine (sbFsync_meets sound (files fh rfl) datasync).mono ?_
    rintro a u ⟨rfl, effect⟩
    exact ⟨effect, coherent⟩

end

end Sbfs
