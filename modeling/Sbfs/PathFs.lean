import Sbfs.Renames

/-! # The file system as a map from paths

The purpose of the whole: paths lead to directories and to files with bytes, and a descriptor is open on a path,
wherever renames take it.  Neither inodes nor the device occur.  The runs of the file system on trees are runs of
this one, as long as renames find room and removed or replaced files are not open (`TreeRun.paths`). -/

namespace Sbfs

open NamedTree FileTree

/-- What a path leads to. -/
inductive Node where
  | directory
  | file (bytes : List UInt8)

structure PathFs where
  node : List Name → Option Node
  handle : Nat → Option (List Name)

namespace PathFs

/-- The root alone. -/
def new : PathFs where
  node := Function.update (fun _ => none) [] (some .directory)
  handle _ := none

def setNode (fs : PathFs) (path : List Name) (node : Option Node) : PathFs :=
  { fs with node := Function.update fs.node path node }

def setHandle (fs : PathFs) (fh : Nat) (path : Option (List Name)) : PathFs :=
  { fs with handle := Function.update fs.handle fh path }

/-- What lies at and below `old` moves to `new`, or changes places with what lies there. -/
def rename (fs : PathFs) (old new : List Name) (exchange : Bool) : PathFs where
  node path :=
    if new <+: path then fs.node (old ++ path.drop new.length)
    else if old <+: path then if exchange = true then fs.node (new ++ path.drop old.length) else none
    else fs.node path
  handle fh := (fs.handle fh).map (relocate old new exchange)

/-- The number of names in a directory, with `.` and `..`. -/
noncomputable def size (fs : PathFs) (path : List Name) : ℕ∞ := {name | fs.node (path ++ [name]) ≠ none}.encard + 2

/-- The path of a descriptor, or else the path itself. -/
def Target (fs : PathFs) (path : List Name) (fi : Option Nat) (target : List Name) : Prop :=
  fi.bind fs.handle = some target ∨ fi.bind fs.handle = none ∧ path = target

/-- What `sb_getattr` reports. -/
structure Describes (fs : PathFs) (path : List Name) (st : Stat) : Prop where
  nlink : path ≠ [] → st.nlink = 1
  file : ∀ bytes, fs.node path = some (.file bytes) → st.size = bytes.length
  directory : fs.node path = some .directory → (st.size : ℕ∞) = 256 * fs.size path

/-- The errors of the callbacks, and when they are returned: `-ENOENT`, `-ENOTDIR`, `-ENOTEMPTY`, `-EINVAL`, `-EBADF`
and `-EIO`. -/
inductive Error (fs : PathFs) : Callback → Int → Prop
  | noNode {path : List Name} {cb : Callback}
      (names : cb = .vfs (.unlink (canonical path)) ∨ cb = .vfs (.rmdir (canonical path)) ∨
        (∃ newPath flags, cb = .vfs (.rename (canonical path) newPath flags)) ∨ cb = .vfs (.open' (canonical path)) ∨
        cb = .readdir (canonical path)) (absent : fs.node path = none) : Error fs cb (-2)
  | noTarget {path : List Name} {fi : Option Nat} {cb : Callback}
      (looks : (∃ off fh, fi = some fh ∧ cb = .vfs (.truncate (canonical path) off fh)) ∨
        cb = .getattr (canonical path) fi ∨ (∃ mode, cb = .chmod (canonical path) mode fi) ∨
        (∃ uid gid, cb = .chown (canonical path) uid gid fi) ∨ ∃ atime mtime, cb = .utimens (canonical path) atime mtime fi)
      (closed : fi.bind fs.handle = none) (absent : fs.node path = none) : Error fs cb (-2)
  | notDirectory {path : List Name} {bytes : List UInt8} {cb : Callback}
      (names : cb = .vfs (.rmdir (canonical path)) ∨ cb = .readdir (canonical path))
      (file : fs.node path = some (.file bytes)) : Error fs cb (-20)
  | notEmpty {path : List Name} {name : Name} (directory : fs.node path = some .directory)
      (entry : fs.node (path ++ [name]) ≠ none) : Error fs (.vfs (.rmdir (canonical path))) (-39)
  | tooLarge {cb : Callback}
      (large : (∃ fh buf size offset, cb = .vfs (.read fh buf size offset) ∧ 4294967295 < size) ∨
        ∃ path off fh, cb = .vfs (.truncate path off fh) ∧ 4294967295 < off) : Error fs cb (-22)
  | notOpen {fh : Nat} {cb : Callback}
      (uses : (∃ buf size offset, cb = .vfs (.read fh buf size offset)) ∨
        (∃ buf size offset, cb = .vfs (.write fh buf size offset)) ∨ ∃ datasync, cb = .vfs (.fsync datasync fh))
      (closed : fs.handle fh = none) : Error fs cb (-9)
  | notRead {fh size : Nat} {buf : Mem} {offset : Int} {path : List Name} {bytes : List UInt8}
      (held : fs.handle fh = some path) (file : fs.node path = some (.file bytes))
      (outside : size = 0 ∨ bytes.length ≤ uint32 offset ∨ 2147483648 ≤ uint32 offset + size) :
      Error fs (.vfs (.read fh buf size offset)) (-5)
  | notSynced {datasync : Int} {fh : Nat} {path : List Name} (held : fs.handle fh = some path) :
      Error fs (.vfs (.fsync datasync fh)) (-5)

/-- What a callback returns, hands out and does. -/
inductive Effect (fs : PathFs) : Callback → Int → Out → PathFs → Prop
  | created {cs : List Name} {c : Name} {mode : UInt16} {fh : Nat} (parent : fs.node cs = some .directory)
      (absent : fs.node (cs ++ [c]) = none) (fresh : fs.handle fh = none) :
      Effect fs (.vfs (.create (canonical (cs ++ [c])) mode)) 0 (.handle (some fh))
        ((fs.setNode (cs ++ [c]) (some (.file []))).setHandle fh (some (cs ++ [c])))
  | made {cs : List Name} {c : Name} {mode : UInt16} (parent : fs.node cs = some .directory)
      (absent : fs.node (cs ++ [c]) = none) :
      Effect fs (.vfs (.mkdir (canonical (cs ++ [c])) mode)) 0 .nothing (fs.setNode (cs ++ [c]) (some .directory))
  | unlinked {path : List Name} {bytes : List UInt8} (file : fs.node path = some (.file bytes)) :
      Effect fs (.vfs (.unlink (canonical path))) 0 .nothing (fs.setNode path none)
  | removed {path : List Name} (directory : fs.node path = some .directory) (nonempty : path ≠ [])
      (empty : ∀ name, fs.node (path ++ [name]) = none) :
      Effect fs (.vfs (.rmdir (canonical path))) 0 .nothing (fs.setNode path none)
  | renamed {old new : List Name} {flags : Nat} (source : fs.node old ≠ none)
      (target : if flags.testBit 1 = true then fs.node new ≠ none else fs.node new = none) :
      Effect fs (.vfs (.rename (canonical old) (canonical new) flags)) 0 .nothing
        (fs.rename old new (flags.testBit 1))
  | opened {path : List Name} {bytes : List UInt8} {fh : Nat} (file : fs.node path = some (.file bytes))
      (fresh : fs.handle fh = none) :
      Effect fs (.vfs (.open' (canonical path))) 0 (.handle (some fh)) (fs.setHandle fh (some path))
  | released (fh : Nat) : Effect fs (.vfs (.release fh)) 0 .nothing (fs.setHandle fh none)
  | bytesRead {fh size : Nat} {buf out : Mem} {offset ret : Int} {path : List Name} {bytes : List UInt8}
      (held : fs.handle fh = some path) (file : fs.node path = some (.file bytes))
      (reads : ReadsAs bytes (uint32 offset) buf size (ret, out)) :
      Effect fs (.vfs (.read fh buf size offset)) ret (.bytes out) fs
  | written {fh size : Nat} {buf : Mem} {offset ret : Int} {path : List Name} {bytes bytes' : List UInt8}
      (held : fs.handle fh = some path) (file : fs.node path = some (.file bytes))
      (writes : WritesAs bytes (uint32 offset) buf size ret bytes') :
      Effect fs (.vfs (.write fh buf size offset)) ret .nothing (fs.setNode path (some (.file bytes')))
  | truncated {cs path : List Name} {off : Int} {fh : Nat} {bytes bytes' : List UInt8}
      (target : fs.Target cs (some fh) path) (file : fs.node path = some (.file bytes))
      (cut : Cut bytes (uint32 off) bytes') :
      Effect fs (.vfs (.truncate (canonical cs) off fh)) 0 .nothing (fs.setNode path (some (.file bytes')))
  | synced {datasync : Int} {fh : Nat} {path : List Name} (held : fs.handle fh = some path) :
      Effect fs (.vfs (.fsync datasync fh)) 0 .nothing fs
  | reported {cs path : List Name} {fi : Option Nat} {st : Stat} (target : fs.Target cs fi path)
      (there : fs.node path ≠ none) (describes : fs.Describes path st) :
      Effect fs (.getattr (canonical cs) fi) 0 (.stat (some st)) fs
  | set {cb : Callback} {cs path : List Name} {fi : Option Nat}
      (sets : (∃ mode, cb = .chmod (canonical cs) mode fi) ∨ (∃ uid gid, cb = .chown (canonical cs) uid gid fi) ∨
        ∃ atime mtime, cb = .utimens (canonical cs) atime mtime fi)
      (target : fs.Target cs fi path) (there : fs.node path ≠ none) : Effect fs cb 0 .nothing fs
  | listed {path : List Name} {names : List Name} (directory : fs.node path = some .directory) (once : names.Nodup)
      (all : ∀ name, name ∈ names ↔ fs.node (path ++ [name]) ≠ none ∨ name = [46] ∨ name = [46, 46]) :
      Effect fs (.readdir (canonical path)) 0 (.names names) fs
  | refused {cb : Callback} {ret : Int} {out : Out} (error : fs.Error cb ret) : Effect fs cb ret out fs

end PathFs

/-- The runs of the callbacks on a map from paths. -/
inductive PathRun (fs₀ : PathFs) : List Event → PathFs → Prop
  | start : PathRun fs₀ [] fs₀
  | step {events : List Event} {e : Event} {fs fs' : PathFs} (before : PathRun fs₀ events fs)
      (effect : fs.Effect e.callback e.ret e.out fs') : PathRun fs₀ (events ++ [e]) fs'

/-! ## The view of a tree -/

def FileTree.nodeOf (t : FileTree) (x : Position) : Option Node :=
  (t.kind x).map fun type => if type = kDirectory then .directory else .file (t.content x)

/-- The map says where the paths of the tree lead, and on which of them the descriptors are open. -/
structure Views (m : FDManager) (t : FileTree) (fs : PathFs) : Prop where
  node : ∀ path, fs.node path = (t.lookup path).bind t.nodeOf
  handle : ∀ fh path, fs.handle fh = some path ↔ ∃ x, m.get fh = some (some x) ∧ t.lookup path = some x

/-- The entries of a directory that no path goes through are `.` and `..`. -/
def FileTree.Dotted (t : FileTree) : Prop :=
  ∀ x, t.kind x = some kDirectory → ∀ name, t.dots x name ≠ none ↔ name = [46] ∨ name = [46, 46]

/-- What holds as long as the callbacks are tidy and spare open files. -/
structure Orderly (m : FDManager) (t : FileTree) : Prop where
  sound : t.Sound
  rooted : t.Rooted
  dotted : t.Dotted
  typed : ∀ x type, t.kind x = some type → type = kFile ∨ type = kDirectory
  files : m.OnFiles t

section

variable {t t' u : FileTree} {m m' : FDManager} {fs : PathFs} {dir x y : Position} {c name : Name}
  {cs path : List Name} {type : DiskInodeType} {cb : Callback} {ret : Int} {out : Out} {fh : Nat}

/-! ### Nodes -/

theorem nodeOf_directory (isDir : t.kind x = some kDirectory) : t.nodeOf x = some .directory := by
  rw [FileTree.nodeOf, isDir, Option.map_some, if_pos rfl]

theorem nodeOf_file (kind : t.kind x = some type) (file : type ≠ kDirectory) :
    t.nodeOf x = some (.file (t.content x)) := by
  rw [FileTree.nodeOf, kind, Option.map_some, if_neg file]

theorem nodeOf_none : t.nodeOf x = none ↔ t.kind x = none := Option.map_eq_none_iff

theorem nodeOf_congr (kind : u.kind x = t.kind x) (content : u.content x = t.content x) : u.nodeOf x = t.nodeOf x := by
  rw [FileTree.nodeOf, FileTree.nodeOf, kind, content]

namespace Views

theorem found (views : Views m t fs) (found : t.lookup path = some x) : fs.node path = t.nodeOf x := by
  rw [views.node, found, Option.bind_some]

/-- A path that leads nowhere has no node, and only such. -/
theorem absent (views : Views m t fs) (sound : t.Sound) : fs.node path = none ↔ t.lookup path = none := by
  rw [views.node]
  cases here : t.lookup path with
  | none => exact iff_of_true rfl rfl
  | some x => exact iff_of_false (fun none => sound.allocated here (nodeOf_none.mp none)) (Option.some_ne_none x)

theorem absent_name (views : Views m t fs) (sound : t.Sound) (parent : t.Dir cs dir) (absent : t.find dir c = none) :
    fs.node (cs ++ [c]) = none := by
  rw [views.absent sound, Namespace.lookup_concat, parent.1]
  exact absent

theorem directory (views : Views m t fs) (parent : t.Dir cs dir) : fs.node cs = some .directory :=
  (views.found parent.1).trans (nodeOf_directory parent.2)

end Views

/-! ### Paths -/

/-- A new inode has one path, and no path but this one changes. -/
theorem lookup_create_eq (sound : t.Sound) (parent : t.Dir cs dir) (absent : t.find dir c = none)
    (unused : t.kind x = none) (type : DiskInodeType) (path : List Name) :
    (t.create dir c type x).lookup path = if path = cs ++ [c] then some x else t.lookup path := by
  have loose := sound.loose unused
  have childless := sound.no_entries (x := x) (by rw [unused]; exact Option.some_ne_none _ ∘ Eq.symm)
  have apart : x ≠ dir := by
    rintro rfl
    rw [parent.2] at unused
    cases unused
  have edges : ∀ m k, ¬ (m = dir ∧ k = c) → (t.create dir c type x).find m k = t.find m k := by
    intro m k other
    refine (setEdge_ne _ other).trans ?_
    by_cases new : m = x
    · rw [new, childless]
      simp [clearNode]
    · exact clearNode_ne new
  have top : (t.create dir c type x).lookup (cs ++ [c]) = some x :=
    lookup_step (Namespace.lookup_create absent loose parent.1) (setEdge_same _)
  by_cases below : cs ++ [c] <+: path
  · obtain ⟨rest, rfl⟩ := below
    cases rest with
    | nil => rw [List.append_nil, if_pos rfl, top]
    | cons l rest =>
      rw [if_neg (by simp), lookup_stop top ((edges x l fun is => apart is.1).trans (childless l)), List.append_assoc,
        List.singleton_append, lookup_stop parent.1 absent]
  · rw [if_neg fun same : path = cs ++ [c] => below (same ▸ List.prefix_rfl)]
    refine sound.tree.walk_off fun m k changed => ?_
    by_cases entry : m = dir ∧ k = c
    · obtain ⟨rfl, rfl⟩ := entry
      exact ⟨cs, parent.1, below⟩
    · exact absurd (edges m k entry) changed

/-- An inode without entries that is removed takes one path with it. -/
theorem lookup_remove_eq (sound : t.Sound) (parent : t.Dir cs dir) (found : t.find dir c = some x)
    (empty : ∀ name, t.find x name = none) (path : List Name) :
    ((t.setEntry dir c none).free x).lookup path = if path = cs ++ [c] then none else t.lookup path := by
  have top : ((t.setEntry dir c none).free x).lookup (cs ++ [c]) = none := by
    rw [Namespace.lookup_concat]
    refine Option.bind_eq_none_iff.mpr fun y here => ?_
    have same : y = dir := by
      have kept : ((t.setEntry dir c none).free x).lookup cs = some dir :=
        lookup_remove sound parent found empty parent.1 (sound.other parent.1 found).symm
      exact Option.some.inj (here.symm.trans kept)
    exact same ▸ setEdge_same _
  by_cases same : path = cs ++ [c]
  · rw [if_pos same, same, top]
  · rw [if_neg same]
    cases there : t.lookup path with
    | some y =>
      refine lookup_remove sound parent found empty there fun is => same ?_
      exact sound.tree.path_unique (is ▸ there) (lookup_step parent.1 found)
    | none =>
      by_cases below : cs ++ [c] <+: path
      · obtain ⟨rest, rfl⟩ := below
        exact lookup_below top rest
      · refine (sound.tree.walk_off fun m k changed => ?_).trans there
        by_cases entry : m = dir ∧ k = c
        · obtain ⟨rfl, rfl⟩ := entry
          exact ⟨cs, parent.1, below⟩
        · exact absurd (setEdge_ne _ entry) changed

/-! ### Invariants -/

theorem update_some {f : Position → Option DiskInodeType} {type' : DiskInodeType}
    (kind : Function.update f x (some type) y = some type') : type = type' ∨ f y = some type' := by
  rw [Function.update_apply] at kind
  split at kind
  · exact .inl (Option.some.inj kind)
  · exact .inr kind

theorem dotsOf_ne_none : dotsOf x dir name ≠ none ↔ name = [46] ∨ name = [46, 46] := by
  rw [dotsOf]
  split
  next one => exact iff_of_true (Option.some_ne_none _) (.inl one)
  next other =>
    split
    next two => exact iff_of_true (Option.some_ne_none _) (.inr two)
    next other' => exact iff_of_false (fun none => none rfl) (not_or_intro other other')

theorem FileTree.Dotted.create (dotted : t.Dotted) : (t.create dir c type x).Dotted := by
  intro y isDir name
  by_cases new : y = x
  · subst new
    have made : (t.create dir c type y).kind y = some type := Function.update_self y _ t.kind
    obtain rfl : type = kDirectory := Option.some.inj (made.symm.trans isDir)
    have dots : (t.create dir c kDirectory y).dots y = dotsOf y dir :=
      (Function.update_self y _ t.dots).trans (if_pos rfl)
    rw [dots, dotsOf_ne_none]
  · have old : (t.create dir c type x).dots y = t.dots y := Function.update_of_ne new _ t.dots
    rw [old]
    exact dotted y ((Function.update_of_ne new _ t.kind).symm.trans isDir) name

/-- Tidy callbacks that spare the open files keep the order. -/
theorem Orderly.after (orderly : Orderly m t) (tidy : cb.Tidy t) (spares : cb.SparesOpen m t)
    (effect : cb.Effect m t ret out m' t') : Orderly m' t' := by
  refine ⟨effect.sound orderly.sound, effect.rooted orderly.sound orderly.rooted tidy, ?_, ?_,
    orderly.files.after spares effect⟩
  case refine_1 =>
    have dotted := orderly.dotted
    cases effect with
    | reported => exact dotted
    | set => exact dotted
    | listed => exact dotted
    | refused => exact dotted
    | vfs effect =>
      cases effect with
      | created => exact dotted.create
      | made => exact dotted.create
      | @removed _ c dir x =>
        intro y isDir
        have ne : y ≠ x := by
          rintro rfl
          exact Option.some_ne_none _ (isDir.symm.trans (Function.update_self ..))
        have old : ((t.setEntry dir c none).free x).dots y = t.dots y := Function.update_of_ne ne _ t.dots
        rw [old]
        exact dotted y ((Function.update_of_ne ne _ t.kind).symm.trans isDir)
      | renamed _ _ _ _ _ _ _ moves =>
        intro y isDir
        rw [moves.dots]
        exact dotted y (moves.kind ▸ isDir)
      | _ => exact dotted
  case refine_2 =>
    have typed := orderly.typed
    -- the inodes that are made are files and directories
    have made : ∀ {x : Position} {type : DiskInodeType}, type = kFile ∨ type = kDirectory →
        ∀ y type', Function.update t.kind x (some type) y = some type' → type' = kFile ∨ type' = kDirectory := by
      intro x type new y type' kind
      obtain same | old := update_some kind
      · exact same ▸ new
      · exact typed y type' old
    cases effect with
    | reported => exact typed
    | set => exact typed
    | listed => exact typed
    | refused => exact typed
    | vfs effect =>
      cases effect with
      | created => exact made (.inl rfl)
      | made => exact made (.inr rfl)
      | @removed _ _ _ x =>
        intro y type kind
        have ne : y ≠ x := by
          rintro rfl
          exact Option.some_ne_none _ (kind.symm.trans (Function.update_self ..))
        exact typed y type ((Function.update_of_ne ne _ t.kind).symm.trans kind)
      | renamed _ _ _ _ _ _ _ moves => exact moves.kind ▸ typed
      | _ => exact typed

/-! ## Descriptors -/

/-- The counter is ahead of the descriptors, and has not wrapped around after `n` calls. -/
structure FDManager.Fresh (m : FDManager) (n : Nat) : Prop where
  positive : 0 < m.fdCounter
  few : m.fdCounter ≤ 10 + n
  ahead : ∀ fd, m.fdCounter ≤ fd → m.fdManager fd = none

namespace FDManager.Fresh

variable {n : Nat} {inode : Option Position}

theorem get_counter (fresh : m.Fresh n) : m.get m.fdCounter = none := by
  rw [FDManager.get, if_neg fresh.positive.ne', fresh.ahead _ le_rfl]

theorem get_open' (fresh : m.Fresh n) (fh : Nat) :
    (m.open' inode).2.get fh = if fh = m.fdCounter then some inode else m.get fh := by
  have free := fresh.ahead _ le_rfl
  simp only [FDManager.get, FDManager.open', FDManager.deltaRefCnt_fdManager, free, Function.update_apply]
  by_cases same : fh = m.fdCounter
  · rw [if_pos same, if_pos same, if_neg (same ▸ fresh.positive.ne')]
  · rw [if_neg same, if_neg same]

theorem open' (fresh : m.Fresh n) (small : n + 1 < 18446744073709551606) : (m.open' inode).2.Fresh (n + 1) := by
  have free := fresh.ahead _ le_rfl
  have few := fresh.few
  have counter : (m.open' inode).2.fdCounter = m.fdCounter + 1 := by
    rw [FDManager.open', FDManager.deltaRefCnt_fdCounter]
    exact Nat.mod_eq_of_lt (by omega)
  refine ⟨by rw [counter]; exact Nat.succ_pos _, by rw [counter]; omega, fun fd ahead => ?_⟩
  rw [counter] at ahead
  simp only [FDManager.open', FDManager.deltaRefCnt_fdManager, free]
  rw [Function.update_of_ne (by omega)]
  exact fresh.ahead fd (by omega)

theorem close (fresh : m.Fresh n) (fh : Nat) : (m.close fh).Fresh n := by
  rw [FDManager.close]
  split
  · exact fresh
  · split
    · exact fresh
    · refine ⟨?_, ?_, fun fd ahead => ?_⟩
      · rw [FDManager.deltaRefCnt_fdCounter]; exact fresh.positive
      · rw [FDManager.deltaRefCnt_fdCounter]; exact fresh.few
      · rw [FDManager.deltaRefCnt_fdCounter] at ahead
        change Function.update m.fdManager fh none fd = none
        rw [Function.update_apply]
        split
        · rfl
        · exact fresh.ahead fd ahead

theorem mono (fresh : m.Fresh n) : m.Fresh (n + 1) := ⟨fresh.positive, fresh.few.trans (by omega), fresh.ahead⟩

theorem after (fresh : m.Fresh n) (small : n + 1 < 18446744073709551606) (effect : cb.Effect m t ret out m' t') :
    m'.Fresh (n + 1) := by
  cases effect with
  | reported => exact fresh.mono
  | set => exact fresh.mono
  | listed => exact fresh.mono
  | refused => exact fresh.mono
  | vfs effect =>
    cases effect with
    | created => exact fresh.open' small
    | opened => exact fresh.open' small
    | released fh => exact (fresh.close fh).mono
    | _ => exact fresh.mono

end FDManager.Fresh

/-! ## Steps -/

namespace Views

/-- Where the handles of files are after a step that opens and closes none. -/
theorem handles (views : Views m t fs) (orderly : Orderly m t) (sound' : t'.Sound) {g : List Name → List Name}
    (keeps : ∀ {path x fh}, m.get fh = some (some x) → t.lookup path = some x → t'.lookup (g path) = some x)
    (fh : Nat) (path' : List Name) :
    (fs.handle fh).map g = some path' ↔ ∃ x, m.get fh = some (some x) ∧ t'.lookup path' = some x := by
  constructor
  · intro held
    obtain ⟨path, was, rfl⟩ := Option.map_eq_some_iff.mp held
    obtain ⟨x, got, found⟩ := (views.handle fh path).mp was
    exact ⟨x, got, keeps got found⟩
  · rintro ⟨x, got, found'⟩
    obtain ⟨y, same, file⟩ := orderly.files fh _ got
    cases same
    obtain ⟨path, found⟩ := orderly.rooted x (by rw [file]; exact Option.some_ne_none _)
    rw [(views.handle fh path).mpr ⟨x, got, found⟩, Option.map_some]
    exact congrArg some (sound'.tree.path_unique (keeps got found) found')

theorem handles_kept (views : Views m t fs) (orderly : Orderly m t) (sound' : t'.Sound)
    (keeps : ∀ {path x fh}, m.get fh = some (some x) → t.lookup path = some x → t'.lookup path = some x) (fh : Nat)
    (path : List Name) : fs.handle fh = some path ↔ ∃ x, m.get fh = some (some x) ∧ t'.lookup path = some x := by
  rw [← views.handles orderly sound' (g := id) keeps, Option.map_id, id_eq]

/-- A new handle is on the path of its inode. -/
theorem handles_open {n : Nat} (fresh : m.Fresh n) (sound : t.Sound) (found : t.lookup path = some x)
    (old : ∀ fh path, fs.handle fh = some path ↔ ∃ x, m.get fh = some (some x) ∧ t.lookup path = some x) (fh : Nat)
    (path' : List Name) : (fs.setHandle m.fdCounter (some path)).handle fh = some path' ↔
      ∃ y, (m.open' (some x)).2.get fh = some (some y) ∧ t.lookup path' = some y := by
  change Function.update fs.handle m.fdCounter (some path) fh = _ ↔ _
  rw [fresh.get_open', Function.update_apply]
  split
  next =>
    constructor
    · intro same
      cases same
      exact ⟨x, rfl, found⟩
    · rintro ⟨y, same, found'⟩
      cases same
      exact congrArg some (sound.tree.path_unique found found')
  next => exact old fh path'

/-- The path of an inode behind a handle. -/
theorem held (views : Views m t fs) (orderly : Orderly m t) (got : m.get fh = some (some x)) :
    ∃ path, t.lookup path = some x ∧ fs.handle fh = some path ∧ t.kind x = some kFile ∧
      fs.node path = some (.file (t.content x)) := by
  obtain ⟨y, same, file⟩ := orderly.files fh _ got
  cases same
  obtain ⟨path, found⟩ := orderly.rooted x (by rw [file]; exact Option.some_ne_none _)
  exact ⟨path, found, (views.handle fh path).mpr ⟨x, got, found⟩, file,
    (views.found found).trans (nodeOf_file file (by decide))⟩

theorem handle_none (views : Views m t fs) (shut : m.get fh = none) : fs.handle fh = none := by
  refine Option.eq_none_iff_forall_ne_some.mpr fun path held => ?_
  obtain ⟨y, got, -⟩ := (views.handle fh path).mp held
  exact Option.some_ne_none _ (got.symm.trans shut)

theorem handle_bind_none (views : Views m t fs) {fi : Option Nat} (shut : fi.bind m.get = none) :
    fi.bind fs.handle = none := by
  cases fi with
  | none => rfl
  | some fh => exact views.handle_none shut

/-- The node of the inode that a callback has for a target. -/
theorem target (views : Views m t fs) (orderly : Orderly m t) {fi : Option Nat} (target : t.Target m cs fi x) :
    ∃ path, fs.Target cs fi path ∧ t.lookup path = some x := by
  obtain held | ⟨closed, found⟩ := target
  · cases fi with
    | none => cases held
    | some fh =>
      obtain ⟨path, found, handle, -⟩ := views.held orderly held
      exact ⟨path, .inl handle, found⟩
  · exact ⟨cs, .inr ⟨views.handle_bind_none closed, rfl⟩, found⟩

theorem setContent (views : Views m t fs) (orderly : Orderly m t) (found : t.lookup path = some x)
    (file : t.kind x = some kFile) (bytes : List UInt8) :
    Views m (t.setContent x bytes) (fs.setNode path (some (.file bytes))) := by
  constructor
  case node =>
    intro path'
    change Function.update fs.node path _ path' = (t.lookup path').bind _
    rw [Function.update_apply]
    split
    next same =>
      rw [same, found, Option.bind_some, nodeOf_file (t := t.setContent x bytes) file (by decide), setContent_self]
    next other =>
      rw [views.node]
      cases there : t.lookup path' with
      | none => rfl
      | some y =>
        have ne : y ≠ x := by
          rintro rfl
          exact other (orderly.sound.tree.path_unique there found)
        exact (nodeOf_congr (t := t) (u := t.setContent x bytes) (x := y) rfl (t.setContent_ne ne bytes)).symm
  case handle => exact views.handle

theorem describes (views : Views m t fs) (orderly : Orderly m t) (found : t.lookup path = some x) {st : Stat}
    (describes : t.Describes x st) : fs.Describes path st := by
  have here := views.found found
  constructor
  case nlink =>
    intro nonempty
    rw [describes.nlink]
    cases path using List.reverseRecOn with
    | nil => exact absurd rfl nonempty
    | append_singleton cs c =>
      rw [Namespace.lookup_concat] at found
      obtain ⟨dir, -, edge⟩ := Option.bind_eq_some_iff.mp found
      exact orderly.sound.links edge
  case file =>
    intro bytes file
    rw [file] at here
    cases kind : t.kind x with
    | none => exact absurd kind (orderly.sound.allocated found)
    | some type =>
      obtain rfl | rfl := orderly.typed x type kind
      · rw [nodeOf_file kind (by decide)] at here
        cases here
        exact describes.file kind
      · rw [nodeOf_directory kind] at here
        cases here
  case directory =>
    intro directory
    rw [directory] at here
    cases kind : t.kind x with
    | none => exact absurd kind (orderly.sound.allocated found)
    | some type =>
      obtain rfl | rfl := orderly.typed x type kind
      · rw [nodeOf_file kind (by decide)] at here
        cases here
      · have entries : {name | t.find x name ≠ none} = {name | fs.node (path ++ [name]) ≠ none} := by
          ext name
          rw [Set.mem_ofPred_eq, Set.mem_ofPred_eq, ne_eq, ne_eq, views.absent orderly.sound, Namespace.lookup_concat,
            found]
          rfl
        have dots : {name | t.dots x name ≠ none} = {[46], [46, 46]} := by
          ext name
          exact orderly.dotted x kind name
        rw [describes.directory kind, FileTree.size, PathFs.size, entries, dots, Set.encard_pair (by decide)]

theorem create (views : Views m t fs) (sound : t.Sound) (parent : t.Dir cs dir) (absent : t.find dir c = none)
    (unused : t.kind x = none) {node : Node} (new : (t.create dir c type x).nodeOf x = some node) (path : List Name) :
    (fs.setNode (cs ++ [c]) (some node)).node path =
      ((t.create dir c type x).lookup path).bind (t.create dir c type x).nodeOf := by
  change Function.update fs.node (cs ++ [c]) _ path = _
  rw [Function.update_apply, lookup_create_eq sound parent absent unused]
  split
  · rw [Option.bind_some, new]
  · rw [views.node]
    cases there : t.lookup path with
    | none => rfl
    | some y =>
      have ne : y ≠ x := by
        rintro rfl
        exact sound.allocated there unused
      exact (nodeOf_congr (Function.update_of_ne ne _ t.kind) (Function.update_of_ne ne _ t.content)).symm

/-- A callback that returns an error returns it on the map of paths. -/
theorem error (views : Views m t fs) (orderly : Orderly m t) (error : cb.Error m t ret) : fs.Error cb ret := by
  have sound := orderly.sound
  have gone : ∀ {cs}, t.lookup cs = none → fs.node cs = none := fun absent => (views.absent sound).mpr absent
  have file : ∀ {path x}, t.lookup path = some x → t.kind x ≠ some kDirectory →
      ∃ bytes, fs.node path = some (.file bytes) := by
    intro path x found other
    obtain ⟨type, kind⟩ := Option.ne_none_iff_exists'.mp (sound.allocated found)
    exact ⟨_, (views.found found).trans (nodeOf_file kind fun same => other (kind.trans (congrArg some same)))⟩
  cases error with
  | noInode looks closed absent => exact .noTarget (.inr looks) (views.handle_bind_none closed) (gone absent)
  | noDirectory absent => exact .noNode (.inr (.inr (.inr (.inr rfl)))) (gone absent)
  | notListed found other =>
    obtain ⟨bytes, node⟩ := file found other
    exact .notDirectory (.inr rfl) node
  | vfs error =>
    cases error with
    | noName names _ parent absent =>
      refine .noNode ?_ (views.absent_name sound parent absent)
      rcases names with rfl | rfl | ⟨newPath, flags, rfl⟩
      · exact .inl rfl
      · exact .inr (.inl rfl)
      · exact .inr (.inr (.inl ⟨newPath, flags, rfl⟩))
    | noFile names absent =>
      rcases names with rfl | ⟨off, fh, rfl, closed⟩
      · exact .noNode (.inr (.inr (.inr (.inl rfl)))) (gone absent)
      · exact .noTarget (.inl ⟨off, fh, rfl, rfl⟩) (views.handle_none closed) (gone absent)
    | notDirectory parent found other =>
      obtain ⟨bytes, node⟩ := file (lookup_step parent.1 found) other
      exact .notDirectory (.inl rfl) node
    | @notEmpty cs c _ x parent found isDir names =>
      have here := lookup_step parent.1 found
      obtain ⟨name, bound⟩ | none := names
      · have entry : fs.node (cs ++ [c] ++ [name]) ≠ none := by
          rw [ne_eq, views.absent sound, Namespace.lookup_concat, here]
          exact bound
        exact .notEmpty (views.directory ⟨here, isDir⟩) entry
      · exact absurd (none [46]) ((orderly.dotted x isDir [46]).mpr (.inl rfl))
    | tooLarge large =>
      rcases large with ⟨fh, buf, size, offset, rfl, large⟩ | ⟨path, off, fh, rfl, large⟩
      · exact .tooLarge (.inl ⟨fh, buf, size, offset, rfl, large⟩)
      · exact .tooLarge (.inr ⟨path, off, fh, rfl, large⟩)
    | notOpen uses closed =>
      refine .notOpen ?_ (views.handle_none closed)
      rcases uses with ⟨buf, size, offset, rfl⟩ | ⟨buf, size, offset, rfl⟩ | ⟨datasync, rfl⟩
      · exact .inl ⟨buf, size, offset, rfl⟩
      · exact .inr (.inl ⟨buf, size, offset, rfl⟩)
      · exact .inr (.inr ⟨datasync, rfl⟩)
    | notRead held outside =>
      obtain ⟨path, -, handle, -, node⟩ := views.held orderly held
      exact .notRead handle node outside
    | notSynced held =>
      obtain ⟨path, -, handle, -⟩ := views.held orderly held
      exact .notSynced handle

/-- A callback does to the map of paths what it does to the tree. -/
theorem step {n : Nat} (views : Views m t fs) (orderly : Orderly m t) (fresh : m.Fresh n) (tidy : cb.Tidy t)
    (spares : cb.SparesOpen m t) (effect : cb.Effect m t ret out m' t') :
    ∃ fs', fs.Effect cb ret out fs' ∧ Views m' t' fs' := by
  have sound := orderly.sound
  have orderly' := orderly.after tidy spares effect
  cases effect with
  | reported target describes =>
    obtain ⟨path, target', found⟩ := views.target orderly target
    have there : fs.node path ≠ none := by
      rw [ne_eq, views.absent sound, found]
      exact Option.some_ne_none _
    exact ⟨fs, .reported target' there (views.describes orderly found describes), views⟩
  | set sets target =>
    obtain ⟨path, target', found⟩ := views.target orderly target
    have there : fs.node path ≠ none := by
      rw [ne_eq, views.absent sound, found]
      exact Option.some_ne_none _
    exact ⟨fs, .set sets target' there, views⟩
  | @listed cs x names found isDir once all =>
    refine ⟨fs, .listed (views.directory ⟨found, isDir⟩) once fun name => ?_, views⟩
    rw [all, ne_eq, ne_eq (fs.node _), views.absent sound, Namespace.lookup_concat, found, Option.bind_some]
    exact or_congr_right (orderly.dotted x isDir name)
  | refused error => exact ⟨fs, .refused (views.error orderly error), views⟩
  | vfs effect =>
    cases effect with
    -- `create`, `mkdir`: every old path leads where it led, and the new one to the new inode
    | @created cs c dir inode mode parent absent unused =>
      have made : (t.create dir c kFile inode).nodeOf inode = some (.file []) := by
        rw [nodeOf_file (Function.update_self inode _ t.kind) (by decide)]
        exact congrArg (fun bytes => some (Node.file bytes)) (Function.update_self inode _ t.content)
      have lookups := lookup_create_eq sound parent absent unused kFile
      have old := views.handles_kept orderly orderly'.sound fun _ found =>
        Namespace.lookup_create absent (sound.loose unused) found
      refine ⟨_, .created (views.directory parent) (views.absent_name sound parent absent)
        (views.handle_none fresh.get_counter), ?_, ?_⟩
      · exact views.create sound parent absent unused made
      · exact handles_open fresh orderly'.sound ((lookups _).trans (if_pos rfl)) old
    | @made cs c dir inode mode parent absent unused =>
      have made : (t.create dir c kDirectory inode).nodeOf inode = some .directory :=
        nodeOf_directory (Function.update_self inode _ t.kind)
      refine ⟨_, .made (views.directory parent) (views.absent_name sound parent absent), ?_, ?_⟩
      · exact views.create sound parent absent unused made
      · exact views.handles_kept orderly orderly'.sound fun _ found =>
          Namespace.lookup_create absent (sound.loose unused) found
    -- `unlink`, `rmdir`: in a tree no other path leads to the inode
    | @removed cs c dir x call removal parts parent found empty =>
      have here := lookup_step parent.1 found
      have lookups := lookup_remove_eq sound parent found empty
      have node : ∀ path, (fs.setNode (cs ++ [c]) none).node path =
          (((t.setEntry dir c none).free x).lookup path).bind ((t.setEntry dir c none).free x).nodeOf := by
        intro path
        change Function.update fs.node (cs ++ [c]) none path = _
        rw [Function.update_apply, lookups]
        split
        · rfl
        next other =>
          rw [views.node]
          cases there : t.lookup path with
          | none => rfl
          | some y =>
            have ne : y ≠ x := by
              rintro rfl
              exact other (sound.tree.path_unique there here)
            exact (nodeOf_congr (t := t) (x := y) (Function.update_of_ne ne _ t.kind)
              (Function.update_of_ne ne _ t.content)).symm
      have handle := views.handles_kept orderly orderly'.sound fun {path y fh} got there => by
        -- the removed file is not open, so that no handle is on its path
        have ne : path ≠ cs ++ [c] := by
          rintro rfl
          obtain rfl : x = y := Option.some.inj (here.symm.trans there)
          obtain ⟨z, same, file'⟩ := orderly'.files fh _ got
          cases same
          exact Option.some_ne_none _ (file'.symm.trans (Function.update_self ..))
        exact (lookups path).trans ((if_neg ne).trans there)
      rcases removal with ⟨rfl, file⟩ | ⟨rfl, isDir⟩
      · cases kind : t.kind x with
        | none => exact absurd kind (sound.target found)
        | some type =>
          have file' : type ≠ kDirectory := fun same => file (kind.trans (congrArg some same))
          exact ⟨_, .unlinked ((views.found here).trans (nodeOf_file kind file')), node, handle⟩
      · refine ⟨_, .removed (views.directory ⟨here, isDir⟩) (by simp) fun name => ?_, node, handle⟩
        rw [views.absent sound, Namespace.lookup_concat, here]
        exact empty name
    -- `rename`: the paths below both names are the three cases of `Relocated`
    | @renamed cs ds c d dir dir' x flags u parts parts' parent parent' found outside outside' moves =>
      obtain ⟨small, small', free⟩ := tidy _ _ _ _ _ _ _ rfl parts parts' parent parent'
      obtain ⟨moved, paths⟩ := moves.tidy sound parent parent' found outside outside' small small' free
      have absent : flags.testBit 1 = false → t.lookup (ds ++ [d]) = none := by
        intro plain
        rw [Namespace.lookup_concat, parent'.1]
        exact free plain
      have same : ∀ y, t'.nodeOf y = t.nodeOf y := fun y =>
        nodeOf_congr (congrFun moved.kind y) (congrFun moved.content y)
      refine ⟨_, .renamed ?_ ?_, ?_, ?_⟩
      case refine_1 =>
        rw [ne_eq, views.absent sound, lookup_step parent.1 found]
        exact Option.some_ne_none x
      case refine_2 =>
        split
        next exchange =>
          obtain ⟨y, target⟩ := moves.target exchange
          rw [ne_eq, views.absent sound, lookup_step parent'.1 (setEdge_none_sub _ _ _ target)]
          exact Option.some_ne_none y
        next plain => exact (views.absent sound).mpr (absent (Bool.eq_false_of_not_eq_true plain))
      case refine_3 =>
        intro path
        rw [PathFs.rename, funext same]
        dsimp only
        split
        next below =>
          obtain ⟨rest, rfl⟩ := below
          rw [List.drop_left, paths.moved, views.node]
        next off' =>
          split
          next below =>
            obtain ⟨rest, rfl⟩ := below
            rw [List.drop_left, paths.vacated]
            split
            · rw [views.node]
            · rfl
          next off => rw [paths.elsewhere path off off', views.node]
      case refine_4 =>
        exact views.handles orderly orderly'.sound fun _ there => paths.relocate absent there
    | opened found file =>
      refine ⟨_, .opened ((views.found found).trans (nodeOf_file file (by decide)))
        (views.handle_none fresh.get_counter), views.node, ?_⟩
      exact handles_open fresh sound found views.handle
    | released fh =>
      refine ⟨_, .released fh, views.node, fun fh' path => ?_⟩
      change Function.update fs.handle fh none fh' = _ ↔ _
      -- the handle is closed, and the others stay
      simp only [FDManager.get_close]
      rw [Function.update_apply]
      split
      next same =>
        refine iff_of_false (fun none => by cases none) ?_
        rintro ⟨x, ⟨-, other⟩, -⟩
        exact other same
      next other => simp only [ne_eq, other, not_false_eq_true, and_true, views.handle]
    | bytesRead got reads =>
      obtain ⟨path, -, handle, -, file⟩ := views.held orderly got
      exact ⟨fs, .bytesRead handle file reads, views⟩
    | written got writes =>
      obtain ⟨path, found, handle, kind, file⟩ := views.held orderly got
      exact ⟨_, .written handle file writes, views.setContent orderly found kind _⟩
    | @truncated cs off fh x bytes target kind cut =>
      obtain ⟨path, target', found⟩ := views.target orderly (show t.Target m cs (some fh) x from target)
      exact ⟨_, .truncated target' ((views.found found).trans (nodeOf_file kind (by decide))) cut,
        views.setContent orderly found kind _⟩
    | synced held =>
      obtain ⟨path, -, handle, -⟩ := views.held orderly held
      exact ⟨fs, .synced handle, views⟩
    | refused error => exact ⟨fs, .refused (views.error orderly (.vfs error)), views⟩

end Views

/-! ## Runs -/

/-- The counter of the descriptors is ahead of those that are open. -/
theorem TreeRun.fresh {P : FDManager → FileTree → Callback → Prop} {m₀ : FDManager} {t₀ : FileTree}
    {events : List Event} (fresh : m₀.Fresh 0) (few : events.length < 18446744073709551606)
    (run : TreeRun P m₀ t₀ events m t) : m.Fresh events.length := by
  induction run with
  | start => exact fresh
  | step _ _ _ effect ih =>
    rw [List.length_append, List.length_singleton] at few ⊢
    exact (ih (by omega)).after few effect

/-- A run of the file system on trees is one of the file system on paths. -/
theorem TreeRun.paths {P : FDManager → FileTree → Callback → Prop} {m₀ : FDManager} {t₀ : FileTree} {fs₀ : PathFs}
    {events : List Event} (orderly : Orderly m₀ t₀) (views : Views m₀ t₀ fs₀) (fresh : m₀.Fresh 0)
    (tidy : ∀ m t cb, P m t cb → cb.Tidy t) (spares : ∀ m t cb, P m t cb → cb.SparesOpen m t)
    (few : events.length < 18446744073709551606) (run : TreeRun P m₀ t₀ events m t) :
    Orderly m t ∧ ∃ fs, PathRun fs₀ events fs ∧ Views m t fs := by
  induction run with
  | start => exact ⟨orderly, fs₀, .start, views⟩
  | @step events e _ _ _ _ before _ meets effect ih =>
    rw [List.length_append, List.length_singleton] at few
    obtain ⟨orderly, fs, run, views⟩ := ih (by omega)
    have neat := tidy _ _ _ meets
    have spared := spares _ _ _ meets
    obtain ⟨fs', step, views'⟩ := views.step orderly (before.fresh fresh (by omega)) neat spared effect
    exact ⟨orderly.after neat spared effect, fs', run.step step, views'⟩

end

end Sbfs
