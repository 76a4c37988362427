import Sbfs.DiskSteps
import Sbfs.TreeCalls

/-! # The callbacks on a disk

All callbacks that `main` registers, but for `sb_statfs`, which looks at nothing, and `sb_destroy`.  `Mounted` is
what holds between them, and `Callback.Effect` what each does to the tree of the disk and the descriptors, as
long as there is space and descriptors are used while their files exist (`Mounted.after`). -/

namespace Sbfs

open ReqProg PackedMap

/-! ## `sb_readdir` -/

/-- The calls of inode methods, and the part of `sb_readdir` that looks into the directory. -/
inductive ListReq where
  | call (q : InodeReq)
  | listNames (inode : Position)

@[reducible] def ListReq.Ans : ListReq → Type
  | call q => q.Ans
  | listNames _ => Int × List Name

def ListReq.on (fs : SBFileSystem) (uid gid : UInt16) {σ : Type} (device : Handler Block σ) :
    Service ListReq ListReq.Ans σ
  | .call q => InodeReq.on fs uid gid device q
  | .listNames inode => fun s r s' => (Sbfs.listNames uid gid inode).interp device s = (r, s')

/-- `sb_readdir`, with the names that it hands to `filler`. -/
def Vfs.sbReaddir (v : Vfs) (path : Name) : ReqProg ListReq ListReq.Ans (Int × List Name × Vfs) := do
  let (inode, v) ← ReqProg.lift ListReq.call (v.resolve path)
  if !inode.isValid then return (-2, [], v)
  else
    let (ret, names) ← ReqProg.call (ListReq.listNames inode)
    return (ret, names, v)

/-! ## What they do -/

inductive Callback where
  | vfs (call : VfsCall)
  | getattr (path : Name) (fi : Option Nat)
  | chmod (path : Name) (mode : UInt32) (fi : Option Nat)
  | chown (path : Name) (uid gid : UInt32) (fi : Option Nat)
  | utimens (path : Name) (atime mtime : UInt32) (fi : Option Nat)
  | readdir (path : Name)

namespace Callback

/-- The kernel makes the call. -/
inductive Issued (t : FileTree) : Callback → Prop
  | vfs {call : VfsCall} (issued : call.Issued t) : Issued t (vfs call)
  | getattr {cs : List Name} (fi : Option Nat) (parts : ∀ c ∈ cs, IsPart c) : Issued t (getattr (canonical cs) fi)
  | chmod {cs : List Name} (mode : UInt32) (fi : Option Nat) (parts : ∀ c ∈ cs, IsPart c) :
      Issued t (chmod (canonical cs) mode fi)
  | chown {cs : List Name} (uid gid : UInt32) (fi : Option Nat) (parts : ∀ c ∈ cs, IsPart c) :
      Issued t (chown (canonical cs) uid gid fi)
  | utimens {cs : List Name} (atime mtime : UInt32) (fi : Option Nat) (parts : ∀ c ∈ cs, IsPart c) :
      Issued t (utimens (canonical cs) atime mtime fi)
  | readdir {cs : List Name} (parts : ∀ c ∈ cs, IsPart c) : Issued t (readdir (canonical cs))

/-- The descriptor that a callback uses. -/
def uses : Callback → Option Nat
  | vfs call => call.uses
  | getattr _ fi => fi
  | chmod _ _ fi => fi
  | chown _ _ _ fi => fi
  | utimens _ _ _ fi => fi
  | readdir _ => none

/-- On a device, from state `s` and globals `v` the callback may return `ret`, hand out `out` and leave `s'` and `v'`. -/
def MakesOn (L : Layout) (uid gid : UInt16) (C : InodeReq → Disk → Prop) {σ : Type} (device : Handler Block σ)
    (disk : σ → Disk) : Callback → σ → Vfs → Int → Out → σ → Vfs → Prop
  | vfs call, s, v, ret, out, s', v' => Runs (L.servedOn uid gid C device disk) (call.body v) s (ret, out, v') s'
  | getattr path fi, s, v, ret, out, s', v' => ∃ st, out = .stat st ∧
      Runs (AttrReq.on L.formatted uid gid device) (v.sbGetattr path fi) s (ret, st, v') s'
  | chmod path mode fi, s, v, ret, out, s', v' => out = .nothing ∧
      Runs (AttrReq.on L.formatted uid gid device) (v.sbChmod path mode fi) s (ret, v') s'
  | chown path owner group fi, s, v, ret, out, s', v' => out = .nothing ∧
      Runs (AttrReq.on L.formatted uid gid device) (v.sbChown path owner group fi) s (ret, v') s'
  | utimens path atime mtime fi, s, v, ret, out, s', v' => out = .nothing ∧
      Runs (AttrReq.on L.formatted uid gid device) (v.sbUtimens path atime mtime fi) s (ret, v') s'
  | readdir path, s, v, ret, out, s', v' => ∃ names, out = .names names ∧
      Runs (ListReq.on L.formatted uid gid device) (v.sbReaddir path) s (ret, names, v') s'

end Callback

/-- The inode that a descriptor, or else a path, leads to. -/
def FileTree.Target (t : FileTree) (m : FDManager) (cs : List Name) (fi : Option Nat) (x : Position) : Prop :=
  fi.bind m.get = some (some x) ∨ fi.bind m.get = none ∧ t.lookup cs = some x

/-- What `sb_getattr` reports of inode `x`, as far as the tree knows it. -/
structure FileTree.Describes (t : FileTree) (x : Position) (st : Stat) : Prop where
  nlink : st.nlink = t.links x
  file : t.kind x = some kFile → st.size = (t.content x).length
  directory : t.kind x = some kDirectory → (st.size : ℕ∞) = 256 * t.size x
  blocks : st.blocks = DiskInode.totalBlocks st.size

/-- The errors of the callbacks, and when they are returned. -/
inductive Callback.Error (m : FDManager) (t : FileTree) : Callback → Int → Prop
  | vfs {call : VfsCall} {ret : Int} (error : call.Error m t ret) : Error m t (vfs call) ret
  | noInode {cb : Callback} {cs : List Name} {fi : Option Nat}
      (looks : cb = getattr (canonical cs) fi ∨ (∃ mode, cb = chmod (canonical cs) mode fi) ∨
        (∃ uid gid, cb = chown (canonical cs) uid gid fi) ∨ ∃ atime mtime, cb = utimens (canonical cs) atime mtime fi)
      (closed : fi.bind m.get = none) (absent : t.lookup cs = none) : Error m t cb (-2)
  | noDirectory {cs : List Name} (absent : t.lookup cs = none) : Error m t (readdir (canonical cs)) (-2)
  | notListed {cs : List Name} {x : Position} (found : t.lookup cs = some x) (other : t.kind x ≠ some kDirectory) :
      Error m t (readdir (canonical cs)) (-20)

/-- What a callback returns, hands out, and does to the descriptors and the tree. -/
inductive Callback.Effect (m : FDManager) (t : FileTree) : Callback → Int → Out → FDManager → FileTree → Prop
  | vfs {call : VfsCall} {ret : Int} {out : Out} {m' : FDManager} {t' : FileTree}
      (effect : call.Effect m t ret out m' t') : Effect m t (vfs call) ret out m' t'
  | reported {cs : List Name} {fi : Option Nat} {x : Position} {st : Stat} (target : t.Target m cs fi x)
      (describes : t.Describes x st) : Effect m t (getattr (canonical cs) fi) 0 (.stat (some st)) m t
  | set {cb : Callback} {cs : List Name} {fi : Option Nat} {x : Position}
      (sets : (∃ mode, cb = chmod (canonical cs) mode fi) ∨ (∃ uid gid, cb = chown (canonical cs) uid gid fi) ∨
        ∃ atime mtime, cb = utimens (canonical cs) atime mtime fi)
      (target : t.Target m cs fi x) : Effect m t cb 0 .nothing m t
  | listed {cs : List Name} {x : Position} {names : List Name} (found : t.lookup cs = some x)
      (isDir : t.kind x = some kDirectory) (once : names.Nodup)
      (all : ∀ name, name ∈ names ↔ t.find x name ≠ none ∨ t.dots x name ≠ none) :
      Effect m t (readdir (canonical cs)) 0 (.names names) m t
  | refused {cb : Callback} {ret : Int} {out : Out} (error : cb.Error m t ret) : Effect m t cb ret out m t

/-- The disk has a sound tree, and the path cache agrees with it. -/
structure Mounted (L : Layout) (s : Disk) (v : Vfs) : Prop where
  disk : OnDisk L s (L.fileTree s)
  coherent : Coherent v (L.fileTree s).toNamespace

/-- The step of a callback on a device. -/
structure Callback.StepsOn (L : Layout) (uid gid : UInt16) (C : InodeReq → Disk → Prop) {σ : Type}
    (device : Handler Block σ) (disk : σ → Disk) (cb : Callback) (s : σ) (v : Vfs) (ret : Int) (out : Out) (s' : σ)
    (v' : Vfs) : Prop where
  issued : cb.Issued (L.fileTree (disk s))
  makes : cb.MakesOn L uid gid C device disk s v ret out s' v'

/-- The step of a callback on the disk itself. -/
abbrev Callback.Steps (L : Layout) (uid gid : UInt16) (cb : Callback) (s : Disk) (v : Vfs) (ret : Int) (out : Out)
    (s' : Disk) (v' : Vfs) : Prop :=
  cb.StepsOn L uid gid (fun q s => q.Covered L s) Store.handler id s v ret out s' v'

section

variable {L : Layout} {uid gid : UInt16} {s s₁ s' : Disk} {v v₁ v' : Vfs} {cs : List Name} {fi : Option Nat}
  {inode : Position} {ret : Int} {t : FileTree} {refs : Nat → Nat} {i n : Nat} {cb : Callback}

/-! ## Looking at the tree -/

theorem target_meets (sound : t.Sound) (solid : t.Solid) (coherent : Coherent v t.toNamespace)
    (parts : ∀ c ∈ cs, IsPart c) (files : ∀ fh, fi = some fh → v.fdManager.OnFile t fh) :
    (v.target (canonical cs) fi).Meets FileTree.service InodeReq.Allowed (fun a u => u = t ∧
      a.2.fdManager = v.fdManager ∧ Coherent a.2 t.toNamespace ∧
        (a.1.isValid = true → t.Target v.fdManager cs fi a.1 ∧ t.kind a.1 ≠ none) ∧
        (a.1.isValid = false → fi.bind v.fdManager.get = none ∧ t.lookup cs = none)) t := by
  rw [Vfs.target]
  split
  next held found =>
    have some : fi ≠ none := by
      rintro rfl
      cases found
    obtain ⟨fh, rfl⟩ := Option.ne_none_iff_exists'.mp some
    obtain ⟨x, rfl, file⟩ := files fh rfl held found
    have allocated : t.kind x ≠ none := by rw [file]; exact Option.some_ne_none _
    exact ⟨rfl, rfl, coherent, fun _ => ⟨.inl found, allocated⟩,
      fun bad => absurd (solid x allocated) (Bool.eq_false_iff.mp bad)⟩
  next closed =>
    refine (vfsResolve_meets sound coherent (.inl rfl) parts).mono ?_
    rintro ⟨x, v₁⟩ u ⟨rfl, resolved⟩
    refine ⟨rfl, resolved.handles, resolved.coherent, fun valid => ?_, fun bad => ⟨closed, ?_⟩⟩
    · have found := lookup_of_valid resolved.value (by rw [valid]; exact Bool.false_ne_true)
      exact ⟨.inr ⟨closed, found⟩, sound.allocated found⟩
    · exact solid.lookup_none sound resolved.value (by rw [bad, Bool.not_false])

/-- What a program does on the tree, it does on the disk. -/
theorem OnDisk.meets (bitmap : L.inodeBitmapBlocks = kInodeBitmapBlocks) (on : OnDisk L s (L.fileTree s)) {α : Type}
    {p : VfsProg α} {P : α → FileTree → Prop} {a : α}
    (meets : p.Meets FileTree.service InodeReq.Allowed P (L.fileTree s)) (runs : Runs (L.roomy uid gid) p s a s') :
    OnDisk L s' (L.fileTree s') ∧ P a (L.fileTree s') := by
  obtain ⟨t', -, on', ends⟩ := meets.simulate (fun q s t r s' on allowed answer => on.step bitmap allowed answer) on runs
  obtain rfl := on'.tree
  exact ⟨on', ends⟩

/-- A program that only makes `find`s does on the disk what it does on the tree. -/
theorem Mounted.looks (bitmap : L.inodeBitmapBlocks = kInodeBitmapBlocks) (mounted : Mounted L s v) {α : Type} {p : VfsProg α}
    {P : α → Prop} {a : α} (finds : p.Avoids NotFind)
    (meets : p.Meets FileTree.service InodeReq.Allowed (fun a u => u = L.fileTree s ∧ P a) (L.fileTree s))
    (runs : Runs (InodeReq.on L.formatted uid gid Store.handler) p s a s₁) : P a ∧ Touches (fun _ => False) s s₁ := by
  have roomy : Runs (L.roomy uid gid) p s a s₁ := by
    refine finds.runs (fun q t r u find answer => ⟨?_, answer⟩) runs
    obtain ⟨defined, -⟩ := answer
    cases q with
    | find => exact ⟨trivial, trivial⟩
    | _ => exact absurd ⟨fun _ _ same => (by cases same), defined⟩ find
  obtain ⟨-, -, ends⟩ := mounted.disk.meets bitmap meets roomy
  exact ⟨ends, quiet_of_finds finds runs⟩

theorem OnDisk.solid (on : OnDisk L s t) : t.Solid := by
  intro x allocated
  obtain ⟨refs, ok⟩ := on.counted
  obtain ⟨i, rfl, here⟩ := on.allocated allocated
  exact Layout.slot_valid (ok.state.slots i here)

/-! ## Attributes -/

/-- A callback that replaces a record with one of the same map. -/
theorem Mounted.rmw (bitmap : L.inodeBitmapBlocks = kInodeBitmapBlocks) (mounted : Mounted L s v)
    (parts : ∀ c ∈ cs, IsPart c) (files : ∀ fh, fi = some fh → v.fdManager.OnFile (L.fileTree s) fh) {β : Type}
    {f : DiskInode → DiskInode} {g : DiskInode → β} {out : Option β} (map : ∀ d, SameMap d (f d))
    (type : ∀ d, (f d).type = d.type) (linkCnt : ∀ d, (f d).linkCnt = d.linkCnt)
    (runs : Runs (AttrReq.on L.formatted uid gid Store.handler)
      (v.sbRmwDiskinode (canonical cs) fi fun d => (0, f d, g d)) s (ret, out, v') s') :
    Mounted L s' v' ∧ TreeKept L s s' ∧ v'.fdManager = v.fdManager ∧
      (ret = -2 ∧ fi.bind v.fdManager.get = none ∧ (L.fileTree s).lookup cs = none ∨
        ret = 0 ∧ ∃ i, L.Allocated s i ∧ (L.fileTree s).Target v.fdManager cs fi (L.slot i) ∧
          out = some (g (L.inode s.blocks i))) := by
  obtain ⟨refs, ok⟩ := mounted.disk.counted
  -- what keeps tree and cache right keeps the state mounted
  have after : ∀ {s' v'}, TreeKept L s s' → Coherent v' (L.fileTree s).toNamespace →
      Mounted L s' v' := by
    intro s' v' kept coherent
    have on := mounted.disk.kept ok kept
    have same := kept.fileTree
    exact ⟨same ▸ on, same ▸ coherent⟩
  have whole := runs
  rw [Vfs.sbRmwDiskinode, runs_bind] at runs
  obtain ⟨⟨inode, v₁⟩, s₁, way, rest⟩ := runs
  rw [runs_attrCall] at way
  obtain ⟨⟨handles, coherent, valid, invalid⟩, quiet⟩ := mounted.looks bitmap (target_onlyFinds v _ fi)
    (target_meets mounted.disk.sound mounted.disk.solid mounted.coherent parts files) way
  dsimp only at handles coherent valid invalid rest
  cases isValid : inode.isValid with
  | false =>
    rw [isValid, Bool.not_false, if_pos rfl] at rest
    obtain ⟨same, rfl⟩ := runs_pure.mp rest
    cases same
    have kept := TreeKept.of_quiet ok quiet
    exact ⟨after kept coherent, kept, handles, .inl ⟨rfl, invalid isValid⟩⟩
  | true =>
    obtain ⟨target, allocated⟩ := valid isValid
    obtain ⟨i, rfl, here⟩ := mounted.disk.allocated allocated
    have slotId := ok.state.slots i here
    obtain ⟨s'', touches, saved, only⟩ := runs_rmw (ok.state.onDevice slotId) ok.state.failId way
      (fun d => (0, f d, g d)) rfl
    obtain ⟨same, rfl⟩ := (only _ _).mp whole
    cases same
    obtain ⟨self, keeps⟩ := keepsFiles_saved ok.state here touches saved (map _) (type _)
    have kept : TreeKept L s s' := .of_resaved ok here touches keeps.map keeps.type
      (by rw [Layout.links, self, linkCnt, Layout.links]) keeps.others
    exact ⟨after kept coherent, kept, handles, .inr ⟨rfl, i, here, target, rfl⟩⟩

/-- A callback that sets attributes. -/
theorem Mounted.set (bitmap : L.inodeBitmapBlocks = kInodeBitmapBlocks) (mounted : Mounted L s v)
    (parts : ∀ c ∈ cs, IsPart c) (files : ∀ fh, fi = some fh → v.fdManager.OnFile (L.fileTree s) fh) {f : DiskInode → DiskInode}
    (map : ∀ d, SameMap d (f d)) (type : ∀ d, (f d).type = d.type) (linkCnt : ∀ d, (f d).linkCnt = d.linkCnt)
    (sets : (∃ mode, cb = .chmod (canonical cs) mode fi) ∨ (∃ uid gid, cb = .chown (canonical cs) uid gid fi) ∨
      ∃ atime mtime, cb = .utimens (canonical cs) atime mtime fi)
    (runs : Runs (AttrReq.on L.formatted uid gid Store.handler) (do
      let (ret, _, v) ← v.sbRmwDiskinode (canonical cs) fi fun d => (0, f d, ())
      return (ret, v)) s (ret, v') s') :
    Mounted L s' v' ∧ TreeKept L s s' ∧
      cb.Effect v.fdManager (L.fileTree s) ret .nothing v'.fdManager (L.fileTree s') := by
  rw [runs_bind] at runs
  obtain ⟨⟨ret₁, out, v₁⟩, s₁, runs, rest⟩ := runs
  obtain ⟨same, rfl⟩ := runs_pure.mp rest
  cases same
  obtain ⟨mounted', kept, handles, outcome⟩ := mounted.rmw bitmap parts files map type linkCnt runs
  rw [kept.fileTree, handles]
  refine ⟨mounted', kept, ?_⟩
  obtain ⟨rfl, closed, absent⟩ | ⟨rfl, i, -, target, -⟩ := outcome
  · exact .refused (.noInode (.inr sets) closed absent)
  · exact .set sets target

/-- The record of an inode describes it. -/
theorem OnDisk.describes (on : OnDisk L s (L.fileTree s))
    (bitmap : L.inodeBitmapBlocks = kInodeBitmapBlocks) (here : L.Allocated s i) :
    (L.fileTree s).Describes (L.slot i) (L.inode s.blocks i).stat := by
  obtain ⟨refs, ok⟩ := on.counted
  have slotId := ok.state.slots i here
  constructor
  case nlink =>
    rw [Layout.links_slot slotId, Layout.linksAt, if_pos here]
    rfl
  case file =>
    intro file
    rw [Layout.kind_slot slotId, Layout.kindAt, if_pos here] at file
    rw [Layout.content_slot slotId, Layout.contentAt_file here (Option.some.inj file), DiskInode.length_contentOf]
    rfl
  case directory =>
    intro isDir
    rw [Layout.kind_slot slotId, Layout.kindAt, if_pos here] at isDir
    have type := Option.some.inj isDir
    have onI := ok.callOn on.sound bitmap here type
    rw [size_slot slotId onI (ok.distinct onI)]
    exact_mod_cast (ok.dirs i here type).aligned
  case blocks => rfl

/-! ## Listings -/

theorem Counted.listFrom_kept (ok : Counted L refs s) (here : L.Allocated s i) (rounds k : Nat) {names : List Name}
    (run : (listFrom (L.slot i) rounds k).run s = (names, s')) : TreeKept L s s' := by
  induction rounds generalizing s k names with
  | zero =>
    cases run
    exact .of_quiet ok (.refl _ _)
  | succ rounds ih =>
    obtain ⟨⟨ret, got⟩, s₁, read, looked⟩ := ok.state.run_readData_any here (k * 4096 % 4294967296) (fun _ => 0) 4096
    have kept : TreeKept L s s₁ := .of_looked ok here looked
    obtain ⟨rest, s₂, more⟩ : ∃ rest s₂, (listFrom (L.slot i) rounds (k + 1)).run s₁ = (rest, s₂) := ⟨_, _, rfl⟩
    simp only [listFrom, DevProg.run_bind, read, more, DevProg.run_pure] at run
    cases run
    exact kept.trans (ih (kept.counted ok) ((kept.allocated i).mpr here) (k + 1) more)

/-- The listing of an inode, and what it leaves. -/
theorem OnDisk.lists (on : OnDisk L s (L.fileTree s))
    (bitmap : L.inodeBitmapBlocks = kInodeBitmapBlocks) (here : L.Allocated s i) {names : List Name}
    (run : (listNames uid gid (L.slot i)).run s = ((ret, names), s')) :
    TreeKept L s s' ∧ (ret = -20 ∧ (L.fileTree s).kind (L.slot i) ≠ some kDirectory ∨
      ret = 0 ∧ (L.fileTree s).kind (L.slot i) = some kDirectory ∧ names.Nodup ∧
      ∀ name, name ∈ names ↔ (L.fileTree s).find (L.slot i) name ≠ none ∨ (L.fileTree s).dots (L.slot i) name ≠ none) := by
  obtain ⟨refs, ok⟩ := on.counted
  obtain ⟨new, s₁, make, quiet, -⟩ := DiskInode.run_new kDirectory uid gid s
  have first : TreeKept L s s₁ := .of_quiet ok quiet
  have there := (first.allocated i).mpr here
  have read : (readInode (L.slot i)).run s₁ = (some (L.inode s.blocks i), s₁) := by
    rw [(first.counted ok).state.run_readInode there, quiet.quiet]
  have whole := run
  simp only [listNames, DevProg.run_bind, make, read, Option.getD_some] at run
  by_cases type : (L.inode s.blocks i).type = kDirectory
  · have onI := ok.callOn on.sound bitmap here type
    have distinct := ok.distinct onI
    have slotId := ok.state.slots i here
    -- the list is what the entries say, and the loop has read only
    obtain ⟨s'', listed, -⟩ := ok.state.run_listNames uid gid here (ok.searchable onI)
    cases whole.symm.trans listed
    obtain ⟨got, s₂, loop⟩ : ∃ got s₂, (listFrom (L.slot i) (DiskInode.totalBlocks (L.inode s.blocks i).size.toNat) 0).run
      s₁ = (got, s₂) := ⟨_, _, rfl⟩
    rw [if_neg (not_not_intro type)] at run
    simp only [DevProg.run_bind, loop, DevProg.run_pure] at run
    obtain rfl : s₂ = s' := congrArg Prod.snd run
    refine ⟨first.trans ((first.counted ok).listFrom_kept there _ _ loop), .inr ⟨rfl, ?_, distinct, fun name => ?_⟩⟩
    · rw [Layout.kind_slot slotId, Layout.kindAt, if_pos here, type]
    · have named : L.named (L.nameAt s) (L.slot i) name ≠ none ↔
          name ∈ ((L.inode s.blocks i).entries s.blocks).map Prod.fst := by
        rw [Layout.named, Layout.atPlace_slot slotId, nameAt_dir onI, mem_keys, ne_eq, Option.map_eq_none_iff]
      rw [← named]
      change _ ↔ (if isDot name then none else L.named (L.nameAt s) (L.slot i) name) ≠ none ∨
        (if isDot name then L.named (L.nameAt s) (L.slot i) name else none) ≠ none
      cases isDot name with
      | false => simp
      | true => simp
  · rw [if_pos type] at run
    cases run
    refine ⟨first, .inl ⟨rfl, fun isDir => type ?_⟩⟩
    rw [Layout.kind_slot (ok.state.slots i here), Layout.kindAt, if_pos here] at isDir
    exact Option.some.inj isDir

theorem Mounted.readdir (bitmap : L.inodeBitmapBlocks = kInodeBitmapBlocks) (mounted : Mounted L s v)
    (parts : ∀ c ∈ cs, IsPart c) {names : List Name}
    (runs : Runs (ListReq.on L.formatted uid gid Store.handler) (v.sbReaddir (canonical cs)) s (ret, names, v') s') :
    Mounted L s' v' ∧ TreeKept L s s' ∧ (Callback.readdir (canonical cs)).Effect v.fdManager (L.fileTree s) ret
      (.names names) v'.fdManager (L.fileTree s') := by
  rw [Vfs.sbReaddir, runs_bind] at runs
  obtain ⟨⟨inode, v₁⟩, s₁, way, rest⟩ := runs
  rw [runs_lift] at way
  -- the path is resolved first, which reads only
  have finds : (v.resolve (canonical cs)).Avoids NotFind := by
    rw [Vfs.resolve]
    exact (resolve_onlyFinds _ _ _).bind fun _ => trivial
  obtain ⟨resolved, quiet⟩ := mounted.looks bitmap finds
    (vfsResolve_meets mounted.disk.sound mounted.coherent (.inl rfl) parts) way
  obtain ⟨refs, ok⟩ := mounted.disk.counted
  have first : TreeKept L s s₁ := .of_quiet ok quiet
  have on₁ := mounted.disk.kept ok first
  have coherent := resolved.coherent
  have handles := resolved.handles
  have value := resolved.value
  have sound := mounted.disk.sound
  rw [← first.fileTree] at on₁ coherent value sound ⊢
  dsimp only at coherent handles value rest
  rw [← handles]
  split at rest
  next bad =>
    obtain ⟨same, rfl⟩ := runs_pure.mp rest
    cases same
    exact ⟨⟨on₁, coherent⟩, first, .refused (.noDirectory (on₁.solid.lookup_none sound value bad))⟩
  next valid =>
    rw [runs_bind] at rest
    obtain ⟨⟨ret₁, names₁⟩, s₂, list, rest⟩ := rest
    obtain ⟨same, rfl⟩ := runs_pure.mp rest
    cases same
    have found := lookup_of_valid value valid
    obtain ⟨i, rfl, here⟩ := on₁.allocated (sound.allocated found)
    obtain ⟨kept, outcome⟩ := on₁.lists bitmap here (runs_call.mp list)
    obtain ⟨refs₁, ok₁⟩ := on₁.counted
    have on' := on₁.kept ok₁ kept
    rw [← kept.fileTree] at on' coherent
    rw [kept.fileTree]
    refine ⟨⟨on', coherent⟩, first.trans kept, ?_⟩
    obtain ⟨rfl, other⟩ | ⟨rfl, isDir, once, all⟩ := outcome
    · exact .refused (.notListed found other)
    · exact .listed found isDir once all

/-! ## Steps -/

/-- A callback other than those of `VfsCall` leaves the tree and the blocks without an owner as they are. -/
theorem Mounted.looked (bitmap : L.inodeBitmapBlocks = kInodeBitmapBlocks) (mounted : Mounted L s v) {out : Out}
    (files : ∀ fh, cb.uses = some fh → v.fdManager.OnFile (L.fileTree s) fh) (other : ∀ call, cb ≠ .vfs call)
    (steps : cb.Steps L uid gid s v ret out s' v') : Mounted L s' v' ∧ TreeKept L s s' ∧
      cb.Effect v.fdManager (L.fileTree s) ret out v'.fdManager (L.fileTree s') := by
  obtain ⟨issued, makes⟩ := steps
  cases issued with
  | vfs => exact absurd rfl (other _)
  | getattr fi parts =>
    obtain ⟨st, rfl, runs⟩ := makes
    obtain ⟨mounted', kept, handles, outcome⟩ := mounted.rmw (f := id) bitmap parts files (fun _ => ⟨rfl, rfl, rfl, rfl⟩)
      (fun _ => rfl) (fun _ => rfl) runs
    rw [kept.fileTree, handles]
    refine ⟨mounted', kept, ?_⟩
    obtain ⟨rfl, closed, absent⟩ | ⟨rfl, i, here, target, rfl⟩ := outcome
    · exact .refused (.noInode (.inl rfl) closed absent)
    · exact .reported target (mounted.disk.describes bitmap here)
  | chmod mode fi parts =>
    obtain ⟨rfl, runs⟩ := makes
    exact mounted.set (f := fun d => { d with mode := mode.toUInt16 }) bitmap parts files
      (fun _ => ⟨rfl, rfl, rfl, rfl⟩) (fun _ => rfl) (fun _ => rfl) (.inl ⟨mode, rfl⟩) runs
  | chown owner group fi parts =>
    obtain ⟨rfl, runs⟩ := makes
    exact mounted.set (f := fun d => { d with uid := owner.toUInt16, gid := group.toUInt16 }) bitmap parts files
      (fun _ => ⟨rfl, rfl, rfl, rfl⟩) (fun _ => rfl) (fun _ => rfl)
      (.inr (.inl ⟨owner, group, rfl⟩)) runs
  | utimens atime mtime fi parts =>
    obtain ⟨rfl, runs⟩ := makes
    exact mounted.set (f := fun d => { d with accessTime := atime, modifyTime := mtime }) bitmap parts files
      (fun _ => ⟨rfl, rfl, rfl, rfl⟩) (fun _ => rfl) (fun _ => rfl)
      (.inr (.inr ⟨atime, mtime, rfl⟩)) runs
  | readdir parts =>
    obtain ⟨names, rfl, runs⟩ := makes
    exact mounted.readdir bitmap parts runs

/-- A callback of `VfsCall` does what its effect says, and keeps what its requests keep. -/
theorem Mounted.called (bitmap : L.inodeBitmapBlocks = kInodeBitmapBlocks) (mounted : Mounted L s v) {out : Out}
    {call : VfsCall} {C : InodeReq → Disk → Prop} (covers : ∀ q s, C q s → q.Covered L s) {R : Disk → Disk → Prop}
    (refl : ∀ s, R s s) (trans : ∀ s s₁ s', R s s₁ → R s₁ s' → R s s') {bad : InodeReq → Prop}
    (avoids : (call.body v).Avoids bad) (keeps : ∀ q s t r s', OnDisk L s t → q.Allowed t → ¬ bad q → C q s →
      L.roomy uid gid q s r s' → R s s') (files : ∀ fh, call.uses = some fh → v.fdManager.OnFile (L.fileTree s) fh)
    (steps : (Callback.vfs call).StepsOn L uid gid C Store.handler id s v ret out s' v') : Mounted L s' v' ∧ R s s' ∧
      (Callback.vfs call).Effect v.fdManager (L.fileTree s) ret out v'.fdManager (L.fileTree s') := by
  obtain ⟨issued, makes⟩ := steps
  cases issued with
  | vfs issued =>
    have meets := (VfsCall.body_meets mounted.disk.sound mounted.disk.solid mounted.coherent files issued).and_avoids avoids
    obtain ⟨t', -, ⟨on, kept⟩, ⟨effect, coherent⟩, -⟩ := meets.simulate (C := L.servedOn uid gid C Store.handler id)
      (R := fun s₁ t => OnDisk L s₁ t ∧ R s s₁) (fun q s₁ t r s' on allowed answer => by
        have roomy : L.roomy uid gid q s₁ r s' := ⟨covers q s₁ answer.1, answer.2⟩
        obtain ⟨t', answer', on'⟩ := on.1.step bitmap allowed.1 roomy
        exact ⟨t', answer', on', trans _ _ _ on.2 (keeps q s₁ t r s' on.1 allowed.1 allowed.2 answer.1 roomy)⟩)
      ⟨mounted.disk, refl s⟩ makes
    obtain rfl := on.tree
    exact ⟨⟨on, coherent⟩, kept, .vfs effect⟩

/-- A callback does to the tree of the disk what its effect says. -/
theorem Mounted.after (bitmap : L.inodeBitmapBlocks = kInodeBitmapBlocks) (mounted : Mounted L s v) {out : Out}
    (files : ∀ fh, cb.uses = some fh → v.fdManager.OnFile (L.fileTree s) fh) (steps : cb.Steps L uid gid s v ret out s' v') :
    Mounted L s' v' ∧ cb.Effect v.fdManager (L.fileTree s) ret out v'.fdManager (L.fileTree s') := by
  cases cb with
  | vfs call =>
    obtain ⟨mounted', -, effect⟩ := mounted.called bitmap (fun _ _ => id) (R := fun _ _ => True) (fun _ => trivial)
      (fun _ _ _ _ _ => trivial) (.all (call.body v)) (fun _ _ _ _ _ _ _ _ _ _ => trivial) files steps
    exact ⟨mounted', effect⟩
  | _ =>
    obtain ⟨mounted', -, effect⟩ := mounted.looked bitmap files (fun _ same => by cases same) steps
    exact ⟨mounted', effect⟩

end

end Sbfs
