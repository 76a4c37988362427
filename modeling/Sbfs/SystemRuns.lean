import Sbfs.FileRuns
import Sbfs.PathFs
import Sbfs.SmallTrees

/-! # Runs from a new file system

What holds after `create` on a device with clear bitmaps, `init_vfs` and any run of the callbacks: the disk is one
of the abstract file system on trees (`create_refines`) and, when renames find room, of the one on paths
(`create_paths`). -/

namespace Sbfs

open NamedTree FileTree ReqProg

/-- The device has the areas of the layout, and no bit in the two bitmaps is set. -/
structure Layout.Blank (L : Layout) (s : Disk) : Prop where
  device : L.totalBlocks ≤ s.count
  areas : L.areaEnd ≤ s.count
  failId : s.count ≤ kFailId
  inodes : NoBit L.formatted.inodeBitmap s.blocks
  data : NoBit L.formatted.dataBitmap s.blocks

/-! ## The new file system -/

section

variable {L : Layout} {owner group uid gid : UInt16} {s s₀ s' : Disk} {v v' : Vfs} {fs : SBFileSystem} {root : Position}
  {events : List Event} {P : FDManager → FileTree → Callback → Prop}

theorem FileTree.new_lookup (root : Position) (cs : List Name) :
    (FileTree.new root).lookup cs = if cs = [] then some root else none := by
  cases cs with
  | nil => rfl
  | cons c cs => rfl

theorem FileTree.new_dots (root : Position) : (FileTree.new root).dots root = dotsOf root root := by
  change Function.update (fun _ _ => none) root (dotsOf root root) root = _
  rw [Function.update_self]

theorem Orderly.new (root : Position) (fs : SBFileSystem) : Orderly (Vfs.new fs).fdManager (.new root) where
  sound := new_sound root
  rooted := by
    intro x allocated
    obtain ⟨type, kind⟩ := Option.ne_none_iff_exists'.mp allocated
    obtain ⟨rfl, -⟩ := new_kind kind
    exact ⟨[], rfl⟩
  dotted := by
    intro x isDir name
    obtain ⟨rfl, -⟩ := new_kind isDir
    rw [new_dots, dotsOf_ne_none]
  typed := fun x type kind => .inr (new_kind kind).2
  files := Vfs.new_onFiles fs _

theorem Views.new (root : Position) (fs : SBFileSystem) : Views (Vfs.new fs).fdManager (.new root) .new := by
  constructor
  case node =>
    intro path
    change Function.update (fun _ => none) [] (some Node.directory) path = _
    rw [Function.update_apply, new_lookup]
    split
    · exact (nodeOf_directory (new_sound root).root).symm
    · rfl
  case handle =>
    intro fh path
    refine iff_of_false (fun none => by cases none) ?_
    rintro ⟨x, got, -⟩
    obtain ⟨y, -, file⟩ := Vfs.new_onFiles fs (.new root) fh _ got
    exact absurd (new_kind file).2 (by decide)

theorem Vfs.new_fresh (fs : SBFileSystem) : (Vfs.new fs).fdManager.Fresh 0 :=
  ⟨Nat.succ_pos 9, Nat.le_refl 10, fun _ _ => rfl⟩

theorem FileTree.DotsRight.new (root : Position) : (FileTree.new root).DotsRight :=
  ⟨new_dots root, fun edge => by cases edge⟩

/-- What `create` and `init_vfs` leave. -/
theorem Layout.Blank.mounted (blank : L.Blank s)
    (made : (SBFileSystem.create L.totalBlocks L.inodeBitmapBlocks owner group).run s = (fs, s₀)) :
    Mounted L s₀ (.new fs) ∧ L.fileTree s₀ = .new (L.slot L.inodeAreaStart) := by
  obtain ⟨s', run, count, fresh⟩ := run_create_fresh blank.device blank.inodes blank.data
  cases made.symm.trans run
  exact ⟨fresh.mounted (count ▸ blank.areas) (count ▸ blank.failId), fresh.fileTree⟩

/-- The callbacks whose renames find room and that spare the open files. -/
def Callback.Calm (m : FDManager) (t : FileTree) (cb : Callback) : Prop := cb.SparesOpen m t ∧ cb.Tidy t

/-- The callbacks that besides move no directory to another parent. -/
def Callback.Settled (m : FDManager) (t : FileTree) (cb : Callback) : Prop := cb.Calm m t ∧ cb.KeepsParents t

/-- A run from a new file system, whose descriptors are used while their files exist. -/
theorem Layout.Blank.runs_used (bitmap : L.inodeBitmapBlocks = kInodeBitmapBlocks) (blank : L.Blank s)
    (made : (SBFileSystem.create L.totalBlocks L.inodeBitmapBlocks owner group).run s = (fs, s₀))
    (uses : ∀ m t cb, P m t cb → cb.UsesFiles m t) (run : VfsRun L uid gid P s₀ (.new fs) events s' v) :
    Mounted L s' v ∧
      TreeRun P (Vfs.new fs).fdManager (.new (L.slot L.inodeAreaStart)) events v.fdManager (L.fileTree s') := by
  obtain ⟨mounted, tree⟩ := blank.mounted made
  have refined := run.refines_used bitmap mounted uses
  rw [tree] at refined
  exact refined

/-- A run in which no open file is removed uses descriptors while their files exist. -/
theorem Layout.Blank.used (bitmap : L.inodeBitmapBlocks = kInodeBitmapBlocks) (blank : L.Blank s)
    (made : (SBFileSystem.create L.totalBlocks L.inodeBitmapBlocks owner group).run s = (fs, s₀))
    (spares : ∀ m t cb, P m t cb → cb.SparesOpen m t) (run : VfsRun L uid gid P s₀ (.new fs) events s' v) :
    VfsRun L uid gid (fun m t cb => P m t cb ∧ cb.UsesFiles m t) s₀ (.new fs) events s' v :=
  run.used bitmap (blank.mounted made).1 (Vfs.new_onFiles fs _) spares

theorem Layout.Blank.runs (bitmap : L.inodeBitmapBlocks = kInodeBitmapBlocks) (blank : L.Blank s)
    (made : (SBFileSystem.create L.totalBlocks L.inodeBitmapBlocks owner group).run s = (fs, s₀))
    (spares : ∀ m t cb, P m t cb → cb.SparesOpen m t) (run : VfsRun L uid gid P s₀ (.new fs) events s' v) :
    Mounted L s' v ∧
      TreeRun P (Vfs.new fs).fdManager (.new (L.slot L.inodeAreaStart)) events v.fdManager (L.fileTree s') := by
  obtain ⟨mounted, run⟩ := blank.runs_used bitmap made (fun _ _ _ => And.right) (blank.used bitmap made spares run)
  exact ⟨mounted, run.mono fun _ _ _ => And.left⟩

/-- A used block belongs to an allocated inode. -/
theorem Layout.Blank.noneLost (bitmap : L.inodeBitmapBlocks = kInodeBitmapBlocks) (blank : L.Blank s)
    (made : (SBFileSystem.create L.totalBlocks L.inodeBitmapBlocks owner group).run s = (fs, s₀))
    (uses : ∀ m t cb, P m t cb → cb.UsesFiles m t) (bounded : ∀ m t cb, P m t cb → cb.Bounded)
    (run : VfsRun L uid gid P s₀ (.new fs) events s' v) :
    Tight L.formatted.dataBitmap s'.blocks (L.Allocated s') (L.inode s'.blocks) := by
  obtain ⟨mounted, -⟩ := blank.mounted made
  obtain ⟨s'', made', -, fresh⟩ := run_create_fresh blank.device blank.inodes blank.data
  cases made.symm.trans made'
  have same := run.sameLost bitmap mounted uses bounded
  exact tight_iff.mpr (same.none (tight_iff.mp fresh.tight))

/-- The entries `.` and `..` that `find` sees in a directory. -/
theorem Mounted.run_find_dot (bitmap : L.inodeBitmapBlocks = kInodeBitmapBlocks) (mounted : Mounted L s v) {x : Position}
    (isDir : (L.fileTree s).kind x = some kDirectory) {name : Name} (dot : isDot name = true) :
    ((Inode.find L.formatted x name).run s).1 = (L.fileTree s).dots x name := by
  obtain ⟨refs, ok⟩ := mounted.disk.counted
  obtain ⟨i, rfl, on⟩ := mounted.disk.directory bitmap isDir
  have proper : ProperName name := by
    rw [isDot, Bool.or_eq_true, beq_iff_eq, beq_iff_eq] at dot
    obtain rfl | rfl := dot
    · exact .of_all (by decide) (by decide) rfl
    · exact .of_all (by decide) (by decide) rfl
  obtain ⟨s', run, -⟩ := ok.state.run_find on.here (ok.searchable on) proper
  change _ = if isDot name then L.named (L.nameAt s) (L.slot i) name else none
  rw [run, dot, if_pos rfl, Layout.named, Layout.atPlace_slot (ok.state.slots i on.here), nameAt_dir on]

/-! ## The default size -/

theorem blankImage_blank : Layout.default.Blank blankImage :=
  ⟨by decide, by decide, by decide, blankImage_noBit _, blankImage_noBit _⟩

theorem isPart_d : IsPart [100] := ⟨by decide, by decide, by decide, by decide, by decide, by decide⟩

theorem isPart_e : IsPart [101] := ⟨by decide, by decide, by decide, by decide, by decide, by decide⟩

/-- The file system that `create` returns with the arguments of `init_vfs`. -/
def defaultFs : SBFileSystem := Layout.default.formatted.setRoot (Layout.default.slot Layout.default.inodeAreaStart)

theorem default_created : ∃ s₀, (SBFileSystem.create Layout.default.totalBlocks Layout.default.inodeBitmapBlocks 0 0).run
    blankImage = (defaultFs, s₀) ∧ Layout.default.Young s₀ 1 ∧
    Layout.default.fileTree s₀ = .new (Layout.default.slot Layout.default.inodeAreaStart) := by
  obtain ⟨s₀, made, count, fresh⟩ :=
    run_create_fresh blankImage_blank.device blankImage_blank.inodes blankImage_blank.data
  have count : s₀.count = 4194304 := count
  exact ⟨s₀, made, fresh.young (count ▸ by decide) (count ▸ by decide), fresh.fileTree⟩

theorem default_mkdir (meets : ∀ m t, P m t (.vfs (.mkdir (canonical [[100]]) 0))) : ∃ s₀ s' v,
    (SBFileSystem.create Layout.default.totalBlocks Layout.default.inodeBitmapBlocks 0 0).run blankImage =
      (defaultFs, s₀) ∧
    VfsRun Layout.default 0 0 P s₀ (.new defaultFs) [⟨.vfs (.mkdir (canonical [[100]]) 0), 0, .nothing⟩] s' v := by
  obtain ⟨s₀, made, young, tree⟩ := default_created
  obtain ⟨x, s', steps, -⟩ := young.mkdir (v := .new defaultFs) rfl rfl (by decide) ⟨by decide, by decide⟩ (by decide)
    isPart_d (by rw [tree]; rfl) 0
  exact ⟨s₀, s', _, made, .step .start (meets _ _) steps⟩

/-- A first file, which is open as 10. -/
theorem default_create (meets : ∀ m t, P m t (.vfs (.create (canonical [[100]]) 0))) : ∃ s₀ x s' v,
    (SBFileSystem.create Layout.default.totalBlocks Layout.default.inodeBitmapBlocks 0 0).run blankImage =
      (defaultFs, s₀) ∧
    VfsRun Layout.default 0 0 P s₀ (.new defaultFs) [⟨.vfs (.create (canonical [[100]]) 0), 0, .handle (some 10)⟩] s' v ∧
    Layout.default.Young s' 2 ∧ v = { Vfs.new defaultFs with fdManager := (FDManager.new.open' (some x)).2 } ∧
    Layout.default.fileTree s' = (FileTree.new (Layout.default.slot Layout.default.inodeAreaStart)).create
      (Layout.default.slot Layout.default.inodeAreaStart) [100] kFile x := by
  obtain ⟨s₀, made, young, new⟩ := default_created
  obtain ⟨x, s', steps, -, tree, young'⟩ := young.create (v := .new defaultFs) rfl rfl (by decide)
    ⟨by decide, by decide⟩ (by decide) isPart_d (by rw [new]; rfl) 0
  rw [new] at tree
  exact ⟨s₀, x, s', _, made, .step .start (meets _ _) steps, young', rfl, tree⟩

/-- The first file gets another name. -/
theorem default_rename : ∃ s v s' v', Mounted Layout.default s v ∧
    ¬ (Layout.default.fileTree s).Large (Layout.default.slot Layout.default.inodeAreaStart) ∧
    (Callback.vfs (.rename (canonical ([] ++ [[100]])) (canonical ([] ++ [[101]])) 0)).Steps Layout.default 0 0 s v 0
      .nothing s' v' := by
  obtain ⟨s₀, x, s, v, made, run, young, handles, tree⟩ := default_create (P := Callback.SparesOpen) fun _ _ => trivial
  obtain ⟨mounted, -⟩ := blankImage_blank.runs rfl made (fun _ _ _ spares => spares) run
  have root : v.root = Layout.default.slot Layout.default.inodeAreaStart := by rw [handles]; rfl
  have sound := young.disk.sound
  have found : (Layout.default.fileTree s).find (Layout.default.slot Layout.default.inodeAreaStart) [100] = some x := by
    rw [tree]
    exact create_find ..
  obtain ⟨s', v', runs⟩ := Layout.Young.rename root rfl (by decide) (by decide) isPart_d
    (isPart_one isPart_e) young (by rw [resolve_slash root]; exact .done) sound.root found (show Nat.testBit 0 1 = false by rfl)
  exact ⟨s, v, s', v', mounted, young.not_large (by decide),
    .vfs (.rename 0 (isPart_one isPart_d) (isPart_one isPart_e) ⟨rfl, sound.root⟩ ⟨rfl, sound.root⟩ (by decide)
      fun flag => by cases flag), runs_bind.mpr ⟨_, _, runs, .done⟩⟩

/-- The first byte is written to the first file and read again. -/
theorem default_write : ∃ s v s₁ s₂ x out, Mounted Layout.default s v ∧ v.fdManager.OnFiles (Layout.default.fileTree s) ∧
    v.fdManager.get 10 = some (some x) ∧
    (Callback.vfs (.write 10 (fun _ => 7) 1 0)).Steps Layout.default 0 0 s v 1 .nothing s₁ v ∧
    (Callback.vfs (.read 10 (fun _ => 0) 1 0)).Steps Layout.default 0 0 s₁ v 1 (.bytes out) s₂ v := by
  obtain ⟨s₀, x, s, v, made, run, young, handles, tree⟩ := default_create (P := Callback.SparesOpen) fun _ _ => trivial
  obtain ⟨mounted, refined⟩ := blankImage_blank.runs rfl made (fun _ _ _ spares => spares) run
  have files := refined.onFiles (Vfs.new_onFiles _ _) fun _ _ _ spares => spares
  have on := young.disk
  have held : v.fdManager.get 10 = some (some x) := by
    rw [handles]
    exact ((Vfs.new_fresh defaultFs).get_open' 10).trans (if_pos rfl)
  obtain ⟨y, same, file⟩ := files 10 _ held
  cases same
  have content : (Layout.default.fileTree s).content x = [] := by
    rw [tree, create_content, if_pos rfl]
  -- the write
  have covered : (InodeReq.writeData x 0 (fun _ => 7) 1).Covered Layout.default s := by
    have free := young.freeBlocks rfl (by decide)
    have capacity : 3 ≤ Layout.default.formatted.dataBitmap.capacity := by decide
    exact ⟨(growth_small (show 1 ≤ 4096 by decide)).trans (by omega), trivial⟩
  obtain ⟨ret, s₁, wrote⟩ : ∃ ret s₁, Layout.default.roomy 0 0 (.writeData x 0 (fun _ => 7) 1) s ret s₁ :=
    ⟨_, _, covered, fun none => (by cases none), rfl⟩
  have allowed : (InodeReq.writeData x 0 (fun _ => 7) 1).Allowed (Layout.default.fileTree s) :=
    ⟨on.sound, file, by decide, by decide⟩
  obtain ⟨t₁, ⟨bytes, writes, rfl⟩, on₁⟩ := on.step rfl allowed wrote
  obtain ⟨rfl, patched⟩ := writes (by decide)
  have length := patched.length
  -- the read
  obtain ⟨answer, s₂, read⟩ : ∃ answer s₂, Layout.default.roomy 0 0 (.readData x 0 (fun _ => 0) 1) s₁ answer s₂ :=
    ⟨_, _, ⟨trivial, trivial⟩, fun none => (by cases none), rfl⟩
  have allowed₁ : (InodeReq.readData x 0 (fun _ => 0) 1).Allowed ((Layout.default.fileTree s).setContent x bytes) :=
    ⟨on₁.sound, file⟩
  obtain ⟨ret', out⟩ := answer
  obtain ⟨t₂, ⟨reads, -⟩, -⟩ := on₁.step rfl allowed₁ read
  rw [setContent_self] at reads
  obtain ⟨one, -⟩ := reads (by decide) (by rw [length, content]; decide) (by decide)
  rw [length, content] at one
  obtain rfl : ret' = 1 := one
  refine ⟨s, v, s₁, s₂, x, out, mounted, files, held, ⟨.vfs (.write 10 _ 0 (by decide)), ?_⟩, ⟨.vfs (.read 10 _ 1 0), ?_⟩⟩
  · refine runs_bind.mpr ⟨1, s₁, ?_, .done⟩
    rw [Vfs.sbWrite, if_neg (by decide), held]
    exact runs_bind.mpr ⟨_, s₁, runs_call.mpr wrote, .done⟩
  · refine runs_bind.mpr ⟨(1, out), s₂, ?_, .done⟩
    rw [Vfs.sbRead, if_neg (by decide), held]
    exact runs_bind.mpr ⟨_, s₂, runs_call.mpr read, .done⟩

theorem Callback.calm_mkdir (m : FDManager) (t : FileTree) (path : Name) (mode : UInt16) :
    Callback.Calm m t (.vfs (.mkdir path mode)) :=
  ⟨trivial, fun _ _ _ _ _ _ _ same => by cases same⟩

/-! ## The results -/

/-- After calm callbacks an inode is allocated if and only if exactly one path leads to it, and it has then one link
for its name. -/
theorem create_rooted (bitmap : L.inodeBitmapBlocks = kInodeBitmapBlocks) (blank : L.Blank s)
    (made : (SBFileSystem.create L.totalBlocks L.inodeBitmapBlocks owner group).run s = (fs, s₀))
    (run : VfsRun L uid gid Callback.Calm s₀ (.new fs) events s' v) {i : Nat} (slotId : L.SlotId i) :
    (L.Allocated s' i ↔ ∃! cs, (L.fileTree s').lookup cs = some (L.slot i)) ∧
      ∀ cs c, (L.fileTree s').lookup (cs ++ [c]) = some (L.slot i) → (L.links s'.blocks i).toNat = 1 := by
  obtain ⟨mounted, run⟩ := blank.runs bitmap made (fun _ _ _ calm => calm.1) run
  have sound := mounted.disk.sound
  have rooted := run.rooted (new_sound _) (Orderly.new _ fs).rooted fun _ _ _ calm => calm.2
  have kind := Layout.kind_slot (s := s') slotId
  have allocated : ∀ {cs}, (L.fileTree s').lookup cs = some (L.slot i) → L.Allocated s' i := by
    intro cs found
    by_contra free
    rw [Layout.kindAt, if_neg free] at kind
    exact sound.allocated found kind
  refine ⟨⟨fun here => ?_, ?_⟩, fun cs c found => ?_⟩
  · rw [Layout.kindAt, if_pos here] at kind
    obtain ⟨cs, found⟩ := rooted (L.slot i) (kind ▸ Option.some_ne_none _)
    exact ⟨cs, found, fun ds found' => sound.tree.path_unique found' found⟩
  · rintro ⟨cs, found, -⟩
    exact allocated found
  · have here := allocated found
    rw [Namespace.lookup_concat] at found
    obtain ⟨dir, -, edge⟩ := Option.bind_eq_some_iff.mp found
    have links := sound.links edge
    rwa [Layout.links_slot slotId, Layout.linksAt, if_pos here] at links

theorem create_rooted_mkdir : ∃ s', (Layout.default.Allocated s' 3 ↔
      ∃! cs, (Layout.default.fileTree s').lookup cs = some (Layout.default.slot 3)) ∧
    ∀ cs c, (Layout.default.fileTree s').lookup (cs ++ [c]) = some (Layout.default.slot 3) →
      (Layout.default.links s'.blocks 3).toNat = 1 := by
  obtain ⟨s₀, s', v, made, run⟩ := default_mkdir (P := Callback.Calm) fun m t => Callback.calm_mkdir m t _ _
  exact ⟨s', create_rooted rfl blankImage_blank made run ⟨by decide, by decide⟩⟩

/-- As long as no `write` ends past 2^31, a block is used if and only if exactly one pointer of an allocated inode
leads to it. -/
theorem create_tight (bitmap : L.inodeBitmapBlocks = kInodeBitmapBlocks) (blank : L.Blank s)
    (made : (SBFileSystem.create L.totalBlocks L.inodeBitmapBlocks owner group).run s = (fs, s₀))
    (run : VfsRun L uid gid (fun m t cb => cb.SparesOpen m t ∧ cb.Bounded) s₀ (.new fs) events s' v) (b : Nat) :
    L.formatted.dataBitmap.Used s'.blocks b ↔ ∃! p : Nat × Slot, L.Allocated s' p.1 ∧
      (L.inode s'.blocks p.1).Owns p.2 ∧ (L.inode s'.blocks p.1).slotId s'.blocks p.2 = b := by
  have run := blank.used bitmap made (fun _ _ _ both => both.1) run
  obtain ⟨mounted, -⟩ := blank.runs_used bitmap made (fun _ _ _ => And.right) run
  exact mounted.disk.used_iff (blank.noneLost bitmap made (fun _ _ _ => And.right) (fun _ _ _ both => both.1.2) run) b

theorem create_tight_mkdir : ∃ s', ∀ b, Layout.default.formatted.dataBitmap.Used s'.blocks b ↔
    ∃! p : Nat × Slot, Layout.default.Allocated s' p.1 ∧ (Layout.default.inode s'.blocks p.1).Owns p.2 ∧
      (Layout.default.inode s'.blocks p.1).slotId s'.blocks p.2 = b := by
  obtain ⟨s₀, s', v, made, run⟩ := default_mkdir (P := fun m t cb => cb.SparesOpen m t ∧ cb.Bounded) fun _ _ =>
    ⟨trivial, trivial⟩
  exact ⟨s', create_tight rfl blankImage_blank made run⟩

/-- After settled callbacks `find` of `.` in a directory returns itself, and of `..` the directory that has its
name; in the root both return the root. -/
theorem create_dotsRight (bitmap : L.inodeBitmapBlocks = kInodeBitmapBlocks) (blank : L.Blank s)
    (made : (SBFileSystem.create L.totalBlocks L.inodeBitmapBlocks owner group).run s = (fs, s₀))
    (run : VfsRun L uid gid Callback.Settled s₀ (.new fs) events s' v) {cs : List Name} {x : Position}
    (found : (L.fileTree s').Dir cs x) :
    ((Inode.find L.formatted x [46]).run s').1 = some x ∧
      ((Inode.find L.formatted x [46, 46]).run s').1 = (L.fileTree s').lookup cs.dropLast := by
  obtain ⟨mounted, run⟩ := blank.runs bitmap made (fun _ _ _ settled => settled.1.1) run
  have right := run.dotsRight (new_sound _) (.new _) fun _ _ _ settled => settled.2
  have dots : ∀ {dir : Position}, (L.fileTree s').dots x = dotsOf x dir →
      ((Inode.find L.formatted x [46]).run s').1 = some x ∧ ((Inode.find L.formatted x [46, 46]).run s').1 = some dir := by
    intro dir dots
    have one := mounted.run_find_dot bitmap found.2 (show isDot [46] = true by decide)
    have two := mounted.run_find_dot bitmap found.2 (show isDot [46, 46] = true by decide)
    rw [one, two, dots]
    exact ⟨rfl, rfl⟩
  cases cs using List.reverseRecOn with
  | nil =>
    obtain rfl : (L.fileTree s').root = x := Option.some.inj found.1
    exact dots right.root
  | append_singleton cs c =>
    have edge := found.1
    rw [Namespace.lookup_concat] at edge
    obtain ⟨dir, parent, edge⟩ := Option.bind_eq_some_iff.mp edge
    rw [List.dropLast_concat, parent]
    exact dots (right.below edge found.2)

theorem create_dotsRight_mkdir : ∃ s' x, (Layout.default.fileTree s').Dir [] x ∧
    ((Inode.find Layout.default.formatted x [46]).run s').1 = some x ∧
      ((Inode.find Layout.default.formatted x [46, 46]).run s').1 = (Layout.default.fileTree s').lookup [] := by
  obtain ⟨s₀, s', v, made, run⟩ := default_mkdir (P := Callback.Settled) fun m t =>
    ⟨Callback.calm_mkdir m t _ _, fun _ _ _ _ _ _ _ same => by cases same⟩
  obtain ⟨mounted, -⟩ := blankImage_blank.runs rfl made (fun _ _ _ settled => settled.1.1) run
  have root := (⟨rfl, mounted.disk.sound.root⟩ : (Layout.default.fileTree s').Dir [] _)
  exact ⟨s', _, root, create_dotsRight rfl blankImage_blank made run root⟩

/-! ## One after the other -/

/-- A `rename` that finds room, not to a place at or above its source, either returns 0 and moves all paths below the
old name, and of the other paths it changes those only that led through the new name, or the old name is not bound; then
it returns `-ENOENT` and changes nothing. -/
theorem rename_paths (bitmap : L.inodeBitmapBlocks = kInodeBitmapBlocks) (mounted : Mounted L s v) {cs ds : List Name}
    {c d : Name} {flags : Nat} {out : Out} {ret : Int} {dir dir' : Position} (parts : ∀ e ∈ cs ++ [c], IsPart e)
    (parts' : ∀ e ∈ ds ++ [d], IsPart e)
    (steps : (Callback.vfs (.rename (canonical (cs ++ [c])) (canonical (ds ++ [d])) flags)).Steps L uid gid s v ret out s' v')
    (parent : (L.fileTree s).Dir cs dir) (parent' : (L.fileTree s).Dir ds dir')
    (small : ¬ (L.fileTree s).Large dir) (small' : ¬ (L.fileTree s).Large dir')
    (outside : ¬ ds ++ [d] <+: cs ++ [c])
    (free : flags.testBit 1 = false → flags.testBit 0 = true → (L.fileTree s).find dir' d = none) :
    ret = 0 ∧ (L.fileTree s).PathsMoved (cs ++ [c]) (ds ++ [d]) (flags.testBit 1) (L.fileTree s') ∨
      ret = -2 ∧ (L.fileTree s).find dir c = none ∧ L.fileTree s' = L.fileTree s := by
  obtain ⟨-, effect⟩ := mounted.after bitmap (by rintro _ ⟨⟩) steps
  obtain ⟨rfl, below, x, found, moves⟩ | failed := effect.of_rename parts parts' parent parent'
  · refine .inl ⟨rfl, (moves.relocated found (.of_small found small small' free)).paths mounted.disk.sound parent parent'
      below outside fun exchange => ?_⟩
    obtain ⟨y, target⟩ := moves.target exchange
    rw [setEdge_none_sub _ _ _ target]
    exact Option.some_ne_none y
  · exact .inr failed

theorem rename_paths_default : ∃ s s' : Disk,
    (Layout.default.fileTree s).PathsMoved ([] ++ [[100]]) ([] ++ [[101]]) false (Layout.default.fileTree s') := by
  obtain ⟨s, v, s', v', mounted, small, steps⟩ := default_rename
  have parts : ∀ c, IsPart c → ∀ d ∈ [] ++ [c], IsPart d := by
    intro c part d member
    rwa [List.mem_singleton.mp member]
  have root := (⟨rfl, mounted.disk.sound.root⟩ : (Layout.default.fileTree s).Dir [] _)
  obtain ⟨-, moved⟩ | ⟨failed, -⟩ := rename_paths rfl mounted (parts _ isPart_d) (parts _ isPart_e) steps root root
    small small (by decide) fun _ flag => by cases flag
  · exact ⟨s, s', moved⟩
  · exact absurd failed (by decide)

/-- A descriptor stays on its inode until it is released, the inode stays an allocated file, and no `create` opens
its descriptor on it. -/
theorem handle_denotes (bitmap : L.inodeBitmapBlocks = kInodeBitmapBlocks) (blank : L.Blank s)
    (made : (SBFileSystem.create L.totalBlocks L.inodeBitmapBlocks owner group).run s = (fs, s₀)) {s₁ : Disk} {v₁ : Vfs}
    {events' : List Event} (before : VfsRun L uid gid Callback.SparesOpen s₀ (.new fs) events s₁ v₁) {fh : Nat}
    {x : Position} (held : v₁.fdManager.get fh = some (some x))
    (run : VfsRun L uid gid Callback.SparesOpen s₁ v₁ events' s' v)
    (open' : ∀ e ∈ events', e.callback ≠ .vfs (.release fh)) :
    v.fdManager.get fh = some (some x) ∧ ∃ i, x = L.slot i ∧ L.Allocated s' i ∧ (L.inode s'.blocks i).type = kFile := by
  obtain ⟨mounted, first⟩ := blank.runs bitmap made (fun _ _ _ spares => spares) before
  have files := first.onFiles (Vfs.new_onFiles fs _) fun _ _ _ spares => spares
  obtain ⟨mounted', second⟩ := run.refines bitmap mounted files fun _ _ _ spares => spares
  have held' := second.handle_kept held open'
  obtain ⟨y, same, file⟩ := second.onFiles files (fun _ _ _ spares => spares) fh _ held'
  cases same
  exact ⟨held', mounted'.disk.file file⟩

theorem handle_denotes_default : ∃ (s' : Disk) (v : Vfs) (x : Position), v.fdManager.get 10 = some (some x) ∧
    ∃ i, x = Layout.default.slot i ∧ Layout.default.Allocated s' i ∧ (Layout.default.inode s'.blocks i).type = kFile := by
  obtain ⟨s₀, x, s, v, made, before, -, handles, -⟩ := default_create (P := Callback.SparesOpen) fun _ _ => trivial
  have held : v.fdManager.get 10 = some (some x) := by
    rw [handles]
    exact ((Vfs.new_fresh defaultFs).get_open' 10).trans (if_pos rfl)
  -- another descriptor is released
  have steps : (Callback.vfs (.release 11)).Steps Layout.default 0 0 s v 0 .nothing s (v.sbRelease 11) :=
    ⟨.vfs (.release 11), .done⟩
  have run : VfsRun Layout.default 0 0 Callback.SparesOpen s v [⟨.vfs (.release 11), 0, .nothing⟩] s (v.sbRelease 11) :=
    .step .start trivial steps
  refine ⟨s, v.sbRelease 11, x, handle_denotes rfl blankImage_blank made before held run fun e member same => ?_⟩
  rw [List.mem_singleton.mp member] at same
  injection same with same
  injection same with same
  exact absurd same (by decide)

/-- What a `write` puts into a file a `read` finds, through any descriptor of the file and after any run that
does not write to the file, as long as the first descriptor is open; neither of the two fails. -/
theorem read_after_write (bitmap : L.inodeBitmapBlocks = kInodeBitmapBlocks) (mounted : Mounted L s v)
    (files : v.fdManager.OnFiles (L.fileTree s)) {s₁ s₂ s₃ : Disk} {v₁ v₂ v₃ : Vfs} {fh fh' size size' : Nat}
    {buf buf' read : Mem} {offset offset' ret ret' : Int} {out : Out} {x : Position}
    (held : v.fdManager.get fh = some (some x))
    (writes : (Callback.vfs (.write fh buf size offset)).Steps L uid gid s v ret out s₁ v₁)
    (inside : uint32 offset + size < 2147483648)
    (run : VfsRun L uid gid (fun m t cb => cb.SparesOpen m t ∧ cb.LeavesData m t x) s₁ v₁ events s₂ v₂)
    (open' : ∀ e ∈ events, e.callback ≠ .vfs (.release fh)) (held' : v₂.fdManager.get fh' = some (some x))
    (reads : (Callback.vfs (.read fh' buf' size' offset')).Steps L uid gid s₂ v₂ ret' (.bytes read) s₃ v₃)
    (inside' : uint32 offset' + size' < 2147483648) {i j : Nat} (position : i < size') (written : j < size)
    (same : uint32 offset' + i = uint32 offset + j) : ret = size ∧ (i : Int) < ret' ∧ read i = buf j := by
  obtain ⟨mounted₁, effect⟩ := mounted.after bitmap (fun fh _ => files fh) writes
  have files₁ := files.after (show Callback.SparesOpen _ _ (.vfs (.write fh buf size offset)) from trivial) effect
  have held₁ := effect.handle held fun same => by cases same
  -- a write below 2^31 through an open handle is not refused
  have patched : ret = size ∧
      Patched ((L.fileTree s).content x) (uint32 offset) size buf ((L.fileTree s₁).content x) := by
    have effect := effect.of_vfs
    generalize v₁.fdManager = m', L.fileTree s₁ = u at effect ⊢
    cases effect with
    | refused failed => exact absurd failed (not_refused held inside (.inl rfl))
    | removed removal => rcases removal with ⟨same, -⟩ | ⟨same, -⟩ <;> cases same
    | @written _ _ _ _ _ y bytes got writes =>
      cases held.symm.trans got
      rw [setContent_self]
      exact writes inside
  obtain ⟨wrote, patched⟩ := patched
  obtain ⟨mounted₂, second⟩ := run.refines bitmap mounted₁ files₁ fun _ _ _ both => both.1
  have kept := second.content_kept files₁ held₁ (fun _ _ _ both => both.1) (fun _ _ _ both => both.2) open'
  obtain ⟨-, effect'⟩ := mounted₂.after bitmap (fun fh _ => second.onFiles files₁ (fun _ _ _ both => both.1) fh) reads
  -- what was written is still there, so that the read starts inside the file
  have reached : uint32 offset' < ((L.fileTree s₂).content x).length := by
    have length := patched.length
    rw [kept]
    omega
  have effect' := effect'.of_vfs
  generalize v₃.fdManager = m', L.fileTree s₃ = u at effect'
  cases effect' with
  | refused failed => exact absurd failed (not_refused held' inside' (.inr ⟨rfl, by omega, reached⟩))
  | bytesRead got reads =>
    cases held'.symm.trans got
    rw [kept] at reads
    exact ⟨wrote, patched.readsAs reads inside' position written same⟩

theorem read_after_write_default : ∃ s v s' out, (Callback.vfs (.read 10 (fun _ => 0) 1 0)).Steps Layout.default 0 0 s v 1
    (.bytes out) s' v ∧ out 0 = 7 := by
  obtain ⟨s, v, s₁, s₂, x, out, mounted, files, held, writes, reads⟩ := default_write
  obtain ⟨-, -, byte⟩ := read_after_write rfl mounted files held writes (by decide) .start
    (fun e none => absurd none List.not_mem_nil) held reads (by decide) (Nat.zero_lt_one) (Nat.zero_lt_one) rfl
  exact ⟨s₁, v, s₂, out, reads, byte⟩

end

end Sbfs
