import Sbfs.Format
import Sbfs.VfsRuns

/-! # The tree of a new file system

On a disk whose bitmaps are clear, `create` leaves a tree with a root and nothing else
(`FreshRoot.fileTree`), so what `init_vfs` makes of it is `Mounted`. -/

namespace Sbfs

open Slot PackedMap ReqProg

/-- A directory without entries, the root of the tree. -/
def FileTree.new (root : Position) : FileTree where
  root
  find _ _ := none
  kind := Function.update (fun _ => none) root (some kDirectory)
  links := Function.update (fun _ => 0) root 1
  dots := Function.update (fun _ _ => none) root (dotsOf root root)
  content _ := []

theorem FileTree.new_sound (root : Position) : (FileTree.new root).Sound where
  tree := ⟨fun _ _ edge => (by cases edge), fun _ _ _ _ _ edge => (by cases edge)⟩
  root := by
    change Function.update (fun _ => none) root (some kDirectory) root = _
    rw [Function.update_self]
  source := fun edge => by cases edge
  target := fun edge => by cases edge
  links := fun edge => by cases edge

theorem FileTree.new_kind {root x : Position} {type : DiskInodeType} (kind : (FileTree.new root).kind x = some type) :
    x = root ∧ type = kDirectory := by
  change Function.update (fun _ => none) root (some kDirectory) x = some type at kind
  rw [Function.update_apply] at kind
  split at kind
  next same => exact ⟨same, (Option.some.inj kind).symm⟩
  next => cases kind

section

variable {L : Layout} {s : Disk} {i b : Nat}

namespace OnlyBit

variable {bm : Bitmap} {D : Nat → Block}

theorem used_iff (only : OnlyBit bm D i) : bm.Used D b ↔ b = bm.dataSegmentOffset + i := by
  constructor
  · rintro ⟨⟨lower, upper⟩, set⟩
    have is := (only.2 _ (by omega)).mp set
    omega
  · rintro rfl
    have inside := only.1
    refine ⟨⟨Nat.le_add_right _ _, by omega⟩, ?_⟩
    rw [Nat.add_sub_cancel_left, only.2 i inside]

end OnlyBit

namespace FreshRoot

theorem allocated_iff (fresh : FreshRoot L s) : L.Allocated s i ↔ i = L.inodeAreaStart := by
  have offset : L.formatted.inodeBitmap.dataSegmentOffset = L.inodeAreaStart := by rw [L.inodeBitmap_eq]
  rw [Layout.Allocated, fresh.inodeBit.used_iff, offset, Nat.add_zero]

theorem used_iff (fresh : FreshRoot L s) : L.formatted.dataBitmap.Used s.blocks b ↔ b = L.dataAreaStart := by
  have offset : L.formatted.dataBitmap.dataSegmentOffset = L.dataAreaStart := by rw [L.dataBitmap_eq]
  rw [fresh.dataBit.used_iff, offset, Nat.add_zero]

theorem here (fresh : FreshRoot L s) : L.Allocated s L.inodeAreaStart := fresh.allocated_iff.mpr rfl

theorem isDirectory (fresh : FreshRoot L s) : IsDirectory (L.inode s.blocks L.inodeAreaStart) s.blocks :=
  .dots fresh.record.type (by rw [fresh.record.size]; rfl) fresh.entries

/-- The root has one block. -/
theorem owns_iff (fresh : FreshRoot L s) {x : Slot} : (L.inode s.blocks L.inodeAreaStart).Owns x ↔ x = data 0 := by
  have one : dataBlocks (L.inode s.blocks L.inodeAreaStart).size.toNat = 1 := by
    rw [fresh.record.size]
    rfl
  rw [DiskInode.Owns, one]
  cases x with
  | data k => simp [Valid]
  | ind1 => simp [Valid]
  | ind2 => simp [Valid]
  | second q => simp [Valid]

theorem slotId (fresh : FreshRoot L s) : (L.inode s.blocks L.inodeAreaStart).slotId s.blocks (data 0) = L.dataAreaStart := by
  have := rootSlot_between L
  have := L.total32
  rw [DiskInode.slotId_direct (by omega), fresh.record.first (by omega)]

theorem wellMapped (fresh : FreshRoot L s) :
    WellMapped L.formatted.dataBitmap (L.inode s.blocks L.inodeAreaStart) s.blocks := by
  constructor
  case closed => exact closed_valid _
  case used =>
    intro x owns
    rw [fresh.owns_iff.mp owns, fresh.used_iff, fresh.slotId]
  case inj =>
    intro x y owns owns' _
    rw [fresh.owns_iff.mp owns, fresh.owns_iff.mp owns']
  case no1 => exact fun _ => fresh.record.one
  case no2 => exact fun _ => fresh.record.two

theorem populated (fresh : FreshRoot L s) (device : L.areaEnd ≤ s.count) (failId : s.count ≤ kFailId) :
    Populated L s (L.Allocated s) := by
  have only : ∀ {i}, L.Allocated s i → i = L.inodeAreaStart := fresh.allocated_iff.mp
  refine ⟨device, failId, fun i here => only here ▸ rootSlot L, L.segment device, fun i here => ?_,
    fun i j here there b _ _ => (only here).trans (only there).symm⟩
  rw [only here]
  exact fresh.wellMapped

/-- No used block is lost. -/
theorem tight (fresh : FreshRoot L s) : Tight L.formatted.dataBitmap s.blocks (L.Allocated s) (L.inode s.blocks) := by
  intro b used
  refine ⟨L.inodeAreaStart, fresh.here, data 0, fresh.owns_iff.mpr rfl, ?_⟩
  rw [fresh.slotId, fresh.used_iff.mp used]

/-- The entries of the root are `.` and `..`, so none counts. -/
theorem dots (fresh : FreshRoot L s) {x : Name × Nat} (listed : x ∈ L.entriesOf s i) : isDot x.1 = true := by
  rw [Layout.entriesOf] at listed
  split at listed
  next both =>
    rw [fresh.allocated_iff.mp both.1, fresh.entries] at listed
    rcases List.mem_pair.mp listed with rfl | rfl
    · rfl
    · rfl
  next => exact absurd listed List.not_mem_nil

theorem counted (fresh : FreshRoot L s) (device : L.areaEnd ≤ s.count) (failId : s.count ≤ kFailId) :
    Counted L (fun j => if j = L.inodeAreaStart then 1 else 0) s := by
  constructor
  case state => exact fresh.populated device failId
  case dirs => exact fun i here _ => fresh.allocated_iff.mp here ▸ fresh.isDirectory
  case targets =>
    intro i x listed notDot
    rw [fresh.dots listed] at notDot
    cases notDot
  case outside => exact fun j free => if_neg fun is => free (fresh.allocated_iff.mpr is)
  case law =>
    intro j here
    have none : nameCount L s j = 0 := Finset.sum_eq_zero fun i _ => namesIn_eq_zero (fun x => fresh.dots) j
    rw [none, fresh.allocated_iff.mp here, if_pos rfl, Layout.links, fresh.record.linkCnt]
    rfl

/-- What the tree has of the root alone. -/
theorem atPlace (fresh : FreshRoot L s) {β : Type} {f : Nat → β} {other : β} (rest : ∀ j, ¬ L.Allocated s j → f j = other) :
    L.atPlace f other = Function.update (fun _ => other) (L.slot L.inodeAreaStart) (f L.inodeAreaStart) := by
  funext p
  rw [Function.update_apply]
  split
  next is => rw [is, Layout.atPlace_slot (rootSlot L)]
  next ne =>
    rw [Layout.atPlace]
    split
    next place =>
      refine rest _ fun here => ne ?_
      rw [place, fresh.allocated_iff.mp here]
    next => rfl

/-- The names in the root. -/
theorem named (fresh : FreshRoot L s) (p : Position) (name : Name) : L.named (L.nameAt s) p name =
    if p = L.slot L.inodeAreaStart then dotsOf (L.slot L.inodeAreaStart) (L.slot L.inodeAreaStart) name else none := by
  have entries : L.entriesOf s L.inodeAreaStart = newEntries kDirectory L.inodeAreaStart L.inodeAreaStart := by
    rw [Layout.entriesOf_dir fresh.here fresh.record.type, fresh.entries]
    rfl
  have free : ∀ j, ¬ L.Allocated s j → L.nameAt s j = fun _ => none := by
    intro j free
    rw [Layout.nameAt, Layout.entriesOf, if_neg fun both => free both.1]
    rfl
  rw [Layout.named, fresh.atPlace free, Function.update_apply]
  split
  next =>
    rw [Layout.nameAt, entries, find_newEntries, if_pos rfl, dotsOf]
    split
    next => rfl
    next =>
      split
      next => rfl
      next => rfl
  next => rfl

/-- The tree of the disk. -/
theorem fileTree (fresh : FreshRoot L s) : L.fileTree s = .new (L.slot L.inodeAreaStart) := by
  have other : ∀ {name}, isDot name = false → dotsOf (L.slot L.inodeAreaStart) (L.slot L.inodeAreaStart) name = none := by
    intro name notDot
    simp only [isDot, Bool.or_eq_false_iff, beq_eq_false_iff_ne] at notDot
    rw [dotsOf, if_neg notDot.1, if_neg notDot.2]
  refine FileTree.eq_of rfl (fun p name => ?find) ?kind ?links (fun p name => ?dots) ?content
  case find =>
    change (if isDot name then none else L.named (L.nameAt s) p name) = none
    cases dot : isDot name with
    | true => rfl
    | false => rw [fresh.named, other dot, ite_self, if_neg Bool.false_ne_true]
  case kind =>
    have kinds : L.atPlace (L.kindAt s) none = _ := fresh.atPlace fun j free => if_neg free
    rw [Layout.kindAt, if_pos fresh.here, fresh.record.type] at kinds
    exact kinds
  case links =>
    have links : L.atPlace (L.linksAt s) 0 = _ := fresh.atPlace fun j free => if_neg free
    rw [Layout.linksAt, if_pos fresh.here, Layout.links, fresh.record.linkCnt] at links
    exact links
  case dots =>
    change (if isDot name then L.named (L.nameAt s) p name else none) =
      Function.update (fun _ _ => none) (L.slot L.inodeAreaStart) (dotsOf _ _) p name
    rw [fresh.named, Function.update_apply]
    cases dot : isDot name with
    | true =>
      rw [if_pos rfl]
      split
      next => rfl
      next => rfl
    | false =>
      rw [if_neg Bool.false_ne_true]
      split
      next => rw [other dot]
      next => rfl
  case content =>
    change L.atPlace (L.contentAt s) [] = fun _ => []
    rw [fresh.atPlace fun j => Layout.contentAt_free, Layout.contentAt_dir fresh.record.type]
    exact Function.update_eq_self _ fun _ => []

end FreshRoot

/-! ## Mounting -/

/-- The globals that `init_vfs` makes for a file system. -/
def Vfs.new (fs : SBFileSystem) : Vfs := ⟨fs.superBlock.rootInodePos, .new kPathCacheSize, .new⟩

theorem Vfs.new_coherent (fs : SBFileSystem) {ns : Namespace} (root : fs.superBlock.rootInodePos = ns.root)
    (tree : ns.Tree) : Coherent (.new fs) ns :=
  ⟨root, tree, fun _ none => absurd none List.not_mem_nil⟩

theorem Vfs.new_onFiles (fs : SBFileSystem) (t : FileTree) : (Vfs.new fs).fdManager.OnFiles t := by
  intro fh inode found
  rw [FDManager.get] at found
  split at found
  next => cases found
  next => cases found

theorem FreshRoot.mounted (fresh : FreshRoot L s) (device : L.areaEnd ≤ s.count) (failId : s.count ≤ kFailId) :
    Mounted L s (.new (L.formatted.setRoot (L.slot L.inodeAreaStart))) := by
  have sound : (L.fileTree s).Sound := fresh.fileTree ▸ FileTree.new_sound _
  exact ⟨⟨rfl, ⟨_, fresh.counted device failId⟩, sound⟩, Vfs.new_coherent _ rfl sound.tree⟩

variable {uid gid : UInt16}

/-- `create` on a disk whose bitmaps are clear. -/
theorem run_create_fresh (device : L.totalBlocks ≤ s.count) (noInode : NoBit L.formatted.inodeBitmap s.blocks)
    (noData : NoBit L.formatted.dataBitmap s.blocks) :
    ∃ s', (SBFileSystem.create L.totalBlocks L.inodeBitmapBlocks uid gid).run s =
      (L.formatted.setRoot (L.slot L.inodeAreaStart), s') ∧ s'.count = s.count ∧ FreshRoot L s' := by
  have inodeStart : 1 ≤ L.formatted.inodeBitmap.startBlockId := by rw [L.inodeBitmap_eq]
  have dataStart : 1 ≤ L.formatted.dataBitmap.startBlockId := by
    rw [L.dataBitmap_eq]
    simp only [Layout.dataBitmapStart]
    omega
  have put : ∀ blk, L.totalBlocks ≤ (s.put 0 blk).count := fun _ => device
  rw [run_create]
  exact run_createRoot_fresh (put _) ((noBit_put_zero inodeStart _).mpr noInode) ((noBit_put_zero dataStart _).mpr noData)

/-! ### Names in the root -/

section

variable {C : InodeReq → Disk → Prop} {σ : Type} {device : Handler Block σ} {disk : σ → Disk} {m m' : σ} {v : Vfs}
  {c : Name} {mode : UInt16} {r : Ret} {inode : Option Position} (root : v.root = L.slot L.inodeAreaStart)
  (isDir : (L.fileTree (disk m)).kind (L.slot L.inodeAreaStart) = some kDirectory)
  (absent : (L.fileTree (disk m)).find (L.slot L.inodeAreaStart) c = none) (part : IsPart c)

theorem isPart_one (part : IsPart c) : ∀ d ∈ [] ++ [c], IsPart d := by
  intro d member
  rwa [List.mem_singleton.mp member]

theorem rootSlot_isValid : ¬ (!(L.slot L.inodeAreaStart).isValid) = true := by
  rw [Layout.slot_valid (rootSlot L)]
  exact Bool.false_ne_true

include root

/-- The parent of a name in the root is found without a look at the disk. -/
theorem resolve_slash : v.resolve (pathOf [] ++ [slash]) = .done (L.slot L.inodeAreaStart, v) := by
  rw [← root]
  rfl

/-- `create` of a name in the root, on any device; it is not looked at what `Inode::create` returns. -/
theorem create_makesOn (component : IsComponent c)
    (answers : L.servedOn uid gid C device disk (.create (L.slot L.inodeAreaStart) c kFile mode) m (r, inode) m') :
    (Callback.vfs (.create (canonical [c]) mode)).MakesOn L uid gid C device disk m v 0
      (.handle (some v.fdManager.fdCounter)) m' { v with fdManager := (v.fdManager.open' inode).2 } := by
  refine runs_bind.mpr ⟨(0, some v.fdManager.fdCounter, _), m', ?_, .done⟩
  rw [Vfs.sbCreate, ← List.nil_append [c], canonical_concat, splitFromLastSlash_pathOf [] component]
  dsimp only
  rw [resolve_slash root]
  refine runs_bind.mpr ⟨_, _, .done, ?_⟩
  rw [if_neg rootSlot_isValid]
  exact runs_bind.mpr ⟨_, m', runs_call.mpr answers, .done⟩

include isDir absent part

/-- `mkdir` of a name in the root, on any device. -/
theorem mkdir_stepsOn
    (answers : L.servedOn uid gid C device disk (.create (L.slot L.inodeAreaStart) c kDirectory mode) m (r, inode) m') :
    (Callback.vfs (.mkdir (canonical [c]) mode)).StepsOn L uid gid C device disk m v 0 .nothing m' v := by
  refine ⟨.vfs (.mkdir mode (isPart_one part) ⟨rfl, isDir⟩ absent), runs_bind.mpr ⟨(0, _), m', ?_, .done⟩⟩
  rw [Vfs.sbMkdir, ← List.nil_append [c], canonical_concat, splitFromLastSlash_pathOf [] part.component]
  dsimp only
  rw [resolve_slash root]
  refine runs_bind.mpr ⟨_, _, .done, ?_⟩
  rw [if_neg rootSlot_isValid]
  exact runs_bind.mpr ⟨_, m', runs_call.mpr answers, .done⟩

theorem create_stepsOn
    (answers : L.servedOn uid gid C device disk (.create (L.slot L.inodeAreaStart) c kFile mode) m (r, inode) m') :
    (Callback.vfs (.create (canonical [c]) mode)).StepsOn L uid gid C device disk m v 0
      (.handle (some v.fdManager.fdCounter)) m' { v with fdManager := (v.fdManager.open' inode).2 } :=
  ⟨.vfs (.create mode (isPart_one part) ⟨rfl, isDir⟩ absent), create_makesOn root part.component answers⟩

end

end

end Sbfs
