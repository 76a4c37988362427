import Sbfs.LostBlocks

/-! # The super block

`create` writes the super block to block 0 and `open` reads it back, so a file system can be opened again as long as
block 0 is kept (`run_open`).  The methods of `Inode` keep it, but for one slip: a shrink that leaves a group of
blocks under `indirect2` writes an index block astray, and the first of them lands in block 0. -/

namespace Sbfs

open Slot PackedMap ReqProg

namespace SuperBlock

/-- The super block as block 0 has it. -/
def ofBlock (blk : Block) : SuperBlock where
  magic := entry blk 0
  totalBlocks := entry blk 1
  inodeBitmapBlocks := entry blk 2
  inodeAreaBlocks := entry blk 3
  dataBitmapBlocks := entry blk 4
  dataAreaBlocks := entry blk 5
  rootInodePos := ⟨entry blk 6, entry blk 7⟩

def isValid (sb : SuperBlock) : Bool := sb.magic == kFSMagic

/-- All fields are of type `uint32_t`. -/
structure Fits (sb : SuperBlock) : Prop where
  magic : sb.magic < 4294967296
  total : sb.totalBlocks < 4294967296
  inodeBitmap : sb.inodeBitmapBlocks < 4294967296
  inodeArea : sb.inodeAreaBlocks < 4294967296
  dataBitmap : sb.dataBitmapBlocks < 4294967296
  dataArea : sb.dataAreaBlocks < 4294967296
  rootId : sb.rootInodePos.blockId < 4294967296
  rootOffset : sb.rootInodePos.blockOffset < 4294967296

theorem ofBlock_toBlock {sb : SuperBlock} (fits : sb.Fits) : ofBlock sb.toBlock = sb := by
  obtain ⟨magic, total, inodeBitmap, inodeArea, dataBitmap, dataArea, rootId, rootOffset⟩ := fits
  simp (disch := omega) only [ofBlock, toBlock, entry_setEntry]
  rfl

end SuperBlock

namespace SBFileSystem

/-- `SBFileSystem::open` on the device that it has opened.  Without a valid super block the object that it returns
has no bitmaps; what a failed read leaves in the super block is indeterminate, and counts as not valid. -/
def open' : Prog (Option SBFileSystem) := do
  match ← DevProg.readBlk 0 with
  | none => return none
  | some blk =>
    let superBlock := SuperBlock.ofBlock blk
    if !superBlock.isValid then return none
    return some (initBitmapAndBlock superBlock)

end SBFileSystem

/-- The file system that `create` returns. -/
def Layout.created (L : Layout) : SBFileSystem := L.formatted.setRoot (L.slot L.inodeAreaStart)

section

variable {L : Layout} {owner group uid gid : UInt16} {s s₁ s' : Disk} {fs : SBFileSystem}

theorem Layout.created_fits (L : Layout) : L.created.superBlock.Fits := by
  have inodes := L.someInodes
  have room := L.someData
  have total := L.total32
  have sums := L.areaEnd_lt
  have offset : (L.slot L.inodeAreaStart).blockOffset = L.inodeAreaStart % 32 * 128 := rfl
  have root := rootSlot_between L
  rw [Layout.areaEnd, Layout.dataAreaStart] at sums
  rw [Layout.created, L.formatted_eq]
  constructor
  case magic => exact (show kFSMagic < 4294967296 by decide)
  case total => exact total
  case rootId => exact (show (L.slot L.inodeAreaStart).blockId < 4294967296 by omega)
  case rootOffset => exact (show (L.slot L.inodeAreaStart).blockOffset < 4294967296 by omega)
  all_goals
    simp only [SBFileSystem.setRoot]
    omega

/-- The super block of the file system is on the device. -/
structure HasSuper (L : Layout) (s : Disk) : Prop where
  device : 0 < s.count
  block : s.blocks 0 = L.created.superBlock.toBlock

/-- `open` returns what `create` returned. -/
theorem HasSuper.run_open (has : HasSuper L s) : SBFileSystem.open'.run s = (some L.created, s) := by
  have read := SuperBlock.ofBlock_toBlock L.created_fits
  have valid : L.created.superBlock.isValid = true := by
    rw [Layout.created, L.formatted_eq]
    rfl
  have again : SBFileSystem.initBitmapAndBlock L.created.superBlock = L.created := rfl
  rw [SBFileSystem.open', DevProg.run_bind, DevProg.run_readBlk_of_lt has.device, has.block]
  simp only [read, valid, Bool.not_true, Bool.false_eq_true, if_false, again, DevProg.run_pure]

/-- The last thing that `create` does is to write the super block. -/
theorem run_create_super (device : 0 < s.count)
    (made : (SBFileSystem.create L.totalBlocks L.inodeBitmapBlocks owner group).run s = (fs, s')) :
    s'.blocks 0 = fs.superBlock.toBlock := by
  have count := DevProg.count_of_run made
  rw [run_create] at made
  obtain ⟨id, s₁, inode⟩ : ∃ id s₁, L.formatted.allocInode.run
    (s.put 0 (SuperBlock.format L.totalBlocks L.inodeBitmapBlocks).toBlock) = (id, s₁) := ⟨_, _, rfl⟩
  obtain ⟨did, s₂, block⟩ : ∃ did s₂, L.formatted.allocData.run s₁ = (did, s₂) := ⟨_, _, rfl⟩
  obtain ⟨d, s₃, -, -, run⟩ := run_createRoot _ owner group inode block
  rw [run] at made
  cases made
  exact Store.put_blocks_same _ _ (count ▸ device)

/-! ## The methods -/

theorem HasSuper.kept (has : HasSuper L s) (keeps : KeepsSuper s s') : HasSuper L s' :=
  ⟨keeps.count ▸ has.device, (keeps.blocks 0 (lt_irrefl 0)).trans has.block⟩

section

variable {bm : Bitmap} {d d' : DiskInode} {newSize : Nat} {inode : Option Position}

/-- A resize without the slip. -/
theorem Resized.keepsSuper (resized : Resized bm newSize inode d s d' s') (segment : bm.Segment s.count)
    (place : ∀ pos, inode = some pos → 0 < pos.blockId) (spares : ¬ Strays d newSize) : KeepsSuper s s' := by
  have := segment.high
  have := segment.after
  refine resized.touches.mono fun b allowed => ?_
  obtain holds | ⟨x, -, owns, rfl⟩ | ⟨pos, same, rfl⟩ | ⟨strays, -⟩ := allowed
  · have := holds.1
    omega
  · have := (resized.map.used x owns).1.1
    omega
  · exact place pos same
  · exact absurd strays spares

end

theorem writeInode_keepsSuper {i : Nat} (slotId : L.SlotId i) (d : DiskInode) (s : Disk) :
    KeepsSuper s ((writeInode (L.slot i) d).run s).2 := by
  have := Layout.slot_area slotId
  rw [Layout.inodeAreaStart] at this
  exact (writeInode_touches _ d).mono fun b same => by omega

theorem modifyInode_keepsSuper {i : Nat} (slotId : L.SlotId i) (f : DiskInode → DiskInode) (s : Disk) :
    KeepsSuper s ((modifyInode (L.slot i) f).run s).2 := by
  obtain ⟨r, read⟩ : ∃ r, (readInode (L.slot i)).run s = (r, s) := by
    by_cases onDevice : (L.slot i).blockId < s.count
    · rw [readInode, DevProg.run_bind, DevProg.run_readBlk_of_lt onDevice]
      exact ⟨_, rfl⟩
    · rw [readInode, DevProg.run_bind, DevProg.run_readBlk_of_ge (Nat.le_of_not_lt onDevice)]
      exact ⟨_, rfl⟩
  refine .bind read (.refl _ _) ?_
  cases r with
  | none => exact .refl _ _
  | some d => exact writeInode_keepsSuper slotId _ s

section

variable {live : Nat → Prop} {a n x : Nat} {name : Name} {refs : Nat → Nat} {d del : DiskInode} {t : FileTree}

/-- The steps by which `unlink` and `remove` take entry `j` of block `i` out. -/
theorem Populated.keepsSuper_takeOut (state : Populated L s live) (here : live a) (ok : Searchable L a s)
    (quiet : Touches (fun _ => False) s s₁) (retimed : Retimed (L.inode s.blocks a) d) {i j : Nat} {e : Name × Nat}
    (low : j < 16) (entry : ((L.inode s.blocks a).entries s.blocks)[16 * i + j]? = some e)
    (spares : ¬ Strays (L.inode s.blocks a) ((L.inode s.blocks a).size.toNat - 256)) {d₁ : DiskInode} {s₂ : Disk}
    {r : Ret × DiskInode} (move : (moveLast d i j).run s₁ = ((.kSuccess, d₁), s₂))
    (shrink : (d₁.resize (uint32 ((d₁.size.toNat : Int) - 256)) L.formatted.dataBitmap (some (L.slot a))).run s₂ =
      (r, s')) : KeepsSuper s₁ s' := by
  have state₁ := (state.underneath (quiet.mono fun _ => False.elim)).1
  have segment := state₁.volume.segment
  have slotId := state.slots a here
  have area := Layout.slot_area slotId
  have inside := (List.getElem?_eq_some_iff.mp entry).1
  have small := ok.small
  have copy : SameMap (L.inode s₁.blocks a) d := by
    rw [quiet.quiet]
    exact .of_retimed retimed
  have size : d.size = (L.inode s.blocks a).size := retimed.size
  have whole := ok.dir.aligned
  have aligned : d.size.toNat = 256 * ((L.inode s.blocks a).entries s.blocks).length := size ▸ whole
  obtain ⟨d₁', s₂', move', -, es, moved, length, -⟩ := run_moveLast (W := fun _ => False)
    (copy.map (state₁.volume.map a here)) segment state₁.failId aligned (by omega) low inside
  cases move.symm.trans move'
  have size₁ : d₁.size.toNat = (L.inode s.blocks a).size.toNat := by
    rw [moved.size, length, ← aligned, size]
  -- the size does not wrap, as the directory has an entry
  have cut : uint32 ((d₁.size.toNat : Int) - 256) = (L.inode s.blocks a).size.toNat - 256 := by
    rw [uint32, size₁]
    omega
  rw [cut] at shrink
  have segment₂ := moved.evolved.segment segment
  obtain ⟨d', s'', run, resized⟩ := run_resize moved.evolved.map segment₂
    (show (L.inode s.blocks a).size.toNat - 256 < 4294967296 by omega)
    (by
      rw [growth_shrink (by rw [size₁]; simp only [dataBlocks]; omega)]
      exact Nat.zero_le _)
    (fun pos same => Option.some.inj same ▸ Layout.slot_low slotId)
  cases shrink.symm.trans run
  refine (moved.evolved.keepsSuper segment fun _ => False.elim).trans (resized.keepsSuper segment₂ (fun pos same => ?_) ?_)
  · rw [← Option.some.inj same]
    rw [Layout.inodeAreaStart] at area
    omega
  · rwa [Strays, size₁]

theorem Counted.keepsSuper_link (ok : Counted L refs s) (on : CallOn L s a) (part : IsPart name) (slotX : L.SlotId x)
    (replace : Bool) : KeepsSuper s ((Inode.link L.formatted (L.slot a) name (L.slot x) replace).run s).2 := by
  have searchable := ok.searchable on
  have small := searchable.small
  have slotA := ok.state.slots a on.here
  obtain ⟨r, d, s₁, scan, retimed, quiet, answers, -⟩ := ok.state.run_scan on.here searchable part.proper
  obtain ⟨s₂, modify, state₂, copy, -, -, recounted, -⟩ :=
    ok.state.run_modifyInode_copy on.here slotX (· + 1) quiet retimed
  have counted : KeepsSuper s₁ s₂ := by
    have keeps := modifyInode_keepsSuper slotX (fun d => { d with linkCnt := d.linkCnt + 1 }) s₁
    rwa [modify] at keeps
  have opened := Populated.openCopy on.here searchable retimed copy recounted
  have aligned := opened.aligned
  have map := copy.map (state₂.volume.map a on.here)
  have segment := state₂.volume.segment
  refine .bind (ok.state.run_readInode on.here) (.refl _ _) ?_
  dsimp only
  rw [if_neg (not_not_intro on.type)]
  refine .bind scan (KeepsSuper.of_quiet quiet) ?_
  cases answers with
  | failed => exact .refl _ _
  | @found i j y low entry =>
    cases replace with
    | false => exact .refl _ _
    | true =>
      have inside := (List.getElem?_eq_some_iff.mp entry).1
      have place : entryOffset i j = 256 * (16 * i + j) := by
        rw [entryOffset]
        omega
      obtain ⟨d₃, s₃, write, written⟩ := run_overwrite (W := fun _ => False) map segment state₂.failId (by omega)
        (dirEntry name (L.formatted.getDiskInodeId (L.slot x))) (show 0 < 256 by omega)
        (show 256 * (16 * i + j) + 256 ≤ d.size.toNat by omega)
      rw [← place] at write
      refine .bind modify counted (.bind write (written.evolved.keepsSuper segment fun _ => False.elim) ?_)
      exact writeInode_keepsSuper slotA _ _
  | absent =>
    obtain ⟨ret, d₃, s₃, append, extended⟩ := Inode.run_appendEntry_any map segment state₂.failId aligned (by omega) name
      (L.formatted.getDiskInodeId (L.slot x))
    refine .bind modify counted (.bind append (extended.dropped.evolved.keepsSuper segment fun _ => False.elim) ?_)
    cases ret with
    | kFail => exact .refl _ _
    | kSuccess => exact writeInode_keepsSuper slotA _ _

theorem Counted.keepsSuper_unlink (ok : Counted L refs s) (on : CallOn L s a)
    (few : ((L.inode s.blocks a).entries s.blocks).length ≤ 33152) (part : IsPart name)
    (spares : ¬ Strays (L.inode s.blocks a) ((L.inode s.blocks a).size.toNat - 256)) :
    KeepsSuper s ((Inode.unlink L.formatted (L.slot a) name).run s).2 := by
  have searchable := ok.searchable on
  obtain ⟨r, d, s₁, scan, retimed, quiet, answers, -⟩ := ok.state.run_scan on.here searchable part.proper
  have first : ∀ {r s₃}, (Inode.detach L.formatted (L.slot a) name).run s = (r, s₃) → KeepsSuper s s₃ →
      (∀ y, r.2 = some y → ∃ i, L.SlotId i ∧ y = L.slot i) →
      KeepsSuper s ((Inode.unlink L.formatted (L.slot a) name).run s).2 := by
    rintro ⟨ret, y⟩ s₃ run keeps place
    refine .bind run keeps ?_
    cases ret with
    | kFail => exact .refl _ _
    | kSuccess =>
      cases y with
      | none => exact .refl _ _
      | some y =>
        obtain ⟨i, slotId, rfl⟩ := place y rfl
        exact .bind_any (modifyInode_keepsSuper slotId _ _) fun _ _ => .refl _ _
  have isDir : ¬ (L.inode s.blocks a).type ≠ kDirectory := not_not_intro on.type
  cases answers with
  | failed =>
    refine first (r := (.kFail, none)) ?_ (KeepsSuper.of_quiet quiet) fun y none => by cases none
    simp only [Inode.detach, DevProg.run_bind, ok.state.run_readInode on.here, isDir, if_false, scan, DevProg.run_pure]
  | absent =>
    refine first (r := (.kFail, none)) ?_ (KeepsSuper.of_quiet quiet) fun y none => by cases none
    simp only [Inode.detach, DevProg.run_bind, ok.state.run_readInode on.here, isDir, if_false, scan, DevProg.run_pure]
  | @found i j x low entry =>
    obtain ⟨d₁, s₂, d', s₃, move, shrink, -⟩ := ok.state.run_takeOut on.here searchable few quiet retimed low entry
    have keeps := ok.state.keepsSuper_takeOut on.here searchable quiet retimed low entry spares move shrink
    have there := ok.bound_allocated on (isDot_of_isPart part) (List.mem_of_getElem? entry)
    refine first (r := (.kSuccess, some (L.slot x))) ?_ ((KeepsSuper.of_quiet quiet).trans keeps) fun y same =>
      ⟨x, ok.state.slots x there, (Option.some.inj same).symm⟩
    have place : L.formatted.getDiskInodePos x = L.slot x := rfl
    simp only [Inode.detach, DevProg.run_bind, ok.state.run_readInode on.here, isDir, if_false, scan, move, shrink, place,
      DevProg.run_pure]

/-- The name is the last one of its inode. -/
theorem Counted.keepsSuper_remove (ok : Counted L refs s) (on : CallOn L s a)
    (few : ((L.inode s.blocks a).entries s.blocks).length ≤ 33152) (part : IsPart name)
    (last : ∀ x, (name, x) ∈ (L.inode s.blocks a).entries s.blocks → x ≠ a ∧ L.links s.blocks x = 1)
    (spares : ¬ Strays (L.inode s.blocks a) ((L.inode s.blocks a).size.toNat - 256)) :
    KeepsSuper s ((Inode.remove L.formatted (L.slot a) name).run s).2 := by
  have searchable := ok.searchable on
  obtain ⟨r, d, s₁, scan, retimed, quiet, answers, -⟩ := ok.state.run_scan on.here searchable part.proper
  have isDir : ¬ (L.inode s.blocks a).type ≠ kDirectory := not_not_intro on.type
  cases answers with
  | failed =>
    simp only [Inode.remove, DevProg.run_bind, ok.state.run_readInode on.here, isDir, if_false, scan, DevProg.run_pure]
    exact .of_quiet quiet
  | absent =>
    simp only [Inode.remove, DevProg.run_bind, ok.state.run_readInode on.here, isDir, if_false, scan, DevProg.run_pure]
    exact .of_quiet quiet
  | @found i j x low entry =>
    have member := List.mem_of_getElem? entry
    obtain ⟨ne, one⟩ := last x member
    have there := ok.bound_allocated on (isDot_of_isPart part) member
    have zero : (L.inode s.blocks x).linkCnt - 1 = 0 := by
      rw [show (L.inode s.blocks x).linkCnt = 1 from one]
      rfl
    have read : (readInode (L.slot x)).run s₁ = (some (L.inode s.blocks x), s₁) := by
      rw [(ok.state.underneath (quiet.mono fun _ => False.elim)).1.run_readInode there, quiet.quiet]
    obtain ⟨d₁, s₂, d₂, s₃, move, shrink, marks, edited, -⟩ :=
      ok.state.run_takeOut on.here searchable few quiet retimed low entry
    have taken := ok.state.keepsSuper_takeOut on.here searchable quiet retimed low entry spares move shrink
    -- the bit and the blocks of the inode
    have state₃ := edited.state
    obtain ⟨s₄, free, touches, -⟩ := Bitmap.run_free_id state₃.inodeBitmap_fits ((marks.used x).mpr there).1
      (ok.state.slots x there).2
    obtain ⟨state₄, same₄⟩ := state₃.underneath (touches.mono fun b holds => (Layout.marks_between holds).2)
    have copy : SameMap (L.inode s₄.blocks x) { L.inode s.blocks x with linkCnt := 0 } := by
      rw [(same₄ x there).inode, (edited.others x there ne).inode]
      exact (SameMap.recounted _ _).symm.trans (.recounted _ _)
    have segment := state₄.volume.segment
    obtain ⟨d', s', cut, resized⟩ := run_resize (copy.map (state₄.volume.map x there)) segment
      (show 0 < 4294967296 by decide) (by rw [growth_shrink (Nat.zero_le _)]; exact Nat.zero_le _) (own_none _)
    have place : L.formatted.getDiskInodePos x = L.slot x := rfl
    have free' : (L.formatted.freeInode x).run s₃ = (.kSuccess, s₄) := free
    simp only [Inode.remove, DevProg.run_bind, ok.state.run_readInode on.here, isDir, if_false, scan, place, read, zero,
      if_true, move, shrink, free', cut, DevProg.run_pure]
    refine (KeepsSuper.of_quiet quiet).trans (taken.trans (.trans (touches.mono fun b holds =>
      (Layout.marks_between holds).1) (resized.keepsSuper segment (fun pos none => by cases none) fun strays => ?_)))
    exact absurd strays.1 (by decide)

theorem Counted.keepsSuper_createInode (ok : Counted L refs s) (on : CallOn L s a) {type : DiskInodeType}
    {mode : UInt16} (head : (L.formatted.inodeBitmap.freeIds s.blocks).head? = some n) (slotN : L.SlotId n) :
    KeepsSuper s ((createInode L.formatted uid gid (L.slot a) name type mode).run s).2 := by
  obtain ⟨d, s₁, make, quiet, empty, rfl, -⟩ := DiskInode.run_new type uid gid s
  have blocks := quiet.quiet
  have first := TreeKept.of_quiet ok quiet
  have ok₁ := first.counted ok
  have on₁ : CallOn L s₁ a := ⟨by rw [Layout.Allocated, blocks]; exact on.here, by rw [blocks]; exact on.type, by
    rw [blocks]
    exact on.small⟩
  have state₁ := ok₁.state
  have searchable := ok₁.searchable on₁
  have small := searchable.small
  refine .bind make (KeepsSuper.of_quiet quiet) ?_
  have moded : DiskInode.Empty { d with mode := d.mode ||| (mode &&& 511) } :=
    ⟨empty.size, empty.direct, empty.one, empty.two⟩
  generalize ({ d with mode := d.mode ||| (mode &&& 511) } : DiskInode) = d₀ at moded
  -- the inode
  obtain ⟨n', s₂, alloc, assigned⟩ := state₁.run_allocInode fun m head' => by
    rw [blocks, head] at head'
    exact Option.some.inj head' ▸ slotN
  obtain rfl : n = n' := by
    obtain same | ⟨full, -⟩ := assigned.place
    · rw [blocks, head] at same
      exact Option.some.inj same
    · rw [blocks] at full
      rw [full] at head
      cases head
  have marked : KeepsSuper s₁ s₂ := by
    have touches := Bitmap.touches_alloc state₁.inodeBitmap_fits
    rw [← SBFileSystem.allocInode, alloc] at touches
    exact touches.mono fun b holds => (Layout.marks_between holds).1
  obtain ⟨state₂, same₂⟩ := state₁.underneath assigned.touches
  have aligned : (L.inode s₂.blocks a).size.toNat = 256 * ((L.inode s₁.blocks a).entries s₁.blocks).length := by
    rw [(same₂ a on₁.here).inode]
    exact searchable.dir.aligned
  have segment₂ := state₂.volume.segment
  -- the entry, and the entries of a directory
  obtain ⟨ret, d₂, s₃, append, extended⟩ := Inode.run_appendEntry_any (state₂.volume.map a on₁.here) segment₂ state₂.failId
    aligned (by omega) name n
  have appended := extended.dropped.evolved.keepsSuper segment₂ fun _ => False.elim
  have segment₃ := extended.dropped.evolved.segment segment₂
  rw [(same₂ a on₁.here).inode] at append
  refine .bind (state₁.run_readInode on₁.here) (.refl _ _) ?_
  dsimp only
  rw [if_neg (not_not_intro on₁.type)]
  refine .bind alloc marked (.bind append appended ?_)
  cases ret with
  | kFail => exact .refl _ _
  | kSuccess =>
    obtain ⟨ret', d₃, s₄, dots, dropped, -⟩ := run_newInode segment₃
      (extended.dropped.evolved.touches.count ▸ state₂.failId) moded (state₁.slots a on₁.here).2 n
    refine .bind (Layout.diskInodeId_slot (state₁.slots a on₁.here) ▸ dots)
      (dropped.evolved.keepsSuper segment₃ fun _ => False.elim) ?_
    cases ret' with
    | kFail => exact .refl _ _
    | kSuccess =>
      refine .bind_any (writeInode_keepsSuper slotN d₃ s₄) fun ret s₅ => ?_
      cases ret with
      | kFail => exact .refl _ _
      | kSuccess => exact .bind_any (writeInode_keepsSuper (state₁.slots a on₁.here) d₂ s₅) fun _ _ => .refl _ _

/-! ## Requests -/

/-- The request does not leave a group of blocks under `indirect2` when it shrinks an inode. -/
def InodeReq.SparesSuper (s : Disk) : InodeReq → Prop
  | .resize inode newSize => ¬ Strays (recordAt s inode) newSize
  | .unlink dir _ => ¬ Strays (recordAt s dir) ((recordAt s dir).size.toNat - 256)
  | .remove dir _ => ¬ Strays (recordAt s dir) ((recordAt s dir).size.toNat - 256)
  | _ => True

theorem OnDisk.keepsSuper (bitmap : L.inodeBitmapBlocks = kInodeBitmapBlocks) (on : OnDisk L s t) {q : InodeReq}
    {r : q.Ans} (allowed : q.Allowed t) (spares : q.SparesSuper s) (answer : L.roomy uid gid q s r s') :
    KeepsSuper s s' := by
  obtain ⟨sound, fits⟩ := allowed
  obtain ⟨covered, defined, run⟩ := answer
  obtain ⟨refs, ok⟩ := on.counted
  have ran : ∀ {s''}, KeepsSuper s s'' → s'' = s' → KeepsSuper s s' := by
    rintro _ keeps rfl
    exact keeps
  cases q with
  | undefined => exact absurd rfl defined
  | find dir name =>
    have finds : (VfsProg.find dir name).Avoids NotFind := ⟨fun other => other.1 _ _ rfl, fun _ => trivial⟩
    exact .of_quiet (quiet_of_finds finds (runs_call.mpr ⟨defined, run⟩))
  | create dir name type mode =>
    obtain ⟨isDir, part, absent⟩ := fits
    obtain ⟨⟨n, head, slotN⟩, -⟩ := covered.space
    obtain ⟨a, rfl, onA⟩ := on.directory bitmap isDir
    exact ran (ok.keepsSuper_createInode onA head slotN) (congrArg Prod.snd run)
  | remove dir name =>
    obtain ⟨isDir, part, last⟩ := fits
    obtain ⟨a, rfl, onA⟩ := on.directory bitmap isDir
    refine ran (ok.keepsSuper_remove onA (on.few bitmap onA) part (fun x member => ?_) spares) (congrArg Prod.snd run)
    -- the entry has one link, so that the blocks of the inode are freed
    have notDot := isDot_of_isPart part
    have there := ok.bound_allocated onA notDot member
    have found : t.find (L.slot a) name = some (L.slot x) := by
      rw [on.tree, Layout.find_slot (ok.state.slots a onA.here) notDot, nameAt_dir onA,
        (find_eq_some (ok.distinct onA)).mpr member, Option.map_some]
    have links := sound.links found
    rw [on.tree, Layout.links_slot (ok.state.slots x there), Layout.linksAt, if_pos there] at links
    exact ⟨fun is => (last _ found).1 (is ▸ rfl), UInt16.toNat_inj.mp links⟩
  | link dir name inode replace =>
    obtain ⟨isDir, part, allocated, -⟩ := fits
    obtain ⟨a, rfl, onA⟩ := on.directory bitmap isDir
    obtain ⟨x, rfl, there⟩ := on.allocated allocated
    exact ran (ok.keepsSuper_link onA part (ok.state.slots x there) replace) (congrArg Prod.snd run)
  | unlink dir name =>
    obtain ⟨isDir, part⟩ := fits
    obtain ⟨a, rfl, onA⟩ := on.directory bitmap isDir
    exact ran (ok.keepsSuper_unlink onA (on.few bitmap onA) part spares) (congrArg Prod.snd run)
  | checkEmpty dir =>
    obtain ⟨i, rfl, here⟩ := on.allocated fits
    obtain ⟨r', s'', run', looked, -⟩ := ok.state.run_checkEmpty_any uid gid here
    cases run.symm.trans run'
    exact (TreeKept.of_looked ok here looked).keeps
  | readData inode offset buf size =>
    obtain ⟨i, rfl, here, -⟩ := on.file fits
    obtain ⟨r', s'', run', looked⟩ := ok.state.run_readData_any here offset buf size
    cases run.symm.trans run'
    exact (TreeKept.of_looked ok here looked).keeps
  | writeData inode offset buf size =>
    obtain ⟨isFile, start, small⟩ := fits
    obtain ⟨i, rfl, here, -⟩ := on.file isFile
    obtain ⟨r', s'', run', -, -, keeps⟩ := ok.state.run_writeData_any here start small covered.space buf
    cases run.symm.trans run'
    exact keeps
  | resize inode newSize =>
    obtain ⟨isFile, small⟩ := fits
    obtain ⟨i, rfl, here, file⟩ := on.file isFile
    obtain ⟨-, resized⟩ := WorkedOn.resized ok.state here file small covered.near covered.space run
    refine resized.keepsSuper ok.state.volume.segment (fun pos same => ?_) spares
    have area := Layout.slot_area (ok.state.slots i here)
    rw [Layout.inodeAreaStart] at area
    rw [← Option.some.inj same]
    omega
  | sync inode metadata =>
    have quiet := (readOnly_sync inode metadata).touches s
    rw [show (Inode.sync inode metadata).run s = (r, s') from run] at quiet
    exact .of_quiet quiet

/-! ## Callbacks -/

/-- There is room, and block 0 is spared. -/
def InodeReq.Harmless (L : Layout) (q : InodeReq) (s : Disk) : Prop := q.Covered L s ∧ q.SparesSuper s

/-- It is read off the blocks. -/
theorem InodeReq.SparesSuper.congr {q : InodeReq} (same : s.blocks = s'.blocks) (spares : q.SparesSuper s) :
    q.SparesSuper s' := by
  cases q with
  | resize inode newSize => simpa only [SparesSuper, recordAt, same] using spares
  | unlink dir name => simpa only [SparesSuper, recordAt, same] using spares
  | remove dir name => simpa only [SparesSuper, recordAt, same] using spares
  | _ => exact trivial

variable {v v' : Vfs}

/-- The requests of a callback are covered. -/
theorem Callback.StepsOn.covered {cb : Callback} {ret : Int} {out : Out}
    (steps : cb.StepsOn L uid gid (InodeReq.Harmless L) Store.handler id s v ret out s' v') :
    cb.Steps L uid gid s v ret out s' v' := by
  refine ⟨steps.issued, ?_⟩
  have makes := steps.makes
  cases cb with
  | vfs call => exact (Avoids.all (call.body v)).runs (fun q s r s' _ answer => ⟨answer.1.1, answer.2⟩) makes
  | _ => exact makes

theorem Mounted.keepsSuper {cb : Callback} {ret : Int} {out : Out} (bitmap : L.inodeBitmapBlocks = kInodeBitmapBlocks)
    (mounted : Mounted L s v) (uses : cb.UsesFiles v.fdManager (L.fileTree s))
    (steps : cb.StepsOn L uid gid (InodeReq.Harmless L) Store.handler id s v ret out s' v') : KeepsSuper s s' := by
  cases cb with
  | vfs call =>
    obtain ⟨-, keeps, -⟩ := mounted.called bitmap (fun _ _ => And.left) (R := KeepsSuper) (.refl _) (fun _ _ _ => .trans)
      (.all (call.body v)) (fun q s t r s' on allowed _ harmless answer => on.keepsSuper bitmap allowed harmless.2 answer)
      uses steps
    exact keeps
  | _ =>
    obtain ⟨-, kept, -⟩ := mounted.looked bitmap uses (fun _ same => by cases same) steps.covered
    exact kept.keeps

/-- In a run of harmless requests block 0 is kept. -/
theorem VfsRunOn.harmless {P : FDManager → FileTree → Callback → Prop} {s₀ : Disk} {v₀ : Vfs} {events : List Event}
    (bitmap : L.inodeBitmapBlocks = kInodeBitmapBlocks) (mounted : Mounted L s₀ v₀)
    (files : v₀.fdManager.OnFiles (L.fileTree s₀)) (spares : ∀ m t cb, P m t cb → cb.SparesOpen m t)
    (run : VfsRunOn L uid gid (InodeReq.Harmless L) Store.handler id P s₀ v₀ events s v) :
    VfsRun L uid gid P s₀ v₀ events s v ∧ KeepsSuper s₀ s := by
  induction run with
  | start => exact ⟨.start, .refl _ _⟩
  | step before meets steps ih =>
    obtain ⟨run, keeps⟩ := ih
    obtain ⟨mounted', run'⟩ := VfsRun.refines bitmap mounted files spares run
    exact ⟨run.step meets steps.covered,
      keeps.trans (mounted'.keepsSuper bitmap (fun fh _ => run'.onFiles files spares fh) steps)⟩
  | evicted before fewer ih => exact ⟨ih.1.evicted fewer, ih.2⟩

end

end

end Sbfs
