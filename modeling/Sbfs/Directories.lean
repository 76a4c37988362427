import Sbfs.ShortOfSpace
import Sbfs.Format

/-! # The directories of a disk

What `create`, `link`, `unlink` and `remove` do to the inodes of a disk: to the directory, to
the inode that the entry names, and to nothing else.  The set `live` says which inodes are
looked after; it is part of no structure on the disk. -/

namespace Sbfs

open Slot PackedMap

/-- A directory: its bytes are entries with proper names, none of them twice. -/
structure IsDirectory (d : DiskInode) (D : Nat → Block) : Prop where
  type : d.type = kDirectory
  aligned : d.size.toNat = 256 * (d.entries D).length
  names : ∀ x ∈ d.entries D, ProperName x.1
  distinct : Distinct (d.entries D)

/-! ## Files that stay -/

/-- Inode `j` is on `s'` what it is on `s`, but for its link count. -/
structure Recounted (L : Layout) (j : Nat) (linkCnt : UInt16) (s s' : Disk) : Prop where
  inode : L.inode s'.blocks j = { L.inode s.blocks j with linkCnt := linkCnt }
  ids : ∀ x, (L.inode s.blocks j).Owns x →
    (L.inode s'.blocks j).slotId s'.blocks x = (L.inode s.blocks j).slotId s.blocks x
  bytes : ∀ i, i < (L.inode s.blocks j).size.toNat →
    (L.inode s'.blocks j).byte s'.blocks i = (L.inode s.blocks j).byte s.blocks i

section

variable {L : Layout} {s s' s'' : Disk} {live : Nat → Prop} {W : Nat → Prop} {a j : Nat}
  {d d' : DiskInode} {c c' : UInt16}

theorem entries_congr {D D' : Nat → Block} (size : d'.size = d.size)
    (bytes : ∀ i, i < d.size.toNat → d'.byte D' i = d.byte D i) : d'.entries D' = d.entries D := by
  rw [DiskInode.entries, DiskInode.entries, size]
  exact entriesIn_congr fun p inside => bytes p (by omega)

namespace Recounted

theorem sameFile (same : Recounted L j (L.inode s.blocks j).linkCnt s s') : SameFile L j s s' :=
  ⟨same.inode, same.ids, same.bytes⟩

theorem of_sameFile (same : SameFile L j s s') : Recounted L j (L.inode s.blocks j).linkCnt s s' :=
  ⟨same.inode, same.ids, same.bytes⟩

theorem size (same : Recounted L j c s s') : (L.inode s'.blocks j).size = (L.inode s.blocks j).size := by
  rw [same.inode]

theorem owns (same : Recounted L j c s s') : (L.inode s'.blocks j).Owns = (L.inode s.blocks j).Owns := by
  funext x
  rw [DiskInode.Owns, DiskInode.Owns, same.size]

theorem trans (first : Recounted L j c s s') (second : Recounted L j c' s' s'') : Recounted L j c' s s'' := by
  refine ⟨by rw [second.inode, first.inode], fun x owns => ?_, fun i inside => ?_⟩
  · rw [second.ids x (by rw [first.owns]; exact owns), first.ids x owns]
  · rw [second.bytes i (by rw [first.size]; exact inside), first.bytes i inside]

theorem entries (same : Recounted L j c s s') :
    (L.inode s'.blocks j).entries s'.blocks = (L.inode s.blocks j).entries s.blocks :=
  entries_congr same.size same.bytes

theorem isDirectory (same : Recounted L j c s s') (dir : IsDirectory (L.inode s.blocks j) s.blocks) :
    IsDirectory (L.inode s'.blocks j) s'.blocks := by
  have entries := same.entries
  constructor
  case type =>
    rw [same.inode]
    exact dir.type
  case aligned =>
    rw [same.size, entries]
    exact dir.aligned
  case names =>
    rw [entries]
    exact dir.names
  case distinct =>
    rw [entries]
    exact dir.distinct

end Recounted

theorem SameFile.refl (L : Layout) (j : Nat) (s : Disk) : SameFile L j s s := ⟨rfl, fun _ _ => rfl, fun _ _ => rfl⟩

theorem SameFile.trans (first : SameFile L j s s') (second : SameFile L j s' s'') : SameFile L j s s'' := by
  have link : (L.inode s'.blocks j).linkCnt = (L.inode s.blocks j).linkCnt := by rw [first.inode]
  exact ((Recounted.of_sameFile first).trans (link ▸ Recounted.of_sameFile second)).sameFile

/-! ## Copies in memory -/

/-- Two inodes with the same bytes: they may differ in times and link counts. -/
structure SameMap (d d₁ : DiskInode) : Prop where
  size : d₁.size = d.size
  direct : d₁.direct = d.direct
  one : d₁.indirect1 = d.indirect1
  two : d₁.indirect2 = d.indirect2

namespace SameMap

variable {bm : Bitmap} {d₁ d₂ : DiskInode} {D : Nat → Block}

theorem of_retimed (retimed : Retimed d d₁) : SameMap d d₁ := by
  constructor <;> rw [retimed]

theorem recounted (d : DiskInode) (c : UInt16) : SameMap d { d with linkCnt := c } := ⟨rfl, rfl, rfl, rfl⟩

theorem symm (same : SameMap d d₁) : SameMap d₁ d := ⟨same.size.symm, same.direct.symm, same.one.symm, same.two.symm⟩

theorem trans (first : SameMap d d₁) (second : SameMap d₁ d₂) : SameMap d d₂ :=
  ⟨second.size.trans first.size, second.direct.trans first.direct, second.one.trans first.one,
    second.two.trans first.two⟩

theorem slotId (same : SameMap d d₁) (D : Nat → Block) : d₁.slotId D = d.slotId D :=
  slotId_pointers same.direct same.one same.two D

theorem owns (same : SameMap d d₁) : d₁.Owns = d.Owns := by
  funext x
  rw [DiskInode.Owns, DiskInode.Owns, same.size]

theorem ownsBlock (same : SameMap d d₁) (D : Nat → Block) : d₁.OwnsBlock D = d.OwnsBlock D := by
  funext b
  rw [DiskInode.OwnsBlock, DiskInode.OwnsBlock, same.owns, same.slotId]

theorem byte (same : SameMap d d₁) (D : Nat → Block) : d₁.byte D = d.byte D := by
  funext i
  rw [DiskInode.byte, DiskInode.byte, byteAt, byteAt, DiskInode.ids, DiskInode.ids, same.slotId]

theorem entries (same : SameMap d d₁) (D : Nat → Block) : d₁.entries D = d.entries D := by
  rw [DiskInode.entries, DiskInode.entries, same.byte, same.size]

theorem map (same : SameMap d d₁) (map : WellMapped bm d D) : WellMapped bm d₁ D := by
  rw [WellMapped, same.owns]
  exact BlockMap.of_ids map (same.slotId D)

theorem evolved (same : SameMap d d₁) (evolved : Evolved bm W d₁ s d' s') : Evolved bm W d s d' s' := by
  have owns := same.ownsBlock s.blocks
  exact ⟨evolved.map, owns ▸ evolved.keeps, owns ▸ evolved.fresh, owns ▸ evolved.touches⟩

theorem noLeak (same : SameMap d d₁) (noLeak : NoLeak bm d₁ s d' s') : NoLeak bm d s d' s' := by
  rw [NoLeak, ← same.ownsBlock]
  exact noLeak

theorem dropped (same : SameMap d d₁) (dropped : Dropped bm d₁ s s') : Dropped bm d s s' := by
  refine ⟨⟨same.symm.map dropped.evolved.map, ?_, ?_, ?_⟩, ?_, ?_⟩
  · exact (same.evolved dropped.evolved).keeps
  · rw [← same.ownsBlock]
    exact (same.evolved dropped.evolved).fresh
  · exact (same.evolved dropped.evolved).touches
  · rw [← same.owns, ← same.slotId, ← same.slotId]
    exact dropped.ids
  · rw [← same.size, ← same.byte, ← same.byte]
    exact dropped.bytes

end SameMap

/-! ## Steps -/

/-- The file `d` has on `s'` the blocks and the bytes that it has on `s`. -/
structure Unmoved (d : DiskInode) (s s' : Disk) : Prop where
  ids : ∀ x, d.Owns x → d.slotId s'.blocks x = d.slotId s.blocks x
  bytes : ∀ i, i < d.size.toNat → d.byte s'.blocks i = d.byte s.blocks i

namespace Unmoved

theorem trans (first : Unmoved d s s') (second : Unmoved d s' s'') : Unmoved d s s'' :=
  ⟨fun x owns => (second.ids x owns).trans (first.ids x owns),
    fun i inside => (second.bytes i inside).trans (first.bytes i inside)⟩

theorem entries (same : Unmoved d s s') : d.entries s'.blocks = d.entries s.blocks := entries_congr rfl same.bytes

theorem recounted (same : Unmoved (L.inode s.blocks j) s s')
    (inode : L.inode s'.blocks j = { L.inode s.blocks j with linkCnt := c }) : Recounted L j c s s' := by
  have copy : SameMap (L.inode s.blocks j) (L.inode s'.blocks j) := by
    rw [inode]
    exact .recounted _ _
  refine ⟨inode, ?_, ?_⟩
  · rw [copy.slotId]
    exact same.ids
  · rw [copy.byte]
    exact same.bytes

end Unmoved

section

variable {bm : Bitmap} {ino : Nat → DiskInode}

/-- The files beside the one that a step works on. -/
theorem Volume.unmoved {i : Nat} (vol : Volume bm s live ino) (here : live i) (evolved : Evolved bm W (ino i) s d' s')
    (low : ∀ b, W b → b < bm.startBlockId) (there : live j) (ne : j ≠ i) : Unmoved (ino j) s s' := by
  have ids := vol.kept_ids here evolved low there ne
  refine ⟨ids, fun k inside => ?_⟩
  have owns := DiskInode.owns_data inside
  exact DiskInode.byte_congr (ids _ owns) (vol.kept here evolved low there ne ⟨_, owns, rfl⟩)

theorem Volume.below_unmoved (vol : Volume bm s live ino) (touches : Touches (fun b => b < bm.startBlockId) s s')
    (there : live j) : Unmoved (ino j) s s' := by
  have ids := vol.below_ids touches there
  refine ⟨ids, fun k inside => ?_⟩
  have owns := DiskInode.owns_data inside
  have high := ((vol.map j there).used _ owns).1.1
  have after := vol.segment.after
  refine DiskInode.byte_congr (ids _ owns) (touches.blocks _ ?_)
  rw [DiskInode.ids]
  omega

end

/-- The link count is no part of the block map. -/
theorem Volume.recounted {bm : Bitmap} {ino ino' : Nat → DiskInode} (vol : Volume bm s live ino)
    (count : Nat → UInt16) (same : ∀ j, live j → ino' j = { ino j with linkCnt := count j }) :
    Volume bm s live ino' := by
  have copy : ∀ j, live j → SameMap (ino j) (ino' j) := by
    intro j there
    rw [same j there]
    exact .recounted _ _
  constructor
  case segment => exact vol.segment
  case map => exact fun j there => (copy j there).map (vol.map j there)
  case apart =>
    intro j k there there' b own own'
    rw [(copy j there).ownsBlock] at own
    rw [(copy k there').ownsBlock] at own'
    exact vol.apart j k there there' b own own'

/-- A step of inode `a`, after which the other inodes have at most other link counts. -/
theorem Populated.step (state : Populated L s live) (here : live a)
    (evolved : Evolved L.formatted.dataBitmap W (L.inode s.blocks a) s d' s')
    (low : ∀ b, W b → b < L.formatted.dataBitmap.startBlockId) (self : L.inode s'.blocks a = d')
    (count : Nat → UInt16)
    (others : ∀ j, live j → j ≠ a → L.inode s'.blocks j = { L.inode s.blocks j with linkCnt := count j }) :
    Populated L s' live ∧ ∀ j, live j → j ≠ a → Recounted L j (count j) s s' := by
  have volume := state.volume.evolve here evolved low
  refine ⟨⟨evolved.touches.count ▸ state.device, evolved.touches.count ▸ state.failId, state.slots, ?_⟩,
    fun j there ne => ?_⟩
  · refine volume.recounted (Function.update count a d'.linkCnt) fun j there => ?_
    by_cases is : j = a
    · rw [is, Function.update_self, Function.update_self, self]
    · rw [Function.update_of_ne is, Function.update_of_ne is, others j there is]
  · exact (state.volume.unmoved here evolved low there ne).recounted (others j there ne)

/-! ### The slots -/

namespace Layout

/-- Steps that keep the blocks of the inode area keep the inodes. -/
theorem inode_kept (slotId : L.SlotId j) (evolved : Evolved L.formatted.dataBitmap (fun _ => False) d s d' s')
    (segment : L.formatted.dataBitmap.Segment s.count) : L.inode s'.blocks j = L.inode s.blocks j := by
  rw [inode, inode, evolved.slot_kept segment (slot_low slotId) id]

/-- Saving inode `a` changes inode `a`. -/
theorem inode_save (slotId : L.SlotId a) (slotId' : L.SlotId j) (saved : Saved (L.slot a) s d s')
    (touches : Touches (· = (L.slot a).blockId) s s') :
    L.inode s'.blocks j = if j = a then d else L.inode s.blocks j := by
  split
  next same => rw [same, inode_saved slotId saved]
  next ne => exact inode_other slotId slotId' ne saved fun apart => touches.blocks _ apart

end Layout

theorem run_writeInode_saved {pos : Position} (d : DiskInode) (onDevice : pos.blockId < s.count) :
    ∃ s', (writeInode pos d).run s = (.kSuccess, s') ∧ Touches (· = pos.blockId) s s' ∧ Saved pos s d s' :=
  ⟨_, run_writeInode d onDevice, .put _ _ rfl, Store.put_blocks_same _ _ onDevice⟩

theorem Populated.onDevice (state : Populated L s live) (slotId : L.SlotId a) : (L.slot a).blockId < s.count := by
  have low := Layout.slot_low slotId
  have := state.volume.segment.onDevice
  have := state.volume.segment.after
  omega

/-! ### The inode bitmap -/

/-- The inode bitmap is what it was. -/
def SameMarks (L : Layout) (s s' : Disk) : Prop := ∀ b, L.formatted.inodeBitmap.Holds b → s'.blocks b = s.blocks b

theorem Layout.marks_between {b : Nat} (holds : L.formatted.inodeBitmap.Holds b) : 0 < b ∧ b < L.inodeAreaStart := by
  rw [Layout.inodeBitmap_eq, Bitmap.Holds] at holds
  rw [Layout.inodeAreaStart]
  simp only at holds
  omega

namespace SameMarks

theorem refl (L : Layout) (s : Disk) : SameMarks L s s := fun _ _ => rfl

theorem trans (first : SameMarks L s s') (second : SameMarks L s' s'') : SameMarks L s s'' :=
  fun b holds => (second b holds).trans (first b holds)

theorem used (same : SameMarks L s s') (i : Nat) :
    L.formatted.inodeBitmap.Used s'.blocks i ↔ L.formatted.inodeBitmap.Used s.blocks i :=
  Bitmap.used_congr same

theorem of_touches (touches : Touches W s s') (area : ∀ b, W b → b = 0 ∨ L.inodeAreaStart ≤ b) :
    SameMarks L s s' := by
  intro b holds
  apply touches.blocks
  intro inW
  have between := Layout.marks_between holds
  have := area b inW
  omega

theorem of_evolved (evolved : Evolved L.formatted.dataBitmap W d s d' s')
    (segment : L.formatted.dataBitmap.Segment s.count) (area : ∀ b, W b → b = 0 ∨ L.inodeAreaStart ≤ b) :
    SameMarks L s s' := by
  intro b holds
  have between := Layout.marks_between holds
  have low : b < L.formatted.dataBitmap.startBlockId := by
    rw [Layout.dataBitmap_eq]
    simp only [Layout.inodeAreaStart, Layout.dataBitmapStart] at *
    omega
  refine evolved.slot_kept segment low fun inW => ?_
  have := area b inW
  omega

end SameMarks

theorem Layout.slot_area (slotId : L.SlotId j) : L.inodeAreaStart ≤ (L.slot j).blockId := by
  rw [Layout.slot_eq slotId]
  exact Nat.le_add_right _ _

theorem Layout.slot_valid (slotId : L.SlotId j) : (L.slot j).isValid = true := by
  have low := Layout.slot_low slotId
  have small := L.total32
  have data := L.someData
  rw [L.dataBitmap_eq] at low
  simp only [Layout.dataBitmapStart] at low
  exact bne_iff_ne.mpr (by omega)

/-! ### Steps of a populated disk -/

/-- Writes below the data bitmap that change at most link counts. -/
theorem Populated.below (state : Populated L s live)
    (touches : Touches (fun b => b < L.formatted.dataBitmap.startBlockId) s s') (count : Nat → UInt16)
    (slots : ∀ j, live j → L.inode s'.blocks j = { L.inode s.blocks j with linkCnt := count j }) :
    Populated L s' live ∧ ∀ j, live j → Recounted L j (count j) s s' := by
  exact ⟨⟨touches.count ▸ state.device, touches.count ▸ state.failId, state.slots,
    (state.volume.below touches).recounted count slots⟩,
    fun j there => (state.volume.below_unmoved touches there).recounted (slots j there)⟩

theorem Populated.subset {live' : Nat → Prop} (state : Populated L s live) (fewer : ∀ j, live' j → live j) :
    Populated L s live' where
  device := state.device
  failId := state.failId
  slots := fun j there => state.slots j (fewer j there)
  volume := state.volume.congr (fun _ _ _ => rfl) fun j there out => absurd (fewer j there) out

/-- Writes below the inode area. -/
theorem Populated.underneath (state : Populated L s live) (touches : Touches (fun b => b < L.inodeAreaStart) s s') :
    Populated L s' live ∧ ∀ j, live j → SameFile L j s s' := by
  have start : L.inodeAreaStart ≤ L.formatted.dataBitmap.startBlockId := by
    rw [Layout.dataBitmap_eq]
    simp only [Layout.inodeAreaStart, Layout.dataBitmapStart]
    omega
  have slots : ∀ j, live j → L.inode s'.blocks j = { L.inode s.blocks j with linkCnt := (L.inode s.blocks j).linkCnt } := by
    intro j there
    rw [Layout.inode, Layout.inode, touches.blocks]
    rw [Layout.slot_eq (state.slots j there)]
    simp only
    omega
  obtain ⟨state', same⟩ := state.below (touches.mono fun b low => by omega) _ slots
  exact ⟨state', fun j there => (same j there).sameFile⟩

/-- Nothing has been saved. -/
theorem Populated.dropped (state : Populated L s live) (here : live a)
    (dropped : Dropped L.formatted.dataBitmap (L.inode s.blocks a) s s') :
    Populated L s' live ∧ ∀ j, live j → SameFile L j s s' := by
  have kept : ∀ j, live j → L.inode s'.blocks j = L.inode s.blocks j := fun j there =>
    Layout.inode_kept (state.slots j there) dropped.evolved state.volume.segment
  obtain ⟨state', same⟩ := state.step here dropped.evolved (fun _ => False.elim) (kept a here)
    (fun j => (L.inode s.blocks j).linkCnt) fun j there _ => kept j there
  refine ⟨state', fun j there => ?_⟩
  by_cases is : j = a
  · subst is
    refine ⟨kept j there, ?_, ?_⟩
    · rw [kept j there]
      exact dropped.ids
    · rw [kept j there]
      exact dropped.bytes
  · exact (same j there is).sameFile

/-! ### The blocks in use -/

/-- A used block that belongs to no live inode of the disk. -/
def Layout.Lost (L : Layout) (live : Nat → Prop) (s : Disk) (b : Nat) : Prop :=
  Sbfs.Lost L.formatted.dataBitmap s.blocks live (L.inode s.blocks) b

/-- No block is lost or found again, and inode `a` keeps the blocks that it has before and after. -/
structure BlocksKept (L : Layout) (live live' : Nat → Prop) (a : Nat) (s s' : Disk) : Prop where
  lost : ∀ b, L.Lost live' s' b ↔ L.Lost live s b
  ids : KeepsIds (L.inode s.blocks a) s (L.inode s'.blocks a) s'

theorem BlocksKept.after {live' : Nat → Prop} {s₁ : Disk} (quiet : Touches (fun _ => False) s s₁)
    (kept : BlocksKept L live live' a s₁ s') : BlocksKept L live live' a s s' := by
  have blocks := quiet.quiet
  obtain ⟨lost, ids⟩ := kept
  simp only [Layout.Lost, KeepsIds, blocks] at lost ids
  exact ⟨lost, ids⟩

/-- Writes below the inode area. -/
theorem Populated.underneath_kept (state : Populated L s live) (here : live a)
    (touches : Touches (fun b => b < L.inodeAreaStart) s s') : BlocksKept L live live a s s' := by
  obtain ⟨-, same⟩ := state.underneath touches
  have low : Touches (fun b => b < L.formatted.dataBitmap.startBlockId) s s' := touches.mono fun b below => by
    rw [Layout.dataBitmap_eq]
    simp only [Layout.inodeAreaStart, Layout.dataBitmapStart] at below ⊢
    omega
  refine ⟨fun b => ?_, fun x owns _ => (same a here).ids x owns⟩
  exact (Volume.congr_lost (fun j there _ => (same j there).inode) (fun j there out => absurd there out)
    (fun j there out => absurd there out) b).trans (state.volume.below_lost low b)

/-- Writes below the data bitmap that change nothing of the maps. -/
theorem Populated.below_lost (state : Populated L s live)
    (touches : Touches (fun b => b < L.formatted.dataBitmap.startBlockId) s s')
    (maps : ∀ j, live j → SameMap (L.inode s.blocks j) (L.inode s'.blocks j)) (b : Nat) :
    L.Lost live s' b ↔ L.Lost live s b := by
  refine Iff.trans (and_congr_right fun _ => forall₂_congr fun j there => ?_) (state.volume.below_lost touches b)
  rw [(maps j there).ownsBlock]

/-- A step on a copy of the inode, which ends up in its slot, loses and finds no block. -/
theorem Populated.evolve_lost (state : Populated L s live) (here : live a) (copy : SameMap (L.inode s.blocks a) d)
    (evolved : Evolved L.formatted.dataBitmap W d s d' s') (noLeak : NoLeak L.formatted.dataBitmap d s d' s')
    (saved : Saved (L.slot a) s d' s') (low : ∀ b, W b → b < L.formatted.dataBitmap.startBlockId)
    (area : ∀ b, W b → L.inodeAreaStart ≤ b → b = (L.slot a).blockId) (b : Nat) :
    L.Lost live s' b ↔ L.Lost live s b := by
  have step := copy.evolved evolved
  obtain ⟨-, self, others⟩ := state.evolve here step saved low area
  refine (Volume.congr_lost (fun j there _ => ?_) (fun j there out => absurd there out)
    (fun j there out => absurd there out) b).trans (state.volume.evolve_lost here step low (copy.noLeak noLeak) b)
  by_cases is : j = a
  · rw [is, Function.update_self, self]
  · rw [Function.update_of_ne is, (others j there is).inode]

/-- A step on a copy of the inode, which ends up in its slot. -/
theorem Populated.evolve_kept (state : Populated L s live) (here : live a) (copy : SameMap (L.inode s.blocks a) d)
    (evolved : Evolved L.formatted.dataBitmap W d s d' s') (noLeak : NoLeak L.formatted.dataBitmap d s d' s')
    (saved : Saved (L.slot a) s d' s') (low : ∀ b, W b → b < L.formatted.dataBitmap.startBlockId)
    (area : ∀ b, W b → L.inodeAreaStart ≤ b → b = (L.slot a).blockId) (ids : KeepsIds d s d' s') :
    BlocksKept L live live a s s' := by
  obtain ⟨-, self, -⟩ := state.evolve here (copy.evolved evolved) saved low area
  constructor
  case lost => exact state.evolve_lost here copy evolved noLeak saved low area
  case ids =>
    rw [self, KeepsIds, ← copy.owns, ← copy.slotId]
    exact ids

/-- `update_link_cnt` and its counterpart, on any slot. -/
theorem Populated.run_modifyInode (state : Populated L s live) {t : Nat} (slotId : L.SlotId t)
    (f : UInt16 → UInt16) :
    ∃ s', (modifyInode (L.slot t) fun d => { d with linkCnt := f d.linkCnt }).run s = (.kSuccess, s') ∧
      Populated L s' live ∧ Touches (· = (L.slot t).blockId) s s' ∧
      ∀ j, live j → Recounted L j (if j = t then f (L.inode s.blocks j).linkCnt else (L.inode s.blocks j).linkCnt)
        s s' := by
  have onDevice := state.onDevice slotId
  obtain ⟨s', run, touches, saved⟩ := run_writeInode_saved
    { L.inode s.blocks t with linkCnt := f (L.inode s.blocks t).linkCnt } onDevice
  have low : ∀ b, b = (L.slot t).blockId → b < L.formatted.dataBitmap.startBlockId :=
    fun b same => same ▸ Layout.slot_low slotId
  obtain ⟨state', same⟩ := state.below (touches.mono low)
    (fun j => if j = t then f (L.inode s.blocks j).linkCnt else (L.inode s.blocks j).linkCnt) fun j there => by
      rw [Layout.inode_save slotId (state.slots j there) saved touches]
      split
      next is => rw [is]
      next => rfl
  refine ⟨s', ?_, state', touches, same⟩
  rw [modifyInode, DevProg.run_bind, run_readInode onDevice]
  exact run

/-! ## Looking a name up -/

/-- A directory that the search can go through. -/
structure Searchable (L : Layout) (a : Nat) (s : Disk) : Prop where
  dir : IsDirectory (L.inode s.blocks a) s.blocks
  small : ((L.inode s.blocks a).entries s.blocks).length < 8388607

theorem Searchable.size (ok : Searchable L a s) :
    (L.inode s.blocks a).size.toNat = 256 * ((L.inode s.blocks a).entries s.blocks).length ∧
      (L.inode s.blocks a).size.toNat + 256 < 2147483648 := by
  have aligned := ok.dir.aligned
  have small := ok.small
  exact ⟨aligned, by omega⟩

theorem Populated.run_readInode (state : Populated L s live) (here : live a) :
    (readInode (L.slot a)).run s = (some (L.inode s.blocks a), s) :=
  Sbfs.run_readInode (state.onDevice (state.slots a here))

theorem Populated.run_scan (state : Populated L s live) (here : live a) (ok : Searchable L a s) {name : Name}
    (proper : ProperName name) :
    ∃ r d s', (scan (L.inode s.blocks a) name).run s = ((r, d), s') ∧ Retimed (L.inode s.blocks a) d ∧
      Touches (fun _ => False) s s' ∧ r.Answers ((L.inode s.blocks a).entries s.blocks) name ∧
      (dataBlocks (L.inode s.blocks a).size.toNat < 23 → r ≠ .failed) :=
  Sbfs.run_scan proper (state.volume.map a here) state.volume.segment state.failId ok.size.1 (by
    have := ok.size
    omega)

theorem Populated.run_find (state : Populated L s live) (here : live a) (ok : Searchable L a s) {name : Name}
    (proper : ProperName name) :
    ∃ s', (Inode.find L.formatted (L.slot a) name).run s =
        ((find ((L.inode s.blocks a).entries s.blocks) name).map L.slot, s') ∧
      Touches (fun _ => False) s s' := by
  obtain ⟨r, d, s', run, -, quiet, answers, -⟩ := state.run_scan here ok proper
  refine ⟨s', ?_, quiet⟩
  have isDir : ¬ (L.inode s.blocks a).type ≠ kDirectory := not_not_intro ok.dir.type
  simp only [Inode.find, DevProg.run_bind, state.run_readInode here, isDir, if_false, run]
  cases answers with
  | found inside entry =>
    rw [(find_eq_some ok.dir.distinct).mpr (List.mem_of_getElem? entry)]
    rfl
  | absent none =>
    rw [find_eq_none.mpr none]
    rfl
  | failed none =>
    rw [find_eq_none.mpr none]
    rfl

/-! ## Changing a directory -/

/-- The link counts of the inodes of a disk. -/
def Layout.links (L : Layout) (D : Nat → Block) (j : Nat) : UInt16 := (L.inode D j).linkCnt

/-- Directory `a` gets the entries `es` and the live inodes the link counts `count`; otherwise
they stay. -/
structure Edited (L : Layout) (live : Nat → Prop) (a : Nat) (es : List (Name × Nat)) (count : Nat → UInt16)
    (s s' : Disk) : Prop where
  state : Populated L s' live
  dir : IsDirectory (L.inode s'.blocks a) s'.blocks
  entries : (L.inode s'.blocks a).entries s'.blocks = es
  linkCnt : L.links s'.blocks a = count a
  others : ∀ j, live j → j ≠ a → Recounted L j (count j) s s'

namespace Edited

variable {es es' : List (Name × Nat)} {count count' : Nat → UInt16}

theorem congr (edited : Edited L live a es count s s') (here : live a)
    (same : ∀ j, live j → count' j = count j) : Edited L live a es count' s s' where
  state := edited.state
  dir := edited.dir
  entries := edited.entries
  linkCnt := by rw [same a here, edited.linkCnt]
  others := fun j there ne => by
    rw [same j there]
    exact edited.others j there ne

/-- A step that only recounts inodes, before or after. -/
theorem of_recounted (state' : Populated L s' live) (here : live a)
    (dir : IsDirectory (L.inode s.blocks a) s.blocks)
    (recounted : ∀ j, live j → Recounted L j (count j) s s') :
    Edited L live a ((L.inode s.blocks a).entries s.blocks) count s s' where
  state := state'
  dir := (recounted a here).isDirectory dir
  entries := (recounted a here).entries
  linkCnt := by rw [Layout.links, (recounted a here).inode]
  others := fun j there _ => recounted j there

theorem after (recounted : ∀ j, live j → Recounted L j (count j) s s') (edited : Edited L live a es count' s' s'') :
    Edited L live a es count' s s'' where
  state := edited.state
  dir := edited.dir
  entries := edited.entries
  linkCnt := edited.linkCnt
  others := fun j there ne => (recounted j there).trans (edited.others j there ne)

theorem trans (first : Edited L live a es count s s') (second : Edited L live a es' count' s' s'') :
    Edited L live a es' count' s s'' where
  state := second.state
  dir := second.dir
  entries := second.entries
  linkCnt := second.linkCnt
  others := fun j there ne => (first.others j there ne).trans (second.others j there ne)

/-- The link counts after the change. -/
theorem links (edited : Edited L live a es count s s') (here : live j) : L.links s'.blocks j = count j := by
  by_cases is : j = a
  · rw [is, edited.linkCnt]
  · rw [Layout.links, (edited.others j here is).inode]

theorem recounted (edited : Edited L live a es count s s') (here : live a) (state' : Populated L s'' live)
    (recounted : ∀ j, live j → Recounted L j (count' j) s' s'') : Edited L live a es count' s s'' where
  state := state'
  dir := (recounted a here).isDirectory edited.dir
  entries := (recounted a here).entries.trans edited.entries
  linkCnt := by rw [Layout.links, (recounted a here).inode]
  others := fun j there ne => (edited.others j there ne).trans (recounted j there)

end Edited

/-- What a method has done before it fails early: nothing. -/
theorem Populated.unchanged (state : Populated L s live) (here : live a)
    (dir : IsDirectory (L.inode s.blocks a) s.blocks) (quiet : Touches (fun _ => False) s s') :
    Edited L live a ((L.inode s.blocks a).entries s.blocks) (L.links s.blocks) s s' := by
  obtain ⟨state', same⟩ := state.underneath (quiet.mono fun _ => False.elim)
  exact .of_recounted state' here dir fun j there => .of_sameFile (same j there)

/-- The entries of `a` are changed on a copy of the inode, which ends up in its slot. -/
theorem Populated.reworked (state : Populated L s live) (here : live a) (copy : SameMap (L.inode s.blocks a) d)
    (type : d.type = kDirectory) {es : List (Name × Nat)}
    (reworked : Reworked L.formatted.dataBitmap W es d s d' s') (saved : Saved (L.slot a) s d' s')
    (low : ∀ b, W b → b < L.formatted.dataBitmap.startBlockId)
    (area : ∀ b, W b → L.inodeAreaStart ≤ b → b = (L.slot a).blockId) (names : ∀ x ∈ es, ProperName x.1)
    (distinct : Distinct es) :
    Edited L live a es (Function.update (L.links s.blocks) a d.linkCnt) s s' := by
  obtain ⟨state', self, others⟩ := state.evolve here (copy.evolved reworked.evolved) saved low area
  have entries : (L.inode s'.blocks a).entries s'.blocks = es := by rw [self, reworked.entries]
  constructor
  case state => exact state'
  case entries => exact entries
  case dir =>
    refine ⟨by rw [self, reworked.type, type], ?_, by rwa [entries], by rwa [entries]⟩
    rw [entries, self, reworked.size]
  case linkCnt => rw [Layout.links, self, Function.update_self, reworked.linkCnt]
  case others =>
    intro j there ne
    rw [Function.update_of_ne ne]
    exact .of_sameFile (others j there ne)

/-- The same, when the copy is saved at the end. -/
theorem Populated.reworked_saved (state : Populated L s live) (here : live a)
    (copy : SameMap (L.inode s.blocks a) d) (type : d.type = kDirectory) {es : List (Name × Nat)}
    (reworked : Reworked L.formatted.dataBitmap (fun _ => False) es d s d' s') (names : ∀ x ∈ es, ProperName x.1)
    (distinct : Distinct es) :
    ∃ s'', (writeInode (L.slot a) d').run s' = (.kSuccess, s'') ∧ SameMarks L s s'' ∧
      Edited L live a es (Function.update (L.links s.blocks) a d.linkCnt) s s'' ∧
      ∀ b, L.Lost live s'' b ↔ L.Lost live s b := by
  have slotId := state.slots a here
  have segment := state.volume.segment
  have low : ∀ b, b = (L.slot a).blockId → b < L.formatted.dataBitmap.startBlockId :=
    fun b same => same ▸ Layout.slot_low slotId
  have onDevice : (L.slot a).blockId < s'.count := reworked.evolved.touches.count ▸ state.onDevice slotId
  obtain ⟨s'', run, touches, saved⟩ := run_writeInode_saved d' onDevice
  have written := (reworked.mono fun _ => False.elim).trans
    (Reworked.below reworked.evolved.map (reworked.evolved.segment segment) reworked.size touches low)
  rw [reworked.entries] at written
  have marks : SameMarks L s s'' := .of_evolved written.evolved segment fun b same =>
    .inr (same ▸ Layout.slot_area slotId)
  have inSlot : Saved (L.slot a) s d' s'' := by
    rw [Saved, show s''.blocks (L.slot a).blockId = _ from saved,
      reworked.evolved.slot_kept segment (low _ rfl) id]
  exact ⟨s'', run, marks, state.reworked here copy type written inSlot low (fun b same _ => same) names distinct,
    state.evolve_lost here copy written.evolved written.noLeak inSlot low fun b same _ => same⟩

end

end Sbfs
