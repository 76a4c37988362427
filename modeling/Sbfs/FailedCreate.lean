import Sbfs.FailedGrowth
import Sbfs.LinkCounts
import Sbfs.Offsets

/-! # A `create` that fails

`create` takes an inode, grows the directory, grows the new inode and only then writes the
inodes.  Each of the steps can fail, and nothing that has been taken is given back.  The last
two writes do not fail if the new inode has a place on the device, so nothing is left behind
only if nothing was taken: no inode was free, and the steps before needed no block, or found
none at all. -/

namespace Sbfs

open Slot

section

variable {bm : Bitmap} {d d' : DiskInode} {s s' s'' : Disk}

/-- A step that does not clear a bit, and leaves as many clear bits as there were, sets none. -/
theorem same_bits_iff (grew : ∀ id, bm.Used s.blocks id → bm.Used s'.blocks id) :
    (∀ id, bm.Used s'.blocks id ↔ bm.Used s.blocks id) ↔
      (bm.freeIds s'.blocks).length = (bm.freeIds s.blocks).length := by
  have sub : bm.freeIds s'.blocks ⊆ bm.freeIds s.blocks := by
    intro id free
    by_contra taken
    have inside := (Bitmap.mem_freeIds.mp free).1
    exact (Bitmap.used_iff.mp (grew id (Bitmap.used_iff.mpr ⟨inside, taken⟩))).2 free
  have short := List.subperm_of_subset Bitmap.nodup_freeIds sub
  constructor
  · intro same
    refine ((List.perm_ext_iff_of_nodup Bitmap.nodup_freeIds Bitmap.nodup_freeIds).mpr fun id => ?_).length_eq
    have used := same id
    rw [Bitmap.used_iff, Bitmap.used_iff] at used
    have both : id ∈ bm.freeIds s'.blocks ∨ id ∈ bm.freeIds s.blocks → bm.InSegment id := by
      rintro (free | free) <;> exact (Bitmap.mem_freeIds.mp free).1
    tauto
  · intro same id
    rw [Bitmap.used_iff, Bitmap.used_iff, (short.perm_of_length_le (Nat.le_of_eq same.symm)).mem_iff]

/-- What a step that is not saved touches. -/
theorem Evolved.high (evolved : Evolved bm (fun _ => False) d s d' s') (segment : bm.Segment s.count) :
    Touches (fun b => bm.startBlockId ≤ b) s s' := by
  have after := segment.after
  refine evolved.touches.mono fun b allowed => ?_
  obtain holds | none | own := allowed
  · exact holds.1
  · cases none
  · have := own.1.1
    omega

theorem Dropped.grew (dropped : Dropped bm d s s') (id : Nat)
    (used : bm.Used s.blocks id) : bm.Used s'.blocks id := by
  by_cases own : d.OwnsBlock s.blocks id
  · obtain ⟨x, owns, rfl⟩ := own
    rw [← dropped.ids x owns]
    exact dropped.evolved.map.used x owns
  · exact dropped.evolved.keeps id used own

/-- A growth that is not saved. -/
theorem Resized.dropped {newSize : Nat} (resized : Resized bm newSize none d s d' s')
    (map : WellMapped bm d s.blocks) (segment : bm.Segment s.count) (grows : d.size.toNat ≤ newSize) :
    Dropped bm d s s' := by
  have larger : ∀ x, d.Owns x → d'.Owns x := fun x owns => by
    refine Valid.mono ?_ owns
    rw [resized.size]
    simp only [dataBlocks]
    omega
  exact (resized.evolved_grown grows).dropped map larger (fun x owns => resized.keeps x owns (larger x owns))
    fun i inside => resized.bytes segment (fun _ none => by cases none) inside (by omega)

theorem Dropped.quiet (dropped : Dropped bm d s s') (quiet : Touches (fun _ => False) s' s'') :
    Dropped bm d s s'' := by
  refine ⟨dropped.evolved.trans (Evolved.retimed dropped.evolved.map (.refl d) quiet).1, ?_, ?_⟩
  · rw [quiet.quiet]
    exact dropped.ids
  · rw [quiet.quiet]
    exact dropped.bytes

/-! ## The entry in the directory -/

/-- How the entry is appended, in a directory of any size: `2 ^ 32 - 256` bytes and 256 more
are no bytes. -/
structure Appending (bm : Bitmap) (d : DiskInode) (s : Disk) (ret : Ret) (s' : Disk) : Prop where
  high : Touches (fun b => bm.startBlockId ≤ b) s s'
  success : ret = .kSuccess ↔
    d.size.toNat < 2147483648 ∧ growth d (d.size.toNat + 256) ≤ (bm.freeIds s.blocks).length
  lost : d.size.toNat + 256 = 4294967296 → ∃ id, bm.Used s.blocks id ∧ ¬ bm.Used s'.blocks id
  left : d.size.toNat + 256 < 4294967296 → (bm.freeIds s'.blocks).length =
    (bm.freeIds s.blocks).length - growth d (d.size.toNat + 256)
  grew : d.size.toNat + 256 < 4294967296 → ∀ id, bm.Used s.blocks id → bm.Used s'.blocks id
  dropped : ret = .kSuccess ∨ d.size.toNat + 256 < 4294967296 ∧
    (bm.freeIds s'.blocks).length = (bm.freeIds s.blocks).length → Dropped bm d s s'

theorem Appending.of_dropped {ret : Ret} (dropped : Dropped bm d s s')
    (segment : bm.Segment s.count) (noWrap : d.size.toNat + 256 ≠ 4294967296)
    (success : ret = .kSuccess ↔
      d.size.toNat < 2147483648 ∧ growth d (d.size.toNat + 256) ≤ (bm.freeIds s.blocks).length)
    (left : (bm.freeIds s'.blocks).length = (bm.freeIds s.blocks).length - growth d (d.size.toNat + 256)) :
    Appending bm d s ret s' where
  high := dropped.evolved.high segment
  success := success
  lost := fun wrap => absurd wrap noWrap
  left := fun _ => left
  grew := fun _ => dropped.grew
  dropped := fun _ => dropped

theorem Inode.run_appendEntry_outcome {fs : SBFileSystem} {m : Nat} (map : WellMapped fs.dataBitmap d s.blocks)
    (segment : fs.dataBitmap.Segment s.count) (failId : s.count ≤ kFailId) (aligned : d.size.toNat = 256 * m)
    (name : Name) (inode : Nat) :
    ∃ ret d' s', (appendEntry fs d name inode).run s = ((ret, d'), s') ∧
      Appending fs.dataBitmap d s ret s' := by
  have size := d.size.toNat_lt
  by_cases wrap : d.size.toNat + 256 = 4294967296
  · -- the directory is shrunk to nothing
    obtain ⟨d₁, s₁, run, resized⟩ := run_resize map segment (show 0 < 4294967296 by decide)
      (by rw [growth_shrink (Nat.zero_le _)]; exact Nat.zero_le _) (own_none fs.dataBitmap)
    have noStray : ¬ Strays d 0 := fun strays => by
      have := strays.1
      simp only [dataBlocks] at this
      omega
    have evolved : Evolved fs.dataBitmap (fun _ => False) d s d₁ s₁ := resized.evolved.mono fun b extra => by
      obtain ⟨pos, none, -⟩ | strays := extra
      · cases none
      · exact noStray strays.1
    have empty : d₁.size.toNat = 0 := resized.size
    have count := resized.touches.count
    obtain ⟨d₂, s₂, write, -, quiet⟩ := run_diskWriteData_fails (d := d₁) (s := s₁) (dirEntry name inode)
      (show 0 < 256 by decide) (show uint32 ((d₁.size.toNat : Int) - 256) < 4294967296 by rw [empty]; decide)
      (count ▸ failId) (.inl (by rw [empty]; decide))
    -- the write of the entry fails as well, at the negative offset
    have high : growth d (d.size.toNat + 256) ≤ (fs.dataBitmap.freeIds s.blocks).length := by
      rw [growth_shrink (by simp only [dataBlocks]; omega)]
      exact Nat.zero_le _
    have owns : d.Owns (data 0) := by
      simp only [DiskInode.Owns, Valid, dataBlocks]
      omega
    refine ⟨.kFail, d₂, s₂, ?_, ?_⟩
    · simp only [appendEntry, DevProg.run_bind, wrap, Nat.mod_self, run, write, if_true, DevProg.run_pure]
    · constructor
      case high => exact (evolved.high segment).trans (quiet.mono fun _ => False.elim)
      case success => exact iff_of_false (by decide) (by omega)
      case left => omega
      case grew => omega
      case dropped =>
        rintro (success | ⟨noWrap, -⟩)
        · cases success
        · omega
      case lost =>
        refine fun _ => ⟨_, map.used _ owns, fun used => ?_⟩
        rw [quiet.quiet] at used
        -- block 0 of the directory was its own, and is free now
        have nothing : ∀ x, ¬ d₁.Owns x := fun x own => by
          rw [DiskInode.Owns, empty] at own
          cases x <;> simp only [Valid, dataBlocks] at own <;> omega
        obtain ⟨-, freed⟩ | ⟨x, own, -⟩ := (resized.used _).mp used
        · exact freed _ owns (nothing _) rfl
        · exact nothing x own
  have mod : (d.size.toNat + 256) % 4294967296 = d.size.toNat + 256 := Nat.mod_eq_of_lt (by omega)
  by_cases enough : growth d (d.size.toNat + 256) ≤ (fs.dataBitmap.freeIds s.blocks).length
  · by_cases low : d.size.toNat < 2147483648
    · -- there is room, and the offset of the entry is below 2^31
      have next : d.size.toNat + 256 = 256 * (m + 1) := by omega
      obtain ⟨d', s', run, written, free⟩ := run_appendEntry (W := fun _ => False) map segment failId aligned
        (by omega) (next ▸ enough) name inode
      refine ⟨.kSuccess, d', s', run, .of_dropped (written.dropped map (by omega)) segment wrap
        (iff_of_true rfl ⟨low, enough⟩) ?_⟩
      rw [next]
      omega
    · -- the directory grows, but the offset of the entry is negative as an `int`
      obtain ⟨d₁, s₁, run, resized⟩ := run_resize map segment (show d.size.toNat + 256 < 4294967296 by omega) enough
        (own_none fs.dataBitmap)
      obtain ⟨d₂, s₂, write, -, quiet⟩ := run_diskWriteData_fails (d := d₁) (s := s₁) (dirEntry name inode)
        (show 0 < 256 by decide) (show uint32 ((d₁.size.toNat : Int) - 256) < 4294967296 by rw [uint32]; omega)
        (resized.touches.count ▸ failId) (.inr (by rw [resized.size, uint32]; omega))
      have takes := congrArg List.length (resized.takes (Nat.le_add_right _ _))
      rw [List.length_append, List.length_map, ← growth] at takes
      have dropped := resized.dropped map segment (Nat.le_add_right _ _)
      refine ⟨.kFail, d₂, s₂, ?_, .of_dropped (dropped.quiet quiet) segment wrap
        (iff_of_false (by decide) fun both => low both.1) ?_⟩
      · simp only [appendEntry, DevProg.run_bind, mod, run, write, if_true, DevProg.run_pure]
      · rw [quiet.quiet]
        omega
  · -- the growth fails when the last free block has been taken
    obtain ⟨d', s', run, spent, touches, dropped⟩ := run_resize_spent map segment
      (show d.size.toNat + 256 < 4294967296 by omega) (Nat.lt_of_not_le enough) none
    refine ⟨.kFail, d', s', ?_, ?_⟩
    · simp only [appendEntry, DevProg.run_bind, mod, run, DevProg.run_pure]
    · constructor
      case high => exact touches
      case success => exact iff_of_false (by decide) fun both => enough both.2
      case lost => exact fun same => absurd same wrap
      case left =>
        intro _
        rw [spent, List.length_nil]
        omega
      case grew =>
        intro _ id used
        exact Bitmap.used_iff.mpr ⟨used.1, by rw [spent]; exact List.not_mem_nil⟩
      case dropped =>
        rintro (success | ⟨-, same⟩)
        · cases success
        · rw [spent, List.length_nil] at same
          exact dropped (List.length_eq_zero_iff.mp same.symm)

end

/-! ## `create` -/

/-- The id that `alloc_inode` returns: that of the first clear bit, in 32 bits, or `kFail`. -/
def newInodeId (L : Layout) (s : Disk) : Nat :=
  match (L.formatted.inodeBitmap.freeIds s.blocks).head? with
  | some n => n % 4294967296
  | none => kFailId

/-- The blocks that the directory needs for the entry. -/
def entryGrowth (d : DiskInode) : Nat := growth d (d.size.toNat + 256)

/-- There is room for all that `create` writes. -/
structure CreateRoom (L : Layout) (a : Nat) (d₀ : DiskInode) (s : Disk) : Prop where
  small : (L.inode s.blocks a).size.toNat < 2147483648
  blocks : entryGrowth (L.inode s.blocks a) + newBlocks d₀ ≤ (L.formatted.dataBitmap.freeIds s.blocks).length
  slot : (L.slot (newInodeId L s)).blockId < s.count

/-- Block `b` holds inodes. -/
def Layout.InodeArea (L : Layout) (b : Nat) : Prop := L.inodeAreaStart ≤ b ∧ b < L.dataBitmapStart

/-- Neither bitmap has changed, no slot has been written, and directory `a` is what it was. -/
structure NothingLeft (L : Layout) (a : Nat) (s s' : Disk) : Prop where
  inodes : ∀ i, L.formatted.inodeBitmap.Used s'.blocks i ↔ L.formatted.inodeBitmap.Used s.blocks i
  blocks : ∀ b, L.formatted.dataBitmap.Used s'.blocks b ↔ L.formatted.dataBitmap.Used s.blocks b
  slots : Touches (fun b => ¬ L.InodeArea b) s s'
  directory : SameFile L a s s'

/-- If `create` fails, it leaves nothing behind. -/
def FailsCleanly (L : Layout) (a : Nat) (name : Name) (d₀ : DiskInode) (s : Disk) : Prop :=
  let r := (Inode.create L.formatted (L.slot a) name d₀).run s
  r.1.1 = .kFail → NothingLeft L a s r.2

/-- What `create` has done when it fails. -/
structure Abandoned (L : Layout) (a : Nat) (d₀ : DiskInode) (s s' : Disk) : Prop where
  marked : ∀ i, L.formatted.inodeBitmap.Used s'.blocks i ↔
    L.formatted.inodeBitmap.Used s.blocks i ∨ (L.formatted.inodeBitmap.freeIds s.blocks).head? = some i
  slots : Touches (fun b => ¬ L.InodeArea b) s s'
  lost : (L.inode s.blocks a).size.toNat + 256 = 4294967296 →
    ∃ id, L.formatted.dataBitmap.Used s.blocks id ∧ ¬ L.formatted.dataBitmap.Used s'.blocks id
  grew : (L.inode s.blocks a).size.toNat + 256 < 4294967296 →
    ∀ id, L.formatted.dataBitmap.Used s.blocks id → L.formatted.dataBitmap.Used s'.blocks id
  left : (L.inode s.blocks a).size.toNat + 256 < 4294967296 →
    (L.formatted.dataBitmap.freeIds s'.blocks).length =
      (L.formatted.dataBitmap.freeIds s.blocks).length - entryGrowth (L.inode s.blocks a) -
        if (L.inode s.blocks a).size.toNat < 2147483648 ∧ entryGrowth (L.inode s.blocks a) ≤
          (L.formatted.dataBitmap.freeIds s.blocks).length then newBlocks d₀ else 0
  directory : (L.inode s.blocks a).size.toNat + 256 < 4294967296 →
    (L.formatted.dataBitmap.freeIds s'.blocks).length = (L.formatted.dataBitmap.freeIds s.blocks).length →
      SameFile L a s s'

section

variable {L : Layout} {live : Nat → Prop} {s s₁ s₂ s₃ : Disk} {a : Nat} {d₀ : DiskInode} {name : Name}

theorem Populated.run_allocInode_any (state : Populated L s live) :
    ∃ s₁, L.formatted.allocInode.run s = (newInodeId L s, s₁) ∧
      Touches L.formatted.inodeBitmap.Holds s s₁ ∧
      ∀ i, L.formatted.inodeBitmap.Used s₁.blocks i ↔
        L.formatted.inodeBitmap.Used s.blocks i ∨ (L.formatted.inodeBitmap.freeIds s.blocks).head? = some i := by
  have fits := state.inodeBitmap_fits
  rw [newInodeId, Bitmap.freeIds]
  cases free : L.formatted.inodeBitmap.freeBits s.blocks with
  | nil =>
    refine ⟨s, Bitmap.run_alloc_nil fits free, .refl _ _, fun i => ?_⟩
    rw [List.map_nil, List.head?_nil, or_iff_left (by simp)]
  | cons n rest =>
    have inside : n < L.formatted.inodeBitmap.capacity :=
      (Bitmap.mem_freeBits.mp (free ▸ List.mem_cons_self)).1
    refine ⟨_, Bitmap.run_alloc_cons fits free, Bitmap.touches_mark inside, fun i => ?_⟩
    rw [List.map_cons, List.head?_cons, Option.some.injEq, Bitmap.Used, Bitmap.Used, Bitmap.bit_mark fits inside,
      Bitmap.InSegment]
    grind

/-- Steps in the data area and its bitmap. -/
theorem Layout.above_area (high : Touches (fun b => L.formatted.dataBitmap.startBlockId ≤ b) s s₁) :
    Touches (fun b => ¬ L.InodeArea b) s s₁ ∧ SameMarks L s s₁ := by
  refine ⟨high.mono fun b above area => ?_, .of_touches high fun b above => .inr ?_⟩
  · have := area.2
    rw [Layout.dataBitmap_eq] at above
    simp only at above
    omega
  · rw [Layout.dataBitmap_eq] at above
    simp only [Layout.dataBitmapStart] at above
    rw [Layout.inodeAreaStart]
    omega

/-- Steps in the inode bitmap. -/
theorem Layout.below_area (low : Touches L.formatted.inodeBitmap.Holds s s₁) :
    Touches (fun b => b < L.inodeAreaStart) s s₁ ∧ Touches (fun b => ¬ L.InodeArea b) s s₁ ∧
      L.formatted.dataBitmap.freeIds s₁.blocks = L.formatted.dataBitmap.freeIds s.blocks := by
  have touches : Touches (fun b => b < L.inodeAreaStart) s s₁ :=
    low.mono fun b holds => (Layout.marks_between holds).2
  refine ⟨touches, touches.mono fun b below area => Nat.not_le_of_lt below area.1, ?_⟩
  refine Bitmap.freeIds_congr fun b holds => touches.blocks b fun below => ?_
  have between := holds.1
  rw [Layout.dataBitmap_eq] at between
  simp only [Layout.inodeAreaStart, Layout.dataBitmapStart] at between below
  omega

/-- The first step of `create`, and what follows it. -/
theorem Abandoned.after_alloc (d₀ : DiskInode) (s₃ : Disk) (low : Touches L.formatted.inodeBitmap.Holds s s₁)
    (marked : ∀ i, L.formatted.inodeBitmap.Used s₁.blocks i ↔
      L.formatted.inodeBitmap.Used s.blocks i ∨ (L.formatted.inodeBitmap.freeIds s.blocks).head? = some i)
    (same : SameFile L a s s₁) (high : Touches (fun b => L.formatted.dataBitmap.startBlockId ≤ b) s₁ s₃)
    (lost : (L.inode s.blocks a).size.toNat + 256 = 4294967296 →
      ∃ id, L.formatted.dataBitmap.Used s₁.blocks id ∧ ¬ L.formatted.dataBitmap.Used s₃.blocks id)
    (grew : (L.inode s.blocks a).size.toNat + 256 < 4294967296 →
      ∀ id, L.formatted.dataBitmap.Used s₁.blocks id → L.formatted.dataBitmap.Used s₃.blocks id)
    (left : (L.inode s.blocks a).size.toNat + 256 < 4294967296 →
      (L.formatted.dataBitmap.freeIds s₃.blocks).length =
        (L.formatted.dataBitmap.freeIds s.blocks).length - entryGrowth (L.inode s.blocks a) -
          if (L.inode s.blocks a).size.toNat < 2147483648 ∧ entryGrowth (L.inode s.blocks a) ≤
            (L.formatted.dataBitmap.freeIds s.blocks).length then newBlocks d₀ else 0)
    (directory : (L.inode s.blocks a).size.toNat + 256 < 4294967296 →
      (L.formatted.dataBitmap.freeIds s₃.blocks).length = (L.formatted.dataBitmap.freeIds s.blocks).length →
        SameFile L a s₁ s₃) : Abandoned L a d₀ s s₃ := by
  obtain ⟨-, notArea, free⟩ := Layout.below_area low
  have used : ∀ id, L.formatted.dataBitmap.Used s₁.blocks id ↔ L.formatted.dataBitmap.Used s.blocks id := fun id => by
    rw [Bitmap.used_iff, Bitmap.used_iff, free]
  obtain ⟨above, marks⟩ := Layout.above_area high
  constructor
  case marked => exact fun i => (marks.used i).trans (marked i)
  case slots => exact notArea.trans above
  case lost => exact fun wrap => (lost wrap).imp fun id both => ⟨(used id).mp both.1, both.2⟩
  case grew => exact fun noWrap id before => grew noWrap id ((used id).mpr before)
  case left => exact left
  case directory => exact fun noWrap length => same.trans (directory noWrap length)

theorem Populated.run_create_outcome (state : Populated L s live) (here : live a)
    (dir : (L.inode s.blocks a).type = kDirectory) {m : Nat}
    (aligned : (L.inode s.blocks a).size.toNat = 256 * m) (empty : d₀.Empty) (name : Name) :
    ∃ r s', (Inode.create L.formatted (L.slot a) name d₀).run s = (r, s') ∧
      (r.1 = .kSuccess ↔ CreateRoom L a d₀ s) ∧ (r.1 = .kFail → Abandoned L a d₀ s s') := by
  have slotA := state.slots a here
  have isDir : ¬ (L.inode s.blocks a).type ≠ kDirectory := not_not_intro dir
  obtain ⟨s₁, alloc, low, marked⟩ := state.run_allocInode_any
  obtain ⟨touches, -, free₁⟩ := Layout.below_area low
  obtain ⟨state₁, same₁⟩ := state.underneath touches
  have inode : L.inode s₁.blocks a = L.inode s.blocks a := (same₁ a here).inode
  have segment₁ := state₁.volume.segment
  have map₁ := state₁.volume.map a here
  have self := Layout.diskInodeId_slot slotA
  have target : L.formatted.getDiskInodePos (newInodeId L s) = L.slot (newInodeId L s) := rfl
  obtain ⟨ret, d₂, s₂, append, appending⟩ := Inode.run_appendEntry_outcome map₁ segment₁ state₁.failId
    (by rw [inode]; exact aligned) name (newInodeId L s)
  have abandoned := fun s₃ => Abandoned.after_alloc d₀ s₃ low marked (same₁ a here)
  obtain ⟨high, success, lost, left, grew, dropped⟩ := appending
  rw [inode, free₁] at success left dropped
  rw [inode] at append lost grew
  rw [← entryGrowth] at success left
  cases ret with
  | kFail =>
    have noRoom : ¬ ((L.inode s.blocks a).size.toNat < 2147483648 ∧ entryGrowth (L.inode s.blocks a) ≤
        (L.formatted.dataBitmap.freeIds s.blocks).length) := fun both => by cases success.mpr both
    refine ⟨(.kFail, some (L.slot (newInodeId L s))), s₂, ?_, iff_of_false (fun h => by cases h) fun room => ?_, fun _ => ?_⟩
    · simp only [Inode.create, DevProg.run_bind, state.run_readInode here, isDir, if_false, alloc, append,
        target, DevProg.run_pure]
    · have := room.blocks
      exact noRoom ⟨room.small, by omega⟩
    · refine abandoned s₂ high lost grew (by rw [if_neg noRoom, Nat.sub_zero]; exact left) fun noWrap length => ?_
      have dropped₂ := dropped (.inr ⟨noWrap, length⟩)
      rw [← inode] at dropped₂
      exact (state₁.dropped here dropped₂).2 a here
  | kSuccess =>
    obtain ⟨small, enough⟩ := success.mp rfl
    have noWrap : (L.inode s.blocks a).size.toNat + 256 < 4294967296 := by omega
    have dropped₂ := dropped (.inl rfl)
    have left₂ := left noWrap
    have segment₂ := dropped₂.evolved.segment segment₁
    obtain ⟨ret', d₃, s₃, dots, dropped₃, -, room, used⟩ := run_newInode segment₂
      (dropped₂.evolved.touches.count ▸ state₁.failId) empty slotA.2 (newInodeId L s)
    have grew₃ : ∀ id, L.formatted.dataBitmap.Used s₂.blocks id → L.formatted.dataBitmap.Used s₃.blocks id :=
      dropped₃.grew
    have left₃ : (L.formatted.dataBitmap.freeIds s₃.blocks).length =
        (L.formatted.dataBitmap.freeIds s.blocks).length - entryGrowth (L.inode s.blocks a) - newBlocks d₀ := by
      cases ret' with
      | kSuccess =>
        have := used rfl
        omega
      | kFail =>
        -- no block was free, and none is now
        have none : ¬ newBlocks d₀ ≤ (L.formatted.dataBitmap.freeIds s₂.blocks).length := fun some => by
          cases room some
        have one : newBlocks d₀ ≤ 1 := by
          rw [newBlocks]
          split <;> omega
        have free₂ : L.formatted.dataBitmap.freeIds s₂.blocks = [] := List.length_eq_zero_iff.mp (by omega)
        have free₃ : L.formatted.dataBitmap.freeIds s₃.blocks = [] :=
          List.eq_nil_iff_forall_not_mem.mpr fun id free => by
            have inside := (Bitmap.mem_freeIds.mp free).1
            exact (Bitmap.used_iff.mp (grew₃ id (Bitmap.used_iff.mpr ⟨inside, free₂ ▸ List.not_mem_nil⟩))).2 free
        rw [free₃, List.length_nil]
        omega
    have stuck : Abandoned L a d₀ s s₃ := by
      refine abandoned s₃ (high.trans (dropped₃.evolved.high segment₂)) (fun wrap => by omega)
        (fun noWrap id before => grew₃ id (grew noWrap id before)) (fun _ => ?_) fun _ _ => ?_
      · rw [if_pos ⟨small, enough⟩]
        exact left₃
      · rw [← inode] at dropped₂
        have fresh : ¬ live 4294967296 := fun there => absurd (state.slots _ there).2 (Nat.lt_irrefl _)
        exact (state₁.create_dropped here fresh empty dropped₂ dropped₃).2.2 a here
    have count : s₃.count = s.count := dropped₃.evolved.touches.count.trans
      (dropped₂.evolved.touches.count.trans touches.count)
    cases ret' with
    | kFail =>
      refine ⟨(.kFail, some (L.slot (newInodeId L s))), s₃, ?_, iff_of_false (fun h => by cases h) fun fits => ?_,
        fun _ => stuck⟩
      · simp only [Inode.create, DevProg.run_bind, state.run_readInode here, isDir, if_false, alloc, append, self,
          dots, target, DevProg.run_pure]
      · have := fits.blocks
        exact absurd (room (by omega)) (by decide)
    | kSuccess =>
      have enough₃ := used rfl
      by_cases onDevice : (L.slot (newInodeId L s)).blockId < s.count
      · obtain ⟨s₄, saveN, touches₄, -⟩ := run_writeInode_saved d₃ (show (L.slot (newInodeId L s)).blockId < s₃.count
          from count ▸ onDevice)
        have onDevice' : (L.slot a).blockId < s₄.count := (touches₄.count.trans count) ▸ state.onDevice slotA
        obtain ⟨s₅, saveA, -, -⟩ := run_writeInode_saved d₂ onDevice'
        refine ⟨(.kSuccess, some (L.slot (newInodeId L s))), s₅, ?_,
          iff_of_true rfl ⟨small, by omega, onDevice⟩, fun fails => by cases fails⟩
        simp only [Inode.create, DevProg.run_bind, state.run_readInode here, isDir, if_false, alloc, append, self,
          dots, target, saveN, saveA, DevProg.run_pure]
      · refine ⟨(.kFail, some (L.slot (newInodeId L s))), s₃, ?_,
          iff_of_false (fun h => by cases h) fun fits => onDevice fits.slot, fun _ => stuck⟩
        simp only [Inode.create, DevProg.run_bind, state.run_readInode here, isDir, if_false, alloc, append, self,
          dots, target, run_writeInode_off d₃ (count ▸ Nat.le_of_not_lt onDevice), DevProg.run_pure]

end

/-- A `create` that fails leaves nothing behind exactly if it does not fail, or there is no
inode to take, and no block to take or none that it asks for. -/
theorem failed_create_iff (L : Layout) {live : Nat → Prop} {s : Disk} (state : Populated L s live) {a : Nat}
    (here : live a) (dir : (L.inode s.blocks a).type = kDirectory) (aligned : 256 ∣ (L.inode s.blocks a).size.toNat)
    {d₀ : DiskInode} (empty : d₀.Empty) (name : Name) :
    FailsCleanly L a name d₀ s ↔ CreateRoom L a d₀ s ∨
      L.formatted.inodeBitmap.freeIds s.blocks = [] ∧ (L.inode s.blocks a).size.toNat + 256 < 4294967296 ∧
        (L.formatted.dataBitmap.freeIds s.blocks = [] ∨ entryGrowth (L.inode s.blocks a) = 0 ∧
          (d₀.type ≠ kDirectory ∨ 2147483648 ≤ (L.inode s.blocks a).size.toNat)) := by
  obtain ⟨m, aligned⟩ := aligned
  obtain ⟨r, s', run, success, fails⟩ := state.run_create_outcome here dir aligned empty name
  rw [FailsCleanly, run]
  by_cases room : CreateRoom L a d₀ s
  · have done := success.mpr room
    exact iff_of_true (fun failed => by rw [done] at failed; cases failed) (.inl room)
  have failed : r.1 = .kFail := by
    cases ret : r.1 with
    | kFail => rfl
    | kSuccess => exact absurd (success.mp ret) room
  obtain ⟨marked, slots, lost, grew, left, directory⟩ := fails failed
  have size := (L.inode s.blocks a).size.toNat_lt
  have type : newBlocks d₀ = 0 ↔ d₀.type ≠ kDirectory := by
    rw [newBlocks]
    split <;> simp [*]
  have none : L.formatted.dataBitmap.freeIds s.blocks = [] ↔ (L.formatted.dataBitmap.freeIds s.blocks).length = 0 :=
    List.length_eq_zero_iff.symm
  -- what is left is as much as there was
  have length : (L.inode s.blocks a).size.toNat + 256 < 4294967296 →
      ((L.formatted.dataBitmap.freeIds s'.blocks).length = (L.formatted.dataBitmap.freeIds s.blocks).length ↔
        (L.formatted.dataBitmap.freeIds s.blocks = [] ∨ entryGrowth (L.inode s.blocks a) = 0 ∧
          (d₀.type ≠ kDirectory ∨ 2147483648 ≤ (L.inode s.blocks a).size.toNat))) := by
    intro noWrap
    rw [left noWrap, none, ← type]
    split <;> omega
  constructor
  · intro clean
    have nothing := clean failed
    have noWrap : (L.inode s.blocks a).size.toNat + 256 < 4294967296 := by
      by_contra wrap
      obtain ⟨id, before, gone⟩ := lost (by omega)
      exact gone ((nothing.blocks id).mpr before)
    refine .inr ⟨?_, noWrap, (length noWrap).mp ((same_bits_iff (grew noWrap)).mp nothing.blocks)⟩
    cases free : L.formatted.inodeBitmap.freeIds s.blocks with
    | nil => rfl
    | cons n rest =>
      have used := (nothing.inodes n).mp ((marked n).mpr (.inr (by rw [free, List.head?_cons])))
      exact absurd (free ▸ List.mem_cons_self) (Bitmap.used_iff.mp used).2
  · rintro (fits | ⟨full, noWrap, nothing⟩) _
    · exact absurd fits room
    · have same := (length noWrap).mpr nothing
      refine ⟨fun i => ?_, (same_bits_iff (grew noWrap)).mpr same, slots, directory noWrap same⟩
      rw [marked, full, List.head?_nil, or_iff_left (by simp)]

theorem failed_create_iff_lone : FailsCleanly .default 2 [97] emptyFile loneDisk := by
  refine (failed_create_iff .default loneDisk_state.state rfl (by rw [loneDisk_inode]; rfl)
    (by rw [loneDisk_inode]; exact dvd_zero 256) emptyFile_empty [97]).mpr (.inl ⟨?_, ?_, ?_⟩)
  · rw [loneDisk_inode]
    decide
  · rw [loneDisk_inode]
    exact loneDisk_free
  · rw [newInodeId, loneDisk_head]
    decide

/-! ### A directory on a full disk -/

/-- The disk with one directory, after every block of the data area has been taken. -/
def crowdedDisk : Disk :=
  { loneDisk with blocks := fun b => if 1026 ≤ b ∧ b < 1153 then fun _ => 255 else loneDisk.blocks b }

theorem crowdedDisk_inode : Layout.default.inode crowdedDisk.blocks 2 = loneDirectory := by
  have same : crowdedDisk.blocks (Layout.default.slot 2).blockId = loneDisk.blocks (Layout.default.slot 2).blockId := by
    rw [Layout.slot_eq lone_slotId]
    rfl
  rw [← loneDisk_inode, Layout.inode, Layout.inode, same]

theorem crowdedDisk_state : Populated .default crowdedDisk (· = 2) := by
  have device : Layout.default.areaEnd ≤ crowdedDisk.count := by decide
  refine ⟨device, by decide, fun j is => is ▸ lone_slotId, Layout.segment _ device, fun j is => ?_,
    fun j k is is' b _ _ => is.trans is'.symm⟩
  rw [is, crowdedDisk_inode]
  exact loneDirectory_empty.map

theorem crowdedDisk_full : Layout.default.formatted.dataBitmap.freeIds crowdedDisk.blocks = [] := by
  rw [← oneFileDisk_full]
  refine Bitmap.freeIds_congr fun b holds => ?_
  have start : Layout.default.dataBitmapStart = 1026 := rfl
  have blocks : Layout.default.dataBitmapBlocks = 127 := rfl
  rw [Bitmap.Holds, Layout.dataBitmap_eq] at holds
  simp only at holds
  simp only [crowdedDisk, oneFileDisk]
  rw [if_pos (by omega), if_neg (by omega), if_pos (by omega)]

theorem crowdedDisk_head : (Layout.default.formatted.inodeBitmap.freeIds crowdedDisk.blocks).head? = some 3 := by
  rw [← loneDisk_head]
  refine congrArg List.head? (Bitmap.freeIds_congr fun b holds => if_neg fun inside => ?_)
  have below : b < 2 := (Layout.marks_between holds).2
  omega

/-- On a full disk the inode that `create` has taken stays taken. -/
theorem failed_create_leaks :
    ¬ ∀ (L : Layout) (live : Nat → Prop) (s : Disk), Populated L s live → ∀ a, live a →
      (L.inode s.blocks a).type = kDirectory → 256 ∣ (L.inode s.blocks a).size.toNat →
        ∀ d₀ : DiskInode, d₀.Empty → ∀ name, FailsCleanly L a name d₀ s := by
  intro always
  have dir : (Layout.default.inode crowdedDisk.blocks 2).type = kDirectory := by rw [crowdedDisk_inode]; rfl
  have size : (Layout.default.inode crowdedDisk.blocks 2).size.toNat = 256 * 0 := by rw [crowdedDisk_inode]; rfl
  have clean := always .default (· = 2) crowdedDisk crowdedDisk_state 2 rfl dir ⟨0, size⟩ emptyFile emptyFile_empty [97]
  obtain ⟨r, s', run, success, fails⟩ := crowdedDisk_state.run_create_outcome rfl dir size emptyFile_empty [97]
  have failed : r.1 = .kFail := by
    cases ret : r.1 with
    | kFail => rfl
    | kSuccess =>
      have enough := (success.mp ret).blocks
      rw [crowdedDisk_inode, crowdedDisk_full] at enough
      exact absurd enough (by decide)
  rw [FailsCleanly, run] at clean
  have used := ((clean failed).inodes 3).mp (((fails failed).marked 3).mpr (.inr crowdedDisk_head))
  exact (Bitmap.used_iff.mp used).2 (List.mem_of_mem_head? crowdedDisk_head)

end Sbfs
