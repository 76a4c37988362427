import Sbfs.Attributes
import Sbfs.FileSteps
import Sbfs.Lib.FlatDevice
import Sbfs.Format
import Sbfs.ShrinkCrashes

/-! # Block ids

Block ids are `uint32_t` in the code and naturals here.  Every id that a method of `Inode` passes to `write` fits in 32
bits, whatever the device answers: it has been read before, it comes out of a bitmap or an index block, or it is
the number of a group (`InodeReq.body_writesIds`). -/

namespace Sbfs

open DevProg

/-- `blk_id_t` has 32 bits. -/
def IsBlkId (b : Nat) : Prop := b < 4294967296

/-- The ids of the blocks that the program writes have 32 bits. -/
abbrev WritesIds {α : Type} (p : Prog α) : Prop := p.Within IsBlkId fun _ => True

theorem isBlkId_uint32 (b : UInt32) : IsBlkId b.toNat := b.toNat_lt

theorem isBlkId_entry (blk : Block) (i : Nat) : IsBlkId (entry blk i) := entry_lt blk i

/-! ## Bitmaps -/

namespace Bitmap

variable (bm : Bitmap)

/-- `alloc` returns a block id. -/
theorem within_allocFrom (n i : Nat) : (bm.allocFrom n i).Within IsBlkId IsBlkId := by
  have id : ∀ z, IsBlkId (z % 4294967296) := fun z => Nat.mod_lt _ (by omega)
  induction n generalizing i with
  | zero => exact show kFailId < 4294967296 by decide
  | succ n ih =>
    rw [allocFrom]
    refine within_bind.mpr (within_readBlk.mpr fun r _ => ?_)
    cases r with
    | none => exact show kFailId < 4294967296 by decide
    | some buf =>
      dsimp only
      split
      · exact ih (i + 1)
      · refine ⟨id _, fun ok => ?_⟩
        cases ok with
        | false => exact show kFailId < 4294967296 by decide
        | true => exact id _

theorem within_alloc : bm.alloc.Within IsBlkId IsBlkId := bm.within_allocFrom _ _

theorem writesIds_alloc : WritesIds bm.alloc := bm.within_alloc.mono fun _ _ => trivial

theorem writesIds_free (blockId : Nat) : WritesIds (bm.free blockId) := by
  rw [free]
  intro r known
  cases r with
  | none => exact trivial
  | some buf =>
    refine ⟨known (Option.some_ne_none buf), fun ok => ?_⟩
    cases ok <;> exact trivial

end Bitmap

/-! ## Records -/

theorem writesIds_writeInode (pos : Position) (d : DiskInode) : WritesIds (writeInode pos d) := by
  intro r known
  cases r with
  | none => exact trivial
  | some blk =>
    refine ⟨known (Option.some_ne_none blk), fun ok => ?_⟩
    cases ok <;> exact trivial

theorem writesIds_readInode (pos : Position) : WritesIds (readInode pos) := (readOnly_readInode pos).within

theorem writesIds_modifyInode (pos : Position) (f : DiskInode → DiskInode) : WritesIds (modifyInode pos f) := by
  refine (writesIds_readInode pos).bind fun r => ?_
  cases r with
  | none => exact trivial
  | some d => exact writesIds_writeInode pos _

namespace DiskInode

/-! ### Growing -/

theorem writesIds_allocEach {α : Type} (bm : Bitmap) (store : α → Nat → Nat → α) (n i : Nat) (a : α) :
    WritesIds (allocEach bm store n i a) := by
  induction n generalizing i a with
  | zero => exact trivial
  | succ n ih =>
    refine bm.writesIds_alloc.bind fun newBlk => ?_
    split
    · exact trivial
    · exact ih _ _

theorem writesIds_fillIndirect1 (d : DiskInode) (m n : Nat) (bm : Bitmap) : WritesIds (d.fillIndirect1 m n bm) := by
  intro r _
  cases r with
  | none => exact trivial
  | some ind1 =>
    refine (writesIds_allocEach bm _ _ _ _).bind fun filled => ?_
    obtain ⟨ret, ind1⟩ := filled
    cases ret with
    | kFail => exact trivial
    | kSuccess =>
      refine ⟨isBlkId_uint32 _, fun ok => ?_⟩
      cases ok <;> exact trivial

theorem writesIds_increaseIndirect1 (d : DiskInode) (m n : Nat) (bm : Bitmap) :
    WritesIds (d.increaseIndirect1 m n bm) := by
  rw [increaseIndirect1]
  split
  · refine bm.writesIds_alloc.bind fun id => ?_
    split
    · exact trivial
    · exact writesIds_fillIndirect1 _ m n bm
  · exact writesIds_fillIndirect1 d m n bm

theorem writesIds_secondLevel (bm : Bitmap) {indirect2 : Nat} (id : IsBlkId indirect2) (blk : Nat) (blkLimit : Int)
    (ind2 : Block) : WritesIds (secondLevel bm indirect2 blk blkLimit ind2) := by
  rw [secondLevel]
  split
  · refine bm.writesIds_alloc.bind fun newInd1 => ?_
    split
    · exact trivial
    · refine ⟨id, fun ok => ?_⟩
      cases ok <;> exact trivial
  · exact trivial

theorem writesIds_appendEntry (bm : Bitmap) (target k : Nat) : WritesIds (appendEntry bm target k) := by
  intro r known
  cases r with
  | none => exact trivial
  | some ind21 =>
    refine bm.writesIds_alloc.bind fun newBlk => ?_
    split
    · exact trivial
    · refine ⟨known (Option.some_ne_none ind21), fun ok => ?_⟩
      cases ok <;> exact trivial

theorem writesIds_growIndirect2 (bm : Bitmap) {indirect2 : Nat} (id : IsBlkId indirect2) (n i : Nat) (blkLimit : Int)
    (ind2 : Block) : WritesIds (growIndirect2 bm indirect2 n i blkLimit ind2) := by
  induction n generalizing i blkLimit ind2 with
  | zero => exact trivial
  | succ n ih =>
    refine (writesIds_secondLevel bm id _ _ _).bind fun level => ?_
    cases level with
    | none => exact trivial
    | some level =>
      refine (writesIds_appendEntry bm _ _).bind fun ret => ?_
      cases ret with
      | kFail => exact trivial
      | kSuccess => exact ih _ _ _

theorem writesIds_fillIndirect2 (d : DiskInode) (m n : Nat) (bm : Bitmap) : WritesIds (d.fillIndirect2 m n bm) := by
  intro r _
  cases r with
  | none => exact trivial
  | some ind2 => exact (writesIds_growIndirect2 bm (isBlkId_uint32 _) _ _ _ _).bind fun ret => trivial

theorem writesIds_increaseIndirect2 (d : DiskInode) (m n : Nat) (bm : Bitmap) :
    WritesIds (d.increaseIndirect2 m n bm) := by
  rw [increaseIndirect2]
  split
  · refine bm.writesIds_alloc.bind fun id => ?_
    split
    · exact trivial
    · exact writesIds_fillIndirect2 _ m n bm
  · exact writesIds_fillIndirect2 d m n bm

theorem writesIds_increase (d : DiskInode) (m n : Nat) (bm : Bitmap) : WritesIds (d.increase m n bm) := by
  refine (writesIds_allocEach bm _ _ _ _).bind fun direct => ?_
  obtain ⟨ret, d⟩ := direct
  cases ret with
  | kFail => exact trivial
  | kSuccess =>
    have one : WritesIds (if 23 < n then d.increaseIndirect1 m n bm else pure (.kSuccess, d)) := by
      split
      · exact writesIds_increaseIndirect1 d m n bm
      · exact trivial
    refine one.bind fun first => ?_
    obtain ⟨ret, d⟩ := first
    cases ret with
    | kFail => exact trivial
    | kSuccess =>
      dsimp only
      split
      · exact writesIds_increaseIndirect2 d m n bm
      · exact trivial

/-! ### Shrinking -/

theorem writesIds_decreaseIndirect1 (d : DiskInode) (m n : Nat) : WritesIds (d.decreaseIndirect1 m n) := by
  rw [decreaseIndirect1]
  split
  · exact trivial
  · intro r _
    cases r with
    | none => exact trivial
    | some ind1 =>
      dsimp only
      split
      · exact trivial
      · refine ⟨isBlkId_uint32 _, fun ok => ?_⟩
        cases ok <;> exact trivial

theorem writesIds_trimGroup (ind2 : Block) (posi posj : Nat × Nat) {i : Nat} (id : IsBlkId i) (ind1 : Block) :
    WritesIds (trimGroup ind2 posi posj i ind1) := by
  rw [trimGroup]
  split
  · exact trivial
  split
  · refine ⟨id, fun ok => ?_⟩
    cases ok <;> exact trivial
  split
  · exact trivial
  · refine ⟨id, fun ok => ?_⟩
    cases ok <;> exact trivial

theorem writesIds_trimGroups (ind2 : Block) (posi posj : Nat × Nat) {n i : Nat} (few : ∀ j, j < n → IsBlkId (i + j)) :
    WritesIds (trimGroups ind2 posi posj n i) := by
  induction n generalizing i with
  | zero => exact trivial
  | succ n ih =>
    intro r _
    cases r with
    | none => exact trivial
    | some ind1 =>
      refine (writesIds_trimGroup ind2 posi posj (few 0 (Nat.succ_pos n)) ind1).bind fun round => ?_
      obtain ⟨ret, ids⟩ := round
      cases ret with
      | kFail => exact trivial
      | kSuccess =>
        have later : ∀ j, j < n → IsBlkId (i + 1 + j) := fun j inside => by
          rw [Nat.add_right_comm]
          exact few (j + 1) (by omega)
        exact (ih later).bind fun _ => trivial

theorem writesIds_decreaseIndirect2 (d : DiskInode) {m : Nat} (n : Nat) (few : m < 4294967296) :
    WritesIds (d.decreaseIndirect2 m n) := by
  rw [decreaseIndirect2]
  split
  · exact trivial
  dsimp only
  split
  · intro r _
    cases r with
    | none => exact trivial
    | some ind2 =>
      refine (readOnly_freeGroups ind2 _ _ _).within.bind fun freed => ?_
      obtain ⟨ret, ids⟩ := freed
      cases ret <;> exact trivial
  split
  · intro r _
    cases r with
    | none => exact trivial
    | some ind2 =>
      refine (writesIds_trimGroups ind2 _ _ fun j inside => show _ < 4294967296 by omega).bind fun trimmed => ?_
      obtain ⟨ret, ids⟩ := trimmed
      cases ret with
      | kFail => exact trivial
      | kSuccess =>
        refine ⟨isBlkId_uint32 _, fun ok => ?_⟩
        cases ok <;> exact trivial
  · exact trivial

theorem writesIds_freeEach (bm : Bitmap) (ids : List Int) : WritesIds (freeEach bm ids) := by
  induction ids with
  | nil => exact trivial
  | cons i ids ih =>
    refine (bm.writesIds_free _).bind fun ret => ?_
    cases ret with
    | kFail => exact trivial
    | kSuccess => exact ih

theorem writesIds_decrease (d : DiskInode) {m : Nat} (n : Nat) (few : m < 4294967296) (bm : Bitmap)
    (inode : Option Position) : WritesIds (d.decrease m n bm inode) := by
  rw [decrease]
  dsimp only
  refine (writesIds_decreaseIndirect1 _ m n).bind fun first => ?_
  obtain ⟨ret, d, ids1⟩ := first
  cases ret with
  | kFail => exact trivial
  | kSuccess =>
    refine (writesIds_decreaseIndirect2 d n few).bind fun second => ?_
    obtain ⟨ret, d, ids2⟩ := second
    cases ret with
    | kFail => exact trivial
    | kSuccess =>
      cases inode with
      | none => exact (writesIds_freeEach bm _).bind fun _ => trivial
      | some pos =>
        exact (writesIds_writeInode pos d).bind fun _ => (writesIds_freeEach bm _).bind fun _ => trivial

theorem writesIds_resize (d : DiskInode) (newSize : Nat) (bm : Bitmap) (inode : Option Position) :
    WritesIds (d.resize newSize bm inode) := by
  refine (readOnly_updateMeta d 7).within.bind fun d => ?_
  dsimp only
  split
  · cases inode with
    | none => exact trivial
    | some pos => exact (writesIds_writeInode pos _).bind fun _ => trivial
  split
  · exact writesIds_decrease _ _ ((dataBlocks_le d.size.toNat_lt).trans_lt (by decide)) bm inode
  · exact writesIds_increase _ _ _ bm

/-! ### Bytes -/

/-- `block_id` returns a block id. -/
theorem within_blockId (d : DiskInode) (innerId : Nat) : (d.blockId innerId).Within IsBlkId IsBlkId := by
  rw [blockId]
  split
  · exact show kFailId < 4294967296 by decide
  split
  · exact d.directAt_lt innerId
  split
  · intro r _
    cases r with
    | none => exact show kFailId < 4294967296 by decide
    | some buf => exact isBlkId_entry buf _
  · intro r _
    cases r with
    | none => exact show kFailId < 4294967296 by decide
    | some buf =>
      intro r _
      cases r with
      | none => exact show kFailId < 4294967296 by decide
      | some buf2 => exact isBlkId_entry buf2 _

theorem writesIds_writeBlocks (d : DiskInode) (n : Nat) (i : Int) (bufoffset : Nat) (buf : Mem) :
    WritesIds (d.writeBlocks n i bufoffset buf) := by
  induction n generalizing i bufoffset with
  | zero => exact trivial
  | succ n ih =>
    refine within_bind.mpr ((d.within_blockId _).mono fun blk id => ⟨id, fun ok => ?_⟩)
    cases ok with
    | false => exact trivial
    | true => exact ih _ _

theorem writesIds_patchBlock (blk off len : Nat) (buf : Mem) : WritesIds (patchBlock blk off len buf) := by
  intro r known
  cases r with
  | none => exact trivial
  | some data => exact ⟨known (Option.some_ne_none data), fun _ => trivial⟩

theorem writesIds_writeRange (d : DiskInode) (l r : Int) (buf : Mem) : WritesIds (d.writeRange l r buf) := by
  rw [writeRange]
  dsimp only
  refine (readOnly_blockId d _).within.bind fun lblk => ?_
  split
  · exact writesIds_patchBlock _ _ _ _
  refine (writesIds_patchBlock _ _ _ _).bind fun ok => ?_
  cases ok with
  | false => exact trivial
  | true =>
    refine (writesIds_writeBlocks d _ _ _ _).bind fun ok => ?_
    cases ok with
    | false => exact trivial
    | true =>
      rw [if_pos rfl]
      split
      · exact (readOnly_blockId d _).within.bind fun rblk => writesIds_patchBlock _ _ _ _
      · exact trivial

theorem writesIds_writeData (d : DiskInode) (offset : Nat) (buf : Mem) (len : Nat) :
    WritesIds (d.writeData offset buf len) := by
  refine (readOnly_updateMeta d 3).within.bind fun d => ?_
  split
  · exact trivial
  split
  · exact trivial
  · refine (writesIds_writeRange d _ _ _).bind fun ok => ?_
    cases ok <;> exact trivial

end DiskInode

/-! ## Methods -/

theorem writesIds_scan (d : DiskInode) (name : Name) : WritesIds (scan d name) :=
  (readOnly_scanFrom name _ _ _ d).within

theorem writesIds_moveLast (d : DiskInode) (i j : Nat) : WritesIds (moveLast d i j) := by
  rw [moveLast]
  split
  · refine (d.readOnly_readData _ _ _).within.bind fun read => ?_
    obtain ⟨len, last, d⟩ := read
    dsimp only
    split
    · exact trivial
    · refine (d.writesIds_writeData _ _ _).bind fun wrote => ?_
      obtain ⟨len, d⟩ := wrote
      dsimp only
      split <;> exact trivial
  · exact trivial

namespace Inode

variable (fs : SBFileSystem)

theorem writesIds_readData (pos : Position) (offset : Nat) (buf : Mem) (size : Nat) :
    WritesIds (Inode.readData pos offset buf size) := by
  refine (writesIds_readInode pos).bind fun read => ?_
  cases read with
  | none => exact trivial
  | some d =>
    refine (d.readOnly_readData _ _ _).within.bind fun result => ?_
    obtain ⟨len, buf, d⟩ := result
    dsimp only
    split
    · exact trivial
    · refine (writesIds_writeInode pos d).bind fun ret => ?_
      cases ret <;> exact trivial

theorem writesIds_store (pos : Position) (d : DiskInode) (offset : Nat) (buf : Mem) (size : Nat) :
    WritesIds (store pos d offset buf size) := by
  refine (d.writesIds_writeData _ _ _).bind fun wrote => ?_
  obtain ⟨len, d⟩ := wrote
  dsimp only
  split
  · exact trivial
  · refine (writesIds_writeInode pos d).bind fun ret => ?_
    cases ret <;> exact trivial

theorem writesIds_writeData (pos : Position) (offset : Nat) (buf : Mem) (size : Nat) :
    WritesIds (Inode.writeData fs pos offset buf size) := by
  refine (writesIds_readInode pos).bind fun read => ?_
  cases read with
  | none => exact trivial
  | some d =>
    dsimp only
    split
    · exact (d.writesIds_resize _ _ _).bind fun grown => writesIds_store pos grown.2 _ _ _
    · exact writesIds_store pos d _ _ _

theorem writesIds_createDots (d : DiskInode) (self parent : Nat) : WritesIds (createDots fs d self parent) := by
  refine (d.writesIds_resize _ _ _).bind fun grown => ?_
  obtain ⟨ret, d⟩ := grown
  cases ret with
  | kFail => exact trivial
  | kSuccess =>
    refine (d.writesIds_writeData _ _ _).bind fun wrote => ?_
    obtain ⟨len, d⟩ := wrote
    dsimp only
    split <;> exact trivial

theorem writesIds_appendEntry (d : DiskInode) (name : Name) (inode : Nat) :
    WritesIds (Inode.appendEntry fs d name inode) := by
  refine (d.writesIds_resize _ _ _).bind fun grown => ?_
  obtain ⟨ret, d⟩ := grown
  cases ret with
  | kFail => exact trivial
  | kSuccess =>
    refine (d.writesIds_writeData _ _ _).bind fun wrote => ?_
    obtain ⟨len, d⟩ := wrote
    dsimp only
    split <;> exact trivial

theorem writesIds_create (pos : Position) (name : Name) (d : DiskInode) :
    WritesIds (Inode.create fs pos name d) := by
  refine (writesIds_readInode pos).bind fun read => ?_
  cases read with
  | none => exact trivial
  | some cur =>
    dsimp only
    split
    · exact trivial
    refine (fs.inodeBitmap.writesIds_alloc).bind fun id => ?_
    refine (writesIds_appendEntry fs cur name id).bind fun appended => ?_
    obtain ⟨ret, cur⟩ := appended
    cases ret with
    | kFail => exact trivial
    | kSuccess =>
      have dots : WritesIds (if d.type = kDirectory then createDots fs d id (fs.getDiskInodeId pos)
          else pure (.kSuccess, d)) := by
        split
        · exact writesIds_createDots fs d _ _
        · exact trivial
      refine dots.bind fun result => ?_
      obtain ⟨ret, d⟩ := result
      cases ret with
      | kFail => exact trivial
      | kSuccess =>
        refine (writesIds_writeInode _ d).bind fun ret => ?_
        cases ret with
        | kFail => exact trivial
        | kSuccess => exact (writesIds_writeInode pos cur).bind fun _ => trivial

theorem writesIds_resize (pos : Position) (newSize : Nat) : WritesIds (Inode.resize fs pos newSize) := by
  refine (writesIds_readInode pos).bind fun read => ?_
  cases read with
  | none => exact trivial
  | some d =>
    dsimp only
    split
    · exact trivial
    split
    · refine (d.writesIds_resize _ _ _).bind fun grown => ?_
      obtain ⟨ret, d⟩ := grown
      cases ret with
      | kFail => exact trivial
      | kSuccess => exact writesIds_writeInode pos d
    · exact (d.writesIds_resize _ _ _).bind fun _ => trivial

theorem writesIds_remove (pos : Position) (name : Name) : WritesIds (Inode.remove fs pos name) := by
  refine (writesIds_readInode pos).bind fun read => ?_
  cases read with
  | none => exact trivial
  | some d =>
    dsimp only
    split
    · exact trivial
    refine (writesIds_scan d name).bind fun result => ?_
    obtain ⟨found, d⟩ := result
    cases found with
    | failed => exact trivial
    | absent => exact trivial
    | found i j inode =>
      refine (writesIds_readInode _).bind fun read => ?_
      cases read with
      | none => exact trivial
      | some del =>
        dsimp only
        split
        · refine (writesIds_moveLast d i j).bind fun moved => ?_
          obtain ⟨ret, d⟩ := moved
          cases ret with
          | kFail => exact trivial
          | kSuccess =>
            refine (d.writesIds_resize _ _ _).bind fun shrunk => ?_
            obtain ⟨ret, d⟩ := shrunk
            cases ret with
            | kFail => exact trivial
            | kSuccess =>
              refine (fs.inodeBitmap.writesIds_free _).bind fun ret => ?_
              cases ret with
              | kFail => exact trivial
              | kSuccess => exact (DiskInode.writesIds_resize _ _ _ _).bind fun _ => trivial
        · exact writesIds_writeInode pos d

theorem writesIds_link (pos : Position) (name : Name) (inode : Position) (replace : Bool) :
    WritesIds (Inode.link fs pos name inode replace) := by
  refine (writesIds_readInode pos).bind fun read => ?_
  cases read with
  | none => exact trivial
  | some d =>
    dsimp only
    split
    · exact trivial
    refine (writesIds_scan d name).bind fun result => ?_
    obtain ⟨found, d⟩ := result
    cases found with
    | failed => exact trivial
    | found i j old =>
      dsimp only
      split
      · refine (writesIds_modifyInode inode _).bind fun ret => ?_
        cases ret with
        | kFail => exact trivial
        | kSuccess =>
          refine (d.writesIds_writeData _ _ _).bind fun wrote => ?_
          obtain ⟨len, d⟩ := wrote
          dsimp only
          split
          · exact trivial
          · exact writesIds_writeInode pos d
      · exact trivial
    | absent =>
      refine (writesIds_modifyInode inode _).bind fun ret => ?_
      cases ret with
      | kFail => exact trivial
      | kSuccess =>
        refine (writesIds_appendEntry fs d name _).bind fun appended => ?_
        obtain ⟨ret, d⟩ := appended
        cases ret with
        | kFail => exact trivial
        | kSuccess => exact writesIds_writeInode pos d

theorem writesIds_detach (pos : Position) (name : Name) : WritesIds (Inode.detach fs pos name) := by
  refine (writesIds_readInode pos).bind fun read => ?_
  cases read with
  | none => exact trivial
  | some d =>
    dsimp only
    split
    · exact trivial
    refine (writesIds_scan d name).bind fun result => ?_
    obtain ⟨found, d⟩ := result
    cases found with
    | failed => exact trivial
    | absent => exact trivial
    | found i j inode =>
      refine (writesIds_moveLast d i j).bind fun moved => ?_
      obtain ⟨ret, d⟩ := moved
      cases ret with
      | kFail => exact trivial
      | kSuccess => exact (d.writesIds_resize _ _ _).bind fun _ => trivial

theorem writesIds_unlink (pos : Position) (name : Name) : WritesIds (Inode.unlink fs pos name) := by
  refine (writesIds_detach fs pos name).bind fun result => ?_
  obtain ⟨ret, inode⟩ := result
  cases ret with
  | kFail => exact trivial
  | kSuccess =>
    cases inode with
    | none => exact trivial
    | some inode => exact (writesIds_modifyInode inode _).bind fun _ => trivial

end Inode

theorem readOnly_new (type : DiskInodeType) (uid gid : UInt16) : (DiskInode.new type uid gid).ReadOnly :=
  fun _ _ _ => trivial

theorem writesIds_checkEmpty (uid gid : UInt16) (dir : Position) : WritesIds (checkEmpty uid gid dir) := by
  refine (readOnly_new _ uid gid).within.bind fun new => ?_
  refine (writesIds_readInode dir).bind fun read => ?_
  dsimp only
  split
  · exact trivial
  split
  · exact trivial
  · refine (Inode.writesIds_readData dir _ _ _).bind fun result => ?_
    split <;> exact trivial

/-- The methods write blocks, whatever they are called with and whatever they find. -/
theorem InodeReq.body_writesIds (fs : SBFileSystem) (uid gid : UInt16) (q : InodeReq) (defined : q ≠ undefined) :
    WritesIds (q.body fs uid gid defined) := by
  cases q with
  | find dir name => exact (readOnly_find fs dir name).within
  | create dir name type mode =>
    exact (readOnly_new type uid gid).within.bind fun d => Inode.writesIds_create fs dir name _
  | remove dir name => exact Inode.writesIds_remove fs dir name
  | link dir name inode replace => exact Inode.writesIds_link fs dir name inode replace
  | unlink dir name => exact Inode.writesIds_unlink fs dir name
  | checkEmpty dir => exact writesIds_checkEmpty uid gid dir
  | readData inode offset buf size => exact Inode.writesIds_readData inode offset buf size
  | writeData inode offset buf size => exact Inode.writesIds_writeData fs inode offset buf size
  | resize inode newSize => exact Inode.writesIds_resize fs inode newSize
  | sync inode metadata => exact (readOnly_sync inode metadata).within
  | undefined => exact absurd rfl defined

theorem writesIds_listNames (uid gid : UInt16) (inode : Position) : WritesIds (listNames uid gid inode) := by
  have list : ∀ n i, WritesIds (listFrom inode n i) := by
    intro n
    induction n with
    | zero => exact fun i => trivial
    | succ n ih =>
      exact fun i => (Inode.writesIds_readData inode _ _ _).bind fun _ => (ih (i + 1)).bind fun _ => trivial
  refine (readOnly_new _ uid gid).within.bind fun new => ?_
  refine (writesIds_readInode inode).bind fun read => ?_
  dsimp only
  split
  · exact trivial
  · exact (list _ _).bind fun _ => trivial

namespace SBFileSystem

/-- Formatting writes blocks. -/
theorem writesIds_create (totalBlocks inodeBitmapBlocks : Nat) (uid gid : UInt16) :
    WritesIds (SBFileSystem.create totalBlocks inodeBitmapBlocks uid gid) := by
  have zero : IsBlkId 0 := show 0 < 4294967296 by decide
  refine ⟨zero, fun _ => ?_⟩
  refine (Bitmap.writesIds_alloc _).bind fun rootInodeId => ?_
  refine within_bind.mpr ((Bitmap.within_alloc _).mono fun rootDataId id => ?_)
  refine (readOnly_new _ uid gid).within.bind fun d => ?_
  refine (writesIds_writeInode _ _).bind fun _ => ?_
  exact ⟨id, fun _ => ⟨zero, fun _ => trivial⟩⟩

end SBFileSystem

end Sbfs
