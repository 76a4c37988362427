import Sbfs.Decrease

/-! # `DiskInode::resize`

`run_resize` puts growing and shrinking together: on a well-formed block map and with
enough free blocks `resize` succeeds, keeps the ids of the blocks that stay, and the
used bits change by exactly the slots gained or lost (`Resized`). -/

namespace Sbfs

open Slot

/-! ## Dispatch -/

/-- `total_blocks` orders sizes as `data_blocks` does, so `resize` takes its no-op branch
exactly when no block is gained or lost. -/
theorem totalBlocks_lt {a b : Nat} :
    DiskInode.totalBlocks a < DiskInode.totalBlocks b ↔ dataBlocks a < dataBlocks b := by
  simp only [DiskInode.totalBlocks]
  generalize dataBlocks a = m
  generalize dataBlocks b = n
  split <;> split <;> (try split) <;> (try split) <;> omega

theorem totalBlocks_eq {a b : Nat} :
    DiskInode.totalBlocks a = DiskInode.totalBlocks b ↔ dataBlocks a = dataBlocks b := by
  have less := totalBlocks_lt (a := a) (b := b)
  have more := totalBlocks_lt (a := b) (b := a)
  omega

theorem dataBlocks_le {size : Nat} (small : size < 4294967296) : dataBlocks size ≤ 1048576 := by
  rw [dataBlocks]
  omega

/-! ## Times -/

/-- The two inodes differ in their three times at most. -/
def Retimed (d d' : DiskInode) : Prop :=
  d' = { d with
    accessTime := d'.accessTime, changeTime := d'.changeTime, modifyTime := d'.modifyTime }

theorem Retimed.refl (d : DiskInode) : Retimed d d := rfl

theorem Retimed.trans {d d' d'' : DiskInode} (first : Retimed d d') (second : Retimed d' d'') :
    Retimed d d'' := by
  rw [Retimed] at *
  rw [second, first]

theorem run_stamp (wanted : Bool) {set : UInt32 → DiskInode} {d : DiskInode}
    (retimes : ∀ t, Retimed d (set t)) (s : Disk) :
    ∃ d' s', (DiskInode.stamp wanted set d).run s = (d', s') ∧ Retimed d d' ∧
      Touches (fun _ => False) s s' := by
  cases wanted with
  | false => exact ⟨d, s, rfl, .refl d, .refl _ _⟩
  | true => exact ⟨_, s.tick, rfl, retimes _, .tick _ _⟩

/-- `update_meta` looks at the clock and changes times only. -/
theorem run_updateMeta (d : DiskInode) (flag : Nat) (s : Disk) :
    ∃ d' s', (d.updateMeta flag).run s = (d', s') ∧ Retimed d d' ∧
      Touches (fun _ => False) s s' := by
  have access : ∀ (d : DiskInode) t, Retimed d { d with accessTime := t } := fun _ _ => rfl
  have modify : ∀ (d : DiskInode) t, Retimed d { d with modifyTime := t } := fun _ _ => rfl
  have change : ∀ (d : DiskInode) t, Retimed d { d with changeTime := t } := fun _ _ => rfl
  obtain ⟨d₁, s₁, run₁, retimed₁, touches₁⟩ := run_stamp (flag.testBit 0) (access d) s
  obtain ⟨d₂, s₂, run₂, retimed₂, touches₂⟩ := run_stamp (flag.testBit 1) (modify d₁) s₁
  obtain ⟨d₃, s₃, run₃, retimed₃, touches₃⟩ := run_stamp (flag.testBit 2) (change d₂) s₂
  refine ⟨d₃, s₃, ?_, (retimed₁.trans retimed₂).trans retimed₃,
    (touches₁.trans touches₂).trans touches₃⟩
  rw [DiskInode.updateMeta, DevProg.run_bind, run₁, DevProg.run_bind, run₂]
  exact run₃

/-- Ids are looked up in the pointers of the inode only. -/
theorem slotId_pointers {d d' : DiskInode} (direct : d'.direct = d.direct)
    (one : d'.indirect1 = d.indirect1) (two : d'.indirect2 = d.indirect2) (D : Nat → Block) :
    d'.slotId D = d.slotId D := by
  funext x
  cases x <;> simp only [DiskInode.slotId, DiskInode.directAt, direct, one, two]

theorem BlockMap.of_ids {bm : Bitmap} {d d' : DiskInode} {D : Nat → Block} {V : Slot → Prop}
    (map : BlockMap bm d D V) (ids : d'.slotId D = d.slotId D) : BlockMap bm d' D V := by
  have one : d'.indirect1.toNat = d.indirect1.toNat := congrFun ids ind1
  have two : d'.indirect2.toNat = d.indirect2.toNat := congrFun ids ind2
  refine ⟨map.closed, ?_, ?_, fun out => ?_, fun out => ?_⟩
  · rw [ids]
    exact map.used
  · rw [ids]
    exact map.inj
  · rw [UInt32.toNat_inj.mp one, map.no1 out]
  · rw [UInt32.toNat_inj.mp two, map.no2 out]

/-! ## `resize` -/

/-- The slots that an inode owns: those of its data blocks and of the index blocks over
them. -/
def DiskInode.Owns (d : DiskInode) (x : Slot) : Prop := Valid (dataBlocks d.size.toNat) x

/-- A well-formed inode: distinct taken blocks for exactly the slots its size asks for. -/
def WellMapped (bm : Bitmap) (d : DiskInode) (D : Nat → Block) : Prop := BlockMap bm d D d.Owns

/-- The index blocks of an inode. -/
def DiskInode.IndexBlock (d : DiskInode) (D : Nat → Block) (b : Nat) : Prop :=
  ∃ x, x.isIndex = true ∧ d.Owns x ∧ b = d.slotId D x

/-- A group of blocks under `indirect2` survives the shrink, so its index block is written
astray. -/
def Strays (d : DiskInode) (newSize : Nat) : Prop :=
  1047 < dataBlocks newSize ∧ dataBlocks newSize < dataBlocks d.size.toNat

/-- The block that the stray write hits. -/
def strayTarget (newSize : Nat) : Nat := (dataBlocks newSize - 1048) / 1024

/-- The effect of resizing `d` on `s` to `d'` on `s'`. -/
structure Resized (bm : Bitmap) (newSize : Nat) (inode : Option Position) (d : DiskInode) (s : Disk)
    (d' : DiskInode) (s' : Disk) : Prop where
  size : d'.size.toNat = newSize
  type : d'.type = d.type
  linkCnt : d'.linkCnt = d.linkCnt
  attrs : d'.uid = d.uid ∧ d'.gid = d.gid ∧ d'.mode = d.mode
  map : WellMapped bm d' s'.blocks
  keeps : ∀ x, d.Owns x → d'.Owns x → d'.slotId s'.blocks x = d.slotId s.blocks x
  used : ∀ id, bm.Used s'.blocks id ↔
    (bm.Used s.blocks id ∧ ∀ x, d.Owns x → ¬ d'.Owns x → id ≠ d.slotId s.blocks x) ∨
      ∃ x, d'.Owns x ∧ ¬ d.Owns x ∧ id = d'.slotId s'.blocks x
  fresh : ∀ x, d'.Owns x → ¬ d.Owns x → ¬ bm.Used s.blocks (d'.slotId s'.blocks x)
  takes : d.size.toNat ≤ newSize → bm.freeIds s.blocks =
    (growSlots (dataBlocks d.size.toNat) (dataBlocks newSize)).map (d'.slotId s'.blocks) ++
      bm.freeIds s'.blocks
  touches : Touches (fun b => bm.Holds b ∨ d'.IndexBlock s'.blocks b ∨
    (∃ pos, inode = some pos ∧ b = pos.blockId) ∨ Strays d newSize ∧ b = strayTarget newSize) s s'
  stray : Strays d newSize → Wrote (strayTarget newSize) s s'
  inode : dataBlocks newSize ≤ dataBlocks d.size.toNat → ∀ pos, inode = some pos → ∃ base,
    s'.blocks pos.blockId = putInode base pos.blockOffset d' ∧
    ((Strays d newSize → pos.blockId ≠ strayTarget newSize) → base = s.blocks pos.blockId)

section

variable {bm : Bitmap} {d d' : DiskInode} {s s' : Disk} {newSize : Nat} {inode : Option Position}

/-- How many blocks growing to `newSize` takes. -/
def growth (d : DiskInode) (newSize : Nat) : Nat :=
  (growSlots (dataBlocks d.size.toNat) (dataBlocks newSize)).length

theorem growth_shrink {d : DiskInode} {newSize : Nat}
    (shrink : dataBlocks newSize ≤ dataBlocks d.size.toNat) : growth d newSize = 0 := by
  rw [growth, List.length_eq_zero_iff, List.eq_nil_iff_forall_not_mem]
  intro x member
  obtain ⟨new, notOld⟩ := (mem_growSlots x).mp member
  exact notOld (new.mono shrink)

/-- The inode with which `increase` and `decrease` are called: the size is the new one and
the times are new, the pointers are the old ones. -/
structure Sized (newSize : Nat) (d d' : DiskInode) : Prop where
  size : d'.size.toNat = newSize
  type : d'.type = d.type
  linkCnt : d'.linkCnt = d.linkCnt
  attrs : d'.uid = d.uid ∧ d'.gid = d.gid ∧ d'.mode = d.mode
  ids : ∀ D, d'.slotId D = d.slotId D

variable {d₂ : DiskInode}

theorem resized_grow (sized : Sized newSize d d₂) (map : WellMapped bm d s.blocks)
    (grow : dataBlocks d.size.toNat < dataBlocks newSize)
    (grown : Grown bm (Valid (dataBlocks d.size.toNat))
      (growSlots (dataBlocks d.size.toNat) (dataBlocks newSize)) d₂ s d' s') :
    Resized bm newSize inode d s d' s' := by
  have size : d'.size.toNat = newSize := by rw [grown.attrs]; exact sized.size
  have owns : d'.Owns = Valid (dataBlocks newSize) := by
    funext x
    rw [DiskInode.Owns, size]
  -- the new slots are the old ones and those of the growth
  have union : ∀ x, Valid (dataBlocks newSize) x ↔ d.Owns x ∨
      x ∈ growSlots (dataBlocks d.size.toNat) (dataBlocks newSize) := by
    intro x
    rw [mem_growSlots, DiskInode.Owns]
    constructor
    · intro new
      by_cases old : Valid (dataBlocks d.size.toNat) x
      · exact .inl old
      · exact .inr ⟨new, old⟩
    · rintro (old | ⟨new, -⟩)
      · exact old.mono (Nat.le_of_lt grow)
      · exact new
  constructor
  case size => exact size
  case type => rw [grown.attrs]; exact sized.type
  case linkCnt => rw [grown.attrs]; exact sized.linkCnt
  case attrs => rw [grown.attrs]; exact sized.attrs
  case map =>
    rw [WellMapped, owns]
    exact (grown.map (map.of_ids (sized.ids s.blocks))
      ((closed_valid _).congr fun x => (union x).symm)).congr union
  case keeps =>
    intro x old _
    rw [grown.keeps x old, sized.ids]
  case used =>
    intro id
    rw [grown.used_iff, owns]
    constructor
    · rintro (used | ⟨x, member, rfl⟩)
      · exact .inl ⟨used, fun x old gone => absurd (old.mono (Nat.le_of_lt grow)) gone⟩
      · obtain ⟨new, notOld⟩ := (mem_growSlots x).mp member
        exact .inr ⟨x, new, notOld, rfl⟩
    · rintro (⟨used, -⟩ | ⟨x, new, notOld, rfl⟩)
      · exact .inl used
      · exact .inr ⟨x, (mem_growSlots x).mpr ⟨new, notOld⟩, rfl⟩
  case fresh =>
    intro x new notOld used
    rw [owns] at new
    exact (Bitmap.used_iff.mp used).2 (grown.fresh ((mem_growSlots x).mpr ⟨new, notOld⟩)).1
  case takes => exact fun _ => grown.takes
  case touches =>
    refine grown.touches.mono ?_
    rintro b (holds | ⟨x, isIndex, member, rfl⟩)
    · exact .inl holds
    · refine .inr (.inl ⟨x, isIndex, ?_, rfl⟩)
      rw [owns]
      exact (union x).mpr member
  case stray => exact fun strays => absurd strays.2 (Nat.lt_asymm grow)
  case inode => exact fun shrink => absurd grow (Nat.not_lt.mpr shrink)

theorem resized_shrink (sized : Sized newSize d d₂) (map : WellMapped bm d s.blocks)
    (shrink : dataBlocks newSize < dataBlocks d.size.toNat)
    (shrunk : Shrunk bm (dataBlocks d.size.toNat) (dataBlocks newSize) inode d₂ s d' s') :
    Resized bm newSize inode d s d' s' := by
  have size : d'.size.toNat = newSize := by rw [shrunk.attrs]; exact sized.size
  have owns : d'.Owns = Valid (dataBlocks newSize) := by
    funext x
    rw [DiskInode.Owns, size]
  have mapTwo := map.of_ids (sized.ids s.blocks)
  constructor
  case size => exact size
  case type => rw [shrunk.attrs]; exact sized.type
  case linkCnt => rw [shrunk.attrs]; exact sized.linkCnt
  case attrs => rw [shrunk.attrs]; exact sized.attrs
  case map =>
    rw [WellMapped, owns]
    exact shrunk.map mapTwo (Nat.le_of_lt shrink)
  case keeps =>
    intro x _ new
    rw [owns] at new
    rw [shrunk.keeps x new, sized.ids]
  case used =>
    intro id
    rw [shrunk.used, owns, sized.ids]
    constructor
    · exact .inl
    · rintro (kept | ⟨x, new, notOld, -⟩)
      · exact kept
      · exact absurd (new.mono (Nat.le_of_lt shrink)) notOld
  case fresh =>
    intro x new notOld
    rw [owns] at new
    exact absurd (new.mono (Nat.le_of_lt shrink)) notOld
  case takes =>
    intro grow
    have : dataBlocks d.size.toNat ≤ dataBlocks newSize := by
      simp only [dataBlocks]
      omega
    omega
  case touches =>
    refine shrunk.touches.mono ?_
    rintro b (holds | ⟨x, isIndex, valid, rfl⟩ | written | ⟨kept, rfl⟩)
    · exact .inl holds
    · refine .inr (.inl ⟨x, isIndex, owns ▸ valid, (shrunk.keeps x valid).symm⟩)
    · exact .inr (.inr (.inl written))
    · exact .inr (.inr (.inr ⟨⟨kept, shrink⟩, rfl⟩))
  case stray => exact fun strays => shrunk.stray strays.1
  case inode =>
    intro _ pos some
    obtain ⟨base, written, kept⟩ := shrunk.inode pos some
    exact ⟨base, written, fun unhit => kept fun big => unhit ⟨big, shrink⟩⟩

theorem resized_same (sized : Sized newSize d d') (map : WellMapped bm d s.blocks)
    (same : dataBlocks d.size.toNat = dataBlocks newSize)
    (touches : Touches (fun b => ∃ pos, inode = some pos ∧ b = pos.blockId) s s')
    (below : ∀ pos, inode = some pos → pos.blockId < bm.startBlockId)
    (segment : bm.Segment s.count)
    (written : ∀ pos, inode = some pos →
      s'.blocks pos.blockId = putInode (s.blocks pos.blockId) pos.blockOffset d') :
    Resized bm newSize inode d s d' s' := by
  have owns : d'.Owns = d.Owns := by
    funext x
    rw [DiskInode.Owns, DiskInode.Owns, sized.size, same]
  -- only the block of the inode is written, and it lies below the bitmap
  have kept : ∀ b, bm.startBlockId ≤ b → s'.blocks b = s.blocks b := by
    intro b high
    refine touches.blocks b ?_
    rintro ⟨pos, some, rfl⟩
    exact absurd (below pos some) (Nat.not_lt.mpr high)
  have bits : ∀ id, bm.Used s'.blocks id ↔ bm.Used s.blocks id := fun id =>
    Bitmap.used_congr fun b holds => kept b holds.1
  have indexKept : ∀ x, d.Owns x → s'.blocks (d.slotId s.blocks x) = s.blocks (d.slotId s.blocks x) := by
    intro x valid
    have := (map.used x valid).1.1
    have := segment.after
    exact kept _ (by omega)
  have keeps : ∀ x, d.Owns x → d.slotId s'.blocks x = d.slotId s.blocks x :=
    slotId_congr map.closed fun y valid _ => indexKept y valid
  constructor
  case size => exact sized.size
  case type => exact sized.type
  case linkCnt => exact sized.linkCnt
  case attrs => exact sized.attrs
  case map =>
    rw [WellMapped, owns]
    exact (map.frame (fun y valid _ => indexKept y valid)
      fun x valid => (bits _).mpr (map.used x valid)).of_ids (sized.ids s'.blocks)
  case keeps =>
    intro x valid _
    rw [sized.ids, keeps x valid]
  case used =>
    intro id
    rw [bits, owns]
    constructor
    · exact fun used => .inl ⟨used, fun x valid gone => absurd valid gone⟩
    · rintro (⟨used, -⟩ | ⟨x, valid, gone, -⟩)
      · exact used
      · exact absurd valid gone
  case fresh =>
    intro x valid gone
    rw [owns] at valid
    exact absurd valid gone
  case takes =>
    intro _
    have none : growSlots (dataBlocks d.size.toNat) (dataBlocks newSize) = [] := by
      refine List.eq_nil_iff_forall_not_mem.mpr fun x member => ?_
      rw [mem_growSlots, same] at member
      exact member.2 member.1
    rw [none, List.map_nil, List.nil_append]
    exact (Bitmap.freeIds_congr fun b holds => kept b holds.1).symm
  case touches =>
    exact touches.mono fun b written => .inr (.inr (.inl written))
  case stray => exact fun strays => absurd strays.2 (by omega)
  case inode => exact fun _ pos some => ⟨_, written pos some, fun _ => rfl⟩

/-- Looking at the clock first changes nothing. -/
theorem Resized.after_quiet {s₁ : Disk} (quiet : Touches (fun _ => False) s s₁)
    (resized : Resized bm newSize inode d s₁ d' s') : Resized bm newSize inode d s d' s' := by
  have blocks := quiet.quiet
  constructor
  case size => exact resized.size
  case type => exact resized.type
  case linkCnt => exact resized.linkCnt
  case attrs => exact resized.attrs
  case map => exact resized.map
  case keeps => exact blocks ▸ resized.keeps
  case used => exact blocks ▸ resized.used
  case fresh => exact blocks ▸ resized.fresh
  case takes => exact blocks ▸ resized.takes
  case touches => exact (quiet.mono fun _ => False.elim).trans resized.touches
  case stray => exact fun strays => .after_touches quiet (resized.stray strays)
  case inode => exact blocks ▸ resized.inode

theorem run_resize (map : WellMapped bm d s.blocks) (segment : bm.Segment s.count)
    (size32 : newSize < 4294967296) (enough : growth d newSize ≤ (bm.freeIds s.blocks).length)
    (below : ∀ pos, inode = some pos → pos.blockId < bm.startBlockId) :
    ∃ d' s', (d.resize newSize bm inode).run s = ((.kSuccess, d'), s') ∧
      Resized bm newSize inode d s d' s' := by
  obtain ⟨d₁, s₁, run₁, retimed, touches₁⟩ := run_updateMeta d 7 s
  generalize hd₂ : ({ d₁ with size := UInt32.ofNat newSize } : DiskInode) = d₂
  have sized : Sized newSize d d₂ := by
    subst hd₂
    refine ⟨?_, by rw [retimed], by rw [retimed], by rw [retimed]; exact ⟨rfl, rfl, rfl⟩,
      slotId_pointers (by rw [retimed]) (by rw [retimed]) (by rw [retimed])⟩
    simp [Nat.mod_eq_of_lt size32]
  have oldSize : d₁.size = d.size := by rw [retimed]
  have blocks₁ := touches₁.quiet
  have map₁ : WellMapped bm d s₁.blocks := blocks₁ ▸ map
  have mapTwo := map₁.of_ids (sized.ids s₁.blocks)
  have segment₁ : bm.Segment s₁.count := touches₁.count ▸ segment
  -- `resize` compares the block counts with the index blocks, which order as the data blocks do
  by_cases same : dataBlocks d.size.toNat = dataBlocks newSize
  · have total : DiskInode.totalBlocks d.size.toNat = DiskInode.totalBlocks newSize :=
      totalBlocks_eq.mpr same
    cases inode with
    | none =>
      refine ⟨d₂, s₁, ?_, .after_quiet touches₁ (resized_same sized map₁ same (.refl _ _) below
        segment₁ fun pos none => by cases none)⟩
      simp only [DiskInode.resize, DevProg.run_bind, run₁, oldSize, total, hd₂, if_true,
        DevProg.run_pure]
    | some pos =>
      have onDevice : pos.blockId < s₁.count := by
        have := below pos rfl
        have := segment₁.onDevice
        omega
      refine ⟨d₂, _, ?_, .after_quiet touches₁ (resized_same sized map₁ same
        (.put _ (putInode (s₁.blocks pos.blockId) pos.blockOffset d₂) ⟨pos, rfl, rfl⟩) below segment₁ ?_)⟩
      · simp only [DiskInode.resize, DevProg.run_bind, run₁, oldSize, total, hd₂, if_true,
          run_writeInode d₂ onDevice, DevProg.run_pure]
      · intro pos' some
        cases some
        exact Store.put_blocks_same _ _ onDevice
  · have total : ¬ DiskInode.totalBlocks d.size.toNat = DiskInode.totalBlocks newSize :=
      fun eq => same (totalBlocks_eq.mp eq)
    by_cases shrink : dataBlocks newSize < dataBlocks d.size.toNat
    · obtain ⟨d', s', run₂, shrunk⟩ := run_decrease mapTwo segment₁ shrink
        (dataBlocks_le d.size.toNat_lt) below
      refine ⟨d', s', ?_, .after_quiet touches₁ (resized_shrink sized map₁ shrink shrunk)⟩
      simp only [DiskInode.resize, DevProg.run_bind, run₁, oldSize, total, hd₂, if_false,
        totalBlocks_lt.mpr shrink, if_true, run₂]
    · have grow : dataBlocks d.size.toNat < dataBlocks newSize := by omega
      have notLess : ¬ DiskInode.totalBlocks newSize < DiskInode.totalBlocks d.size.toNat :=
        fun less => shrink (totalBlocks_lt.mp less)
      rw [← blocks₁] at enough
      obtain ⟨d', s', run₂, grown⟩ := run_increase mapTwo segment₁ (Nat.le_of_lt grow)
        (dataBlocks_le size32) enough
      refine ⟨d', s', ?_, .after_quiet touches₁ (resized_grow sized map₁ grow grown)⟩
      simp only [DiskInode.resize, DevProg.run_bind, run₁, oldSize, total, hd₂, if_false, notLess,
        run₂]

/-- Writing the inode after it has grown. -/
theorem Resized.save {pos : Position} {s₁ : Disk} (resized : Resized bm newSize none d s d' s₁)
    (segment : bm.Segment s₁.count) (low : pos.blockId < bm.startBlockId)
    (grow : d.size.toNat ≤ newSize) :
    Resized bm newSize (some pos) d s d'
        (s₁.put pos.blockId (putInode (s₁.blocks pos.blockId) pos.blockOffset d')) ∧
      s₁.blocks pos.blockId = s.blocks pos.blockId := by
  have after := segment.after
  -- a growth makes no stray write
  have noStray : ¬ Strays d newSize := by
    rintro ⟨-, shrink⟩
    simp only [dataBlocks] at shrink
    omega
  -- the growth has written above the bitmap only, and not the block of the inode
  have old : s₁.blocks pos.blockId = s.blocks pos.blockId := by
    refine resized.touches.blocks _ ?_
    rintro (holds | ⟨x, -, owns, same⟩ | ⟨pos', none, -⟩ | ⟨strays, -⟩)
    · have := holds.1
      omega
    · have := (resized.map.used x owns).1.1
      omega
    · cases none
    · exact noStray strays
  refine ⟨?_, old⟩
  generalize hs : s₁.put pos.blockId (putInode (s₁.blocks pos.blockId) pos.blockOffset d') = s'
  have kept : ∀ b, bm.startBlockId ≤ b → s'.blocks b = s₁.blocks b := by
    intro b high
    rw [← hs, Store.put_blocks_ne _ _ (by omega)]
  have bits : ∀ id, bm.Used s'.blocks id ↔ bm.Used s₁.blocks id := fun id =>
    Bitmap.used_congr fun b holds => kept b holds.1
  have indexKept : ∀ x, d'.Owns x →
      s'.blocks (d'.slotId s₁.blocks x) = s₁.blocks (d'.slotId s₁.blocks x) := by
    intro x owns
    have := (resized.map.used x owns).1.1
    exact kept _ (by omega)
  have ids : ∀ x, d'.Owns x → d'.slotId s'.blocks x = d'.slotId s₁.blocks x :=
    slotId_congr resized.map.closed fun y owns _ => indexKept y owns
  have put : Touches (fun b => b = pos.blockId) s₁ s' := hs ▸ .put _ _ rfl
  constructor
  case size => exact resized.size
  case type => exact resized.type
  case linkCnt => exact resized.linkCnt
  case attrs => exact resized.attrs
  case map =>
    exact resized.map.frame (fun y owns _ => indexKept y owns)
      fun x owns => (bits _).mpr (resized.map.used x owns)
  case keeps =>
    intro x old new
    rw [ids x new, resized.keeps x old new]
  case used =>
    intro id
    rw [bits, resized.used]
    refine or_congr_right (exists_congr fun x => ?_)
    constructor
    · rintro ⟨new, notOld, rfl⟩
      exact ⟨new, notOld, (ids x new).symm⟩
    · rintro ⟨new, notOld, rfl⟩
      exact ⟨new, notOld, ids x new⟩
  case fresh =>
    intro x new notOld
    rw [ids x new]
    exact resized.fresh x new notOld
  case takes =>
    intro le
    have same : (growSlots (dataBlocks d.size.toNat) (dataBlocks newSize)).map
        (d'.slotId s'.blocks) = (growSlots (dataBlocks d.size.toNat) (dataBlocks newSize)).map
          (d'.slotId s₁.blocks) := by
      apply List.map_congr_left
      intro x member
      refine ids x ?_
      rw [DiskInode.Owns, resized.size]
      exact ((mem_growSlots x).mp member).1
    rw [same, Bitmap.freeIds_congr fun b holds => kept b holds.1]
    exact resized.takes le
  case touches =>
    refine (resized.touches.mono ?_).trans (put.mono ?_)
    · rintro b (holds | ⟨x, isIndex, owns, rfl⟩ | ⟨pos', none, -⟩ | stray)
      · exact .inl holds
      · exact .inr (.inl ⟨x, isIndex, owns, (ids x owns).symm⟩)
      · cases none
      · exact .inr (.inr (.inr stray))
    · rintro b rfl
      exact .inr (.inr (.inl ⟨pos, rfl, rfl⟩))
  case stray => exact fun strays => absurd strays noStray
  case inode =>
    intro _ pos' some
    cases some
    refine ⟨s₁.blocks pos.blockId, ?_, fun _ => old⟩
    rw [← hs, Store.put_blocks_same]
    have := segment.onDevice
    omega

end

end Sbfs
