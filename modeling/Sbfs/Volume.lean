import Sbfs.FileBytes

/-! # All inodes together

On a well-formed disk each block of the data area is free or belongs to one inode
(`Volume`).  An operation works on one inode at a time, so it is described by what it does
to that inode and to the free blocks (`Evolved`); the blocks of all other inodes stay
(`Volume.evolve`). -/

namespace Sbfs

open Slot

/-- `b` is one of the blocks of the inode. -/
def DiskInode.OwnsBlock (d : DiskInode) (D : Nat → Block) (b : Nat) : Prop :=
  ∃ x, d.Owns x ∧ b = d.slotId D x

/-- An inode goes from `d` on `s` to `d'` on `s'`.  It may give blocks back and take free
ones, and besides its own blocks, free ones and the bitmap only blocks in `W` change. -/
structure Evolved (bm : Bitmap) (W : Nat → Prop) (d : DiskInode) (s : Disk) (d' : DiskInode)
    (s' : Disk) : Prop where
  map : WellMapped bm d' s'.blocks
  keeps : ∀ b, bm.Used s.blocks b → ¬ d.OwnsBlock s.blocks b → bm.Used s'.blocks b
  fresh : ∀ b, d'.OwnsBlock s'.blocks b → bm.Used s.blocks b → d.OwnsBlock s.blocks b
  touches : Touches (fun b => bm.Holds b ∨ W b ∨
    (bm.InSegment b ∧ (bm.Used s.blocks b → d.OwnsBlock s.blocks b))) s s'

/-- What the step from `d` to `d'` takes belongs to `d'`, and what it gives up is free. -/
def NoLeak (bm : Bitmap) (d : DiskInode) (s : Disk) (d' : DiskInode) (s' : Disk) : Prop :=
  ∀ b, bm.Used s'.blocks b →
    (bm.Used s.blocks b ∧ ¬ d.OwnsBlock s.blocks b) ∨ d'.OwnsBlock s'.blocks b

/-- The blocks that the inode has before and after the step are the same ones. -/
def KeepsIds (d : DiskInode) (s : Disk) (d' : DiskInode) (s' : Disk) : Prop :=
  ∀ x, d.Owns x → d'.Owns x → d'.slotId s'.blocks x = d.slotId s.blocks x

section

variable {bm : Bitmap} {W V : Nat → Prop} {d d' d'' : DiskInode} {s s' s'' : Disk}

theorem KeepsIds.trans (first : KeepsIds d s d' s') (second : KeepsIds d' s' d'' s'')
    (between : ∀ x, d.Owns x → d''.Owns x → d'.Owns x) : KeepsIds d s d'' s'' := fun x owns owns'' =>
  (second x (between x owns owns'') owns'').trans (first x owns (between x owns owns''))

theorem WellMapped.ownsUsed (map : WellMapped bm d s.blocks) {b : Nat} (owns : d.OwnsBlock s.blocks b) :
    bm.Used s.blocks b := by
  obtain ⟨x, valid, rfl⟩ := owns
  exact map.used x valid

namespace NoLeak

theorem trans (first : NoLeak bm d s d' s') (second : NoLeak bm d' s' d'' s'') :
    NoLeak bm d s d'' s'' := by
  intro b used
  cases second b used with
  | inr owns => exact .inr owns
  | inl kept =>
    cases first b kept.1 with
    | inl before => exact .inl before
    | inr owns => exact absurd owns kept.2

/-- Steps that keep the block map and the bits. -/
theorem of_same (bits : ∀ b, bm.Used s'.blocks b ↔ bm.Used s.blocks b)
    (owns : ∀ b, d'.OwnsBlock s'.blocks b ↔ d.OwnsBlock s.blocks b) : NoLeak bm d s d' s' := by
  intro b used
  rw [bits] at used
  rw [owns]
  by_cases own : d.OwnsBlock s.blocks b
  · exact .inr own
  · exact .inl ⟨used, own⟩

end NoLeak

namespace Evolved

theorem trans (first : Evolved bm W d s d' s') (second : Evolved bm W d' s' d'' s'') :
    Evolved bm W d s d'' s'' := by
  -- what others own before the first step they own after it
  have others : ∀ b, bm.Used s.blocks b → ¬ d.OwnsBlock s.blocks b →
      bm.Used s'.blocks b ∧ ¬ d'.OwnsBlock s'.blocks b := by
    intro b used foreign
    exact ⟨first.keeps b used foreign, fun owns => foreign (first.fresh b owns used)⟩
  have fresh : ∀ b, d''.OwnsBlock s''.blocks b → bm.Used s.blocks b → d.OwnsBlock s.blocks b := by
    intro b owns used
    by_contra foreign
    have later := others b used foreign
    exact later.2 (second.fresh b owns later.1)
  constructor
  case map => exact second.map
  case fresh => exact fresh
  case keeps =>
    intro b used foreign
    have later := others b used foreign
    exact second.keeps b later.1 later.2
  case touches =>
    refine .trans (first.touches) (second.touches.mono ?_)
    intro b allowed
    cases allowed with
    | inl holds => exact .inl holds
    | inr rest =>
      cases rest with
      | inl inW => exact .inr (.inl inW)
      | inr own =>
        refine .inr (.inr ⟨own.1, fun used => ?_⟩)
        by_contra foreign
        have later := others b used foreign
        exact later.2 (own.2 later.1)

theorem mono (evolved : Evolved bm W d s d' s') (wider : ∀ b, W b → V b) : Evolved bm V d s d' s' :=
  ⟨evolved.map, evolved.keeps, evolved.fresh,
    evolved.touches.mono fun b allowed => allowed.imp_right fun rest => rest.imp_left (wider b)⟩

/-- Steps that keep the block map of the inode. -/
theorem of_same (map : WellMapped bm d s.blocks) (map' : WellMapped bm d' s'.blocks)
    (bits : ∀ b, bm.Used s'.blocks b ↔ bm.Used s.blocks b)
    (owns : ∀ b, d'.OwnsBlock s'.blocks b ↔ d.OwnsBlock s.blocks b)
    (touches : Touches (fun b => d.OwnsBlock s.blocks b ∨ W b) s s') : Evolved bm W d s d' s' := by
  constructor
  case map => exact map'
  case fresh => exact fun b own _ => (owns b).mp own
  case keeps => exact fun b used _ => (bits b).mpr used
  case touches =>
    refine touches.mono fun b allowed => ?_
    cases allowed with
    | inl own => exact .inr (.inr ⟨(map.ownsUsed own).1, fun _ => own⟩)
    | inr inW => exact .inr (.inl inW)

theorem ownsBlock_iff {D D' : Nat → Block} (size : d'.size = d.size)
    (ids : ∀ x, d.Owns x → d'.slotId D' x = d.slotId D x) (b : Nat) :
    d'.OwnsBlock D' b ↔ d.OwnsBlock D b := by
  have owns : d'.Owns = d.Owns := by
    funext x
    rw [DiskInode.Owns, size, DiskInode.Owns]
  rw [DiskInode.OwnsBlock, DiskInode.OwnsBlock, owns]
  apply exists_congr
  intro x
  apply and_congr_right
  intro valid
  rw [ids x valid]

/-- New times, and nothing on the disk. -/
theorem retimed (map : WellMapped bm d s.blocks) (retimed : Retimed d d')
    (quiet : Touches (fun _ => False) s s') : Evolved bm W d s d' s' ∧ NoLeak bm d s d' s' := by
  have blocks := quiet.quiet
  have size : d'.size = d.size := by rw [retimed]
  have ids : d'.slotId s.blocks = d.slotId s.blocks :=
    slotId_pointers (by rw [retimed]) (by rw [retimed]) (by rw [retimed]) _
  have owns : d'.Owns = d.Owns := by
    funext x
    rw [DiskInode.Owns, size, DiskInode.Owns]
  have map' : WellMapped bm d' s'.blocks := by
    rw [WellMapped, owns, blocks]
    exact BlockMap.of_ids map ids
  have bits : ∀ b, bm.Used s'.blocks b ↔ bm.Used s.blocks b := fun b => by rw [blocks]
  have same : ∀ b, d'.OwnsBlock s'.blocks b ↔ d.OwnsBlock s.blocks b := fun b => by
    rw [blocks]
    exact ownsBlock_iff size (fun x _ => congrFun ids x) b
  exact ⟨of_same map map' bits same (quiet.mono fun _ => False.elim), .of_same bits same⟩

theorem refl (map : WellMapped bm d s.blocks) : Evolved bm W d s d s :=
  (retimed map (.refl d) (.refl _ _)).1

/-- Writing data blocks. -/
theorem of_data (map : WellMapped bm d s.blocks) (segment : bm.Segment s.count)
    (touches : Touches (fun b => ∃ k, d.Owns (data k) ∧ b = d.slotId s.blocks (data k)) s s') :
    Evolved bm W d s d s' ∧ NoLeak bm d s d s' ∧
      ∀ x, d.Owns x → d.slotId s'.blocks x = d.slotId s.blocks x := by
  have index : ∀ y, d.Owns y → y.isIndex = true →
      s'.blocks (d.slotId s.blocks y) = s.blocks (d.slotId s.blocks y) := by
    intro y owns isIndex
    apply touches.blocks
    rintro ⟨j, ownsJ, same⟩
    rw [map.inj y (data j) owns ownsJ same] at isIndex
    cases isIndex
  have bits : ∀ b, bm.Used s'.blocks b ↔ bm.Used s.blocks b := by
    intro b
    apply Bitmap.used_congr
    intro c holds
    apply touches.blocks
    rintro ⟨j, ownsJ, rfl⟩
    exact segment.not_holds (map.used (data j) ownsJ).1 holds
  have ids := slotId_congr map.closed index
  refine ⟨of_same map (map.frame index fun x owns => (bits _).mpr (map.used x owns)) bits
    (ownsBlock_iff rfl ids) (touches.mono ?_), .of_same bits (ownsBlock_iff rfl ids), ids⟩
  rintro b ⟨k, owns, rfl⟩
  exact .inl ⟨data k, owns, rfl⟩

theorem segment (evolved : Evolved bm W d s d' s') (segment : bm.Segment s.count) :
    bm.Segment s'.count :=
  evolved.touches.count ▸ segment

end Evolved

/-- Writes below the data bitmap. -/
theorem Evolved.of_below (map : WellMapped bm d s.blocks) (segment : bm.Segment s.count)
    (touches : Touches W s s') (low : ∀ b, W b → b < bm.startBlockId) :
    Evolved bm W d s d s' ∧ NoLeak bm d s d s' ∧
      ∀ x, d.Owns x → d.slotId s'.blocks x = d.slotId s.blocks x := by
  have after := segment.after
  have kept : ∀ b, bm.startBlockId ≤ b → s'.blocks b = s.blocks b := by
    intro b high
    apply touches.blocks
    intro inW
    have := low b inW
    omega
  have own : ∀ y, d.Owns y → s'.blocks (d.slotId s.blocks y) = s.blocks (d.slotId s.blocks y) := by
    intro y owns
    have := (map.used y owns).1.1
    exact kept _ (by omega)
  have bits : ∀ b, bm.Used s'.blocks b ↔ bm.Used s.blocks b := fun b =>
    Bitmap.used_congr fun c holds => kept c holds.1
  have ids := slotId_congr map.closed fun y owns _ => own y owns
  have same : ∀ b, d.OwnsBlock s'.blocks b ↔ d.OwnsBlock s.blocks b := Evolved.ownsBlock_iff rfl ids
  refine ⟨.of_same map (map.frame (fun y owns _ => own y owns) fun x owns => ?_) bits same
    (touches.mono fun _ => .inr), .of_same bits same, ids⟩
  exact (bits _).mpr (map.used x owns)

/-- What `resize` writes outside the blocks of the file: the inode, and the stray block. -/
def ResizeExtra (inode : Option Position) (d : DiskInode) (newSize b : Nat) : Prop :=
  (∃ pos, inode = some pos ∧ b = pos.blockId) ∨ Strays d newSize ∧ b = strayTarget newSize

theorem Resized.evolved {newSize : Nat} {inode : Option Position}
    (resized : Resized bm newSize inode d s d' s') : Evolved bm (ResizeExtra inode d newSize) d s d' s' := by
  have fresh : ∀ b, d'.OwnsBlock s'.blocks b → bm.Used s.blocks b → d.OwnsBlock s.blocks b := by
    rintro b ⟨x, new, rfl⟩ used
    by_cases old : d.Owns x
    · exact ⟨x, old, resized.keeps x old new⟩
    · exact absurd used (resized.fresh x new old)
  constructor
  case map => exact resized.map
  case fresh => exact fresh
  case keeps =>
    intro b used foreign
    rw [resized.used]
    exact .inl ⟨used, fun x old _ same => foreign ⟨x, old, same⟩⟩
  case touches =>
    refine resized.touches.mono ?_
    rintro b (holds | ⟨x, -, new, rfl⟩ | extra)
    · exact .inl holds
    · refine .inr (.inr ⟨(resized.map.used x new).1, fun used => ?_⟩)
      exact fresh _ ⟨x, new, rfl⟩ used
    · exact .inr (.inl extra)

theorem Resized.noLeak {newSize : Nat} {inode : Option Position}
    (resized : Resized bm newSize inode d s d' s') : NoLeak bm d s d' s' := by
  intro b used
  cases (resized.used b).mp used with
  | inr new =>
    obtain ⟨x, owns, -, rfl⟩ := new
    exact .inr ⟨x, owns, rfl⟩
  | inl kept =>
    by_cases own : d.OwnsBlock s.blocks b
    · obtain ⟨x, old, rfl⟩ := own
      by_cases stays : d'.Owns x
      · exact .inr ⟨x, stays, (resized.keeps x old stays).symm⟩
      · exact absurd rfl (kept.2 x old stays)
    · exact .inl ⟨kept.1, own⟩

end

/-! ## The family -/

/-- The live inodes own disjoint sets of used blocks. -/
structure Volume (bm : Bitmap) (s : Disk) (live : Nat → Prop) (ino : Nat → DiskInode) : Prop where
  segment : bm.Segment s.count
  map : ∀ i, live i → WellMapped bm (ino i) s.blocks
  apart : ∀ i j, live i → live j → ∀ b, (ino i).OwnsBlock s.blocks b → (ino j).OwnsBlock s.blocks b →
    i = j

/-- Every used block belongs to a live inode: no block is lost. -/
def Tight (bm : Bitmap) (D : Nat → Block) (live : Nat → Prop) (ino : Nat → DiskInode) : Prop :=
  ∀ b, bm.Used D b → ∃ i, live i ∧ (ino i).OwnsBlock D b

/-- A used block that no live inode owns. -/
def Lost (bm : Bitmap) (D : Nat → Block) (live : Nat → Prop) (ino : Nat → DiskInode) (b : Nat) : Prop :=
  bm.Used D b ∧ ∀ i, live i → ¬ (ino i).OwnsBlock D b

theorem tight_iff {bm : Bitmap} {D : Nat → Block} {live : Nat → Prop} {ino : Nat → DiskInode} :
    Tight bm D live ino ↔ ∀ b, ¬ Lost bm D live ino b := by
  refine forall_congr' fun b => ?_
  rw [Lost, not_and]
  simp only [not_forall, not_not, exists_prop]

namespace Volume

variable {bm : Bitmap} {W : Nat → Prop} {s s' : Disk} {live : Nat → Prop} {ino : Nat → DiskInode}
  {i j : Nat} {d' : DiskInode}

/-- The blocks of other inodes keep their content. -/
theorem kept (vol : Volume bm s live ino) (here : live i) (evolved : Evolved bm W (ino i) s d' s')
    (low : ∀ b, W b → b < bm.startBlockId) (there : live j) (ne : j ≠ i) {b : Nat}
    (owns : (ino j).OwnsBlock s.blocks b) : s'.blocks b = s.blocks b := by
  have used := (vol.map j there).ownsUsed owns
  have after := vol.segment.after
  apply evolved.touches.blocks
  intro touched
  cases touched with
  | inl holds => exact vol.segment.not_holds used.1 holds
  | inr rest =>
    cases rest with
    | inl inW =>
      have := low b inW
      have := used.1.1
      omega
    | inr own => exact ne (vol.apart j i there here b owns (own.2 used))

theorem kept_ids (vol : Volume bm s live ino) (here : live i) (evolved : Evolved bm W (ino i) s d' s')
    (low : ∀ b, W b → b < bm.startBlockId) (there : live j) (ne : j ≠ i) (x : Slot)
    (owns : (ino j).Owns x) : (ino j).slotId s'.blocks x = (ino j).slotId s.blocks x :=
  slotId_congr (vol.map j there).closed
    (fun y valid _ => vol.kept here evolved low there ne ⟨y, valid, rfl⟩) x owns

theorem kept_owns (vol : Volume bm s live ino) (here : live i) (evolved : Evolved bm W (ino i) s d' s')
    (low : ∀ b, W b → b < bm.startBlockId) (there : live j) (ne : j ≠ i) (b : Nat) :
    (ino j).OwnsBlock s'.blocks b ↔ (ino j).OwnsBlock s.blocks b :=
  Evolved.ownsBlock_iff rfl (vol.kept_ids here evolved low there ne) b

/-- A block of another inode was used before, and not by inode `i`. -/
theorem foreign (vol : Volume bm s live ino) (here : live i) (there : live j) (ne : j ≠ i) {b : Nat}
    (own : (ino j).OwnsBlock s.blocks b) : bm.Used s.blocks b ∧ ¬ (ino i).OwnsBlock s.blocks b :=
  ⟨(vol.map j there).ownsUsed own, fun own' => ne (vol.apart j i there here b own own')⟩

theorem evolve (vol : Volume bm s live ino) (here : live i) (evolved : Evolved bm W (ino i) s d' s')
    (low : ∀ b, W b → b < bm.startBlockId) : Volume bm s' live (Function.update ino i d') := by
  have owns := fun j (there : live j) (ne : j ≠ i) => vol.kept_owns here evolved low there ne
  constructor
  case segment => exact evolved.segment vol.segment
  case map =>
    intro j there
    by_cases same : j = i
    · subst same
      rw [Function.update_self]
      exact evolved.map
    · rw [Function.update_of_ne same]
      refine (vol.map j there).frame
        (fun y valid _ => vol.kept here evolved low there same ⟨y, valid, rfl⟩) fun x valid => ?_
      have other := vol.foreign here there same ⟨x, valid, rfl⟩
      exact evolved.keeps _ other.1 other.2
  case apart =>
    intro j k there there' b own own'
    by_cases sameJ : j = i
    · by_cases sameK : k = i
      · rw [sameJ, sameK]
      · subst sameJ
        rw [Function.update_self] at own
        rw [Function.update_of_ne sameK, owns k there' sameK] at own'
        have other := vol.foreign here there' sameK own'
        exact absurd (evolved.fresh b own other.1) other.2
    · rw [Function.update_of_ne sameJ, owns j there sameJ] at own
      by_cases sameK : k = i
      · subst sameK
        rw [Function.update_self] at own'
        have other := vol.foreign here there sameJ own
        exact absurd (evolved.fresh b own' other.1) other.2
      · rw [Function.update_of_ne sameK, owns k there' sameK] at own'
        exact vol.apart j k there there' b own own'

/-- A step of one inode loses no block and finds none again. -/
theorem evolve_lost (vol : Volume bm s live ino) (here : live i) (evolved : Evolved bm W (ino i) s d' s')
    (low : ∀ b, W b → b < bm.startBlockId) (noLeak : NoLeak bm (ino i) s d' s') (b : Nat) :
    Lost bm s'.blocks live (Function.update ino i d') b ↔ Lost bm s.blocks live ino b := by
  have owns := fun j (there : live j) (ne : j ≠ i) => vol.kept_owns here evolved low there ne b
  constructor
  · rintro ⟨used, unowned⟩
    have self := unowned i here
    rw [Function.update_self] at self
    obtain ⟨before, foreign⟩ := (noLeak b used).resolve_right self
    refine ⟨before, fun j there own => ?_⟩
    by_cases same : j = i
    · exact foreign (same ▸ own)
    · have other := unowned j there
      rw [Function.update_of_ne same] at other
      exact other ((owns j there same).mpr own)
  · rintro ⟨used, unowned⟩
    refine ⟨evolved.keeps b used (unowned i here), fun j there own => ?_⟩
    by_cases same : j = i
    · subst same
      rw [Function.update_self] at own
      exact unowned j here (evolved.fresh b own used)
    · rw [Function.update_of_ne same] at own
      exact unowned j there ((owns j there same).mp own)

section

/-- What writes below the data bitmap leave alone. -/
theorem below_ids (vol : Volume bm s live ino) (touches : Touches (fun b => b < bm.startBlockId) s s')
    (there : live j) (x : Slot) (owns : (ino j).Owns x) :
    (ino j).slotId s'.blocks x = (ino j).slotId s.blocks x := by
  have after := vol.segment.after
  refine slotId_congr (vol.map j there).closed (fun y valid _ => touches.blocks _ ?_) x owns
  have := ((vol.map j there).used y valid).1.1
  omega

theorem below_used (touches : Touches (fun b => b < bm.startBlockId) s s') (b : Nat) :
    bm.Used s'.blocks b ↔ bm.Used s.blocks b := by
  apply Bitmap.used_congr
  intro c holds
  apply touches.blocks
  have := holds.1
  omega

/-- Writes below the data bitmap. -/
theorem below (vol : Volume bm s live ino) (touches : Touches (fun b => b < bm.startBlockId) s s') :
    Volume bm s' live ino := by
  have after := vol.segment.after
  have owns : ∀ j, live j → ∀ b, (ino j).OwnsBlock s'.blocks b ↔ (ino j).OwnsBlock s.blocks b :=
    fun j there => Evolved.ownsBlock_iff rfl (vol.below_ids touches there)
  constructor
  case segment => exact touches.count ▸ vol.segment
  case map =>
    intro j there
    refine (vol.map j there).frame (fun y valid _ => touches.blocks _ ?_)
      fun x valid => (below_used touches _).mpr ((vol.map j there).used x valid)
    have := ((vol.map j there).used y valid).1.1
    omega
  case apart =>
    intro j k there there' b own own'
    exact vol.apart j k there there' b ((owns j there b).mp own) ((owns k there' b).mp own')

theorem below_lost (vol : Volume bm s live ino) (touches : Touches (fun b => b < bm.startBlockId) s s') (b : Nat) :
    Lost bm s'.blocks live ino b ↔ Lost bm s.blocks live ino b :=
  and_congr (below_used touches b) (forall₂_congr fun _ there =>
    not_congr (Evolved.ownsBlock_iff rfl (vol.below_ids touches there) b))

end

/-- Inodes that own nothing come and go. -/
theorem congr {live' : Nat → Prop} {ino' : Nat → DiskInode} (vol : Volume bm s live ino)
    (same : ∀ j, live j → live' j → ino' j = ino j)
    (new : ∀ j, live' j → ¬ live j → WellMapped bm (ino' j) s.blocks ∧ ∀ x, ¬ (ino' j).Owns x) :
    Volume bm s live' ino' := by
  have old : ∀ j, live' j → ∀ b, (ino' j).OwnsBlock s.blocks b →
      live j ∧ (ino j).OwnsBlock s.blocks b := by
    intro j there b own
    by_cases before : live j
    · exact ⟨before, same j before there ▸ own⟩
    · obtain ⟨x, valid, -⟩ := own
      exact absurd valid ((new j there before).2 x)
  constructor
  case segment => exact vol.segment
  case map =>
    intro j there
    by_cases before : live j
    · rw [same j before there]
      exact vol.map j before
    · exact (new j there before).1
  case apart =>
    intro j k there there' b own own'
    have one := old j there b own
    have two := old k there' b own'
    exact vol.apart j k one.1 two.1 b one.2 two.2

theorem congr_lost {D : Nat → Block} {live' : Nat → Prop} {ino' : Nat → DiskInode}
    (same : ∀ j, live j → live' j → ino' j = ino j) (gone : ∀ j, live j → ¬ live' j → ∀ x, ¬ (ino j).Owns x)
    (new : ∀ j, live' j → ¬ live j → ∀ x, ¬ (ino' j).Owns x) (b : Nat) :
    Lost bm D live' ino' b ↔ Lost bm D live ino b := by
  refine and_congr_right fun _ => ⟨fun unowned j there own => ?_, fun unowned j there own => ?_⟩
  · by_cases stays : live' j
    · exact unowned j stays (same j there stays ▸ own)
    · obtain ⟨x, valid, -⟩ := own
      exact gone j there stays x valid
  · by_cases before : live j
    · exact unowned j before (same j before there ▸ own)
    · obtain ⟨x, valid, -⟩ := own
      exact new j there before x valid

end Volume

end Sbfs
