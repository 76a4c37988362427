import Sbfs.DirectoryMap
import Sbfs.Lookups

/-! # Attributes

The callbacks that read or set attributes go through `sb_rmw_diskinode`: they read the record of
an inode, change it and write it back.  `sb_chown` stores a `uid_t` in 16 bits and takes the -1
that stands for "leave it" for an id, so it does what it is asked exactly for the ids that fit
(`chown_honoured_iff`).  `sb_utimens` converts its times in floating point; it is given the results. -/

namespace Sbfs

open ReqProg

/-! ## The callbacks -/

/-- The calls of inode methods, and `read_inode` and `write_inode` themselves. -/
inductive AttrReq where
  | call (q : InodeReq)
  | readInode (pos : Position)
  | writeInode (pos : Position) (d : DiskInode)

@[reducible] def AttrReq.Ans : AttrReq → Type
  | call q => q.Ans
  | readInode _ => Option DiskInode
  | writeInode _ _ => Ret

abbrev AttrProg := ReqProg AttrReq AttrReq.Ans

namespace AttrProg

def call {α : Type} (p : VfsProg α) : AttrProg α := p.lift AttrReq.call

def readInode (pos : Position) : AttrProg (Option DiskInode) := ReqProg.call (AttrReq.readInode pos)

def writeInode (pos : Position) (d : DiskInode) : AttrProg Ret := ReqProg.call (AttrReq.writeInode pos d)

end AttrProg

/-- The calls on a device. -/
def AttrReq.on (fs : SBFileSystem) (uid gid : UInt16) {σ : Type} (device : Handler Block σ) :
    Service AttrReq AttrReq.Ans σ
  | .call q => InodeReq.on fs uid gid device q
  | .readInode pos => fun s r s' => (Sbfs.readInode pos).interp device s = (r, s')
  | .writeInode pos d => fun s r s' => (Sbfs.writeInode pos d).interp device s = (r, s')

/-- The fields of `struct stat` that `sb_getattr` fills in. -/
structure Stat where
  mode : Nat
  atime : Nat
  mtime : Nat
  ctime : Nat
  size : Nat
  nlink : Nat
  uid : Nat
  gid : Nat
  blocks : Nat
  blksize : Nat
deriving Repr, DecidableEq

def DiskInode.stat (d : DiskInode) : Stat where
  mode := d.mode.toNat
  atime := d.accessTime.toNat
  mtime := d.modifyTime.toNat
  ctime := d.changeTime.toNat
  size := d.size.toNat
  nlink := d.linkCnt.toNat
  uid := d.uid.toNat
  gid := d.gid.toNat
  blocks := DiskInode.totalBlocks d.size.toNat
  blksize := 4096

namespace Vfs

variable (v : Vfs)

/-- The inode of the descriptor if it is open, else that of the path. -/
def target (path : Name) (fi : Option Nat) : VfsProg (Position × Vfs) :=
  match fi.bind v.fdManager.get with
  | some inode => useInode inode fun inode => return (inode, v)
  | none => v.resolve path

/-- `sb_rmw_diskinode`; `func` returns its result, the changed record and what else it has
computed. -/
def sbRmwDiskinode {β : Type} (path : Name) (fi : Option Nat) (func : DiskInode → Int × DiskInode × β) :
    AttrProg (Int × Option β × Vfs) := do
  let (inode, v) ← AttrProg.call (v.target path fi)
  if !inode.isValid then return (-2, none, v)
  else
    match ← AttrProg.readInode inode with
    | none => return (-5, none, v)
    | some d =>
      let (ret, d, out) := func d
      if ret ≠ 0 then return (ret, some out, v)
      else
        match ← AttrProg.writeInode inode d with
        | .kFail => return (-5, some out, v)
        | .kSuccess => return (0, some out, v)

/-- `sb_getattr`, with what it has put into `*stbuf`. -/
def sbGetattr (path : Name) (fi : Option Nat) : AttrProg (Int × Option Stat × Vfs) :=
  v.sbRmwDiskinode path fi fun d => (0, d, d.stat)

def sbChmod (path : Name) (mode : UInt32) (fi : Option Nat) : AttrProg (Int × Vfs) := do
  let (ret, _, v) ← v.sbRmwDiskinode path fi fun d => (0, { d with mode := mode.toUInt16 }, ())
  return (ret, v)

def sbChown (path : Name) (uid gid : UInt32) (fi : Option Nat) : AttrProg (Int × Vfs) := do
  let (ret, _, v) ← v.sbRmwDiskinode path fi fun d =>
    (0, { d with uid := uid.toUInt16, gid := gid.toUInt16 }, ())
  return (ret, v)

/-- `sb_utimens`, once the two times have been converted to `uint32_t`. -/
def sbUtimens (path : Name) (atime mtime : UInt32) (fi : Option Nat) : AttrProg (Int × Vfs) := do
  let (ret, _, v) ← v.sbRmwDiskinode path fi fun d => (0, { d with accessTime := atime, modifyTime := mtime }, ())
  return (ret, v)

end Vfs

/-! ## What is asked of them -/

section

variable (L : Layout) (uid₀ gid₀ : UInt16) (v : Vfs) (path : Name) (fi : Option Nat) (a : Nat) (s : Disk)

/-- The descriptor or the path leads to inode `a`. -/
def Leads : Prop :=
  ∃ v₁ s₁, Runs (InodeReq.on L.formatted uid₀ gid₀ Store.handler) (v.target path fi) s (L.slot a, v₁) s₁

/-- Every `sb_getattr` that comes to inode `a` reports `st`. -/
def Reports (st : Stat) : Prop :=
  ∀ v path fi, Leads L uid₀ gid₀ v path fi a s → ∀ ret out v' s',
    Runs (AttrReq.on L.formatted uid₀ gid₀ Store.handler) (v.sbGetattr path fi) s (ret, out, v') s' →
      ret = 0 ∧ out = some st

/-- The files are the same: the block map, the type and the content of inode `a`, and the records
of all the others. -/
structure KeepsFiles (s' : Disk) : Prop where
  map : SameMap (L.inode s.blocks a) (L.inode s'.blocks a)
  type : (L.inode s'.blocks a).type = (L.inode s.blocks a).type
  ids : ∀ x, (L.inode s.blocks a).Owns x →
    (L.inode s'.blocks a).slotId s'.blocks x = (L.inode s.blocks a).slotId s.blocks x
  bytes : ∀ i, i < (L.inode s.blocks a).size.toNat →
    (L.inode s'.blocks a).byte s'.blocks i = (L.inode s.blocks a).byte s.blocks i
  others : ∀ j, L.SlotId j → j ≠ a → L.inode s'.blocks j = L.inode s.blocks j

/-- What an id asks for where there is `old`: -1 asks for no change. -/
def askedId (id : UInt32) (old : UInt16) : Nat := if id = 4294967295 then old.toNat else id.toNat

/-- After a `sb_chown` that returns 0 the ids are those that it was asked for, and nothing else
is different. -/
def ChownHonoured (uid gid : UInt32) : Prop :=
  ∀ v' s', Runs (AttrReq.on L.formatted uid₀ gid₀ Store.handler) (v.sbChown path uid gid fi) s (0, v') s' →
    Reports L uid₀ gid₀ a s' { (L.inode s.blocks a).stat with
      uid := askedId uid (L.inode s.blocks a).uid, gid := askedId gid (L.inode s.blocks a).gid } ∧
    KeepsFiles L a s s'

/-- After a `sb_chmod` that returns 0 the mode is the one it was given, as far as the record has
room for it, and nothing else is different. -/
def ChmodHonoured (mode : UInt32) : Prop :=
  ∀ v' s', Runs (AttrReq.on L.formatted uid₀ gid₀ Store.handler) (v.sbChmod path mode fi) s (0, v') s' →
    Reports L uid₀ gid₀ a s' { (L.inode s.blocks a).stat with mode := mode.toNat % 65536 } ∧ KeepsFiles L a s s'

end

/-! ## The read-modify-write -/

section

variable {L : Layout} {uid₀ gid₀ : UInt16} {v v₁ : Vfs} {path : Name} {fi : Option Nat} {a : Nat}
  {s s₁ s' : Disk} {live : Nat → Prop}

theorem target_onlyFinds (v : Vfs) (path : Name) (fi : Option Nat) : (v.target path fi).Avoids NotFind := by
  rw [Vfs.target]
  split
  · rename_i inode _
    cases inode with
    | none => exact ⟨fun other => other.2 rfl, fun answer => Empty.elim answer⟩
    | some inode => exact trivial
  · exact (resolve_onlyFinds _ _ _).bind fun _ => trivial

/-- The way to the inode only looks at the disk. -/
theorem target_quiet {r : Position × Vfs}
    (runs : Runs (InodeReq.on L.formatted uid₀ gid₀ Store.handler) (v.target path fi) s r s₁) :
    Touches (fun _ => False) s s₁ :=
  quiet_of_finds (target_onlyFinds v path fi) runs

theorem runs_attrCall {fs : SBFileSystem} {α : Type} {p : VfsProg α} {x : α} :
    Runs (AttrReq.on fs uid₀ gid₀ Store.handler) (AttrProg.call p) s x s' ↔
      Runs (InodeReq.on fs uid₀ gid₀ Store.handler) p s x s' :=
  runs_lift (f := AttrReq.call)

theorem attrOn_functional {fs : SBFileSystem} (q : AttrReq) (t : Disk) (r r' : q.Ans) (u u' : Disk)
    (first : AttrReq.on fs uid₀ gid₀ Store.handler q t r u) (second : AttrReq.on fs uid₀ gid₀ Store.handler q t r' u') :
    r = r' ∧ u = u' := by
  cases q with
  | call q => exact on_functional q t r r' u u' first second
  | readInode pos => exact Prod.mk.inj (first.symm.trans second)
  | writeInode pos d => exact Prod.mk.inj (first.symm.trans second)

/-- The only run of `sb_rmw_diskinode` that comes to inode `a`. -/
theorem runs_rmw {β : Type} (onDevice : (L.slot a).blockId < s.count) (failId : s.count ≤ kFailId)
    (runs : Runs (InodeReq.on L.formatted uid₀ gid₀ Store.handler) (v.target path fi) s (L.slot a, v₁) s₁)
    (func : DiskInode → Int × DiskInode × β) {d' : DiskInode} {out : β}
    (made : func (L.inode s.blocks a) = (0, d', out)) :
    ∃ s', Touches (· = (L.slot a).blockId) s s' ∧ Saved (L.slot a) s d' s' ∧ ∀ r t,
      Runs (AttrReq.on L.formatted uid₀ gid₀ Store.handler) (v.sbRmwDiskinode path fi func) s r t ↔
        r = (0, some out, v₁) ∧ t = s' := by
  have quiet := target_quiet runs
  have valid : ¬ (!(L.slot a).isValid) = true := by
    rw [Position.isValid, Bool.not_eq_true', bne_eq_false_iff_eq]
    intro same
    rw [kFailId] at failId
    omega
  obtain ⟨s', write, touches, saved⟩ := run_writeInode_saved d' (quiet.count ▸ onDevice)
  have read : (readInode (L.slot a)).run s₁ = (some (L.inode s.blocks a), s₁) := by
    rw [run_readInode (quiet.count ▸ onDevice), quiet.quiet]
    rfl
  rw [Saved, quiet.quiet] at saved
  refine ⟨s', (quiet.mono fun _ => False.elim).trans touches, saved, fun r t => ?_⟩
  have run : Runs (AttrReq.on L.formatted uid₀ gid₀ Store.handler) (v.sbRmwDiskinode path fi func) s
      (0, some out, v₁) s' := by
    refine (runs_attrCall.mpr runs).bind ?_
    simp only [valid]
    refine Runs.bind (runs_call.mpr read) ?_
    simp only [made, ne_eq, not_true, if_false]
    exact Runs.bind (runs_call.mpr write) .done
  constructor
  · intro other
    exact Runs.unique attrOn_functional other run
  · rintro ⟨rfl, rfl⟩
    exact run

/-- The record of inode `a` has been replaced by one with the same map. -/
theorem keepsFiles_saved (state : Populated L s live) (here : live a) (touches : Touches (· = (L.slot a).blockId) s s')
    {d' : DiskInode} (saved : Saved (L.slot a) s d' s') (map : SameMap (L.inode s.blocks a) d')
    (type : d'.type = (L.inode s.blocks a).type) : L.inode s'.blocks a = d' ∧ KeepsFiles L a s s' := by
  have slotId := state.slots a here
  have self : L.inode s'.blocks a = d' := Layout.inode_saved slotId saved
  have unmoved := state.volume.below_unmoved
    (touches.mono fun b (is : b = _) => is ▸ Layout.slot_low slotId) here
  refine ⟨self, ?_⟩
  constructor
  case map => exact self.symm ▸ map
  case type => rw [self, type]
  case ids =>
    intro x owns
    rw [self, map.slotId, unmoved.ids x owns]
  case bytes =>
    intro i inside
    rw [self, map.byte, unmoved.bytes i inside]
  case others =>
    intro j there ne
    rw [Layout.inode_save slotId there saved touches, if_neg ne]

/-- `sb_getattr` reports the record. -/
theorem reports_stat (onDevice : (L.slot a).blockId < s.count) (failId : s.count ≤ kFailId) :
    Reports L uid₀ gid₀ a s (L.inode s.blocks a).stat := by
  rintro v path fi ⟨v₁, s₁, leads⟩ ret out v' s' runs
  obtain ⟨s₂, -, -, only⟩ := runs_rmw onDevice failId leads (fun d => (0, d, d.stat)) rfl
  obtain ⟨same, -⟩ := (only _ _).mp runs
  cases same
  exact ⟨rfl, rfl⟩

/-- One report is all that there is. -/
theorem Reports.unique (onDevice : (L.slot a).blockId < s.count) (failId : s.count ≤ kFailId) {st : Stat}
    (reports : Reports L uid₀ gid₀ a s st) : st = (L.inode s.blocks a).stat := by
  have opened : Leads L uid₀ gid₀ ⟨L.slot a, .new kPathCacheSize,
      { FDManager.new with fdManager := fun _ => some (some (L.slot a)) }⟩ [] (some 9) a s := ⟨_, s, .done⟩
  obtain ⟨v₁, s₁, leads⟩ := opened
  obtain ⟨s', -, -, only⟩ := runs_rmw onDevice failId leads (fun d => (0, d, d.stat)) rfl
  obtain ⟨-, same⟩ := reports _ _ _ ⟨v₁, s₁, leads⟩ _ _ _ _ ((only _ _).mpr ⟨rfl, rfl⟩)
  exact (Option.some.inj same).symm

/-- An id that a record can hold, or -1 where it holds what -1 is cut to. -/
def IdFits (id : UInt32) (old : UInt16) : Prop := id.toNat < 65536 ∨ id = 4294967295 ∧ old = 65535

theorem askedId_iff (id : UInt32) (old : UInt16) : askedId id old = id.toUInt16.toNat ↔ IdFits id old := by
  rw [askedId, IdFits, UInt32.toNat_toUInt16]
  by_cases leave : id = 4294967295
  · subst leave
    rw [if_pos rfl, ← UInt16.toNat_inj]
    simp
  · rw [if_neg leave]
    simp only [leave, false_and, or_false]
    omega

/-- A callback that sets attributes with `f`. -/
theorem runs_set (state : Populated L s live) (here : live a)
    (runs : Runs (InodeReq.on L.formatted uid₀ gid₀ Store.handler) (v.target path fi) s (L.slot a, v₁) s₁)
    (f : DiskInode → DiskInode) (map : SameMap (L.inode s.blocks a) (f (L.inode s.blocks a)))
    (type : (f (L.inode s.blocks a)).type = (L.inode s.blocks a).type) :
    ∃ s', s'.count = s.count ∧ L.inode s'.blocks a = f (L.inode s.blocks a) ∧ KeepsFiles L a s s' ∧ ∀ r t,
      Runs (AttrReq.on L.formatted uid₀ gid₀ Store.handler) (do
          let (ret, _, v) ← v.sbRmwDiskinode path fi fun d => (0, f d, ())
          return (ret, v)) s r t ↔ r = (0, v₁) ∧ t = s' := by
  obtain ⟨s', touches, saved, only⟩ := runs_rmw (state.onDevice (state.slots a here)) state.failId runs
    (fun d => (0, f d, ())) rfl
  obtain ⟨self, keeps⟩ := keepsFiles_saved state here touches saved map type
  refine ⟨s', touches.count, self, keeps, fun r t => ?_⟩
  rw [runs_bind]
  constructor
  · rintro ⟨x, u, first, rest⟩
    obtain ⟨rfl, rfl⟩ := (only _ _).mp first
    exact runs_pure.mp rest
  · rintro ⟨rfl, rfl⟩
    exact ⟨_, _, (only _ _).mpr ⟨rfl, rfl⟩, .done⟩

theorem ChownHonoured.asked (state : Populated L s live) (here : live a) (leads : Leads L uid₀ gid₀ v path fi a s)
    {uid gid : UInt32} (honoured : ChownHonoured L uid₀ gid₀ v path fi a s uid gid) :
    askedId uid (L.inode s.blocks a).uid = uid.toUInt16.toNat ∧
      askedId gid (L.inode s.blocks a).gid = gid.toUInt16.toNat := by
  obtain ⟨v₁, s₁, runs⟩ := leads
  have onDevice := state.onDevice (state.slots a here)
  obtain ⟨s', count, self, keeps, only⟩ := runs_set state here runs
    (fun d => { d with uid := uid.toUInt16, gid := gid.toUInt16 }) ⟨rfl, rfl, rfl, rfl⟩ rfl
  have asked := Reports.unique (count ▸ onDevice) (count ▸ state.failId)
    (honoured v₁ s' ((only _ _).mpr ⟨rfl, rfl⟩)).1
  rw [self] at asked
  exact ⟨congrArg Stat.uid asked, congrArg Stat.gid asked⟩

end

/-- `sb_chown` does what it is asked exactly for ids that fit into the record; `sb_chmod` changes
the mode only. -/
theorem chown_honoured_iff (L : Layout) (uid₀ gid₀ : UInt16) {live : Nat → Prop} {s : Disk}
    (state : Populated L s live) {a : Nat} (here : live a) {v : Vfs} {path : Name} {fi : Option Nat}
    (leads : Leads L uid₀ gid₀ v path fi a s) :
    (∀ uid gid, ChownHonoured L uid₀ gid₀ v path fi a s uid gid ↔
      IdFits uid (L.inode s.blocks a).uid ∧ IdFits gid (L.inode s.blocks a).gid) ∧
    ∀ mode, ChmodHonoured L uid₀ gid₀ v path fi a s mode := by
  obtain ⟨v₁, s₁, runs⟩ := leads
  have onDevice := state.onDevice (state.slots a here)
  constructor
  · intro uid gid
    obtain ⟨s', count, self, keeps, only⟩ := runs_set state here runs
      (fun d => { d with uid := uid.toUInt16, gid := gid.toUInt16 }) ⟨rfl, rfl, rfl, rfl⟩ rfl
    have reports : Reports L uid₀ gid₀ a s' _ := reports_stat (count ▸ onDevice) (count ▸ state.failId)
    rw [← askedId_iff, ← askedId_iff]
    constructor
    · exact ChownHonoured.asked state here ⟨v₁, s₁, runs⟩
    · rintro ⟨sameUid, sameGid⟩ v' s'' chown
      obtain ⟨-, rfl⟩ := (only _ _).mp chown
      rw [self] at reports
      rw [sameUid, sameGid]
      exact ⟨reports, keeps⟩
  · intro mode v' s' chmod
    obtain ⟨s'', count, self, keeps, only⟩ := runs_set state here runs (fun d => { d with mode := mode.toUInt16 })
      ⟨rfl, rfl, rfl, rfl⟩ rfl
    obtain ⟨-, rfl⟩ := (only _ _).mp chmod
    have reports : Reports L uid₀ gid₀ a s' _ := reports_stat (count ▸ onDevice) (count ▸ state.failId)
    rw [self] at reports
    have low : mode.toNat % 65536 = mode.toUInt16.toNat := (UInt32.toNat_toUInt16 mode).symm
    rw [low]
    exact ⟨reports, keeps⟩

/-! ### The root of a small disk -/

/-- The state of the callbacks after a mount. -/
def loneVfs : Vfs := ⟨Layout.default.slot 2, .new kPathCacheSize, .new⟩

theorem loneVfs_leads : Leads .default 0 0 loneVfs [slash] none 2 loneDisk := ⟨_, loneDisk, .done⟩

theorem chown_honoured_iff_lone : ChownHonoured .default 0 0 loneVfs [slash] none 2 loneDisk 1000 100 :=
  ((chown_honoured_iff .default 0 0 loneDisk_state.state rfl loneVfs_leads).1 1000 100).mpr
    ⟨.inl (by decide), .inl (by decide)⟩

/-- The user 65536 becomes the user 0. -/
theorem chown_cuts_ids :
    ¬ ∀ (L : Layout) (uid₀ gid₀ : UInt16) (live : Nat → Prop) (s : Disk), Populated L s live → ∀ a, live a →
      ∀ v path fi, Leads L uid₀ gid₀ v path fi a s → ∀ uid gid, ChownHonoured L uid₀ gid₀ v path fi a s uid gid := by
  intro always
  have honoured := always .default 0 0 _ loneDisk loneDisk_state.state 2 rfl loneVfs [slash] none loneVfs_leads 65536 0
  have asked := (honoured.asked loneDisk_state.state rfl loneVfs_leads).1
  rw [loneDisk_inode] at asked
  exact absurd asked (by decide)

end Sbfs
