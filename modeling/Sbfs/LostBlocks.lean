import Sbfs.VfsRuns

/-! # Blocks without an owner

A used block is lost when no allocated inode owns it.  With enough space the methods of `Inode` lose no block and
find none again (`OnDisk.sameLost`), but for a `write_data` past 2^31, which can fail after it has grown the file. -/

namespace Sbfs

open PackedMap ReqProg

/-- The same blocks are lost. -/
def Layout.SameLost (L : Layout) (s s' : Disk) : Prop :=
  ∀ b, L.Lost (L.Allocated s') s' b ↔ L.Lost (L.Allocated s) s b

/-- Every used block belongs to an allocated inode. -/
def Layout.NoneLost (L : Layout) (s : Disk) : Prop := ∀ b, ¬ L.Lost (L.Allocated s) s b

section

variable {L : Layout} {uid gid : UInt16} {s s₁ s' : Disk} {live : Nat → Prop} {a i n x : Nat} {name : Name}
  {refs : Nat → Nat} {t : FileTree} {v v' : Vfs}

namespace Layout.SameLost

theorem trans (first : L.SameLost s s₁) (second : L.SameLost s₁ s') : L.SameLost s s' :=
  fun b => (second b).trans (first b)

theorem none (same : L.SameLost s s') (none : L.NoneLost s) : L.NoneLost s' := fun b lost => none b ((same b).mp lost)

/-- The inodes that are allocated are known. -/
theorem of_live (allocated : ∀ j, L.Allocated s' j ↔ live j) (lost : ∀ b, L.Lost live s' b ↔ L.Lost (L.Allocated s) s b) :
    L.SameLost s s' := by
  have same : L.Allocated s' = live := funext fun j => propext (allocated j)
  intro b
  rw [same]
  exact lost b

theorem of_kept (kept : TreeKept L s s') : L.SameLost s s' := of_live kept.allocated kept.lost

theorem of_marks (marks : SameMarks L s s') (lost : ∀ b, L.Lost (L.Allocated s) s' b ↔ L.Lost (L.Allocated s) s b) :
    L.SameLost s s' :=
  of_live marks.used lost

end Layout.SameLost

namespace Counted

theorem sameLost_link (ok : Counted L refs s) (on : CallOn L s a) (part : IsPart name) (there : L.Allocated s x)
    (replace : Bool) (enough : growth (L.inode s.blocks a) ((L.inode s.blocks a).size.toNat + 256) ≤
      (L.formatted.dataBitmap.freeIds s.blocks).length) {ret : Ret}
    (run : (Inode.link L.formatted (L.slot a) name (L.slot x) replace).run s = (ret, s')) : L.SameLost s s' := by
  obtain ⟨ret', s'', run', result, lost⟩ := ok.state.run_link_blocks on.here (ok.searchable on) part.proper
    (ok.state.slots x there) replace
  cases run.symm.trans run'
  cases result with
  | done _ marks => exact .of_marks marks (lost rfl)
  | refused quiet => exact .of_kept (.of_quiet ok quiet)
  | full _ _ _ short => omega

theorem sameLost_unlink (ok : Counted L refs s) (on : CallOn L s a)
    (few : ((L.inode s.blocks a).entries s.blocks).length ≤ 33152) (part : IsPart name) {r : Ret × Option Position}
    (run : (Inode.unlink L.formatted (L.slot a) name).run s = (r, s')) : L.SameLost s s' := by
  obtain ⟨r', s'', run', result, lost⟩ := ok.state.run_unlink_blocks on.here (ok.searchable on)
    few (fun x member => ok.state.slots x (ok.bound_allocated on (isDot_of_isPart part) member))
    part.proper
  cases run.symm.trans run'
  cases result with
  | done _ marks => exact .of_marks marks lost
  | absent quiet => exact .of_kept (.of_quiet ok quiet)

theorem sameLost_createInode (ok : Counted L refs s) (on : CallOn L s a) (part : IsPart name)
    (absent : ∀ x, (name, x) ∉ (L.inode s.blocks a).entries s.blocks) {type : DiskInodeType} {mode : UInt16}
    (head : (L.formatted.inodeBitmap.freeIds s.blocks).head? = some n) (slotN : L.SlotId n)
    (enough : growth (L.inode s.blocks a) ((L.inode s.blocks a).size.toNat + 256) +
      (if type = kDirectory then 1 else 0) ≤ (L.formatted.dataBitmap.freeIds s.blocks).length)
    {r : Ret × Option Position} (run : (createInode L.formatted uid gid (L.slot a) name type mode).run s = (r, s')) :
    L.SameLost s s' := by
  obtain ⟨d, s₁, make, quiet, empty, rfl, -⟩ := DiskInode.run_new type uid gid s
  have blocks := quiet.quiet
  have first := TreeKept.of_quiet ok quiet
  have ok₁ := first.counted ok
  have on₁ : CallOn L s₁ a := ⟨by rw [Layout.Allocated, blocks]; exact on.here, by rw [blocks]; exact on.type, by
    rw [blocks]
    exact on.small⟩
  have moded : DiskInode.Empty { d with mode := d.mode ||| (mode &&& 511) } :=
    ⟨empty.size, empty.direct, empty.one, empty.two⟩
  obtain ⟨s'', run', bits, -, kept⟩ := ok₁.state.create_kept on₁.here (ok₁.searchable on₁) (by rw [blocks]; exact absent)
    part.proper moded (fun _ => id) (by rw [blocks]; exact head) slotN (by rw [blocks]; exact enough)
  rw [createInode, DevProg.run_bind, make] at run
  cases run.symm.trans run'
  exact (Layout.SameLost.of_kept first).trans (.of_live bits kept.lost)

theorem sameLost_remove (ok : Counted L refs s) (on : CallOn L s a)
    (few : ((L.inode s.blocks a).entries s.blocks).length ≤ 33152) (part : IsPart name)
    (last : ∀ x, (name, x) ∈ (L.inode s.blocks a).entries s.blocks → x ≠ a ∧ L.links s.blocks x = 1) {ret : Ret}
    (run : (Inode.remove L.formatted (L.slot a) name).run s = (ret, s')) : L.SameLost s s' := by
  have isDir : ¬ (L.inode s.blocks a).type ≠ kDirectory := not_not_intro on.type
  obtain ⟨r, d, s₁, scan, retimed, quiet, answers, -⟩ := ok.state.run_scan on.here (ok.searchable on) part.proper
  cases answers with
  | failed unbound =>
    simp only [Inode.remove, DevProg.run_bind, ok.state.run_readInode on.here, isDir, if_false, scan,
      DevProg.run_pure] at run
    cases run
    exact .of_kept (.of_quiet ok quiet)
  | absent unbound =>
    simp only [Inode.remove, DevProg.run_bind, ok.state.run_readInode on.here, isDir, if_false, scan,
      DevProg.run_pure] at run
    cases run
    exact .of_kept (.of_quiet ok quiet)
  | @found i j x low entry =>
    have member := List.mem_of_getElem? entry
    obtain ⟨ne, one⟩ := last x member
    have there := ok.bound_allocated on (isDot_of_isPart part) member
    obtain ⟨s'', run', -, bits, -, kept⟩ := ok.state.run_remove_last on.here (ok.searchable on) few there ne there
      scan retimed quiet low entry one
    cases run.symm.trans run'
    exact .of_live bits kept.lost

end Counted

/-! ## Requests -/

/-- A `write_data` that ends past 2^31. -/
def InodeReq.Unbounded : InodeReq → Prop
  | .writeData _ offset _ size => 2147483648 ≤ offset + size
  | _ => False

theorem OnDisk.sameLost (bitmap : L.inodeBitmapBlocks = kInodeBitmapBlocks) (on : OnDisk L s t) {q : InodeReq}
    {r : q.Ans} (allowed : q.Allowed t) (bounded : ¬ q.Unbounded) (answer : L.roomy uid gid q s r s') :
    L.SameLost s s' := by
  obtain ⟨sound, fits⟩ := allowed
  obtain ⟨covered, defined, run⟩ := answer
  obtain ⟨refs, ok⟩ := on.counted
  cases q with
  | undefined => exact absurd rfl defined
  | find dir name =>
    -- the requests that only read leave all bits
    have finds : (VfsProg.find dir name).Avoids NotFind := ⟨fun other => other.1 _ _ rfl, fun _ => trivial⟩
    exact .of_kept (.of_quiet ok (quiet_of_finds finds (runs_call.mpr ⟨defined, run⟩)))
  | create dir name type mode =>
    obtain ⟨isDir, part, absent⟩ := fits
    obtain ⟨⟨n, head, slotN⟩, enough⟩ := covered.space
    obtain ⟨a, rfl, onA⟩ := on.directory bitmap isDir
    rw [on.tree, Layout.find_slot (ok.state.slots a onA.here) (isDot_of_isPart part), nameAt_dir onA,
      Option.map_eq_none_iff, find_eq_none] at absent
    exact ok.sameLost_createInode onA part absent head slotN enough run
  | remove dir name =>
    obtain ⟨isDir, part, last⟩ := fits
    obtain ⟨a, rfl, onA⟩ := on.directory bitmap isDir
    refine ok.sameLost_remove onA (on.few bitmap onA) part (fun x member => ?_) run
    -- the entry has one link, as `last` says, so that the inode goes with its blocks
    have notDot := isDot_of_isPart part
    have there := ok.bound_allocated onA notDot member
    have found : t.find (L.slot a) name = some (L.slot x) := by
      rw [on.tree, Layout.find_slot (ok.state.slots a onA.here) notDot, nameAt_dir onA,
        (find_eq_some (ok.distinct onA)).mpr member, Option.map_some]
    have links := sound.links found
    rw [on.tree, Layout.links_slot (ok.state.slots x there), Layout.linksAt, if_pos there] at links
    exact ⟨fun is => (last _ found).1 (is ▸ rfl), UInt16.toNat_inj.mp links⟩
  | link dir name inode replace =>
    obtain ⟨isDir, part, allocated, -⟩ := fits
    obtain ⟨a, rfl, onA⟩ := on.directory bitmap isDir
    obtain ⟨x, rfl, there⟩ := on.allocated allocated
    exact ok.sameLost_link onA part there replace covered.space run
  | unlink dir name =>
    obtain ⟨isDir, part⟩ := fits
    obtain ⟨a, rfl, onA⟩ := on.directory bitmap isDir
    exact ok.sameLost_unlink onA (on.few bitmap onA) part run
  | checkEmpty dir =>
    obtain ⟨i, rfl, here⟩ := on.allocated fits
    obtain ⟨r', s'', run', looked, -⟩ := ok.state.run_checkEmpty_any uid gid here
    cases run.symm.trans run'
    exact .of_kept (.of_looked ok here looked)
  | readData inode offset buf size =>
    obtain ⟨i, rfl, here, -⟩ := on.file fits
    obtain ⟨r', s'', run', looked⟩ := ok.state.run_readData_any here offset buf size
    cases run.symm.trans run'
    exact .of_kept (.of_looked ok here looked)
  | writeData inode offset buf size =>
    obtain ⟨i, rfl, here, -⟩ := on.file fits.1
    -- a write that ends below 2^31 does not wrap
    have small : offset + size < 2147483648 := Nat.lt_of_not_le bounded
    have enough : growth (L.inode s.blocks i) (offset + size) ≤ (L.formatted.dataBitmap.freeIds s.blocks).length := by
      rw [← Nat.mod_eq_of_lt (show offset + size < 4294967296 by omega)]
      exact covered.space
    obtain ⟨worked, -⟩ := WorkedOn.wrote ok.state here small enough run
    exact .of_marks worked.marks worked.lost
  | resize inode newSize =>
    obtain ⟨isFile, small⟩ := fits
    obtain ⟨i, rfl, here, file⟩ := on.file isFile
    obtain ⟨worked, -⟩ := WorkedOn.resized ok.state here file small covered.near covered.space run
    exact .of_marks worked.marks worked.lost
  | sync inode metadata =>
    have quiet := (readOnly_sync inode metadata).touches s
    rw [show (Inode.sync inode metadata).run s = (r, s') from run] at quiet
    exact .of_kept (.of_quiet ok quiet)

/-! ## Callbacks -/

/-- The ranges that a callback writes and the sizes that it sets are its own arguments. -/
def InodeReq.Of (call : VfsCall) : InodeReq → Prop
  | .writeData _ offset buf size => ∃ fh z, call = .write fh buf size z ∧ offset = uint32 z
  | .resize _ newSize => ∃ path z fh, call = .truncate path z fh ∧ newSize = uint32 z
  | _ => True

section

variable {call : VfsCall} {path : Name} {dir : Position}

theorem asks_of {α : Type} {q : InodeReq} {f : q.Ans → VfsProg α} (fine : q.Of call)
    (rest : ∀ r, (f r).Avoids fun q => ¬ q.Of call) : (ReqProg.call q >>= f : VfsProg α).Avoids fun q => ¬ q.Of call :=
  ⟨not_not_intro fine, rest⟩

theorem undefined_of {α : Type} : (undefined : VfsProg α).Avoids fun q => ¬ q.Of call :=
  ⟨not_not_intro trivial, fun none => Empty.elim none⟩

theorem resolve_of (v : Vfs) (path : Name) : (v.resolve path).Avoids fun q => ¬ q.Of call := by
  rw [Vfs.resolve]
  refine ((resolve_onlyFinds _ _ _).mono fun q other => ⟨fun dir name same => ?_, fun same => ?_⟩).bind fun _ => trivial
  · exact other (same ▸ trivial)
  · exact other (same ▸ trivial)

theorem removePrefix_of (v : Vfs) (pre : Name) : (v.removePrefix pre).Avoids fun q => ¬ q.Of call := by
  rw [Vfs.removePrefix]
  split
  · exact undefined_of
  · trivial

theorem linkIn_of (dir : Position) (name : Name) (inode : Option Position) (replace : Bool) :
    (Vfs.linkIn dir name inode replace).Avoids fun q => ¬ q.Of call := by
  unfold Vfs.linkIn
  split
  · exact undefined_of
  · split
    · exact undefined_of
    · exact asks_of trivial fun _ => trivial

theorem exchange_of (dir dir' : Position) (c d : Name) :
    (Vfs.exchange dir c dir' d).Avoids fun q => ¬ q.Of call := by
  rw [Vfs.exchange]
  split
  · exact undefined_of
  · exact asks_of trivial fun _ => linkIn_of _ _ _ _

theorem useInode_of {α : Type} {f : Position → VfsProg α} (inode : Option Position)
    (uses : ∀ x, (f x).Avoids fun q => ¬ q.Of call) : (Vfs.useInode inode f).Avoids fun q => ¬ q.Of call := by
  unfold Vfs.useInode
  split
  · exact undefined_of
  · exact uses _

theorem truncateInode_of (path : Name) (z : Int) (fh : Nat) (x : Position) :
    (Vfs.truncateInode x z).Avoids fun q => ¬ q.Of (.truncate path z fh) := by
  rw [Vfs.truncateInode]
  refine asks_of ⟨path, z, fh, rfl, rfl⟩ fun r => ?_
  cases r <;> trivial

/-- The callbacks write what they are asked to. -/
theorem VfsCall.body_of (v : Vfs) (call : VfsCall) : (call.body v).Avoids fun q => ¬ q.Of call := by
  cases call with
  | create path mode =>
    refine Avoids.bind (Avoids.bind (resolve_of v _) ?_) fun _ => trivial
    rintro ⟨x, v₁⟩
    dsimp only
    split
    · trivial
    · exact asks_of trivial fun _ => trivial
  | mkdir path mode =>
    refine Avoids.bind (Avoids.bind (resolve_of v _) ?_) fun _ => trivial
    rintro ⟨x, v₁⟩
    dsimp only
    split
    · trivial
    · exact asks_of trivial fun _ => trivial
  | unlink path =>
    refine Avoids.bind (Avoids.bind (resolve_of v _) ?_) fun _ => trivial
    rintro ⟨x, v₁⟩
    dsimp only
    split
    · trivial
    · refine asks_of trivial fun r => ?_
      cases r with
      | none => trivial
      | some y => exact asks_of trivial fun _ => (removePrefix_of _ _).bind fun _ => trivial
  | rmdir path =>
    refine Avoids.bind (Avoids.bind (resolve_of v _) ?_) fun _ => trivial
    rintro ⟨x, v₁⟩
    dsimp only
    split
    · trivial
    · refine asks_of trivial fun r => ?_
      cases r with
      | none => trivial
      | some y =>
        refine asks_of trivial fun ret => ?_
        split
        · trivial
        · exact asks_of trivial fun _ => (removePrefix_of _ _).bind fun _ => trivial
  | rename oldPath newPath flags =>
    refine Avoids.bind (Avoids.bind (resolve_of v _) ?_) fun _ => trivial
    rintro ⟨x, v₁⟩
    dsimp only
    split
    · trivial
    · refine Avoids.bind (resolve_of _ _) ?_
      rintro ⟨x', v₂⟩
      refine asks_of trivial ?_
      -- the end of `sb_rename` is the same with and without the exchange
      have finish : ∀ y : Option Position, (do
          Vfs.linkIn x' (splitFromLastSlash newPath).2 y (!flags.testBit 0)
          let v ← v₂.removePrefix oldPath
          let v ← v.removePrefix newPath
          return ((0 : Int), v) : VfsProg (Int × Vfs)).Avoids fun q => ¬ q.Of (.rename oldPath newPath flags) :=
        fun y => (linkIn_of _ _ _ _).bind fun _ => (removePrefix_of _ _).bind fun _ =>
          (removePrefix_of _ _).bind fun _ => trivial
      rintro ⟨r, y⟩
      cases r with
      | kFail => trivial
      | kSuccess =>
        dsimp only
        split
        · exact (exchange_of _ _ _ _).bind fun _ => finish _
        · exact finish _
  | open' path =>
    refine Avoids.bind (Avoids.bind (resolve_of v _) ?_) fun _ => trivial
    rintro ⟨x, v₁⟩
    dsimp only
    split <;> trivial
  | release fh => trivial
  | read fh buf size offset =>
    refine Avoids.bind ?_ fun _ => trivial
    rw [Vfs.sbRead]
    split
    · trivial
    · split
      · trivial
      · refine useInode_of _ fun x => asks_of trivial ?_
        rintro ⟨ret, out⟩
        dsimp only
        split <;> trivial
  | write fh buf size offset =>
    refine Avoids.bind ?_ fun _ => trivial
    rw [Vfs.sbWrite]
    split
    · trivial
    · split
      · trivial
      · refine useInode_of _ fun x => asks_of ⟨fh, offset, rfl, rfl⟩ fun ret => ?_
        split <;> trivial
  | truncate path off fh =>
    refine Avoids.bind ?_ fun _ => trivial
    rw [Vfs.sbTruncate]
    split
    · trivial
    · split
      · exact useInode_of _ fun x => (truncateInode_of _ _ _ _).bind fun _ => trivial
      · refine Avoids.bind (resolve_of _ _) ?_
        rintro ⟨x, v₁⟩
        dsimp only
        split
        · trivial
        · exact (truncateInode_of _ _ _ _).bind fun _ => trivial
  | fsync datasync fh =>
    refine Avoids.bind ?_ fun _ => trivial
    rw [Vfs.sbFsync]
    split
    · trivial
    · refine useInode_of _ fun x => asks_of trivial fun r => ?_
      cases r <;> trivial

end

/-- Not a `write` that ends past 2^31. -/
def Callback.Bounded : Callback → Prop
  | .vfs (.write _ _ size offset) => uint32 offset + size < 2147483648
  | _ => True

theorem InodeReq.Of.bounded {call : VfsCall} {q : InodeReq} (fine : q.Of call) (bounded : (Callback.vfs call).Bounded) :
    ¬ q.Unbounded := by
  cases q with
  | writeData inode offset buf size =>
    obtain ⟨fh, z, rfl, rfl⟩ := fine
    exact Nat.not_le.mpr bounded
  | _ => exact not_false

/-- A callback loses no block and finds none again. -/
theorem Mounted.sameLost {cb : Callback} {ret : Int} {out : Out} (bitmap : L.inodeBitmapBlocks = kInodeBitmapBlocks)
    (mounted : Mounted L s v) (uses : cb.UsesFiles v.fdManager (L.fileTree s)) (bounded : cb.Bounded)
    (steps : cb.Steps L uid gid s v ret out s' v') : L.SameLost s s' := by
  cases cb with
  | vfs call =>
    obtain ⟨-, same, -⟩ := mounted.called bitmap (fun _ _ => id) (R := L.SameLost) (fun _ _ => Iff.rfl)
      (fun _ _ _ => .trans) (VfsCall.body_of v call) (fun q s t r s' on allowed fine _ answer =>
        on.sameLost bitmap allowed ((not_not.mp fine).bounded bounded) answer) uses steps
    exact same
  | _ =>
    obtain ⟨-, kept, -⟩ := mounted.looked bitmap uses (fun _ same => by cases same) steps
    exact .of_kept kept

theorem VfsRun.sameLost {P : FDManager → FileTree → Callback → Prop} {s₀ : Disk} {v₀ : Vfs} {events : List Event}
    (bitmap : L.inodeBitmapBlocks = kInodeBitmapBlocks) (mounted : Mounted L s₀ v₀)
    (uses : ∀ m t cb, P m t cb → cb.UsesFiles m t) (bounded : ∀ m t cb, P m t cb → cb.Bounded)
    (run : VfsRun L uid gid P s₀ v₀ events s v) : L.SameLost s₀ s := by
  induction run with
  | start => exact fun _ => Iff.rfl
  | step before meets steps ih =>
    obtain ⟨mounted', -⟩ := VfsRun.refines_used bitmap mounted uses before
    exact ih.trans (mounted'.sameLost bitmap (uses _ _ _ meets) (bounded _ _ _ meets) steps)
  | evicted before fewer ih => exact ih

/-- The pointers of allocated inodes lead to used blocks, each of them to another. -/
theorem Counted.pointer {refs : Nat → Nat} (ok : Counted L refs s) {i j : Nat} {x y : Slot} (here : L.Allocated s i)
    (owns : (L.inode s.blocks i).Owns x) : L.formatted.dataBitmap.Used s.blocks ((L.inode s.blocks i).slotId s.blocks x) ∧
      (L.Allocated s j → (L.inode s.blocks j).Owns y →
        (L.inode s.blocks j).slotId s.blocks y = (L.inode s.blocks i).slotId s.blocks x → j = i ∧ y = x) := by
  have map := ok.state.volume.map
  refine ⟨(map i here).used x owns, fun there owns' same => ?_⟩
  have mine : (L.inode s.blocks i).OwnsBlock s.blocks ((L.inode s.blocks i).slotId s.blocks x) := ⟨x, owns, rfl⟩
  have is : j = i := ok.state.volume.apart j i there here _ ⟨y, owns', same.symm⟩ mine
  subst is
  exact ⟨rfl, (map j there).inj y x owns' owns same⟩

/-- As long as no block is lost, a block is used if and only if exactly one pointer of an allocated inode leads to it. -/
theorem OnDisk.used_iff (on : OnDisk L s t) (tight : Tight L.formatted.dataBitmap s.blocks (L.Allocated s) (L.inode s.blocks))
    (b : Nat) : L.formatted.dataBitmap.Used s.blocks b ↔ ∃! p : Nat × Slot, L.Allocated s p.1 ∧
      (L.inode s.blocks p.1).Owns p.2 ∧ (L.inode s.blocks p.1).slotId s.blocks p.2 = b := by
  obtain ⟨refs, ok⟩ := on.counted
  constructor
  · intro used
    obtain ⟨i, here, x, owns, rfl⟩ := tight b used
    refine ⟨(i, x), ⟨here, owns, rfl⟩, ?_⟩
    rintro ⟨j, y⟩ ⟨there, owns', same⟩
    obtain ⟨rfl, rfl⟩ := (ok.pointer here owns).2 there owns' same
    rfl
  · rintro ⟨⟨i, x⟩, ⟨here, owns, rfl⟩, -⟩
    exact (ok.pointer (j := i) (y := x) here owns).1

end

end Sbfs
