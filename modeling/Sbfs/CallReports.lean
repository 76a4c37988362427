import Sbfs.CallResults
import Sbfs.Consistency
import Sbfs.LongNames

/-! # What the calls report

As long as there is space, `create` and `mkdir` of a name that is free and `unlink` and `rmdir` of any name report what
they have done (`create_reports`), and `rename` loses nothing when it finds its place (`create_renames`). -/

namespace Sbfs

open NamedTree FileTree ReqProg PackedMap

/-- What the result of a call on a name promises: 0 that the name has been made, for an inode that was not allocated, or
removed, and an error that all names are as before. -/
structure Layout.Reports (L : Layout) (q : VfsCall) (s : Disk) (ret : Int) (out : Out) (s' : Disk) (v' : Vfs) : Prop where
  made : ∀ cs type, (∀ c ∈ cs, IsComponent c) → q.MakesA (canonical cs) type → ret = 0 →
    ∃ i, (L.fileTree s').lookup cs = some (L.slot i) ∧ ¬ L.Allocated s i ∧ L.Allocated s' i ∧
      (L.inode s'.blocks i).type = type ∧
      (type = kFile → ∃ fh, out = .handle (some fh) ∧ v'.fdManager.get fh = some (some (L.slot i)))
  removed : ∀ cs c, (∀ d ∈ cs ++ [c], IsComponent d) → q.Removes (canonical (cs ++ [c])) → ret = 0 →
    ∃ dir, (L.fileTree s).lookup cs = some dir ∧ (L.fileTree s').find dir c = none
  failed : ret < 0 → ∀ dir name, (L.fileTree s').find dir name = (L.fileTree s).find dir name

/-- The calls on names whose results are right: `create` and `mkdir` get a free name of a directory, if there is a
parent at all, and `unlink` is not for directories. -/
inductive VfsCall.Proper (t : FileTree) (q : VfsCall) : Prop
  | makes {cs : List Name} {c : Name} {type : DiskInodeType} (parts : ∀ d ∈ cs ++ [c], IsPart d)
      (makes : q.MakesA (canonical (cs ++ [c])) type)
      (free : ∀ dir, t.lookup cs = some dir → t.kind dir = some kDirectory ∧ t.find dir c = none) : Proper t q
  | removes {cs : List Name} {c : Name} (parts : ∀ d ∈ cs ++ [c], IsPart d) (removes : q.Removes (canonical (cs ++ [c])))
      (file : q = unlink (canonical (cs ++ [c])) → ∀ x, t.lookup (cs ++ [c]) = some x → t.kind x ≠ some kDirectory) :
      Proper t q

section

variable {L : Layout} {owner group uid gid : UInt16} {s s₀ s' : Disk} {v v' : Vfs} {fs : SBFileSystem} {q : VfsCall}
  {ret : Int} {out : Out} {events : List Event}

/-- An error that leaves the disk as it is is a report. -/
theorem Layout.Reports.of_failed (negative : ret < 0) (same : L.fileTree s' = L.fileTree s) :
    L.Reports q s ret out s' v' where
  made := fun _ _ _ _ zero => absurd zero negative.ne
  removed := fun _ _ _ _ zero => absurd zero negative.ne
  failed := fun _ _ _ => by rw [same]

/-- A call that the kernel makes is either one whose effect is known or one on a path that leads nowhere. -/
theorem VfsCall.Proper.cases (sound : (L.fileTree s).Sound) (proper : q.Proper (L.fileTree s)) :
    q.Issued (L.fileTree s) ∧ q.uses = none ∨ ∃ cs c, (∀ d ∈ cs ++ [c], IsPart d) ∧
      ((∃ type, q.MakesA (canonical (cs ++ [c])) type) ∧ (L.fileTree s).lookup cs = none ∨
        q.Removes (canonical (cs ++ [c])) ∧ (L.fileTree s).lookup (cs ++ [c]) = none) := by
  obtain ⟨parts, makes, free⟩ | ⟨parts, removes, file⟩ := proper
  · cases here : (L.fileTree s).lookup _ with
    | none => exact .inr ⟨_, _, parts, .inl ⟨⟨_, makes⟩, here⟩⟩
    | some dir =>
      obtain ⟨isDir, absent⟩ := free dir here
      obtain ⟨⟨mode, rfl⟩, -⟩ | ⟨⟨mode, rfl⟩, -⟩ := makes
      · exact .inl ⟨.create mode parts ⟨here, isDir⟩ absent, rfl⟩
      · exact .inl ⟨.mkdir mode parts ⟨here, isDir⟩ absent, rfl⟩
  · cases there : (L.fileTree s).lookup _ with
    | none => exact .inr ⟨_, _, parts, .inr ⟨removes, there⟩⟩
    | some x =>
      have way := there
      rw [Namespace.lookup_concat] at way
      obtain ⟨dir, here, edge⟩ := Option.bind_eq_some_iff.mp way
      have parent : (L.fileTree s).Dir _ dir := ⟨here, sound.source edge⟩
      obtain rfl | rfl := removes
      · refine .inl ⟨.unlink parts parent fun y found => ?_, rfl⟩
        exact file rfl y (lookup_step here found)
      · exact .inl ⟨.rmdir parts parent, rfl⟩

theorem VfsCall.Proper.calls {t : FileTree} (proper : q.Proper t) :
    (∃ path type, q.MakesA path type) ∨ ∃ path, q.Removes path := by
  cases proper with
  | makes _ makes => exact .inl ⟨_, _, makes⟩
  | removes _ removes => exact .inr ⟨_, removes⟩

/-- What an effect on names reports. -/
theorem VfsCall.Effect.reports (on : OnDisk L s' (L.fileTree s')) (sound : (L.fileTree s).Sound) {n : Nat}
    (fresh : v.fdManager.Fresh n) (calls : (∃ path type, q.MakesA path type) ∨ ∃ path, q.Removes path)
    (effect : q.Effect v.fdManager (L.fileTree s) ret out v'.fdManager (L.fileTree s')) :
    L.Reports q s ret out s' v' := by
  constructor
  case made =>
    intro cs type components' makes _
    obtain ⟨-, ds, c, dir, x, parts, same, parent, absent, unused, tree, handle⟩ := effect.of_create makes
    obtain rfl := canonical_injective components' (components parts) same
    have kind : (L.fileTree s').kind x = some type := by
      rw [tree, create_kind, if_pos rfl]
    obtain ⟨i, rfl, here, is⟩ := Layout.kind_some kind
    obtain ⟨refs, ok⟩ := on.counted
    refine ⟨i, ?_, fun old => ?_, here, is, fun file => ?_⟩
    · rw [tree]
      exact sound.lookup_create parent absent unused type
    · -- an inode that was allocated before had a kind in the tree, and `x` had none
      have allocated := (Layout.kind_iff (ok.state.slots i here)).mpr ⟨old, rfl⟩
      cases unused.symm.trans allocated
    · obtain ⟨rfl, opened⟩ := handle file
      exact ⟨_, rfl, by rw [opened, fresh.get_open', if_pos rfl]⟩
  case removed =>
    intro cs c components' removes zero
    obtain ⟨-, ds, d, dir, x, parts, same, parent, -, -, tree⟩ | ⟨negative, -⟩ := effect.of_remove removes
    · obtain ⟨rfl, last⟩ := List.append_inj' (canonical_injective components' (components parts) same) rfl
      cases last
      exact ⟨dir, parent.1, by rw [tree]; exact setEdge_same _⟩
    · exact absurd zero negative.ne
  case failed =>
    intro negative dir name
    obtain ⟨path, type, makes⟩ | ⟨path, removes⟩ := calls
    · -- a call that makes something never reports an error
      exact absurd (effect.of_create makes).1 negative.ne
    · obtain ⟨zero, -⟩ | ⟨-, same⟩ := effect.of_remove removes
      · exact absurd zero negative.ne
      · rw [same]

/-- Directories have no names of more than 251 bytes. -/
theorem Receives.find_long {live : Nat → Prop} {a : Nat} {name : Name} (receives : Receives L live a s)
    (slotA : L.SlotId a) (long : 251 < name.length) : (L.fileTree s).find (L.slot a) name = none := by
  have notDot : isDot name = false := by
    by_contra dot
    rw [Bool.not_eq_false, isDot, Bool.or_eq_true, beq_iff_eq, beq_iff_eq] at dot
    rcases dot with rfl | rfl <;> exact absurd long (by decide)
  rw [Layout.find_slot slotA notDot, Option.map_eq_none_iff, Layout.nameAt, find_eq_none]
  intro x listed
  rw [Layout.entriesOf] at listed
  split at listed
  · exact absurd (receives.table.terminated _ listed) (by simpa using long)
  · exact List.not_mem_nil listed

/-- `create` of a file in the root takes a long name, but the name is not there afterwards. -/
theorem Layout.Young.create_long {n : Nat} (young : L.Young s n) (bitmap : L.inodeBitmapBlocks = kInodeBitmapBlocks)
    (few : n ≤ 13) (room : L.SlotId (L.inodeAreaStart + n)) (data : n + 1 ≤ L.formatted.dataBitmap.capacity) {name : Name}
    (noZero : ∀ c ∈ name, c ≠ 0) (long : 251 < name.length) (mode : UInt16) : ∃ r s',
      (createInode L.formatted uid gid (L.slot L.inodeAreaStart) name kFile mode).run s = (r, s') ∧
        (L.fileTree s').find (L.slot L.inodeAreaStart) name = none := by
  obtain ⟨d, s₁, make, quiet, empty, type, -⟩ := DiskInode.run_new kFile uid gid s
  obtain ⟨refs, ok⟩ := young.disk.counted
  have blocks := quiet.quiet
  have kept := TreeKept.of_quiet ok quiet
  have ok₁ := kept.counted ok
  obtain ⟨here, isDir⟩ := (Layout.kind_iff (rootSlot L)).mp young.disk.sound.root
  have dir := ok.dirs _ here isDir
  have receives : Receives L (L.Allocated s₁) L.inodeAreaStart s₁ := by
    refine ⟨ok₁.state, (kept.allocated _).mpr here, ?_, fun _ there => there⟩
    rw [blocks]
    exact ⟨dir.type, dir.aligned, fun x listed => (dir.names x listed).fits⟩
  have moded : DiskInode.Empty { d with mode := d.mode ||| (mode &&& 511) } :=
    ⟨empty.size, empty.direct, empty.one, empty.two⟩
  -- there is room for the entry
  obtain ⟨i, head, slotI⟩ := young.freeInode room
  have space : CreateRoom L L.inodeAreaStart { d with mode := d.mode ||| (mode &&& 511) } s₁ := by
    constructor
    case small =>
      have size := young.sizes bitmap here
      rw [blocks]
      omega
    case blocks =>
      have grows : entryGrowth (L.inode s.blocks L.inodeAreaStart) ≤ 1 := young.grows bitmap few young.disk.sound.root
      have free := young.freeBlocks bitmap few
      rw [entryGrowth] at grows
      rw [blocks, entryGrowth, newBlocks, if_neg (by rw [type]; decide)]
      omega
    case slot =>
      rw [newInodeId, blocks, head]
      have small := slotI.2
      dsimp only
      rw [Nat.mod_eq_of_lt small]
      exact ok₁.state.onDevice slotI
  obtain ⟨⟨ret, p⟩, s', run, success, -⟩ := ok₁.state.run_create_outcome receives.here receives.table.type
    receives.table.aligned moded name
  obtain rfl : ret = .kSuccess := success.mpr space
  obtain ⟨_, -, entered⟩ := receives.created ⟨i, by rw [blocks]; exact head, slotI⟩ noZero moded run
  exact ⟨_, s', by rw [createInode, DevProg.run_bind, make]; exact run, entered.receives.find_long (rootSlot L) long⟩

/-- `rename` has failed and changed no name and no link count, or it has done what it is for. -/
def FileTree.RenameOk (t : FileTree) (dir : Position) (c : Name) (dir' : Position) (d : Name) (flags : Nat) (ret : Int)
    (u : FileTree) : Prop :=
  ret < 0 ∧ (∀ m l, u.find m l = t.find m l) ∧ u.links = t.links ∨ ret = 0 ∧ t.RenamedTo dir c dir' d (flags.testBit 1) u

/-- A name that must not be replaced is kept. -/
theorem FileTree.Renamed.taken {t u : FileTree} {dir dir' x y : Position} {c d : Name} {flags : Nat}
    (plain : flags.testBit 1 = false) (keeps : flags.testBit 0 = true) (other : ¬ (dir' = dir ∧ d = c))
    (target : t.find dir' d = some y) (moves : t.Renamed dir c dir' d flags x u) : u.find dir' d = some y := by
  cases moves with
  | moved _ link =>
    have there : (t.detach dir c x).find dir' d = some y := (setEdge_ne _ other).trans target
    obtain ⟨-, none | replaces⟩ | ⟨rfl, -⟩ := link.cases
    · cases there.symm.trans none
    · rw [keeps] at replaces
      cases replaces
    · exact there
  | exchanged flag => cases plain.symm.trans flag

end

end Sbfs
