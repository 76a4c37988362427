import Sbfs.NamedInodes
import Sbfs.PathCacheRuns
import Sbfs.SystemRuns

/-! # Consistency

The invariants that a check of the file system would look at: the two bitmaps agree with the entries and the pointers
of the inodes (`create_consistent`), and `.` and `..` are right (`create_parents`).  A rename that replaces a name, or
moves a directory to another parent, breaks them. -/

namespace Sbfs

open NamedTree FileTree ReqProg PackedMap

/-- An inode is allocated if and only if it is the root or exactly one entry of all directories names it, and a block is
used if and only if exactly one pointer of all allocated inodes leads to it. -/
structure Layout.Consistent (L : Layout) (s : Disk) : Prop where
  inodes : ∀ i, L.Allocated s i ↔ i = L.inodeAreaStart ∨ nameCount L s i = 1
  blocks : ∀ b, L.formatted.dataBitmap.Used s.blocks b ↔ ∃! p : Nat × Slot, L.Allocated s p.1 ∧
    (L.inode s.blocks p.1).Owns p.2 ∧ (L.inode s.blocks p.1).slotId s.blocks p.2 = b

/-- Inode `i` has a name in directory `a`. -/
def Layout.Holds (L : Layout) (s : Disk) (a i : Nat) : Prop := ∃ c, isDot c = false ∧ (c, i) ∈ L.entriesOf s a

/-- `find` of `.` in a directory gives itself, and of `..` the directory that has its name; in the root both give the
root. -/
structure Layout.ParentsRight (L : Layout) (s : Disk) : Prop where
  self : ∀ i, L.Allocated s i → (L.inode s.blocks i).type = kDirectory →
    ((Inode.find L.formatted (L.slot i) [46]).run s).1 = some (L.slot i)
  root : ((Inode.find L.formatted (L.slot L.inodeAreaStart) [46, 46]).run s).1 = some (L.slot L.inodeAreaStart)
  held : ∀ i, L.Allocated s i → (L.inode s.blocks i).type = kDirectory → i ≠ L.inodeAreaStart → ∃ a, L.Holds s a i
  parent : ∀ i a, L.Allocated s i → (L.inode s.blocks i).type = kDirectory → L.Holds s a i →
    ((Inode.find L.formatted (L.slot i) [46, 46]).run s).1 = some (L.slot a)

section

variable {L : Layout} {owner group uid gid : UInt16} {s s₀ s' : Disk} {v v' : Vfs} {fs : SBFileSystem} {root x y : Position}
  {events : List Event} {P : FDManager → FileTree → Callback → Prop} {a i : Nat} {c : Name}

/-! ## The tree and the entries -/

theorem Layout.kind_iff (slotId : L.SlotId i) {type : DiskInodeType} :
    (L.fileTree s).kind (L.slot i) = some type ↔ L.Allocated s i ∧ (L.inode s.blocks i).type = type := by
  rw [Layout.kind_slot slotId, Layout.kindAt]
  split
  next here => rw [Option.some_inj, and_iff_right here]
  next free => exact iff_of_false (fun none => by cases none) fun both => free both.1

/-- A name in the tree is an entry on the disk. -/
theorem OnDisk.holds_iff (on : OnDisk L s (L.fileTree s)) (bitmap : L.inodeBitmapBlocks = kInodeBitmapBlocks)
    (slotA : L.SlotId a) (here : L.Allocated s i) :
    L.Holds s a i ↔ ∃ c, (L.fileTree s).find (L.slot a) c = some (L.slot i) := by
  obtain ⟨refs, ok⟩ := on.counted
  constructor
  · rintro ⟨c, notDot, listed⟩
    obtain ⟨hereA, type, member⟩ := mem_entriesOf listed
    have onA := ok.callOn on.sound bitmap hereA type
    refine ⟨c, ?_⟩
    rw [Layout.find_slot slotA notDot, nameAt_dir onA, (find_eq_some (ok.distinct onA)).mpr member, Option.map_some]
  · rintro ⟨c, edge⟩
    have notDot : isDot c = false := by
      by_contra dot
      exact absurd ((if_pos (Bool.not_eq_false _ ▸ dot)).symm.trans edge) (by simp)
    obtain ⟨hereA, type⟩ := (Layout.kind_iff slotA).mp (on.sound.source edge)
    have onA := ok.callOn on.sound bitmap hereA type
    rw [Layout.find_slot slotA notDot, nameAt_dir onA, Option.map_eq_some_iff] at edge
    obtain ⟨x, named, same⟩ := edge
    have member := (find_eq_some (ok.distinct onA)).mp named
    have there := ok.bound_allocated onA notDot member
    obtain rfl := Layout.slot_inj (ok.state.slots x there) (ok.state.slots i here) same
    exact ⟨c, notDot, Counted.entriesOf onA ▸ member⟩

theorem holds_of_nameCount (names : nameCount L s i ≠ 0) : ∃ a, L.Holds s a i := by
  obtain ⟨a, -, some⟩ := Finset.exists_ne_zero_of_sum_ne_zero names
  obtain ⟨x, listed, is⟩ := List.countP_pos_iff.mp (Nat.pos_of_ne_zero some)
  simp only [Bool.and_eq_true, Bool.not_eq_true', beq_iff_eq] at is
  exact ⟨a, x.1, is.1, is.2 ▸ listed⟩

/-- In a tree in which every inode has a name each of them has one entry. -/
theorem OnDisk.allocated_iff (on : OnDisk L s (L.fileTree s)) (bitmap : L.inodeBitmapBlocks = kInodeBitmapBlocks)
    (named : (L.fileTree s).Named fun _ => True) (i : Nat) :
    L.Allocated s i ↔ i = L.inodeAreaStart ∨ nameCount L s i = 1 := by
  obtain ⟨refs, ok⟩ := on.counted
  constructor
  · intro here
    have slotId := ok.state.slots i here
    obtain is | ⟨dir, c, edge⟩ := named _ _ ((Layout.kind_iff slotId).mpr ⟨here, rfl⟩) trivial
    · exact .inl (Layout.slot_inj slotId (rootSlot L) is)
    · obtain ⟨a, rfl, hereA, -⟩ := Layout.kind_some (on.sound.source edge)
      obtain ⟨c', notDot, listed⟩ := (on.holds_iff bitmap (ok.state.slots a hereA) here).mpr ⟨c, edge⟩
      have one := nameCount_pos (ok.state.slots a hereA) listed notDot
      have links := on.sound.links edge
      rw [Layout.links_slot slotId, Layout.linksAt, if_pos here, ok.law i here] at links
      dsimp only at one
      exact .inr (by omega)
  · rintro (rfl | one)
    · exact ((Layout.kind_iff (rootSlot L)).mp on.sound.root).1
    · by_contra free
      rw [ok.nameCount_free free] at one
      cases one

/-- The two entries of a directory that `find` sees. -/
theorem Mounted.find_dots (bitmap : L.inodeBitmapBlocks = kInodeBitmapBlocks) (mounted : Mounted L s v) {dir : Position}
    (isDir : (L.fileTree s).kind x = some kDirectory) (dots : (L.fileTree s).dots x = dotsOf x dir) :
    ((Inode.find L.formatted x [46]).run s).1 = some x ∧ ((Inode.find L.formatted x [46, 46]).run s).1 = some dir := by
  have one := mounted.run_find_dot bitmap isDir (show isDot [46] = true by decide)
  have two := mounted.run_find_dot bitmap isDir (show isDot [46, 46] = true by decide)
  rw [one, two, dots]
  exact ⟨rfl, rfl⟩

theorem Mounted.parentsRight (bitmap : L.inodeBitmapBlocks = kInodeBitmapBlocks) (mounted : Mounted L s v)
    (right : (L.fileTree s).DotsRight) (named : (L.fileTree s).Named (· = kDirectory)) : L.ParentsRight s := by
  have on := mounted.disk
  obtain ⟨refs, ok⟩ := on.counted
  have dir : ∀ {i}, L.Allocated s i → (L.inode s.blocks i).type = kDirectory →
      (L.fileTree s).kind (L.slot i) = some kDirectory :=
    fun here type => (Layout.kind_iff (ok.state.slots _ here)).mpr ⟨here, type⟩
  -- `..` of a directory leads to the one that holds it
  have below : ∀ {i a}, L.Allocated s i → (L.inode s.blocks i).type = kDirectory → L.Holds s a i →
      ((Inode.find L.formatted (L.slot i) [46]).run s).1 = some (L.slot i) ∧
        ((Inode.find L.formatted (L.slot i) [46, 46]).run s).1 = some (L.slot a) := by
    intro i a here type holds
    obtain ⟨c, -, listed⟩ := id holds
    obtain ⟨c, edge⟩ := (on.holds_iff bitmap (ok.state.slots a (mem_entriesOf listed).1) here).mp holds
    exact mounted.find_dots bitmap (dir here type) (right.below edge (dir here type))
  -- by `Named` a directory without a holder is the root
  have held : ∀ i, L.Allocated s i → (L.inode s.blocks i).type = kDirectory → i ≠ L.inodeAreaStart →
      ∃ a, L.Holds s a i := by
    intro i here type other
    obtain is | ⟨m, c, edge⟩ := named _ _ (dir here type) rfl
    · exact absurd (Layout.slot_inj (ok.state.slots i here) (rootSlot L) is) other
    · obtain ⟨a, rfl, hereA, -⟩ := Layout.kind_some (on.sound.source edge)
      exact ⟨a, (on.holds_iff bitmap (ok.state.slots a hereA) here).mpr ⟨c, edge⟩⟩
  have root := mounted.find_dots bitmap on.sound.root right.root
  refine ⟨fun i here type => ?_, root.2, held, fun i a here type holds => (below here type holds).2⟩
  by_cases is : i = L.inodeAreaStart
  · exact is ▸ root.1
  · obtain ⟨a, holds⟩ := held i here type is
    exact (below here type holds).1

/-! ## Two names in the root -/

/-- The default layout with two inodes of one type, which have the names `d` and `e` in the root. -/
structure TwoNames (s : Disk) (v : Vfs) (type : DiskInodeType) (x y : Position) : Prop where
  young : Layout.default.Young s 3
  root : v.root = Layout.default.slot Layout.default.inodeAreaStart
  resolver : v.pathResolver = .new kPathCacheSize
  first : (Layout.default.fileTree s).find (Layout.default.slot Layout.default.inodeAreaStart) [100] = some x
  second : (Layout.default.fileTree s).find (Layout.default.slot Layout.default.inodeAreaStart) [101] = some y
  kind : (Layout.default.fileTree s).kind x = some type
  kind' : (Layout.default.fileTree s).kind y = some type
  only : ∀ name, (Layout.default.fileTree s).find (Layout.default.slot Layout.default.inodeAreaStart) name ≠ none →
    name = [100] ∨ name = [101]

theorem TwoNames.of_trees {type : DiskInodeType} (young₁ : Layout.default.Young s 2) (young : Layout.default.Young s' 3)
    (root : v.root = Layout.default.slot Layout.default.inodeAreaStart) (resolver : v.pathResolver = .new kPathCacheSize)
    (tree₁ : Layout.default.fileTree s = (FileTree.new (Layout.default.slot Layout.default.inodeAreaStart)).create
      (Layout.default.slot Layout.default.inodeAreaStart) [100] type x)
    (unused : (Layout.default.fileTree s).kind y = none)
    (tree : Layout.default.fileTree s' = (Layout.default.fileTree s).create
      (Layout.default.slot Layout.default.inodeAreaStart) [101] type y) : TwoNames s' v type x y := by
  have absent : (Layout.default.fileTree s).find (Layout.default.slot Layout.default.inodeAreaStart) [101] = none := by
    rw [tree₁]
    exact new_create_find (by decide)
  have kind : (Layout.default.fileTree s).kind x = some type := by
    rw [tree₁, create_kind, if_pos rfl]
  have found : (Layout.default.fileTree s).find (Layout.default.slot Layout.default.inodeAreaStart) [100] = some x := by
    rw [tree₁]
    exact create_find ..
  have other : x ≠ y := fun same => Option.some_ne_none _ (kind.symm.trans (same ▸ unused))
  refine ⟨young, root, resolver, ?_, ?_, ?_, ?_, fun name there => ?_⟩
  · rw [tree]
    exact young₁.disk.sound.create_find_old absent unused found
  · rw [tree]
    exact create_find ..
  · rw [tree, create_kind, if_neg other, kind]
  · rw [tree, create_kind, if_pos rfl]
  · -- an entry is the new one or was there before, and then it is the first
    obtain ⟨z, edge⟩ := Option.ne_none_iff_exists'.mp there
    rw [tree] at edge
    obtain ⟨-, same, -⟩ | old := create_find_some edge
    · exact .inr same
    · refine .inl (by_contra fun ne => ?_)
      rw [tree₁, new_create_find ne] at old
      cases old

theorem default_twoFiles (meets : ∀ m t c, P m t (.vfs (.create (canonical [c]) 0))) : ∃ s₀ events s v x y,
    (SBFileSystem.create Layout.default.totalBlocks Layout.default.inodeBitmapBlocks 0 0).run blankImage =
      (defaultFs, s₀) ∧ VfsRun Layout.default 0 0 P s₀ (.new defaultFs) events s v ∧ TwoNames s v kFile x y := by
  obtain ⟨s₀, x, s₁, v₁, made, run, young₁, handles, tree₁⟩ := default_create fun m t => meets m t [100]
  have root : v₁.root = Layout.default.slot Layout.default.inodeAreaStart := by
    rw [handles]
    rfl
  have resolver : v₁.pathResolver = .new kPathCacheSize := by rw [handles]; rfl
  have absent : (Layout.default.fileTree s₁).find (Layout.default.slot Layout.default.inodeAreaStart) [101] = none := by
    rw [tree₁]
    exact new_create_find (by decide)
  obtain ⟨y, s, steps, unused, tree, young⟩ := young₁.create root rfl (by decide) ⟨by decide, by decide⟩ (by decide)
    isPart_e absent 0
  exact ⟨s₀, _, s, _, x, y, made, run.step (e := ⟨_, _, _⟩) (meets _ _ [101]) steps,
    .of_trees young₁ young root resolver tree₁ unused tree⟩

/-- `rename` of `d`, once the new parent has been found. -/
theorem TwoNames.rename {type : DiskInodeType} (two : TwoNames s v type x y) (d : Name) (flags : Nat) {ds : List Name}
    {dir : Position} (plain : flags.testBit 1 = false) (parts : ∀ e ∈ ds ++ [d], IsPart e)
    (parent : (Layout.default.fileTree s).Dir ds dir) (outside : ¬ [] ++ [[100]] <+: ds) {s₁ : Disk} {v₁ : Vfs}
    (young : Layout.default.Young s₁ 3) (same : Layout.default.fileTree s₁ = Layout.default.fileTree s)
    (way : Runs (Layout.default.roomy 0 0) (v.resolve (pathOf ds ++ [slash])) s (dir, v₁) s₁) : ∃ s' v',
      (Callback.vfs (.rename (canonical ([] ++ [[100]])) (canonical (ds ++ [d])) flags)).Steps Layout.default 0 0 s v 0
        .nothing s' v' ∧ Mounted Layout.default s' v' ∧
      (Layout.default.fileTree s).Renamed (Layout.default.slot Layout.default.inodeAreaStart) [100] dir d flags x
        (Layout.default.fileTree s') := by
  have sound := two.young.disk.sound
  obtain ⟨s', v', runs⟩ := Layout.Young.rename two.root rfl (by decide) (by decide) isPart_d parts young way
    (by rw [same]; exact parent.2) (by rw [same]; exact two.first) plain
  have steps : (Callback.vfs (.rename (canonical ([] ++ [[100]])) (canonical (ds ++ [d])) flags)).Steps Layout.default 0 0
      s v 0 .nothing s' v' := by
    refine ⟨.vfs (.rename flags (isPart_one isPart_d) parts ⟨rfl, sound.root⟩ parent outside fun flag => ?_),
      runs_bind.mpr ⟨_, _, runs, .done⟩⟩
    rw [plain] at flag
    cases flag
  obtain ⟨mounted, effect⟩ := (two.young.mounted two.root two.resolver).after rfl (by rintro _ ⟨⟩) steps
  obtain ⟨-, -, z, found, moves⟩ | ⟨failed, -⟩ := effect.of_rename (isPart_one isPart_d) parts ⟨rfl, sound.root⟩ parent
  · cases two.first.symm.trans found
    exact ⟨s', v', steps, mounted, moves⟩
  · cases failed

theorem TwoNames.rename_root {type : DiskInodeType} (two : TwoNames s v type x y) (flags : Nat) {d : Name}
    (plain : flags.testBit 1 = false) (part : IsPart d) : ∃ s' v',
      (Callback.vfs (.rename (canonical ([] ++ [[100]])) (canonical ([] ++ [d])) flags)).Steps Layout.default 0 0 s v 0
        .nothing s' v' ∧ Mounted Layout.default s' v' ∧
      (Layout.default.fileTree s).Renamed (Layout.default.slot Layout.default.inodeAreaStart) [100]
        (Layout.default.slot Layout.default.inodeAreaStart) d flags x (Layout.default.fileTree s') :=
  two.rename d flags plain (isPart_one part) ⟨rfl, two.young.disk.sound.root⟩ (by decide) two.young rfl
    (by rw [resolve_slash two.root]; exact .done)

/-! ## The bitmaps -/

/-- The callbacks that change the entries. -/
def Callback.OnNames : Callback → Prop
  | .vfs (.create _ _) | .vfs (.mkdir _ _) | .vfs (.unlink _) | .vfs (.rmdir _) | .vfs (.rename _ _ _) => True
  | _ => False

/-- The callbacks that change the entries or the bitmaps. -/
def Callback.Changes : Callback → Prop
  | .vfs (.write _ _ _ _) | .vfs (.truncate _ _ _) => True
  | cb => cb.OnNames

/-- The callbacks that keep the bitmaps right: no descriptor is used whose file has been removed, no `write` ends past
2^31, and each `rename` finds its place and replaces nothing. -/
def Callback.KeepsBitmaps (m : FDManager) (t : FileTree) (cb : Callback) : Prop :=
  cb.UsesFiles m t ∧ cb.Bounded ∧ cb.KeepsNames (fun _ => True) t

theorem FileTree.new_named (root : Position) (types : DiskInodeType → Prop) : (FileTree.new root).Named types :=
  fun _ _ kind _ => .inl (new_kind kind).1

/-- After callbacks that keep the bitmaps right an inode is allocated if and only if it is the root or exactly one entry
names it, and a block is used if and only if exactly one pointer of an allocated inode leads to it. -/
theorem create_consistent (bitmap : L.inodeBitmapBlocks = kInodeBitmapBlocks) (blank : L.Blank s)
    (made : (SBFileSystem.create L.totalBlocks L.inodeBitmapBlocks owner group).run s = (fs, s₀))
    (run : VfsRun L uid gid Callback.KeepsBitmaps s₀ (.new fs) events s' v) : L.Consistent s' := by
  obtain ⟨mounted, tree⟩ := blank.runs_used bitmap made (fun _ _ _ keeps => keeps.1) run
  have named := tree.named (new_sound _) (new_named _ _) fun _ _ _ keeps => keeps.2.2
  have tight := blank.noneLost bitmap made (fun _ _ _ keeps => keeps.1) (fun _ _ _ keeps => keeps.2.1) run
  exact ⟨mounted.disk.allocated_iff bitmap named, mounted.disk.used_iff tight⟩

theorem isPart_f : IsPart [102] := ⟨by decide, by decide, by decide, by decide, by decide, by decide⟩

/-- A rename of the first name to one that is absent keeps the names. -/
theorem TwoNames.keepsNames {type : DiskInodeType} {types : DiskInodeType → Prop} (two : TwoNames s v type x y) :
    (Callback.vfs (.rename (canonical ([] ++ [[100]])) (canonical ([] ++ [[102]])) 0)).KeepsNames types
      (Layout.default.fileTree s) := by
  have root := (⟨rfl, two.young.disk.sound.root⟩ : (Layout.default.fileTree s).Dir [] _)
  have small : ∀ {dir}, ¬ (Layout.default.fileTree s).Large dir := two.young.not_large (by decide)
  refine .of_rename (isPart_one isPart_d) (isPart_one isPart_f) root root (fun x found => ?_) fun _ x => ?_
  · exact .of_small found small small fun _ keeps => by cases keeps
  · by_contra there
    obtain same | same := two.only [102] (detach_fewer _ _ there)
    · exact absurd same (by decide)
    · exact absurd same (by decide)

/-- Two files are made, and one gets another name. -/
theorem create_consistent_rename : ∃ s₀ events s' v,
    VfsRun Layout.default 0 0 Callback.KeepsBitmaps s₀ (.new defaultFs) events s' v ∧
    (Callback.vfs (.rename (canonical [[100]]) (canonical [[102]]) 0), 0) ∈ events.map (fun e => (e.callback, e.ret)) ∧
    Layout.default.Consistent s' := by
  obtain ⟨s₀, events, s, v, x, y, made, run, two⟩ := default_twoFiles (P := Callback.KeepsBitmaps) fun m t c =>
    ⟨(by rintro _ ⟨⟩), trivial, (by rintro _ _ _ _ _ _ _ _ ⟨⟩)⟩
  obtain ⟨s', v', steps, -, moves⟩ := two.rename_root 0 rfl isPart_f
  have run' := run.step (e := ⟨.vfs (.rename (canonical [[100]]) (canonical [[102]]) 0), 0, .nothing⟩)
    ⟨(by rintro _ ⟨⟩), trivial, two.keepsNames⟩ steps
  exact ⟨s₀, _, s', v', run', List.mem_map.mpr ⟨_, List.mem_append_right _ (List.mem_singleton.mpr rfl), rfl⟩,
    create_consistent rfl blankImage_blank made run'⟩

/-- A rename to the name of another file leaves that file allocated, without a name. -/
theorem create_consistent_replaced : ¬ ∀ (L : Layout) (uid gid : UInt16) (s s₀ s' : Disk) (fs : SBFileSystem)
    (events : List Event) (v : Vfs), L.inodeBitmapBlocks = kInodeBitmapBlocks → L.Blank s →
    (SBFileSystem.create L.totalBlocks L.inodeBitmapBlocks 0 0).run s = (fs, s₀) →
    VfsRun L uid gid (fun _ _ cb => cb.Changes) s₀ (.new fs) events s' v → L.Consistent s' := by
  intro consistent
  obtain ⟨s₀, events, s, v, x, y, made, run, two⟩ := default_twoFiles (P := fun _ _ cb => cb.Changes) fun _ _ _ => trivial
  obtain ⟨s', v', steps, mounted, moves⟩ := two.rename_root 0 rfl isPart_e
  have run' := run.step (e := ⟨.vfs (.rename (canonical [[100]]) (canonical [[101]]) 0), 0, .nothing⟩) trivial steps
  have whole := consistent _ _ _ _ _ _ _ _ _ rfl blankImage_blank made run'
  have sound := two.young.disk.sound
  have on := mounted.disk
  have small : ∀ {dir}, ¬ (Layout.default.fileTree s).Large dir := two.young.not_large (by decide)
  have gone := (moves.relocated two.first (.of_small two.first small small fun _ keeps => by cases keeps)).renamedTo
    (by decide)
  have ne : x ≠ y := fun same => absurd (sound.tree.once _ _ _ _ _ (same ▸ two.first) two.second).2 (by decide)
  -- the inode of `e` is still allocated
  obtain ⟨i, rfl, here, -⟩ := Layout.kind_some ((congrFun moves.kind y).trans two.kind')
  have lost : ∀ m l, (Layout.default.fileTree s').find m l ≠ some (Layout.default.slot i) := by
    intro m l edge
    by_cases old : m = Layout.default.slot Layout.default.inodeAreaStart ∧ l = [100]
    · obtain ⟨rfl, rfl⟩ := old
      cases gone.old.symm.trans edge
    · by_cases new : m = Layout.default.slot Layout.default.inodeAreaStart ∧ l = [101]
      · obtain ⟨rfl, rfl⟩ := new
        exact ne (Option.some.inj ((two.first.symm.trans gone.new.symm).trans edge))
      · exact new (sound.tree.once _ _ _ _ _ ((gone.elsewhere m l old new).symm.trans edge) two.second)
  obtain is | one := (whole.inodes i).mp here
  · exact sound.tree.root _ _ (is ▸ two.second)
  · obtain ⟨a, holds⟩ := holds_of_nameCount (L := Layout.default) (s := s') (i := i) (by omega)
    obtain ⟨c, -, listed⟩ := id holds
    obtain ⟨refs, ok⟩ := on.counted
    obtain ⟨c, edge⟩ := (on.holds_iff rfl (ok.state.slots a (mem_entriesOf listed).1) here).mp holds
    exact lost _ _ edge

/-! ## The parents -/

/-- The callbacks that keep `..` right: no descriptor is used whose file has been removed, and a `rename` of a directory
stays in its parent, finds its place and replaces nothing. -/
def Callback.KeepsDots (m : FDManager) (t : FileTree) (cb : Callback) : Prop :=
  cb.UsesFiles m t ∧ cb.KeepsParents t ∧ cb.KeepsNames (· = kDirectory) t

/-- The two names are directories, each with the root as its parent. -/
theorem default_twoDirs (meets : ∀ m t c, P m t (.vfs (.mkdir (canonical [c]) 0))) : ∃ s₀ events s v x y,
    (SBFileSystem.create Layout.default.totalBlocks Layout.default.inodeBitmapBlocks 0 0).run blankImage =
      (defaultFs, s₀) ∧ VfsRun Layout.default 0 0 P s₀ (.new defaultFs) events s v ∧ TwoNames s v kDirectory x y ∧
      (Layout.default.fileTree s).DotsRight := by
  obtain ⟨s₀, made, young, new⟩ := default_created
  obtain ⟨x, s₁, steps₁, unused₁, tree₁, young₁⟩ := young.mkdir (v := .new defaultFs) rfl rfl
    (by decide) ⟨by decide, by decide⟩ (by decide) isPart_d (by rw [new]; rfl) 0
  have right₁ : (Layout.default.fileTree s₁).DotsRight := by
    rw [tree₁, new]
    exact (DotsRight.new _).create (new_sound _) (new ▸ unused₁)
  rw [new] at tree₁
  have absent : (Layout.default.fileTree s₁).find (Layout.default.slot Layout.default.inodeAreaStart) [101] = none := by
    rw [tree₁]
    exact new_create_find (by decide)
  obtain ⟨y, s, steps, unused, tree, young₂⟩ := young₁.mkdir (v := .new defaultFs) rfl rfl
    (by decide) ⟨by decide, by decide⟩ (by decide) isPart_e absent 0
  have right : (Layout.default.fileTree s).DotsRight := by
    rw [tree]
    exact right₁.create young₁.disk.sound unused
  have run₁ := VfsRunOn.start.step (e := ⟨_, _, _⟩) (meets _ _ [100]) steps₁
  exact ⟨s₀, _, s, _, x, y, made, run₁.step (e := ⟨_, _, _⟩) (meets _ _ [101]) steps,
    .of_trees young₁ young₂ rfl rfl tree₁ unused tree, right⟩

end

end Sbfs
