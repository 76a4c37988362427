import Sbfs.BlockIds
import Sbfs.Fsync
import Sbfs.SystemRuns

/-! # Runs on the cached device

The callbacks on a block device with its cache.  On a disk without faults the cache cannot be seen: whatever has been
cached, evicted and written back, a run has the results and outputs that it has on an array of blocks
(`VfsRunOn.foreseen`), so that what is proved of runs on the array holds of the program. -/

namespace Sbfs

open ReqProg

namespace Machine

/-- The disk that the programs see. -/
def disk (m : Machine) : Disk where
  count := m.dev.disk.count
  blocks := m.logical
  writes := []
  clock := m.clock
  syncs _ := true

/-- A machine that has been switched on. -/
def new (cacheSize : Nat) (file : RawDisk) (clock : Nat → Nat) : Machine := { dev := .new cacheSize file, clock }

/-- The cache is in order, and `s` is the disk that the programs see. -/
structure Shows (m : Machine) (s : Disk) : Prop where
  sound : m.Sound
  count : s.count = m.dev.disk.count
  blocks : s.blocks = m.logical
  clock : s.clock = m.clock

variable {m m' : Machine} {s : Disk}

theorem new_sound {cacheSize : Nat} {file : RawDisk} (capacity : kBlockSize ≤ cacheSize)
    (steady : ∀ n, file.faults n = false) (small : file.count < 4294967296) (clock : Nat → Nat) :
    (new cacheSize file clock).Sound :=
  ⟨⟨0, .init capacity steady⟩, small⟩

theorem Sound.shows (sound : m.Sound) (syncs : Nat → Bool) : m.Shows { m.disk with syncs } := ⟨sound, rfl, rfl, rfl⟩

/-! ## The requests -/

/-- The state of the machine after a request that the device has served. -/
theorem Shows.served (shows : m.Shows s) {dev : BlockDevice} {used : Int} (inv : CacheInv dev used)
    (same : SameContent m.dev dev) : Machine.Shows { m with dev } s :=
  ⟨⟨⟨used, inv⟩, same.count ▸ shows.sound.small⟩, shows.count.trans same.count.symm,
    shows.blocks.trans (funext same.logical).symm, shows.clock⟩

/-- An id past all block ids is on no disk. -/
theorem read_past (sound : m.Sound) {id : Nat} (past : 4294967296 ≤ id) :
    m.dev.read id = some (none, { m.dev with disk := m.dev.disk.tick }) := by
  obtain ⟨used, inv⟩ := sound.inv
  have small := sound.small
  have uncached : m.dev.cache.hashtable id = none := by
    by_contra cached
    obtain ⟨slot, hashed⟩ := Option.ne_none_iff_exists'.mp cached
    have := (inv.hash id slot hashed).2.2.2
    omega
  have outside : m.dev.disk.ready id = false := by
    rw [RawDisk.ready, decide_eq_false (by omega), Bool.false_and]
  simp only [BlockDevice.read, BlockDevice.get, uncached, BlockDevice.readFromDisk, RawDisk.pread, outside,
    Bool.false_eq_true, if_false, Option.bind_eq_bind, Option.bind_some, Option.pure_def]

theorem Shows.read (shows : m.Shows s) (id : Nat) :
    (handler.read id m).1 = (Store.handler.read id s).1 ∧ (handler.read id m).2.Shows s := by
  obtain ⟨used, inv⟩ := shows.sound.inv
  by_cases small : id < 4294967296
  · obtain ⟨dev', used', eq, inv', same, -⟩ := BlockDevice.read_spec inv small
    simp only [handler, Store.handler, serve, eq, shows.count, shows.blocks]
    exact ⟨rfl, shows.served inv' same⟩
  · have past := shows.sound.small
    simp only [handler, Store.handler, serve, read_past shows.sound (Nat.le_of_not_lt small), shows.count]
    refine ⟨(if_neg (by omega)).symm, shows.served inv.tick ⟨fun _ => rfl, rfl, fun _ => .inl rfl⟩⟩

theorem Shows.write (shows : m.Shows s) {id : Nat} (isId : IsBlkId id) (blk : Block) :
    (handler.write id blk m).1 = decide (id < s.count) ∧ (handler.write id blk m).2.Shows (s.put id blk) := by
  obtain ⟨used, inv⟩ := shows.sound.inv
  obtain ⟨dev', used', eq, inv', count, logical, -⟩ := BlockDevice.upsert_spec inv isId blk
  simp only [handler, serve, BlockDevice.write, eq, Option.map_some]
  refine ⟨?_, ⟨⟨used', inv'⟩, count ▸ shows.sound.small⟩, shows.count.trans count.symm, ?_, shows.clock⟩
  · rw [shows.count]
    by_cases inside : id < m.dev.disk.count
    · simp only [inside, if_true, decide_true]
    · simp only [inside, if_false, reduceCtorEq, decide_false]
  · funext b
    rw [Machine.logical, logical b]
    by_cases inside : id < s.count
    · rw [Store.put_blocks_of_lt s blk inside, Function.update_apply, shows.blocks, ← shows.count]
      simp only [inside, and_true]
      rfl
    · have same : (s.put id blk).blocks = s.blocks := if_neg inside
      rw [same, shows.blocks, ← shows.count, if_neg fun both => inside both.2]
      rfl

theorem Shows.sync (shows : m.Shows s) (id : Nat) : (handler.sync id m).2.Shows s := by
  obtain ⟨used, inv⟩ := shows.sound.inv
  obtain ⟨ret, dev', eq, inv', same, -⟩ := BlockDevice.sync_spec inv id
  simp only [handler, serve, eq, Option.map_some]
  exact shows.served inv' same

theorem Shows.syncAll (shows : m.Shows s) : (handler.syncAll m).2.Shows s := by
  obtain ⟨used, inv⟩ := shows.sound.inv
  obtain ⟨dev', eq, inv', same, -⟩ := BlockDevice.syncAll_spec inv
  simp only [handler, serve, eq, Option.map_some]
  exact shows.served inv' same

/-- The machine answers as the disk that it shows. -/
theorem shows_disk : handler.Shows IsBlkId Shows where
  read shows := shows.read _
  inside shows inRange := inRange.trans (shows.count ▸ shows.sound.small)
  write shows isId := shows.write isId _
  sync shows := shows.sync _
  syncAll shows := shows.syncAll
  time shows := ⟨congrFun shows.clock.symm 0, ⟨shows.sound.inv, shows.sound.small⟩, shows.count, shows.blocks,
    congrArg (fun clock n => clock (n + 1)) shows.clock⟩
  hides _ _ _ shows := ⟨shows.sound, shows.count, shows.blocks, shows.clock⟩

end Machine

open Machine

section

variable {L : Layout} {uid gid owner group : UInt16} {fs : SBFileSystem} {m m₀ m' : Machine} {v v₀ v' : Vfs}
  {P : FDManager → FileTree → Callback → Prop} {events : List Event}

/-- What a program does on the machine is foreseen by the disk. -/
theorem foreseen_prog {α : Type} {p : Prog α} (ids : WritesIds p) {a : α} (shown : ∃ s, m.Shows s)
    (run : p.interp Machine.handler m = (a, m')) : Foreseen Shows m (fun s s' => p.run s = (a, s')) m' := by
  have foreseen := shows_disk.foreseen ids shown
  rwa [run] at foreseen

theorem InodeReq.foreseen (q : InodeReq) {r : q.Ans} (shown : ∃ s, m.Shows s)
    (answer : InodeReq.on fs uid gid Machine.handler q m r m') :
    Foreseen Shows m (fun s s' => InodeReq.on fs uid gid Store.handler q s r s') m' := by
  obtain ⟨defined, run⟩ := answer
  exact (foreseen_prog (q.body_writesIds fs uid gid defined) shown run).mono fun s s' _ run => ⟨defined, run⟩

theorem AttrReq.foreseen (q : AttrReq) {r : q.Ans} (shown : ∃ s, m.Shows s)
    (answer : AttrReq.on fs uid gid Machine.handler q m r m') :
    Foreseen Shows m (fun s s' => AttrReq.on fs uid gid Store.handler q s r s') m' := by
  cases q with
  | call q => exact q.foreseen shown answer
  | readInode pos => exact foreseen_prog (writesIds_readInode pos) shown answer
  | writeInode pos d => exact foreseen_prog (writesIds_writeInode pos d) shown answer

theorem ListReq.foreseen (q : ListReq) {r : q.Ans} (shown : ∃ s, m.Shows s)
    (answer : ListReq.on fs uid gid Machine.handler q m r m') :
    Foreseen Shows m (fun s s' => ListReq.on fs uid gid Store.handler q s r s') m' := by
  cases q with
  | call q => exact q.foreseen shown answer
  | listNames inode => exact foreseen_prog (writesIds_listNames uid gid inode) shown answer

/-! ## The callbacks -/

/-- The tree is read off the blocks. -/
theorem Layout.fileTree_congr {s t : Disk} (same : s.blocks = t.blocks) : L.fileTree s = L.fileTree t := by
  obtain ⟨_, _, _, _, _⟩ := s
  obtain ⟨_, _, _, _, _⟩ := t
  cases same
  rfl

theorem InodeReq.Covered.congr {q : InodeReq} {s t : Disk} (same : s.blocks = t.blocks) (covered : q.Covered L s) :
    q.Covered L t := by
  obtain ⟨space, near⟩ := covered
  constructor
  case space =>
    cases q with
    | create dir name type mode => simpa only [HasSpace, recordAt, same] using space
    | link dir name inode replace => simpa only [HasSpace, recordAt, same] using space
    | writeData inode offset buf size => simpa only [HasSpace, recordAt, same] using space
    | resize inode newSize => simpa only [HasSpace, recordAt, same] using space
    | _ => exact trivial
  case near =>
    cases q with
    | resize inode newSize => simpa only [StraysNear, recordAt, same] using near
    | _ => exact trivial

section

variable {C : InodeReq → Disk → Prop} (reads : ∀ q s t, s.blocks = t.blocks → C q s → C q t)

include reads

theorem Callback.MakesOn.foreseen {cb : Callback} {ret : Int} {out : Out} (shown : ∃ s, m.Shows s)
    (makes : cb.MakesOn L uid gid C Machine.handler disk m v ret out m' v') :
    Foreseen Shows m (fun s s' => cb.MakesOn L uid gid C Store.handler id s v ret out s' v') m' := by
  have attrs : ∀ {α : Type} {p : AttrProg α} {a : α},
      Runs (AttrReq.on L.formatted uid gid Machine.handler) p m a m' →
      Foreseen Shows m (fun s s' => Runs (AttrReq.on L.formatted uid gid Store.handler) p s a s') m' :=
    fun runs => runs.foreseen shows_disk.hides (fun q _ _ _ => q.foreseen) shown
  cases cb with
  | vfs call =>
    refine Runs.foreseen shows_disk.hides (fun q u r u' shown answer => ?_) makes shown
    exact (q.foreseen shown answer.2).mono fun s s' shows answer' => ⟨reads q _ _ shows.blocks.symm answer.1, answer'⟩
  | getattr path fi =>
    obtain ⟨st, rfl, runs⟩ := makes
    exact (attrs runs).mono fun s s' _ runs => ⟨st, rfl, runs⟩
  | chmod path mode fi =>
    obtain ⟨rfl, runs⟩ := makes
    exact (attrs runs).mono fun s s' _ runs => ⟨rfl, runs⟩
  | chown path owner group fi =>
    obtain ⟨rfl, runs⟩ := makes
    exact (attrs runs).mono fun s s' _ runs => ⟨rfl, runs⟩
  | utimens path atime mtime fi =>
    obtain ⟨rfl, runs⟩ := makes
    exact (attrs runs).mono fun s s' _ runs => ⟨rfl, runs⟩
  | readdir path =>
    obtain ⟨names, rfl, runs⟩ := makes
    exact (Runs.foreseen shows_disk.hides (fun q _ _ _ => q.foreseen) runs shown).mono
      fun s s' _ runs => ⟨names, rfl, runs⟩

/-- A run on the machine is one on the disk that it shows. -/
theorem VfsRunOn.foreseen (shown : ∃ s, m₀.Shows s)
    (run : VfsRunOn L uid gid C Machine.handler disk P m₀ v₀ events m v) :
    Foreseen Shows m₀ (fun s s' => VfsRunOn L uid gid C Store.handler id P s v₀ events s' v) m := by
  induction run with
  | start => exact (Foreseen.refl Shows m₀).mono fun s s' _ same => by rw [same]; exact .start
  | @step events e m m' v v' before meets steps ih =>
    have here := ih.shown shows_disk.hides shown
    intro later
    obtain ⟨between, made⟩ := steps.makes.foreseen reads here later
    obtain ⟨now, before⟩ := ih between
    refine ⟨now, fun s shows same => ?_⟩
    obtain ⟨s₁, run, shows₁, same₁⟩ := before s shows same
    obtain ⟨s', makes, shows', same'⟩ := made s₁ shows₁ same₁
    have tree : L.fileTree (disk m) = L.fileTree s₁ := Layout.fileTree_congr shows₁.blocks.symm
    exact ⟨s', run.step (tree ▸ meets) ⟨tree ▸ steps.issued, makes⟩, shows', same'⟩
  | evicted before fewer ih => exact ih.mono fun s s' _ run => run.evicted fewer

end

/-- A program and the callbacks after it on a machine in order: some disk that the machine shows at the start has the
same runs, and the machine shows at the end the disk that they end in. -/
theorem Machine.Sound.runs_after {C : InodeReq → Disk → Prop} (reads : ∀ q s t, s.blocks = t.blocks → C q s → C q t)
    {α : Type} {p : Prog α} (ids : WritesIds p) (sound : m.Sound) {a : α} (first : p.interp Machine.handler m = (a, m₀))
    (run : VfsRunOn L uid gid C Machine.handler disk P m₀ v₀ events m' v) :
    ∃ s s₀ s', m.Shows s ∧ p.run s = (a, s₀) ∧ VfsRunOn L uid gid C Store.handler id P s₀ v₀ events s' v ∧
      m'.Shows s' := by
  have shown : ∃ s, m.Shows s := ⟨_, sound.shows fun _ => true⟩
  have foreseen := foreseen_prog ids shown first
  obtain ⟨now, both⟩ := (foreseen.trans (run.foreseen reads (foreseen.shown shows_disk.hides shown))) fun _ => true
  obtain ⟨s', ⟨s₀, first', run'⟩, shows', -⟩ := both _ (sound.shows now) rfl
  exact ⟨_, s₀, s', sound.shows now, first', run', shows'⟩

/-! ## The default size -/

/-- A file of zeros. -/
def blankFile : RawDisk where
  count := 4194304
  blocks _ := Bytes.zero
  faults _ := false
  transfers := 0

/-- A first directory, on a machine that caches one block. -/
theorem machine_mkdir {C : InodeReq → Disk → Prop} (reads : ∀ q s t, s.blocks = t.blocks → C q s → C q t)
    (covers : ∀ dir name type mode s, (InodeReq.create dir name type mode).Covered Layout.default s →
      C (.create dir name type mode) s) (meets : ∀ m t, P m t (.vfs (.mkdir (canonical [[100]]) 0))) (clock : Nat → Nat) :
    ∃ m₀ m' v, (SBFileSystem.create Layout.default.totalBlocks Layout.default.inodeBitmapBlocks 0 0).interp
        Machine.handler (.new 4096 blankFile clock) = (defaultFs, m₀) ∧
      VfsRunOn Layout.default 0 0 C Machine.handler disk P m₀ (.new defaultFs)
        [⟨.vfs (.mkdir (canonical [[100]]) 0), 0, .nothing⟩] m' v := by
  have sound : (Machine.new 4096 blankFile clock).Sound := new_sound (le_refl 4096) (fun _ => rfl) (by decide) clock
  obtain ⟨fs, m₀, made⟩ : ∃ fs m₀, (SBFileSystem.create Layout.default.totalBlocks Layout.default.inodeBitmapBlocks 0 0).interp
    Machine.handler (.new 4096 blankFile clock) = (fs, m₀) := ⟨_, _, rfl⟩
  -- the same on a disk
  have first := foreseen_prog (SBFileSystem.writesIds_create _ _ _ _) ⟨_, sound.shows fun _ => true⟩ made
  obtain ⟨now, first⟩ := first fun _ => true
  obtain ⟨s₀, made', shows₀, -⟩ := first _ (sound.shows now) rfl
  obtain ⟨s₁, fresh', count, fresh⟩ : ∃ s', (SBFileSystem.create Layout.default.totalBlocks Layout.default.inodeBitmapBlocks
      0 0).run { (Machine.new 4096 blankFile clock).disk with syncs := now } = _ ∧ _ ∧ FreshRoot Layout.default s' :=
    run_create_fresh (le_refl 4194304) (blankImage_noBit _) (blankImage_noBit _)
  cases made'.symm.trans fresh'
  have count : s₀.count = 4194304 := count
  have young := fresh.young (count ▸ by decide) (count ▸ by decide)
  have covered := young.covers_create rfl (by decide) ⟨by decide, by decide⟩ (by decide) young.disk.sound.root [100]
    kDirectory 0
  have tree : Layout.default.fileTree (disk m₀) = .new (Layout.default.slot Layout.default.inodeAreaStart) :=
    (Layout.fileTree_congr shows₀.blocks.symm).trans fresh.fileTree
  obtain ⟨⟨r, inode⟩, m', answer⟩ : ∃ r m', InodeReq.on Layout.default.formatted 0 0 Machine.handler
    (.create (Layout.default.slot Layout.default.inodeAreaStart) [100] kDirectory 0) m₀ r m' :=
    ⟨_, _, fun none => (by cases none), rfl⟩
  have root := (FileTree.new_sound (Layout.default.slot Layout.default.inodeAreaStart)).root
  have steps := mkdir_stepsOn (C := C) (v := .new defaultFs) rfl (tree ▸ root) (tree ▸ rfl) isPart_d
    ⟨reads _ _ _ shows₀.blocks (covers _ _ _ _ _ covered), answer⟩
  exact ⟨m₀, m', _, made, .step .start (meets _ _) steps⟩

/-! ## The results -/

end

end Sbfs
