import Sbfs.CachedRuns
import Sbfs.SuperBlock

/-! # From one mount to the next

A process formats the disk file or opens it, serves callbacks, and writes its cache back when it is unmounted.  As
long as block 0 is spared, the next process finds the tree that the last one has left, with all descriptors closed
(`sessions_refine`), whatever the sizes of their caches. -/

namespace Sbfs

open ReqProg FileTree Machine

/-- The disk that a file holds. -/
def RawDisk.flat (file : RawDisk) : Disk where
  count := file.count
  blocks := file.blocks
  writes := []
  clock _ := 0
  syncs _ := true

/-- `sb_destroy`: nobody looks at the result of `sync_all`. -/
def Vfs.sbDestroy : Prog Unit := do
  let _ ← DevProg.syncBlks
  return ()

/-- A disk file that a process has unmounted. -/
structure Unmounted (L : Layout) (file : RawDisk) : Prop where
  steady : ∀ n, file.faults n = false
  small : file.count < 4294967296
  has : HasSuper L file.flat
  disk : OnDisk L file.flat (L.fileTree file.flat)

/-- One process after the other: the first formats the file and the others open it, each with a cache of its own.
All requests are harmless, and the callbacks meet a condition on the descriptors and the tree. -/
inductive Sessions (L : Layout) (P : FDManager → FileTree → Callback → Prop) (file₀ : RawDisk) :
    List (List Event) → RawDisk → Prop
  | created {cacheSize : Nat} {clock : Nat → Nat} {owner group uid gid : UInt16} {fs : SBFileSystem} {m₀ m m' : Machine}
      {events : List Event} {v : Vfs} (capacity : kBlockSize ≤ cacheSize)
      (made : (SBFileSystem.create L.totalBlocks L.inodeBitmapBlocks owner group).interp Machine.handler
        (.new cacheSize file₀ clock) = (fs, m₀))
      (run : VfsRunOn L uid gid (InodeReq.Harmless L) Machine.handler disk P m₀ (.new fs) events m v)
      (destroyed : Vfs.sbDestroy.interp Machine.handler m = ((), m')) : Sessions L P file₀ [events] m'.dev.disk
  | opened {days : List (List Event)} {file : RawDisk} {cacheSize : Nat} {clock : Nat → Nat} {uid gid : UInt16}
      {fs : SBFileSystem} {m₀ m m' : Machine} {events : List Event} {v : Vfs} (before : Sessions L P file₀ days file)
      (capacity : kBlockSize ≤ cacheSize)
      (found : SBFileSystem.open'.interp Machine.handler (.new cacheSize file clock) = (some fs, m₀))
      (run : VfsRunOn L uid gid (InodeReq.Harmless L) Machine.handler disk P m₀ (.new fs) events m v)
      (destroyed : Vfs.sbDestroy.interp Machine.handler m = ((), m')) :
      Sessions L P file₀ (days ++ [events]) m'.dev.disk

/-- Runs of the file system on trees, with all descriptors closed in between. -/
inductive TreeDays (P : FDManager → FileTree → Callback → Prop) (t₀ : FileTree) : List (List Event) → FileTree → Prop
  | first {events : List Event} {m : FDManager} {t : FileTree} (run : TreeRun P .new t₀ events m t) :
      TreeDays P t₀ [events] t
  | next {days : List (List Event)} {events : List Event} {m : FDManager} {t t' : FileTree}
      (before : TreeDays P t₀ days t) (run : TreeRun P .new t events m t') : TreeDays P t₀ (days ++ [events]) t'

/-- All descriptors are closed. -/
def PathFs.closed (fs : PathFs) : PathFs := { fs with handle := fun _ => none }

/-- Runs of the file system on paths, with all descriptors closed in between. -/
inductive PathDays : List (List Event) → PathFs → Prop
  | first {events : List Event} {fs : PathFs} (run : PathRun .new events fs) : PathDays [events] fs
  | next {days : List (List Event)} {events : List Event} {fs fs' : PathFs} (before : PathDays days fs)
      (run : PathRun fs.closed events fs') : PathDays (days ++ [events]) fs'

section

variable {L : Layout} {s s' : Disk} {t t₀ : FileTree} {file file₀ : RawDisk} {m m₀ m' : Machine} {v v₀ : Vfs}
  {P : FDManager → FileTree → Callback → Prop} {days : List (List Event)} {events : List Event} {uid gid : UInt16}
  {cacheSize : Nat} {clock : Nat → Nat}

/-! ## The file -/

/-- The tree is one of the blocks and their number. -/
theorem OnDisk.congr (count : s.count = s'.count) (blocks : s.blocks = s'.blocks) (on : OnDisk L s t) : OnDisk L s' t := by
  obtain ⟨_, _, _, _, _⟩ := s
  obtain ⟨_, _, _, _, _⟩ := s'
  cases count
  cases blocks
  obtain ⟨tree, ⟨refs, ⟨⟨device, failId, slots, segment, map, apart⟩, dirs, targets, outside, law⟩⟩, sound⟩ := on
  exact ⟨tree, ⟨refs, ⟨device, failId, slots, segment, map, apart⟩, dirs, targets, outside, law⟩, sound⟩

/-- What a file has after `sync_all`. -/
theorem Machine.Shows.destroyed (shows : m.Shows s) (destroyed : Vfs.sbDestroy.interp Machine.handler m = ((), m')) :
    (∀ n, m'.dev.disk.faults n = false) ∧ s.count = m'.dev.disk.flat.count ∧ s.blocks = m'.dev.disk.flat.blocks := by
  obtain ⟨used, inv⟩ := shows.sound.inv
  obtain ⟨dev', eq, inv', same, flushed⟩ := BlockDevice.syncAll_spec inv
  have ends : m' = { m with dev := dev' } := by
    rw [Vfs.sbDestroy, DevProg.interp_bind] at destroyed
    obtain rfl := congrArg Prod.snd destroyed
    simp only [DevProg.syncBlks, DevProg.interp, Machine.handler, serve, eq, Option.map_some]
    rfl
  subst ends
  exact ⟨inv'.steady, shows.count.trans same.count.symm, shows.blocks.trans (funext fun b => (flushed b).symm)⟩

/-- What a process leaves that has started with a tree and then served callbacks. -/
theorem Machine.Sound.unmounts (bitmap : L.inodeBitmapBlocks = kInodeBitmapBlocks) (sound : m.Sound)
    (spares : ∀ m t cb, P m t cb → cb.SparesOpen m t) {α : Type} {p : Prog α} (ids : WritesIds p) {a : α}
    (first : p.interp Machine.handler m = (a, m₀)) {fs : SBFileSystem}
    (starts : ∀ s s₀, m.Shows s → p.run s = (a, s₀) → Mounted L s₀ (.new fs) ∧ HasSuper L s₀ ∧ L.fileTree s₀ = t₀)
    {m₁ : Machine} (run : VfsRunOn L uid gid (InodeReq.Harmless L) Machine.handler disk P m₀ (.new fs) events m₁ v)
    (destroyed : Vfs.sbDestroy.interp Machine.handler m₁ = ((), m')) :
    Unmounted L m'.dev.disk ∧ TreeRun P .new t₀ events v.fdManager (L.fileTree m'.dev.disk.flat) := by
  obtain ⟨s, s₀, s', shows, started, run', shows'⟩ := sound.runs_after
    (fun q s t same harmless => ⟨harmless.1.congr same, harmless.2.congr same⟩) ids first run
  obtain ⟨mounted, has, tree⟩ := starts s s₀ shows started
  have files := Vfs.new_onFiles fs (L.fileTree s₀)
  obtain ⟨plain, keeps⟩ := run'.harmless bitmap mounted files spares
  obtain ⟨mounted', refined⟩ := VfsRun.refines bitmap mounted files spares plain
  obtain ⟨steady, count, blocks⟩ := shows'.destroyed destroyed
  have same := Layout.fileTree_congr (L := L) blocks
  rw [tree, same] at refined
  have small := shows'.sound.small
  rw [← shows'.count, count] at small
  have has' := has.kept keeps
  exact ⟨⟨steady, small, ⟨count ▸ has'.device, blocks ▸ has'.block⟩, same ▸ mounted'.disk.congr count blocks⟩, refined⟩

theorem Unmounted.sound (unmounted : Unmounted L file) (capacity : kBlockSize ≤ cacheSize) (clock : Nat → Nat) :
    (Machine.new cacheSize file clock).Sound :=
  new_sound capacity unmounted.steady unmounted.small clock

/-- What `open` finds. -/
theorem Unmounted.opens (unmounted : Unmounted L file) {s : Disk} (shows : (Machine.new cacheSize file clock).Shows s) :
    SBFileSystem.open'.run s = (some L.created, s) ∧ Mounted L s (.new L.created) ∧ HasSuper L s ∧
      L.fileTree s = L.fileTree file.flat := by
  have count : s.count = file.flat.count := shows.count
  have blocks : s.blocks = file.flat.blocks := shows.blocks
  have has : HasSuper L s := ⟨count ▸ unmounted.has.device, blocks ▸ unmounted.has.block⟩
  have same := Layout.fileTree_congr (L := L) blocks
  have disk : OnDisk L s (L.fileTree s) := same ▸ unmounted.disk.congr count.symm blocks.symm
  exact ⟨has.run_open, ⟨disk, Vfs.new_coherent _ rfl disk.sound.tree⟩, has, same⟩

theorem writesIds_open : WritesIds SBFileSystem.open' := by
  refine DevProg.within_bind.mpr (DevProg.within_readBlk.mpr fun r _ => ?_)
  cases r with
  | none => exact trivial
  | some blk =>
    dsimp only
    split
    · exact trivial
    · exact trivial

/-- A file that has been unmounted can be opened. -/
theorem Unmounted.run_open (unmounted : Unmounted L file) (capacity : kBlockSize ≤ cacheSize) (clock : Nat → Nat) :
    ∃ m₀, SBFileSystem.open'.interp Machine.handler (.new cacheSize file clock) = (some L.created, m₀) ∧
      m₀.logical = file.blocks := by
  have sound := unmounted.sound capacity clock
  obtain ⟨r, m₀, found⟩ : ∃ r m₀, SBFileSystem.open'.interp Machine.handler (.new cacheSize file clock) = (r, m₀) :=
    ⟨_, _, rfl⟩
  obtain ⟨now, foreseen⟩ := foreseen_prog writesIds_open ⟨_, sound.shows fun _ => true⟩ found fun _ => true
  obtain ⟨s', run, shows', -⟩ := foreseen _ (sound.shows now) rfl
  obtain ⟨run', -⟩ := unmounted.opens (sound.shows now)
  cases run.symm.trans run'
  exact ⟨m₀, found, shows'.blocks.symm⟩

/-! ## Sessions -/

/-- The sessions are runs of the file system on trees. -/
theorem Sessions.refines (bitmap : L.inodeBitmapBlocks = kInodeBitmapBlocks) (blank : L.Blank file₀.flat)
    (steady : ∀ n, file₀.faults n = false) (spares : ∀ m t cb, P m t cb → cb.SparesOpen m t)
    (sessions : Sessions L P file₀ days file) :
    Unmounted L file ∧ TreeDays P (.new (L.slot L.inodeAreaStart)) days (L.fileTree file.flat) := by
  induction sessions with
  | @created cacheSize clock owner group uid gid fs m₀ m m' events v capacity made run destroyed =>
    have small : file₀.count < 4294967296 := lt_of_le_of_lt blank.failId (by decide)
    have starts : ∀ s s₀, (Machine.new cacheSize file₀ clock).Shows s →
        (SBFileSystem.create L.totalBlocks L.inodeBitmapBlocks owner group).run s = (fs, s₀) →
        Mounted L s₀ (.new fs) ∧ HasSuper L s₀ ∧ L.fileTree s₀ = .new (L.slot L.inodeAreaStart) := by
      intro s s₀ shows made
      have count : s.count = file₀.flat.count := shows.count
      have blocks : s.blocks = file₀.flat.blocks := shows.blocks
      have fresh : L.Blank s := ⟨count ▸ blank.device, count ▸ blank.areas, count ▸ blank.failId, blocks ▸ blank.inodes,
        blocks ▸ blank.data⟩
      obtain ⟨mounted, tree⟩ := fresh.mounted made
      have device : 0 < s.count := lt_of_lt_of_le (by have := L.someData; omega) fresh.device
      have block := run_create_super device made
      obtain ⟨s₁, made', count', -⟩ : ∃ s', (SBFileSystem.create L.totalBlocks L.inodeBitmapBlocks owner group).run s = _ ∧ _ :=
        run_create_fresh fresh.device fresh.inodes fresh.data
      cases made.symm.trans made'
      exact ⟨mounted, ⟨count' ▸ device, block⟩, tree⟩
    obtain ⟨unmounted, refined⟩ := (new_sound capacity steady small clock).unmounts bitmap spares
      (SBFileSystem.writesIds_create _ _ _ _) made starts run destroyed
    exact ⟨unmounted, .first refined⟩
  | @opened days file cacheSize clock uid gid fs m₀ m m' events v before capacity found run destroyed ih =>
    obtain ⟨unmounted, refined⟩ := ih
    obtain ⟨m₁, found', -⟩ := unmounted.run_open capacity clock
    cases found.symm.trans found'
    have starts : ∀ s s₀, (Machine.new cacheSize file clock).Shows s →
        SBFileSystem.open'.run s = (some L.created, s₀) →
        Mounted L s₀ (.new L.created) ∧ HasSuper L s₀ ∧ L.fileTree s₀ = L.fileTree file.flat := by
      intro s s₀ shows opened
      obtain ⟨opened', mounted, has, tree⟩ := unmounted.opens shows
      cases opened.symm.trans opened'
      exact ⟨mounted, has, tree⟩
    obtain ⟨unmounted', refined'⟩ := (unmounted.sound capacity clock).unmounts bitmap spares writesIds_open found starts
      run destroyed
    exact ⟨unmounted', .next refined refined'⟩

/-! ## Paths -/

theorem FDManager.get_new (fh : Nat) : FDManager.new.get fh = none := by
  rw [FDManager.get]
  split
  · rfl
  · rfl

theorem Views.closed {m : FDManager} {paths : PathFs} (views : Views m t paths) : Views .new t paths.closed := by
  refine ⟨views.node, fun fh path => iff_of_false (fun none => by cases none) ?_⟩
  rintro ⟨x, got, -⟩
  rw [FDManager.get_new] at got
  cases got

theorem Orderly.closed {m : FDManager} (orderly : Orderly m t) : Orderly .new t :=
  ⟨orderly.sound, orderly.rooted, orderly.dotted, orderly.typed, fun fh inode got => by
    rw [FDManager.get_new] at got
    cases got⟩

/-- Runs of calm callbacks are runs of the file system on paths. -/
theorem TreeDays.paths {root : Position} (days' : TreeDays Callback.Calm (.new root) days t)
    (few : ∀ events ∈ days, events.length < 18446744073709551606) :
    Orderly .new t ∧ ∃ paths, PathDays days paths ∧ Views .new t paths.closed := by
  induction days' with
  | first run =>
    obtain ⟨orderly, paths, ran, views⟩ := run.paths (.new root defaultFs) (.new root defaultFs)
      (Vfs.new_fresh defaultFs) (fun _ _ _ calm => calm.2) (fun _ _ _ calm => calm.1) (few _ (List.mem_singleton_self _))
    exact ⟨orderly.closed, paths, .first ran, views.closed⟩
  | next before run ih =>
    obtain ⟨orderly, paths, ran, views⟩ := ih fun events member => few events (List.mem_append_left _ member)
    obtain ⟨orderly', paths', ran', views'⟩ := run.paths orderly views (Vfs.new_fresh defaultFs)
      (fun _ _ _ calm => calm.2) (fun _ _ _ calm => calm.1) (few _ (List.mem_append_right _ (List.mem_singleton_self _)))
    exact ⟨orderly'.closed, paths', .next ran ran', views'.closed⟩

/-! ## The default size -/

theorem blankFile_blank : Layout.default.Blank blankFile.flat :=
  ⟨le_refl 4194304, by decide, by decide, blankImage_noBit _, blankImage_noBit _⟩

/-- A process that makes a directory, and one that makes nothing. -/
theorem default_sessions (meets : ∀ m t, P m t (.vfs (.mkdir (canonical [[100]]) 0)))
    (spares : ∀ m t cb, P m t cb → cb.SparesOpen m t) :
    ∃ file, Sessions Layout.default P blankFile [[⟨.vfs (.mkdir (canonical [[100]]) 0), 0, .nothing⟩], []] file := by
  obtain ⟨m₀, m, v, made, run⟩ := machine_mkdir (P := P) (C := InodeReq.Harmless Layout.default)
    (fun q s t same harmless => ⟨harmless.1.congr same, harmless.2.congr same⟩) (fun _ _ _ _ _ covered => ⟨covered, trivial⟩)
    meets fun _ => 0
  obtain ⟨m', destroyed⟩ : ∃ m', Vfs.sbDestroy.interp Machine.handler m = ((), m') := ⟨_, rfl⟩
  have first : Sessions Layout.default P blankFile _ m'.dev.disk := .created (le_refl 4096) made run destroyed
  obtain ⟨unmounted, -⟩ := first.refines rfl blankFile_blank (fun _ => rfl) spares
  obtain ⟨m₁, found, -⟩ := unmounted.run_open (le_refl 4096) fun _ => 0
  obtain ⟨m₂, destroyed'⟩ : ∃ m₂, Vfs.sbDestroy.interp Machine.handler m₁ = ((), m₂) := ⟨_, rfl⟩
  have idle : VfsRunOn Layout.default 0 0 (InodeReq.Harmless Layout.default) Machine.handler disk P m₁
      (.new Layout.default.created) [] m₁ (.new Layout.default.created) := .start
  exact ⟨_, .opened first (le_refl 4096) found idle destroyed'⟩

/-! ## The results -/

/-- After any number of processes the file can be opened again, and `open` returns what `create` returned. -/
theorem sessions_open (bitmap : L.inodeBitmapBlocks = kInodeBitmapBlocks) (blank : L.Blank file₀.flat)
    (steady : ∀ n, file₀.faults n = false) (sessions : Sessions L Callback.SparesOpen file₀ days file)
    (capacity : kBlockSize ≤ cacheSize) (clock : Nat → Nat) :
    ∃ m₀, SBFileSystem.open'.interp Machine.handler (.new cacheSize file clock) = (some L.created, m₀) ∧
      m₀.logical = file.blocks := by
  obtain ⟨unmounted, -⟩ := sessions.refines bitmap blank steady fun _ _ _ spares => spares
  exact unmounted.run_open capacity clock

theorem sessions_open_mkdir : ∃ (file : RawDisk) (m₀ : Machine),
    SBFileSystem.open'.interp Machine.handler (.new 4096 file fun _ => 0) = (some Layout.default.created, m₀) ∧
      m₀.logical = file.blocks := by
  obtain ⟨file, sessions⟩ := default_sessions (P := Callback.SparesOpen) (fun _ _ => trivial) fun _ _ _ spares => spares
  exact ⟨file, sessions_open rfl blankFile_blank (fun _ => rfl) sessions (le_refl 4096) fun _ => 0⟩

end

end Sbfs
