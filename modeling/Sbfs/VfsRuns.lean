import Sbfs.OpenHandles

/-! # Runs of the callbacks

The state between callbacks is the disk with the globals of `vfs.cpp`.  A run refines a run of the abstract file
system with the same callbacks, results and outputs (`VfsRun.refines`), as long as files are not removed while
they are open. -/

namespace Sbfs

section

variable {L : Layout} {uid gid : UInt16} {s s₀ : Disk} {v v₀ : Vfs} {events : List Event}

/-- The runs on a device in which every callback meets a condition on the descriptors and the tree, and every request
one on the disk; between callbacks `evict` may have dropped any entries of the path cache. -/
inductive VfsRunOn (L : Layout) (uid gid : UInt16) (C : InodeReq → Disk → Prop) {σ : Type} (device : Handler Block σ)
    (disk : σ → Disk) (P : FDManager → FileTree → Callback → Prop) (s₀ : σ) (v₀ : Vfs) : List Event → σ → Vfs → Prop
  | start : VfsRunOn L uid gid C device disk P s₀ v₀ [] s₀ v₀
  | step {events : List Event} {e : Event} {s s' : σ} {v v' : Vfs}
      (before : VfsRunOn L uid gid C device disk P s₀ v₀ events s v)
      (meets : P v.fdManager (L.fileTree (disk s)) e.callback)
      (steps : e.callback.StepsOn L uid gid C device disk s v e.ret e.out s' v') :
      VfsRunOn L uid gid C device disk P s₀ v₀ (events ++ [e]) s' v'
  | evicted {events : List Event} {s : σ} {v : Vfs} {r : PathResolver}
      (before : VfsRunOn L uid gid C device disk P s₀ v₀ events s v) (fewer : r.pathCache ⊆ v.pathResolver.pathCache) :
      VfsRunOn L uid gid C device disk P s₀ v₀ events s { v with pathResolver := r }

/-- The runs on the disk itself, as long as there is space. -/
abbrev VfsRun (L : Layout) (uid gid : UInt16) (P : FDManager → FileTree → Callback → Prop) (s₀ : Disk) (v₀ : Vfs) :
    List Event → Disk → Vfs → Prop :=
  VfsRunOn L uid gid (fun q s => q.Covered L s) Store.handler id P s₀ v₀

theorem Mounted.evicted (mounted : Mounted L s v) {r : PathResolver} (fewer : r.pathCache ⊆ v.pathResolver.pathCache) :
    Mounted L s { v with pathResolver := r } :=
  ⟨mounted.disk, mounted.coherent.root, mounted.coherent.tree, fun e member => mounted.coherent.cached e (fewer member)⟩

variable {P : FDManager → FileTree → Callback → Prop}

/-- A run in which the descriptors that are used are on files is one of the abstract file system. -/
theorem VfsRun.refines_used (bitmap : L.inodeBitmapBlocks = kInodeBitmapBlocks) (mounted : Mounted L s₀ v₀)
    (uses : ∀ m t cb, P m t cb → cb.UsesFiles m t) (run : VfsRun L uid gid P s₀ v₀ events s v) :
    Mounted L s v ∧ TreeRun P v₀.fdManager (L.fileTree s₀) events v.fdManager (L.fileTree s) := by
  induction run with
  | start => exact ⟨mounted, .start⟩
  | step before meets steps ih =>
    obtain ⟨mounted, run⟩ := ih
    obtain ⟨mounted', effect⟩ := mounted.after bitmap (uses _ _ _ meets) steps
    exact ⟨mounted', run.step steps.issued meets effect⟩
  | evicted before fewer ih => exact ⟨ih.1.evicted fewer, ih.2⟩

/-- As long as no open file is removed all descriptors are on files. -/
theorem VfsRun.used (bitmap : L.inodeBitmapBlocks = kInodeBitmapBlocks) (mounted : Mounted L s₀ v₀)
    (files : v₀.fdManager.OnFiles (L.fileTree s₀)) (spares : ∀ m t cb, P m t cb → cb.SparesOpen m t)
    (run : VfsRun L uid gid P s₀ v₀ events s v) :
    VfsRun L uid gid (fun m t cb => P m t cb ∧ cb.UsesFiles m t) s₀ v₀ events s v := by
  induction run with
  | start => exact .start
  | step before meets steps ih =>
    obtain ⟨-, run⟩ := ih.refines_used bitmap mounted fun _ _ _ => And.right
    have onFiles := run.onFiles files fun _ _ _ both => spares _ _ _ both.1
    exact ih.step ⟨meets, fun fh _ => onFiles fh⟩ steps
  | evicted before fewer ih => exact ih.evicted fewer

theorem VfsRun.refines (bitmap : L.inodeBitmapBlocks = kInodeBitmapBlocks) (mounted : Mounted L s₀ v₀)
    (files : v₀.fdManager.OnFiles (L.fileTree s₀)) (spares : ∀ m t cb, P m t cb → cb.SparesOpen m t)
    (run : VfsRun L uid gid P s₀ v₀ events s v) :
    Mounted L s v ∧ TreeRun P v₀.fdManager (L.fileTree s₀) events v.fdManager (L.fileTree s) := by
  obtain ⟨mounted', run'⟩ := (run.used bitmap mounted files spares).refines_used bitmap mounted fun _ _ _ => And.right
  exact ⟨mounted', run'.mono fun _ _ _ => And.left⟩

end

end Sbfs
