import Sbfs.CallResults
import Sbfs.Consistency

/-! # Handles and new files

Until it is released a handle keeps its inode allocated, no `create` or `mkdir` takes that inode, and nothing that is
written through the handle gets into a file made later (`create_handles`), as long as no `unlink` removes an open file. -/

namespace Sbfs

open NamedTree FileTree ReqProg

/-- The callbacks of a run do not release the handle. -/
def Keeps (fh : Nat) (events : List Event) : Prop := ∀ e ∈ events, e.callback ≠ .vfs (.release fh)

theorem keeps_one {fh : Nat} {e : Event} (other : e.callback ≠ .vfs (.release fh)) : Keeps fh [e] := by
  rintro e' member
  rwa [List.mem_singleton.mp member]

/-- What is written through the handle later, before it is released, does not get into inode `y`. -/
def Layout.Untouched (L : Layout) (uid gid : UInt16) (s : Disk) (v : Vfs) (fh : Nat) (y : Position) : Prop :=
  ∀ events s₁ v₁, VfsRun L uid gid Callback.SparesOpen s v events s₁ v₁ → Keeps fh events →
    ∀ buf size offset ret out s₂ v₂, (Callback.vfs (.write fh buf size offset)).Steps L uid gid s₁ v₁ ret out s₂ v₂ →
      (L.fileTree s₂).content y = (L.fileTree s₁).content y

/-- The handle is on inode `i`, which is allocated, and a name that is made next is of another inode, which no write
through the handle gets into. -/
structure Layout.HandleLives (L : Layout) (uid gid : UInt16) (s : Disk) (v : Vfs) (fh i : Nat) : Prop where
  held : v.fdManager.get fh = some (some (L.slot i))
  allocated : L.Allocated s i
  apart : ∀ (q : VfsCall) path type ret out s' v', q.MakesA path type →
    (Callback.vfs q).Steps L uid gid s v ret out s' v' →
      ∃ cs y, path = canonical cs ∧ (L.fileTree s').lookup cs = some y ∧ y ≠ L.slot i ∧ L.Untouched uid gid s' v' fh y

section

variable {L : Layout} {owner group uid gid : UInt16} {s s₀ s' : Disk} {v v' : Vfs} {fs : SBFileSystem} {q : VfsCall}
  {ret : Int} {out : Out} {events : List Event} {fh : Nat} {x y : Position}

/-- A write changes the inode of its handle only. -/
theorem VfsCall.Effect.write_other {m m' : FDManager} {t u : FileTree} {buf : Mem} {size : Nat} {offset : Int}
    (held : m.get fh = some (some x)) (other : y ≠ x)
    (effect : (VfsCall.write fh buf size offset).Effect m t ret out m' u) : u.content y = t.content y := by
  cases effect with
  | written held' =>
    cases held.symm.trans held'
    exact setContent_ne _ other _
  | removed removal => rcases removal with ⟨same, -⟩ | ⟨same, -⟩ <;> cases same
  | refused => rfl

theorem Mounted.untouched (bitmap : L.inodeBitmapBlocks = kInodeBitmapBlocks) (mounted : Mounted L s v)
    (files : v.fdManager.OnFiles (L.fileTree s)) (held : v.fdManager.get fh = some (some x)) (other : y ≠ x) :
    L.Untouched uid gid s v fh y := by
  intro events s₁ v₁ run keeps buf size offset ret out s₂ v₂ writes
  obtain ⟨mounted₁, tree⟩ := run.refines bitmap mounted files fun _ _ _ => id
  have files₁ := tree.onFiles files fun _ _ _ => id
  obtain ⟨-, effect⟩ := mounted₁.after bitmap (fun fh _ => files₁ fh) writes
  exact effect.of_vfs.write_other (tree.handle_kept held keeps) other

theorem Mounted.handleLives (bitmap : L.inodeBitmapBlocks = kInodeBitmapBlocks) (mounted : Mounted L s v)
    (files : v.fdManager.OnFiles (L.fileTree s)) (held : v.fdManager.get fh = some (some x)) :
    ∃ i, x = L.slot i ∧ L.HandleLives uid gid s v fh i := by
  obtain ⟨z, same, file⟩ := files fh _ held
  cases same
  obtain ⟨i, rfl, here, -⟩ := mounted.disk.file file
  refine ⟨i, rfl, held, here, fun q path type ret out s' v' makes steps => ?_⟩
  have spares : (Callback.vfs q).SparesOpen v.fdManager (L.fileTree s) := by
    obtain ⟨⟨_, rfl⟩, -⟩ | ⟨⟨_, rfl⟩, -⟩ := makes <;> trivial
  have releases : q ≠ .release fh := by
    rintro rfl
    obtain ⟨⟨_, same⟩, -⟩ | ⟨⟨_, same⟩, -⟩ := makes <;> cases same
  obtain ⟨mounted', effect⟩ := mounted.after bitmap (fun fh _ => files fh) steps
  have files' := files.after spares effect
  obtain ⟨-, cs, c, dir, y, -, rfl, parent, absent, free, tree, -⟩ := effect.of_vfs.of_create makes
  have other : y ≠ L.slot i := by
    rintro rfl
    cases free.symm.trans file
  refine ⟨cs ++ [c], y, rfl, ?_, other, mounted'.untouched bitmap files' (effect.handle held ?_) other⟩
  · rw [tree]
    exact mounted.disk.sound.lookup_create parent absent free type
  · exact fun same => releases (by injection same)

/-- The callbacks on files and their handles. -/
def Callback.HandlesFiles : Callback → Prop
  | .vfs (.create _ _) | .vfs (.open' _) | .vfs (.release _) | .vfs (.unlink _) | .vfs (.rename _ _ _)
  | .vfs (.read _ _ _ _) | .vfs (.write _ _ _ _) => True
  | _ => False

end

end Sbfs
