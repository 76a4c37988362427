import Sbfs.Callbacks

/-! # The file system on trees

The abstract file system: its state between callbacks is the table of descriptors and the tree, its steps are
the effects of the callbacks.  A step keeps the tree sound (`Callback.Effect.sound`), so every run does. -/

namespace Sbfs

open NamedTree FileTree

section

variable {t t' u w : FileTree} {m m' : FDManager} {dir dir' x y : Position} {c d : Name} {flags : Nat} {ret : Int}
  {out : Out}

/-! ## Soundness -/

theorem FileTree.Linked.sound {replace : Bool} (sound : t.Sound) (isDir : t.kind dir = some kDirectory)
    (unnamed : t.Unnamed x) (linked : t.Linked dir c x replace u) : u.Sound := by
  obtain ⟨rfl, -⟩ | ⟨rfl, -⟩ := linked.cases
  · exact sound.link isDir unnamed.allocated unnamed.loose unnamed.links c
  · exact sound

theorem FileTree.Renamed.sound (sound : t.Sound) (isDir : t.kind dir = some kDirectory)
    (isDir' : t.kind dir' = some kDirectory) (found : t.find dir c = some x)
    (moves : t.Renamed dir c dir' d flags x u) : u.Sound := by
  obtain ⟨sound₁, unnamed⟩ := sound.detach found
  cases moves with
  | moved _ link => exact link.sound sound₁ isDir' unnamed
  | @exchanged y _ _ _ target back link =>
    obtain ⟨sound₂, unnamed'⟩ := sound₁.detach target
    have ne : y ≠ x := fun same => unnamed.loose.2 dir' d (same ▸ target)
    have kinds := back.kind.1
    exact link.sound (back.sound sound₂ isDir unnamed') (by rw [kinds]; exact isDir') ((unnamed.detach target).linked ne back)

theorem VfsCall.Effect.sound {call : VfsCall} (sound : t.Sound) (effect : call.Effect m t ret out m' t') : t'.Sound := by
  cases effect with
  | created parent _ unused => exact sound.create parent.2 unused _ _
  | made parent _ unused => exact sound.create parent.2 unused _ _
  | removed _ _ _ found empty =>
    refine (sound.setEntry_none _ _).free (IsTree.loose_erase sound.tree found) fun l => ?_
    refine Option.eq_none_iff_forall_ne_some.mpr fun y edge => ?_
    have old := setEdge_none_sub _ _ _ edge
    rw [empty l] at old
    cases old
  | renamed _ _ parent parent' found _ _ moves => exact moves.sound sound parent.2 parent'.2 found
  | written => exact ⟨sound.tree, sound.root, sound.source, sound.target, sound.links⟩
  | truncated => exact ⟨sound.tree, sound.root, sound.source, sound.target, sound.links⟩
  | opened => exact sound
  | released => exact sound
  | bytesRead => exact sound
  | synced => exact sound
  | refused => exact sound

/-- A callback keeps the tree sound. -/
theorem Callback.Effect.sound {cb : Callback} (sound : t.Sound) (effect : cb.Effect m t ret out m' t') : t'.Sound := by
  cases effect with
  | vfs effect => exact effect.sound sound
  | reported => exact sound
  | set => exact sound
  | listed => exact sound
  | refused => exact sound

end

/-! ## Runs -/

/-- A callback that has returned, with what it has handed out. -/
structure Event where
  callback : Callback
  ret : Int
  out : Out

def Event.Effect (e : Event) (m : FDManager) (t : FileTree) : FDManager → FileTree → Prop :=
  e.callback.Effect m t e.ret e.out

/-- The runs of the abstract file system in which every callback meets a condition. -/
inductive TreeRun (P : FDManager → FileTree → Callback → Prop) (m₀ : FDManager) (t₀ : FileTree) :
    List Event → FDManager → FileTree → Prop
  | start : TreeRun P m₀ t₀ [] m₀ t₀
  | step {events : List Event} {e : Event} {m m' : FDManager} {t t' : FileTree}
      (before : TreeRun P m₀ t₀ events m t) (issued : e.callback.Issued t) (meets : P m t e.callback)
      (effect : e.Effect m t m' t') : TreeRun P m₀ t₀ (events ++ [e]) m' t'

namespace TreeRun

variable {P : FDManager → FileTree → Callback → Prop} {m₀ m : FDManager} {t₀ t : FileTree} {events : List Event}

theorem sound (start : t₀.Sound) (run : TreeRun P m₀ t₀ events m t) : t.Sound := by
  induction run with
  | start => exact start
  | step _ _ _ effect ih => exact effect.sound ih

theorem mono {Q : FDManager → FileTree → Callback → Prop} (weaker : ∀ m t cb, P m t cb → Q m t cb)
    (run : TreeRun P m₀ t₀ events m t) : TreeRun Q m₀ t₀ events m t := by
  induction run with
  | start => exact .start
  | step _ issued meets effect ih => exact ih.step issued (weaker _ _ _ meets) effect

/-- What each step keeps holds in the end. -/
theorem invariant {I : FDManager → FileTree → Prop} (sound : t₀.Sound) (start : I m₀ t₀)
    (keeps : ∀ {m m' t t' e}, t.Sound → I m t → P m t e.callback → Event.Effect e m t m' t' → I m' t')
    (run : TreeRun P m₀ t₀ events m t) : I m t := by
  induction run with
  | start => exact start
  | step before _ meets effect ih => exact keeps (before.sound sound) ih meets effect

end TreeRun

end Sbfs
