import Sbfs.Handles
import Sbfs.TreeRuns

/-! # Open handles and removed files

`sb_unlink` frees the inode of the name whether it is open or not; `FDManager::isOpen` has no caller.
In a run without such removals each handle stays on its file until it is released. -/

namespace Sbfs

open ReqProg

/-! ## The table of descriptors -/

namespace FDManager

variable {m : FDManager} {fh fd : Nat} {inode i : Option Position}

/-- `open` leaves the handles that there are, and its own one is for the inode. -/
theorem get_open' : (m.open' inode).2.get fh = some i → m.get fh = some i ∨ i = inode := by
  simp only [get, open', deltaRefCnt_fdManager]
  split
  next => exact fun none => by cases none
  next =>
    split
    next =>
      rw [Function.update_apply]
      split
      next => exact fun same => .inr (Option.some.inj same).symm
      next => exact .inl
    next => exact .inl

theorem get_open'_kept (found : m.get fh = some i) : (m.open' inode).2.get fh = some i := by
  simp only [get, open', deltaRefCnt_fdManager] at found ⊢
  split at found
  next => cases found
  next nonzero =>
    rw [if_neg nonzero]
    split
    next none =>
      rw [Function.update_of_ne]
      · exact found
      · rintro rfl
        rw [found] at none
        cases none
    next => exact found

theorem get_close : (m.close fd).get fh = some i ↔ m.get fh = some i ∧ fh ≠ fd := by
  by_cases zero : fh = 0
  · simp only [get, zero, if_true]
    exact iff_of_false (fun none => by cases none) fun both => by cases both.1
  · simp only [get, zero, if_false, close]
    by_cases other : fh = fd
    · subst other
      rw [if_neg zero]
      cases found : m.fdManager fh with
      | none => simp [found]
      | some inode => simp
    · split
      next => exact (and_iff_left other).symm
      next =>
        split
        next => exact (and_iff_left other).symm
        next => simp [other]

end FDManager

section

variable {cb : Callback} {ret : Int} {out : Out} {t t' : FileTree} {m m' : FDManager}

/-! ## The invariant -/

/-- The name that an `unlink` removes is not of an inode with an open handle. -/
def Callback.SparesOpen (m : FDManager) (t : FileTree) : Callback → Prop
  | .vfs (.unlink path) => ∀ cs x fh, path = canonical cs → (∀ c ∈ cs, IsPart c) → t.lookup cs = some x →
      m.get fh ≠ some (some x)
  | _ => True

/-- The descriptor that the callback uses is on a file, if it is open. -/
def Callback.UsesFiles (m : FDManager) (t : FileTree) (cb : Callback) : Prop :=
  ∀ fh, cb.uses = some fh → m.OnFile t fh

theorem FileTree.Renamed.kind {dir dir' x : Position} {c d : Name} {flags : Nat} (moves : t.Renamed dir c dir' d flags x t') :
    t'.kind = t.kind := by
  cases moves with
  | moved _ link => exact link.kind.1
  | exchanged _ _ back link => exact link.kind.1.trans back.kind.1

theorem FileTree.Renamed.dots {dir dir' x : Position} {c d : Name} {flags : Nat} (moves : t.Renamed dir c dir' d flags x t') :
    t'.dots = t.dots := by
  cases moves with
  | moved _ link => exact link.kind.2
  | exchanged _ _ back link => exact link.kind.2.trans back.kind.2

/-- The files that are open stay, unless an `unlink` removes one. -/
theorem FDManager.OnFiles.after (files : m.OnFiles t) (spares : cb.SparesOpen m t)
    (effect : cb.Effect m t ret out m' t') : m'.OnFiles t' := by
  -- the handles that there were
  have old : (∀ x fh, t.kind x = some kFile → m.get fh = some (some x) → t'.kind x = some kFile) →
      ∀ fh inode, m.get fh = some inode → ∃ x, inode = some x ∧ t'.kind x = some kFile := by
    intro keeps fh inode found
    obtain ⟨x, rfl, file⟩ := files fh inode found
    exact ⟨x, rfl, keeps x fh file found⟩
  -- an inode that is taken was no file
  have taken : ∀ {new x type}, t.kind new = none → t.kind x = some kFile →
      Function.update t.kind new (some type) x = some kFile := by
    intro new x type unused file
    rw [Function.update_of_ne _, file]
    rintro rfl
    rw [unused] at file
    cases file
  cases effect with
  | reported => exact files
  | set => exact files
  | listed => exact files
  | refused => exact files
  | vfs effect =>
    cases effect with
    | @created _ _ _ new _ _ _ unused =>
      intro fh inode found
      obtain held | rfl := FDManager.get_open' found
      · exact old (fun x fh file _ => taken unused file) fh inode held
      · exact ⟨new, rfl, Function.update_self ..⟩
    | made _ _ unused => exact old fun x fh file _ => taken unused file
    | @removed cs c dir y _ removal parts parent found _ =>
      refine old fun x fh file held => ?_
      have ne : x ≠ y := by
        rintro rfl
        rcases removal with ⟨rfl, -⟩ | ⟨-, isDir⟩
        · exact spares (cs ++ [c]) x fh rfl parts (lookup_step parent.1 found) held
        · rw [file] at isDir
          exact absurd (Option.some.inj isDir) (by decide)
      exact (Function.update_of_ne ne _ _).trans file
    | renamed _ _ _ _ _ _ _ moves => exact old fun x fh file _ => moves.kind ▸ file
    | opened found file =>
      intro fh inode held
      obtain held | rfl := FDManager.get_open' held
      · exact files fh inode held
      · exact ⟨_, rfl, file⟩
    | released => exact fun fh inode held => files fh inode (FDManager.get_close.mp held).1
    | bytesRead => exact files
    | written => exact files
    | truncated => exact files
    | synced => exact files
    | refused => exact files

/-- A handle stays until it is released. -/
theorem Callback.Effect.handle {fh : Nat} {inode : Option Position} (effect : cb.Effect m t ret out m' t')
    (held : m.get fh = some inode) (other : cb ≠ .vfs (.release fh)) : m'.get fh = some inode := by
  cases effect with
  | reported => exact held
  | set => exact held
  | listed => exact held
  | refused => exact held
  | vfs effect =>
    cases effect with
    | created => exact FDManager.get_open'_kept held
    | opened => exact FDManager.get_open'_kept held
    | released fd => exact FDManager.get_close.mpr ⟨held, fun is => other (is ▸ rfl)⟩
    | _ => exact held

/-! ## Runs -/

namespace TreeRun

variable {P : FDManager → FileTree → Callback → Prop} {m₀ : FDManager} {t₀ : FileTree} {events : List Event}

theorem onFiles (files : m₀.OnFiles t₀) (spares : ∀ m t cb, P m t cb → cb.SparesOpen m t)
    (run : TreeRun P m₀ t₀ events m t) : m.OnFiles t := by
  induction run with
  | start => exact files
  | step _ _ meets effect ih => exact ih.after (spares _ _ _ meets) effect

/-- A handle denotes the same inode until it is released. -/
theorem handle_kept {fh : Nat} {inode : Option Position} (held : m₀.get fh = some inode)
    (run : TreeRun P m₀ t₀ events m t) (open' : ∀ e ∈ events, e.callback ≠ .vfs (.release fh)) :
    m.get fh = some inode := by
  induction run with
  | start => exact held
  | @step events e _ _ _ _ _ _ _ effect ih =>
    exact effect.handle (ih fun e' member => open' e' (List.mem_append_left _ member))
      (open' e (List.mem_append_right _ List.mem_cons_self))

end TreeRun

end

end Sbfs
