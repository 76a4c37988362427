import Sbfs.OpenHandles

/-! # Files over runs

What a `write` through one descriptor has put into a file is what a later `read` through any descriptor gives back,
whatever else the callbacks have done in between (`Patched.readsAs` with `TreeRun.content_kept`). -/

namespace Sbfs

open FileTree

section

variable {t t' : FileTree} {m m' : FDManager} {x : Position} {cb : Callback} {ret : Int} {out : Out}

/-- The callback neither writes to a file nor truncates it. -/
structure Callback.LeavesData (m : FDManager) (t : FileTree) (x : Position) (cb : Callback) : Prop where
  write : ∀ fh buf size offset, cb = .vfs (.write fh buf size offset) → m.get fh ≠ some (some x)
  truncate : ∀ cs off fh, cb = .vfs (.truncate (canonical cs) off fh) → ¬ t.Target m cs (some fh) x

theorem FileTree.Linked.content {dir y : Position} {c : Name} {replace : Bool} (linked : t.Linked dir c y replace t') :
    t'.content = t.content := by
  obtain ⟨rfl, -⟩ | ⟨rfl, -⟩ := linked.cases
  · rfl
  · rfl

/-- An open file keeps its bytes as long as nothing is written to it. -/
theorem Callback.Effect.content {fh : Nat} (held : m.get fh = some (some x)) (file : t.kind x = some kFile)
    (spares : cb.SparesOpen m t) (leaves : cb.LeavesData m t x) (effect : cb.Effect m t ret out m' t') :
    t'.content x = t.content x := by
  have taken : ∀ {new bytes}, t.kind new = none → Function.update t.content new bytes x = t.content x := by
    intro new bytes unused
    refine Function.update_of_ne ?_ _ _
    rintro rfl
    rw [unused] at file
    cases file
  cases effect with
  | reported => rfl
  | set => rfl
  | listed => rfl
  | refused => rfl
  | vfs effect =>
    cases effect with
    | created _ _ unused => exact taken unused
    | made _ _ unused => exact taken unused
    | @removed cs c dir y _ removal parts parent found _ =>
      refine Function.update_of_ne ?_ _ _
      rintro rfl
      rcases removal with ⟨rfl, -⟩ | ⟨-, isDir⟩
      · exact spares (cs ++ [c]) x fh rfl parts (lookup_step parent.1 found) held
      · rw [file] at isDir
        exact absurd (Option.some.inj isDir) (by decide)
    | renamed _ _ _ _ _ _ _ moves =>
      cases moves with
      | moved _ link => exact congrFun link.content x
      | exchanged _ _ back link => exact congrFun (link.content.trans back.content) x
    | written held' =>
      refine Function.update_of_ne ?_ _ _
      rintro rfl
      exact leaves.write _ _ _ _ rfl held'
    | truncated target =>
      refine Function.update_of_ne ?_ _ _
      rintro rfl
      exact leaves.truncate _ _ _ rfl target
    | _ => rfl

/-- A read finds what has been written. -/
theorem Patched.readsAs {bytes bytes' : List UInt8} {offset size offset' size' i j : Nat} {buf buf' out : Mem}
    (patched : Patched bytes offset size buf bytes') (reads : ReadsAs bytes' offset' buf' size' (ret, out))
    (inside : offset' + size' < 2147483648) (read : i < size') (wrote : j < size) (same : offset' + i = offset + j) :
    i < ret ∧ out i = buf j := by
  have length := patched.length
  obtain ⟨count, values⟩ := reads (by omega) (by omega) inside
  dsimp only at count values
  have reached : i < min size' (bytes'.length - offset') := by omega
  refine ⟨by omega, ?_⟩
  rw [values, if_pos reached, same, patched.inside j wrote, Option.getD_some]

/-- A `write`, or a `read` that starts inside the file, does not fail through an open descriptor. -/
theorem not_refused {fh : Nat} {q : VfsCall} (held : m.get fh = some (some x)) {buf : Mem} {size : Nat} {offset : Int}
    (inside : uint32 offset + size < 2147483648) (call : q = .write fh buf size offset ∨
      q = .read fh buf size offset ∧ 0 < size ∧ uint32 offset < (t.content x).length) :
    ¬ q.Error m t ret := by
  intro error
  cases error with
  | noName names => rcases call with rfl | ⟨rfl, -⟩ <;> rcases names with same | same | ⟨_, _, same⟩ <;> cases same
  | noFile names => rcases call with rfl | ⟨rfl, -⟩ <;> rcases names with same | ⟨_, _, same, -⟩ <;> cases same
  | tooLarge large =>
    rcases call with rfl | ⟨rfl, -⟩
    · rcases large with ⟨_, _, _, _, same, -⟩ | ⟨_, _, _, same, -⟩ <;> cases same
    · obtain ⟨_, _, _, _, same, large⟩ | ⟨_, _, _, same, -⟩ := large
      · cases same
        omega
      · cases same
  | notOpen uses closed =>
    rcases call with rfl | ⟨rfl, -⟩ <;> rcases uses with ⟨_, _, _, same⟩ | ⟨_, _, _, same⟩ | ⟨_, same⟩ <;> cases same <;>
      rw [held] at closed <;> cases closed
  | notRead got outside =>
    obtain same | ⟨same, some, reached⟩ := call
    · cases same
    · cases same
      cases held.symm.trans got
      omega
  | _ => rcases call with same | ⟨same, -⟩ <;> cases same

/-- An open file keeps its bytes over a run that writes nothing to it. -/
theorem TreeRun.content_kept {P : FDManager → FileTree → Callback → Prop} {m₀ : FDManager} {t₀ : FileTree}
    {events : List Event} {fh : Nat} (files : m₀.OnFiles t₀) (held : m₀.get fh = some (some x))
    (spares : ∀ m t cb, P m t cb → cb.SparesOpen m t) (leaves : ∀ m t cb, P m t cb → cb.LeavesData m t x)
    (keeps : ∀ e ∈ events, e.callback ≠ .vfs (.release fh)) (run : TreeRun P m₀ t₀ events m t) :
    t.content x = t₀.content x := by
  induction run with
  | start => rfl
  | @step events e m _ t _ before _ meets effect ih =>
    have earlier : ∀ e ∈ events, e.callback ≠ .vfs (.release fh) := fun e' member =>
      keeps e' (List.mem_append_left _ member)
    have held' := before.handle_kept held earlier
    obtain ⟨y, same, file⟩ := before.onFiles files spares fh _ held'
    cases same
    exact (effect.content held' file (spares _ _ _ meets) (leaves _ _ _ meets)).trans (ih earlier)

end

end Sbfs
