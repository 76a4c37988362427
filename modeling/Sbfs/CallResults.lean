import Sbfs.NamedInodes

/-! # The results of the calls on names

What `create`, `mkdir`, `unlink` and `rmdir` return tells what they have done to the names: 0 that the name has been
made or removed, an error that nothing has changed.  This holds of paths that lead nowhere, too. -/

namespace Sbfs

open NamedTree FileTree ReqProg

section

variable {t u : FileTree} {m m' : FDManager} {q : VfsCall} {ret : Int} {out : Out} {cs : List Name} {c : Name}
  {dir x : Position} {mode : UInt16}

/-! ## The outcomes of the calls -/

/-- The call makes an inode of the type. -/
def VfsCall.MakesA (q : VfsCall) (path : Name) (type : DiskInodeType) : Prop :=
  (∃ mode, q = create path mode) ∧ type = kFile ∨ (∃ mode, q = mkdir path mode) ∧ type = kDirectory

/-- The call removes a name. -/
def VfsCall.Removes (q : VfsCall) (path : Name) : Prop := q = unlink path ∨ q = rmdir path

theorem FileTree.Sound.lookup_create (sound : t.Sound) (parent : t.Dir cs dir) (absent : t.find dir c = none)
    (unused : t.kind x = none) (type : DiskInodeType) : (t.create dir c type x).lookup (cs ++ [c]) = some x :=
  lookup_step (Namespace.lookup_create absent (sound.loose unused) parent.1) (create_find ..)

theorem VfsCall.MakesA.no_error {path : Name} {type : DiskInodeType} (makes : q.MakesA path type) :
    ¬ q.Error m t ret := by
  intro error
  obtain ⟨⟨_, rfl⟩, -⟩ | ⟨⟨_, rfl⟩, -⟩ := makes <;> cases error with
  | noName names => rcases names with same | same | ⟨_, _, same⟩ <;> cases same
  | noFile names => rcases names with same | ⟨_, _, same, -⟩ <;> cases same
  | tooLarge large => rcases large with ⟨_, _, _, _, same, -⟩ | ⟨_, _, _, same, -⟩ <;> cases same
  | notOpen uses => rcases uses with ⟨_, _, _, same⟩ | ⟨_, _, _, same⟩ | ⟨_, same⟩ <;> cases same

/-- `create` and `mkdir` return 0 and make a name for an inode that was not allocated. -/
theorem VfsCall.Effect.of_create {path : Name} {type : DiskInodeType} (makes : q.MakesA path type)
    (effect : q.Effect m t ret out m' u) : ret = 0 ∧ ∃ cs c dir x, (∀ d ∈ cs ++ [c], IsPart d) ∧
      path = canonical (cs ++ [c]) ∧ t.Dir cs dir ∧ t.find dir c = none ∧ t.kind x = none ∧ u = t.create dir c type x ∧
        (type = kFile → out = .handle (some m.fdCounter) ∧ m' = (m.open' (some x)).2) := by
  have works : ¬ q.Error m t ret := makes.no_error
  obtain ⟨⟨_, rfl⟩, rfl⟩ | ⟨⟨_, rfl⟩, rfl⟩ := makes
  · cases effect with
    | created parent absent unused parts =>
      exact ⟨rfl, _, _, _, _, parts, rfl, parent, absent, unused, rfl, fun _ => ⟨rfl, rfl⟩⟩
    | removed removal => rcases removal with ⟨same, -⟩ | ⟨same, -⟩ <;> cases same
    | refused error => exact absurd error works
  · cases effect with
    | made parent absent unused parts =>
      exact ⟨rfl, _, _, _, _, parts, rfl, parent, absent, unused, rfl, fun file => absurd file (by decide)⟩
    | removed removal => rcases removal with ⟨same, -⟩ | ⟨same, -⟩ <;> cases same
    | refused error => exact absurd error works

/-- `unlink` and `rmdir` return 0 and remove a name, or an error and change nothing. -/
theorem VfsCall.Effect.of_remove {path : Name} (removes : q.Removes path) (effect : q.Effect m t ret out m' u) :
    ret = 0 ∧ (∃ cs c dir x, (∀ d ∈ cs ++ [c], IsPart d) ∧ path = canonical (cs ++ [c]) ∧ t.Dir cs dir ∧
      t.find dir c = some x ∧ (∀ name, t.find x name = none) ∧ u = (t.setEntry dir c none).free x) ∨
      ret < 0 ∧ u = t := by
  cases effect with
  | removed removal parts parent found empty =>
    refine .inl ⟨rfl, _, _, _, _, parts, ?_, parent, found, empty, rfl⟩
    obtain rfl | rfl := removes <;> obtain ⟨same, -⟩ | ⟨same, -⟩ := removal <;> cases same <;> rfl
  | refused error =>
    refine .inr ⟨?_, rfl⟩
    cases error with
    | _ => decide
  | _ => rcases removes with same | same <;> cases same

/-! ## Paths that lead nowhere -/

variable {v : Vfs}

theorem vfsResolve_value {path : Name} (sound : t.Sound) (coherent : Coherent v t.toNamespace) (spells : Spells path cs)
    (parts : ∀ c ∈ cs, IsPart c) :
    (v.resolve path).Meets service InodeReq.Allowed (fun a w => a.1 = (t.lookup cs).getD .invalid ∧ w = t) t := by
  refine (vfsResolve_meets sound coherent spells parts).mono ?_
  rintro a w ⟨rfl, resolved⟩
  exact ⟨resolved.value, rfl⟩

/-- Without its parent nothing is made or removed. -/
theorem VfsCall.body_nowhere {type : DiskInodeType} (calls : q.MakesA (canonical (cs ++ [c])) type ∨
    q.Removes (canonical (cs ++ [c]))) (sound : t.Sound) (coherent : Coherent v t.toNamespace)
    (parts : ∀ d ∈ cs ++ [c], IsPart d) (nowhere : t.lookup cs = none) :
    (q.body v).Meets service InodeReq.Allowed (fun a w => a.1 = -2 ∧ w = t) t := by
  have resolves := vfsResolve_value sound coherent (.parent cs) (parent_parts parts)
  rw [nowhere, Option.getD_none] at resolves
  have split := splitFromLastSlash_pathOf cs (last_part parts).component
  rw [← canonical_concat] at split
  obtain (⟨⟨_, rfl⟩, -⟩ | ⟨⟨_, rfl⟩, -⟩) | rfl | rfl := calls
  all_goals
    simp only [VfsCall.body, Vfs.sbCreate, Vfs.sbMkdir, Vfs.sbUnlink, Vfs.sbRmdir, split, meets_bind]
    refine resolves.mono ?_
    rintro ⟨x, v₁⟩ w ⟨rfl, rfl⟩
    exact ⟨rfl, rfl⟩

/-- A name that is not there is not removed, even below a file. -/
theorem VfsCall.body_absent (removes : q.Removes (canonical (cs ++ [c]))) (sound : t.Sound) (solid : t.Solid)
    (coherent : Coherent v t.toNamespace) (parts : ∀ d ∈ cs ++ [c], IsPart d) (absent : t.lookup (cs ++ [c]) = none) :
    (q.body v).Meets service InodeReq.Allowed (fun a w => a.1 = -2 ∧ w = t) t := by
  cases here : t.lookup cs with
  | none =>
    have calls : q.MakesA (canonical (cs ++ [c])) kFile ∨ q.Removes (canonical (cs ++ [c])) := .inr removes
    exact body_nowhere calls sound coherent parts here
  | some y =>
    have allocated := sound.allocated here
    have valid := solid y allocated
    rw [Namespace.lookup_concat, here, Option.bind_some] at absent
    have resolves := vfsResolve_value sound coherent (.parent cs) (parent_parts parts)
    rw [here, Option.getD_some] at resolves
    have split := splitFromLastSlash_pathOf cs (last_part parts).component
    rw [← canonical_concat] at split
    obtain rfl | rfl := removes
    all_goals
      simp only [VfsCall.body, Vfs.sbUnlink, Vfs.sbRmdir, split, meets_bind]
      refine resolves.mono ?_
      rintro ⟨x, v₁⟩ w ⟨rfl, rfl⟩
      -- the parent is there, but not the name
      simp only [valid, Bool.not_true, Bool.false_eq_true, if_false, meets_bind, VfsProg.find, meets_call]
      refine ⟨⟨sound, allocated, last_part parts⟩, ?_⟩
      rintro r w' ⟨rfl, rfl⟩
      rw [absent]
      exact ⟨rfl, rfl⟩

end

end Sbfs
