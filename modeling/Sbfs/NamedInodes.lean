import Sbfs.Renames

/-! # Inodes and their names

An allocated inode other than the root has a name, as long as each `rename` finds its place and replaces nothing
(`Callback.KeepsNames`); with fewer conditions this holds of the directories alone.  `..` stays right as long as no
directory gets into another one (`TreeRun.dotsKept`). -/

namespace Sbfs

open NamedTree FileTree

section

variable {t u w : FileTree} {dir dir' x y z m : Position} {c d l : Name} {flags : Nat} {replace : Bool}

/-! ## What a rename is for -/

/-- What `sb_rename` is for: the source has the new name, the target has the old one if the two are exchanged, and
nothing else has changed. -/
structure FileTree.RenamedTo (t : FileTree) (dir : Position) (c : Name) (dir' : Position) (d : Name) (exchange : Bool)
    (u : FileTree) : Prop where
  new : u.find dir' d = t.find dir c
  old : u.find dir c = if exchange = true then t.find dir' d else none
  elsewhere : ∀ m l, ¬ (m = dir ∧ l = c) → ¬ (m = dir' ∧ l = d) → u.find m l = t.find m l

theorem FileTree.Relocated.renamedTo (other : ¬ (dir = dir' ∧ c = d)) {exchange : Bool}
    (moved : t.Relocated dir c dir' d (if exchange = true then t.find dir' d else none) u) :
    t.RenamedTo dir c dir' d exchange u := by
  have edges : ∀ m l, u.find m l = move t.find dir c dir' d (if exchange = true then t.find dir' d else none) m l := by
    rw [moved.find]
    exact fun _ _ => rfl
  constructor
  case new => exact (edges _ _).trans (setEdge_same _)
  case old => exact (edges _ _).trans ((setEdge_ne _ other).trans (setEdge_same _))
  case elsewhere => exact fun m l off off' => (edges _ _).trans ((setEdge_ne _ off').trans (setEdge_ne _ off))

/-! ## Names -/

/-- The allocated inodes of some types have names, but for the root. -/
def FileTree.Named (t : FileTree) (types : DiskInodeType → Prop) : Prop :=
  ∀ x type, t.kind x = some type → types type → x = t.root ∨ ∃ dir c, t.find dir c = some x

/-- A rename to or from an inode of some types finds its place, and the new name is absent unless the two are
exchanged. -/
def Callback.KeepsNames (types : DiskInodeType → Prop) (t : FileTree) (cb : Callback) : Prop :=
  ∀ cs c ds d flags dir dir' x, cb = .vfs (.rename (canonical (cs ++ [c])) (canonical (ds ++ [d])) flags) →
    (∀ e ∈ cs ++ [c], IsPart e) → (∀ e ∈ ds ++ [d], IsPart e) → t.Dir cs dir → t.Dir ds dir' →
    t.find dir c = some x →
    (∃ y type, (y = x ∨ t.find dir' d = some y) ∧ t.kind y = some type ∧ types type) →
      t.FindsPlace dir c dir' d flags x ∧ (flags.testBit 1 = false → (t.detach dir c x).find dir' d = none)

theorem Callback.KeepsNames.of_rename {types : DiskInodeType → Prop} {cs ds : List Name}
    (parts : ∀ e ∈ cs ++ [c], IsPart e) (parts' : ∀ e ∈ ds ++ [d], IsPart e) (parent : t.Dir cs dir)
    (parent' : t.Dir ds dir') (place : ∀ x, t.find dir c = some x → t.FindsPlace dir c dir' d flags x)
    (absent : flags.testBit 1 = false → ∀ x, (t.detach dir c x).find dir' d = none) :
    (Callback.vfs (.rename (canonical (cs ++ [c])) (canonical (ds ++ [d])) flags)).KeepsNames types t := by
  intro cs' c' ds' d' flags' m m' x same early early' there there' found _
  injection same with same
  injection same with same same' flag
  obtain ⟨rfl, rfl, rfl⟩ := Dir.bound parts early same parent there
  obtain ⟨rfl, rfl, rfl⟩ := Dir.bound parts' early' same' parent' there'
  subst flag
  exact ⟨place x found, fun plain => absent plain x⟩

theorem FileTree.Named.renamed {types : DiskInodeType → Prop} (named : t.Named types) (found : t.find dir c = some x)
    (place : (∃ y type, (y = x ∨ t.find dir' d = some y) ∧ t.kind y = some type ∧ types type) →
      t.FindsPlace dir c dir' d flags x ∧ (flags.testBit 1 = false → (t.detach dir c x).find dir' d = none))
    (moves : t.Renamed dir c dir' d flags x u) : u.Named types := by
  intro y type kind fits
  rw [moves.kind] at kind
  obtain is | ⟨m, l, edge⟩ := named y type kind fits
  · exact .inl (is.trans moves.root.symm)
  · refine .inr ?_
    by_cases old : m = dir ∧ l = c
    · -- the source is at its new name
      obtain ⟨rfl, rfl⟩ := old
      cases found.symm.trans edge
      have moved := moves.relocated found (place ⟨x, type, .inl rfl, kind, fits⟩).1
      refine ⟨dir', d, ?_⟩
      rw [moved.find]
      exact (setEdge_same _).trans found
    · by_cases new : m = dir' ∧ l = d
      · -- the target has not been replaced, so the two have been exchanged
        obtain ⟨rfl, rfl⟩ := new
        obtain ⟨finds, absent⟩ := place ⟨y, type, .inr edge, kind, fits⟩
        have moved := moves.relocated found finds
        cases exchange : flags.testBit 1 with
        | false => exact absurd ((setEdge_ne _ old).symm.trans (absent exchange)) (edge ▸ Option.some_ne_none y)
        | true =>
          rw [exchange, if_pos rfl, edge] at moved
          refine ⟨dir, c, ?_⟩
          rw [moved.find]
          exact (setEdge_ne _ fun same => old ⟨same.1.symm, same.2.symm⟩).trans (setEdge_same _)
      · exact ⟨m, l, (moves.elsewhere old new).trans edge⟩

theorem FileTree.Named.create {types : DiskInodeType → Prop} {type : DiskInodeType} {inode : Position}
    (named : t.Named types) (sound : t.Sound) (absent : t.find dir c = none) (unused : t.kind inode = none) :
    (t.create dir c type inode).Named types := by
  intro y type' kind fits
  by_cases new : y = inode
  · exact .inr ⟨dir, c, new ▸ create_find ..⟩
  · obtain is | ⟨m, l, edge⟩ := named y type' ((Function.update_of_ne new _ _).symm.trans kind) fits
    · exact .inl is
    · exact .inr ⟨m, l, sound.create_find_old absent unused edge⟩

theorem FileTree.Named.remove {types : DiskInodeType → Prop} (named : t.Named types)
    (found : t.find dir c = some x) : ((t.setEntry dir c none).free x).Named types := by
  intro y type kind fits
  have other : y ≠ x := by
    rintro rfl
    cases (Function.update_self ..).symm.trans kind
  obtain is | ⟨m, l, edge⟩ := named y type ((Function.update_of_ne other _ _).symm.trans kind) fits
  · exact .inl is
  · refine .inr ⟨m, l, (setEdge_ne _ ?_).trans edge⟩
    rintro ⟨rfl, rfl⟩
    exact other (Option.some.inj (edge.symm.trans found))

/-- A callback that keeps the names leaves no inode without one. -/
theorem Callback.Effect.named {types : DiskInodeType → Prop} {cb : Callback} {ret : Int} {out : Out} {n n' : FDManager}
    (sound : t.Sound) (named : t.Named types) (keeps : cb.KeepsNames types t) (effect : cb.Effect n t ret out n' u) :
    u.Named types := by
  cases effect with
  | reported => exact named
  | set => exact named
  | listed => exact named
  | refused => exact named
  | vfs effect =>
    cases effect with
    | created _ absent unused => exact named.create sound absent unused
    | made _ absent unused => exact named.create sound absent unused
    | removed _ _ _ found => exact named.remove found
    | renamed parts parts' parent parent' found _ _ moves =>
      exact named.renamed found (keeps _ _ _ _ _ _ _ _ rfl parts parts' parent parent' found) moves
    | written => exact named
    | truncated => exact named
    | opened => exact named
    | released => exact named
    | bytesRead => exact named
    | synced => exact named
    | refused => exact named

theorem TreeRun.named {types : DiskInodeType → Prop} {P : FDManager → FileTree → Callback → Prop} {n₀ n : FDManager}
    {t₀ : FileTree} {events : List Event} (sound : t₀.Sound) (named : t₀.Named types)
    (keeps : ∀ m t cb, P m t cb → cb.KeepsNames types t) (run : TreeRun P n₀ t₀ events n t) : t.Named types :=
  run.invariant (I := fun _ t => t.Named types) sound named fun sound named meets effect =>
    effect.named sound named (keeps _ _ _ meets)

end

end Sbfs
