import Sbfs.Directories
import Sbfs.Vfs

/-! # Lookups

What only looks makes no write request: `read_data` of a record, `find` and `resolve`.  On the
disk they leave everything but the clock as it was, whatever they find. -/

namespace Sbfs

open DevProg ReqProg

/-! ## The read path of a record -/

namespace DiskInode

theorem readOnly_stamp (c : Bool) (f : UInt32 → DiskInode) (d : DiskInode) : (stamp c f d).ReadOnly := by
  cases c with
  | false => exact trivial
  | true => exact fun _ => trivial

theorem readOnly_updateMeta (d : DiskInode) (flag : Nat) : (d.updateMeta flag).ReadOnly :=
  (readOnly_stamp _ _ _).bind fun _ => (readOnly_stamp _ _ _).bind fun _ => readOnly_stamp _ _ _

theorem readOnly_blockId (d : DiskInode) (innerId : Nat) : (d.blockId innerId).ReadOnly := by
  rw [blockId]
  split
  · exact trivial
  · split
    · exact trivial
    · split
      · intro r
        cases r with
        | none => exact trivial
        | some buf => exact trivial
      · intro r
        cases r with
        | none => exact trivial
        | some buf =>
          intro r
          cases r with
          | none => exact trivial
          | some buf => exact trivial

theorem readOnly_readBlocks (d : DiskInode) (n : Nat) (i : Int) (bufoffset : Nat) (buf : Mem) :
    (d.readBlocks n i bufoffset buf).ReadOnly := by
  induction n generalizing i bufoffset buf with
  | zero => exact trivial
  | succ n ih =>
    refine (readOnly_blockId d _).bind fun blk r => ?_
    cases r with
    | none => exact trivial
    | some data => exact ih _ _ _

theorem readOnly_readRange (d : DiskInode) (l r : Int) (buf : Mem) : (d.readRange l r buf).ReadOnly := by
  refine (readOnly_blockId d _).bind fun lblk first => ?_
  cases first with
  | none => exact trivial
  | some data =>
    change (if _ then _ else _ : Prog (Bool × Mem)).ReadOnly
    split
    · exact trivial
    · refine (readOnly_readBlocks d _ _ _ _).bind fun whole => ?_
      obtain ⟨ok, buf⟩ := whole
      cases ok with
      | false => exact trivial
      | true =>
        change (if _ then _ else _ : Prog (Bool × Mem)).ReadOnly
        split
        · refine (readOnly_blockId d _).bind fun rblk last => ?_
          cases last with
          | none => exact trivial
          | some data => exact trivial
        · exact trivial

theorem readOnly_readData (d : DiskInode) (offset len : Nat) (buf : Mem) : (d.readData offset len buf).ReadOnly := by
  refine (readOnly_updateMeta d 1).bind fun d => ?_
  split
  · exact trivial
  · split
    · exact trivial
    · refine (readOnly_readRange d _ _ _).bind fun result => ?_
      obtain ⟨ok, buf⟩ := result
      cases ok with
      | false => exact trivial
      | true => exact trivial

end DiskInode

/-! ## `find` -/

theorem readOnly_readInode (pos : Position) : (readInode pos).ReadOnly := by
  intro r
  cases r with
  | none => exact trivial
  | some blk => exact trivial

theorem readOnly_scanFrom (name : Name) (n i : Nat) (dirBlk : Mem) (d : DiskInode) :
    (scanFrom name n i dirBlk d).ReadOnly := by
  induction n generalizing i dirBlk d with
  | zero => exact trivial
  | succ n ih =>
    refine (d.readOnly_readData _ _ _).bind fun result => ?_
    obtain ⟨len, got, d⟩ := result
    change (if _ then _ else _ : Prog (Scan × DiskInode)).ReadOnly
    split
    · exact trivial
    · cases findEntry got name with
      | none => exact ih _ _ _
      | some j => exact trivial

theorem readOnly_find (fs : SBFileSystem) (dir : Position) (name : Name) : (Inode.find fs dir name).ReadOnly := by
  refine (readOnly_readInode dir).bind fun read => ?_
  cases read with
  | none => exact trivial
  | some d =>
    change (if _ then _ else _ : Prog (Option Position)).ReadOnly
    split
    · exact trivial
    · refine (readOnly_scanFrom name _ _ _ d).bind fun result => ?_
      obtain ⟨r, d⟩ := result
      cases r with
      | failed => exact trivial
      | absent => exact trivial
      | found i j inode => exact trivial

/-! ## `resolve` -/

/-- A call other than `find`. -/
def NotFind (q : InodeReq) : Prop := (∀ dir name, q ≠ .find dir name) ∧ q ≠ .undefined

theorem walk_onlyFinds (r : PathResolver) (cur : Position) (rest : List (Name × Name)) :
    (r.walk cur rest).Avoids NotFind := by
  induction rest generalizing r cur with
  | nil => exact trivial
  | cons part rest ih =>
    refine ⟨fun other => other.1 _ _ rfl, fun answer => ?_⟩
    cases answer with
    | none => exact trivial
    | some next =>
      simp only [ReqProg.bind]
      cases r.remember part.2 next with
      | none => exact ⟨fun other => other.2 rfl, fun answer => Empty.elim answer⟩
      | some r => exact ih r next

theorem resolve_onlyFinds (r : PathResolver) (root : Position) (path : Name) :
    (r.resolve root path).Avoids NotFind := by
  rw [PathResolver.resolve]
  split
  · exact trivial
  · split
    · exact trivial
    · exact walk_onlyFinds _ _ _

section

variable {fs : SBFileSystem} {uid gid : UInt16} {α : Type} {s s' : Disk}

/-- A run of `find`s leaves the disk as it was. -/
theorem quiet_of_finds {p : VfsProg α} {a : α} (finds : p.Avoids NotFind)
    (runs : Runs (InodeReq.on fs uid gid Store.handler) p s a s') : Touches (fun _ => False) s s' := by
  refine finds.related (R := Touches fun _ => False) (.refl _) (fun _ _ _ => .trans) (fun q t r u find answer => ?_) runs
  obtain ⟨defined, run⟩ := answer
  cases q with
  | find dir name =>
    have touches := (readOnly_find fs dir name).touches t
    rw [show (Inode.find fs dir name).run t = (r, u) from run] at touches
    exact touches
  | _ => exact absurd ⟨fun _ _ same => (by cases same), defined⟩ find

/-- The disk answers in one way. -/
theorem on_functional {σ : Type} {device : Handler Block σ} (q : InodeReq) (t : σ) (r r' : q.Ans) (u u' : σ)
    (first : InodeReq.on fs uid gid device q t r u) (second : InodeReq.on fs uid gid device q t r' u') :
    r = r' ∧ u = u' := by
  obtain ⟨_, run⟩ := first
  obtain ⟨_, run'⟩ := second
  exact Prod.mk.inj (run.symm.trans run')

end

end Sbfs
