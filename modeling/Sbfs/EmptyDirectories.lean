import Sbfs.Attributes
import Sbfs.LinkCounts

/-! # Removing directories

`sb_rmdir` counts the blocks of the directory and then looks into the first one only.  The entries
are packed, so a directory of more than one block has an entry to spare, and a smaller one lies in
that block as a whole: an entry other than `.` and `..` is seen wherever it stands
(`rmdir_only_empty`). -/

namespace Sbfs

open ReqProg

/-! ## Looking into a directory -/

theorem realEntry_iff (f : Mem) (j : Nat) :
    realEntry f j = true ↔ (entryAt f j).1 ≠ [] ∧ isDot (entryAt f j).1 = false := by
  have first : (entryAt f j).1 = [] ↔ f (256 * j) = 0 := by
    change cString (fun p => f (256 * j + p)) (251 + 1) = [] ↔ _
    rw [cString_eq_nil, Nat.add_zero]
  have dot := strEq_iff (f := fun p => f (256 * j + p)) dot_proper
  have dotdot := strEq_iff (f := fun p => f (256 * j + p)) dotdot_proper
  change _ ↔ (entryAt f j).1 = [46] at dot
  change _ ↔ (entryAt f j).1 = [46, 46] at dotdot
  rw [realEntry, isDot, Bool.and_eq_true, Bool.and_eq_true, bne_iff_ne, Bool.not_eq_true', Bool.not_eq_true',
    ← Bool.not_eq_true, ← Bool.not_eq_true, dot, dotdot, ne_eq, ne_eq, first, Bool.or_eq_false_iff, beq_eq_false_iff_ne,
    beq_eq_false_iff_ne, and_assoc]

/-- Between `s` and `s'` inode `a` has been looked at: no more than its times are different. -/
structure Looked (L : Layout) (a : Nat) (s s' : Disk) : Prop where
  touches : Touches (· = (L.slot a).blockId) s s'
  inode : Retimed (L.inode s.blocks a) (L.inode s'.blocks a)
  others : ∀ j, L.SlotId j → j ≠ a → L.inode s'.blocks j = L.inode s.blocks j

/-- No directory has lost or got an entry, and no inode or block has been taken or given up. -/
structure NothingRemoved (L : Layout) (live : Nat → Prop) (s s' : Disk) : Prop where
  types : ∀ j, live j → (L.inode s'.blocks j).type = (L.inode s.blocks j).type
  maps : ∀ j, live j → (L.inode s'.blocks j).entries s'.blocks = (L.inode s.blocks j).entries s.blocks
  inodes : ∀ i, L.formatted.inodeBitmap.Used s'.blocks i ↔ L.formatted.inodeBitmap.Used s.blocks i
  blocks : ∀ b, L.formatted.dataBitmap.Used s'.blocks b ↔ L.formatted.dataBitmap.Used s.blocks b

section

variable {L : Layout} {a : Nat} {s s₁ s₂ s' : Disk} {live : Nat → Prop}

theorem Looked.of_quiet (quiet : Touches (fun _ => False) s s') : Looked L a s s' where
  touches := quiet.mono fun _ => False.elim
  inode := by
    rw [quiet.quiet]
    exact .refl _
  others := fun j _ _ => by rw [quiet.quiet]

theorem Looked.after (quiet : Touches (fun _ => False) s s₁) (looked : Looked L a s₁ s') : Looked L a s s' where
  touches := (quiet.mono fun _ => False.elim).trans looked.touches
  inode := quiet.quiet ▸ looked.inode
  others := quiet.quiet ▸ looked.others

theorem Looked.nothingRemoved (looked : Looked L a s s') (state : Populated L s live) (here : live a) :
    NothingRemoved L live s s' := by
  have slotId := state.slots a here
  have low : Touches (fun b => b < L.formatted.dataBitmap.startBlockId) s s' :=
    looked.touches.mono fun b (is : b = _) => is ▸ Layout.slot_low slotId
  have marks : SameMarks L s s' := .of_touches looked.touches fun b is => .inr (is ▸ Layout.slot_area slotId)
  -- the records are the same but for the times
  have copy : ∀ j, live j → Retimed (L.inode s.blocks j) (L.inode s'.blocks j) := by
    intro j there
    by_cases same : j = a
    · exact same ▸ looked.inode
    · rw [looked.others j (state.slots j there) same]
      exact .refl _
  constructor
  case types =>
    intro j there
    rw [copy j there]
  case maps =>
    intro j there
    rw [(SameMap.of_retimed (copy j there)).entries, (state.volume.below_unmoved low there).entries]
  case inodes => exact marks.used
  case blocks => exact Volume.below_used low

/-- A directory of one block is read as a whole; behind its last entry the buffer is empty. -/
theorem Populated.run_checkEmpty_within (uid gid : UInt16) (state : Populated L s live) (here : live a)
    (type : (L.inode s.blocks a).type = kDirectory) (small : ¬ 1 < DiskInode.totalBlocks (L.inode s.blocks a).size.toNat)
    (some : 0 < (L.inode s.blocks a).size.toNat) :
    ∃ dirBlk s', (checkEmpty uid gid (L.slot a)).run s =
        (if (List.range 16).any (realEntry dirBlk) then -39 else 0, s') ∧ Looked L a s s' ∧
      (L.inode s.blocks a).size.toNat ≤ 4096 ∧
      (∀ e, 256 * e + 256 ≤ (L.inode s.blocks a).size.toNat →
        entryAt dirBlk e = entryAt ((L.inode s.blocks a).byte s.blocks) e) ∧
      ∀ i, (L.inode s.blocks a).size.toNat ≤ i → dirBlk i = 0 := by
  have slotId := state.slots a here
  obtain ⟨new, s₁, make, quiet, -⟩ := DiskInode.run_new kDirectory uid gid s
  obtain ⟨state₁, same⟩ := state.underneath (quiet.mono fun _ => False.elim)
  have record := (same a here).inode
  have read : (readInode (L.slot a)).run s₁ = (.some (L.inode s.blocks a), s₁) := by
    rw [state₁.run_readInode here, record]
  have isDir : ¬ (L.inode s.blocks a).type ≠ kDirectory := not_not_intro type
  have blocks := (totalBlocks_cases (L.inode s.blocks a).size.toNat).1
  have size : (L.inode s.blocks a).size.toNat ≤ 4096 := by
    simp only [dataBlocks] at blocks
    omega
  have stored : (L.inode s.blocks a).At s₁.blocks (L.slot a) := record
  obtain ⟨d', s', run, retimed, touches, saved⟩ := Inode.run_readData stored (Layout.slot_low slotId)
    (record ▸ state₁.volume.map a here) state₁.volume.segment (show 0 < 4096 by decide) some (.inl (by omega))
    state₁.failId (by decide) fun _ => 0
  have looked : Looked L a s₁ s' := by
    refine ⟨touches, ?_, fun j there ne => ?_⟩
    · rw [Layout.inode_saved slotId saved, record]
      exact retimed
    · rw [Layout.inode_save slotId there saved touches, if_neg ne]
  generalize held : splice (fun _ => 0) 0 (min 4096 ((L.inode s.blocks a).size.toNat - 0))
    (fun i => (L.inode s.blocks a).byte s₁.blocks (0 + i)) = dirBlk at run
  refine ⟨dirBlk, s', ?_, looked.after quiet, size, fun e inside => entryAt_congr fun p within => ?_, fun i past => ?_⟩
  · simp only [checkEmpty, DevProg.run_bind, make, read, Option.getD_some, isDir, if_false, small, run]
    split
    · rfl
    · rfl
  · rw [← held, splice_inside (by omega) (by omega), quiet.quiet, Nat.sub_zero, Nat.zero_add]
  · rw [← held, splice_outside (by omega)]

/-- An entry in use other than `.` and `..` is found, and the directory is left as it is. -/
theorem Populated.run_checkEmpty (uid gid : UInt16) (state : Populated L s live) (here : live a)
    (type : (L.inode s.blocks a).type = kDirectory)
    (real : ∃ x ∈ (L.inode s.blocks a).entries s.blocks, x.1 ≠ [] ∧ isDot x.1 = false) :
    ∃ s', (checkEmpty uid gid (L.slot a)).run s = (-39, s') ∧ Looked L a s s' := by
  by_cases large : 1 < DiskInode.totalBlocks (L.inode s.blocks a).size.toNat
  · obtain ⟨new, s₁, make, quiet, -⟩ := DiskInode.run_new kDirectory uid gid s
    obtain ⟨state₁, same⟩ := state.underneath (quiet.mono fun _ => False.elim)
    have read : (readInode (L.slot a)).run s₁ = (some (L.inode s.blocks a), s₁) := by
      rw [state₁.run_readInode here, (same a here).inode]
    refine ⟨s₁, ?_, .of_quiet quiet⟩
    simp only [checkEmpty, DevProg.run_bind, make, read, Option.getD_some, type, ne_eq, not_true_eq_false, if_false, large,
      if_true, DevProg.run_pure]
  · obtain ⟨x, member, real⟩ := real
    obtain ⟨e, inside, rfl⟩ := mem_entriesIn.mp member
    obtain ⟨dirBlk, s', run, looked, size, entry, -⟩ := state.run_checkEmpty_within uid gid here type large (by omega)
    have seen : (List.range 16).any (realEntry dirBlk) = true := by
      refine List.any_eq_true.mpr ⟨e, List.mem_range.mpr (by omega), (realEntry_iff dirBlk e).mpr ?_⟩
      rw [entry e (by omega)]
      exact real
    rw [seen, if_pos rfl] at run
    exact ⟨s', run, looked⟩

/-- A directory of a few entries, all of them `.` or `..`, passes. -/
theorem Populated.run_checkEmpty_dots (uid gid : UInt16) (state : Populated L s live) (here : live a)
    (type : (L.inode s.blocks a).type = kDirectory) {n : Nat} (aligned : (L.inode s.blocks a).size.toNat = 256 * n)
    (some : 1 ≤ n) (few : n ≤ 16) (dots : ∀ x ∈ (L.inode s.blocks a).entries s.blocks, x.1 ≠ [] → isDot x.1 = true) :
    ∃ s', (checkEmpty uid gid (L.slot a)).run s = (0, s') ∧ Looked L a s s' := by
  have blocks := (totalBlocks_cases (L.inode s.blocks a).size.toNat).2.1
  have one : dataBlocks (L.inode s.blocks a).size.toNat = 1 := by
    simp only [dataBlocks]
    omega
  obtain ⟨dirBlk, s', run, looked, -, entry, empty⟩ := state.run_checkEmpty_within uid gid here type
    (by rw [blocks (by omega)]; omega) (by omega)
  have none : (List.range 16).any (realEntry dirBlk) = false := by
    refine List.any_eq_false.mpr fun e _ seen => ?_
    obtain ⟨used, other⟩ := (realEntry_iff dirBlk e).mp seen
    by_cases inside : e < n
    · rw [entry e (by omega)] at used other
      rw [dots _ (mem_entriesIn.mpr ⟨e, by omega, rfl⟩) used] at other
      cases other
    · refine used ?_
      change cString (fun p => dirBlk (256 * e + p)) (251 + 1) = []
      rw [cString_eq_nil]
      exact empty _ (by omega)
  rw [none, if_neg Bool.false_ne_true] at run
  exact ⟨s', run, looked⟩

/-! ## `sb_rmdir` -/

/-- The path leads to inode `a`: the part before its last slash leads to some inode, and `find` of
the rest there gives `a`. -/
def Names (L : Layout) (uid gid : UInt16) (v : Vfs) (path : Name) (a : Nat) (s : Disk) : Prop :=
  ∃ parent v₁ s₁ s₂, parent.isValid = true ∧
    Runs (InodeReq.on L.formatted uid gid Store.handler) (v.resolve (splitFromLastSlash path).1) s (parent, v₁) s₁ ∧
    Runs (InodeReq.on L.formatted uid gid Store.handler) (VfsProg.find parent (splitFromLastSlash path).2) s₁
      (some (L.slot a)) s₂

/-- The way to the directory changes nothing. -/
theorem Names.runs {uid gid : UInt16} {v : Vfs} {path : Name} (names : Names L uid gid v path a s) :
    ∃ v₁ s₂, Touches (fun _ => False) s s₂ ∧ ∀ ret s', ret ≠ 0 →
      (checkEmpty uid gid (L.slot a)).run s₂ = (ret, s') →
      Runs (InodeReq.on L.formatted uid gid Store.handler) (v.sbRmdir path) s (ret, v₁) s' := by
  obtain ⟨parent, v₁, s₁, s₂, valid, resolve, find⟩ := names
  have walks : (v.resolve (splitFromLastSlash path).1).Avoids NotFind :=
    (resolve_onlyFinds _ _ _).bind fun _ => trivial
  have finds : (VfsProg.find parent (splitFromLastSlash path).2).Avoids NotFind :=
    ⟨fun other => other.1 _ _ rfl, fun _ => trivial⟩
  have walked := quiet_of_finds walks resolve
  have found := quiet_of_finds finds find
  refine ⟨v₁, s₂, walked.trans found, fun ret s' nonzero check => ?_⟩
  rw [Vfs.sbRmdir]
  refine resolve.bind ?_
  simp only [valid, Bool.not_true, Bool.false_eq_true, if_false]
  refine find.bind ?_
  refine Runs.bind (runs_call.mpr ⟨by simp, check⟩) ?_
  simp only [nonzero, ne_eq, not_false_eq_true, if_true]
  exact .done

/-- `sb_rmdir` removes no directory that has an entry other than `.` and `..`, and it says so
without changing anything. -/
theorem rmdir_only_empty (L : Layout) (uid gid : UInt16) (state : Populated L s live) (here : live a)
    (type : (L.inode s.blocks a).type = kDirectory)
    (named : ∀ x ∈ (L.inode s.blocks a).entries s.blocks, x.1 ≠ []) {v : Vfs} {path : Name}
    (names : Names L uid gid v path a s) :
    (∀ v' s', Runs (InodeReq.on L.formatted uid gid Store.handler) (v.sbRmdir path) s (0, v') s' →
      ∀ x ∈ (L.inode s.blocks a).entries s.blocks, x.1 = [46] ∨ x.1 = [46, 46]) ∧
    ((∃ x ∈ (L.inode s.blocks a).entries s.blocks, x.1 ≠ [46] ∧ x.1 ≠ [46, 46]) → ∃ v' s',
      (∀ r t, Runs (InodeReq.on L.formatted uid gid Store.handler) (v.sbRmdir path) s r t ↔ r = (-39, v') ∧ t = s') ∧
      NothingRemoved L live s s') := by
  have refused : (∃ x ∈ (L.inode s.blocks a).entries s.blocks, x.1 ≠ [46] ∧ x.1 ≠ [46, 46]) → ∃ v' s',
      (∀ r t, Runs (InodeReq.on L.formatted uid gid Store.handler) (v.sbRmdir path) s r t ↔ r = (-39, v') ∧ t = s') ∧
      NothingRemoved L live s s' := by
    rintro ⟨x, member, notDot, notDotdot⟩
    obtain ⟨v₁, s₂, quiet, rest⟩ := names.runs
    obtain ⟨state₂, same⟩ := state.underneath (quiet.mono fun _ => False.elim)
    obtain ⟨s', check, looked⟩ := state₂.run_checkEmpty uid gid here (quiet.quiet ▸ type)
      (quiet.quiet.symm ▸ ⟨x, member, named x member, by simp [isDot, notDot, notDotdot]⟩)
    have run := rest _ s' (by decide) check
    refine ⟨v₁, s', fun r t => ⟨fun other => ?_, ?_⟩, (looked.after quiet).nothingRemoved state here⟩
    · exact Runs.unique on_functional other run
    · rintro ⟨rfl, rfl⟩
      exact run
  refine ⟨fun v' s' removed x member => ?_, refused⟩
  by_contra other
  obtain ⟨v₁, s₂, only, -⟩ := refused ⟨x, member, not_or.mp other⟩
  cases ((only _ _).mp removed).1

end

/-! ### A directory with one file -/

/-- The directory `a` in the root. -/
theorem loneDisk_mkdir : ∃ s, Counted .default loneRefs s ∧ (∀ j, Layout.default.Allocated s j ↔ j = 2 ∨ j = 3) ∧
    Created .default (Layout.default.Allocated loneDisk) 2 [97] 3 loneDirectory loneDisk s := by
  have on : CallOn .default loneDisk 2 :=
    ⟨(loneDisk_used 2).mpr rfl, loneDisk_state.dir.type, by rw [loneDisk_entries]; decide⟩
  have grown : growth loneDirectory 256 + newBlocks loneDirectory = 2 := by decide
  have proper : ProperName [97] := .of_all (by decide) (by decide) rfl
  obtain ⟨s, -, ok, same, created⟩ := loneDisk_counted.run_create on proper (by decide)
    (by rw [loneDisk_entries]; exact fun x none => absurd none List.not_mem_nil) loneDirectory_empty rfl loneDisk_head
    ⟨by decide, by decide⟩ (by
      rw [loneDisk_inode, loneDisk_blocks]
      exact (Nat.le_of_eq grown).trans (by decide))
  exact ⟨s, ok, fun j => (same j).trans (or_congr_left (loneDisk_used j)), created⟩

/-- The file `b` in the directory `a`. -/
theorem loneDisk_nested : ∃ s, Counted .default loneRefs s ∧ CallOn .default s 2 ∧ CallOn .default s 3 ∧
    (Layout.default.inode s.blocks 2).entries s.blocks = [([97], 3)] ∧
    ∃ n, (Layout.default.inode s.blocks 3).entries s.blocks = [([46], 3), ([46, 46], 2), ([98], n)] := by
  obtain ⟨s₁, ok₁, used₁, created₁⟩ := loneDisk_mkdir
  obtain ⟨dir, dots⟩ := created₁.new.dots rfl
  have root := created₁.edited.entries
  rw [loneDisk_entries, List.nil_append] at root
  have on₁ : CallOn .default s₁ 3 := ⟨(used₁ 3).mpr (.inr rfl), dir.type, by rw [dots]; decide⟩
  have proper : ProperName [98] := .of_all (by decide) (by decide) rfl
  have size := dir.aligned
  rw [dots] at size
  have grown : growth (Layout.default.inode s₁.blocks 3) ((Layout.default.inode s₁.blocks 3).size.toNat + 256) = 0 :=
    growth_shrink (by rw [size]; decide)
  -- the lowest two of the 32768 slots are taken
  have head : (Layout.default.formatted.inodeBitmap.freeIds s₁.blocks).head? = some 4 := by
    refine Bitmap.head_freeIds ((default_inSegment 4).mpr (by decide)) (fun used => absurd ((used₁ 4).mp used) (by decide))
      fun j inside low => ?_
    have := (default_inSegment j).mp inside
    exact (used₁ j).mpr (by omega)
  obtain ⟨s₂, -, ok₂, used₂, created₂⟩ := ok₁.run_create on₁ proper (by decide) (by simp [dots]) emptyFile_empty rfl head
    ⟨by decide, by decide⟩ (by rw [grown]; exact Nat.zero_le _)
  have entries := created₂.edited.entries
  rw [dots] at entries
  have same := (created₂.edited.others 2 ((used₁ 2).mpr (.inl rfl)) (by decide)).entries.trans root
  have type := (created₂.edited.others 2 ((used₁ 2).mpr (.inl rfl)) (by decide)).isDirectory created₁.edited.dir
  refine ⟨s₂, ok₂, ⟨(used₂ 2).mpr (.inl ((used₁ 2).mpr (.inl rfl))), type.type, ?_⟩,
    ⟨(used₂ 3).mpr (.inl on₁.here), created₂.edited.dir.type, ?_⟩, same, 4, entries⟩
  · rw [same]
    decide
  · rw [entries]
    exact show 3 < 8388607 by decide

theorem rmdir_only_empty_nested : ∃ s v' s', NothingRemoved .default (Layout.default.Allocated s) s s' ∧ ∀ r t,
    Runs (InodeReq.on Layout.default.formatted 0 0 Store.handler) (loneVfs.sbRmdir [47, 97]) s r t ↔
      r = (-39, v') ∧ t = s' := by
  obtain ⟨s, ok, root, on, names, n, entries⟩ := loneDisk_nested
  have dir := ok.dirs 3 on.here on.type
  have proper : ProperName [97] := .of_all (by decide) (by decide) rfl
  obtain ⟨s₂, found, -⟩ := ok.state.run_find root.here (ok.searchable root) proper
  have bound : ([97], 3) ∈ (Layout.default.inode s.blocks 2).entries s.blocks := names ▸ List.mem_cons_self
  rw [(PackedMap.find_eq_some (ok.dirs 2 root.here root.type).distinct).mpr bound] at found
  have path : Names .default 0 0 loneVfs [47, 97] 3 s :=
    ⟨Layout.default.slot 2, _, s, s₂, rfl, .done, runs_call.mpr ⟨by simp, found⟩⟩
  have other : ([98] : Name) ≠ [46] ∧ ([98] : Name) ≠ [46, 46] := by decide
  obtain ⟨v', s', only, nothing⟩ := (rmdir_only_empty .default 0 0 ok.state on.here on.type
    (fun x member => (dir.names x member).some) path).2 ⟨([98], n), by simp [entries], other⟩
  exact ⟨s, v', s', nothing, only⟩

end Sbfs
