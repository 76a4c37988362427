import Sbfs.EmptyDirectories
import Sbfs.Lookups
import Sbfs.Offsets
import Sbfs.RoundTrips

/-! # Calls on one inode, whatever the range

What `read_data` and `checkEmpty` do on any inode, and `write_data` and `resize` on a file, when the range may
lie anywhere: the other inodes stay, and so does what a directory has besides its times. -/

namespace Sbfs

open Slot

/-! ## Looking -/

theorem run_diskReadData_any (d : DiskInode) (offset len : Nat) (buf : Mem) (s : Disk) :
    ∃ ret got d' s', (d.readData offset len buf).run s = ((ret, got, d'), s') ∧ Retimed d d' ∧
      Touches (fun _ => False) s s' := by
  obtain ⟨d₁, s₁, run₁, retimed, -⟩ := run_updateMeta d 1 s
  have quiet := (d.readOnly_readData offset len buf).touches s
  generalize run : (d.readData offset len buf).run s = r at quiet ⊢
  obtain ⟨⟨ret, got, d'⟩, s'⟩ := r
  refine ⟨ret, got, d', s', rfl, ?_, quiet⟩
  simp only [DiskInode.readData, DevProg.run_bind, run₁] at run
  split at run
  · cases run
    exact retimed
  · split at run
    · cases run
      exact retimed
    · rw [DevProg.run_bind] at run
      split at run
      · cases run
        exact retimed
      · cases run
        exact retimed

section

variable {L : Layout} {s s₁ s' : Disk} {live : Nat → Prop} {a n : Nat} {d d₁ d' : DiskInode} {offset len : Nat}

theorem Looked.of_saved (slotId : L.SlotId a) (quiet : Touches (fun _ => False) s s₁)
    (retimed : Retimed (L.inode s.blocks a) d) (touches : Touches (· = (L.slot a).blockId) s₁ s')
    (saved : Saved (L.slot a) s₁ d s') : Looked L a s s' := by
  have blocks := quiet.quiet
  refine ⟨(quiet.mono fun _ => False.elim).trans touches, ?_, fun j there ne => ?_⟩
  · rw [Layout.inode_saved slotId saved]
    exact retimed
  · rw [Layout.inode_save slotId there saved touches, if_neg ne, blocks]

/-- `Inode::read_data` of any range. -/
theorem Populated.run_readData_any (state : Populated L s live) (here : live a) (offset : Nat) (buf : Mem)
    (size : Nat) :
    ∃ r s', (Inode.readData (L.slot a) offset buf size).run s = (r, s') ∧ Looked L a s s' := by
  obtain ⟨ret, got, d, s₁, run, retimed, quiet⟩ := run_diskReadData_any (L.inode s.blocks a) offset size buf s
  have slotId := state.slots a here
  obtain ⟨s', save, touches, saved⟩ := run_writeInode_saved d (quiet.count ▸ state.onDevice slotId)
  by_cases failed : ret = -1
  · refine ⟨(-1, got), s₁, ?_, .of_quiet quiet⟩
    simp only [Inode.readData, DevProg.run_bind, state.run_readInode here, run, failed, if_true, DevProg.run_pure]
  · refine ⟨(ret, got), s', ?_, .of_saved slotId quiet retimed touches saved⟩
    simp only [Inode.readData, DevProg.run_bind, state.run_readInode here, run, failed, if_false, save, DevProg.run_pure]

/-- The look into an inode that `sb_rmdir` takes: it lets those directories pass that have no entry but the dots, and
refuses such a directory only if it has no entry at all or more than a block can have. -/
theorem Populated.run_checkEmpty_any (uid gid : UInt16) (state : Populated L s live) (here : live a) :
    ∃ ret s', (checkEmpty uid gid (L.slot a)).run s = (ret, s') ∧ Looked L a s s' ∧
      ((L.inode s.blocks a).type ≠ kDirectory ∧ ret = -20 ∨ (L.inode s.blocks a).type = kDirectory ∧
        ((∃ x ∈ (L.inode s.blocks a).entries s.blocks, x.1 ≠ [] ∧ isDot x.1 = false) ∧ ret = -39 ∨
          (∀ x ∈ (L.inode s.blocks a).entries s.blocks, x.1 ≠ [] → isDot x.1 = true) ∧ (ret = 0 ∨ ret = -39 ∧
            ∀ n, (L.inode s.blocks a).size.toNat = 256 * n → n = 0 ∨ 16 < n))) := by
  obtain ⟨new, s₁, make, quiet, -⟩ := DiskInode.run_new kDirectory uid gid s
  obtain ⟨state₁, -⟩ := state.underneath (quiet.mono fun _ => False.elim)
  have read : (readInode (L.slot a)).run s₁ = (some (L.inode s.blocks a), s₁) := by
    rw [state₁.run_readInode here, quiet.quiet]
  by_cases isDir : (L.inode s.blocks a).type = kDirectory
  · by_cases real : ∃ x ∈ (L.inode s.blocks a).entries s.blocks, x.1 ≠ [] ∧ isDot x.1 = false
    · obtain ⟨s', run, looked⟩ := state.run_checkEmpty uid gid here isDir real
      exact ⟨-39, s', run, looked, .inr ⟨isDir, .inl ⟨real, rfl⟩⟩⟩
    · have only : ∀ x ∈ (L.inode s.blocks a).entries s.blocks, x.1 ≠ [] → isDot x.1 = true := by
        intro x member some
        by_contra other
        exact real ⟨x, member, some, Bool.not_eq_true _ ▸ other⟩
      by_cases few : ∃ n, (L.inode s.blocks a).size.toNat = 256 * n ∧ 1 ≤ n ∧ n ≤ 16
      · obtain ⟨n, aligned, lower, upper⟩ := few
        obtain ⟨s', run, looked⟩ := state.run_checkEmpty_dots uid gid here isDir aligned lower upper only
        exact ⟨0, s', run, looked, .inr ⟨isDir, .inr ⟨only, .inl rfl⟩⟩⟩
      · have odd : ∀ n, (L.inode s.blocks a).size.toNat = 256 * n → n = 0 ∨ 16 < n := by
          intro n aligned
          by_contra within
          exact few ⟨n, aligned, by omega, by omega⟩
        have isDir' : ¬ (L.inode s.blocks a).type ≠ kDirectory := not_not_intro isDir
        by_cases large : 1 < DiskInode.totalBlocks (L.inode s.blocks a).size.toNat
        · refine ⟨-39, s₁, ?_, .of_quiet quiet, .inr ⟨isDir, .inr ⟨only, .inr ⟨rfl, odd⟩⟩⟩⟩
          simp only [checkEmpty, DevProg.run_bind, make, read, Option.getD_some, isDir', if_false, large, if_true,
            DevProg.run_pure]
        · obtain ⟨⟨ret, dirBlk⟩, s', look, looked⟩ := state₁.run_readData_any here 0 (fun _ => 0) 4096
          refine ⟨if (List.range 16).any (realEntry dirBlk) then -39 else 0, s', ?_, looked.after quiet,
            .inr ⟨isDir, .inr ⟨only, ?_⟩⟩⟩
          · simp only [checkEmpty, DevProg.run_bind, make, read, Option.getD_some, isDir', if_false, large, look]
            split
            · rfl
            · rfl
          · split
            · exact .inr ⟨rfl, odd⟩
            · exact .inl rfl
  · refine ⟨-20, s₁, ?_, .of_quiet quiet, .inl ⟨isDir, rfl⟩⟩
    simp only [checkEmpty, DevProg.run_bind, make, read, Option.getD_some, isDir, ne_eq, not_false_eq_true, if_true,
      DevProg.run_pure]

theorem DiskInode.readOnly_syncBlocks (d : DiskInode) (n i : Nat) : (d.syncBlocks n i).ReadOnly := by
  induction n generalizing i with
  | zero => exact trivial
  | succ n ih =>
    refine (d.readOnly_blockId i).bind fun blk ok => ?_
    cases ok with
    | false => exact trivial
    | true => exact ih (i + 1)

theorem readOnly_sync (pos : Position) (metadata : Bool) : (Inode.sync pos metadata).ReadOnly := by
  refine (readOnly_readInode pos).bind fun read => ?_
  cases read with
  | none => exact trivial
  | some d =>
    refine DevProg.ReadOnly.bind ((d.readOnly_syncBlocks _ _).bind fun ret => ?_) fun ret => ?_
    · cases ret with
      | kFail => exact trivial
      | kSuccess => exact trivial
    · cases ret with
      | kFail => exact trivial
      | kSuccess =>
        cases metadata with
        | false => exact trivial
        | true =>
          intro ok
          cases ok with
          | false => exact trivial
          | true => exact trivial

/-! ## Block 0 -/

/-- No write request went to block 0. -/
abbrev KeepsSuper (s s' : Disk) : Prop := Touches (0 < ·) s s'

theorem KeepsSuper.of_quiet (quiet : Touches (fun _ => False) s s') : KeepsSuper s s' := quiet.mono fun _ => False.elim

/-- The blocks of inodes and the bitmap lie past block 0. -/
theorem Evolved.keepsSuper {bm : Bitmap} {W : Nat → Prop} (evolved : Evolved bm W d s d' s')
    (segment : bm.Segment s.count) (high : ∀ b, W b → 0 < b) : KeepsSuper s s' := by
  have := segment.high
  have := segment.after
  refine evolved.touches.mono fun b allowed => ?_
  obtain holds | inW | ⟨inside, -⟩ := allowed
  · have := holds.1
    omega
  · exact high b inW
  · have := inside.1
    omega

/-! ## Writing -/

/-- `DiskInode::write_data` when the file is large enough, or when the offset is negative as an `int`. -/
theorem run_diskWriteData_any {bm : Bitmap} (map : WellMapped bm d s.blocks) (segment : bm.Segment s.count)
    (failId : s.count ≤ kFailId) (start : offset < 4294967296) (small : len < 2147483648)
    (inFile : offset < 2147483648 → offset + len ≤ d.size.toNat) (buf : Mem) :
    ∃ ret d' s', (d.writeData offset buf len).run s = ((ret, d'), s') ∧ Retimed d d' ∧
      Touches (Listed (fun k => d.Owns (data k)) fun k => d.slotId s.blocks (data k)) s s' := by
  have bound := dataBlocks_le d.size.toNat_lt
  have located := located_of_map map segment fun k owns => by
    simp only [DiskInode.Owns, Valid] at owns
    omega
  have owned : ∀ k, 4096 * k < d.size.toNat → d.Owns (data k) := by
    intro k inside
    simp only [DiskInode.Owns, Valid, dataBlocks]
    omega
  by_cases some : 0 < len
  · by_cases high : 2147483648 ≤ offset
    · obtain ⟨d', s', run, retimed, quiet⟩ := run_diskWriteData_fails buf some start failId (.inr high)
      exact ⟨-1, d', s', run, retimed, quiet.mono fun _ => False.elim⟩
    · have fits := inFile (by omega)
      by_cases across : 2147483648 ≤ offset + len
      · obtain ⟨d', s', run, retimed, filled⟩ := run_diskWriteData_high buf located (by omega) across (by omega) fits
          failId (owned _ (by omega))
        exact ⟨_, d', s', run, retimed, filled.touches⟩
      · obtain ⟨ret, d', s', run, retimed, touches, -⟩ := run_diskWriteData buf located some fits failId
          fun k _ upper => owned k (by omega)
        exact ⟨ret, d', s', run, retimed, touches⟩
  · obtain rfl : len = 0 := by omega
    obtain ⟨d', s', stamp, retimed, quiet⟩ := run_updateMeta d 3 s
    refine ⟨0, d', s', ?_, retimed, quiet.mono fun _ => False.elim⟩
    simp only [DiskInode.writeData, DevProg.run_bind, stamp, if_true, DevProg.run_pure]

/-- Inode `n` may have other blocks and bytes; nothing else is different. -/
structure FileStep (L : Layout) (live : Nat → Prop) (n : Nat) (s s' : Disk) : Prop where
  state : Populated L s' live
  type : (L.inode s'.blocks n).type = (L.inode s.blocks n).type
  linkCnt : L.links s'.blocks n = L.links s.blocks n
  marks : SameMarks L s s'
  others : ∀ j, live j → j ≠ n → SameFile L j s s'

theorem WorkedOn.fileStep (worked : WorkedOn L live n s s') : FileStep L live n s s' :=
  ⟨worked.state, worked.type, worked.linkCnt, worked.marks, worked.others⟩

/-- The inode has not been saved. -/
theorem FileStep.of_unsaved (state : Populated L s live) (here : live n)
    (unsaved : Evolved L.formatted.dataBitmap (fun _ => False) (L.inode s.blocks n) s (L.inode s.blocks n) s') :
    FileStep L live n s s' := by
  have kept : ∀ j, live j → L.inode s'.blocks j = L.inode s.blocks j := fun j there =>
    Layout.inode_kept (state.slots j there) unsaved state.volume.segment
  obtain ⟨state', same⟩ := state.step here unsaved (fun _ => False.elim) (kept n here)
    (fun j => (L.inode s.blocks j).linkCnt) fun j there _ => kept j there
  constructor
  case state => exact state'
  case type => rw [kept n here]
  case linkCnt => rw [Layout.links, kept n here, Layout.links]
  case marks => exact .of_evolved unsaved state.volume.segment fun _ => False.elim
  case others => exact fun j there ne => (same j there ne).sameFile

/-- `Inode::write_data` with enough blocks; only a write that fails may leave blocks without an owner. -/
theorem Populated.run_writeData_any (state : Populated L s live) (here : live n) (start : offset < 4294967296)
    (small : len < 2147483648) (enough : growth (L.inode s.blocks n) ((offset + len) % 4294967296) ≤
      (L.formatted.dataBitmap.freeIds s.blocks).length) (buf : Mem) :
    ∃ ret s', (Inode.writeData L.formatted (L.slot n) offset buf len).run s = (ret, s') ∧ FileStep L live n s s' ∧
      (ret ≠ -1 → WorkedOn L live n s s') ∧ KeepsSuper s s' := by
  have slotId := state.slots n here
  have segment := state.volume.segment
  have onDevice := state.onDevice slotId
  have low := Layout.slot_low slotId
  have map := state.volume.map n here
  obtain ⟨d₁, s₁, grow, resized⟩ := run_growFor_wrapped offset len map segment enough
  have segment₁ : L.formatted.dataBitmap.Segment s₁.count := resized.touches.count ▸ segment
  obtain ⟨ret, d₂, s₂, write, retimed, touches⟩ := run_diskWriteData_any resized.map segment₁
    (resized.touches.count ▸ state.failId) start small (by rw [resized.size]; omega) buf
  -- growth, the bytes, the times
  have grown : Evolved L.formatted.dataBitmap (fun _ => False) (L.inode s.blocks n) s d₁ s₁ :=
    resized.evolved_grown (Nat.le_max_left _ _)
  obtain ⟨copied, copiedNoLeak, ids⟩ := Evolved.of_data (W := fun _ => False) resized.map segment₁ touches
  obtain ⟨stamped, stampedNoLeak⟩ := Evolved.retimed (W := fun _ => False) copied.map retimed (.refl _ s₂)
  have evolved := grown.trans (copied.trans stamped)
  have size : d₂.size = d₁.size := by rw [retimed]
  have pointers : d₂.slotId s₂.blocks = d₁.slotId s₂.blocks :=
    slotId_pointers (by rw [retimed]) (by rw [retimed]) (by rw [retimed]) _
  have larger : ∀ x, (L.inode s.blocks n).Owns x → d₁.Owns x := by
    intro x owns
    refine Valid.mono ?_ owns
    rw [resized.size]
    simp only [dataBlocks]
    omega
  have keeps : ∀ x, (L.inode s.blocks n).Owns x →
      d₂.slotId s₂.blocks x = (L.inode s.blocks n).slotId s.blocks x := by
    intro x owns
    rw [pointers, ids x (larger x owns), resized.keeps x owns (larger x owns)]
  have stored : inodeIn (s.blocks (L.slot n).blockId) (L.slot n).blockOffset = L.inode s.blocks n := rfl
  have parts : (Inode.writeData L.formatted (L.slot n) offset buf len).run s = _ :=
    Inode.run_writeData_parts onDevice stored
  rw [grow, Inode.run_store (resized.touches.count ▸ onDevice) write] at parts
  by_cases failed : ret = -1
  · rw [if_pos failed] at parts
    have unsaved := (evolved.unsaved map (fun x owns => by
      rw [DiskInode.Owns, size]
      exact larger x owns) keeps).1
    exact ⟨-1, s₂, parts, .of_unsaved state here unsaved, fun success => absurd rfl success,
      evolved.keepsSuper segment fun _ => False.elim⟩
  · rw [if_neg failed] at parts
    have count : s₂.count = s.count := evolved.touches.count
    generalize saving : s₂.put (L.slot n).blockId (putInode (s₂.blocks (L.slot n).blockId) (L.slot n).blockOffset d₂) = s'
      at parts
    have put : Touches (· = (L.slot n).blockId) s₂ s' := saving ▸ .put _ _ rfl
    have saved : Saved (L.slot n) s d₂ s' := by
      rw [Saved, ← saving, Store.put_blocks_same _ _ (count ▸ onDevice), evolved.slot_kept segment low id]
    obtain ⟨below, belowNoLeak, same⟩ := Evolved.of_below evolved.map (evolved.segment segment) put
      fun b is => is ▸ low
    obtain ⟨worked, -⟩ := WorkedOn.of_evolved state here ((evolved.mono fun _ => False.elim).trans below)
      (fun b is => .inl is) ((resized.noLeak.trans (copiedNoLeak.trans stampedNoLeak)).trans belowNoLeak) saved
      (fun x owns owns' => (same x owns').trans (keeps x owns)) (by rw [retimed]; exact resized.type)
      (by rw [retimed]; exact resized.linkCnt)
    have area := Layout.slot_area slotId
    rw [Layout.inodeAreaStart] at area
    exact ⟨ret, s', parts, worked.fileStep, fun _ => worked,
      (evolved.keepsSuper segment fun _ => False.elim).trans (put.mono fun b is => by omega)⟩

end

end Sbfs
