import Sbfs.DirectoryMap

/-! # Linking in directories of every size

The search of `link` has as many rounds as the directory has blocks, index blocks included,
and a round that fails makes `link` fail.  With index blocks there are rounds behind the last
entry, which fail unless the directory fills its last block and the id that is found behind
it happens to be one of the device. -/

namespace Sbfs

open Slot PackedMap

/-- `link` binds a name that the directory does not have, so that `find` finds it. -/
def Binds (L : Layout) (a : Nat) (name : Name) (t : Nat) (s : Disk) : Prop :=
  ∃ s', (Inode.link L.formatted (L.slot a) name (L.slot t) false).run s = (.kSuccess, s') ∧
    ((Inode.find L.formatted (L.slot a) name).run s').1 = some (L.slot t)

/-- What is asked of `link` in directory `a`. -/
structure LinksInto (L : Layout) (a : Nat) (name : Name) (t : Nat) (s : Disk) : Prop where
  new : (∀ x, (name, x) ∉ (L.inode s.blocks a).entries s.blocks) → Binds L a name t s
  replacing : ((Inode.link L.formatted (L.slot a) name (L.slot t) true).run s).1 = .kSuccess

section

variable {L : Layout} {s s₁ : Disk} {live : Nat → Prop} {a t i j x : Nat} {d : DiskInode} {name : Name}

theorem Populated.run_scan_exactly (state : Populated L s live) (here : live a)
    (dir : IsDirectory (L.inode s.blocks a) s.blocks) (proper : ProperName name) :
    ∃ r d s', (scan (L.inode s.blocks a) name).run s = ((r, d), s') ∧ Retimed (L.inode s.blocks a) d ∧
      Touches (fun _ => False) s s' ∧
      r.Exactly ((L.inode s.blocks a).entries s.blocks) ((L.inode s.blocks a).ScanEnds s) name :=
  Sbfs.run_scan_exactly proper (state.volume.map a here) state.volume.segment state.failId dir.aligned

theorem Populated.run_link_failed (state : Populated L s live) (here : live a)
    (run : (scan (L.inode s.blocks a) name).run s = ((.failed, d), s₁)) (t : Nat) (replace : Bool) :
    ((Inode.link L.formatted (L.slot a) name (L.slot t) replace).run s).1 = .kFail := by
  simp only [Inode.link, DevProg.run_bind, state.run_readInode here]
  split
  · rfl
  · simp only [DevProg.run_bind, run, DevProg.run_pure]

/-- An entry below `2 ^ 31` is replaced. -/
theorem Populated.run_link_found (state : Populated L s live) (here : live a) (slotId : L.SlotId t)
    (dir : IsDirectory (L.inode s.blocks a) s.blocks)
    (run : (scan (L.inode s.blocks a) name).run s = ((.found i j x, d), s₁))
    (retimed : Retimed (L.inode s.blocks a) d) (quiet : Touches (fun _ => False) s s₁) (inBlock : j < 16)
    (low : i < 524288) (entry : ((L.inode s.blocks a).entries s.blocks)[16 * i + j]? = some (name, x)) :
    ((Inode.link L.formatted (L.slot a) name (L.slot t) true).run s).1 = .kSuccess := by
  have isDir : ¬ (L.inode s.blocks a).type ≠ kDirectory := not_not_intro dir.type
  obtain ⟨s₂, modify, state₂, copy, -⟩ := state.run_modifyInode_copy here slotId (· + 1) quiet retimed
  have inside := (List.getElem?_eq_some_iff.mp entry).1
  have aligned := dir.aligned
  have size := d.size.toNat_lt
  have located := located_of_map (copy.map (state₂.volume.map a here)) state₂.volume.segment fun k owns => by
    have := dataBlocks_le size
    simp only [DiskInode.Owns, Valid] at owns
    omega
  have fits : 256 * (16 * i + j) + 256 ≤ d.size.toNat := by
    rw [retimed.size]
    omega
  obtain ⟨ret, d', s₃, write, -, touches, good⟩ := run_diskWriteData (dirEntry name t) located
    (show 0 < 256 by decide) fits state₂.failId fun k _ upper => by
      simp only [DiskInode.Owns, Valid, dataBlocks]
      omega
  obtain ⟨rfl, -⟩ := good (by rw [FitsInt]; omega)
  have place : entryOffset i j = 256 * (16 * i + j) := by
    rw [entryOffset]
    omega
  have onDevice : (L.slot a).blockId < s₃.count :=
    touches.count ▸ state₂.onDevice (state.slots a here)
  simp only [Inode.link, DevProg.run_bind, state.run_readInode here, isDir, if_false, run,
    Layout.diskInodeId_slot slotId, if_true, modify, place, write, show ¬ ((256 : Nat) : Int) = -1 by decide,
    run_writeInode d' onDevice]

theorem DiskInode.ScanEnds.few (ends : d.ScanEnds s) : dataBlocks d.size.toNat < 1047 := by
  cases ends with
  | inl few => omega
  | inr ends => exact ends.1

theorem Populated.searchable_of_ends (dir : IsDirectory (L.inode s.blocks a) s.blocks)
    (ends : (L.inode s.blocks a).ScanEnds s) : Searchable L a s := by
  refine ⟨dir, ?_⟩
  have few := ends.few
  have aligned := dir.aligned
  simp only [dataBlocks] at few
  omega

/-- A name that is not there, when the search gets to the end. -/
theorem Populated.run_link_new (state : Populated L s live) (here : live a) (there : live t)
    (dir : IsDirectory (L.inode s.blocks a) s.blocks) (proper : ProperName name)
    (enough : growth (L.inode s.blocks a) ((L.inode s.blocks a).size.toNat + 256) ≤
      (L.formatted.dataBitmap.freeIds s.blocks).length)
    (unbound : ∀ x, (name, x) ∉ (L.inode s.blocks a).entries s.blocks)
    (ends : (L.inode s.blocks a).ScanEnds s) (replace : Bool) :
    ∃ s', (Inode.link L.formatted (L.slot a) name (L.slot t) replace).run s = (.kSuccess, s') ∧
      ((Inode.find L.formatted (L.slot a) name).run s').1 = some (L.slot t) := by
  have ok := Populated.searchable_of_ends dir ends
  obtain ⟨r, d, s₁, run, retimed, quiet, exactly⟩ := state.run_scan_exactly here dir proper
  cases exactly with
  | found _ _ entry => exact absurd (List.mem_of_getElem? entry) (unbound _)
  | failed _ stuck => exact absurd ends stuck
  | absent none =>
    obtain ⟨ret, s', link, result, success⟩ := state.run_link_absent here ok proper (state.slots t there) replace
      run retimed quiet none
    obtain rfl := success enough
    refine ⟨s', link, ?_⟩
    cases result with
    | done linked _ edited =>
      have ok' : Searchable L a s' := by
        refine ⟨edited.dir, ?_⟩
        have few := ends.few
        have aligned := dir.aligned
        have length : ((L.inode s'.blocks a).entries s'.blocks).length ≤
            ((L.inode s.blocks a).entries s.blocks).length + 1 := by
          rw [edited.entries]
          cases linked with
          | replaced => simp
          | appended => simp
        simp only [dataBlocks] at few
        omega
      obtain ⟨s'', find, -⟩ := edited.state.run_find here ok' proper
      rw [find, edited.entries, linked.find dir.distinct, Function.update_self]
      rfl

/-- A name that is not there, when the search does not get to the end. -/
theorem Populated.run_link_stuck (state : Populated L s live) (here : live a)
    (dir : IsDirectory (L.inode s.blocks a) s.blocks) (proper : ProperName name)
    (far : ∀ e x, ((L.inode s.blocks a).entries s.blocks)[e]? = some (name, x) → 8388608 ≤ e)
    (stuck : (∀ x, (name, x) ∉ (L.inode s.blocks a).entries s.blocks) → ¬ (L.inode s.blocks a).ScanEnds s)
    (t : Nat) (replace : Bool) :
    ((Inode.link L.formatted (L.slot a) name (L.slot t) replace).run s).1 = .kFail := by
  obtain ⟨r, d, s₁, run, retimed, quiet, exactly⟩ := state.run_scan_exactly here dir proper
  cases exactly with
  | found inBlock low entry =>
    have := far _ _ entry
    omega
  | absent none ends => exact absurd ends (stuck none)
  | failed => exact state.run_link_failed here run t replace

end

/-- `link` works in a directory exactly if it finds the name below `2 ^ 31`, or the name is not
there and its search gets to the end. -/
theorem links_into_iff (L : Layout) {live : Nat → Prop} {s : Disk} (state : Populated L s live) {a t : Nat}
    (here : live a) (there : live t) (dir : IsDirectory (L.inode s.blocks a) s.blocks) {name : Name}
    (proper : ProperName name)
    (enough : growth (L.inode s.blocks a) ((L.inode s.blocks a).size.toNat + 256) ≤
      (L.formatted.dataBitmap.freeIds s.blocks).length) :
    LinksInto L a name t s ↔
      (∃ e x, e < 8388608 ∧ ((L.inode s.blocks a).entries s.blocks)[e]? = some (name, x)) ∨
      (∀ x, (name, x) ∉ (L.inode s.blocks a).entries s.blocks) ∧ (L.inode s.blocks a).ScanEnds s := by
  constructor
  · intro links
    by_contra neither
    rw [not_or, not_and] at neither
    obtain ⟨far, stuck⟩ := neither
    have fails := state.run_link_stuck here dir proper (fun e x entry => Nat.le_of_not_lt fun near =>
      far ⟨e, x, near, entry⟩) stuck t true
    rw [links.replacing] at fails
    cases fails
  · rintro (⟨e, y, near, entry⟩ | ⟨unbound, ends⟩)
    · have bound := List.mem_of_getElem? entry
      obtain ⟨r, d, s₁, run, retimed, quiet, exactly⟩ := state.run_scan_exactly here dir proper
      refine ⟨fun unbound => absurd bound (unbound y), ?_⟩
      cases exactly with
      | found inBlock low found =>
        exact state.run_link_found here (state.slots t there) dir run retimed quiet inBlock low found
      | absent none => exact absurd bound (none y)
      | failed far => exact absurd (far e y entry) (Nat.not_le_of_lt near)
    · obtain ⟨s', run, found⟩ := state.run_link_new here there dir proper enough unbound ends true
      refine ⟨fun _ => state.run_link_new here there dir proper enough unbound ends false, ?_⟩
      rw [run]

/-- Into a directory with the file `f`, the file is linked once more under `g`, and over itself. -/
theorem links_into_iff_file : ∃ s,
    (Inode.create Layout.default.formatted (Layout.default.slot 2) [102] emptyFile).run loneDisk =
      ((.kSuccess, some (Layout.default.slot 3)), s) ∧
    LinksInto .default 2 [103] 3 s ∧ LinksInto .default 2 [102] 3 s := by
  have f : ProperName [102] := .of_all (by decide) (by decide) rfl
  have g : ProperName [103] := .of_all (by decide) (by decide) rfl
  obtain ⟨s, create, created, entries⟩ := loneDisk_file
  have dir := created.edited.dir
  have size := dir.aligned
  rw [entries] at size
  have enough : growth (Layout.default.inode s.blocks 2) ((Layout.default.inode s.blocks 2).size.toNat + 256) ≤
      (Layout.default.formatted.dataBitmap.freeIds s.blocks).length := by
    rw [dir.next_fits (by rw [entries]; decide)]
    exact Nat.zero_le _
  refine ⟨s, create, (links_into_iff .default created.state (.inl rfl) (.inr rfl) dir g enough).mpr (.inr ⟨?_, ?_⟩),
    (links_into_iff .default created.state (.inl rfl) (.inr rfl) dir f enough).mpr (.inl ⟨0, 3, by decide, ?_⟩)⟩
  · rw [entries]
    simp
  · rw [DiskInode.ScanEnds, size]
    exact .inl (by decide)
  · rw [entries]
    rfl

/-! ### A directory of 23 blocks -/

/-- The name of entry `e`. -/
def wideName (e : Nat) : Name := [UInt8.ofNat (1 + e % 128), UInt8.ofNat (1 + e / 128)]

/-- A directory of 353 entries: the last block has one. -/
def wideDirectory : DiskInode :=
  { loneDirectory with size := 90368, direct := fun i => UInt32.ofNat (1153 + i) }

/-- The default layout with `wideDirectory` in slot 2 and all blocks in use. -/
def wideDisk : Disk where
  count := 4194304
  blocks b :=
    if b = 2 then putInode Bytes.zero 256 wideDirectory
    else if b < 1153 then fun _ => 255
    else Bytes.ofMem fun p => dirEntry (wideName (16 * (b - 1153) + p / 256)) 2 (p % 256)
  writes := []
  clock _ := 0
  syncs _ := true

theorem wideDirectory_blocks : dataBlocks wideDirectory.size.toNat = 23 := by decide

theorem wideDirectory_directAt {k : Nat} (inside : k < 23) : wideDirectory.directAt k = 1153 + k := by
  simp [DiskInode.directAt, inside, wideDirectory, Nat.mod_eq_of_lt (show 1153 + k < 4294967296 by omega)]

theorem wideDirectory_slotId {x : Slot} (owns : wideDirectory.Owns x) (D : Nat → Block) :
    ∃ k, x = data k ∧ k < 23 ∧ wideDirectory.slotId D x = 1153 + k := by
  rw [DiskInode.Owns, wideDirectory_blocks] at owns
  cases x with
  | data k => exact ⟨k, rfl, owns, by rw [DiskInode.slotId_direct owns, wideDirectory_directAt owns]⟩
  | ind1 => exact absurd owns (Nat.lt_irrefl 23)
  | ind2 =>
    simp only [Valid] at owns
    omega
  | second q =>
    simp only [Valid] at owns
    omega

theorem wideDirectory_mapped : WellMapped Layout.default.formatted.dataBitmap wideDirectory wideDisk.blocks := by
  refine ⟨closed_valid _, ?_, ?_, fun _ => rfl, fun _ => rfl⟩
  · intro x owns
    obtain ⟨k, -, inside, id⟩ := wideDirectory_slotId owns wideDisk.blocks
    have start : Layout.default.dataAreaStart = 1153 := rfl
    have size : Layout.default.dataBitmapBlocks = 127 := rfl
    rw [id]
    refine ⟨?_, ?_⟩
    · rw [Layout.dataBitmap_eq]
      simp only [Bitmap.InSegment, Bitmap.capacity, start, size]
      omega
    · refine dataBit_ones (show wideDisk.blocks 1026 = fun _ => 255 from rfl) ?_
      rw [Layout.dataBitmap_eq]
      simp only [start]
      omega
  · intro x y ownsX ownsY same
    obtain ⟨k, rfl, -, id⟩ := wideDirectory_slotId ownsX wideDisk.blocks
    obtain ⟨k', rfl, -, id'⟩ := wideDirectory_slotId ownsY wideDisk.blocks
    congr 1
    omega

theorem wideDisk_inode : Layout.default.inode wideDisk.blocks 2 = wideDirectory := by
  have place : Layout.default.slot 2 = ⟨2, 256⟩ := Layout.slot_eq lone_slotId
  have block : wideDisk.blocks 2 = putInode Bytes.zero 256 wideDirectory := rfl
  rw [Layout.inode, place]
  simp only [block]
  exact inodeIn_putInode _ _ (by decide)

theorem wideName_proper {e : Nat} (inside : e < 353) : ProperName (wideName e) := by
  have low : (UInt8.ofNat (1 + e % 128)).toNat = 1 + e % 128 := by
    simp only [UInt8.toNat_ofNat']
    omega
  have high : (UInt8.ofNat (1 + e / 128)).toNat = 1 + e / 128 := by
    simp only [UInt8.toNat_ofNat']
    omega
  refine ⟨List.cons_ne_nil _ _, show 2 ≤ 251 by decide, fun c member zero => ?_⟩
  rw [wideName, List.mem_cons, List.mem_singleton] at member
  subst zero
  cases member with
  | inl first =>
    rw [← first] at low
    exact absurd low (by rw [UInt8.toNat_zero]; omega)
  | inr second =>
    rw [← second] at high
    exact absurd high (by rw [UInt8.toNat_zero]; omega)

theorem wideName_inj {e e' : Nat} (inside : e < 353) (inside' : e' < 353) (same : wideName e = wideName e') :
    e = e' := by
  rw [wideName, wideName, List.cons.injEq, List.cons.injEq] at same
  have low := congrArg UInt8.toNat same.1
  have high := congrArg UInt8.toNat same.2.1
  simp only [UInt8.toNat_ofNat'] at low high
  omega

theorem wideDisk_entries : (Layout.default.inode wideDisk.blocks 2).entries wideDisk.blocks =
    (List.range 353).map fun e => (wideName e, 2) := by
  rw [wideDisk_inode, DiskInode.entries_of_size (m := 353) (by decide), entriesIn]
  refine List.map_congr_left fun e member => ?_
  have inside := List.mem_range.mp member
  have proper := wideName_proper inside
  refine entryAt_dirEntry proper.fits proper.noZero (by decide) fun p low => ?_
  have block : wideDirectory.ids wideDisk.blocks ((256 * e + p) / 4096) = 1153 + e / 16 := by
    rw [DiskInode.ids, DiskInode.slotId_direct (by omega), wideDirectory_directAt (by omega)]
    omega
  have content : wideDisk.blocks (1153 + e / 16) =
      Bytes.ofMem fun p => dirEntry (wideName (16 * (1153 + e / 16 - 1153) + p / 256)) 2 (p % 256) := by
    simp only [wideDisk]
    rw [if_neg (by omega), if_neg (by omega)]
  rw [DiskInode.byte, byteAt, block, content, Bytes.get_ofMem_of_lt _ (by omega)]
  rw [show 16 * (1153 + e / 16 - 1153) + (256 * e + p) % 4096 / 256 = e by omega,
    show (256 * e + p) % 4096 % 256 = p by omega]

theorem wideDisk_populated : Populated .default wideDisk (· = 2) := by
  have device : Layout.default.areaEnd ≤ wideDisk.count := show Layout.default.areaEnd ≤ 4194304 by decide
  refine ⟨device, show 4194304 ≤ 4294967295 by decide, fun j is => is ▸ lone_slotId,
    Layout.segment _ device, fun j is => ?_, fun j k is is' b _ _ => is.trans is'.symm⟩
  rw [is, wideDisk_inode]
  exact wideDirectory_mapped

theorem wideDisk_directory : IsDirectory (Layout.default.inode wideDisk.blocks 2) wideDisk.blocks := by
  have bounds : ∀ x ∈ (List.range 353).map fun e => (wideName e, 2), ∃ e, e < 353 ∧ x = (wideName e, 2) := by
    intro x member
    obtain ⟨e, inside, rfl⟩ := List.mem_map.mp member
    exact ⟨e, List.mem_range.mp inside, rfl⟩
  constructor
  case type => exact congrArg DiskInode.type wideDisk_inode
  case aligned =>
    rw [wideDisk_entries, wideDisk_inode, List.length_map, List.length_range]
    rfl
  case names =>
    rw [wideDisk_entries]
    intro x member
    obtain ⟨e, inside, rfl⟩ := bounds x member
    exact wideName_proper inside
  case distinct =>
    rw [wideDisk_entries, Distinct, List.map_map]
    exact List.Nodup.map_on (fun e member e' member' same => wideName_inj (List.mem_range.mp member)
      (List.mem_range.mp member') same) List.nodup_range

/-- The 354th entry cannot be linked. -/
theorem link_fails_wide :
    ¬ ∀ (L : Layout) (live : Nat → Prop) (s : Disk), Populated L s live → ∀ a t, live a → live t →
      IsDirectory (L.inode s.blocks a) s.blocks → ∀ name, ProperName name →
        growth (L.inode s.blocks a) ((L.inode s.blocks a).size.toNat + 256) ≤
          (L.formatted.dataBitmap.freeIds s.blocks).length → LinksInto L a name t s := by
  intro always
  have proper : ProperName [97] := .of_all (by decide) (by decide) rfl
  have unbound : ∀ x, ([97], x) ∉ (Layout.default.inode wideDisk.blocks 2).entries wideDisk.blocks := by
    rw [wideDisk_entries]
    intro x member
    obtain ⟨e, -, same⟩ := List.mem_map.mp member
    have names := congrArg Prod.fst same
    rw [wideName, List.cons.injEq] at names
    exact absurd names.2 (List.cons_ne_nil _ _)
  have stuck : ¬ (Layout.default.inode wideDisk.blocks 2).ScanEnds wideDisk := by
    rw [wideDisk_inode, DiskInode.ScanEnds, wideDirectory_blocks]
    rintro (few | full)
    · exact absurd few (by decide)
    · exact absurd full.2.1 (by decide)
  have links := always .default _ wideDisk wideDisk_populated 2 2 rfl rfl wideDisk_directory [97] proper (by
    rw [wideDisk_inode, growth_shrink (by decide)]
    exact Nat.zero_le _)
  have fails := wideDisk_populated.run_link_stuck rfl wideDisk_directory proper
    (fun e x entry => absurd (List.mem_of_getElem? entry) (unbound x)) (fun _ => stuck) 2 true
  rw [links.replacing] at fails
  cases fails

end Sbfs
