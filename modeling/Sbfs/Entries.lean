import Sbfs.Directory
import Sbfs.Lib.PackedMap

/-! # Changing the entries of a directory

The methods of `Inode` change a directory in three ways: an entry is appended
(`run_appendEntry`), overwritten (`run_overwrite`), or taken out, in which case the last
entry moves to its place (`run_takeOut`).  The results are stated about the lists of
entries before and after. -/

namespace Sbfs

open Slot PackedMap

/-! ## Lists of entries -/

theorem entriesIn_add (f : Mem) (m k : Nat) :
    entriesIn f (m + k) = entriesIn f m ++ entriesIn (fun p => f (256 * m + p)) k := by
  have shifted : ∀ e, entryAt (fun p => f (256 * m + p)) e = entryAt f (m + e) := fun e =>
    entryAt_congr fun p _ => by
      congr 1
      omega
  rw [entriesIn, entriesIn, entriesIn, List.range_add, List.map_append, List.map_map]
  congr 1
  exact List.map_congr_left fun e _ => (shifted e).symm

/-- A longer name is cut off. -/
theorem dirEntry_take (name : Name) (inode : Nat) :
    dirEntry (name.take kMaxDirNameLength) inode = dirEntry name inode := by
  funext p
  rw [dirEntry, dirEntry]
  by_cases inside : p < kMaxDirNameLength
  · rw [if_pos inside, if_pos inside, List.getD_eq_getElem?_getD, List.getD_eq_getElem?_getD,
      List.getElem?_take_of_lt inside]
  · rw [if_neg inside, if_neg inside]

theorem entriesIn_dirEntry_take {name : Name} {inode : Nat} (noZero : ∀ c ∈ name, c ≠ 0) (small : inode < 4294967296) :
    entriesIn (dirEntry name inode) 1 = [(name.take kMaxDirNameLength, inode)] := by
  rw [← dirEntry_take]
  exact congrArg (fun x => [x]) (entryAt_dirEntry (List.length_take_le _ _)
    (fun c member => noZero c (List.mem_of_mem_take member)) small fun p _ => by rw [Nat.mul_zero, Nat.zero_add])

theorem entriesIn_dirEntry {name : Name} {inode : Nat} (proper : ProperName name) (small : inode < 4294967296) :
    entriesIn (dirEntry name inode) 1 = [(name, inode)] := by
  have cut := entriesIn_dirEntry_take proper.noZero small
  rwa [show name.take kMaxDirNameLength = name from List.take_of_length_le proper.fits] at cut

theorem dot_proper : ProperName [46] := .of_all (by decide) (by decide) rfl

theorem dotdot_proper : ProperName [46, 46] := .of_all (by decide) (by decide) rfl

theorem entriesIn_dotEntries {self parent : Nat} (small : self < 4294967296) (small' : parent < 4294967296) :
    entriesIn (Inode.dotEntries self parent) 2 = [([46], self), ([46, 46], parent)] := by
  have first : entryAt (Inode.dotEntries self parent) 0 = ([46], self) := by
    refine entryAt_dirEntry dot_proper.fits dot_proper.noZero small fun p low => ?_
    rw [Inode.dotEntries, if_pos (by omega), Nat.mul_zero, Nat.zero_add]
  have second : entryAt (Inode.dotEntries self parent) 1 = ([46, 46], parent) := by
    refine entryAt_dirEntry dotdot_proper.fits dotdot_proper.noZero small' fun p low => ?_
    rw [Inode.dotEntries, if_neg (by omega), Nat.mul_one, Nat.add_sub_cancel_left]
  show [entryAt (Inode.dotEntries self parent) 0, entryAt (Inode.dotEntries self parent) 1] = _
  rw [first, second]

section

variable {bm : Bitmap} {W : Nat → Prop} {d d' : DiskInode} {s s' : Disk} {name : Name}
  {buf : Mem} {offset len e m k inode : Nat} {pos : Position} {fs : SBFileSystem}

/-! ## Bytes -/

theorem Overwrites.old_byte (written : Overwrites bm W offset len buf d s d' s') {i : Nat}
    (old : i < d.size.toNat) (outside : i < offset ∨ offset + len ≤ i) :
    d'.byte s'.blocks i = d.byte s.blocks i := by
  have owns := DiskInode.owns_data old
  rw [written.bytes i (by rw [written.size]; omega), splice_outside outside, DiskInode.byte, byteAt, byteAt,
    show d'.ids s'.blocks (i / 4096) = _ from written.keeps _ owns]
  rfl

theorem Overwrites.new_byte (written : Overwrites bm W offset len buf d s d' s') {i : Nat} (inside : i < len) :
    d'.byte s'.blocks (offset + i) = buf i := by
  rw [written.bytes _ (by rw [written.size]; omega), splice_inside (by omega) (by omega), Nat.add_sub_cancel_left]

/-- Entries written behind the last one. -/
theorem Overwrites.entries_append (written : Overwrites bm W (256 * m) (256 * k) buf d s d' s')
    (aligned : d.size.toNat = 256 * m) :
    d'.entries s'.blocks = d.entries s.blocks ++ entriesIn buf k := by
  have size : d'.size.toNat = 256 * (m + k) := by
    rw [written.size]
    omega
  rw [DiskInode.entries_of_size size, DiskInode.entries_of_size aligned, entriesIn_add]
  exact congrArg₂ (· ++ ·) (entriesIn_congr fun p inside => written.old_byte (by omega) (.inl inside))
    (entriesIn_congr fun p inside => written.new_byte inside)

/-- An entry written over another. -/
theorem Overwrites.entries_set (written : Overwrites bm W (256 * e) 256 buf d s d' s')
    (aligned : d.size.toNat = 256 * m) (inside : e < m) :
    d'.entries s'.blocks = (d.entries s.blocks).set e (entryAt buf 0) := by
  have size : d'.size.toNat = 256 * m := by
    rw [written.size]
    omega
  rw [DiskInode.entries_of_size size, DiskInode.entries_of_size aligned]
  refine List.ext_getElem? fun i => ?_
  by_cases there : i < m
  · rw [getElem?_entriesIn _ there]
    by_cases same : i = e
    · subst same
      rw [List.getElem?_set_self (by rw [length_entriesIn]; exact there)]
      exact congrArg some (entryAt_congr fun p low => by rw [written.new_byte low, Nat.mul_zero, Nat.zero_add])
    · rw [List.getElem?_set_ne (fun eq => same eq.symm), getElem?_entriesIn _ there]
      exact congrArg some (entryAt_congr fun p low => written.old_byte (by omega) (by omega))
  · rw [List.getElem?_eq_none, List.getElem?_eq_none]
    · rw [List.length_set, length_entriesIn]
      omega
    · rw [length_entriesIn]
      omega

/-! ## Appending and overwriting -/

theorem own_none (bm : Bitmap) (pos : Position) (none : (none : Option Position) = some pos) :
    pos.blockId < bm.startBlockId := by
  cases none

/-- A file is as large as it is. -/
theorem resized_self (map : WellMapped bm d s.blocks) (segment : bm.Segment s.count) :
    Resized bm d.size.toNat none d s d s :=
  resized_same ⟨rfl, rfl, rfl, ⟨rfl, rfl, rfl⟩, fun _ => rfl⟩ map rfl (.refl _ _)
    (fun _ none => by cases none) segment fun _ none => by cases none

theorem run_overwrite (map : WellMapped bm d s.blocks) (segment : bm.Segment s.count)
    (failId : s.count ≤ kFailId) (small : d.size.toNat < 2147483648) (buf : Mem) (some : 0 < len)
    (inside : offset + len ≤ d.size.toNat) :
    ∃ d' s', (d.writeData offset buf len).run s = (((len : Int), d'), s') ∧
      Overwrites bm W offset len buf d s d' s' := by
  have same : Resized bm (max d.size.toNat (offset + len)) none d s d s := by
    rw [Nat.max_eq_left inside]
    exact resized_self map segment
  obtain ⟨d', s', run, written, -⟩ := same.run_writeData (W := W) segment failId buf some (.inl (by omega))
  exact ⟨d', s', run, written⟩

/-- Growing a directory by `k` entries and writing them. -/
theorem run_extend (map : WellMapped bm d s.blocks) (segment : bm.Segment s.count)
    (failId : s.count ≤ kFailId) (aligned : d.size.toNat = 256 * m) (some : 0 < k)
    (fits : FitsInt (256 * m) (256 * k)) (buf : Mem)
    (enough : growth d (256 * (m + k)) ≤ (bm.freeIds s.blocks).length) :
    ∃ d₁ s₁ d' s', (d.resize ((d.size.toNat + 256 * k) % 4294967296) bm none).run s =
        ((.kSuccess, d₁), s₁) ∧
      (d₁.writeData (uint32 ((d₁.size.toNat : Int) - 256 * k)) buf (256 * k)).run s₁ =
        ((((256 * k : Nat) : Int), d'), s') ∧
      Overwrites bm W (256 * m) (256 * k) buf d s d' s' ∧
      growth d (256 * (m + k)) + (bm.freeIds s'.blocks).length = (bm.freeIds s.blocks).length := by
  have range := fits.range
  obtain ⟨d₁, s₁, run, resized⟩ := run_resize map segment (by omega) enough (own_none bm)
  have whole : max d.size.toNat (256 * m + 256 * k) = 256 * (m + k) := by omega
  obtain ⟨d', s', run', written, bits⟩ := Resized.run_writeData (W := W)
    (show Resized bm (max d.size.toNat (256 * m + 256 * k)) none d s d₁ s₁ by rw [whole]; exact resized) segment
    failId buf (by omega) fits
  have offset : uint32 ((d₁.size.toNat : Int) - 256 * k) = 256 * m := by
    rw [resized.size, uint32]
    omega
  have count := congrArg List.length (resized.takes (by omega))
  rw [List.length_append, List.length_map] at count
  refine ⟨d₁, s₁, d', s', ?_, ?_, written, by rw [bits, growth, count]⟩
  · rw [show (d.size.toNat + 256 * k) % 4294967296 = 256 * (m + k) by omega]
    exact run
  · rw [offset]
    exact run'

namespace Inode

theorem run_appendEntry (map : WellMapped fs.dataBitmap d s.blocks) (segment : fs.dataBitmap.Segment s.count)
    (failId : s.count ≤ kFailId) (aligned : d.size.toNat = 256 * m) (small : 256 * (m + 1) ≤ 2147483648)
    (enough : growth d (256 * (m + 1)) ≤ (fs.dataBitmap.freeIds s.blocks).length) (name : Name) (inode : Nat) :
    ∃ d' s', (appendEntry fs d name inode).run s = ((.kSuccess, d'), s') ∧
      Overwrites fs.dataBitmap W (256 * m) 256 (dirEntry name inode) d s d' s' ∧
      growth d (256 * (m + 1)) + (fs.dataBitmap.freeIds s'.blocks).length =
        (fs.dataBitmap.freeIds s.blocks).length := by
  obtain ⟨d₁, s₁, d', s', run, run', written, free⟩ := run_extend (W := W) (k := 1) map segment failId aligned
    (by omega) (by rw [FitsInt]; omega) (dirEntry name inode) enough
  have grow : (d.resize ((d.size.toNat + 256) % 4294967296) fs.dataBitmap none).run s =
      ((.kSuccess, d₁), s₁) := run
  have write : (d₁.writeData (uint32 ((d₁.size.toNat : Int) - 256)) (dirEntry name inode) 256).run s₁ =
      ((256, d'), s') := run'
  refine ⟨d', s', ?_, written, free⟩
  simp only [appendEntry, DevProg.run_bind, grow, write, show ¬ (256 : Int) = -1 by decide, if_false,
    DevProg.run_pure]

theorem run_createDots (map : WellMapped fs.dataBitmap d s.blocks) (segment : fs.dataBitmap.Segment s.count)
    (failId : s.count ≤ kFailId) (empty : d.size.toNat = 0)
    (enough : growth d 512 ≤ (fs.dataBitmap.freeIds s.blocks).length) (self parent : Nat) :
    ∃ d' s', (createDots fs d self parent).run s = ((.kSuccess, d'), s') ∧
      Overwrites fs.dataBitmap W 0 512 (dotEntries self parent) d s d' s' ∧
      growth d 512 + (fs.dataBitmap.freeIds s'.blocks).length = (fs.dataBitmap.freeIds s.blocks).length := by
  obtain ⟨d₁, s₁, d', s', run, run', written, free⟩ := run_extend (W := W) (m := 0) (k := 2) map segment failId empty
    (by omega) (.inl (by omega)) (dotEntries self parent) enough
  have grow : (d.resize ((d.size.toNat + 512) % 4294967296) fs.dataBitmap none).run s =
      ((.kSuccess, d₁), s₁) := run
  have write : (d₁.writeData (uint32 ((d₁.size.toNat : Int) - 512)) (dotEntries self parent) 512).run s₁ =
      ((512, d'), s') := run'
  refine ⟨d', s', ?_, written, free⟩
  simp only [createDots, DevProg.run_bind, grow, write, show ¬ (512 : Int) = -1 by decide, if_false,
    DevProg.run_pure]

end Inode

/-! ## Taking out -/

/-- A directory goes from `d` on `s` to `d'` on `s'`, where it has the entries `es`. -/
structure Reworked (bm : Bitmap) (W : Nat → Prop) (es : List (Name × Nat)) (d : DiskInode) (s : Disk)
    (d' : DiskInode) (s' : Disk) : Prop where
  evolved : Evolved bm W d s d' s'
  noLeak : NoLeak bm d s d' s'
  type : d'.type = d.type
  linkCnt : d'.linkCnt = d.linkCnt
  size : d'.size.toNat = 256 * es.length
  entries : d'.entries s'.blocks = es

theorem DiskInode.length_entries {D : Nat → Block} (aligned : d.size.toNat = 256 * m) :
    (d.entries D).length = m := by
  rw [DiskInode.entries_of_size aligned, length_entriesIn]

namespace Reworked

variable {es es' : List (Name × Nat)} {d'' : DiskInode} {s'' : Disk}

theorem trans (first : Reworked bm W es d s d' s') (second : Reworked bm W es' d' s' d'' s'') :
    Reworked bm W es' d s d'' s'' where
  evolved := first.evolved.trans second.evolved
  noLeak := first.noLeak.trans second.noLeak
  type := second.type.trans first.type
  linkCnt := second.linkCnt.trans first.linkCnt
  size := second.size
  entries := second.entries

theorem mono {V : Nat → Prop} (reworked : Reworked bm W es d s d' s') (wider : ∀ b, W b → V b) :
    Reworked bm V es d s d' s' :=
  { reworked with evolved := reworked.evolved.mono wider }

theorem retimed (map : WellMapped bm d s.blocks) (aligned : d.size.toNat = 256 * m) (retimed : Retimed d d')
    (quiet : Touches (fun _ => False) s s') : Reworked bm W (d.entries s.blocks) d s d' s' where
  evolved := (Evolved.retimed map retimed quiet).1
  noLeak := (Evolved.retimed (W := W) map retimed quiet).2
  type := by rw [retimed]
  linkCnt := by rw [retimed]
  size := by rw [retimed.size, DiskInode.length_entries aligned, aligned]
  entries := by rw [quiet.quiet, retimed.entries]

/-- Writes below the data bitmap. -/
theorem below (map : WellMapped bm d s.blocks) (segment : bm.Segment s.count) (aligned : d.size.toNat = 256 * m)
    (touches : Touches W s s') (low : ∀ b, W b → b < bm.startBlockId) :
    Reworked bm W (d.entries s.blocks) d s d s' := by
  obtain ⟨evolved, noLeak, ids⟩ := Evolved.of_below map segment touches low
  refine ⟨evolved, noLeak, rfl, rfl, by rw [DiskInode.length_entries aligned, aligned], ?_⟩
  rw [DiskInode.entries, DiskInode.entries]
  refine entriesIn_congr fun p inside => ?_
  have owns : d.Owns (data (p / 4096)) := DiskInode.owns_data (by omega)
  have high := (map.used _ owns).1.1
  have after := segment.after
  refine DiskInode.byte_congr (ids _ owns) (touches.blocks _ fun inW => ?_)
  have := low _ inW
  rw [DiskInode.ids] at this
  omega

theorem overwritten (written : Overwrites bm W (256 * e) 256 buf d s d' s') (aligned : d.size.toNat = 256 * m)
    (inside : e < m) : Reworked bm W ((d.entries s.blocks).set e (entryAt buf 0)) d s d' s' where
  evolved := written.evolved
  noLeak := written.noLeak
  type := written.type
  linkCnt := written.linkCnt
  size := by
    rw [List.length_set, DiskInode.length_entries aligned, written.size]
    omega
  entries := written.entries_set aligned inside

theorem appended (written : Overwrites bm W (256 * m) (256 * k) buf d s d' s')
    (aligned : d.size.toNat = 256 * m) :
    Reworked bm W (d.entries s.blocks ++ entriesIn buf k) d s d' s' where
  evolved := written.evolved
  noLeak := written.noLeak
  type := written.type
  linkCnt := written.linkCnt
  size := by
    rw [List.length_append, DiskInode.length_entries aligned, length_entriesIn, written.size]
    omega
  entries := written.entries_append aligned

end Reworked

/-- A shrunk directory has lost its last entry. -/
theorem Resized.entries_dropLast {inode : Option Position} (resized : Resized bm (256 * m) inode d s d' s')
    (segment : bm.Segment s.count) (low : ∀ pos, inode = some pos → pos.blockId < bm.startBlockId)
    (aligned : d.size.toNat = 256 * (m + 1)) : d'.entries s'.blocks = (d.entries s.blocks).dropLast := by
  rw [DiskInode.entries_of_size resized.size, DiskInode.entries_of_size aligned, entriesIn_add]
  rw [show entriesIn (fun p => d.byte s.blocks (256 * m + p)) 1 = [_] from rfl, List.dropLast_concat]
  exact entriesIn_congr fun p inside => resized.bytes segment low (by omega) inside

/-- `moveLast` leaves the list in which the last entry is also at the place of entry `j` of
block `i`; it does nothing only if that is the last entry anyway. -/
theorem run_moveLast (map : WellMapped bm d s.blocks) (segment : bm.Segment s.count)
    (failId : s.count ≤ kFailId) (aligned : d.size.toNat = 256 * m) (small : d.size.toNat < 2147483648)
    {i j : Nat} (low : j < 16) (inside : 16 * i + j < m) :
    ∃ d' s', (moveLast d i j).run s = ((.kSuccess, d'), s') ∧
      KeepsIds d s d' s' ∧ ∃ es, Reworked bm W es d s d' s' ∧ es.length = m ∧
        es.dropLast = removeAt (d.entries s.blocks) (16 * i + j) := by
  have last : (d.entries s.blocks).getLast? = some (entryAt (d.byte s.blocks) (m - 1)) := by
    rw [DiskInode.entries_of_size aligned, List.getLast?_eq_getElem?, length_entriesIn,
      getElem?_entriesIn _ (by omega)]
  by_cases move : (i : Int) ≠ (DiskInode.totalBlocks d.size.toNat : Int) - 1 ∨ j ≠ 15
  · have bound := dataBlocks_le d.size.toNat_lt
    have located := located_of_map map segment fun k owns => by
      simp only [DiskInode.Owns, Valid] at owns
      omega
    obtain ⟨d₁, s₁, read, retimed, quiet⟩ := run_diskReadData (fun _ => 0) located
      (show 0 < 256 by omega) (show 256 * (m - 1) < d.size.toNat by omega) (.inl (by omega)) failId (by omega) fun k upper => by
        simp only [DiskInode.Owns, Valid, dataBlocks]
        omega
    -- reading the last entry only stamps the inode
    have stamped := Reworked.retimed (W := W) map aligned retimed quiet
    have size₁ : d₁.size = d.size := retimed.size
    rw [show min 256 (d.size.toNat - 256 * (m - 1)) = 256 by omega] at read
    generalize hbuf : splice (fun _ => 0) 0 256 (fun p => d.byte s.blocks (256 * (m - 1) + p)) = buf
    have entry : entryAt buf 0 = entryAt (d.byte s.blocks) (m - 1) := entryAt_congr fun p low => by
      rw [← hbuf, splice_inside (by omega) (by omega)]
      congr 1
      omega
    obtain ⟨d₂, s₂, write, written⟩ := run_overwrite (W := W)
      stamped.evolved.map (quiet.count ▸ segment) (quiet.count ▸ failId) (size₁ ▸ small) buf (show 0 < 256 by omega)
      (show 256 * (16 * i + j) + 256 ≤ d₁.size.toNat by rw [size₁]; omega)
    -- the last entry now stands at both places, and `resize` cuts the second one off
    have moved := Reworked.overwritten written (size₁ ▸ aligned) inside
    rw [entry, stamped.entries] at moved
    have ids : KeepsIds d s d₂ s₂ := fun x owns _ => by
      rw [written.keeps x (by rwa [DiskInode.Owns, size₁]), quiet.quiet]
      exact congrFun (slotId_pointers (by rw [retimed]) (by rw [retimed]) (by rw [retimed]) _) x
    refine ⟨d₂, s₂, ?_, ids, _, stamped.trans moved, ?_, (removeAt_of_getLast? last _).symm⟩
    case refine_2 => rw [List.length_set, DiskInode.length_entries aligned]
    have offset : uint32 ((d.size.toNat : Int) - 256) = 256 * (m - 1) := by
      rw [uint32]
      omega
    have place : entryOffset i j = 256 * (16 * i + j) := by
      rw [entryOffset]
      omega
    have read' : (d.readData (256 * (m - 1)) 256 fun _ => 0).run s = ((256, buf, d₁), s₁) := by
      rw [← hbuf]
      exact read
    have write' : (d₁.writeData (256 * (16 * i + j)) buf 256).run s₁ = ((256, d₂), s₂) := write
    simp only [moveLast, if_pos move, offset, place, DevProg.run_bind, read', write',
      show ¬ (256 : Int) = -1 by decide, if_false, DevProg.run_pure]
  · -- the entry is the last one
    have atEnd : 16 * i + j = m - 1 := by
      have blocks := (totalBlocks_cases d.size.toNat).1
      simp only [dataBlocks] at blocks
      omega
    refine ⟨d, s, ?_, fun _ _ _ => rfl, d.entries s.blocks, .retimed map aligned (.refl d) (.refl _ _),
      DiskInode.length_entries aligned, ?_⟩
    · rw [moveLast, if_neg move, DevProg.run_pure]
    · rw [removeAt_last]
      rw [DiskInode.length_entries aligned]
      omega

/-- The blocks outside of the file that taking an entry out may write: the block of the inode
at `pos`, and the super block, which the stray write hits as long as the directory has no
more than 2072 blocks. -/
def TakeOutWrites (pos : Position) (b : Nat) : Prop := b = pos.blockId ∨ b = 0

/-- Entry `j` of block `i` is taken out, and the inode is saved. -/
theorem run_takeOut (map : WellMapped bm d s.blocks) (segment : bm.Segment s.count)
    (failId : s.count ≤ kFailId) (aligned : d.size.toNat = 256 * m) (few : m ≤ 33152)
    (start : 0 < pos.blockId) (below : pos.blockId < bm.startBlockId) {i j : Nat} (low : j < 16)
    (inside : 16 * i + j < m) :
    ∃ d₁ s₁ d' s', (moveLast d i j).run s = ((.kSuccess, d₁), s₁) ∧
      (d₁.resize (uint32 ((d₁.size.toNat : Int) - 256)) bm (some pos)).run s₁ = ((.kSuccess, d'), s') ∧
      Reworked bm (TakeOutWrites pos) (removeAt (d.entries s.blocks) (16 * i + j)) d s d' s' ∧
      Saved pos s d' s' ∧ KeepsIds d s d' s' := by
  obtain ⟨d₁, s₁, move, ids, es, moved, length, short⟩ := run_moveLast (W := fun _ => False) map segment failId aligned
    (by omega) low inside
  have size₁ : d₁.size.toNat = 256 * (m - 1 + 1) := by
    rw [moved.size, length]
    omega
  have segment₁ := moved.evolved.segment segment
  have own : ∀ p, some pos = some p → p.blockId < bm.startBlockId := by
    intro p same
    cases same
    exact below
  have shrink : dataBlocks (256 * (m - 1)) ≤ dataBlocks d₁.size.toNat := by
    simp only [dataBlocks]
    omega
  obtain ⟨d', s', run, resized⟩ := run_resize moved.evolved.map segment₁ (show 256 * (m - 1) < 4294967296 by omega)
    (by rw [growth_shrink shrink]; omega) own
  -- the stray write of a shrink hits block 0
  have stray : Strays d₁ (256 * (m - 1)) → strayTarget (256 * (m - 1)) = 0 := by
    intro strays
    have := strays.2
    simp only [strayTarget, dataBlocks] at this ⊢
    omega
  have entries := resized.entries_dropLast segment₁ own size₁
  rw [moved.entries, short] at entries
  have cut : Reworked bm (TakeOutWrites pos) (removeAt (d.entries s.blocks) (16 * i + j)) d₁ s₁ d' s' := by
    constructor
    case evolved =>
      refine resized.evolved.mono fun b extra => ?_
      cases extra with
      | inl saved =>
        obtain ⟨p, same, rfl⟩ := saved
        cases same
        exact .inl rfl
      | inr strays => exact .inr (strays.2.trans (stray strays.1))
    case noLeak => exact resized.noLeak
    case type => exact resized.type
    case linkCnt => exact resized.linkCnt
    case entries => exact entries
    case size =>
      rw [← short, List.length_dropLast, length, resized.size]
  refine ⟨d₁, s₁, d', s', move, ?_, (moved.mono fun _ => False.elim).trans cut, ?_, ids.trans resized.keeps ?_⟩
  · rw [show uint32 ((d₁.size.toNat : Int) - 256) = 256 * (m - 1) by rw [uint32]; omega]
    exact run
  · obtain ⟨base, saved, same⟩ := resized.inode shrink pos rfl
    rw [Saved, saved, same fun strays => by rw [stray strays]; omega, moved.evolved.slot_kept segment below id]
  · intro x owns _
    rwa [DiskInode.Owns, size₁, show 256 * (m - 1 + 1) = d.size.toNat by omega]

end

end Sbfs
