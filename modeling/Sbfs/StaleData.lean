import Sbfs.RoundTrips

/-! # What a growing file shows

`increase` takes blocks as they are, and a write behind the end leaves the gap as it is: nothing
is cleared anywhere.  So a position that a file has just come to cover shows what the device held
there before, until it is written (`reads_found`). -/

namespace Sbfs

open Slot PackedMap

/-! ## Calls on a file -/

/-- A call of `write_data` or `resize`. -/
inductive FileCall where
  | write (offset len : Nat) (buf : Mem)
  | resize (newSize : Nat)

namespace FileCall

/-- The size of a file of `old` bytes after the call. -/
def newSize (old : Nat) : FileCall → Nat
  | write offset len _ => max old (offset + len)
  | resize newSize => newSize

/-- Position `p` is written. -/
def Writes (p : Nat) : FileCall → Prop
  | write offset len _ => offset ≤ p ∧ p < offset + len
  | resize _ => False

/-- `f` with the bytes that are written. -/
def put (f : Mem) : FileCall → Mem
  | write offset len buf => splice f offset len buf
  | resize _ => f

/-- The disk after the call on inode `i`. -/
def after (L : Layout) (i : Nat) (s : Disk) : FileCall → Disk
  | write offset len buf => ((Inode.writeData L.formatted (L.slot i) offset buf len).run s).2
  | resize newSize => ((Inode.resize L.formatted (L.slot i) newSize).run s).2

/-- The call is on a file, has enough blocks, and writes nothing astray but the super block. -/
structure Allowed (L : Layout) (i : Nat) (s : Disk) (c : FileCall) : Prop where
  type : (L.inode s.blocks i).type = kFile
  small : c.newSize (L.inode s.blocks i).size.toNat < 2147483648
  enough : growth (L.inode s.blocks i) (c.newSize (L.inode s.blocks i).size.toNat) ≤
    (L.formatted.dataBitmap.freeIds s.blocks).length
  harmless : Strays (L.inode s.blocks i) (c.newSize (L.inode s.blocks i).size.toNat) →
    strayTarget (c.newSize (L.inode s.blocks i).size.toNat) = 0

theorem put_of_not_writes {c : FileCall} {p : Nat} (unwritten : ¬ c.Writes p) (f : Mem) : c.put f p = f p := by
  cases c with
  | write offset len buf =>
    rw [Writes] at unwritten
    exact splice_outside (by omega)
  | resize newSize => rfl

theorem put_congr {c : FileCall} {f g : Mem} {p : Nat} (same : f p = g p) : c.put f p = c.put g p := by
  cases c with
  | write offset len buf => exact splice_congr same
  | resize newSize => exact same

end FileCall

/-- What `s` holds at the places that the positions of file `i` have on `s'`. -/
def Layout.heldBefore (L : Layout) (i : Nat) (s s' : Disk) : Mem :=
  byteAt ((L.inode s'.blocks i).ids s'.blocks) s.blocks

section

variable {L : Layout} {s s' : Disk} {live : Nat → Prop} {a i : Nat} {c : FileCall}

/-- What a call does to the file: it writes its bytes over what the disk held before. -/
structure FileCall.Done (L : Layout) (live : Nat → Prop) (i : Nat) (s s' : Disk) (c : FileCall) : Prop where
  worked : WorkedOn L live i s s'
  size : (L.inode s'.blocks i).size.toNat = c.newSize (L.inode s.blocks i).size.toNat
  ids : KeepsIds (L.inode s.blocks i) s (L.inode s'.blocks i) s'
  bytes : ∀ p, p < (L.inode s'.blocks i).size.toNat →
    (L.inode s'.blocks i).byte s'.blocks p = c.put (L.heldBefore i s s') p

theorem FileCall.Allowed.done (allowed : c.Allowed L i s) (state : Populated L s live) (here : live i) :
    c.Done L live i s (c.after L i s) := by
  obtain ⟨type, small, enough, harmless⟩ := allowed
  cases c with
  | write offset len buf =>
    simp only [newSize] at small enough
    have enough : growth (L.inode s.blocks i) (offset + len) ≤ (L.formatted.dataBitmap.freeIds s.blocks).length := by
      by_cases grows : (L.inode s.blocks i).size.toNat ≤ offset + len
      · rwa [Nat.max_eq_right grows] at enough
      · rw [growth_shrink (by simp only [dataBlocks]; omega)]
        exact Nat.zero_le _
    have run : (Inode.writeData L.formatted (L.slot i) offset buf len).run s =
      (((Inode.writeData L.formatted (L.slot i) offset buf len).run s).1, after L i s (.write offset len buf)) := rfl
    obtain ⟨worked, written⟩ := WorkedOn.wrote state here (by omega) enough run
    exact ⟨worked, written.size, fun x owns _ => written.keeps x owns, written.bytes⟩
  | resize newSize =>
    have segment := state.volume.segment
    have run : (Inode.resize L.formatted (L.slot i) newSize).run s =
      (((Inode.resize L.formatted (L.slot i) newSize).run s).1, after L i s (.resize newSize)) := rfl
    obtain ⟨worked, resized⟩ := WorkedOn.resized state here type (Nat.lt_trans small (by decide)) harmless enough run
    refine ⟨worked, resized.size, resized.keeps, fun p inside => ?_⟩
    have low : ∀ pos, some (L.slot i) = some pos → pos.blockId < L.formatted.dataBitmap.startBlockId := by
      rintro pos ⟨⟩
      exact Layout.slot_low (state.slots i here)
    have kept := resized.data_kept segment low (DiskInode.owns_data inside)
    change byteAt _ _ p = byteAt _ _ p
    rw [byteAt, byteAt]
    exact congrArg (fun blk : Block => blk.get (p % 4096)) kept

/-! ## Histories -/

/-- A history of file `a`: calls on it, each with the bytes that the disk held before at the places
of the positions that the file gets; calls on other files; and deletions of other files. -/
inductive FileHistory (L : Layout) (a : Nat) (live₀ : Nat → Prop) (s₀ : Disk) :
    List (FileCall × Mem) → (Nat → Prop) → Disk → Prop
  | start : FileHistory L a live₀ s₀ [] live₀ s₀
  | call {events : List (FileCall × Mem)} {live : Nat → Prop} {s : Disk} {c : FileCall} {found : Mem}
      (before : FileHistory L a live₀ s₀ events live s) (allowed : c.Allowed L a s)
      (finds : ∀ p, (L.inode s.blocks a).size.toNat ≤ p → p < c.newSize (L.inode s.blocks a).size.toNat →
        found p = L.heldBefore a s (c.after L a s) p) :
      FileHistory L a live₀ s₀ (events ++ [(c, found)]) live (c.after L a s)
  | other {events : List (FileCall × Mem)} {live : Nat → Prop} {s : Disk} {c : FileCall} {i : Nat}
      (before : FileHistory L a live₀ s₀ events live s) (there : live i) (ne : i ≠ a) (allowed : c.Allowed L i s) :
      FileHistory L a live₀ s₀ events live (c.after L i s)
  | remove {events : List (FileCall × Mem)} {live : Nat → Prop} {s : Disk} {dir x : Nat} {name : Name}
      (before : FileHistory L a live₀ s₀ events live s) (there : live dir)
      (isDir : IsDirectory (L.inode s.blocks dir) s.blocks)
      (few : ((L.inode s.blocks dir).entries s.blocks).length ≤ 33152)
      (bound : (name, x) ∈ (L.inode s.blocks dir).entries s.blocks) (alive : live x) (notDir : x ≠ dir) (ne : x ≠ a) :
      FileHistory L a live₀ s₀ events
        (fun j => live j ∧ L.Allocated ((Inode.remove L.formatted (L.slot dir) name).run s).2 j)
        ((Inode.remove L.formatted (L.slot dir) name).run s).2

/-- The size and the bytes of a file. -/
structure Content where
  size : Nat
  byte : Mem

namespace Content

/-- The content after a call that has found `found` behind the end. -/
def call (e : Content) (x : FileCall × Mem) : Content where
  size := x.1.newSize e.size
  byte := x.1.put fun p => if p < e.size then e.byte p else x.2 p

def run (e : Content) (events : List (FileCall × Mem)) : Content := events.foldl call e

theorem call_byte {e : Content} {x : FileCall × Mem} {p : Nat} (unwritten : ¬ x.1.Writes p) :
    (e.call x).byte p = if p < e.size then e.byte p else x.2 p :=
  FileCall.put_of_not_writes unwritten _

theorem run_concat (e : Content) (events : List (FileCall × Mem)) (x : FileCall × Mem) :
    e.run (events ++ [x]) = (e.run events).call x := List.foldl_concat ..

theorem run_append (e : Content) (before later : List (FileCall × Mem)) :
    e.run (before ++ later) = (e.run before).run later := List.foldl_append ..

end Content

/-- No event writes `p` or leaves a file that ends before `p`. -/
def Unwritten (p : Nat) (size : Nat) : List (FileCall × Mem) → Prop
  | [] => True
  | x :: later => ¬ x.1.Writes p ∧ p < x.1.newSize size ∧ Unwritten p (x.1.newSize size) later

theorem Content.run_unwritten {e : Content} {events : List (FileCall × Mem)} {p : Nat} (inside : p < e.size)
    (unwritten : Unwritten p e.size events) : p < (e.run events).size ∧ (e.run events).byte p = e.byte p := by
  induction events generalizing e with
  | nil => exact ⟨inside, rfl⟩
  | cons x later ih =>
    obtain ⟨notHere, covered, notLater⟩ := unwritten
    obtain ⟨still, same⟩ := ih (e := e.call x) covered notLater
    refine ⟨still, same.trans ?_⟩
    rw [call_byte notHere, if_pos inside]

/-- A position shows what was found there when the file came to cover it. -/
theorem Content.run_found {e : Content} {before later : List (FileCall × Mem)} {c : FileCall} {found : Mem} {p : Nat}
    (outside : (e.run before).size ≤ p) (unwritten : Unwritten p (e.run before).size ((c, found) :: later)) :
    p < (e.run (before ++ (c, found) :: later)).size ∧ (e.run (before ++ (c, found) :: later)).byte p = found p := by
  obtain ⟨notHere, covered, notLater⟩ := unwritten
  obtain ⟨still, same⟩ := run_unwritten (e := (e.run before).call (c, found)) covered notLater
  rw [run_append]
  refine ⟨still, same.trans ?_⟩
  rw [call_byte notHere, if_neg (Nat.not_lt.mpr outside)]

/-- File `a` has the content `e`, among live inodes that are allocated. -/
structure Holds (L : Layout) (a : Nat) (e : Content) (live : Nat → Prop) (s : Disk) : Prop where
  state : Populated L s live
  marked : ∀ j, live j → L.Allocated s j
  here : live a
  type : (L.inode s.blocks a).type = kFile
  small : (L.inode s.blocks a).size.toNat < 2147483648
  size : (L.inode s.blocks a).size.toNat = e.size
  bytes : ∀ p, p < e.size → (L.inode s.blocks a).byte s.blocks p = e.byte p

namespace Holds

variable {e : Content} {dir x : Nat} {name : Name}

theorem call (holds : Holds L a e live s) (allowed : c.Allowed L a s) {found : Mem}
    (finds : ∀ p, (L.inode s.blocks a).size.toNat ≤ p → p < c.newSize (L.inode s.blocks a).size.toNat →
      found p = L.heldBefore a s (c.after L a s) p) : Holds L a (e.call (c, found)) live (c.after L a s) := by
  have done := allowed.done holds.state holds.here
  generalize c.after L a s = s' at *
  have size := done.size
  constructor
  case state => exact done.worked.state
  case marked => exact fun j there => (done.worked.marks.used j).mpr (holds.marked j there)
  case here => exact holds.here
  case type => exact done.worked.type.trans holds.type
  case small => exact size ▸ allowed.small
  case size => rw [size, holds.size, Content.call]
  case bytes =>
    intro p inside
    have covered : p < (L.inode s'.blocks a).size.toNat := by
      rw [size, holds.size]
      exact inside
    rw [done.bytes p covered, Content.call]
    refine FileCall.put_congr ?_
    by_cases old : p < e.size
    · -- the position is in the block it was in
      have was : p < (L.inode s.blocks a).size.toNat := holds.size ▸ old
      rw [if_pos old, ← holds.bytes p old, Layout.heldBefore, DiskInode.byte, byteAt, byteAt, DiskInode.ids,
        DiskInode.ids, done.ids _ (DiskInode.owns_data was) (DiskInode.owns_data covered)]
    · rw [if_neg old]
      exact (finds p (by rw [holds.size]; omega) (size ▸ covered)).symm

/-- Steps that leave the file alone. -/
theorem same (holds : Holds L a e live s) {live' : Nat → Prop} (state : Populated L s' live')
    (marked : ∀ j, live' j → L.Allocated s' j) (here : live' a) (same : ∃ c, Recounted L a c s s') :
    Holds L a e live' s' := by
  obtain ⟨count, same⟩ := same
  refine ⟨state, marked, here, ?_, ?_, ?_, fun p inside => ?_⟩
  · rw [same.inode]
    exact holds.type
  · rw [same.size]
    exact holds.small
  · rw [same.size, holds.size]
  · rw [same.bytes p (holds.size ▸ inside), holds.bytes p inside]

theorem other (holds : Holds L a e live s) (there : live i) (ne : i ≠ a) (allowed : c.Allowed L i s) :
    Holds L a e live (c.after L i s) := by
  have done := allowed.done holds.state there
  exact holds.same done.worked.state (fun j here => (done.worked.marks.used j).mpr (holds.marked j here)) holds.here
    ⟨_, .of_sameFile (done.worked.others a holds.here ne.symm)⟩

theorem remove (holds : Holds L a e live s) (there : live dir) (isDir : IsDirectory (L.inode s.blocks dir) s.blocks)
    (few : ((L.inode s.blocks dir).entries s.blocks).length ≤ 33152)
    (bound : (name, x) ∈ (L.inode s.blocks dir).entries s.blocks) (alive : live x) (notDir : x ≠ dir) (ne : x ≠ a) :
    Holds L a e (fun j => live j ∧ L.Allocated ((Inode.remove L.formatted (L.slot dir) name).run s).2 j)
      ((Inode.remove L.formatted (L.slot dir) name).run s).2 := by
  have ok : Searchable L dir s := ⟨isDir, by omega⟩
  have only : ∀ y, (name, y) ∈ (L.inode s.blocks dir).entries s.blocks → y = x := fun y member =>
    isDir.distinct.functional member bound
  have notFile : a ≠ dir := by
    rintro rfl
    have := holds.type.symm.trans isDir.type
    cases this
  obtain ⟨ret, s', run, result⟩ := holds.state.run_remove there ok few (isDir.names _ bound) holds.marked
    fun y member => by
      rw [only y member]
      exact ⟨alive, notDir⟩
  rw [run]
  have marked : ∀ j, live j ∧ L.Allocated s' j → L.Allocated s' j := fun _ => And.right
  cases result with
  | @freed k y here last edited bits blocks =>
    obtain rfl := only y (List.mem_of_getElem? here)
    have still : ∀ j, live j → j ≠ y → L.Allocated s' j := fun j alive ne => (bits j).mpr ⟨holds.marked j alive, ne⟩
    have kept := edited.others a ⟨holds.here, ne.symm⟩ notFile
    exact holds.same (edited.state.subset fun j alive => ⟨alive.1, ((bits j).mp alive.2).2⟩) marked
      ⟨holds.here, still a holds.here ne.symm⟩ ⟨_, kept⟩
  | kept here more marks edited =>
    exact holds.same (edited.state.subset fun j alive => alive.1) marked
      ⟨holds.here, (marks.used a).mpr (holds.marked a holds.here)⟩ ⟨_, edited.others a holds.here notFile⟩
  | absent quiet unbound => exact absurd bound (unbound x)

end Holds

theorem FileHistory.holds {s₀ : Disk} {live₀ : Nat → Prop} {events : List (FileCall × Mem)} {e : Content}
    (history : FileHistory L a live₀ s₀ events live s) (start : Holds L a e live₀ s₀) :
    Holds L a (e.run events) live s := by
  induction history with
  | start => exact start
  | call _ allowed finds ih =>
    rw [Content.run_concat]
    exact ih.call allowed finds
  | other _ there ne allowed ih => exact ih.other there ne allowed
  | remove _ there isDir few bound alive notDir ne ih => exact ih.remove there isDir few bound alive notDir ne

/-- `read_data` inside the file. -/
theorem Holds.run_readData {e : Content} (holds : Holds L a e live s) {offset len : Nat} (some : 1 ≤ len)
    (start : offset < e.size) (sum : offset + len < 4294967296) (out : Mem) :
    ((Inode.readData (L.slot a) offset out len).run s).1 = (((min len (e.size - offset) : Nat) : Int),
      splice out 0 (min len (e.size - offset)) fun i => e.byte (offset + i)) := by
  have size := holds.size
  have small := holds.small
  obtain ⟨d', s', run, -⟩ := Inode.run_readData (d := L.inode s.blocks a) rfl
    (Layout.slot_low (holds.state.slots a holds.here)) (holds.state.volume.map a holds.here)
    holds.state.volume.segment some (size ▸ start) (.inl (by omega)) holds.state.failId sum out
  have bytes : (splice out 0 (min len (e.size - offset)) fun i => (L.inode s.blocks a).byte s.blocks (offset + i)) =
      splice out 0 (min len (e.size - offset)) fun i => e.byte (offset + i) := by
    funext i
    by_cases inside : i < min len (e.size - offset)
    · rw [splice_inside (Nat.zero_le i) (by omega), splice_inside (Nat.zero_le i) (by omega), Nat.sub_zero,
        holds.bytes _ (by omega)]
    · rw [splice_outside (by omega), splice_outside (by omega)]
  rw [run, size, bytes]

end

/-- A position that has not been written since the file came to cover it shows what the disk held at
its place before.  Two histories with the same calls that found the same bytes show the same. -/
theorem reads_found (L : Layout) {a : Nat} {e : Content} {live₀ live : Nat → Prop} {s₀ s : Disk}
    {events : List (FileCall × Mem)} (start : Holds L a e live₀ s₀) (history : FileHistory L a live₀ s₀ events live s) :
    (∀ before c found later p, events = before ++ (c, found) :: later → (e.run before).size ≤ p →
      Unwritten p (e.run before).size ((c, found) :: later) →
      ∀ offset len out, offset ≤ p → p < offset + len → offset + len < 4294967296 →
        ((Inode.readData (L.slot a) offset out len).run s).1.2 (p - offset) = found p) ∧
    ∀ (live₁ live' : Nat → Prop) (t₀ t : Disk), Holds L a e live₁ t₀ → FileHistory L a live₁ t₀ events live' t →
      ∀ offset len out, 1 ≤ len → offset < (e.run events).size → offset + len < 4294967296 →
        ((Inode.readData (L.slot a) offset out len).run t).1 = ((Inode.readData (L.slot a) offset out len).run s).1 := by
  have now := history.holds start
  constructor
  · rintro before c found later p rfl outside unwritten offset len out lower upper sum
    obtain ⟨inside, shown⟩ := Content.run_found outside unwritten
    have first : offset < (e.run (before ++ (c, found) :: later)).size := by omega
    rw [now.run_readData (by omega) first sum out]
    dsimp only
    rw [splice_inside (Nat.zero_le _) (by omega), Nat.sub_zero, show offset + (p - offset) = p by omega, shown]
  · intro live₁ live' t₀ t start' history' offset len out some first sum
    rw [now.run_readData some first sum out, (history'.holds start').run_readData some first sum out]

/-! ### A dirty disk -/

/-- `emptyFile` in slot 2; the data area is free and full of ones. -/
def dirtyDisk : Disk :=
  { oneFileDisk 0 with blocks := fun b => if b = 1 ∨ 1153 ≤ b then fun _ => 255 else (oneFileDisk 0).blocks b }

theorem dirtyDisk_inode : Layout.default.inode dirtyDisk.blocks 2 = emptyFile := by
  rw [← oneFileDisk_slot2 0]
  rfl

theorem dirtyDisk_free :
    growth emptyFile 1 ≤ (Layout.default.formatted.dataBitmap.freeIds dirtyDisk.blocks).length := by
  have same : Layout.default.formatted.dataBitmap.freeIds dirtyDisk.blocks =
      Layout.default.formatted.dataBitmap.freeIds (oneFileDisk 0).blocks := by
    refine Bitmap.freeIds_congr fun b holds => if_neg ?_
    rw [Layout.dataBitmap_eq] at holds
    have lower : 1026 ≤ b := holds.1
    have upper : b < 1026 + 127 := holds.2
    omega
  rw [same]
  exact oneFileDisk_free

theorem dirtyDisk_holds : Holds .default 2 ⟨0, fun _ => 0⟩ (· = 2) dirtyDisk := by
  have device : Layout.default.areaEnd ≤ dirtyDisk.count := oneFileDisk_device 0
  constructor
  case state =>
    refine ⟨device, by decide, fun j is => is ▸ lone_slotId, Layout.default.segment device, fun j is => ?_,
      fun j k is is' b _ _ => is.trans is'.symm⟩
    rw [is, dirtyDisk_inode]
    exact emptyFile_empty.map
  case marked =>
    rintro j rfl
    decide
  case here => rfl
  case type => rw [dirtyDisk_inode]; rfl
  case small => rw [dirtyDisk_inode]; decide
  case size => rw [dirtyDisk_inode]; rfl
  case bytes => exact fun p none => absurd none (Nat.not_lt_zero p)

/-- The first byte of a growth on the dirty disk. -/
theorem dirtyDisk_grown : FileHistory .default 2 (· = 2) dirtyDisk [(.resize 1, fun _ => 255)] (· = 2)
    (FileCall.after .default 2 dirtyDisk (.resize 1)) := by
  have allowed : (FileCall.resize 1).Allowed .default 2 dirtyDisk := by
    constructor
    case type => rw [dirtyDisk_inode]; rfl
    case small => exact show 1 < 2147483648 by decide
    case enough =>
      rw [dirtyDisk_inode]
      exact dirtyDisk_free
    case harmless => exact fun strays => absurd strays.1 (show ¬ 1047 < dataBlocks 1 by decide)
  have initial : FileHistory .default 2 (· = 2) dirtyDisk [] (· = 2) dirtyDisk := .start
  refine initial.call allowed fun p _ inside => ?_
  -- the block of the new position is one of the data area
  have done := allowed.done dirtyDisk_holds.state rfl
  have covered : p < (Layout.default.inode (FileCall.after .default 2 dirtyDisk (.resize 1)).blocks 2).size.toNat := by
    rw [done.size]
    exact inside
  have area := ((done.worked.state.volume.map 2 rfl).used _ (DiskInode.owns_data covered)).1.1
  have offset : Layout.default.formatted.dataBitmap.dataSegmentOffset = 1153 := by
    rw [Layout.dataBitmap_eq]
    rfl
  rw [offset] at area
  have ones : ∀ b, 1153 ≤ b → dirtyDisk.blocks b = fun _ => 255 := fun b high => if_pos (.inr high)
  rw [Layout.heldBefore, byteAt, DiskInode.ids, ones _ area, Bytes.get, dif_pos (Nat.mod_lt _ (by decide))]

theorem reads_found_dirtyDisk :
    ((Inode.readData (Layout.default.slot 2) 0 (fun _ => 0) 1).run
      (FileCall.after .default 2 dirtyDisk (.resize 1))).1.2 0 = 255 :=
  (reads_found .default dirtyDisk_holds dirtyDisk_grown).1 [] _ _ [] 0 rfl (Nat.le_refl 0)
    ⟨fun writes => writes, Nat.one_pos, trivial⟩ 0 1 (fun _ => 0) (Nat.le_refl 0) Nat.one_pos (by decide)

/-- The first byte of a growth shows what a block of the dirty disk held, and that is not 0. -/
theorem stale_byte_shown :
    ¬ ∀ (L : Layout) (a : Nat) (e : Content) (live₀ live : Nat → Prop) (s₀ s : Disk) (events : List (FileCall × Mem)),
      Holds L a e live₀ s₀ → FileHistory L a live₀ s₀ events live s →
      ∀ before c found later p, events = before ++ (c, found) :: later → (e.run before).size ≤ p →
        Unwritten p (e.run before).size ((c, found) :: later) →
        ∀ offset len out, offset ≤ p → p < offset + len → offset + len < 4294967296 →
          ((Inode.readData (L.slot a) offset out len).run s).1.2 (p - offset) = 0 := by
  intro always
  have zero := always .default 2 _ _ _ _ _ _ dirtyDisk_holds dirtyDisk_grown [] _ _ [] 0 rfl (Nat.le_refl 0)
    ⟨fun writes => writes, Nat.one_pos, trivial⟩ 0 1 (fun _ => 0) (Nat.le_refl 0) Nat.one_pos (by decide)
  have shown := (dirtyDisk_grown.holds dirtyDisk_holds).run_readData (Nat.le_refl 1)
    (show 0 < (Content.run ⟨0, fun _ => 0⟩ [(.resize 1, fun _ => 255)]).size from Nat.one_pos) (by decide) fun _ => 0
  rw [shown] at zero
  exact absurd zero (by decide)

end Sbfs
