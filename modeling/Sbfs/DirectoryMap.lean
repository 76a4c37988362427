import Sbfs.BlockCounts
import Sbfs.Creation
import Sbfs.InodeReq

/-! # A directory is a finite map

`create`, `link`, `unlink` and `find` on a directory in the default layout, and the loop of
`sb_readdir`.  `bindings` is the map that a directory stands for; `DirCall.Effect` says what
each method does to it. -/

namespace Sbfs

open Slot PackedMap

/-! ## `sb_readdir` -/

/-- The names of the valid entries of a block. -/
def validNames (dirBlk : Mem) : List Name :=
  (List.range 16).filterMap fun j =>
    if dirBlk (256 * j) ≠ 0 then some (cString (fun p => dirBlk (256 * j + p)) 252) else none

/-- The loop over the blocks; each round has a new `DirBlock`. -/
def listFrom (inode : Position) : Nat → Nat → Prog (List Name)
  | 0, _ => return []
  | n + 1, i => do
    let (_, dirBlk) ← Inode.readData inode (i * 4096 % 4294967296) (fun _ => 0) 4096
    return validNames dirBlk ++ (← listFrom inode n (i + 1))

/-- `sb_readdir` from `read_inode` on, with the names that it hands to `filler`. -/
def listNames (uid gid : UInt16) (inode : Position) : Prog (Int × List Name) := do
  let new ← DiskInode.new kDirectory uid gid
  let d := (← readInode inode).getD new
  if d.type ≠ kDirectory then return (-20, [])
  else return (0, ← listFrom inode (DiskInode.totalBlocks d.size.toNat) 0)

section

variable {L : Layout} {s s' s'' : Disk} {live : Nat → Prop} {a m i : Nat} {d : DiskInode}

theorem cString_eq_nil {f : Mem} {n : Nat} : cString f (n + 1) = [] ↔ f 0 = 0 := by
  rw [cString]
  by_cases zero : f 0 = 0
  · simp [zero]
  · simp [zero]

/-- The names of the entries from block `i` on. -/
def namesFrom (f : Mem) (m i : Nat) : List Name :=
  (List.range (m - 16 * i)).map fun j => (entryAt f (16 * i + j)).1

theorem namesFrom_eq (f : Mem) (m i : Nat) : namesFrom f m i = ((entriesIn f m).map Prod.fst).drop (16 * i) := by
  rw [namesFrom, entriesIn, List.map_map, ← List.map_drop]
  by_cases inside : 16 * i ≤ m
  · obtain ⟨r, rfl⟩ := Nat.exists_eq_add_of_le inside
    rw [Nat.add_sub_cancel_left, List.range_add, List.drop_left' List.length_range, List.map_map]
    rfl
  · rw [Nat.sub_eq_zero_of_le (by omega), List.drop_of_length_le (by rw [List.length_range]; omega)]
    rfl

theorem filterMap_range (g : Nat → Name) (n k : Nat) :
    ((List.range n).filterMap fun j => if j < k then some (g j) else none) = (List.range (min n k)).map g := by
  induction n with
  | zero => rw [Nat.zero_min, List.range_zero, List.filterMap_nil, List.map_nil]
  | succ n ih =>
    rw [List.range_succ, List.filterMap_append, ih]
    by_cases low : n < k
    · rw [show min (n + 1) k = n + 1 by omega, show min n k = n by omega, List.range_succ, List.map_append]
      simp [low]
    · rw [show min (n + 1) k = k by omega, show min n k = k by omega]
      simp [low]

/-- The names in block `i`, read into a new buffer, come before those of the later blocks. -/
theorem namesFrom_scanned {f got : Mem} (scanned : Scanned f m i (fun _ => 0) got)
    (names : ∀ e, e < m → (entryAt f e).1 ≠ []) : validNames got ++ namesFrom f m (i + 1) = namesFrom f m i := by
  have valid : validNames got = (List.range (min 16 (m - 16 * i))).map fun j => (entryAt f (16 * i + j)).1 := by
    rw [← filterMap_range, validNames]
    refine List.filterMap_congr fun j member => ?_
    have inside := List.mem_range.mp member
    have name : (entryAt got j).1 = cString (fun p => got (256 * j + p)) 252 := rfl
    have first : cString (fun p => got (256 * j + p)) 252 = [] ↔ got (256 * j) = 0 := cString_eq_nil
    by_cases inFile : 16 * i + j < m
    · have same := congrArg Prod.fst (scanned.block j inside inFile)
      rw [if_pos (show j < m - 16 * i by omega), if_pos, ← same, name]
      intro zero
      exact names _ inFile (same.symm.trans (first.mpr zero))
    · -- behind the last entry the buffer is as it was made
      have stale := scanned.stale j inside (by omega)
      rw [if_neg (show ¬ j < m - 16 * i by omega), if_neg]
      rw [not_not, ← first, stale]
      rfl
  rw [valid, namesFrom, namesFrom]
  by_cases full : 16 ≤ m - 16 * i
  · rw [show m - 16 * i = 16 + (m - 16 * (i + 1)) by omega, List.range_add, List.map_append, List.map_map,
      show min 16 (16 + (m - 16 * (i + 1))) = 16 by omega]
    congr 1
    refine List.map_congr_left fun j _ => ?_
    rw [show 16 * (i + 1) + j = 16 * i + (16 + j) by omega]
    rfl
  · rw [show m - 16 * (i + 1) = 0 by omega, show min 16 (m - 16 * i) = m - 16 * i by omega, List.range_zero,
      List.map_nil, List.append_nil]

/-- One round of the loop. -/
theorem Populated.run_listRound (state : Populated L s live) (here : live a) (ok : Searchable L a s)
    (range : i < 1048575) :
    ∃ ret got s', (Inode.readData (L.slot a) (i * 4096 % 4294967296) (fun _ => 0) 4096).run s = ((ret, got), s') ∧
      validNames got ++ (((L.inode s.blocks a).entries s.blocks).map Prod.fst).drop (16 * (i + 1)) =
        (((L.inode s.blocks a).entries s.blocks).map Prod.fst).drop (16 * i) ∧
      Edited L live a ((L.inode s.blocks a).entries s.blocks) (L.links s.blocks) s s' := by
  obtain ⟨ret, got, d, s₁, run, retimed, quiet, scanned⟩ := run_scanRound (state.volume.map a here)
    state.volume.segment state.failId ok.dir.aligned (by have := ok.size; omega) range fun _ => 0
  have entries := DiskInode.entries_of_size (D := s.blocks) ok.dir.aligned
  have names : ∀ e, e < ((L.inode s.blocks a).entries s.blocks).length →
      (entryAt ((L.inode s.blocks a).byte s.blocks) e).1 ≠ [] := by
    intro e inside
    refine (ok.dir.names _ ?_).some
    rw [entries]
    exact mem_entriesIn.mpr ⟨e, inside, rfl⟩
  have listed := namesFrom_scanned scanned names
  rw [namesFrom_eq, namesFrom_eq, ← entries] at listed
  by_cases failed : ret = -1
  · refine ⟨-1, got, s₁, ?_, listed, state.unchanged here ok.dir quiet⟩
    simp only [Inode.readData, DevProg.run_bind, state.run_readInode here, run, failed, if_true, DevProg.run_pure]
  · obtain ⟨s', save, -, edited⟩ := state.run_save_retimed here ok quiet retimed
    refine ⟨ret, got, s', ?_, listed, edited⟩
    simp only [Inode.readData, DevProg.run_bind, state.run_readInode here, run, failed, if_false, save,
      DevProg.run_pure]

theorem Edited.searchable {count : Nat → UInt16} (edited : Edited L live a ((L.inode s.blocks a).entries s.blocks) count s s')
    (ok : Searchable L a s) : Searchable L a s' :=
  ⟨edited.dir, by rw [edited.entries]; exact ok.small⟩

theorem Populated.run_listFrom {n : Nat} (state : Populated L s live) (here : live a) (ok : Searchable L a s)
    (range : i + n ≤ 1048575) (all : ((L.inode s.blocks a).entries s.blocks).length ≤ 16 * (i + n)) :
    ∃ s', (listFrom (L.slot a) n i).run s =
        ((((L.inode s.blocks a).entries s.blocks).map Prod.fst).drop (16 * i), s') ∧
      Edited L live a ((L.inode s.blocks a).entries s.blocks) (L.links s.blocks) s s' := by
  induction n generalizing i s with
  | zero =>
    refine ⟨s, ?_, state.unchanged here ok.dir (.refl _ s)⟩
    rw [List.drop_of_length_le (by rw [List.length_map]; omega)]
    rfl
  | succ n ih =>
    obtain ⟨ret, got, s₁, run, listed, edited⟩ := state.run_listRound here ok (show i < 1048575 by omega)
    have entries := edited.entries
    obtain ⟨s', rest, edited'⟩ := ih (i := i + 1) edited.state (edited.searchable ok) (by omega) (by
      rw [entries]
      omega)
    rw [entries] at rest edited'
    refine ⟨s', ?_, (edited.trans edited').congr here fun j there => (edited.links there).symm⟩
    simp only [listFrom, DevProg.run_bind, run, rest, DevProg.run_pure, listed]

/-- The loop of `sb_readdir` hands out the names of the entries in their order. -/
theorem Populated.run_listNames (uid gid : UInt16) (state : Populated L s live) (here : live a)
    (ok : Searchable L a s) :
    ∃ s', (listNames uid gid (L.slot a)).run s = ((0, ((L.inode s.blocks a).entries s.blocks).map Prod.fst), s') ∧
      Edited L live a ((L.inode s.blocks a).entries s.blocks) (L.links s.blocks) s s' := by
  obtain ⟨new, s₁, make, quiet, -⟩ := DiskInode.run_new kDirectory uid gid s
  have start := state.unchanged here ok.dir quiet
  have blocks := quiet.quiet
  have small := ok.size
  have total : dataBlocks (L.inode s.blocks a).size.toNat ≤ DiskInode.totalBlocks (L.inode s.blocks a).size.toNat ∧
      DiskInode.totalBlocks (L.inode s.blocks a).size.toNat ≤ 1048575 := by
    have blocks : dataBlocks (L.inode s.blocks a).size.toNat ≤ 524288 := by
      simp only [dataBlocks]
      omega
    simp only [DiskInode.totalBlocks]
    generalize dataBlocks (L.inode s.blocks a).size.toNat = n at blocks ⊢
    split
    · omega
    · split <;> omega
  obtain ⟨s', run, edited⟩ := start.state.run_listFrom (i := 0) here (start.searchable ok)
    (n := DiskInode.totalBlocks (L.inode s.blocks a).size.toNat) (by omega) (by
      have covered := total.1
      simp only [dataBlocks] at covered
      rw [start.entries]
      omega)
  rw [start.entries, Nat.mul_zero, List.drop_zero] at run
  rw [start.entries] at edited
  refine ⟨s', ?_, (start.trans edited).congr here fun j there => (start.links there).symm⟩
  have isDir : ¬ (L.inode s.blocks a).type ≠ kDirectory := not_not_intro ok.dir.type
  have read : (readInode (L.slot a)).run s₁ = (some (L.inode s.blocks a), s₁) := by
    rw [start.state.run_readInode here, blocks]
  simp only [listNames, DevProg.run_bind, make, read, Option.getD_some, isDir, if_false, run, DevProg.run_pure]

end

/-! ## Calls -/

/-- The calls on a directory; `link` names its target by the inode id. -/
inductive DirCall where
  | create (name : Name) (diskInode : DiskInode)
  | link (name : Name) (inode : Nat) (replace : Bool)
  | unlink (name : Name)
  | find (name : Name)

namespace DirCall

def name : DirCall → Name
  | create name _ => name
  | link name _ _ => name
  | unlink name => name
  | find name => name

/-- The method on the directory at `dir`, with the return value and what `*inode` is set to. -/
def prog (L : Layout) (dir : Position) : DirCall → Prog (Ret × Option Position)
  | create name diskInode => Inode.create L.formatted dir name diskInode
  | link name inode replace => do return (← Inode.link L.formatted dir name (L.slot inode) replace, none)
  | unlink name => Inode.unlink L.formatted dir name
  | find name => do
    match ← Inode.find L.formatted dir name with
    | some inode => return (.kSuccess, some inode)
    | none => return (.kFail, none)

end DirCall

/-- The map that directory `a` stands for. -/
def bindings (L : Layout) (a : Nat) (s : Disk) : Name → Option Nat :=
  PackedMap.find ((L.inode s.blocks a).entries s.blocks)

/-- Directory `a` with its inode and the inodes of its entries in the inode area. -/
structure DirState (L : Layout) (a : Nat) (s : Disk) : Prop where
  state : Populated L s (· = a)
  dir : IsDirectory (L.inode s.blocks a) s.blocks
  marked : L.formatted.inodeBitmap.Used s.blocks a
  slots : ∀ x ∈ (L.inode s.blocks a).entries s.blocks, L.SlotId x.2
  device : s.count = L.totalBlocks

/-- The calls that the property is about: names are proper, `create` gets a new `DiskInode` and
an absent name, and the inodes that are handed out or linked lie in the inode area. -/
def DirCall.Allowed (L : Layout) (a : Nat) (s : Disk) (c : DirCall) : Prop :=
  ProperName c.name ∧
    match c with
    | .create name diskInode => bindings L a s name = none ∧ diskInode.Empty ∧
        ∀ n, (L.formatted.inodeBitmap.freeIds s.blocks).head? = some n → L.SlotId n
    | .link _ inode _ => L.SlotId inode
    | _ => True

/-- What a call does to the map. -/
def DirCall.Effect (L : Layout) (before after : Name → Option Nat) (r : Ret × Option Position) : DirCall → Prop
  | .create name _ => (r.1 = .kSuccess → ∃ n, r.2 = some (L.slot n) ∧ after = Function.update before name (some n)) ∧
      (r.1 = .kFail → after = before)
  | .link name inode _ => (r.1 = .kSuccess → after = Function.update before name (some inode)) ∧
      (r.1 = .kFail → after = before)
  | .unlink name => (r.1 = .kSuccess → ∃ n, before name = some n ∧ r.2 = some (L.slot n) ∧
        after = Function.update before name none) ∧
      (r.1 = .kFail → after = before)
  | .find name => (r.1 = .kFail ↔ before name = none) ∧ r.2 = (before name).map L.slot ∧ after = before

/-- The states that calls on directory `a` reach; each is made while the directory has at most
as many entries as the default layout has inodes. -/
inductive DirReach (L : Layout) (a : Nat) (s₀ : Disk) : Disk → Prop where
  | start : DirReach L a s₀ s₀
  | step {s s' : Disk} {c : DirCall} {r : Ret × Option Position} (reach : DirReach L a s₀ s)
      (allowed : c.Allowed L a s) (few : ((L.inode s.blocks a).entries s.blocks).length ≤ 32768)
      (run : (c.prog L (L.slot a)).run s = (r, s')) : DirReach L a s₀ s'

section

variable {L : Layout} {a : Nat} {s s' : Disk} {c : DirCall}

theorem DirState.searchable (ok : DirState L a s) (few : ((L.inode s.blocks a).entries s.blocks).length ≤ 32768) :
    Searchable L a s :=
  ⟨ok.dir, by omega⟩

/-- A change of the directory keeps what is known of it. -/
theorem DirState.edited (ok : DirState L a s) {es : List (Name × Nat)} {count : Nat → UInt16}
    (edited : Edited L (· = a) a es count s s')
    (marked : L.formatted.inodeBitmap.Used s.blocks a → L.formatted.inodeBitmap.Used s'.blocks a)
    (slots : ∀ x ∈ es, L.SlotId x.2) (count : s'.count = s.count) : DirState L a s' where
  state := edited.state
  dir := edited.dir
  marked := marked ok.marked
  slots := by
    rw [edited.entries]
    exact slots
  device := count.trans ok.device

theorem Linked.slots {es es' : List (Name × Nat)} {name : Name} {t : Nat} {replace : Bool}
    (linked : Linked es name t replace es') (slots : ∀ x ∈ es, L.SlotId x.2) (slotId : L.SlotId t) :
    (∀ x ∈ es', L.SlotId x.2) ∧ es'.length ≤ es.length + 1 := by
  cases linked with
  | replaced _ here =>
    refine ⟨fun x member => ?_, by rw [List.length_set]; omega⟩
    cases List.mem_or_eq_of_mem_set member with
    | inl old => exact slots x old
    | inr new => exact new ▸ slotId
  | appended absent =>
    refine ⟨fun x member => ?_, by rw [List.length_append, List.length_singleton]⟩
    cases List.mem_append.mp member with
    | inl old => exact slots x old
    | inr new => exact (List.mem_singleton.mp new) ▸ slotId

/-- What each call does, and what is known afterwards. -/
structure DirStep (L : Layout) (a : Nat) (s : Disk) (c : DirCall) (r : Ret × Option Position) (s' : Disk) : Prop where
  ok : DirState L a s'
  grows : ((L.inode s'.blocks a).entries s'.blocks).length ≤ ((L.inode s.blocks a).entries s.blocks).length + 1
  effect : c.Effect L (bindings L a s) (bindings L a s') r

variable {r : Ret × Option Position}

/-- A call that leaves the entries alone. -/
theorem DirState.unchanged (ok : DirState L a s) {count : Nat → UInt16}
    (edited : Edited L (· = a) a ((L.inode s.blocks a).entries s.blocks) count s s')
    (marked : L.formatted.inodeBitmap.Used s.blocks a → L.formatted.inodeBitmap.Used s'.blocks a)
    (device : s'.count = s.count) (effect : c.Effect L (bindings L a s) (bindings L a s) r) : DirStep L a s c r s' where
  ok := ok.edited edited marked ok.slots device
  grows := by
    rw [edited.entries]
    omega
  effect := by
    rw [show bindings L a s' = bindings L a s by rw [bindings, bindings, edited.entries]]
    exact effect

theorem DirState.step_link (ok : DirState L a s) (few : ((L.inode s.blocks a).entries s.blocks).length ≤ 32768)
    {name : Name} (proper : ProperName name) {t : Nat} (slotId : L.SlotId t) (replace : Bool) :
    ∃ r s', ((DirCall.link name t replace).prog L (L.slot a)).run s = (r, s') ∧
      DirStep L a s (.link name t replace) r s' := by
  obtain ⟨ret, s', run, result⟩ := ok.state.run_link rfl (ok.searchable few) proper slotId replace
  have device : s'.count = s.count := DevProg.count_of_run run
  refine ⟨(ret, none), s', by simp only [DirCall.prog, DevProg.run_bind, run, DevProg.run_pure], ?_⟩
  cases result with
  | @done es linked marks edited =>
    obtain ⟨slots, grows⟩ := linked.slots ok.slots slotId
    refine ⟨ok.edited edited (marks.used a).mpr slots device, by rw [edited.entries]; exact grows, fun _ => ?_,
      fun h => by cases h⟩
    rw [bindings, edited.entries, linked.find ok.dir.distinct, bindings]
  | refused quiet _ =>
    exact ok.unchanged (ok.state.unchanged rfl ok.dir quiet)
      ((SameMarks.of_touches quiet fun _ => False.elim).used a).mpr device ⟨fun h => (by cases h), fun _ => rfl⟩
  | full _ marks edited _ =>
    exact ok.unchanged edited (marks.used a).mpr device ⟨fun h => (by cases h), fun _ => rfl⟩

theorem DirState.step_unlink (ok : DirState L a s) (few : ((L.inode s.blocks a).entries s.blocks).length ≤ 32768)
    {name : Name} (proper : ProperName name) :
    ∃ r s', ((DirCall.unlink name).prog L (L.slot a)).run s = (r, s') ∧ DirStep L a s (.unlink name) r s' := by
  obtain ⟨r, s', run, result⟩ := ok.state.run_unlink rfl (ok.searchable few) (by omega)
    (fun x member => ok.slots _ member) proper
  have device : s'.count = s.count := DevProg.count_of_run run
  refine ⟨r, s', run, ?_⟩
  cases result with
  | @done e x here marks edited =>
    have inside := (List.getElem?_eq_some_iff.mp here).1
    have length := length_removeAt inside
    refine ⟨ok.edited edited (marks.used a).mpr (fun y member => ok.slots y (subset_removeAt inside member)) device,
      by rw [edited.entries]; omega, fun _ => ⟨x, ?_, rfl, ?_⟩, fun h => by cases h⟩
    · exact (find_eq_some ok.dir.distinct).mpr (List.mem_of_getElem? here)
    · rw [bindings, edited.entries, find_removeAt ok.dir.distinct here, bindings]
  | absent quiet _ =>
    exact ok.unchanged (ok.state.unchanged rfl ok.dir quiet)
      ((SameMarks.of_touches quiet fun _ => False.elim).used a).mpr device ⟨fun h => (by cases h), fun _ => rfl⟩

theorem DirState.step_find (ok : DirState L a s) (few : ((L.inode s.blocks a).entries s.blocks).length ≤ 32768)
    {name : Name} (proper : ProperName name) :
    ∃ r s', ((DirCall.find name).prog L (L.slot a)).run s = (r, s') ∧ DirStep L a s (.find name) r s' := by
  obtain ⟨s', run, quiet⟩ := ok.state.run_find rfl (ok.searchable few) proper
  have same := ok.state.unchanged rfl ok.dir quiet
  have marks := ((SameMarks.of_touches (L := L) quiet fun _ => False.elim).used a).mpr
  cases answer : PackedMap.find ((L.inode s.blocks a).entries s.blocks) name with
  | some x =>
    rw [answer] at run
    refine ⟨(.kSuccess, some (L.slot x)), s', ?_, ok.unchanged same marks quiet.count ⟨?_, ?_, rfl⟩⟩
    · simp only [DirCall.prog, DevProg.run_bind, run, Option.map_some, DevProg.run_pure]
    · rw [bindings, answer]
      exact ⟨fun h => (by cases h), fun h => (by cases h)⟩
    · rw [bindings, answer, Option.map_some]
  | none =>
    rw [answer] at run
    refine ⟨(.kFail, none), s', ?_, ok.unchanged same marks quiet.count ⟨?_, ?_, rfl⟩⟩
    · simp only [DirCall.prog, DevProg.run_bind, run, Option.map_none, DevProg.run_pure]
    · rw [bindings, answer]
      exact ⟨fun _ => rfl, fun _ => rfl⟩
    · rw [bindings, answer, Option.map_none]

theorem DirState.step_create (off : L.totalBlocks ≤ (L.slot kFailId).blockId) (ok : DirState L a s)
    (few : ((L.inode s.blocks a).entries s.blocks).length ≤ 32768) {name : Name} (proper : ProperName name)
    (absent : bindings L a s name = none) {d₀ : DiskInode} (empty : d₀.Empty)
    (inside : ∀ n, (L.formatted.inodeBitmap.freeIds s.blocks).head? = some n → L.SlotId n) :
    ∃ r s', ((DirCall.create name d₀).prog L (L.slot a)).run s = (r, s') ∧ DirStep L a s (.create name d₀) r s' := by
  have unbound := find_eq_none.mp absent
  obtain ⟨r, s', run, bits, result⟩ := ok.state.run_create rfl (ok.searchable few) unbound proper empty
    (fun j is => is ▸ ok.marked) (fun _ => ok.device ▸ off) inside
  have device : s'.count = s.count := DevProg.count_of_run run
  have marked : L.formatted.inodeBitmap.Used s.blocks a → L.formatted.inodeBitmap.Used s'.blocks a :=
    fun used => (bits a).mpr (.inl used)
  refine ⟨r, s', run, ?_⟩
  cases result with
  | @done n head created =>
    obtain ⟨slots, grows⟩ := (show Linked _ name n false _ from .appended unbound).slots ok.slots (inside n head)
    have edited := created.edited
    refine ⟨ok.edited edited marked slots device, by rw [edited.entries]; exact grows, fun _ => ⟨n, rfl, ?_⟩,
      fun h => by cases h⟩
    rw [bindings, edited.entries, find_append ok.dir.distinct unbound, bindings]
  | failed state' same _ =>
    exact ok.unchanged (.of_recounted state' rfl ok.dir fun j is => .of_sameFile (same j is)) marked device
      ⟨fun h => (by cases h), fun _ => rfl⟩

/-- Each call has one of its effects. -/
theorem DirState.step (off : L.totalBlocks ≤ (L.slot kFailId).blockId) (ok : DirState L a s)
    (few : ((L.inode s.blocks a).entries s.blocks).length ≤ 32768) (allowed : c.Allowed L a s) :
    ∃ r s', (c.prog L (L.slot a)).run s = (r, s') ∧ DirStep L a s c r s' := by
  obtain ⟨proper, needs⟩ := allowed
  cases c with
  | create name diskInode => exact ok.step_create off few proper needs.1 needs.2.1 needs.2.2
  | link name inode replace => exact ok.step_link few proper needs replace
  | unlink name => exact ok.step_unlink few proper
  | find name => exact ok.step_find few proper

/-- What holds on every run. -/
theorem DirReach.inv {s₀ : Disk} (off : L.totalBlocks ≤ (L.slot kFailId).blockId) (start : DirState L a s₀)
    (few : ((L.inode s₀.blocks a).entries s₀.blocks).length ≤ 32768) (reach : DirReach L a s₀ s) :
    DirState L a s ∧ ((L.inode s.blocks a).entries s.blocks).length ≤ 32769 := by
  induction reach with
  | start => exact ⟨start, by omega⟩
  | @step s s' c r _ allowed small run ih =>
    obtain ⟨r', s'', run', step⟩ := ih.1.step off small allowed
    cases run.symm.trans run'
    have grows := step.grows
    exact ⟨step.ok, by omega⟩

end

/-- A directory of the default layout is a finite map on every run of its methods: names stay
distinct, each method has the effect on the map that it should have, and the loop of
`sb_readdir` hands out every bound name once. -/
theorem directory_is_map {a : Nat} {s₀ s : Disk} (start : DirState .default a s₀)
    (few : ((Layout.default.inode s₀.blocks a).entries s₀.blocks).length ≤ 32768)
    (reach : DirReach .default a s₀ s) :
    Distinct ((Layout.default.inode s.blocks a).entries s.blocks) ∧
    (∀ c : DirCall, c.Allowed .default a s → ((Layout.default.inode s.blocks a).entries s.blocks).length ≤ 32768 →
      ∃ r s', (c.prog .default (Layout.default.slot a)).run s = (r, s') ∧
        c.Effect .default (bindings .default a s) (bindings .default a s') r) ∧
    ∀ uid gid, ∃ names s', (listNames uid gid (Layout.default.slot a)).run s = ((0, names), s') ∧ names.Nodup ∧
      ∀ name, name ∈ names ↔ ∃ x, bindings .default a s name = some x := by
  have off : Layout.default.totalBlocks ≤ (Layout.default.slot kFailId).blockId := by decide
  obtain ⟨ok, small⟩ := reach.inv off start few
  refine ⟨ok.dir.distinct, fun c allowed fits => ?_, fun uid gid => ?_⟩
  · obtain ⟨r, s', run, step⟩ := ok.step off fits allowed
    exact ⟨r, s', run, step.effect⟩
  · obtain ⟨s', run, -⟩ := ok.state.run_listNames uid gid rfl ⟨ok.dir, by omega⟩
    refine ⟨_, s', run, ok.dir.distinct, fun name => ?_⟩
    rw [List.mem_map]
    constructor
    · rintro ⟨x, member, rfl⟩
      exact ⟨x.2, (find_eq_some ok.dir.distinct).mpr member⟩
    · rintro ⟨x, bound⟩
      exact ⟨(name, x), (find_eq_some ok.dir.distinct).mp bound, rfl⟩

/-- The entry after some entries of a block needs no block. -/
theorem IsDirectory.next_fits {d : DiskInode} {D : Nat → Block} (dir : IsDirectory d D)
    (some : 0 < (d.entries D).length % 16) : growth d (d.size.toNat + 256) = 0 := by
  have aligned := dir.aligned
  refine growth_shrink ?_
  simp only [dataBlocks]
  omega

/-! ### A disk with one directory -/

def loneDirectory : DiskInode := { emptyFile with type := kDirectory }

/-- A blank disk on which inode 2 has been made an empty directory. -/
def loneDisk : Disk :=
  (Layout.default.formatted.inodeBitmap.mark blankImage 0).put 2 (putInode Bytes.zero 256 loneDirectory)

theorem loneDirectory_empty : loneDirectory.Empty := ⟨rfl, rfl, rfl, rfl⟩

theorem lone_slotId : Layout.default.SlotId 2 := ⟨by decide, by decide⟩

theorem loneDisk_inode : Layout.default.inode loneDisk.blocks 2 = loneDirectory := by
  have place : Layout.default.slot 2 = ⟨2, 256⟩ := Layout.slot_eq lone_slotId
  have block : loneDisk.blocks 2 = putInode Bytes.zero 256 loneDirectory :=
    Store.put_blocks_same _ _ (show 2 < 4194304 by decide)
  rw [Layout.inode, place]
  simp only [block]
  exact inodeIn_putInode _ _ (by decide)

theorem loneDisk_entries : (Layout.default.inode loneDisk.blocks 2).entries loneDisk.blocks = [] := by
  rw [loneDisk_inode, DiskInode.entries_of_size (m := 0) rfl]
  rfl

theorem loneDisk_blocks : (Layout.default.formatted.dataBitmap.freeIds loneDisk.blocks).length = 4161536 := by
  rw [← blankImage_free]
  refine congrArg List.length (Bitmap.freeIds_congr fun b holds => ?_)
  have high : 1026 ≤ b := by
    rw [Layout.dataBitmap_eq] at holds
    exact holds.1
  rw [loneDisk, Store.put_blocks_ne _ _ (by omega), Bitmap.mark, Store.put_blocks_ne]
  exact Nat.ne_of_gt (Nat.lt_of_lt_of_le (by decide) high)

theorem loneDisk_free : 1 ≤ (Layout.default.formatted.dataBitmap.freeIds loneDisk.blocks).length := by
  rw [loneDisk_blocks]
  decide

theorem loneDisk_used (i : Nat) : Layout.default.formatted.inodeBitmap.Used loneDisk.blocks i ↔ i = 2 := by
  have fits : Layout.default.formatted.inodeBitmap.Fits blankImage.count := Layout.inodeBitmap_fits _ (Nat.le_refl _)
  have capacity : 0 < Layout.default.formatted.inodeBitmap.capacity := by
    rw [Layout.inode_capacity]
    decide
  have offset : Layout.default.formatted.inodeBitmap.dataSegmentOffset = 2 := by
    rw [Layout.inodeBitmap_eq]
    rfl
  have same : Layout.default.formatted.inodeBitmap.Used loneDisk.blocks i ↔
      Layout.default.formatted.inodeBitmap.Used (Layout.default.formatted.inodeBitmap.mark blankImage 0).blocks i :=
    Bitmap.used_congr fun b holds => Store.put_blocks_ne _ _ (by
      have below : b < 2 := (Layout.marks_between holds).2
      omega)
  rw [same, Bitmap.Used, Bitmap.bit_mark fits capacity, offset, Bitmap.InSegment, offset]
  constructor
  · rintro ⟨inside, set⟩
    by_cases first : i - 2 = 0
    · omega
    · rw [decide_eq_false first, Bool.false_or, blankImage_noBit _ _ (by omega)] at set
      cases set
  · rintro rfl
    exact ⟨⟨Nat.le_refl _, by omega⟩, rfl⟩

theorem loneDisk_state : DirState .default 2 loneDisk where
  state := by
    have device : Layout.default.areaEnd ≤ loneDisk.count := by decide
    refine ⟨device, by decide, fun j is => is ▸ lone_slotId, Layout.segment _ device, fun j is => ?_,
      fun j k is is' b _ _ => is.trans is'.symm⟩
    rw [is, loneDisk_inode]
    exact loneDirectory_empty.map
  dir := by
    constructor
    case type => exact congrArg DiskInode.type loneDisk_inode
    case aligned =>
      rw [loneDisk_entries, loneDisk_inode]
      rfl
    case names =>
      rw [loneDisk_entries]
      exact fun x none => absurd none List.not_mem_nil
    case distinct =>
      rw [loneDisk_entries]
      exact List.nodup_nil
  marked := (loneDisk_used 2).mpr rfl
  slots := by
    rw [loneDisk_entries]
    exact fun x none => absurd none List.not_mem_nil
  device := rfl

theorem default_inSegment (i : Nat) : Layout.default.formatted.inodeBitmap.InSegment i ↔ 2 ≤ i ∧ i < 32770 := by
  rw [Layout.inodeBitmap_eq]
  exact Iff.rfl

theorem loneDisk_head : (Layout.default.formatted.inodeBitmap.freeIds loneDisk.blocks).head? = some 3 := by
  refine Bitmap.head_freeIds ((default_inSegment 3).mpr (by decide)) (by rw [loneDisk_used]; decide) fun j inside low => ?_
  have := (default_inSegment j).mp inside
  exact (loneDisk_used j).mpr (by omega)

/-- A file `f` is created in the directory. -/
theorem loneDisk_file : ∃ s,
    (Inode.create Layout.default.formatted (Layout.default.slot 2) [102] emptyFile).run loneDisk =
      ((.kSuccess, some (Layout.default.slot 3)), s) ∧
    Created .default (· = 2) 2 [102] 3 emptyFile loneDisk s ∧
    (Layout.default.inode s.blocks 2).entries s.blocks = [([102], 3)] := by
  have proper : ProperName [102] := .of_all (by decide) (by decide) rfl
  have grown : growth loneDirectory 256 = 1 := growth_direct (by decide)
  obtain ⟨s, run, -, created⟩ := loneDisk_state.state.run_create_room rfl
    (loneDisk_state.searchable (by rw [loneDisk_entries]; decide))
    (by rw [loneDisk_entries]; exact fun x => List.not_mem_nil) proper emptyFile_empty
    (fun j is => is ▸ loneDisk_state.marked) loneDisk_head ⟨by decide, by decide⟩ (by
      rw [loneDisk_inode]
      exact loneDisk_free.trans' (Nat.le_of_eq grown))
  have entries := created.edited.entries
  rw [loneDisk_entries, List.nil_append] at entries
  exact ⟨s, run, created, entries⟩

/-- One more name in the first block of the directory. -/
theorem DirState.run_link_next {s : Disk} (ok : DirState .default 2 s) {name : Name} (proper : ProperName name)
    (some : 0 < ((Layout.default.inode s.blocks 2).entries s.blocks).length)
    (few : ((Layout.default.inode s.blocks 2).entries s.blocks).length < 16)
    (absent : ∀ x, (name, x) ∉ (Layout.default.inode s.blocks 2).entries s.blocks) (replace : Bool) :
    ∃ s', (Inode.link Layout.default.formatted (Layout.default.slot 2) name (Layout.default.slot 3) replace).run s =
        (.kSuccess, s') ∧
      (Layout.default.inode s'.blocks 2).entries s'.blocks =
        (Layout.default.inode s.blocks 2).entries s.blocks ++ [(name, 3)] := by
  have size := ok.dir.aligned
  obtain ⟨s', run, -, edited⟩ := ok.state.run_link_fresh rfl (ok.searchable (by omega)) proper
    (t := 3) ⟨by decide, by decide⟩ absent (by simp only [dataBlocks]; omega)
    (by rw [ok.dir.next_fits (by omega)]; exact Nat.zero_le _) replace
  exact ⟨s', run, edited.entries⟩

/-- The calls are `create` of `f`, `link` of the same inode as `g` and as `h`, and `unlink` of
`f`, whose place the last entry takes. -/
theorem directory_is_map_fourCalls : ∃ s, DirReach .default 2 loneDisk s ∧
    (Layout.default.inode s.blocks 2).entries s.blocks = [([104], 3), ([103], 3)] ∧
    Distinct ((Layout.default.inode s.blocks 2).entries s.blocks) ∧
    (∀ c : DirCall, c.Allowed .default 2 s →
      ((Layout.default.inode s.blocks 2).entries s.blocks).length ≤ 32768 →
      ∃ r s', (c.prog .default (Layout.default.slot 2)).run s = (r, s') ∧
        c.Effect .default (bindings .default 2 s) (bindings .default 2 s') r) ∧
    ∀ uid gid, ∃ names s', (listNames uid gid (Layout.default.slot 2)).run s = ((0, names), s') ∧ names.Nodup ∧
      ∀ name, name ∈ names ↔ ∃ x, bindings .default 2 s name = some x := by
  have off : Layout.default.totalBlocks ≤ (Layout.default.slot kFailId).blockId := by decide
  have none : ((Layout.default.inode loneDisk.blocks 2).entries loneDisk.blocks).length ≤ 32768 := by
    rw [loneDisk_entries]
    decide
  have three : Layout.default.SlotId 3 := ⟨by decide, by decide⟩
  have f : ProperName [102] := .of_all (by decide) (by decide) rfl
  have g : ProperName [103] := .of_all (by decide) (by decide) rfl
  have h : ProperName [104] := .of_all (by decide) (by decide) rfl
  -- create
  obtain ⟨s₁, create, -, entries₁⟩ := loneDisk_file
  have reach₁ : DirReach .default 2 loneDisk s₁ :=
    .step (c := .create [102] emptyFile) .start ⟨f, by rw [bindings, loneDisk_entries]; rfl, emptyFile_empty,
      fun n head => Option.some.inj (loneDisk_head.symm.trans head) ▸ three⟩ none create
  have ok₁ := (reach₁.inv off loneDisk_state none).1
  -- link
  obtain ⟨s₂, link, entries₂⟩ := ok₁.run_link_next g (by rw [entries₁]; decide) (by rw [entries₁]; decide)
    (by rw [entries₁]; simp) false
  rw [entries₁] at entries₂
  have reach₂ : DirReach .default 2 loneDisk s₂ :=
    .step (c := .link [103] 3 false) (r := (.kSuccess, Option.none)) reach₁ ⟨g, three⟩ (by rw [entries₁]; decide)
      (by simp only [DirCall.prog, DevProg.run_bind, link, DevProg.run_pure])
  have ok₂ := (reach₂.inv off loneDisk_state none).1
  -- link, asked to replace
  obtain ⟨s₃, link', entries₃⟩ := ok₂.run_link_next h (by rw [entries₂]; decide) (by rw [entries₂]; decide)
    (by rw [entries₂]; simp) true
  rw [entries₂] at entries₃
  have reach₃ : DirReach .default 2 loneDisk s₃ :=
    .step (c := .link [104] 3 true) (r := (.kSuccess, Option.none)) reach₂ ⟨h, three⟩ (by rw [entries₂]; decide)
      (by simp only [DirCall.prog, DevProg.run_bind, link', DevProg.run_pure])
  have ok₃ := (reach₃.inv off loneDisk_state none).1
  -- unlink
  obtain ⟨s₄, unlink, -, edited⟩ := ok₃.state.run_unlink_bound rfl (ok₃.searchable (by rw [entries₃]; decide))
    (by rw [entries₃]; decide) (fun x member => ok₃.slots _ member) f (e := 0) (x := 3) (by rw [entries₃]; rfl)
  have entries₄ := edited.entries
  rw [entries₃] at entries₄
  have reach₄ : DirReach .default 2 loneDisk s₄ :=
    .step (c := .unlink [102]) reach₃ ⟨f, trivial⟩ (by rw [entries₃]; decide) unlink
  exact ⟨s₄, reach₄, entries₄, directory_is_map loneDisk_state none reach₄⟩

end Sbfs
