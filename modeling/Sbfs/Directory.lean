import Sbfs.Isolation

/-! # The entries of a directory

A directory is a file of 256-byte entries: the name as a C string in 252 bytes, then
the inode id.  Its content is the list `entriesIn` of the bytes; `scan` finds the first
entry with a name in it (`run_scan`). -/

namespace Sbfs

open Slot

/-! ## Names -/

/-- The C string in the first `n` bytes. -/
def cString (f : Mem) : Nat → Name
  | 0 => []
  | n + 1 => if f 0 = 0 then [] else f 0 :: cString (fun p => f (p + 1)) n

/-- A name that an entry can hold. -/
structure ProperName (name : Name) : Prop where
  some : name ≠ []
  fits : name.length ≤ 251
  noZero : ∀ c ∈ name, c ≠ 0

theorem ProperName.of_all {name : Name} (some : name ≠ []) (fits : name.length ≤ 251)
    (noZero : name.all (fun c => c != 0) = true) : ProperName name :=
  ⟨some, fits, fun c member => bne_iff_ne.mp (List.all_eq_true.mp noZero c member)⟩

theorem cString_congr {f g : Mem} {n : Nat} (same : ∀ p, p < n → f p = g p) : cString f n = cString g n := by
  induction n generalizing f g with
  | zero => rfl
  | succ n ih =>
    rw [cString, cString, same 0 (by omega), ih fun p inside => same (p + 1) (by omega)]

theorem cString_eq_iff {f : Mem} {n : Nat} {name : Name} (fits : name.length < n)
    (noZero : ∀ c ∈ name, c ≠ 0) :
    cString f n = name ↔ (∀ p, p < name.length → f p = name.getD p 0) ∧ f name.length = 0 := by
  induction name generalizing f n with
  | nil =>
    obtain ⟨m, rfl⟩ := Nat.exists_eq_succ_of_ne_zero (show n ≠ 0 by simp at fits; omega)
    rw [cString]
    by_cases finish : f 0 = 0 <;> simp [finish]
  | cons c name ih =>
    obtain ⟨m, rfl⟩ := Nat.exists_eq_succ_of_ne_zero (show n ≠ 0 by omega)
    rw [List.length_cons] at fits
    have rest := ih (f := fun p => f (p + 1)) (n := m) (by omega)
      fun c' member => noZero c' (List.mem_cons_of_mem _ member)
    rw [cString]
    constructor
    · intro eq
      split at eq
      · cases eq
      · rw [List.cons.injEq, rest] at eq
        obtain ⟨head, tail, finish⟩ := eq
        refine ⟨fun p inside => ?_, finish⟩
        cases p with
        | zero => exact head
        | succ p => exact tail p (by rw [List.length_cons] at inside; omega)
    · rintro ⟨bytes, finish⟩
      have head : f 0 = c := bytes 0 (by simp)
      rw [if_neg (head ▸ noZero c List.mem_cons_self), head, List.cons.injEq, rest]
      exact ⟨rfl, fun p inside => bytes (p + 1) (by rw [List.length_cons]; omega), finish⟩

theorem strEq_iff {f : Mem} {name : Name} (proper : ProperName name) :
    strEq f name = true ↔ cString f 252 = name := by
  have fits := proper.fits
  rw [cString_eq_iff (by omega) proper.noZero, strEq]
  simp

/-! ## Entries -/

/-- Entry `e` of the bytes `f`: the name and the inode. -/
def entryAt (f : Mem) (e : Nat) : Name × Nat :=
  (cString (fun p => f (256 * e + p)) 252, le (fun p => f (256 * e + 252 + p)) 4)

/-- The first `n` entries of the bytes `f`. -/
def entriesIn (f : Mem) (n : Nat) : List (Name × Nat) := (List.range n).map (entryAt f)

/-- The entries of a directory. -/
def DiskInode.entries (d : DiskInode) (D : Nat → Block) : List (Name × Nat) :=
  entriesIn (d.byte D) (d.size.toNat / 256)

theorem entryAt_congr {f g : Mem} {e e' : Nat}
    (same : ∀ p, p < 256 → f (256 * e + p) = g (256 * e' + p)) : entryAt f e = entryAt g e' := by
  have id : (fun p => f (256 * e + 252 + p)) = fun p => f (256 * e + (252 + p)) := by
    funext p
    rw [Nat.add_assoc]
  have id' : (fun p => g (256 * e' + 252 + p)) = fun p => g (256 * e' + (252 + p)) := by
    funext p
    rw [Nat.add_assoc]
  rw [entryAt, entryAt, cString_congr fun p inside => same p (by omega), id, id',
    le_congr fun p inside => same (252 + p) (by omega)]

/-- What the constructor of `DirEntry` stores is read back. -/
theorem entryAt_dirEntry {f : Mem} {e inode : Nat} {name : Name} (fits : name.length ≤ 251)
    (noZero : ∀ c ∈ name, c ≠ 0) (small : inode < 4294967296)
    (bytes : ∀ p, p < 256 → f (256 * e + p) = dirEntry name inode p) : entryAt f e = (name, inode) := by
  have first : cString (fun p => f (256 * e + p)) 252 = name := by
    refine (cString_eq_iff (by omega) noZero).mpr ⟨fun p inside => ?_, ?_⟩
    · rw [bytes p (by omega), dirEntry, if_pos (by omega), if_pos (by simp only [kMaxDirNameLength]; omega)]
    · rw [bytes _ (by omega), dirEntry, if_pos (by omega)]
      simp
  have second : le (fun p => f (256 * e + 252 + p)) 4 = inode := by
    have word : ∀ p, p < 4 → f (256 * e + 252 + p) = leByte inode p := by
      intro p inside
      rw [Nat.add_assoc, bytes _ (by omega), dirEntry, if_neg (by omega), Nat.add_sub_cancel_left]
    rw [le_congr word, le_leByte, Nat.mod_eq_of_lt (show inode < 256 ^ 4 from small)]
  rw [entryAt, first, second]

theorem length_entriesIn (f : Mem) (n : Nat) : (entriesIn f n).length = n := by
  rw [entriesIn, List.length_map, List.length_range]

theorem getElem?_entriesIn (f : Mem) {n e : Nat} (inside : e < n) :
    (entriesIn f n)[e]? = some (entryAt f e) := by
  rw [entriesIn, List.getElem?_map, List.getElem?_range inside]
  rfl

theorem entriesIn_congr {f g : Mem} {n : Nat} (same : ∀ p, p < 256 * n → f p = g p) :
    entriesIn f n = entriesIn g n :=
  List.map_congr_left fun e member => entryAt_congr fun p inside =>
    same _ (by have := List.mem_range.mp member; omega)

theorem getElem?_entriesIn_eq_some {f : Mem} {n e : Nat} {x : Name × Nat} :
    (entriesIn f n)[e]? = some x ↔ e < n ∧ entryAt f e = x := by
  by_cases inside : e < n
  · rw [getElem?_entriesIn f inside, Option.some.injEq, and_iff_right inside]
  · rw [List.getElem?_eq_none (by rw [length_entriesIn]; omega)]
    simp [inside]

theorem mem_entriesIn {f : Mem} {n : Nat} {x : Name × Nat} :
    x ∈ entriesIn f n ↔ ∃ e, e < n ∧ entryAt f e = x := by
  rw [List.mem_iff_getElem?]
  exact exists_congr fun _ => getElem?_entriesIn_eq_some

/-! ## The search

`scan` reads one block after the other into the same buffer.  Behind the last entry of the
file the buffer still has entries of the block before, which did not match either, and the
rounds behind the last block read nothing. -/

/-- No entry of the buffer has the name. -/
def NoMatch (dirBlk : Mem) (name : Name) : Prop :=
  ∀ j, j < 16 → cString (fun p => dirBlk (256 * j + p)) 252 ≠ name

/-- What `scan` may answer. -/
inductive Scan.Answers (es : List (Name × Nat)) (name : Name) : Scan → Prop
  | found {i j inode : Nat} (inside : j < 16) (here : es[16 * i + j]? = some (name, inode)) :
      Answers es name (.found i j inode)
  | absent (none : ∀ v, (name, v) ∉ es) : Answers es name .absent
  | failed (none : ∀ v, (name, v) ∉ es) : Answers es name .failed

section

variable {bm : Bitmap} {d d' : DiskInode} {s : Disk} {name : Name} {i n m : Nat}

theorem noMatch_zero (proper : ProperName name) : NoMatch (fun _ => 0) name :=
  fun _ _ same => proper.some same.symm

theorem findEntry_some (proper : ProperName name) {dirBlk : Mem} {j : Nat}
    (found : findEntry dirBlk name = some j) :
    j < 16 ∧ cString (fun p => dirBlk (256 * j + p)) 252 = name :=
  ⟨List.mem_range.mp (List.mem_of_find?_eq_some found),
    (strEq_iff proper).mp (List.find?_some (p := fun j => strEq (fun p => dirBlk (256 * j + p)) name) found)⟩

theorem findEntry_none (proper : ProperName name) {dirBlk : Mem} (absent : findEntry dirBlk name = none) :
    NoMatch dirBlk name := by
  intro j inside same
  have other := List.find?_eq_none.mp absent j (List.mem_range.mpr inside)
  exact other ((strEq_iff proper).mpr same)

theorem findEntry_clean (proper : ProperName name) {dirBlk : Mem} (clean : NoMatch dirBlk name) :
    findEntry dirBlk name = none := by
  cases hit : findEntry dirBlk name with
  | none => rfl
  | some j =>
    obtain ⟨inside, same⟩ := findEntry_some proper hit
    exact absurd same (clean j inside)

theorem Retimed.byte (retimed : Retimed d d') (D : Nat → Block) : d'.byte D = d.byte D := by
  have pointers : d'.slotId D = d.slotId D :=
    slotId_pointers (by rw [retimed]) (by rw [retimed]) (by rw [retimed]) _
  funext i
  rw [DiskInode.byte, DiskInode.byte, byteAt, byteAt, DiskInode.ids, DiskInode.ids, pointers]

theorem Retimed.size (retimed : Retimed d d') : d'.size = d.size := by rw [retimed]

theorem Retimed.entries (retimed : Retimed d d') (D : Nat → Block) : d'.entries D = d.entries D := by
  rw [DiskInode.entries, DiskInode.entries, retimed.byte, retimed.size]

/-- What a round leaves in the buffer: the entries of block `i`, and behind the last entry
of the file what was there before. -/
structure Scanned (f : Mem) (m i : Nat) (buf got : Mem) : Prop where
  block : ∀ j, j < 16 → 16 * i + j < m → entryAt got j = entryAt f (16 * i + j)
  stale : ∀ j, j < 16 → m ≤ 16 * i + j →
    cString (fun p => got (256 * j + p)) 252 = cString (fun p => buf (256 * j + p)) 252

theorem scanned_splice (f buf : Mem) :
    Scanned f m i buf (splice buf 0 (min 4096 (256 * m - 4096 * i)) fun p => f (4096 * i + p)) := by
  constructor
  case block =>
    intro j inside inFile
    refine entryAt_congr fun p low => ?_
    rw [splice_inside (by omega) (by omega)]
    congr 1
    omega
  case stale =>
    intro j inside behind
    refine cString_congr fun p low => ?_
    rw [splice_outside (by omega)]

/-- A round over a block of the directory. -/
theorem run_scanRound_inside (map : WellMapped bm d s.blocks) (segment : bm.Segment s.count)
    (failId : s.count ≤ kFailId) (aligned : d.size.toNat = 256 * m) (inside : 4096 * i < d.size.toNat)
    (low : i < 524288) (buf : Mem) :
    ∃ ret got d' s', (d.readData (i * 4096 % 4294967296) 4096 buf).run s = ((ret, got, d'), s') ∧
      Retimed d d' ∧ Touches (fun _ => False) s s' ∧ Scanned (d.byte s.blocks) m i buf got ∧ ret ≠ -1 := by
  rw [show i * 4096 % 4294967296 = 4096 * i by omega]
  have bound := dataBlocks_le d.size.toNat_lt
  have located := located_of_map map segment fun k owns => by
    simp only [DiskInode.Owns, Valid] at owns
    omega
  have fits : FitsInt (4096 * i) (min 4096 (d.size.toNat - 4096 * i)) := by
    rw [FitsInt]
    omega
  obtain ⟨d', s', run, retimed, quiet⟩ := run_diskReadData buf located (show 0 < 4096 by omega) inside
    fits failId (by omega) fun k upper => by
      simp only [DiskInode.Owns, Valid, dataBlocks]
      omega
  refine ⟨_, _, d', s', run, retimed, quiet, ?_, by omega⟩
  rw [aligned]
  exact scanned_splice _ _

theorem run_scanRound (map : WellMapped bm d s.blocks) (segment : bm.Segment s.count)
    (failId : s.count ≤ kFailId) (aligned : d.size.toNat = 256 * m) (small : d.size.toNat < 2147483648)
    (range : i < 1048575) (buf : Mem) :
    ∃ ret got d' s', (d.readData (i * 4096 % 4294967296) 4096 buf).run s = ((ret, got, d'), s') ∧
      Retimed d d' ∧ Touches (fun _ => False) s s' ∧ Scanned (d.byte s.blocks) m i buf got := by
  by_cases inside : 4096 * i < d.size.toNat
  · obtain ⟨ret, got, d', s', run, retimed, quiet, scanned, -⟩ :=
      run_scanRound_inside map segment failId aligned inside (by omega) buf
    exact ⟨ret, got, d', s', run, retimed, quiet, scanned⟩
  · -- a round behind the last block: nothing is copied
    obtain ⟨ret, d', s', run, -, retimed, quiet⟩ := run_diskReadData_nothing (d := d) buf (show 0 < 4096 by omega)
      (show 4096 * i < 4294967296 by omega) failId (by omega)
    refine ⟨ret, buf, d', s', ?_, retimed, quiet, fun j _ inFile => ?_, fun _ _ _ => rfl⟩
    · rw [show i * 4096 % 4294967296 = 4096 * i by omega]
      exact run
    · omega

/-- A round past the end of the directory, or from `2 ^ 31` on, fails. -/
theorem run_scanRound_past (failId : s.count ≤ kFailId) (past : d.size.toNat < 4096 * i ∨ 524288 ≤ i)
    (range : i < 1048576) (buf : Mem) :
    ∃ got d' s', (d.readData (i * 4096 % 4294967296) 4096 buf).run s = ((-1, got, d'), s') ∧
      Retimed d d' ∧ Touches (fun _ => False) s s' := by
  rw [show i * 4096 % 4294967296 = 4096 * i by omega]
  obtain ⟨d₁, s₁, run₁, retimed, quiet⟩ := run_updateMeta d 1 s
  have size₁ : d₁.size = d.size := by rw [retimed]
  refine ⟨buf, d₁, s₁, ?_, retimed, quiet⟩
  have empty : ¬ (4096 : Nat) = 0 := by decide
  by_cases early : d₁.size.toNat < 4096 * i
  · simp only [DiskInode.readData, DevProg.run_bind, run₁, empty, early, if_true, if_false, DevProg.run_pure]
  · have high : 2147483648 ≤ 4096 * i := by
      rw [size₁] at early
      omega
    simp only [DiskInode.readData, DevProg.run_bind, run₁, empty, early, if_false,
      run_readRange_past buf high (by omega) (quiet.count ▸ failId), DevProg.run_pure]

/-- A round that starts where the directory ends copies nothing, but looks a block up in
`indirect1`. -/
theorem run_scanRound_end (map : WellMapped bm d s.blocks) (segment : bm.Segment s.count)
    (atEnd : d.size.toNat = 4096 * i) (lower : 23 ≤ i) (upper : i < 1047) (buf : Mem) :
    ∃ d' s', (d.readData (i * 4096 % 4294967296) 4096 buf).run s =
        ((if entry (s.blocks d.indirect1.toNat) (i - 23) < s.count then 0 else -1, buf, d'), s') ∧
      Retimed d d' ∧ Touches (fun _ => False) s s' := by
  rw [show i * 4096 % 4294967296 = 4096 * i by omega]
  have onDevice : d.indirect1.toNat < s.count := by
    by_cases first : i = 23
    · have zero : d.indirect1 = 0 := map.no1 (by simp only [DiskInode.Owns, Valid, dataBlocks]; omega)
      have := segment.onDevice
      have := segment.high
      rw [zero, UInt32.toNat_zero]
      omega
    · exact (segment.bound (map.used ind1 (by simp only [DiskInode.Owns, Valid, dataBlocks]; omega)).1).2.1
  obtain ⟨d₁, s₁, run₁, retimed, quiet⟩ := run_updateMeta d 1 s
  have size₁ : d₁.size = d.size := by rw [retimed]
  have one : d₁.indirect1 = d.indirect1 := by rw [retimed]
  have empty : ¬ (4096 : Nat) = 0 := by decide
  have early : ¬ d₁.size.toNat < 4096 * i := by
    rw [size₁]
    omega
  have cut : d₁.cutLen (4096 * i) 4096 = 0 := by
    rw [DiskInode.cutLen, size₁, Nat.mod_eq_of_lt (by omega), if_pos (by omega)]
    omega
  have lookup : (d₁.blockId i).run s₁ = (entry (s.blocks d.indirect1.toNat) (i - 23), s₁) := by
    rw [DiskInode.blockId, if_neg (by omega), if_neg (by omega), if_pos (by omega), one]
    simp only [DevProg.run_bind, DevProg.run_readBlk_of_lt (quiet.count ▸ onDevice), DevProg.run_pure, quiet.quiet]
  have none : DiskInode.copyLen (DiskInode.blockRem (int32 (4096 * i))) (DiskInode.blockRem (int32 (4096 * i))) = 0 := by
    rw [DiskInode.copyLen, Int.sub_self]
    rfl
  have position : uint32 (DiskInode.blockQuot (int32 (4096 * i))) = i := by
    rw [int32_of_lt (by omega), blockQuot_natCast (by omega), Nat.mul_div_cancel_left i (by decide),
      uint32_natCast (by omega)]
  refine ⟨d₁, s₁, ?_, retimed, quiet⟩
  by_cases readable : entry (s.blocks d.indirect1.toNat) (i - 23) < s.count
  · rw [if_pos readable]
    simp only [DiskInode.readData, DevProg.run_bind, run₁, empty, early, if_false, cut, Nat.add_zero,
      DiskInode.readRange, position, lookup, DevProg.run_readBlk_of_lt (quiet.count ▸ readable), if_true, none,
      splice_zero, DevProg.run_pure]
    rfl
  · rw [if_neg readable]
    simp only [DiskInode.readData, DevProg.run_bind, run₁, empty, early, if_false, cut, Nat.add_zero,
      DiskInode.readRange, position, lookup,
      DevProg.run_readBlk_of_ge (quiet.count ▸ Nat.le_of_not_lt readable), DevProg.run_pure]

theorem DiskInode.entries_of_size {D : Nat → Block} (aligned : d.size.toNat = 256 * m) :
    d.entries D = entriesIn (d.byte D) m := by
  rw [DiskInode.entries, aligned, Nat.mul_div_cancel_left _ (by decide)]

/-- Once every entry has been compared, the name is not there. -/
theorem absent_of_compared {D : Nat → Block} (aligned : d.size.toNat = 256 * m) (past : 256 * m ≤ 4096 * i)
    (before : ∀ e, e < 16 * i → e < m → (entryAt (d.byte D) e).1 ≠ name) :
    ∀ v, (name, v) ∉ d.entries D := by
  intro v member
  rw [DiskInode.entries_of_size aligned, mem_entriesIn] at member
  obtain ⟨e, inside, eq⟩ := member
  exact before e (by omega) inside (congrArg Prod.fst eq)

/-- How many rounds the search has: one for each block, data or index. -/
theorem totalBlocks_cases (size : Nat) :
    dataBlocks size ≤ DiskInode.totalBlocks size ∧
      (dataBlocks size < 23 → DiskInode.totalBlocks size = dataBlocks size) ∧
      (23 ≤ dataBlocks size → dataBlocks size < 1047 → DiskInode.totalBlocks size = dataBlocks size + 1) ∧
      (1047 ≤ dataBlocks size → dataBlocks size + 2 ≤ DiskInode.totalBlocks size) := by
  simp only [DiskInode.totalBlocks]
  generalize dataBlocks size = n
  split
  · omega
  · split <;> omega

/-- The search goes through all its rounds: the rounds behind the last block of the directory,
as many as there are index blocks, do not fail. -/
def DiskInode.ScanEnds (d : DiskInode) (s : Disk) : Prop :=
  dataBlocks d.size.toNat < 23 ∨
    dataBlocks d.size.toNat < 1047 ∧ d.size.toNat = 4096 * dataBlocks d.size.toNat ∧
      entry (s.blocks d.indirect1.toNat) (dataBlocks d.size.toNat - 23) < s.count

/-- What `scan` answers, in a directory of any size; `ends` says whether it gets to the end. -/
inductive Scan.Exactly (es : List (Name × Nat)) (ends : Prop) (name : Name) : Scan → Prop
  | found {i j inode : Nat} (inside : j < 16) (low : i < 524288) (here : es[16 * i + j]? = some (name, inode)) :
      Exactly es ends name (.found i j inode)
  | absent (none : ∀ v, (name, v) ∉ es) (ended : ends) : Exactly es ends name .absent
  | failed (far : ∀ e v, es[e]? = some (name, v) → 8388608 ≤ e) (stuck : ¬ ends) :
      Exactly es ends name .failed

/-- The rounds over `k` blocks of the directory. -/
theorem run_scanBlocks {dirBlk : Mem} {k : Nat} (proper : ProperName name) (map : WellMapped bm d s.blocks)
    (segment : bm.Segment s.count) (failId : s.count ≤ kFailId) (aligned : d.size.toNat = 256 * m)
    (inside : i + k ≤ dataBlocks d.size.toNat) (low : i + k ≤ 524288) (clean : NoMatch dirBlk name)
    (before : ∀ e, e < 16 * i → e < m → (entryAt (d.byte s.blocks) e).1 ≠ name) (n : Nat) :
    (∃ i' j x d' s', (scanFrom name (k + n) i dirBlk d).run s = ((.found i' j x, d'), s') ∧ Retimed d d' ∧
      Touches (fun _ => False) s s' ∧ j < 16 ∧ i' < 524288 ∧
      (d.entries s.blocks)[16 * i' + j]? = some (name, x)) ∨
    ∃ got d' s', (scanFrom name (k + n) i dirBlk d).run s = (scanFrom name n (i + k) got d').run s' ∧
      Retimed d d' ∧ Touches (fun _ => False) s s' ∧ NoMatch got name ∧
      ∀ e, e < 16 * (i + k) → e < m → (entryAt (d.byte s.blocks) e).1 ≠ name := by
  induction k generalizing i d s dirBlk with
  | zero => exact .inr ⟨dirBlk, d, s, by rw [Nat.zero_add, Nat.add_zero], .refl d, .refl _ _, clean, before⟩
  | succ k ih =>
    have block : 4096 * i < d.size.toNat := by
      simp only [dataBlocks] at inside
      omega
    obtain ⟨ret, got, d₁, s₁, run, retimed, quiet, scanned, read⟩ :=
      run_scanRound_inside map segment failId aligned block (by omega) dirBlk
    rw [show k + 1 + n = k + n + 1 by omega, show i + (k + 1) = i + 1 + k by omega]
    cases hit : findEntry got name with
    | some j =>
      -- found in this block; what stands behind the file in the buffer is from the block before, without a match
      obtain ⟨inBlock, same⟩ := findEntry_some proper hit
      refine .inl ⟨i, j, (entryAt got j).2, d₁, s₁, ?_, retimed, quiet, inBlock, by omega, ?_⟩
      · simp only [scanFrom, DevProg.run_bind, run, read, if_false, hit, DevProg.run_pure]
        rfl
      · by_cases inFile : 16 * i + j < m
        · rw [DiskInode.entries_of_size aligned, getElem?_entriesIn_eq_some, ← scanned.block j inBlock inFile]
          exact ⟨inFile, Prod.ext same rfl⟩
        · exact absurd ((scanned.stale j inBlock (by omega)).symm.trans same) (clean j inBlock)
    | none =>
      -- not in this block: the next one, with this one in the buffer
      have clean' := findEntry_none proper hit
      have size := retimed.size
      have bytes : d₁.byte s₁.blocks = d.byte s.blocks := by rw [quiet.quiet, retimed.byte]
      have entries' : d₁.entries s₁.blocks = d.entries s.blocks := by rw [quiet.quiet, retimed.entries]
      have before' : ∀ e, e < 16 * (i + 1) → e < m → (entryAt (d₁.byte s₁.blocks) e).1 ≠ name := by
        intro e upper inFile same
        rw [bytes] at same
        by_cases old : e < 16 * i
        · exact before e old inFile same
        · refine clean' (e - 16 * i) (by omega) ?_
          have here := scanned.block (e - 16 * i) (by omega) (by omega)
          rw [show 16 * i + (e - 16 * i) = e by omega] at here
          exact (congrArg Prod.fst here).trans same
      have step : (scanFrom name (k + n + 1) i dirBlk d).run s = (scanFrom name (k + n) (i + 1) got d₁).run s₁ := by
        simp only [scanFrom, DevProg.run_bind, run, read, if_false, hit]
      have rest := ih (i := i + 1) (Evolved.retimed (W := fun _ => False) map retimed quiet).1.map
        (quiet.count ▸ segment) (quiet.count ▸ failId) (size ▸ aligned) (by rw [size]; omega) (by omega) clean' before'
      rw [entries', bytes] at rest
      rw [step]
      cases rest with
      | inl found =>
        obtain ⟨i', j, x, d', s', run', retimed', quiet', result⟩ := found
        exact .inl ⟨i', j, x, d', s', run', retimed.trans retimed', quiet.trans quiet', result⟩
      | inr passed =>
        obtain ⟨got', d', s', run', retimed', quiet', result⟩ := passed
        exact .inr ⟨got', d', s', run', retimed.trans retimed', quiet.trans quiet', result⟩

/-- The rounds behind the last block that the search can read. -/
theorem run_scanTail {dirBlk : Mem} {k : Nat} (proper : ProperName name) (map : WellMapped bm d s.blocks)
    (segment : bm.Segment s.count) (failId : s.count ≤ kFailId)
    (start : k = min (dataBlocks d.size.toNat) 524288) (total : k + n = DiskInode.totalBlocks d.size.toNat)
    (clean : NoMatch dirBlk name) :
    ∃ r d' s', (scanFrom name n k dirBlk d).run s = ((r, d'), s') ∧ Retimed d d' ∧ Touches (fun _ => False) s s' ∧
      (r = .absent ∧ d.ScanEnds s ∨ r = .failed ∧ ¬ d.ScanEnds s) := by
  have bound := dataBlocks_le d.size.toNat_lt
  have rounds := totalBlocks_cases d.size.toNat
  have size : d.size.toNat ≤ 4096 * dataBlocks d.size.toNat := by
    simp only [dataBlocks]
    omega
  by_cases few : dataBlocks d.size.toNat < 23
  · obtain rfl : n = 0 := by omega
    exact ⟨.absent, d, s, rfl, .refl d, .refl _ _, .inl ⟨rfl, .inl few⟩⟩
  obtain ⟨n, rfl⟩ := Nat.exists_eq_succ_of_ne_zero (show n ≠ 0 by omega)
  by_cases past : d.size.toNat < 4096 * k ∨ 524288 ≤ k
  · -- the round starts past the end of the file or of the `int` offsets, and its read fails
    obtain ⟨got, d', s', run, retimed, quiet⟩ := run_scanRound_past failId past (by omega) dirBlk
    refine ⟨.failed, d', s', ?_, retimed, quiet, .inr ⟨rfl, fun ends => ?_⟩⟩
    · simp only [scanFrom, DevProg.run_bind, run, if_true, DevProg.run_pure]
    · cases ends with
      | inl low => exact few low
      | inr ends => omega
  have atEnd : d.size.toNat = 4096 * k := by omega
  have none := findEntry_clean proper clean
  by_cases one : dataBlocks d.size.toNat < 1047
  · obtain rfl : n = 0 := by omega
    obtain ⟨d', s', run, retimed, quiet⟩ := run_scanRound_end map segment atEnd (by omega) (by omega) dirBlk
    -- one round: it reads no byte, but looks up the block id, which is an entry never set
    by_cases readable : entry (s.blocks d.indirect1.toNat) (k - 23) < s.count
    · rw [if_pos readable] at run
      refine ⟨.absent, d', s', ?_, retimed, quiet, .inl ⟨rfl, .inr ⟨one, by omega, ?_⟩⟩⟩
      · simp only [scanFrom, DevProg.run_bind, run, show ¬ (0 : Int) = -1 by decide, if_false, none,
          DevProg.run_pure]
      · rw [show dataBlocks d.size.toNat = k by omega]
        exact readable
    · rw [if_neg readable] at run
      refine ⟨.failed, d', s', ?_, retimed, quiet, .inr ⟨rfl, fun ends => ?_⟩⟩
      · simp only [scanFrom, DevProg.run_bind, run, if_true, DevProg.run_pure]
      · cases ends with
        | inl low => exact few low
        | inr ends =>
          rw [show dataBlocks d.size.toNat = k by omega] at ends
          exact readable ends.2.2
  · -- there are two rounds or more, and the second one starts past the end
    have stuck : ¬ d.ScanEnds s := by
      rintro (low | ends)
      · exact few low
      · exact one ends.1
    obtain ⟨n, rfl⟩ := Nat.exists_eq_succ_of_ne_zero (show n ≠ 0 by omega)
    obtain ⟨ret, d₁, s₁, run, -, retimed, quiet⟩ := run_diskReadData_nothing (d := d) dirBlk
      (show 0 < 4096 by omega) (show 4096 * k < 4294967296 by omega) failId (by omega)
    rw [show 4096 * k = k * 4096 % 4294967296 by omega] at run
    by_cases failed : ret = -1
    · refine ⟨.failed, d₁, s₁, ?_, retimed, quiet, .inr ⟨rfl, stuck⟩⟩
      simp only [scanFrom, DevProg.run_bind, run, failed, if_true, DevProg.run_pure]
    · obtain ⟨got, d', s', run', retimed', quiet'⟩ := run_scanRound_past (d := d₁) (s := s₁) (i := k + 1)
        (quiet.count ▸ failId) (.inl (by rw [retimed.size]; omega)) (by omega) dirBlk
      refine ⟨.failed, d', s', ?_, retimed.trans retimed', quiet.trans quiet', .inr ⟨rfl, stuck⟩⟩
      simp only [scanFrom, DevProg.run_bind, run, failed, if_false, none, run', if_true, DevProg.run_pure]

/-- The search answers correctly, unless the name is behind `2 ^ 31` or the search does not get
to the end. -/
theorem run_scan_exactly (proper : ProperName name) (map : WellMapped bm d s.blocks) (segment : bm.Segment s.count)
    (failId : s.count ≤ kFailId) (aligned : d.size.toNat = 256 * m) :
    ∃ r d' s', (scan d name).run s = ((r, d'), s') ∧ Retimed d d' ∧ Touches (fun _ => False) s s' ∧
      r.Exactly (d.entries s.blocks) (d.ScanEnds s) name := by
  have rounds := totalBlocks_cases d.size.toNat
  have bound := dataBlocks_le d.size.toNat_lt
  obtain ⟨n, total⟩ := Nat.exists_eq_add_of_le
    (show min (dataBlocks d.size.toNat) 524288 ≤ DiskInode.totalBlocks d.size.toNat by omega)
  have blocks := run_scanBlocks (i := 0) (k := min (dataBlocks d.size.toNat) 524288) proper map segment failId
    aligned (by omega) (by omega) (noMatch_zero proper) (fun e none => by omega) n
  rw [Nat.zero_add, ← total] at blocks
  cases blocks with
  | inl found =>
    obtain ⟨i, j, x, d', s', run, retimed, quiet, inside, low, here⟩ := found
    exact ⟨_, d', s', run, retimed, quiet, .found inside low here⟩
  | inr passed =>
    obtain ⟨got, d₁, s₁, run, retimed, quiet, clean, before⟩ := passed
    have size := retimed.size
    have one : d₁.indirect1 = d.indirect1 := by rw [retimed]
    have ends : d₁.ScanEnds s₁ ↔ d.ScanEnds s := by
      rw [DiskInode.ScanEnds, DiskInode.ScanEnds, size, one, quiet.quiet, quiet.count]
    obtain ⟨r, d', s', run', retimed', quiet', outcome⟩ := run_scanTail proper
      (Evolved.retimed (W := fun _ => False) map retimed quiet).1.map (quiet.count ▸ segment)
      (quiet.count ▸ failId) (by rw [size]) (n := n) (by rw [size]; exact total.symm) clean
    refine ⟨r, d', s', run.trans run', retimed.trans retimed', quiet.trans quiet', ?_⟩
    rw [ends] at outcome
    cases outcome with
    | inl ended =>
      obtain ⟨rfl, ended⟩ := ended
      refine .absent (absent_of_compared (i := min (dataBlocks d.size.toNat) 524288) aligned ?_ before) ended
      have few : dataBlocks d.size.toNat < 1047 := by
        cases ended with
        | inl low => omega
        | inr ended => exact ended.1
      rw [← aligned]
      simp only [dataBlocks] at few ⊢
      omega
    | inr stuck =>
      obtain ⟨rfl, stuck⟩ := stuck
      refine .failed (fun e v here => ?_) stuck
      rw [DiskInode.entries_of_size aligned, getElem?_entriesIn_eq_some] at here
      obtain ⟨inside, same⟩ := here
      by_contra near
      refine before e ?_ inside (congrArg Prod.fst same)
      simp only [dataBlocks]
      omega

/-- The search answers correctly; it can fail only where the directory has 23 blocks or more,
because it counts the index blocks too. -/
theorem run_scan (proper : ProperName name) (map : WellMapped bm d s.blocks) (segment : bm.Segment s.count)
    (failId : s.count ≤ kFailId) (aligned : d.size.toNat = 256 * m) (small : d.size.toNat < 2147483648) :
    ∃ r d' s', (scan d name).run s = ((r, d'), s') ∧ Retimed d d' ∧ Touches (fun _ => False) s s' ∧
      r.Answers (d.entries s.blocks) name ∧ (dataBlocks d.size.toNat < 23 → r ≠ .failed) := by
  obtain ⟨r, d', s', run, retimed, quiet, exactly⟩ := run_scan_exactly proper map segment failId aligned
  refine ⟨r, d', s', run, retimed, quiet, ?_⟩
  cases exactly with
  | found inside _ here => exact ⟨.found inside here, fun _ h => by cases h⟩
  | absent none => exact ⟨.absent none, fun _ h => by cases h⟩
  | failed far stuck =>
    refine ⟨.failed fun v member => ?_, fun few _ => stuck (.inl few)⟩
    obtain ⟨e, here⟩ := List.getElem?_of_mem member
    have inside := (List.getElem?_eq_some_iff.mp here).1
    have behind := far e v here
    rw [DiskInode.entries_of_size aligned, length_entriesIn] at inside
    omega

end

end Sbfs
