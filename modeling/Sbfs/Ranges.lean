import Sbfs.Isolation

/-! # The blocks of a range

`read_data` and `write_data` take a range apart into one piece for each block.  `pieces` is
the list of these pieces with the arithmetic of the code, and `readRange_eq` and
`writeRange_eq` say that the two functions are loops over it, whatever the range is.  If the
range fits an `int`, the pieces are what one expects (`pieces_inner`, `pieces_len`), and
otherwise they are not (`fits_of_visits`). -/

namespace Sbfs

/-- The part of a range in one block: the inner id that is looked up, where the copy starts in
the block and how long it is. -/
structure Piece where
  inner : Nat
  start : Nat
  len : Nat

namespace DiskInode

/-- `n` whole blocks from inner block `i` on. -/
def wholeBlocks (i : Int) (n : Nat) : List Piece :=
  (List.range n).map fun (j : Nat) => ⟨uint32 (i + j), 0, 4096⟩

/-- The pieces of `[l, r)`. -/
def pieces (l r : Int) : List Piece :=
  let lid := blockQuot l
  let rid := blockQuot r
  let loff := blockRem l
  let roff := blockRem r
  if lid = rid then [⟨uint32 lid, loff, copyLen roff loff⟩]
  else
    ⟨uint32 lid, loff, 4096 - loff⟩ :: wholeBlocks (lid + 1) (rid - (lid + 1)).toNat ++
      if 0 < roff then [⟨uint32 rid, 0, roff⟩] else []

/-- Read the pieces into the buffer from `bufoffset` on. -/
def readPieces (d : DiskInode) : List Piece → Nat → Mem → Prog (Bool × Mem)
  | [], _, buf => return (true, buf)
  | p :: ps, bufoffset, buf => do
    let blk ← d.blockId p.inner
    match ← DevProg.readBlk blk with
    | none => return (false, buf)
    | some data =>
      readPieces d ps (bufoffset + p.len) (splice buf bufoffset p.len fun i => data.get (p.start + i))

section

variable {d : DiskInode} {l r : Int} {n off : Nat} {buf : Mem} {ps : List Piece}

theorem wholeBlocks_succ (i : Int) (n : Nat) :
    wholeBlocks i (n + 1) = ⟨uint32 i, 0, 4096⟩ :: wholeBlocks (i + 1) n := by
  rw [wholeBlocks, List.range_succ_eq_map, List.map_cons, List.map_map]
  congr 2
  · simp
  · funext j
    simp only [Function.comp_apply, Nat.cast_succ]
    congr 2
    omega

/-- The loop over whole blocks, followed by more pieces. -/
theorem readPieces_whole (i : Int) : d.readPieces (wholeBlocks i n ++ ps) off buf = (do
    match ← d.readBlocks n i off buf with
    | (false, buf) => return (false, buf)
    | (true, buf) => d.readPieces ps (off + 4096 * n) buf) := by
  induction n generalizing i off buf with
  | zero => rfl
  | succ n ih =>
    rw [wholeBlocks_succ, List.cons_append, readPieces, readBlocks, bind_assoc]
    apply bind_congr
    intro blk
    rw [bind_assoc]
    apply bind_congr
    intro got
    cases got with
    | none => rfl
    | some data =>
      simp only [ih, Nat.zero_add]
      rw [show off + 4096 + 4096 * n = off + 4096 * (n + 1) by omega]

/-- `read_data` is a loop over the pieces. -/
theorem readRange_eq (d : DiskInode) (l r : Int) (buf : Mem) :
    d.readRange l r buf = d.readPieces (pieces l r) 0 buf := by
  rw [readRange, pieces]
  by_cases one : blockQuot l = blockQuot r
  · simp only [one, if_true]
    rfl
  · simp only [one, if_false, List.cons_append, readPieces]
    apply bind_congr
    intro lblk
    apply bind_congr
    intro got
    cases got with
    | none => rfl
    | some data =>
      simp only [readPieces_whole, Nat.zero_add]
      apply bind_congr
      intro outcome
      obtain ⟨ok, buf⟩ := outcome
      cases ok with
      | false => rfl
      | true =>
        by_cases rest : 0 < blockRem r
        · simp only [rest, if_true]
          rw [readPieces]
          apply bind_congr
          intro rblk
          apply bind_congr
          intro got
          cases got with
          | none => rfl
          | some last => simp only [readPieces, Nat.zero_add]
        · simp only [rest, if_false, readPieces]

end

/-! ## Which blocks are visited -/

/-- The pieces that `read_data` and `write_data` go through. -/
def visits (d : DiskInode) (offset len : Nat) : List Piece :=
  pieces (int32 offset) (int32 (offset + d.cutLen offset len))

/-- Exactly the inner blocks of the `n` bytes at `offset` are visited, in order, and each copy
has between 1 and 4096 bytes. -/
structure VisitsExactly (d : DiskInode) (offset len n : Nat) : Prop where
  inner : (d.visits offset len).map Piece.inner =
    List.range' (offset / 4096) ((offset + n - 1) / 4096 + 1 - offset / 4096)
  lengths : ∀ p ∈ d.visits offset len, 1 ≤ p.len ∧ p.len ≤ 4096

section

variable {d : DiskInode} {offset len n k : Nat}

theorem inner_wholeBlocks (small : k + n ≤ 4294967296) :
    (wholeBlocks (k : Int) n).map Piece.inner = List.range' k n := by
  rw [wholeBlocks, List.map_map, List.range'_eq_map_range]
  apply List.map_congr_left
  intro j member
  have bound := List.mem_range.mp member
  simp only [Function.comp_apply]
  rw [show (k : Int) + (j : Int) = ((k + j : Nat) : Int) by omega, uint32_natCast (by omega)]

theorem len_wholeBlocks {i : Int} {p : Piece} (member : p ∈ wholeBlocks i n) : p.len = 4096 := by
  obtain ⟨j, -, rfl⟩ := List.mem_map.mp member
  rfl

/-- A range whose end is below `2 ^ 31`. -/
theorem pieces_low (small : offset + len < 2147483648) : pieces (int32 offset) (int32 (offset + len)) =
    if offset / 4096 = (offset + len) / 4096 then [⟨offset / 4096, offset % 4096, len⟩]
    else
      ⟨offset / 4096, offset % 4096, 4096 - offset % 4096⟩ ::
        wholeBlocks ((offset / 4096 + 1 : Nat) : Int) ((offset + len) / 4096 - (offset / 4096 + 1)) ++
        if 0 < (offset + len) % 4096 then [⟨(offset + len) / 4096, 0, (offset + len) % 4096⟩] else [] := by
  rw [int32_of_lt (show offset < 2147483648 by omega), int32_of_lt small, pieces,
    blockQuot_natCast (by omega), blockQuot_natCast small, blockRem_natCast (by omega),
    blockRem_natCast small, uint32_natCast (by omega), uint32_natCast (by omega)]
  by_cases one : offset / 4096 = (offset + len) / 4096
  · rw [if_pos (congrArg Nat.cast one), if_pos one, copyLen_of_le (by omega) (by omega),
      show (offset + len) % 4096 - offset % 4096 = len by omega]
  · rw [if_neg (by omega), if_neg one, show ((((offset + len) / 4096 : Nat) : Int) -
      (((offset / 4096 : Nat) : Int) + 1)).toNat = (offset + len) / 4096 - (offset / 4096 + 1) by omega,
      show ((offset / 4096 : Nat) : Int) + 1 = ((offset / 4096 + 1 : Nat) : Int) by omega]

/-- A range across `2 ^ 31`: its end counts as negative, and no whole block is left. -/
theorem pieces_across (start : offset < 2147483648) (high : 2147483648 ≤ offset + len)
    (small : offset + len < 4294967296) : ∃ far, 1049623 ≤ far ∧
    pieces (int32 offset) (int32 (offset + len)) =
      ⟨offset / 4096, offset % 4096, 4096 - offset % 4096⟩ ::
        if 0 < (offset + len) % 4096 then [⟨far, 0, (offset + len) % 4096⟩] else [] := by
  obtain ⟨negative, past⟩ := blockQuot_high high small
  refine ⟨_, past, ?_⟩
  rw [int32_of_lt start, pieces, blockQuot_natCast start, blockRem_natCast start, blockRem_high high small,
    uint32_natCast (by omega)]
  generalize blockQuot (int32 (offset + len)) = rid at negative ⊢
  rw [if_neg (by omega), show (rid - (((offset / 4096 : Nat) : Int) + 1)).toNat = 0 by omega]
  rfl

/-- A range behind `2 ^ 31` starts with a block that no file has. -/
theorem pieces_past {r : Int} (high : 2147483648 ≤ offset) (small : offset < 4294967296) :
    ∃ p ps, pieces (int32 offset) r = p :: ps ∧ 1049623 ≤ p.inner := by
  obtain ⟨-, past⟩ := blockQuot_high high small
  rw [pieces]
  split
  · exact ⟨_, _, rfl, past⟩
  · exact ⟨_, _, rfl, past⟩

theorem visits_of_fits (cut : d.cutLen offset len = n) (some : 0 < n) (fits : FitsInt offset n) :
    d.VisitsExactly offset len n := by
  cases fits with
  | inl small =>
    -- the range ends below 2^31: first block, whole blocks, last block
    have list := pieces_low small
    by_cases one : offset / 4096 = (offset + n) / 4096
    · rw [if_pos one] at list
      constructor
      · rw [visits, cut, list, show (offset + n - 1) / 4096 + 1 - offset / 4096 = 1 by omega]
        rfl
      · intro p member
        rw [visits, cut, list, List.mem_singleton] at member
        subst member
        exact ⟨some, by dsimp only; omega⟩
    · rw [if_neg one] at list
      constructor
      · rw [visits, cut, list, List.map_append, List.map_cons, inner_wholeBlocks (by omega)]
        by_cases rest : 0 < (offset + n) % 4096
        · rw [if_pos rest, show (offset + n - 1) / 4096 + 1 - offset / 4096 =
            (offset + n) / 4096 - (offset / 4096 + 1) + 1 + 1 by omega, List.range'_succ, List.range'_concat]
          simp only [List.map_cons, List.map_nil, List.cons_append, List.cons.injEq, true_and,
            List.append_cancel_left_eq, and_true]
          omega
        · rw [if_neg rest, show (offset + n - 1) / 4096 + 1 - offset / 4096 =
            (offset + n) / 4096 - (offset / 4096 + 1) + 1 by omega, List.range'_succ]
          simp only [List.map_nil, List.append_nil]
      · intro p member
        rw [visits, cut, list, List.cons_append, List.mem_cons, List.mem_append] at member
        obtain rfl | whole | last := member
        · exact ⟨by dsimp only; omega, by dsimp only; omega⟩
        · rw [len_wholeBlocks whole]
          omega
        · split at last <;> rename_i rest
          · rw [List.mem_singleton] at last
            subst last
            exact ⟨rest, by dsimp only; omega⟩
          · cases last
  | inr last =>
    -- the range ends at 2^31, in the block in which it starts
    obtain ⟨far, -, list⟩ := pieces_across (show offset < 2147483648 by omega) (show 2147483648 ≤ offset + n by omega)
      (by omega)
    rw [if_neg (by omega)] at list
    constructor
    · rw [visits, cut, list, show (offset + n - 1) / 4096 + 1 - offset / 4096 = 1 by omega]
      rfl
    · intro p member
      rw [visits, cut, list, List.mem_singleton] at member
      subst member
      exact ⟨by dsimp only; omega, by dsimp only; omega⟩

/-- A range that does not fit an `int` has other pieces. -/
theorem fits_of_visits (cut : d.cutLen offset len = n) (small : offset + n < 4294967296)
    (visited : d.VisitsExactly offset len n) : FitsInt offset n := by
  have inner := visited.inner
  rw [visits, cut] at inner
  by_contra misfit
  simp only [FitsInt, not_or, not_and, not_lt, not_le] at misfit
  by_cases start : offset < 2147483648
  · -- the second block of the range is missed
    have next : (offset + n - 1) / 4096 + 1 - offset / 4096 =
        (offset + n - 1) / 4096 - (offset / 4096 + 1) + 1 + 1 := by omega
    obtain ⟨far, isFar, list⟩ := pieces_across start misfit.1 small
    rw [list, next, List.range'_succ, List.range'_succ, List.map_cons, List.cons.injEq] at inner
    have tail := inner.2
    split at tail
    · rw [List.map_cons, List.cons.injEq] at tail
      have := tail.1
      dsimp only at this
      omega
    · cases tail
  · obtain ⟨p, ps, list, far⟩ := pieces_past (r := int32 (offset + n)) (Nat.not_lt.mp start) (by omega)
    rw [list, List.map_cons] at inner
    have member : p.inner ∈ List.range' (offset / 4096) ((offset + n - 1) / 4096 + 1 - offset / 4096) :=
      inner ▸ List.mem_cons_self
    have := List.mem_range'_1.mp member
    omega

end

end DiskInode

open Slot

/-! ## What is asked of a transfer -/

/-- How many bytes there are at `offset`, of the `len` that are asked for. -/
def transfer (d : DiskInode) (offset len : Nat) : Nat := min len (d.size.toNat - offset)

/-- `read_data` returns how many bytes there are, copies exactly these to the front of the
buffer, and changes no block. -/
def ReadsExactly (d : DiskInode) (s : Disk) (offset len : Nat) : Prop :=
  d.VisitsExactly offset len (transfer d offset len) ∧
    ∀ buf, ∃ ret got d' s', (d.readData offset len buf).run s = ((ret, got, d'), s') ∧
      ret = (transfer d offset len : Int) ∧ ret ≠ -1 ∧
      (∀ i, i < transfer d offset len → got i = d.byte s.blocks (offset + i)) ∧
      (∀ i, transfer d offset len ≤ i → got i = buf i) ∧ s'.blocks = s.blocks

/-- `write_data` returns how many bytes there are, replaces exactly these in the file, and
writes no block but those they lie in. -/
def WritesExactly (d : DiskInode) (s : Disk) (offset len : Nat) : Prop :=
  d.VisitsExactly offset len (transfer d offset len) ∧
    ∀ buf, ∃ ret d' s', (d.writeData offset buf len).run s = ((ret, d'), s') ∧
      ret = (transfer d offset len : Int) ∧ ret ≠ -1 ∧ d'.size = d.size ∧
      (∀ i, i < transfer d offset len → d'.byte s'.blocks (offset + i) = buf i) ∧
      (∀ i, i < d.size.toNat → i < offset ∨ offset + transfer d offset len ≤ i →
        d'.byte s'.blocks i = d.byte s.blocks i) ∧
      Touches (fun b => ∃ k, offset / 4096 ≤ k ∧ k ≤ (offset + transfer d offset len - 1) / 4096 ∧
        b = d.ids s.blocks k) s s'

section

variable {bm : Bitmap} {d : DiskInode} {s : Disk} {offset len : Nat}

/-- Whatever happens, the result is `kFail` or the length that is left, as an `int`. -/
theorem readData_ret (some : len ≠ 0) (inside : offset ≤ d.size.toNat) (buf : Mem) :
    ((d.readData offset len buf).run s).1.1 = -1 ∨
      ((d.readData offset len buf).run s).1.1 = int32 (d.cutLen offset len) := by
  obtain ⟨d₁, s₁, run₁, retimed, -⟩ := run_updateMeta d 1 s
  have size₁ : d₁.size = d.size := by rw [retimed]
  have early : ¬ d₁.size.toNat < offset := by
    rw [size₁]
    omega
  have cut : d₁.cutLen offset len = d.cutLen offset len := by rw [DiskInode.cutLen, size₁, DiskInode.cutLen]
  simp only [DiskInode.readData, DevProg.run_bind, run₁, some, early, if_false, cut]
  generalize (d₁.readRange _ _ buf).run s₁ = outcome
  obtain ⟨⟨ok, got⟩, s₂⟩ := outcome
  cases ok with
  | false => exact .inl rfl
  | true => exact .inr rfl

theorem writeData_ret (some : len ≠ 0) (inside : offset ≤ d.size.toNat) (buf : Mem) :
    ((d.writeData offset buf len).run s).1.1 = -1 ∨
      ((d.writeData offset buf len).run s).1.1 = int32 (d.cutLen offset len) := by
  obtain ⟨d₁, s₁, run₁, retimed, -⟩ := run_updateMeta d 3 s
  have size₁ : d₁.size = d.size := by rw [retimed]
  have early : ¬ d₁.size.toNat < offset := by
    rw [size₁]
    omega
  have cut : d₁.cutLen offset len = d.cutLen offset len := by rw [DiskInode.cutLen, size₁, DiskInode.cutLen]
  simp only [DiskInode.writeData, DevProg.run_bind, run₁, some, early, if_false, cut]
  generalize (d₁.writeRange _ _ buf).run s₁ = outcome
  obtain ⟨ok, s₂⟩ := outcome
  cases ok with
  | false => exact .inl rfl
  | true => exact .inr rfl

/-- If the sum of offset and length does not wrap around, the length is cut to what there is. -/
theorem cutLen_eq (inside : offset ≤ d.size.toNat) (sum : offset + len < 4294967296) :
    d.cutLen offset len = transfer d offset len := by
  rw [DiskInode.cutLen, transfer, Nat.mod_eq_of_lt sum]
  split <;> omega

/-- If it wraps around, the length is not cut. -/
theorem cutLen_wraps (inside : offset ≤ d.size.toNat) (len32 : len < 4294967296)
    (wraps : 4294967296 ≤ offset + len) : d.cutLen offset len = len := by
  have size := d.size.toNat_lt
  rw [DiskInode.cutLen, if_neg (by omega)]

/-- The result is right only if the sum does not wrap around. -/
theorem sum_of_ret {ret : Int} (inside : offset < d.size.toNat) (some : 1 ≤ len) (len32 : len < 4294967296)
    (outcome : ret = -1 ∨ ret = int32 (d.cutLen offset len)) (exact' : ret = (transfer d offset len : Int)) :
    offset + len < 4294967296 := by
  by_contra wraps
  have size := d.size.toNat_lt
  rw [cutLen_wraps (Nat.le_of_lt inside) len32 (by omega), exact', transfer, int32] at outcome
  split at outcome <;> omega

theorem readsExactly_of_fits (map : WellMapped bm d s.blocks) (segment : bm.Segment s.count)
    (failId : s.count ≤ kFailId) (inside : offset < d.size.toNat) (some : 1 ≤ len)
    (sum : offset + len < 4294967296) (fits : FitsInt offset (transfer d offset len)) :
    ReadsExactly d s offset len := by
  have bound := dataBlocks_le d.size.toNat_lt
  refine ⟨DiskInode.visits_of_fits (cutLen_eq (Nat.le_of_lt inside) sum) (by rw [transfer]; omega) fits,
    fun buf => ?_⟩
  have located := located_of_map map segment fun k owns => by
    simp only [DiskInode.Owns, Valid] at owns
    omega
  obtain ⟨d', s', run, -, quiet⟩ := run_diskReadData buf located some inside fits failId sum fun k inFile => by
    simp only [DiskInode.Owns, Valid, dataBlocks]
    omega
  refine ⟨_, _, d', s', run, rfl, by omega, fun i low => ?_, fun i high => ?_, quiet.quiet⟩
  · rw [splice_inside (Nat.zero_le i) (by rw [transfer] at low; omega), Nat.sub_zero]
    rfl
  · rw [splice_outside (.inr (by rw [transfer] at high; omega))]

/-- Only the length that is left matters. -/
theorem run_writeData_cut {n : Nat} (some : 0 < len) (left : 0 < n) (cut : d.cutLen offset len = n)
    (fits : offset + n ≤ d.size.toNat) (buf : Mem) :
    (d.writeData offset buf len).run s = (d.writeData offset buf n).run s := by
  obtain ⟨d₁, s₁, run₁, retimed, -⟩ := run_updateMeta d 3 s
  have size₁ : d₁.size = d.size := by rw [retimed]
  have cut₁ : d₁.cutLen offset len = n := by rw [DiskInode.cutLen, size₁, ← DiskInode.cutLen, cut]
  have cut₁' : d₁.cutLen offset n = n := cutLen_inside (size₁ ▸ fits)
  have empty : ¬ len = 0 := by omega
  have empty' : ¬ n = 0 := by omega
  simp only [DiskInode.writeData, DevProg.run_bind, run₁, empty, empty', if_false, cut₁, cut₁']

theorem Located.mono {R R' : Nat → Prop} {ids : Nat → Nat} (located : Located d s R ids)
    (fewer : ∀ k, R' k → R k) : Located d s R' ids := by
  refine ⟨fun k inside => located.onDevice k (fewer k inside), fun k inside s' touches => ?_,
    fun k inside => located.small k (fewer k inside)⟩
  refine located.find k (fewer k inside) s' (touches.mono fun b listed => ?_)
  obtain ⟨k', inside', same⟩ := listed
  exact ⟨k', fewer k' inside', same⟩

theorem writesExactly_of_fits (map : WellMapped bm d s.blocks) (segment : bm.Segment s.count)
    (failId : s.count ≤ kFailId) (inside : offset < d.size.toNat) (some : 1 ≤ len)
    (sum : offset + len < 4294967296) (fits : FitsInt offset (transfer d offset len)) :
    WritesExactly d s offset len := by
  have bound := dataBlocks_le d.size.toNat_lt
  have cut := cutLen_eq (Nat.le_of_lt inside) sum
  have left : 0 < transfer d offset len := by
    rw [transfer]
    omega
  have inFile : offset + transfer d offset len ≤ d.size.toNat := by
    rw [transfer]
    omega
  rw [WritesExactly]
  generalize transfer d offset len = n at cut left inFile fits ⊢
  refine ⟨DiskInode.visits_of_fits cut left fits, fun buf => ?_⟩
  have located := located_of_map map segment fun k owns => by
    simp only [DiskInode.Owns, Valid] at owns
    omega
  have reaches : ∀ k, offset / 4096 ≤ k → 4096 * k < offset + n → d.Owns (data k) := fun k _ upper => by
    simp only [DiskInode.Owns, Valid, dataBlocks]
    omega
  obtain ⟨ret, d', s', run, retimed, touches, good⟩ :=
    run_diskWriteData buf located left inFile failId reaches
  obtain ⟨rfl, filled⟩ := good fits
  -- the same run, seen to stay in the blocks of the range
  have fewer : ∀ k, offset / 4096 ≤ k ∧ k ≤ (offset + n - 1) / 4096 → d.Owns (data k) :=
    fun k range => reaches k range.1 (by omega)
  obtain ⟨ret, d'', s'', run', -, narrow, -⟩ :=
    run_diskWriteData buf (located.mono fewer) left inFile failId fun k lower upper => ⟨lower, by omega⟩
  rw [run] at run'
  cases run'
  obtain ⟨-, -, ids⟩ := Evolved.of_data (W := fun _ => False) map segment touches
  have pointers : d'.slotId s'.blocks = d.slotId s'.blocks :=
    slotId_pointers (by rw [retimed]) (by rw [retimed]) (by rw [retimed]) _
  have bytes : ∀ i, i < d.size.toNat →
      d'.byte s'.blocks i = splice (byteAt (d.ids s.blocks) s.blocks) offset n buf i := by
    intro i old
    have owns := DiskInode.owns_data old
    have inj : ∀ j k, d.Owns (data j) → d.Owns (data k) →
        d.slotId s.blocks (data j) = d.slotId s.blocks (data k) → j = k := by
      intro j k ownsJ ownsK same
      cases map.inj _ _ ownsJ ownsK same
      rfl
    refine Eq.trans ?_ (filled.bytes inj i owns)
    rw [DiskInode.byte, byteAt, byteAt, DiskInode.ids, pointers, ids _ owns]
  refine ⟨n, d', s', ?_, rfl, by omega, by rw [retimed], fun i low => ?_, fun i old out => ?_, ?_⟩
  · rw [run_writeData_cut some left cut inFile, run]
  · rw [bytes _ (by omega), splice_inside (by omega) (by omega), Nat.add_sub_cancel_left]
  · rw [bytes i old, splice_outside out]
    rfl
  · refine narrow.mono fun b listed => ?_
    obtain ⟨k, range, same⟩ := listed
    exact ⟨k, range.1, range.2, same⟩

/-- Both transfers are exact if the range fits, and neither is otherwise. -/
theorem transfers_exact_iff (map : WellMapped bm d s.blocks) (segment : bm.Segment s.count)
    (failId : s.count ≤ kFailId) (inside : offset < d.size.toNat) (some : 1 ≤ len) (len32 : len < 4294967296) :
    (ReadsExactly d s offset len ↔
      offset + len < 4294967296 ∧ FitsInt offset (min len (d.size.toNat - offset))) ∧
    (WritesExactly d s offset len ↔
      offset + len < 4294967296 ∧ FitsInt offset (min len (d.size.toNat - offset))) := by
  have empty : len ≠ 0 := by omega
  have inFile : offset + transfer d offset len < 4294967296 := by
    have := d.size.toNat_lt
    rw [transfer]
    omega
  constructor
  · constructor
    · intro exact'
      obtain ⟨visited, reads⟩ := exact'
      obtain ⟨ret, got, d', s', run, ok, -⟩ := reads fun _ => 0
      have outcome := readData_ret (s := s) empty (Nat.le_of_lt inside) fun _ => 0
      rw [run] at outcome
      have sum := sum_of_ret inside some len32 outcome ok
      exact ⟨sum, DiskInode.fits_of_visits (cutLen_eq (Nat.le_of_lt inside) sum) inFile visited⟩
    · intro fits
      exact readsExactly_of_fits map segment failId inside some fits.1 fits.2
  · constructor
    · intro exact'
      obtain ⟨visited, writes⟩ := exact'
      obtain ⟨ret, d', s', run, ok, -⟩ := writes fun _ => 0
      have outcome := writeData_ret (s := s) empty (Nat.le_of_lt inside) fun _ => 0
      rw [run] at outcome
      have sum := sum_of_ret inside some len32 outcome ok
      exact ⟨sum, DiskInode.fits_of_visits (cutLen_eq (Nat.le_of_lt inside) sum) inFile visited⟩
    · intro fits
      exact writesExactly_of_fits map segment failId inside some fits.1 fits.2

end

/-! ### A file of 1049 blocks -/

theorem deepFile_segment : Layout.default.formatted.dataBitmap.Segment deepDisk.count :=
  Layout.default.segment deepDisk_device

/-- The bytes at offset 4000, across the end of the first block. -/
theorem transfers_exact_iff_deepFile :
    ReadsExactly deepFile deepDisk 4000 200 ∧ WritesExactly deepFile deepDisk 4000 200 :=
  ⟨(transfers_exact_iff deepFile_mapped deepFile_segment (by decide) (by decide) (by decide) (by decide)).1.mpr
      ⟨by decide, .inl (by decide)⟩,
    (transfers_exact_iff deepFile_mapped deepFile_segment (by decide) (by decide) (by decide) (by decide)).2.mpr
      ⟨by decide, .inl (by decide)⟩⟩

/-- Asking for `2 ^ 32 - 1` bytes at offset 1 does not return the rest of the file. -/
theorem readData_wraps : ¬ ∀ (bm : Bitmap) (d : DiskInode) (s : Disk), WellMapped bm d s.blocks →
    bm.Segment s.count → s.count ≤ kFailId → ∀ offset len, offset < d.size.toNat → 1 ≤ len →
      len < 4294967296 → ReadsExactly d s offset len ∧ WritesExactly d s offset len := by
  intro all
  obtain ⟨⟨-, reads⟩, -⟩ := all _ deepFile deepDisk deepFile_mapped deepFile_segment (by decide) 1 4294967295
    (by decide) (by decide) (by decide)
  obtain ⟨ret, got, d', s', run, exact', -⟩ := reads fun _ => 0
  have outcome := readData_ret (d := deepFile) (s := deepDisk) (show 4294967295 ≠ 0 by decide)
    (show 1 ≤ deepFile.size.toNat by decide) fun _ => 0
  rw [run] at outcome
  exact absurd (sum_of_ret (by decide) (by decide) (by decide) outcome exact') (by decide)

end Sbfs
