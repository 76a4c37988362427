import Sbfs.Bitmap
import Sbfs.Lib.Pool

/-! # The bitmap as an allocator

Any sequence of `Bitmap::alloc` and `Bitmap::free` calls, with other writes in between that
leave the blocks of the bitmap alone.  Each call does what it says to the bits
(`AllocatesLeast`, `FreesOne`), so the ids of the set bits are a first-fit pool
(`Serves.pool`), and what holds of every such pool holds of the bitmap
(`alloc_never_twice`). -/

namespace Sbfs

namespace Bitmap

/-- A bitmap whose blocks the device can read and write, with room for its ids in a
`uint32_t`.  Block ids are added modulo `2 ^ 32`, and no device has `2 ^ 32` blocks:
`num_data_blocks_` is a `uint32_t`. -/
structure Usable (bm : Bitmap) (count : Nat) : Prop where
  start32 : bm.startBlockId < 4294967296
  count32 : count ≤ 4294967295
  io : ∀ i, i < bm.numBlocks → (bm.startBlockId + i) % 4294967296 < count
  ids32 : bm.dataSegmentOffset + bm.capacity < 4294967296

/-- `alloc` sets the least clear bit and returns its id; it fails, and changes nothing, if
every bit is set. -/
def AllocatesLeast (bm : Bitmap) (s : Disk) : Prop :=
  ∃ ret s', bm.alloc.run s = (ret, s') ∧ Touches bm.Holds s s' ∧
    (ret = kFailId ↔ ∀ i, i < bm.capacity → bm.bit s.blocks i = true) ∧
    (ret = kFailId → s' = s) ∧
    (ret ≠ kFailId → ∃ i, i < bm.capacity ∧ ret = bm.dataSegmentOffset + i ∧ bm.bit s.blocks i = false ∧
      (∀ t, t < i → bm.bit s.blocks t = true) ∧
      ∀ t, t < bm.capacity → bm.bit s'.blocks t = if t = i then true else bm.bit s.blocks t)

/-- `free` clears the bit of the id. -/
def FreesOne (bm : Bitmap) (s : Disk) (id : Nat) : Prop :=
  ∃ s', (bm.free id).run s = (.kSuccess, s') ∧ Touches bm.Holds s s' ∧
    ∀ t, t < bm.capacity → bm.bit s'.blocks t =
      if t = id - bm.dataSegmentOffset then false else bm.bit s.blocks t

variable {bm : Bitmap} {s s' s₀ : Disk} {id : Nat} {D D' : Nat → Block}

/-- The ids do not wrap around, so the blocks of the bitmap are consecutive. -/
theorem Usable.fits (usable : bm.Usable s.count) (some : 0 < bm.numBlocks) : bm.Fits s.count := by
  have count32 := usable.count32
  have start32 := usable.start32
  have below : bm.startBlockId + bm.numBlocks ≤ 4294967295 := by
    by_contra wraps
    -- otherwise block `2 ^ 32 - 1` would be one of them
    have last := usable.io (4294967295 - bm.startBlockId) (by omega)
    rw [Nat.mod_eq_of_lt (by omega)] at last
    omega
  have end' := usable.io (bm.numBlocks - 1) (by omega)
  rw [Nat.mod_eq_of_lt (by omega)] at end'
  exact ⟨by omega, by omega⟩

theorem Usable.allocatesLeast (usable : bm.Usable s.count) : AllocatesLeast bm s := by
  have ids32 := usable.ids32
  by_cases empty : bm.numBlocks = 0
  · have none : bm.capacity = 0 := by rw [capacity, empty, Nat.zero_mul]
    refine ⟨kFailId, s, ?_, .refl _ _, ?_, fun _ => rfl, fun ok => absurd rfl ok⟩
    · rw [alloc, empty]
      rfl
    · simp [none]
  have fits := usable.fits (by omega)
  cases free : bm.freeBits s.blocks with
  | nil =>
    refine ⟨kFailId, s, run_alloc_nil fits free, .refl _ _, ?_, fun _ => rfl, fun ok => absurd rfl ok⟩
    refine iff_of_true rfl fun i inside => ?_
    by_contra clear
    have member : i ∈ bm.freeBits s.blocks := mem_freeBits.mpr ⟨inside, by simpa using clear⟩
    rw [free] at member
    cases member
  | cons a rest =>
    obtain ⟨inside, clear, below⟩ := head_freeBits.mp (by rw [free, List.head?_cons])
    have run := run_alloc_cons fits free
    rw [Nat.mod_eq_of_lt (by omega)] at run
    have ok : bm.dataSegmentOffset + a ≠ kFailId := by
      rw [kFailId]
      omega
    refine ⟨_, bm.mark s a, run, touches_mark inside, ?_, fun failed => absurd failed ok, fun _ => ?_⟩
    · refine iff_of_false ok fun full => ?_
      rw [full a inside] at clear
      cases clear
    · refine ⟨a, inside, rfl, clear, below, fun t _ => ?_⟩
      rw [bit_mark fits inside]
      by_cases same : t = a <;> simp [same]

theorem Usable.freesOne (usable : bm.Usable s.count) (inside : bm.InSegment id) : FreesOne bm s id := by
  have ids32 := usable.ids32
  obtain ⟨lower, upper⟩ := inside
  obtain ⟨a, rfl⟩ := Nat.exists_eq_add_of_le lower
  have bound : a < bm.capacity := by omega
  have some : 0 < bm.numBlocks := by
    rw [capacity] at bound
    omega
  have fits := usable.fits some
  refine ⟨bm.unmark s a, run_free fits bound (by omega), touches_unmark bound, fun t _ => ?_⟩
  rw [bit_unmark fits bound, Nat.add_sub_cancel_left]
  by_cases same : t = a <;> simp [same]

/-! ## Sequences of calls -/

/-- The call of a pool that a result of `alloc` stands for. -/
def tookId (ret : Nat) : Pool.Call Nat := .took (if ret = kFailId then none else some ret)

/-- The calls, the first one first, lead from the first store to the second. -/
inductive Serves (bm : Bitmap) : Disk → List (Pool.Call Nat) → Disk → Prop where
  | start (s : Disk) : Serves bm s [] s
  | alloc {s t u : Disk} {calls : List (Pool.Call Nat)} {ret : Nat} (before : Serves bm s calls t)
      (run : bm.alloc.run t = (ret, u)) : Serves bm s (calls ++ [tookId ret]) u
  | free {s t u : Disk} {calls : List (Pool.Call Nat)} {id : Nat} {ret : Ret} (before : Serves bm s calls t)
      (inside : bm.InSegment id) (run : (bm.free id).run t = (ret, u)) : Serves bm s (calls ++ [.gave id]) u
  | other {s t u : Disk} {calls : List (Pool.Call Nat)} (before : Serves bm s calls t)
      (touches : Touches (fun b => ¬ bm.Holds b) t u) : Serves bm s calls u

/-- The ids of the set bits. -/
def taken (bm : Bitmap) (D : Nat → Block) : Set Nat := {id | bm.Used D id}

variable {calls : List (Pool.Call Nat)}

theorem Serves.count (serves : Serves bm s calls s') : s'.count = s.count := by
  induction serves with
  | start => rfl
  | alloc _ run ih => rw [DevProg.count_of_run run, ih]
  | free _ _ run ih => rw [DevProg.count_of_run run, ih]
  | other _ touches ih => rw [touches.count, ih]

theorem mem_taken_add {a : Nat} : bm.dataSegmentOffset + a ∈ bm.taken D ↔ a < bm.capacity ∧ bm.bit D a = true := by
  rw [taken, Set.mem_ofPred_eq, Used, InSegment, Nat.add_sub_cancel_left]
  refine and_congr_left fun _ => ?_
  omega

/-- What `alloc` does to the ids. -/
theorem AllocatesLeast.step (least : AllocatesLeast bm s) {ret : Nat} (run : bm.alloc.run s = (ret, s')) :
    Pool.Step {id | bm.InSegment id} (bm.taken s.blocks) (tookId ret) (bm.taken s'.blocks) := by
  obtain ⟨ret', t, run', -, full, failed, ok⟩ := least
  obtain ⟨rfl, rfl⟩ := Prod.mk.inj (run'.symm.trans run)
  by_cases fails : ret' = kFailId
  · rw [tookId, if_pos fails, failed fails]
    refine .full fun id inside => ?_
    obtain ⟨a, rfl⟩ := Nat.exists_eq_add_of_le inside.1
    have bound : a < bm.capacity := by
      have := inside.2
      omega
    exact mem_taken_add.mpr ⟨bound, full.mp fails a bound⟩
  · obtain ⟨i, inside, rfl, clear, below, bits⟩ := ok fails
    rw [tookId, if_neg fails]
    have after : bm.taken t.blocks = insert (bm.dataSegmentOffset + i) (bm.taken s.blocks) := by
      ext id
      by_cases segment : bm.InSegment id
      · obtain ⟨a, rfl⟩ := Nat.exists_eq_add_of_le segment.1
        have bound : a < bm.capacity := by
          have := segment.2
          omega
        rw [Set.mem_insert_iff, mem_taken_add, mem_taken_add, bits a bound, Nat.add_right_inj]
        split
        next same => simp [same, inside]
        next other => simp [other]
      · refine iff_of_false (fun used => segment used.1) fun used => segment ?_
        cases used with
        | inl same => exact same ▸ ⟨by omega, by omega⟩
        | inr old => exact old.1
    rw [after]
    refine .took ⟨⟨⟨by omega, by omega⟩, fun used => ?_⟩, fun id free => ?_⟩
    · have := (mem_taken_add.mp used).2
      rw [clear] at this
      cases this
    · obtain ⟨segment, open'⟩ := free
      obtain ⟨a, rfl⟩ := Nat.exists_eq_add_of_le segment.1
      by_contra under
      have bound := segment.2
      exact open' (mem_taken_add.mpr ⟨by omega, below a (by omega)⟩)

/-- What `free` does to the ids. -/
theorem FreesOne.step (frees : FreesOne bm s id) (inside : bm.InSegment id) {ret : Ret}
    (run : (bm.free id).run s = (ret, s')) :
    Pool.Step {id | bm.InSegment id} (bm.taken s.blocks) (.gave id) (bm.taken s'.blocks) := by
  obtain ⟨t, run', -, bits⟩ := frees
  obtain ⟨-, rfl⟩ := Prod.mk.inj (run'.symm.trans run)
  have after : bm.taken t.blocks = bm.taken s.blocks \ {id} := by
    ext x
    rw [Set.mem_sdiff, Set.mem_singleton_iff]
    by_cases segment : bm.InSegment x
    · obtain ⟨a, rfl⟩ := Nat.exists_eq_add_of_le segment.1
      have bound : a < bm.capacity := by
        have := segment.2
        omega
      have same : a = id - bm.dataSegmentOffset ↔ bm.dataSegmentOffset + a = id := by
        have := inside.1
        omega
      rw [mem_taken_add, mem_taken_add, bits a bound]
      split
      next here => simp [same.mp here]
      next other => simp [mt same.mpr other]
    · exact iff_of_false (fun used => segment used.1) fun used => segment used.1.1
  rw [after]
  exact .gave inside

/-- The ids of the set bits are a first-fit pool. -/
theorem Serves.pool (serves : Serves bm s calls s') (usable : bm.Usable s.count) :
    Pool.Run {id | bm.InSegment id} (bm.taken s.blocks) calls (bm.taken s'.blocks) := by
  induction serves with
  | start => exact .nil
  | alloc before run ih =>
    exact ih.snoc ((before.count ▸ usable : bm.Usable _).allocatesLeast.step run)
  | free before inside run ih =>
    exact ih.snoc (((before.count ▸ usable : bm.Usable _).freesOne inside).step inside run)
  | other before touches ih =>
    have same : bm.taken _ = bm.taken _ := Set.ext fun id =>
      used_congr fun b holds => touches.blocks b fun out => out holds
    exact same ▸ ih

/-- In every state of every sequence of calls, `alloc` and `free` do to the bits what they
say; `alloc` returns no id that is still allocated; and freeing allocated ids and then
allocating restores the bits if the ids handed out are those that were freed, and not
otherwise.  They are, if as many are handed out and no bit below was clear. -/
theorem alloc_never_twice (bm : Bitmap) (usable : bm.Usable s₀.count) (serves : Serves bm s₀ calls s) :
    AllocatesLeast bm s ∧ (∀ id, bm.InSegment id → FreesOne bm s id) ∧
    (∀ id s', bm.alloc.run s = (id, s') → id ≠ kFailId → ¬ bm.Used s.blocks id ∧ ¬ Pool.Held calls id) ∧
    ∀ given got : List Nat, (∀ id ∈ given, bm.Used s.blocks id) → (∀ id ∈ got, id ≠ kFailId) → ∀ s',
      Serves bm s (given.map .gave ++ got.map tookId) s' →
        ((∀ id, bm.Used s'.blocks id ↔ bm.Used s.blocks id) ↔ ∀ id, id ∈ got ↔ id ∈ given) ∧
        (given.Nodup → got.length = given.length →
          (∀ id ∈ given, ∀ x, bm.InSegment x → x < id → bm.Used s.blocks x) →
          ∀ id, bm.Used s'.blocks id ↔ bm.Used s.blocks id) := by
  have here : bm.Usable s.count := serves.count ▸ usable
  refine ⟨here.allocatesLeast, fun id => here.freesOne, fun id s' run ok => ?_, ?_⟩
  · have step := here.allocatesLeast.step run
    rw [tookId, if_neg ok] at step
    exact ⟨step.fresh, (serves.pool usable).not_held step⟩
  · intro given got allocated ok s' again
    have took : got.map tookId = got.map fun a => .took (some a) :=
      List.map_congr_left fun id member => by rw [tookId, if_neg (ok id member)]
    have run := again.pool here
    rw [took] at run
    have restores := run.restores_iff allocated
    rw [Set.ext_iff] at restores
    refine ⟨restores, fun distinct count packed => restores.mpr ?_⟩
    exact run.gets_back (fun id back => (allocated id back).1) distinct count packed

/-! ### One block of clear bits -/

def oneBlock : Bitmap := { startBlockId := 0, numBlocks := 1, dataSegmentOffset := 1 }

def clearDisk : Disk :=
  { count := 1, blocks := fun _ => Bytes.zero, writes := [], clock := fun _ => 0, syncs := fun _ => true }

theorem oneBlock_usable : oneBlock.Usable clearDisk.count :=
  ⟨by decide, by decide, fun i bound => by rw [Nat.lt_one_iff.mp bound]; decide, by decide⟩

/-- The second allocation returns 2, and 1 stays taken. -/
theorem alloc_never_twice_oneBlock :
    ¬ oneBlock.Used (oneBlock.alloc.run clearDisk).2.blocks 2 ∧
      ¬ Pool.Held [tookId (oneBlock.alloc.run clearDisk).1] 2 :=
  (alloc_never_twice oneBlock oneBlock_usable (.alloc (.start _) rfl)).2.2.1 2
    (oneBlock.alloc.run (oneBlock.alloc.run clearDisk).2).2 (Prod.ext (by decide) rfl) (by decide)

end Bitmap

end Sbfs
