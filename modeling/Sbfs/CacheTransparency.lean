import Sbfs.LruCacheInv
import Mathlib.Data.List.Basic
import Mathlib.Data.List.Induction

/-! # The block cache is transparent

Whatever sequence of calls a `BlockDevice` has served, it holds for every block what
was last written to it.  `latest` says what that is in terms of the calls alone;
`device_transparent` is the statement for every capacity and every sequence. -/

namespace Sbfs

/-- The calls of `BlockDevice`. -/
inductive DevOp where
  | read (b : Nat)
  | write (b : Nat) (blk : Block)
  | sync (b : Nat)
  | syncAll

inductive DevOut where
  | block (blk : Option Block)
  | ret (ret : Ret)

namespace DevOp

/-- The block id of the call, if it has one, is a `uint32_t` below `count`. -/
def InRange (count : Nat) : DevOp → Prop
  | .read b | .write b _ | .sync b => b < count ∧ b < 4294967296
  | .syncAll => True

def apply (dev : BlockDevice) : DevOp → Option (DevOut × BlockDevice)
  | .read b => (dev.read b).map fun r => (.block r.1, r.2)
  | .write b blk => (dev.write b blk).map fun r => (.ret r.1, r.2)
  | .sync b => (dev.sync b).map fun r => (.ret r.1, r.2)
  | .syncAll => dev.syncAll.map fun r => (.ret r.1, r.2)

/-- What the call writes to block `b`. -/
def written (b : Nat) : DevOp → Option Block
  | .write b' blk => if b' = b then some blk else none
  | _ => none

end DevOp

/-- A sequence of calls; `none` when one of them leaves the slot vector. -/
def runOps : List DevOp → BlockDevice → Option (List DevOut × BlockDevice)
  | [], dev => some ([], dev)
  | op :: ops, dev => do
    let (out, dev) ← op.apply dev
    let (outs, dev) ← runOps ops dev
    return (out :: outs, dev)

/-- The content of the most recent write to `b` in `ops`, or the initial one. -/
def latest (initial : Nat → Block) (ops : List DevOp) (b : Nat) : Block :=
  (ops.reverse.findSome? (DevOp.written b)).getD (initial b)

theorem latest_snoc (initial : Nat → Block) (ops : List DevOp) (op : DevOp) (b : Nat) :
    latest initial (ops ++ [op]) b = (op.written b).getD (latest initial ops b) := by
  simp only [latest, List.reverse_append, List.reverse_singleton, List.singleton_append,
    List.findSome?_cons]
  cases op.written b <;> rfl

theorem runOps_snoc (ops : List DevOp) (op : DevOp) (dev : BlockDevice) :
    runOps (ops ++ [op]) dev = (runOps ops dev).bind fun r =>
      (op.apply r.2).map fun r' => (r.1 ++ [r'.1], r'.2) := by
  induction ops generalizing dev with
  | nil => cases h : op.apply dev <;> simp [runOps, h]
  | cons first ops ih =>
    cases h : first.apply dev with
    | none => simp [runOps, h]
    | some r =>
      cases h' : runOps ops r.2 with
      | none => simp [runOps, h, ih, h']
      | some r' => cases h'' : op.apply r'.2 <;> simp [runOps, h, ih, h', h'']

/-- One call keeps the invariant, and changes the logical content as it should. -/
theorem apply_spec {dev : BlockDevice} {used : Int} (inv : CacheInv dev used) {op : DevOp}
    (inRange : op.InRange dev.disk.count) :
    ∃ out dev' used', op.apply dev = some (out, dev') ∧ CacheInv dev' used' ∧
      dev'.disk.count = dev.disk.count ∧
      (∀ b, dev'.logical b = (op.written b).getD (dev.logical b)) ∧
      (∀ b, op = .read b → out = .block (some (dev.logical b))) ∧
      (∀ b, op = .sync b → out = .ret .kSuccess → dev'.disk.blocks b = dev.logical b) ∧
      (op = .syncAll → out = .ret .kSuccess ∧ ∀ b, dev'.disk.blocks b = dev.logical b) := by
  cases op with
  | read b =>
    obtain ⟨dev', used', eq, inv', same, -⟩ := BlockDevice.read_spec inv inRange.2
    refine ⟨_, dev', used', by simp only [DevOp.apply, eq, Option.map_some]; rfl, inv', same.count,
      same.logical, ?_, by simp, by simp⟩
    intro b' isRead
    cases isRead
    rw [if_pos inRange.1]
  | write b blk =>
    obtain ⟨dev', used', eq, inv', count, logical, -⟩ := BlockDevice.upsert_spec inv inRange.2 blk
    refine ⟨_, dev', used', by simp only [DevOp.apply, BlockDevice.write, eq, Option.map_some]; rfl,
      inv', count, fun b' => ?_, by simp, by simp, by simp⟩
    rw [logical b', DevOp.written]
    by_cases same : b' = b
    · simp [same, inRange.1]
    · simp [same, Ne.symm same]
  | sync b =>
    obtain ⟨ret, dev', eq, inv', same, flushed, -⟩ := BlockDevice.sync_spec inv b
    refine ⟨.ret ret, dev', used, by simp [DevOp.apply, eq], inv', same.count, same.logical,
      by simp, ?_, by simp⟩
    intro b' isSync success
    cases isSync
    cases success
    exact flushed rfl
  | syncAll =>
    obtain ⟨dev', eq, inv', same, flushed⟩ := BlockDevice.syncAll_spec inv
    exact ⟨.ret .kSuccess, dev', used, by simp [DevOp.apply, eq], inv', same.count, same.logical,
      by simp, by simp, fun _ => ⟨rfl, flushed⟩⟩

/-- The device after any sequence of calls: it has left no call unserved, and it
holds for each block what was written last. -/
theorem runOps_spec {cacheSize : Nat} {disk : RawDisk} (capacity : kBlockSize ≤ cacheSize)
    (steady : ∀ n, disk.faults n = false) (ops : List DevOp)
    (inRange : ∀ op ∈ ops, op.InRange disk.count) :
    ∃ outs dev used, runOps ops (.new cacheSize disk) = some (outs, dev) ∧ CacheInv dev used ∧
      dev.disk.count = disk.count ∧ outs.length = ops.length ∧
      (∀ b, dev.logical b = latest disk.blocks ops b) ∧
      (∀ i b : Nat, ops[i]? = some (.read b) →
        outs[i]? = some (.block (some (latest disk.blocks (ops.take i) b)))) := by
  induction ops using List.reverseRecOn with
  | nil =>
    exact ⟨[], _, 0, rfl, .init capacity steady, rfl, rfl, fun _ => rfl, by simp⟩
  | append_singleton ops op ih =>
    obtain ⟨outs, dev, used, eq, inv, count, length, logical, reads⟩ :=
      ih fun op' member => inRange op' (by simp [member])
    obtain ⟨out, dev', used', eq', inv', count', logical', read, -⟩ :=
      apply_spec inv (count ▸ inRange op (by simp))
    refine ⟨outs ++ [out], dev', used', by simp [runOps_snoc, eq, eq'], inv', count'.trans count,
      by simp [length], fun b => by rw [logical', latest_snoc, logical], ?_⟩
    intro i b isRead
    by_cases before : i < ops.length
    · rw [List.getElem?_append_left before] at isRead
      rw [List.getElem?_append_left (length ▸ before), reads i b isRead,
        List.take_append_of_le_length (Nat.le_of_lt before)]
    · have last : i = ops.length := by
        have := (List.getElem?_eq_some_iff.mp isRead).1
        simp only [List.length_append, List.length_singleton] at this
        omega
      subst last
      simp only [List.getElem?_concat_length, Option.some.injEq] at isRead
      rw [← length, List.getElem?_concat_length, read b isRead, logical, length,
        List.take_left']
      rfl

/-- The cache is transparent.  For every capacity of at least one block, every
initial disk and every sequence of calls on blocks of the disk, no call leaves the
slot vector; each read returns what was last written; and a `sync` that succeeds, or
a `sync_all`, leaves on the disk what was last written. -/
theorem device_transparent {cacheSize : Nat} {disk : RawDisk} (capacity : kBlockSize ≤ cacheSize)
    (steady : ∀ n, disk.faults n = false) (ops : List DevOp)
    (inRange : ∀ op ∈ ops, op.InRange disk.count) :
    ∃ outs dev, runOps ops (.new cacheSize disk) = some (outs, dev) ∧
      (∀ i b : Nat, ops[i]? = some (.read b) →
        outs[i]? = some (.block (some (latest disk.blocks (ops.take i) b)))) ∧
      (∀ b, ops.getLast? = some (.sync b) → outs.getLast? = some (.ret .kSuccess) →
        dev.disk.blocks b = latest disk.blocks ops b) ∧
      (ops.getLast? = some .syncAll → outs.getLast? = some (.ret .kSuccess) ∧
        ∀ b, dev.disk.blocks b = latest disk.blocks ops b) := by
  obtain ⟨outs, dev, used, eq, -, -, -, -, reads⟩ := runOps_spec capacity steady ops inRange
  refine ⟨outs, dev, eq, reads, ?_⟩
  rcases List.eq_nil_or_concat' ops with rfl | ⟨ops, op, rfl⟩
  · simp
  obtain ⟨outs', dev', used', eq', inv', count', -, logical', -⟩ :=
    runOps_spec capacity steady ops fun op' member => inRange op' (by simp [member])
  obtain ⟨out, dev'', used'', eq'', -, -, -, -, synced, syncedAll⟩ :=
    apply_spec inv' (count' ▸ inRange op (by simp))
  simp only [runOps_snoc, eq', Option.bind_some, eq'', Option.map_some, Option.some.injEq,
    Prod.mk.injEq] at eq
  obtain ⟨rfl, rfl⟩ := eq
  simp only [List.getLast?_concat, Option.some.injEq]
  refine ⟨fun b isSync success => ?_, fun isSyncAll => ?_⟩
  · rw [synced b isSync success, logical', latest_snoc, isSync]
    rfl
  · obtain ⟨success, flushed⟩ := syncedAll isSyncAll
    refine ⟨success, fun b => ?_⟩
    rw [flushed b, logical', latest_snoc, isSyncAll]
    rfl

/-- A disk of `count` zero blocks on which every transfer inside the file goes through. -/
def blankDisk (count : Nat) : RawDisk :=
  { count, blocks := fun _ => Bytes.zero, faults := fun _ => false, transfers := 0 }

/-- One slot, two blocks: the second read evicts the block just written. -/
theorem device_transparent_one_slot :
    ∃ outs dev, runOps [.write 0 (fun _ => 7), .read 1, .read 0, .syncAll]
        (.new 4096 (blankDisk 2)) = some (outs, dev) ∧
      (∀ i b : Nat, [DevOp.write 0 (fun _ => 7), .read 1, .read 0, .syncAll][i]? = some (.read b) →
        outs[i]? = some (.block (some (latest (blankDisk 2).blocks
          ([DevOp.write 0 (fun _ => 7), .read 1, .read 0, .syncAll].take i) b)))) ∧
      (∀ b, [DevOp.write 0 (fun _ => 7), .read 1, .read 0, .syncAll].getLast? = some (.sync b) →
        outs.getLast? = some (.ret .kSuccess) → dev.disk.blocks b = latest (blankDisk 2).blocks
          [.write 0 (fun _ => 7), .read 1, .read 0, .syncAll] b) ∧
      ([DevOp.write 0 (fun _ => 7), .read 1, .read 0, .syncAll].getLast? = some .syncAll →
        outs.getLast? = some (.ret .kSuccess) ∧ ∀ b, dev.disk.blocks b =
          latest (blankDisk 2).blocks [.write 0 (fun _ => 7), .read 1, .read 0, .syncAll] b) :=
  device_transparent (by decide) (fun _ => rfl) _ (by simp [DevOp.InRange, blankDisk])

end Sbfs
