import Sbfs.CacheTransparency

/-! # The block cache on a failing disk

What a call may lose when a transfer fails.  Two places in the cache lose content: `sync`
clears the dirty flag before it writes the block, and `get_page` goes on with the slot of a
victim whose write-back has failed.  A third one shows much later: a failed fill leaves a
slot behind with the id of the block it should have held, and when that slot is evicted the
block's entry goes, whoever holds it by then.

`DevOp.Safe` says that a call meets none of the three.  A run of such calls keeps the cache
coherent, however many transfers fail on the way. -/

namespace Sbfs

/-- Content that the disk does not have is cached and dirty, and no two ids share a slot. -/
structure CacheCoherent (dev : BlockDevice) : Prop where
  kept : ∀ b, dev.logical b ≠ dev.disk.blocks b → ∃ slot,
    dev.cache.hashtable b = some slot ∧ (dev.cache.buffer slot).2.isDirty = true
  apart : ∀ b b' slot, dev.cache.hashtable b = some slot → dev.cache.hashtable b' = some slot →
    b = b'

theorem Shape.coherent {dev : BlockDevice} {used : Int} (shape : Shape dev used) :
    CacheCoherent dev := by
  refine ⟨fun b differs => ?_, fun b b' slot here there => shape.inj here there⟩
  cases h : dev.cache.hashtable b with
  | none =>
    -- A block that is not cached has the content of the disk.
    simp [BlockDevice.logical, h] at differs
  | some slot =>
    refine ⟨slot, rfl, ?_⟩
    cases isDirty : (dev.cache.buffer slot).2.isDirty with
    | true => rfl
    | false =>
      simp only [BlockDevice.logical, h] at differs
      exact absurd (shape.clean b slot h isDirty) differs

/-- Some transfer of a call on block `id` failed.  A block that is in the cache is a block of
the disk, so the transfer of `id` itself is the only one that can leave the disk. -/
def Interrupted (dev dev' : BlockDevice) (id : Nat) : Prop :=
  ∃ n, dev.disk.transfers ≤ n ∧ n < dev'.disk.transfers ∧
    (dev.disk.faults n = true ∨ dev.disk.count ≤ id)

theorem RawDisk.Through.not_interrupted {dev dev' : BlockDevice} {id : Nat}
    (through : dev.disk.Through dev'.disk) (inRange : id < dev.disk.count) :
    ¬ Interrupted dev dev' id := by
  intro interrupted
  obtain ⟨n, lower, upper, failed⟩ := interrupted
  cases failed with
  | inl fault =>
    rw [through.clear n lower upper] at fault
    cases fault
  | inr past => omega

namespace DevOp

/-- Block ids are `uint32_t`. -/
def Typed : DevOp → Prop
  | .read b | .write b _ | .sync b => b < 4294967296
  | .syncAll => True

/-- The call evicts only when that loses nothing, and clears no dirty flag of a block that
the disk does not have and does not take. -/
def Safe (dev : BlockDevice) : DevOp → Prop
  | .read id => dev.cache.hashtable id = none → dev.disk.ready id = true →
      EvictionSafe { dev with disk := dev.disk.tick }
  | .write id _ => dev.cache.hashtable id = none → EvictionSafe dev
  | .sync id => ∀ slot, dev.cache.hashtable id = some slot →
      (dev.cache.buffer slot).2.isDirty = true →
        dev.disk.ready id = true ∨ (dev.cache.buffer slot).1 = dev.disk.blocks id
  | .syncAll => True

/-- What a call that returned `out` has made the content of block `b`. -/
def stored (b : Nat) : DevOp × DevOut → Option Block
  | (.write b' blk, .ret .kSuccess) => if b' = b then some blk else none
  | _ => none

end DevOp

/-- The content of the most recent successful write to `b`, or the initial one. -/
def latestStored (initial : Nat → Block) (calls : List (DevOp × DevOut)) (b : Nat) : Block :=
  (calls.reverse.findSome? (DevOp.stored b)).getD (initial b)

theorem latestStored_snoc (initial : Nat → Block) (calls : List (DevOp × DevOut))
    (call : DevOp × DevOut) (b : Nat) :
    latestStored initial (calls ++ [call]) b =
      (DevOp.stored b call).getD (latestStored initial calls b) := by
  simp only [latestStored, List.reverse_append, List.reverse_singleton, List.singleton_append,
    List.findSome?_cons]
  cases DevOp.stored b call <;> rfl

/-- Every call of the run is safe in the state it meets. -/
def SafeRun : List DevOp → BlockDevice → Prop
  | [], _ => True
  | op :: ops, dev => op.Typed ∧ op.Safe dev ∧
      ∀ r, op.apply dev = some r → SafeRun ops r.2

theorem safeRun_snoc {ops : List DevOp} {op : DevOp} {dev : BlockDevice}
    (safe : SafeRun (ops ++ [op]) dev) :
    SafeRun ops dev ∧ ∀ r, runOps ops dev = some r → op.Typed ∧ op.Safe r.2 := by
  induction ops generalizing dev with
  | nil =>
    obtain ⟨typed, here, -⟩ := safe
    refine ⟨trivial, fun r eq => ?_⟩
    cases eq
    exact ⟨typed, here⟩
  | cons first ops ih =>
    obtain ⟨typed, here, rest⟩ := safe
    refine ⟨⟨typed, here, fun r eq => (ih (rest r eq)).1⟩, fun r eq => ?_⟩
    cases h : first.apply dev with
    | none => simp [runOps, h] at eq
    | some r₁ =>
      cases h' : runOps ops r₁.2 with
      | none => simp [runOps, h, h'] at eq
      | some r₂ =>
        simp only [runOps, h, h', Option.bind_eq_bind, Option.bind_some, Option.pure_def,
          Option.some.injEq] at eq
        subst eq
        exact (ih (rest r₁ h)).2 r₂ h'

/-- One safe call: it keeps the shape of the cache, stores what it reports to have stored,
and reports every transfer that failed. -/
theorem apply_shape {dev : BlockDevice} {used : Int} (w : Working dev used) {op : DevOp}
    (typed : op.Typed) (safe : op.Safe dev) :
    ∃ out dev' used', op.apply dev = some (out, dev') ∧ Working dev' used' ∧
      (∀ b, dev'.logical b = (DevOp.stored b (op, out)).getD (dev.logical b)) ∧
      (∀ b c, op = .read b → out = .block (some c) → c = dev.logical b) ∧
      (∀ b, op = .sync b → out = .ret .kSuccess → dev'.disk.blocks b = dev.logical b) ∧
      (op = .syncAll → out = .ret .kSuccess → ∀ b, dev'.disk.blocks b = dev.logical b) ∧
      (∀ id, (∃ blk, op = .write id blk) ∨ op = .sync id → Interrupted dev dev' id →
        out = .ret .kFail) := by
  cases op with
  | read b =>
    obtain ⟨blk, dev', used', eq, w', same, -, found, -⟩ := BlockDevice.read_shape w typed safe
    refine ⟨.block blk, dev', used', by simp [DevOp.apply, eq], w', same.logical, ?_, by simp,
      by simp, by simp⟩
    intro b' c isRead isBlock
    cases isRead
    cases isBlock
    exact (found c rfl).1
  | write b blk =>
    obtain ⟨ret, dev', used', eq, w', -, -, -, logical, success, -⟩ :=
      BlockDevice.upsert_shape w typed safe blk
    refine ⟨.ret ret, dev', used', by simp [DevOp.apply, BlockDevice.write, eq], w', fun b' => ?_,
      by simp, by simp, by simp, fun id isWrite interrupted => ?_⟩
    · rw [logical b']
      cases ret with
      | kFail => simp [DevOp.stored]
      | kSuccess =>
        by_cases same : b' = b
        · simp [DevOp.stored, same]
        · simp [DevOp.stored, same, Ne.symm same]
    · -- a transfer that failed is one that did not go through
      obtain rfl : b = id := by simpa using isWrite
      cases ret with
      | kFail => rfl
      | kSuccess =>
        obtain ⟨inRange, through⟩ := success rfl
        exact absurd interrupted (through.not_interrupted inRange)
  | sync b =>
    obtain ⟨ret, dev', eq, w', same, -, -, -, success, -⟩ := BlockDevice.sync_shape w b safe
    refine ⟨.ret ret, dev', used, by simp [DevOp.apply, eq], w', same.logical, by simp, ?_,
      by simp, fun id isSync interrupted => ?_⟩
    · intro b' isSync isOk
      cases isSync
      cases isOk
      exact (success rfl).1
    · obtain rfl : b = id := by simpa using isSync
      cases ret with
      | kFail => rfl
      | kSuccess =>
        obtain ⟨-, inRange, -, through⟩ := success rfl
        exact absurd interrupted (through.not_interrupted inRange)
  | syncAll =>
    obtain ⟨ret, dev', eq, w', same, -, flushed, -⟩ := BlockDevice.syncAll_shape w
    refine ⟨.ret ret, dev', used, by simp [DevOp.apply, eq], w', same.logical, by simp, by simp,
      fun _ isOk => ?_, by simp⟩
    cases isOk
    exact flushed rfl

/-- A run of safe calls leaves a cache of the right shape that holds what was last stored. -/
theorem safeRun_shape {cacheSize : Nat} (capacity : kBlockSize ≤ cacheSize) (disk : RawDisk)
    (ops : List DevOp) (safe : SafeRun ops (.new cacheSize disk)) :
    ∃ outs dev used, runOps ops (.new cacheSize disk) = some (outs, dev) ∧ Working dev used ∧
      outs.length = ops.length ∧
      ∀ b, dev.logical b = latestStored disk.blocks (ops.zip outs) b := by
  induction ops using List.reverseRecOn with
  | nil => exact ⟨[], _, 0, rfl, .init capacity disk, rfl, fun _ => rfl⟩
  | append_singleton ops op ih =>
    obtain ⟨before, last⟩ := safeRun_snoc safe
    obtain ⟨outs, dev, used, eq, w, length, logical⟩ := ih before
    obtain ⟨typed, here⟩ := last _ eq
    obtain ⟨out, dev', used', eq', w', logical', -⟩ := apply_shape w typed here
    refine ⟨outs ++ [out], dev', used', by simp [runOps_snoc, eq, eq'], w', by simp [length],
      fun b => ?_⟩
    rw [logical', logical, List.zip_append length.symm]
    exact (latestStored_snoc _ _ _ _).symm

/-- A failing disk makes no run of safe calls lose or mix up blocks.  For every capacity of
at least one block and every fault schedule, the cache stays coherent and holds what was
last stored; and in every state so reached, a safe call of `write` or `sync` some transfer
of which fails returns `kFail`, changes no content and leaves the cache coherent. -/
theorem device_survives_faults {cacheSize : Nat} {disk : RawDisk}
    (capacity : kBlockSize ≤ cacheSize) (ops : List DevOp)
    (safe : SafeRun ops (.new cacheSize disk)) :
    ∃ outs dev, runOps ops (.new cacheSize disk) = some (outs, dev) ∧ CacheCoherent dev ∧
      (∀ b, dev.logical b = latestStored disk.blocks (ops.zip outs) b) ∧
      ∀ op : DevOp, op.Typed → op.Safe dev →
        ∃ out dev', op.apply dev = some (out, dev') ∧ CacheCoherent dev' ∧
          (∀ b c, op = .read b → out = .block (some c) →
            c = latestStored disk.blocks (ops.zip outs) b) ∧
          (∀ b, op = .sync b → out = .ret .kSuccess →
            dev'.disk.blocks b = latestStored disk.blocks (ops.zip outs) b) ∧
          (op = .syncAll → out = .ret .kSuccess →
            ∀ b, dev'.disk.blocks b = latestStored disk.blocks (ops.zip outs) b) ∧
          (∀ id, (∃ blk, op = .write id blk) ∨ op = .sync id → Interrupted dev dev' id →
            out = .ret .kFail ∧ ∀ b, dev'.logical b = dev.logical b) := by
  obtain ⟨outs, dev, used, eq, w, -, logical⟩ := safeRun_shape capacity disk ops safe
  refine ⟨outs, dev, eq, w.toShape.coherent, logical, fun op typed here => ?_⟩
  obtain ⟨out, dev', used', eq', w', stores, reads, synced, syncedAll, reported⟩ :=
    apply_shape w typed here
  refine ⟨out, dev', eq', w'.toShape.coherent, fun b c isRead isBlock => ?_,
    fun b isSync isOk => ?_, fun isSync isOk b => ?_, fun id isCall interrupted => ?_⟩
  · rw [reads b c isRead isBlock, logical]
  · rw [synced b isSync isOk, logical]
  · rw [syncedAll isSync isOk b, logical]
  · have isFail := reported id isCall interrupted
    refine ⟨isFail, fun b => ?_⟩
    rw [stores b, isFail]
    cases op <;> rfl

/-- `count` zero blocks; transfer number `n` fails, and no other. -/
def flakyDisk (count n : Nat) : RawDisk :=
  { count, blocks := fun _ => Bytes.zero, faults := fun m => m == n, transfers := 0 }

/-- One slot, and the first fill fails.  The slot it leaves behind is then evicted. -/
theorem device_survives_faults_failedFill :
    ∃ outs dev, runOps [.write 0 (fun _ => 7), .write 1 (fun _ => 3)]
        (.new 4096 (flakyDisk 2 0)) = some (outs, dev) ∧ CacheCoherent dev ∧
      (∀ b, dev.logical b = latestStored (flakyDisk 2 0).blocks
        ([.write 0 (fun _ => 7), .write 1 (fun _ => 3)].zip outs) b) ∧
      ∀ op : DevOp, op.Typed → op.Safe dev →
        ∃ out dev', op.apply dev = some (out, dev') ∧ CacheCoherent dev' ∧
          (∀ b c, op = .read b → out = .block (some c) → c = latestStored (flakyDisk 2 0).blocks
            ([.write 0 (fun _ => 7), .write 1 (fun _ => 3)].zip outs) b) ∧
          (∀ b, op = .sync b → out = .ret .kSuccess →
            dev'.disk.blocks b = latestStored (flakyDisk 2 0).blocks
              ([.write 0 (fun _ => 7), .write 1 (fun _ => 3)].zip outs) b) ∧
          (op = .syncAll → out = .ret .kSuccess →
            ∀ b, dev'.disk.blocks b = latestStored (flakyDisk 2 0).blocks
              ([.write 0 (fun _ => 7), .write 1 (fun _ => 3)].zip outs) b) ∧
          (∀ id, (∃ blk, op = .write id blk) ∨ op = .sync id → Interrupted dev dev' id →
            out = .ret .kFail ∧ ∀ b, dev'.logical b = dev.logical b) := by
  refine device_survives_faults (by decide) _ ⟨Nat.zero_lt_succ _, fun _ => ⟨fun h => absurd h (by decide),
    fun h => absurd h (by decide)⟩, fun r eq => ?_⟩
  obtain rfl := Option.some.inj eq
  exact ⟨Nat.succ_lt_succ (Nat.zero_lt_succ _), fun _ => ⟨fun _ h => absurd h (by decide), fun _ slot h => by cases h⟩,
    fun _ _ => trivial⟩

/-- A `sync` that fails forgets that the block is dirty: block 0 holds sevens, the disk
zeros, and nothing will write it back. -/
theorem sync_fault_forgets :
    ∃ dev dev', runOps [.write 0 (fun _ => 7)] (.new 4096 (flakyDisk 2 1)) =
        some ([.ret .kSuccess], dev) ∧
      DevOp.apply dev (.sync 0) = some (.ret .kFail, dev') ∧ Interrupted dev dev' 0 ∧
      ¬ CacheCoherent dev' := by
  refine ⟨_, _, rfl, rfl, ⟨1, by decide, by decide, .inl rfl⟩, fun coherent => ?_⟩
  obtain ⟨slot, hashed, isDirty⟩ := coherent.kept 0 fun same =>
    absurd (congrFun same 0) (by decide)
  cases hashed
  exact absurd isDirty (by decide)

end Sbfs
