import Sbfs.PathCacheRuns

/-! # The path cache of the configured size

For keys below 16 MiB the difference that `resolve` forms before it caches an inode is
negative in a cache of `kPathCacheSize` bytes.  As an unsigned number it is almost 2^64, so
`evict` takes out all that is there before each insertion: the cache holds one entry at most,
`clock_iter_` is always at the end, and no call leaves it dangling (`Called.clockOk`). -/

namespace Sbfs

open ReqProg

/-- A path, or a key, that counts for less than half of the cache. -/
def ShortPath (path : Name) : Prop := 2 * entrySize path < kPathCacheSize

theorem ShortPath.of_length_le {key path : Name} (short : ShortPath path) (le : key.length ≤ path.length) :
    ShortPath key := by
  simp only [ShortPath, entrySize] at *
  omega

/-- What every call on short paths keeps. -/
structure PathResolver.Single (r : PathResolver) : Prop where
  max : r.maxCacheSize = kPathCacheSize
  clock : r.clockIter = .pastEnd
  one : r.pathCache.length ≤ 1
  short : ∀ e ∈ r.pathCache, ShortPath e.1
  counter : 2 * r.curCacheSize < kPathCacheSize

theorem PathResolver.single_new : (PathResolver.new kPathCacheSize).Single :=
  ⟨rfl, rfl, by decide, fun _ none => (by cases none), by decide⟩

namespace PathResolver.Single

variable {r r' : PathResolver}

theorem clockOk (single : r.Single) : r.ClockOk := by
  rw [ClockOk, single.clock]
  trivial

theorem setVisited (single : r.Single) (key : Name) (visited : Bool) :
    Single { r with pathCache := r.pathCache.setVisited key visited } := by
  refine ⟨single.max, single.clock, ?_, fun e member => ?_, single.counter⟩
  · rw [PathCache.setVisited, List.length_map]
    exact single.one
  · have listed : e.1 ∈ (r.pathCache.setVisited key visited).map (·.1) := List.mem_map_of_mem member
    rw [PathCache.keys_setVisited] at listed
    obtain ⟨old, there, same⟩ := List.mem_map.mp listed
    exact same ▸ single.short old there

/-- `evict` of as many bytes as the cache may hold takes out all. -/
theorem evict_all (single : r.Single) {size : Nat} (large : kPathCacheSize ≤ size) :
    ∃ cur, 2 * cur < kPathCacheSize ∧ r.evict size = some { r with pathCache := [], curCacheSize := cur } := by
  cases cache : r.pathCache with
  | nil =>
    refine ⟨0, by decide, ?_⟩
    rw [PathResolver.evict, evictFrom_empty cache]
    simp only [← cache]
  | cons e rest =>
    -- there is one entry, and the clock is on it
    have alone : rest = [] := by
      have one := single.one
      rw [cache, List.length_cons] at one
      exact List.length_eq_zero_iff.mp (by omega)
    subst alone
    have short := single.short e (cache ▸ List.mem_cons_self)
    have clock : r.clockKey = some e.1 := by
      rw [clockKey, single.clock, cache]
      rfl
    cases sweeps : r.pathCache.sweep e.1 with
    | mk swept victim =>
      have keys := r.pathCache.keys_sweep e.1
      rw [sweeps, cache, List.map_singleton] at keys
      -- the sweep comes back to it, visited or not
      have same : victim = e.1 := by
        have present : e.1 ∈ r.pathCache.map (·.1) := by
          rw [cache]
          exact List.mem_singleton_self _
        have there := r.pathCache.sweep_mem present
        rw [sweeps, cache] at there
        exact List.mem_singleton.mp there
      have only : ∀ x ∈ swept, x.1 = e.1 := fun x member =>
        List.mem_singleton.mp (keys ▸ List.mem_map_of_mem member)
      have erased : swept.erase victim = [] :=
        List.filter_eq_nil_iff.mpr fun x member => by simp [only x member, same]
      have ended : swept.succ victim = none := by
        rw [PathCache.succ, List.find?_eq_none.mpr fun x member => by simp [only x member, same]]
        rfl
      refine ⟨entrySize e.1, short, ?_⟩
      -- the path is short, so that the count does not wrap
      have fits : entrySize e.1 % 18446744073709551616 = entrySize e.1 := by
        rw [ShortPath, kPathCacheSize, MB] at short
        omega
      rw [PathResolver.evict, evictFrom_round (Nat.lt_of_lt_of_le (by decide) large) clock sweeps,
        evictFrom_empty erased, erased, ended, same, Nat.zero_add, fits]
      simp only [Option.elim_none, ← single.clock]

/-- The new entry is the only one. -/
theorem remember (single : r.Single) {key : Name} (short : ShortPath key) (inode : Position) :
    ∃ r', r.remember key inode = some r' ∧ r'.Single := by
  have counter := single.counter
  have small := short
  rw [ShortPath, kPathCacheSize, MB] at small
  rw [kPathCacheSize, MB] at counter
  have large : kPathCacheSize ≤
      (((r.curCacheSize : Int) + entrySize key - r.maxCacheSize) % 18446744073709551616).toNat := by
    rw [single.max, kPathCacheSize, MB]
    omega
  obtain ⟨cur, low, evicted⟩ := single.evict_all large
  refine ⟨{ r with pathCache := [(key, ⟨inode, true⟩)], curCacheSize := cur }, ?_, single.max, single.clock,
    Nat.le_refl 1, fun e member => ?_, low⟩
  · rw [PathResolver.remember]
    simp only [Nat.lt_of_lt_of_le (show 0 < kPathCacheSize by decide) large, if_true, evicted, Option.map_some,
      PathCache.insert]
  · rw [List.mem_singleton.mp member]
    exact short

theorem removePrefix (single : r.Single) {pre : Name} (removed : r.removePrefix pre = some r') : r'.Single := by
  rw [PathResolver.removePrefix] at removed
  split at removed
  · cases removed
  · cases removed
    generalize (removeEndSlash pre).drop 1 = start
    have kept : (r.pathCache.takeWhile (fun e => decide (e.1 < start)) ++
        (r.pathCache.dropWhile fun e => decide (e.1 < start)).filter fun e => !start.isPrefixOf e.1).Sublist
        r.pathCache := by
      conv_rhs => rw [← List.takeWhile_append_dropWhile (p := fun e : Name × PathCacheValue => decide (e.1 < start))
        (l := r.pathCache)]
      exact (List.Sublist.refl _).append List.filter_sublist
    exact ⟨single.max, by simp only [single.clock], kept.length_le.trans single.one,
      fun e member => single.short e (kept.subset member), single.counter⟩

end PathResolver.Single

/-! ## Calls -/

section

variable {τ : Type} {S : Service InodeReq InodeReq.Ans τ} {t : τ} {r : PathResolver} {v : Vfs} {path : Name}

theorem PathResolver.Single.lookupPrefixes (single : r.Single) (cur : Position) (idx i : Nat) (keys : List Name) :
    (r.lookupPrefixes cur idx i keys).2.2.Single := by
  induction keys generalizing r cur idx i with
  | nil => exact single
  | cons key keys ih =>
    rw [PathResolver.lookupPrefixes]
    cases r.pathCache.lookup key with
    | none => exact ih single _ _ _
    | some val => exact ih (single.setVisited key true) _ _ _

theorem PathResolver.Single.walk (single : r.Single) {rest : List (Name × Name)}
    (short : ∀ p ∈ rest, ShortPath p.2) (cur : Position) :
    (r.walk cur rest).Ensures S (fun a _ => a.2.Single) t := by
  induction rest generalizing r cur t with
  | nil => exact single
  | cons part rest ih =>
    rw [PathResolver.walk, VfsProg.find, ensures_bind, ensures_call]
    intro answer u _
    cases answer with
    | none => exact single
    | some next =>
      obtain ⟨r₁, remembered, single₁⟩ := single.remember (short part List.mem_cons_self) next
      simp only [remembered]
      exact ih single₁ (fun p member => short p (List.mem_cons_of_mem _ member)) next

/-- The keys of a path are no longer than the path. -/
theorem length_le_of_mem_splitFrom {prev cur s key : Name} (member : key ∈ splitFrom true prev cur s) :
    key.length ≤ prev.length + cur.length + s.length := by
  induction s generalizing prev cur with
  | nil =>
    rw [splitFrom, List.mem_singleton] at member
    rw [member, if_pos rfl, List.length_append, List.length_nil]
    exact Nat.le_refl _
  | cons c rest ih =>
    rw [splitFrom] at member
    split at member
    · cases List.mem_cons.mp member with
      | inl here =>
        rw [here, if_pos rfl, List.length_append]
        omega
      | inr later =>
        have := ih later
        simp only [List.length_append, List.length_cons, List.length_nil] at this ⊢
        omega
    · have := ih member
      simp only [List.length_append, List.length_cons, List.length_nil] at this ⊢
      omega

theorem length_removeEndSlash_le (path : Name) : (removeEndSlash path).length ≤ path.length := by
  rw [removeEndSlash]
  split
  · rw [List.length_dropLast]
    omega
  · exact Nat.le_refl _

theorem PathResolver.Single.resolve (single : r.Single) (root : Position) (short : ShortPath path) :
    (r.resolve root path).Ensures S (fun a _ => a.2.Single) t := by
  rw [PathResolver.resolve]
  split
  · exact single
  · split
    · exact single
    · refine (single.lookupPrefixes _ _ _ _).walk (fun p member => short.of_length_le ?_) _
      have key := (List.of_mem_zip (List.mem_of_mem_drop member)).2
      have whole := length_le_of_mem_splitFrom key
      have stripped := length_removeEndSlash_le path
      simp only [List.length_nil, List.length_drop] at whole
      omega

theorem Vfs.resolve_single (single : v.pathResolver.Single) (short : ShortPath path) :
    (v.resolve path).Ensures S (fun a _ => a.2.pathResolver.Single) t := by
  rw [Vfs.resolve, ensures_bind]
  exact (single.resolve _ short).mono fun _ _ => id

theorem Vfs.removePrefix_single (single : v.pathResolver.Single) (pre : Name) :
    (v.removePrefix pre).Ensures S (fun v' _ => v'.pathResolver.Single) t := by
  rw [Vfs.removePrefix]
  cases removed : v.pathResolver.removePrefix pre with
  | none => exact ensures_undefined _ _ _
  | some r => exact single.removePrefix removed

theorem ShortPath.parent (short : ShortPath path) : ShortPath (splitFromLastSlash path).1 :=
  short.of_length_le (by rw [splitFromLastSlash, List.length_take]; exact Nat.min_le_right _ _)

theorem Vfs.sbMkdir_single (single : v.pathResolver.Single) (short : ShortPath path) (mode : UInt16) :
    (v.sbMkdir path mode).Ensures S (fun a _ => a.2.pathResolver.Single) t := by
  rw [Vfs.sbMkdir, ensures_bind]
  refine (resolve_single single short.parent).mono ?_
  rintro ⟨x, v₁⟩ u single₁
  dsimp only at single₁ ⊢
  split
  · exact single₁
  · rw [ensures_bind, VfsProg.create, ensures_call]
    exact fun _ _ _ => single₁

theorem Vfs.sbCreate_single (single : v.pathResolver.Single) (short : ShortPath path) (mode : UInt16) :
    (v.sbCreate path mode).Ensures S (fun a _ => a.2.2.pathResolver.Single) t := by
  rw [Vfs.sbCreate, ensures_bind]
  refine (resolve_single single short.parent).mono ?_
  rintro ⟨x, v₁⟩ u single₁
  dsimp only at single₁ ⊢
  split
  · exact single₁
  · rw [ensures_bind, VfsProg.create, ensures_call]
    exact fun _ _ _ => single₁

/-- The end of `sb_unlink` and `sb_rmdir`. -/
theorem Vfs.removeThen_single (single : v.pathResolver.Single) (dir : Position) (name pre : Name) :
    (do let _ ← VfsProg.remove dir name
        return ((0 : Int), ← v.removePrefix pre) : VfsProg (Int × Vfs)).Ensures S
      (fun a _ => a.2.pathResolver.Single) t := by
  rw [ensures_bind, VfsProg.remove, ensures_call]
  intro _ _ _
  rw [ensures_bind]
  exact removePrefix_single single pre

theorem Vfs.sbUnlink_single (single : v.pathResolver.Single) (short : ShortPath path) :
    (v.sbUnlink path).Ensures S (fun a _ => a.2.pathResolver.Single) t := by
  rw [Vfs.sbUnlink, ensures_bind]
  refine (resolve_single single short.parent).mono ?_
  rintro ⟨x, v₁⟩ u single₁
  dsimp only at single₁ ⊢
  split
  · exact single₁
  · rw [ensures_bind, VfsProg.find, ensures_call]
    intro found u' _
    cases found with
    | none => exact single₁
    | some inode => exact removeThen_single single₁ _ _ _

theorem Vfs.sbRmdir_single (single : v.pathResolver.Single) (short : ShortPath path) :
    (v.sbRmdir path).Ensures S (fun a _ => a.2.pathResolver.Single) t := by
  rw [Vfs.sbRmdir, ensures_bind]
  refine (resolve_single single short.parent).mono ?_
  rintro ⟨x, v₁⟩ u single₁
  dsimp only at single₁ ⊢
  split
  · exact single₁
  · rw [ensures_bind, VfsProg.find, ensures_call]
    intro found u' _
    cases found with
    | none => exact single₁
    | some inode =>
      rw [ensures_bind, VfsProg.checkEmpty, ensures_call]
      intro ret u'' _
      split
      · exact single₁
      · exact removeThen_single single₁ _ _ _

theorem Vfs.sbRename_single (single : v.pathResolver.Single) {newPath : Name} (short : ShortPath path)
    (short' : ShortPath newPath) (flags : Nat) :
    (v.sbRename path newPath flags).Ensures S (fun a _ => a.2.pathResolver.Single) t := by
  rw [Vfs.sbRename, ensures_bind]
  refine (resolve_single single short.parent).mono ?_
  rintro ⟨x, v₁⟩ u single₁
  dsimp only at single₁ ⊢
  split
  · exact single₁
  · rw [ensures_bind]
    refine (resolve_single single₁ short'.parent).mono ?_
    rintro ⟨x', v₂⟩ u' single₂
    dsimp only at single₂ ⊢
    rw [ensures_bind, VfsProg.unlink, ensures_call]
    rintro ⟨ret, inode⟩ u'' _
    cases ret with
    | kFail => exact single₂
    | kSuccess =>
      -- the steps in between do not look at the cache
      have last : ∀ w, (do
          let v ← v₂.removePrefix path
          let v ← v.removePrefix newPath
          return ((0 : Int), v) : VfsProg (Int × Vfs)).Ensures S (fun a _ => a.2.pathResolver.Single) w := by
        intro w
        rw [ensures_bind]
        refine (removePrefix_single single₂ path).mono fun v₃ w₃ single₃ => ?_
        rw [ensures_bind]
        exact (removePrefix_single single₃ newPath).mono fun _ _ => id
      have any : ∀ {p : VfsProg Unit} {w}, p.Ensures S (fun _ _ => True) w :=
        ensures_iff_runs.mpr fun _ _ _ => trivial
      simp only
      split
      · rw [ensures_bind]
        refine any.mono fun _ w _ => ?_
        rw [ensures_bind]
        exact any.mono fun _ w _ => last w
      · rw [ensures_bind]
        exact any.mono fun _ w _ => last w

/-- The paths of a call are short. -/
def Call.Short : Call → Prop
  | create path _ => ShortPath path
  | mkdir path _ => ShortPath path
  | unlink path => ShortPath path
  | rmdir path => ShortPath path
  | rename oldPath newPath _ => ShortPath oldPath ∧ ShortPath newPath
  | resolve path => ShortPath path

theorem Call.body_single (single : v.pathResolver.Single) {call : Call} (short : call.Short) :
    (call.body v).Ensures S (fun v' _ => v'.pathResolver.Single) t := by
  cases call with
  | create path mode =>
    rw [body, ensures_bind]
    exact v.sbCreate_single single short mode
  | mkdir path mode =>
    rw [body, ensures_bind]
    exact v.sbMkdir_single single short mode
  | unlink path =>
    rw [body, ensures_bind]
    exact v.sbUnlink_single single short
  | rmdir path =>
    rw [body, ensures_bind]
    exact v.sbRmdir_single single short
  | rename oldPath newPath flags =>
    rw [body, ensures_bind]
    exact v.sbRename_single single short.1 short.2 flags
  | resolve path =>
    rw [body, ensures_bind]
    exact v.resolve_single single short

end

/-- The states that calls on short paths lead to, when nothing else touches the cache. -/
inductive Called (v₀ : Vfs) (ns₀ : Namespace) : Vfs → Namespace → Prop
  | start : Called v₀ ns₀ v₀ ns₀
  | step {v v' : Vfs} {ns ns' : Namespace} {call : Call} (before : Called v₀ ns₀ v ns)
      (allowed : call.Allowed ns) (short : call.Short) (runs : Runs Namespace.service (call.body v) ns v' ns') :
      Called v₀ ns₀ v' ns'

section

variable {v₀ v : Vfs} {ns₀ ns : Namespace}

theorem Called.single (start : v₀.pathResolver.Single) (called : Called v₀ ns₀ v ns) : v.pathResolver.Single := by
  induction called with
  | start => exact start
  | step _ _ short runs ih => exact ensures_iff_runs.mp (Call.body_single ih short) _ _ runs

theorem Called.clockOk (fresh : v₀.pathResolver = .new kPathCacheSize) (called : Called v₀ ns₀ v ns) :
    v.pathResolver.ClockOk :=
  (called.single (fresh ▸ PathResolver.single_new)).clockOk

end

end Sbfs
