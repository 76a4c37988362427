import Sbfs.InodeReq

/-! # `path_resolver.cpp`

`PATH_CACHE` is defined in every build, so `resolve` is the variant with the cache.  The
cache is a `std::map`: a list of entries in the order of their keys.  An iterator is the
key of its entry; one whose entry has been erased is `dangling`. -/

namespace Sbfs

/-- The character `/`. -/
def slash : UInt8 := 47

/-! ## Strings -/

/-- `removeEndSlash`. -/
def removeEndSlash (path : Name) : Name :=
  if path.getLast? = some slash then path.dropLast else path

/-- The loop of `split`: `prev` lies before `start`, `cur` between `start` and the place
that the search has reached. -/
def splitFrom (reservePrev : Bool) (prev cur : Name) : Name → List Name
  | [] => [if reservePrev then prev ++ cur else cur]
  | c :: rest =>
    if c = slash then
      (if reservePrev then prev ++ cur else cur) ::
        splitFrom reservePrev (prev ++ cur ++ [c]) [] rest
    else splitFrom reservePrev prev (cur ++ [c]) rest

/-- `split` at `/`: the parts, or with `reserve_prev` the prefixes that end with a part. -/
def split (s : Name) (reservePrev : Bool) : List Name := splitFrom reservePrev [] [] s

/-! ## The cache -/

structure PathCacheValue where
  inode : Position
  visited : Bool
deriving Repr, DecidableEq

abbrev PathCache := List (Name × PathCacheValue)

namespace PathCache

variable (cache : PathCache) (key : Name)

def lookup : Option PathCacheValue := (cache.find? (·.1 = key)).map (·.2)

def setVisited (visited : Bool) : PathCache :=
  cache.map fun e => if e.1 = key then (e.1, { e.2 with visited }) else e

/-- `path_cache_[key] = val`. -/
def insert (val : PathCacheValue) : PathCache → PathCache
  | [] => [(key, val)]
  | e :: cache =>
    if key < e.1 then (key, val) :: e :: cache
    else if key = e.1 then (key, val) :: cache
    else e :: insert val cache

def erase : PathCache := cache.filter (·.1 ≠ key)

/-- The key that follows, if there is one. -/
def succ : Option Name := (cache.find? (key < ·.1)).map (·.1)

/-- `next`: the key that follows, and after the last one the first. -/
def next : Name := (cache.succ key).getD ((cache.head?.map (·.1)).getD [])

theorem countP_setVisited_lt (found : (cache.lookup key).any (·.visited) = true) :
    (cache.setVisited key false).countP (·.2.visited) < cache.countP (·.2.visited) := by
  induction cache with
  | nil => cases found
  | cons e cache ih =>
    have tail : (setVisited cache key false).countP (·.2.visited) ≤ cache.countP (·.2.visited) := by
      rw [setVisited, List.countP_map]
      refine List.countP_mono_left fun x _ visited => ?_
      simp only [Function.comp_apply] at visited
      split at visited
      · cases visited
      · exact visited
    simp only [setVisited, List.map_cons, List.countP_cons] at *
    by_cases same : e.1 = key
    · simp only [lookup, List.find?_cons, same, decide_true, Option.map_some, Option.any_some]
        at found
      simp only [same, if_true, found, Bool.false_eq_true, if_false]
      omega
    · have rest : (lookup cache key).any (·.visited) = true := by
        simpa only [lookup, List.find?_cons, same, decide_false, Bool.false_eq_true, if_false] using found
      have := ih rest
      simp only [same, if_false]
      omega

/-- The inner loop of `evict`: pass over the visited entries and clear their flags. -/
def sweep (cache : PathCache) (key : Name) : PathCache × Name :=
  if (cache.lookup key).any (·.visited) then sweep (cache.setVisited key false) (cache.next key)
  else (cache, key)
termination_by cache.countP (·.2.visited)
decreasing_by exact cache.countP_setVisited_lt key ‹_›

theorem keys_setVisited (visited : Bool) :
    (cache.setVisited key visited).map (·.1) = cache.map (·.1) := by
  rw [setVisited, List.map_map]
  refine List.map_congr_left fun e _ => ?_
  simp only [Function.comp_apply]
  split <;> rfl

theorem next_mem {key : Name} (present : key ∈ cache.map (·.1)) : cache.next key ∈ cache.map (·.1) := by
  rw [next, succ]
  cases found : cache.find? (key < ·.1) with
  | some e => exact List.mem_map_of_mem (List.mem_of_find?_eq_some found)
  | none =>
    cases cache with
    | nil => cases present
    | cons e cache => exact List.mem_cons_self

theorem keys_sweep : (cache.sweep key).1.map (·.1) = cache.map (·.1) := by
  fun_induction sweep cache key with
  | case1 cache key _ ih => rw [ih, keys_setVisited]
  | case2 => rfl

theorem sweep_mem {key : Name} (present : key ∈ cache.map (·.1)) :
    (cache.sweep key).2 ∈ cache.map (·.1) := by
  fun_induction sweep cache key with
  | case1 cache key _ ih =>
    rw [keys_setVisited] at ih
    exact ih (cache.next_mem present)
  | case2 => exact present

theorem length_erase_lt {key : Name} (present : key ∈ cache.map (·.1)) :
    (cache.erase key).length < cache.length := by
  obtain ⟨e, member, rfl⟩ := List.mem_map.mp present
  exact List.length_filter_lt_length_iff_exists.mpr ⟨e, member, by simp⟩

/-- A round of `evict` leaves fewer entries. -/
theorem length_round_lt {key : Name} (present : key ∈ cache.map (·.1)) :
    ((cache.sweep key).1.erase (cache.sweep key).2).length < cache.length := by
  have there := cache.sweep_mem present
  rw [← cache.keys_sweep key] at there
  have shorter := length_erase_lt _ there
  have same := congrArg List.length (cache.keys_sweep key)
  rw [List.length_map, List.length_map] at same
  exact Nat.lt_of_lt_of_eq shorter same

end PathCache

inductive ClockIter where
  | pastEnd
  | entry (key : Name)
  | dangling
deriving Repr, DecidableEq

structure PathResolver where
  pathCache : PathCache
  clockIter : ClockIter
  curCacheSize : Nat
  maxCacheSize : Nat

/-- The bytes that an entry counts for: those of the key, `sizeof(path_cache_key_t)` and
`sizeof(path_cache_val_t)`. -/
def entrySize (key : Name) : Nat := key.length + 32 + 24

namespace PathResolver

/-- The constructor. -/
def new (pathCacheSize : Nat) : PathResolver := ⟨[], .pastEnd, 0, pathCacheSize⟩

/-! ### Eviction -/

/-- The entry at which a round of `evict` starts; `none` stands for the use of an iterator
that points nowhere. -/
def clockKey (r : PathResolver) : Option Name :=
  match r.clockIter with
  | .pastEnd => r.pathCache.head?.map (·.1)
  | .entry key => if key ∈ r.pathCache.map (·.1) then some key else none
  | .dangling => none

theorem clockKey_mem {r : PathResolver} {key : Name} (at_key : r.clockKey = some key) :
    key ∈ r.pathCache.map (·.1) := by
  rw [clockKey] at at_key
  split at at_key
  · cases first : r.pathCache with
    | nil => simp [first] at at_key
    | cons e cache =>
      simp only [first, List.head?_cons, Option.map_some, Option.some.injEq] at at_key
      simp [at_key]
  · split at at_key
    · rename_i present
      cases at_key
      exact present
    · cases at_key
  · cases at_key

/-- The outer loop of `evict`; `erase` moves the iterator to the entry that follows. -/
def evictFrom (size curSize : Nat) (r : PathResolver) : Option PathResolver :=
  if curSize < size ∧ r.pathCache ≠ [] then
    match _ : r.clockKey with
    | none => none
    | some key =>
      let swept := r.pathCache.sweep key
      evictFrom size ((curSize + entrySize swept.2) % 18446744073709551616)
        { r with
          pathCache := swept.1.erase swept.2
          clockIter := (swept.1.succ swept.2).elim .pastEnd .entry }
  else some { r with curCacheSize := curSize }
termination_by r.pathCache.length
decreasing_by exact PathCache.length_round_lt _ (clockKey_mem ‹_›)

/-- `evict`. -/
def evict (r : PathResolver) (size : Nat) : Option PathResolver := r.evictFrom size 0

/-- The end of a round of `resolve`: evict what is too much for the cache and insert the
entry.  The difference is unsigned. -/
def remember (r : PathResolver) (key : Name) (inode : Position) : Option PathResolver :=
  let sizeToEvict := (((r.curCacheSize : Int) + entrySize key - r.maxCacheSize) %
    18446744073709551616).toNat
  let evicted := if 0 < sizeToEvict then r.evict sizeToEvict else some r
  evicted.map fun r => { r with pathCache := r.pathCache.insert key ⟨inode, true⟩ }

/-! ### Resolution -/

/-- The loop of `resolve` over the cache, at prefix `i`: prefixes that are found are marked,
and the last of them is where the walk starts. -/
def lookupPrefixes (r : PathResolver) (curInode : Position) (curPathIndex i : Nat) :
    List Name → Position × Nat × PathResolver
  | [] => (curInode, curPathIndex, r)
  | key :: keys =>
    match r.pathCache.lookup key with
    | some val =>
      lookupPrefixes { r with pathCache := r.pathCache.setVisited key true } val.inode (i + 1) (i + 1)
        keys
    | none => lookupPrefixes r curInode curPathIndex (i + 1) keys

/-- The loop of `resolve` over the parts that are left, each with its key. -/
def walk (r : PathResolver) (curInode : Position) :
    List (Name × Name) → VfsProg (Position × PathResolver)
  | [] => return (curInode, r)
  | (part, key) :: rest => do
    match ← VfsProg.find curInode part with
    | none => return (.invalid, r)
    | some nextInode =>
      match r.remember key nextInode with
      | none => undefined
      | some r => walk r nextInode rest

/-- `resolve`, for a file system with the given root. -/
def resolve (r : PathResolver) (root : Position) (path : Name) :
    VfsProg (Position × PathResolver) :=
  if path.head? ≠ some slash then return (.invalid, r)
  else if path = [slash] then return (root, r)
  else
    let pathNoBothSlash := (removeEndSlash path).drop 1
    let pathVec := split pathNoBothSlash false
    let cacheVec := split pathNoBothSlash true
    let (curInode, curPathIndex, r) := r.lookupPrefixes root 0 0 cacheVec
    walk r curInode ((pathVec.zip cacheVec).drop curPathIndex)

/-- The loop of `resolveNoCache`. -/
def walkNoCache (curInode : Position) : List Name → VfsProg Position
  | [] => return curInode
  | part :: rest => do
    match ← VfsProg.find curInode part with
    | none => return .invalid
    | some nextInode => walkNoCache nextInode rest

/-- `resolveNoCache`. -/
def resolveNoCache (root : Position) (path : Name) : VfsProg Position :=
  if path.head? ≠ some slash then return .invalid
  else if path = [slash] then return root
  else walkNoCache root (split ((removeEndSlash path).drop 1) false)

/-! ### Invalidation -/

/-- `removePrefix`; `substr(1)` of an empty string throws. -/
def removePrefix (r : PathResolver) (pre : Name) : Option PathResolver :=
  if removeEndSlash pre = [] then none
  else
    let start := (removeEndSlash pre).drop 1
    let before := r.pathCache.takeWhile (·.1 < start)
    let after := (r.pathCache.dropWhile (·.1 < start)).filter fun e => !start.isPrefixOf e.1
    some { r with
      pathCache := before ++ after
      clockIter := match r.clockIter with
        | .entry key => if key ∈ (before ++ after).map (·.1) then .entry key else .dangling
        | clock => clock }

end PathResolver

end Sbfs
