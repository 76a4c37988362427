import Sbfs.PathCacheRuns
import Sbfs.Lib.Clock

/-! # Second chances

`evict` is a run of the second-chance queue: the entries in the order in which the clock
meets them are the queue, and the map with the hand in it is the same list split at the hand
(`Ring`).  What holds of the queue then holds of the cache (`evict_second_chance`). -/

namespace Sbfs

namespace PathCache

/-- The entries of a `std::map`, in the order of their keys. -/
def Sorted (cache : PathCache) : Prop := (cache.map (·.1)).Pairwise (· < ·)

/-- An entry that the clock passes over. -/
def Visited (e : Name × PathCacheValue) : Prop := e.2.visited = true

def unvisit (e : Name × PathCacheValue) : Name × PathCacheValue := (e.1, { e.2 with visited := false })

variable {cache pre post : PathCache} {e : Name × PathCacheValue} {key : Name}

theorem Sorted.distinct (sorted : cache.Sorted) : (cache.map (·.1)).Nodup :=
  List.Pairwise.imp (fun {a b} (less : a < b) (same : a = b) => List.lt_irrefl b (same ▸ less)) sorted

theorem Sorted.sublist {other : PathCache} (sorted : cache.Sorted) (sub : other.Sublist cache) :
    other.Sorted := List.Pairwise.sublist (sub.map _) sorted

theorem Sorted.setVisited (sorted : cache.Sorted) (key : Name) (visited : Bool) :
    (cache.setVisited key visited).Sorted := by
  rw [Sorted, keys_setVisited]
  exact sorted

theorem Sorted.before (sorted : Sorted (pre ++ e :: post)) : ∀ x ∈ pre, x.1 < e.1 := by
  rw [Sorted, List.map_append, List.pairwise_append] at sorted
  exact fun x member => sorted.2.2 _ (List.mem_map_of_mem member) _ List.mem_cons_self

theorem Sorted.behind (sorted : Sorted (pre ++ e :: post)) : ∀ x ∈ post, e.1 < x.1 := by
  rw [Sorted, List.map_append, List.pairwise_append, List.map_cons, List.pairwise_cons] at sorted
  exact fun x member => sorted.2.1.1 _ (List.mem_map_of_mem member)

/-- No other entry has the key. -/
theorem Sorted.others (sorted : Sorted (pre ++ e :: post)) :
    (∀ x ∈ pre, x.1 ≠ e.1) ∧ ∀ x ∈ post, x.1 ≠ e.1 :=
  ⟨fun x member same => List.lt_irrefl _ (same ▸ sorted.before x member),
    fun x member same => List.lt_irrefl _ (same ▸ sorted.behind x member)⟩

theorem lookup_split (sorted : Sorted (pre ++ e :: post)) : lookup (pre ++ e :: post) e.1 = some e.2 := by
  have skip : pre.find? (·.1 = e.1) = none :=
    List.find?_eq_none.mpr fun x member => by simpa using sorted.others.1 x member
  simp [lookup, List.find?_append, skip]

theorem setVisited_split (sorted : Sorted (pre ++ e :: post)) :
    setVisited (pre ++ e :: post) e.1 false = pre ++ unvisit e :: post := by
  have same : ∀ part : PathCache, (∀ x ∈ part, x.1 ≠ e.1) →
      part.map (fun x => if x.1 = e.1 then (x.1, { x.2 with visited := false }) else x) = part :=
    fun part others => (List.map_congr_left fun x member => if_neg (others x member)).trans (List.map_id' part)
  rw [setVisited, List.map_append, List.map_cons, same _ sorted.others.1, same _ sorted.others.2, if_pos rfl]
  rfl

theorem erase_split (sorted : Sorted (pre ++ e :: post)) : erase (pre ++ e :: post) e.1 = pre ++ post := by
  have same : ∀ part : PathCache, (∀ x ∈ part, x.1 ≠ e.1) → part.filter (·.1 ≠ e.1) = part :=
    fun part others => List.filter_eq_self.mpr fun x member => decide_eq_true (others x member)
  rw [erase, List.filter_append, List.filter_cons_of_neg (by simp), same _ sorted.others.1,
    same _ sorted.others.2]

theorem succ_split (sorted : Sorted (pre ++ e :: post)) :
    succ (pre ++ e :: post) e.1 = post.head?.map (·.1) := by
  have skip : pre.find? (e.1 < ·.1) = none := List.find?_eq_none.mpr fun x member passed =>
    List.lt_asymm (sorted.before x member) (of_decide_eq_true passed)
  have here : ¬ e.1 < e.1 := List.lt_irrefl _
  rw [succ, List.find?_append, skip, Option.none_or, List.find?_cons, decide_eq_false here]
  cases post with
  | nil => rfl
  | cons x post =>
    have less := sorted.behind x List.mem_cons_self
    rw [List.find?_cons, decide_eq_true less]
    rfl

/-- One round of the inner loop of `evict`: the entry at the hand goes to the back. -/
theorem pass_split (sorted : Sorted (pre ++ e :: post)) : ∃ pre' e' post',
    setVisited (pre ++ e :: post) e.1 false = pre' ++ e' :: post' ∧
    next (pre ++ e :: post) e.1 = e'.1 ∧ e' :: post' ++ pre' = post ++ pre ++ [unvisit e] := by
  rw [setVisited_split sorted, next, succ_split sorted]
  cases post with
  | cons x post => exact ⟨pre ++ [unvisit e], x, post, by simp, rfl, by simp⟩
  | nil =>
    -- the hand goes round, to the entry itself if there is no other
    cases pre with
    | nil => exact ⟨[], unvisit e, [], rfl, rfl, rfl⟩
    | cons x pre => exact ⟨[], x, pre ++ [unvisit e], rfl, rfl, by simp⟩

theorem mem_insert {k : Name} {val : PathCacheValue} (member : k ∈ (cache.insert key val).map (·.1)) :
    k = key ∨ k ∈ cache.map (·.1) := by
  induction cache with
  | nil => exact .inl (List.mem_singleton.mp member)
  | cons e cache ih =>
    rw [PathCache.insert] at member
    split at member
    · exact List.mem_cons.mp member
    · split at member
      · exact (List.mem_cons.mp member).imp_right fun later => List.mem_cons_of_mem _ later
      · cases member with
        | head => exact .inr List.mem_cons_self
        | tail _ later => exact (ih later).imp_right fun later => List.mem_cons_of_mem _ later

theorem Sorted.insert (sorted : cache.Sorted) (key : Name) (val : PathCacheValue) :
    (cache.insert key val).Sorted := by
  induction cache with
  | nil => exact List.pairwise_singleton _ _
  | cons e cache ih =>
    have behind := (List.pairwise_cons.mp sorted).1
    have tail : Sorted cache := (List.pairwise_cons.mp sorted).2
    rw [PathCache.insert]
    split
    · rename_i less
      refine List.pairwise_cons.mpr ⟨fun k member => ?_, sorted⟩
      cases member with
      | head => exact less
      | tail _ later => exact List.lt_trans less (behind k later)
    · split
      · rename_i same
        exact same ▸ sorted
      · rename_i less other
        have greater : e.1 < key := Std.lt_of_le_of_ne less fun same => other same.symm
        refine List.pairwise_cons.mpr ⟨fun k member => ?_, ih tail⟩
        cases mem_insert member with
        | inl new => exact new ▸ greater
        | inr old => exact behind k old

/-- The entries in the order in which the clock meets them. -/
inductive Ring : PathCache → ClockIter → PathCache → Prop
  | pastEnd (cache : PathCache) : Ring cache .pastEnd cache
  | entry (pre : PathCache) (e : Name × PathCacheValue) (post : PathCache) :
      Ring (pre ++ e :: post) (.entry e.1) (e :: post ++ pre)

theorem Ring.perm {clock : ClockIter} {queue : PathCache} (ring : Ring cache clock queue) :
    queue.Perm cache := by
  cases ring with
  | pastEnd => exact .refl _
  | entry pre e post => exact List.perm_append_comm

/-- After an erasure between `pre` and `post`. -/
theorem ring_after (pre post : PathCache) :
    Ring (pre ++ post) ((post.head?.map (·.1)).elim .pastEnd .entry) (post ++ pre) := by
  cases post with
  | nil =>
    rw [List.append_nil]
    exact .pastEnd pre
  | cons e post => exact .entry pre e post

/-- The inner loop of `evict` passes over visited entries until it stands at one that is not. -/
theorem sweep_run (sorted : Sorted (pre ++ e :: post)) :
    ∃ pre' e' post', sweep (pre ++ e :: post) e.1 = (pre' ++ e' :: post', e'.1) ∧
      Sorted (pre' ++ e' :: post') ∧ ¬ Visited e' ∧
      ∀ taken rest, ClockRun Visited unvisit (e' :: post' ++ pre') taken rest →
        ClockRun Visited unvisit (e :: post ++ pre) taken rest := by
  generalize all : pre ++ e :: post = cache at sorted
  generalize at_key : e.1 = key
  fun_induction sweep cache key generalizing pre e post with
  | case1 cache key visited ih =>
    subst all at_key
    have set : Visited e := by
      rw [lookup_split sorted] at visited
      exact visited
    obtain ⟨pre₁, e₁, post₁, split, follows, queue⟩ := pass_split sorted
    obtain ⟨pre', e', post', swept, sorted', unset, runs⟩ :=
      ih split.symm (sorted.setVisited e.1 false) follows.symm
    refine ⟨pre', e', post', swept, sorted', unset, fun taken rest run => .pass set ?_⟩
    exact queue ▸ runs taken rest run
  | case2 cache key still =>
    subst all at_key
    refine ⟨pre, e, post, rfl, sorted, fun set => still ?_, fun taken rest run => run⟩
    rw [lookup_split sorted]
    exact set

end PathCache

namespace PathResolver

open PathCache

/-- The keys that the rounds of `evictFrom` erase, in order. -/
def erased (size curSize : Nat) (r : PathResolver) : List Name :=
  if curSize < size ∧ r.pathCache ≠ [] then
    match _ : r.clockKey with
    | none => []
    | some key =>
      let swept := r.pathCache.sweep key
      swept.2 :: erased size ((curSize + entrySize swept.2) % 18446744073709551616)
        { r with
          pathCache := swept.1.erase swept.2
          clockIter := (swept.1.succ swept.2).elim .pastEnd .entry }
  else []
termination_by r.pathCache.length
decreasing_by exact PathCache.length_round_lt _ (clockKey_mem ‹_›)

/-- The bytes that entries with these keys count for. -/
def accounted (keys : List Name) : Nat := (keys.map entrySize).sum

theorem accounted_cons (key : Name) (keys : List Name) :
    accounted (key :: keys) = entrySize key + accounted keys := by
  rw [accounted, List.map_cons, List.sum_cons]
  rfl

variable {r r' : PathResolver} {size curSize : Nat} {queue : PathCache} {key : Name}

/-- The clock is in the cache, so that it meets all entries. -/
theorem ClockOk.ring (ok : r.ClockOk) : ∃ queue, Ring r.pathCache r.clockIter queue := by
  rw [ClockOk] at ok
  split at ok
  · rename_i clock
    rw [clock]
    exact ⟨_, .pastEnd _⟩
  · rename_i key clock
    obtain ⟨e, member, rfl⟩ := List.mem_map.mp ok
    obtain ⟨pre, post, split⟩ := List.append_of_mem member
    rw [clock, split]
    exact ⟨_, .entry pre e post⟩
  · exact ok.elim

theorem clockKey_split (ring : Ring r.pathCache r.clockIter queue) (at_key : r.clockKey = some key) :
    ∃ pre e post, r.pathCache = pre ++ e :: post ∧ e.1 = key ∧ queue = e :: post ++ pre := by
  generalize held : r.pathCache = cache at ring
  generalize clock : r.clockIter = iter at ring
  rw [clockKey, held, clock] at at_key
  cases ring with
  | pastEnd =>
    cases queue with
    | nil => cases at_key
    | cons e cache => exact ⟨[], e, cache, rfl, Option.some.inj at_key, (List.append_nil _).symm⟩
  | entry pre e post =>
    have present : e.1 ∈ (pre ++ e :: post).map (·.1) := List.mem_map_of_mem (by simp)
    simp only [if_pos present] at at_key
    exact ⟨pre, e, post, rfl, Option.some.inj at_key, rfl⟩

theorem clockOk_of_ring (ring : Ring r.pathCache r.clockIter queue) : r.ClockOk := by
  generalize held : r.pathCache = cache at ring
  generalize clock : r.clockIter = iter at ring
  rw [ClockOk, held, clock]
  cases ring with
  | pastEnd => exact trivial
  | entry pre e post => exact List.mem_map_of_mem (by simp)

/-- `evict` is a run of the queue, and what it takes is erased. -/
theorem evictFrom_run (size curSize : Nat) (sorted : r.pathCache.Sorted) (ring : Ring r.pathCache r.clockIter queue) :
    ∃ r' taken rest, r.evictFrom size curSize = some r' ∧ ClockRun Visited unvisit queue taken rest ∧
      taken.map (·.1) = r.erased size curSize ∧ rest.Perm r'.pathCache := by
  fun_induction erased size curSize r generalizing queue with
  | case1 curSize r full none => exact absurd none ((clockOk_of_ring ring).clockKey full.2)
  | case2 curSize r full key at_key swept =>
    rename_i ih
    obtain ⟨pre, e, post, split, rfl, rfl⟩ := clockKey_split ring at_key
    rw [split] at sorted
    obtain ⟨pre', e', post', sweeps, sorted', unset, runs⟩ := sweep_run sorted
    rw [← split] at sweeps
    have victim : swept = (pre' ++ e' :: post', e'.1) := sweeps
    rw [evictFrom_round full.1 at_key sweeps]
    simp only [victim, erase_split sorted', succ_split sorted'] at ih ⊢
    obtain ⟨r', taken, rest, evicted, run, keys, left⟩ :=
      ih (sorted'.sublist (by simp)) (ring_after pre' post')
    exact ⟨r', e' :: taken, rest, evicted, runs _ _ (.take unset run), by rw [List.map_cons, keys], left⟩
  | case3 curSize r enough =>
    rw [evictFrom, if_neg enough]
    exact ⟨_, [], queue, rfl, .stop queue, rfl, ring.perm⟩

/-- The loop stops when enough is erased, also where the unsigned sum wraps. -/
theorem evictFrom_enough_erased (evicted : r.evictFrom size curSize = some r') :
    r'.pathCache = [] ∨ size ≤ curSize + accounted (r.erased size curSize) := by
  fun_induction erased size curSize r with
  | case1 curSize r full none =>
    rw [evictFrom, if_pos full] at evicted
    split at evicted
    · cases evicted
    · rename_i key at_key
      rw [none] at at_key
      cases at_key
  | case2 curSize r full key at_key swept =>
    rename_i ih
    rw [evictFrom_round full.1 at_key rfl] at evicted
    refine (ih evicted).imp_right fun enough => enough.trans ?_
    have wraps := Nat.mod_le (curSize + entrySize swept.2) 18446744073709551616
    rw [accounted_cons]
    omega
  | case3 curSize r enough =>
    rw [evictFrom, if_neg enough] at evicted
    cases evicted
    by_cases less : curSize < size
    · exact .inl (not_not.mp fun some => enough ⟨less, some⟩)
    · exact .inr (Nat.not_lt.mp less)

/-- It stops at once then, unless the sum has wrapped. -/
theorem erased_dropLast (fits : curSize + accounted (r.erased size curSize) < 18446744073709551616)
    (some : r.erased size curSize ≠ []) : curSize + accounted (r.erased size curSize).dropLast < size := by
  fun_induction erased size curSize r with
  | case1 curSize r full none => exact absurd rfl some
  | case2 curSize r full key at_key swept =>
    rename_i ih
    rw [accounted_cons] at fits
    have exact_sum : (curSize + entrySize swept.2) % 18446744073709551616 = curSize + entrySize swept.2 :=
      Nat.mod_eq_of_lt (by omega)
    rw [exact_sum] at ih fits ⊢
    generalize erased size _ _ = later at ih fits ⊢
    cases later with
    | nil => exact full.1
    | cons k later =>
      rw [List.dropLast_cons_cons, accounted_cons]
      have := ih (by omega) (List.cons_ne_nil _ _)
      omega
  | case3 curSize r enough => exact absurd rfl some

/-- `evict` terminates, whatever the cache, the flags and the place of the clock.  It erases
entries until the map is empty or the bytes of those erased are enough, and one entry fewer
would not have been; what is left keeps its inode; and an entry that was visited goes only
when all that were not have gone. -/
theorem evict_second_chance (sorted : r.pathCache.Sorted) (ok : r.ClockOk) (size : Nat) :
    ∃ r', r.evict size = some r' ∧ (r.erased size 0).Nodup ∧
      (∀ key, key ∈ r.erased size 0 ↔ key ∈ r.pathCache.map (·.1) ∧ key ∉ r'.pathCache.map (·.1)) ∧
      (r'.pathCache = [] ∨ size ≤ accounted (r.erased size 0)) ∧
      (r.pathCache.bytes < 18446744073709551616 → r.erased size 0 ≠ [] →
        accounted (r.erased size 0).dropLast < size) ∧
      (∀ e' ∈ r'.pathCache, ∃ e ∈ r.pathCache, e.1 = e'.1 ∧ e.2.inode = e'.2.inode) ∧
      ∀ e ∈ r.pathCache, e.2.visited = true → e.1 ∈ r.erased size 0 →
        ∀ z ∈ r.pathCache, z.2.visited = false → z.1 ∈ r.erased size 0 := by
  obtain ⟨queue, ring⟩ := ok.ring
  obtain ⟨r', taken, rest, evicted, run, keys, left⟩ := evictFrom_run size 0 sorted ring
  -- the entries taken out and those left are the entries of the cache
  have all : (r.erased size 0 ++ rest.map (·.1)).Perm (r.pathCache.map (·.1)) := by
    rw [← keys, ← List.map_append]
    exact (run.map_perm (·.1) fun _ => rfl).trans (ring.perm.map _)
  have distinct := all.nodup_iff.mpr sorted.distinct
  have apart := List.disjoint_of_nodup_append distinct
  refine ⟨r', evicted, List.Nodup.of_append_left distinct, fun key => ?_, ?_, fun fits some => ?_, ?_, ?_⟩
  · rw [← (left.map (·.1)).mem_iff, ← all.mem_iff, List.mem_append]
    constructor
    · exact fun gone => ⟨.inl gone, fun there => apart gone there⟩
    · exact fun ⟨either, away⟩ => either.resolve_right away
  · simpa only [Nat.zero_add] using evictFrom_enough_erased evicted
  · have total := (all.map entrySize).sum_nat
    rw [List.map_append, List.sum_append] at total
    have bytes : ((r.pathCache.map (·.1)).map entrySize).sum = r.pathCache.bytes := by
      rw [List.map_map]
      rfl
    -- the bytes do not wrap, so that the count is the sum of the sizes
    have bound : 0 + accounted (r.erased size 0) < 18446744073709551616 := by
      rw [Nat.zero_add]
      exact Nat.lt_of_le_of_lt (Nat.le.intro (total.trans bytes)) fits
    simpa only [Nat.zero_add] using erased_dropLast bound some
  · intro e' member
    have entries := run.map_perm (fun e => (e.1, e.2.inode)) fun _ => rfl
    have there : (e'.1, e'.2.inode) ∈ (taken ++ rest).map fun e => (e.1, e.2.inode) :=
      List.mem_map_of_mem (f := fun e => (e.1, e.2.inode)) (List.mem_append_right _ (left.mem_iff.mpr member))
    obtain ⟨e, member, same⟩ := List.mem_map.mp (entries.mem_iff.mp there)
    exact ⟨e, ring.perm.mem_iff.mp member, (Prod.mk.inj same).1, (Prod.mk.inj same).2⟩
  · intro e member set gone z other unset
    rw [← keys] at gone ⊢
    obtain ⟨y, out, same⟩ := List.mem_map.mp gone
    refine List.mem_map_of_mem (run.second_chance (·.1) ?_ (ring.perm.mem_iff.mpr member) set out same
      (ring.perm.mem_iff.mpr other) ?_)
    · exact (ring.perm.map _).nodup_iff.mpr sorted.distinct
    · exact fun set => Bool.false_ne_true (unset.symm.trans set)

theorem evict_second_chance_two :
    (∃ r', (lostClock 2).evict 1 = some r' ∧
      ∀ e' ∈ r'.pathCache, ∃ e ∈ (lostClock 2).pathCache, e.1 = e'.1 ∧ e.2.inode = e'.2.inode) ∧
    ((lostClock 2).erased 1 0).Nodup := by
  have sorted : (lostClock 2).pathCache.Sorted := by
    have less : ([97] : Name) < [98] := by decide
    simpa [lostClock, PathCache.Sorted] using less
  obtain ⟨r', evicted, distinct, -, -, -, kept, -⟩ := evict_second_chance sorted trivial 1
  exact ⟨⟨r', evicted, kept⟩, distinct⟩

/-! ### Sorted caches -/

theorem evictFrom_sorted (sorted : r.pathCache.Sorted) (evicted : r.evictFrom size curSize = some r') :
    r'.pathCache.Sorted := by
  fun_induction evictFrom size curSize r with
  | case1 => cases evicted
  | case2 curSize r full key at_key swept ih =>
    refine ih ?_ evicted
    have keys := r.pathCache.keys_sweep key
    have sweptSorted : swept.1.Sorted := by
      rw [Sorted, keys]
      exact sorted
    exact sweptSorted.sublist List.filter_sublist
  | case3 curSize r enough =>
    cases evicted
    exact sorted

theorem remember_sorted {inode : Position} (sorted : r.pathCache.Sorted)
    (remembered : r.remember key inode = some r') : r'.pathCache.Sorted := by
  rw [remember] at remembered
  obtain ⟨r₁, evicted, rfl⟩ := Option.map_eq_some_iff.mp remembered
  refine Sorted.insert ?_ _ _
  split at evicted
  · exact evictFrom_sorted sorted evicted
  · cases evicted
    exact sorted

theorem removePrefix_sorted {pre : Name} (sorted : r.pathCache.Sorted)
    (removed : r.removePrefix pre = some r') : r'.pathCache.Sorted := by
  rw [removePrefix] at removed
  split at removed
  · cases removed
  · cases removed
    refine sorted.sublist ?_
    conv_rhs => rw [← List.takeWhile_append_dropWhile (p := (·.1 < (removeEndSlash pre).drop 1)) (l := r.pathCache)]
    exact (List.Sublist.refl _).append List.filter_sublist

end PathResolver

/-- The cache is a map in every run, so that `evict_second_chance` is about each state in which
the clock is in the cache. -/
theorem CacheRun.sorted {τ : Type} {S : Service InodeReq InodeReq.Ans τ} {root : Position}
    {ok : PathCall → PathResolver → τ → Prop} {r₀ r : PathResolver} {t₀ t : τ}
    (run : CacheRun S root ok r₀ t₀ r t) (start : r₀.pathCache.Sorted) : r.pathCache.Sorted := by
  induction run with
  | start => exact start
  | changed _ ih => exact ih
  | @call r r' t t' call _ _ makes ih =>
    cases call with
    | removePrefix pre => exact PathResolver.removePrefix_sorted ih makes.1
    | evict size => exact PathResolver.evictFrom_sorted ih makes.1
    | resolve path =>
      obtain ⟨x, runs⟩ := makes
      have steps := resolve_steps runs
      clear runs
      induction steps with
      | refl => exact ih
      | tail _ step before =>
        cases step with
        | mark key => exact before.setVisited key true
        | remember remembered => exact PathResolver.remember_sorted before remembered

end Sbfs
