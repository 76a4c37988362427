import Sbfs.PathCoherence
import Mathlib.Logic.Relation

/-! # Runs of the path cache

Sequences of the public calls of `PathResolver`, over a directory tree that may answer
`find` in any way and may change between calls.  `resolve` marks entries and inserts
others, `removePrefix` erases some, and `evict` moves the clock.

The clock stays in the map as long as `removePrefix` does not erase the entry under it
(`clock_stays`).  The size counter is the number of bytes that `evict` dropped last, so
it is right only while nothing has been inserted (`accounting_holds`). -/

namespace Sbfs

open ReqProg Relation

/-! ## Calls -/

/-- The public methods of `PathResolver`. -/
inductive PathCall where
  | resolve (path : Name)
  | removePrefix (pre : Name)
  | evict (size : Nat)

/-- The call returns and leaves the second resolver and the second tree. -/
def PathCall.Makes {τ : Type} (S : Service InodeReq InodeReq.Ans τ) (root : Position) :
    PathCall → PathResolver → τ → PathResolver → τ → Prop
  | resolve path, r, t, r', t' => ∃ x, Runs S (r.resolve root path) t (x, r') t'
  | removePrefix pre, r, t, r', t' => r.removePrefix pre = some r' ∧ t' = t
  | evict size, r, t, r', t' => r.evict size = some r' ∧ t' = t

/-- Runs of calls that all meet a condition on the call and the state before it. -/
inductive CacheRun {τ : Type} (S : Service InodeReq InodeReq.Ans τ) (root : Position)
    (ok : PathCall → PathResolver → τ → Prop) (r₀ : PathResolver) (t₀ : τ) : PathResolver → τ → Prop
  | start : CacheRun S root ok r₀ t₀ r₀ t₀
  | call {r r' : PathResolver} {t t' : τ} {call : PathCall} (before : CacheRun S root ok r₀ t₀ r t)
      (meets : ok call r t) (makes : call.Makes S root r t r' t') : CacheRun S root ok r₀ t₀ r' t'
  | changed {r : PathResolver} {t t' : τ} (before : CacheRun S root ok r₀ t₀ r t) :
      CacheRun S root ok r₀ t₀ r t'

/-- What `resolve` does to the cache, one entry at a time. -/
inductive ResolveStep : PathResolver → PathResolver → Prop
  | mark (r : PathResolver) (key : Name) :
      ResolveStep r { r with pathCache := r.pathCache.setVisited key true }
  | remember {r r' : PathResolver} {key : Name} {inode : Position}
      (remembered : r.remember key inode = some r') : ResolveStep r r'

section

variable {τ : Type} {S : Service InodeReq InodeReq.Ans τ} {root : Position} {r r' : PathResolver} {t t' : τ}

theorem lookupPrefixes_steps (cur : Position) (idx i : Nat) (keys : List Name) :
    ReflTransGen ResolveStep r (r.lookupPrefixes cur idx i keys).2.2 := by
  induction keys generalizing r cur idx i with
  | nil => exact .refl
  | cons key keys ih =>
    rw [PathResolver.lookupPrefixes]
    cases r.pathCache.lookup key with
    | none => exact ih _ _ _
    | some val => exact .head (.mark r key) (ih _ _ _)

theorem walk_steps {cur x : Position} {rest : List (Name × Name)}
    (runs : Runs S (r.walk cur rest) t (x, r') t') : ReflTransGen ResolveStep r r' := by
  induction rest generalizing r cur t with
  | nil =>
    obtain ⟨same, -⟩ := runs_pure.mp runs
    obtain ⟨-, rfl⟩ := Prod.mk.inj same
    exact .refl
  | cons part rest ih =>
    obtain ⟨part, key⟩ := part
    simp only [PathResolver.walk, VfsProg.find, runs_bind] at runs
    obtain ⟨answer, u, -, runs⟩ := runs
    cases answer with
    | none =>
      obtain ⟨same, -⟩ := runs_pure.mp runs
      obtain ⟨-, rfl⟩ := Prod.mk.inj same
      exact .refl
    | some next =>
      cases remembered : r.remember key next with
      | none =>
        simp only [remembered] at runs
        cases runs with
        | @ask _ _ _ _ _ answer _ _ _ => exact Empty.elim answer
      | some r₁ =>
        simp only [remembered] at runs
        exact .head (.remember remembered) (ih runs)

theorem resolve_steps {x : Position} {path : Name} (runs : Runs S (r.resolve root path) t (x, r') t') :
    ReflTransGen ResolveStep r r' := by
  rw [PathResolver.resolve] at runs
  split at runs
  · obtain ⟨same, -⟩ := runs_pure.mp runs
    obtain ⟨-, rfl⟩ := Prod.mk.inj same
    exact .refl
  · split at runs
    · obtain ⟨same, -⟩ := runs_pure.mp runs
      obtain ⟨-, rfl⟩ := Prod.mk.inj same
      exact .refl
    · exact (lookupPrefixes_steps _ _ _ _).trans (walk_steps runs)

/-! ## The clock -/

theorem ResolveStep.clockOk (step : ResolveStep r r') (ok : r.ClockOk) : r'.ClockOk := by
  cases step with
  | mark key => exact ok.setVisited key true
  | remember remembered =>
    obtain ⟨r₁, remembered₁, ok₁⟩ := ok.remember _ _
    exact Option.some.inj (remembered₁.symm.trans remembered) ▸ ok₁

theorem clockOk_of_steps (steps : ReflTransGen ResolveStep r r') (ok : r.ClockOk) : r'.ClockOk := by
  induction steps with
  | refl => exact ok
  | tail _ step ih => exact step.clockOk ih

/-- No entry that `evict` would look at is gone, whatever `find` answers. -/
theorem walk_avoids (ok : r.ClockOk) (cur : Position) (rest : List (Name × Name)) :
    (r.walk cur rest).Avoids (· = .undefined) := by
  induction rest generalizing r cur with
  | nil => exact trivial
  | cons part rest ih =>
    refine ⟨fun same => (by cases same), fun answer => ?_⟩
    cases answer with
    | none => exact trivial
    | some next =>
      obtain ⟨r₁, remembered, ok₁⟩ := ok.remember part.2 next
      simp only [ReqProg.bind, remembered]
      exact ih ok₁ next

theorem resolve_avoids (ok : r.ClockOk) (path : Name) :
    (r.resolve root path).Avoids (· = .undefined) := by
  rw [PathResolver.resolve]
  split
  · exact trivial
  · split
    · exact trivial
    · exact walk_avoids (clockOk_of_steps (lookupPrefixes_steps _ _ _ _) ok) _ _

/-- The entry under the clock is none of those that `removePrefix` erases. -/
def PathResolver.ClockOff (r : PathResolver) (pre : Name) : Prop :=
  ∀ key, r.clockIter = .entry key → ¬ (removeEndSlash pre).drop 1 <+: key

/-- What `removePrefix` leaves are the entries whose keys do not begin with the prefix. -/
theorem mem_removePrefix {pre key : Name} (removed : r.removePrefix pre = some r') :
    key ∈ r'.pathCache.map (·.1) ↔
      key ∈ r.pathCache.map (·.1) ∧ ¬ (removeEndSlash pre).drop 1 <+: key := by
  rw [PathResolver.removePrefix] at removed
  split at removed
  · cases removed
  · cases removed
    simp only
    generalize (removeEndSlash pre).drop 1 = start
    have parts := List.takeWhile_append_dropWhile (p := fun e : Name × PathCacheValue => decide (e.1 < start))
      (l := r.pathCache)
    conv_rhs => rw [← parts]
    rw [List.map_append, List.map_append, List.mem_append, List.mem_append, or_and_right]
    refine or_congr ?_ ?_
    · -- a key before the prefix does not begin with it
      refine ⟨fun member => ⟨member, fun starts => ?_⟩, And.left⟩
      obtain ⟨e, before, rfl⟩ := List.mem_map.mp member
      have less := List.mem_takeWhile_imp before
      rw [decide_eq_true_eq] at less
      exact absurd (List.IsPrefix.le starts) (List.not_le.mpr less)
    · simp only [List.mem_map, List.mem_filter, Bool.not_eq_true', ← Bool.not_eq_true,
        List.isPrefixOf_iff_prefix]
      constructor
      · rintro ⟨e, ⟨member, off⟩, rfl⟩
        exact ⟨⟨e, member, rfl⟩, off⟩
      · rintro ⟨⟨e, member, rfl⟩, off⟩
        exact ⟨e, ⟨member, off⟩, rfl⟩

/-- `removePrefix` leaves the clock alone exactly when it does not erase its entry. -/
theorem removePrefix_clockOk_iff {pre : Name} (ok : r.ClockOk) (removed : r.removePrefix pre = some r') :
    r'.ClockOk ↔ r.ClockOff pre := by
  have members : ∀ key, key ∈ r'.pathCache.map (·.1) ↔
      key ∈ r.pathCache.map (·.1) ∧ ¬ (removeEndSlash pre).drop 1 <+: key :=
    fun key => mem_removePrefix removed
  have clock : (r.clockIter = .pastEnd → r'.clockIter = .pastEnd) ∧ ∀ key, r.clockIter = .entry key →
      r'.clockIter = if key ∈ r'.pathCache.map (·.1) then .entry key else .dangling := by
    rw [PathResolver.removePrefix] at removed
    split at removed
    · cases removed
    · cases removed
      exact ⟨fun here => by simp only [here], fun key here => by simp only [here]⟩
  rw [PathResolver.ClockOff]
  cases here : r.clockIter with
  | pastEnd =>
    rw [PathResolver.ClockOk, clock.1 here]
    exact iff_of_true trivial fun key none => by cases none
  | entry key =>
    rw [PathResolver.ClockOk, here] at ok
    have clock := clock.2 key here
    by_cases starts : (removeEndSlash pre).drop 1 <+: key
    · have gone : key ∉ r'.pathCache.map (·.1) := fun member => ((members key).mp member).2 starts
      simp only [gone, if_false] at clock
      rw [PathResolver.ClockOk, clock]
      exact iff_of_false id fun off => off key rfl starts
    · have kept : key ∈ r'.pathCache.map (·.1) := (members key).mpr ⟨ok, starts⟩
      simp only [kept, if_true] at clock
      rw [PathResolver.ClockOk, clock]
      refine iff_of_true kept fun key' same => ?_
      cases same
      exact starts
  | dangling =>
    rw [PathResolver.ClockOk, here] at ok
    exact ok.elim

/-- The calls that keep the entry under the clock. -/
def KeepsClock : PathCall → PathResolver → τ → Prop
  | .removePrefix pre, r, _ => r.ClockOff pre
  | _, _, _ => True

theorem CacheRun.clockOk {r₀ : PathResolver} {t₀ : τ} (start : r₀.ClockOk)
    (run : CacheRun S root KeepsClock r₀ t₀ r t) : r.ClockOk := by
  induction run with
  | start => exact start
  | @call _ _ _ _ call _ meets makes ih =>
    cases call with
    | resolve path =>
      obtain ⟨x, runs⟩ := makes
      exact clockOk_of_steps (resolve_steps runs) ih
    | removePrefix pre => exact (removePrefix_clockOk_iff ih makes.1).mpr meets
    | evict size =>
      obtain ⟨r₁, evicted, ok₁⟩ := ih.evictFrom
      exact Option.some.inj (evicted.symm.trans makes.1) ▸ ok₁
  | changed _ ih => exact ih

/-- In every run from a new resolver of any size in which no `removePrefix` erases the entry
under the clock, the clock is at the end or at an entry, and neither `evict` nor `resolve`
looks at an entry that is gone.  The next `removePrefix` keeps it so exactly if it does
not erase the entry under the clock. -/
theorem clock_stays {size : Nat} {t₀ : τ}
    (run : CacheRun S root KeepsClock (.new size) t₀ r t) :
    (r.clockIter = .pastEnd ∨ ∃ key ∈ r.pathCache.map (·.1), r.clockIter = .entry key) ∧
    (∀ n, (r.evict n).isSome = true) ∧
    (∀ path, (r.resolve root path).Avoids (· = .undefined)) ∧
    ∀ pre r', r.removePrefix pre = some r' → (r'.ClockOk ↔ r.ClockOff pre) := by
  have start : (PathResolver.new size).ClockOk := trivial
  have ok := run.clockOk start
  refine ⟨?_, fun n => ?_, resolve_avoids ok, fun pre r' => removePrefix_clockOk_iff ok⟩
  · cases clock : r.clockIter with
    | pastEnd => exact .inl rfl
    | entry key =>
      rw [PathResolver.ClockOk, clock] at ok
      exact .inr ⟨key, ok, rfl⟩
    | dangling =>
      rw [PathResolver.ClockOk, clock] at ok
      exact ok.elim
  · obtain ⟨r', evicted, -⟩ := @PathResolver.ClockOk.evictFrom r n 0 ok
    rw [PathResolver.evict, evicted]
    rfl

end

/-! ### A lost clock -/

/-- A root with the entries `a` and `b`. -/
def twoNames : Namespace := ⟨⟨2, 0⟩, fun dir name =>
  if dir = ⟨2, 0⟩ then if name = [97] then some ⟨2, 128⟩ else if name = [98] then some ⟨2, 256⟩ else none
  else none⟩

/-- Inserting into a cache when nothing has to go. -/
theorem remember_exact {r : PathResolver} {key : Name} {inode : Position}
    (exact : r.curCacheSize + entrySize key = r.maxCacheSize) :
    r.remember key inode = some { r with pathCache := r.pathCache.insert key ⟨inode, true⟩ } := by
  have none : (((r.curCacheSize : Int) + entrySize key - r.maxCacheSize) % 18446744073709551616).toNat = 0 := by
    omega
  rw [PathResolver.remember]
  simp only [none, Nat.lt_irrefl, if_false, Option.map_some]

/-- Resolving a path of one component that is not cached. -/
theorem runs_resolve_one {τ : Type} {S : Service InodeReq InodeReq.Ans τ} {t t' : τ} {r r' : PathResolver}
    {root inode : Position} {path c : Name} (spells : Spells path [c]) (part : IsPart c)
    (absent : r.pathCache.lookup c = none) (found : S (.find root c) t (some inode) t')
    (remembered : r.remember c inode = some r') : Runs S (r.resolve root path) t (inode, r') t' := by
  obtain ⟨head, other, stripped⟩ := spells.key (List.cons_ne_nil c []) (by simpa using part)
  have splits : ∀ reserve, split c reserve = [c] := fun reserve => by
    rw [split, splitFrom_last part.noSlash]
    cases reserve <;> rfl
  have key : (removeEndSlash path).drop 1 = c := by
    rw [stripped]
    simp [pathOf]
  rw [PathResolver.resolve]
  simp only [head, ne_eq, not_true_eq_false, if_false, other, key, splits,
    PathResolver.lookupPrefixes, absent, List.zip_cons_cons, List.zip_nil_right, List.drop_zero,
    PathResolver.walk, VfsProg.find, runs_bind, runs_call]
  refine ⟨some inode, t', found, ?_⟩
  simp only [remembered]
  exact .done

/-- The states of a run on a cache of 57 bytes, room for one name of one letter: resolve `/a`
and `/b`, evict a byte, remove the prefix `/b`, resolve `/a`. -/
def lostClock : Nat → PathResolver
  | 0 => .new 57
  | 1 => ⟨[([97], ⟨⟨2, 128⟩, true⟩)], .pastEnd, 0, 57⟩
  | 2 => ⟨[([97], ⟨⟨2, 128⟩, true⟩), ([98], ⟨⟨2, 256⟩, true⟩)], .pastEnd, 0, 57⟩
  | 3 => ⟨[([98], ⟨⟨2, 256⟩, false⟩)], .entry [98], 57, 57⟩
  | 4 => ⟨[], .dangling, 57, 57⟩
  | _ => ⟨[([97], ⟨⟨2, 128⟩, true⟩)], .dangling, 0, 57⟩

theorem isPart_a : IsPart [97] := ⟨by decide, by decide, by decide, by decide, by decide, by decide⟩

theorem isPart_b : IsPart [98] := ⟨by decide, by decide, by decide, by decide, by decide, by decide⟩

/-- One round of `evict`. -/
theorem evictFrom_round {r : PathResolver} {size curSize : Nat} {key victim : Name} {swept : PathCache}
    (less : curSize < size) (clock : r.clockKey = some key) (sweeps : r.pathCache.sweep key = (swept, victim)) :
    r.evictFrom size curSize = PathResolver.evictFrom size ((curSize + entrySize victim) % 18446744073709551616)
      { r with pathCache := swept.erase victim, clockIter := (swept.succ victim).elim .pastEnd .entry } := by
  have nonempty : r.pathCache ≠ [] := fun none => by
    have present := PathResolver.clockKey_mem clock
    rw [none] at present
    cases present
  rw [PathResolver.evictFrom, if_pos ⟨less, nonempty⟩]
  split
  · rename_i none
    rw [clock] at none
    cases none
  · rename_i key' some
    rw [clock] at some
    cases some
    rw [sweeps]

theorem evictFrom_enough {r : PathResolver} {size curSize : Nat} (enough : size ≤ curSize) :
    r.evictFrom size curSize = some { r with curCacheSize := curSize } := by
  rw [PathResolver.evictFrom, if_neg fun less => Nat.not_lt.mpr enough less.1]

theorem evictFrom_empty {r : PathResolver} {size curSize : Nat} (empty : r.pathCache = []) :
    r.evictFrom size curSize = some { r with curCacheSize := curSize } := by
  rw [PathResolver.evictFrom, if_neg fun some => some.2 empty]

theorem lostClock_evict : (lostClock 2).evict 1 = some (lostClock 3) := by
  have sweeps : PathCache.sweep (lostClock 2).pathCache [97] =
      ([([97], ⟨⟨2, 128⟩, false⟩), ([98], ⟨⟨2, 256⟩, false⟩)], [97]) := by
    -- both entries were visited, so the clock comes round to the first
    rw [PathCache.sweep, if_pos (by decide), PathCache.sweep, if_pos (by decide), PathCache.sweep,
      if_neg (by decide)]
    decide
  rw [PathResolver.evict, evictFrom_round (by decide) rfl sweeps, evictFrom_enough (by decide)]
  rfl

theorem makes_resolve (ns : Namespace) {r r' : PathResolver} {c : Name} {inode : Position} (part : IsPart c)
    (absent : r.pathCache.lookup c = none) (found : ns.find ns.root c = some inode)
    (remembered : r.remember c inode = some r') :
    PathCall.Makes Namespace.service ns.root (.resolve (slash :: c)) r ns r' ns :=
  ⟨inode, runs_resolve_one (.one c) part absent ⟨found.symm, rfl⟩ remembered⟩

/-- Each state of the run comes from the one before by one call. -/
theorem lostClock_makes : ∀ i, i < 5 → ∃ call : PathCall,
    call.Makes Namespace.service ⟨2, 0⟩ (lostClock i) twoNames (lostClock (i + 1)) twoNames
  | 0, _ => ⟨_, makes_resolve twoNames isPart_a rfl rfl (remember_exact rfl)⟩
  | 1, _ => ⟨_, makes_resolve twoNames isPart_b rfl rfl (remember_exact rfl)⟩
  | 2, _ => ⟨.evict 1, lostClock_evict, rfl⟩
  | 3, _ => ⟨.removePrefix [47, 98], rfl, rfl⟩
  | 4, _ => by
    have all : (0 : Nat) < ((((lostClock 4).curCacheSize : Int) + entrySize [97] -
        (lostClock 4).maxCacheSize) % 18446744073709551616).toNat := by decide
    have again : (lostClock 4).remember [97] ⟨2, 128⟩ = some (lostClock 5) := by
      rw [PathResolver.remember]
      simp only [all, if_true, PathResolver.evict,
        evictFrom_empty (show (lostClock 4).pathCache = [] from rfl)]
      rfl
    exact ⟨_, makes_resolve twoNames isPart_a rfl rfl again⟩

theorem lostClock_run (ok : PathCall → PathResolver → Namespace → Prop) (meets : ∀ call r t, ok call r t)
    {i : Nat} (bound : i ≤ 5) :
    CacheRun Namespace.service ⟨2, 0⟩ ok (lostClock 0) twoNames (lostClock i) twoNames := by
  induction i with
  | zero => exact .start
  | succ i ih =>
    obtain ⟨call, makes⟩ := lostClock_makes i bound
    exact .call (ih (Nat.le_of_lt bound)) (meets call _ _) makes

/-- The run reaches a state in which the clock points to no entry, and one in which `evict`
follows it. -/
theorem clock_lost :
    (∀ i, i ≤ 5 → CacheRun Namespace.service ⟨2, 0⟩ (fun _ _ _ => True) (.new 57) twoNames
      (lostClock i) twoNames) ∧
    (lostClock 4).clockIter ≠ .pastEnd ∧
    (∀ key ∈ (lostClock 4).pathCache.map (·.1), (lostClock 4).clockIter ≠ .entry key) ∧
    (lostClock 5).evict 1 = none := by
  refine ⟨fun i => lostClock_run _ fun _ _ _ => trivial, by decide, by simp [lostClock], ?_⟩
  rw [PathResolver.evict, PathResolver.evictFrom, if_pos (by decide)]
  rfl

/-! ### A kept clock -/

/-- A root with one entry more. -/
def threeNames : Namespace := ⟨⟨2, 0⟩, fun dir name =>
  if dir = ⟨2, 0⟩ ∧ name = [99] then some ⟨2, 384⟩ else twoNames.find dir name⟩

/-- The states after `resolve` of `/a`, `/b` and `/c`, after `evict` of a byte, which leaves the
clock at `b`, and after `removePrefix` of `/c`. -/
def keptClock : Nat → PathResolver
  | 0 => ⟨[([97], ⟨⟨2, 128⟩, true⟩), ([98], ⟨⟨2, 256⟩, true⟩), ([99], ⟨⟨2, 384⟩, true⟩)], .pastEnd, 0, 57⟩
  | 1 => ⟨[([98], ⟨⟨2, 256⟩, false⟩), ([99], ⟨⟨2, 384⟩, false⟩)], .entry [98], 57, 57⟩
  | _ => ⟨[([98], ⟨⟨2, 256⟩, false⟩)], .entry [98], 57, 57⟩

theorem isPart_c : IsPart [99] := ⟨by decide, by decide, by decide, by decide, by decide, by decide⟩

theorem keptClock_evict : (keptClock 0).evict 1 = some (keptClock 1) := by
  have sweeps : PathCache.sweep (keptClock 0).pathCache [97] =
      ([([97], ⟨⟨2, 128⟩, false⟩), ([98], ⟨⟨2, 256⟩, false⟩), ([99], ⟨⟨2, 384⟩, false⟩)], [97]) := by
    rw [PathCache.sweep, if_pos (by decide), PathCache.sweep, if_pos (by decide), PathCache.sweep,
      if_pos (by decide), PathCache.sweep, if_neg (by decide)]
    decide
  rw [PathResolver.evict, evictFrom_round (by decide) rfl sweeps, evictFrom_enough (by decide)]
  rfl

theorem keptClock_run : CacheRun Namespace.service ⟨2, 0⟩ KeepsClock (.new 57) threeNames
    (keptClock 2) threeNames := by
  have resolves : ∀ {c r r' inode}, IsPart c → r.pathCache.lookup c = none →
      threeNames.find ⟨2, 0⟩ c = some inode → r.remember c inode = some r' →
      CacheRun Namespace.service ⟨2, 0⟩ KeepsClock (.new 57) threeNames r threeNames →
      CacheRun Namespace.service ⟨2, 0⟩ KeepsClock (.new 57) threeNames r' threeNames := by
    intro c r r' inode part absent found remembered before
    have meets : KeepsClock (.resolve (slash :: c)) r threeNames := trivial
    exact .call before meets (makes_resolve threeNames part absent found remembered)
  have a := resolves isPart_a rfl rfl (remember_exact rfl) .start
  have b := resolves isPart_b rfl rfl (remember_exact rfl) a
  have c := resolves isPart_c rfl rfl (remember_exact rfl) b
  have evicts : PathCall.Makes Namespace.service ⟨2, 0⟩ (.evict 1) (keptClock 0) threeNames (keptClock 1)
      threeNames := ⟨keptClock_evict, rfl⟩
  have removes : PathCall.Makes Namespace.service ⟨2, 0⟩ (.removePrefix [47, 99]) (keptClock 1) threeNames
      (keptClock 2) threeNames := ⟨rfl, rfl⟩
  have meets : KeepsClock (.evict 1) (keptClock 0) threeNames := trivial
  refine .call (.call c meets evicts) ?_ removes
  intro key clock
  cases clock
  decide

theorem clock_stays_kept :
    ((keptClock 2).clockIter = .pastEnd ∨
      ∃ key ∈ (keptClock 2).pathCache.map (·.1), (keptClock 2).clockIter = .entry key) ∧
    ((keptClock 2).evict 57).isSome = true :=
  ⟨(clock_stays keptClock_run).1, (clock_stays keptClock_run).2.1 57⟩

/-! ## The size counter -/

/-- The bytes that the entries count for. -/
def PathCache.bytes (cache : PathCache) : Nat := (cache.map fun e => entrySize e.1).sum

/-- The counter is the size of the entries, they do not exceed the maximum unless one of them
does, and what fits is inserted without evicting anything. -/
structure PathResolver.Accounted (r : PathResolver) : Prop where
  counted : r.curCacheSize = r.pathCache.bytes
  bounded : (∀ e ∈ r.pathCache, entrySize e.1 ≤ r.maxCacheSize) → r.pathCache.bytes ≤ r.maxCacheSize
  spares : ∀ key inode r', r.pathCache.bytes + entrySize key ≤ r.maxCacheSize →
    r.remember key inode = some r' → ∀ e ∈ r.pathCache, e.1 ∈ r'.pathCache.map (·.1)

section

variable {τ : Type} {S : Service InodeReq InodeReq.Ans τ} {root : Position} {r r' : PathResolver} {t t' : τ}

/-- The calls `removePrefix`, and `resolve` of a path of which `find` gives nothing that is
not cached already. -/
def FindsNothing (S : Service InodeReq InodeReq.Ans τ) (root : Position) :
    PathCall → PathResolver → τ → Prop
  | .resolve path, r, t => ∀ dir c next, r.resolve root path = .ask (.find dir c) next →
      ∀ inode u, ¬ S (.find dir c) t (some inode) u
  | .removePrefix _, _, _ => True
  | .evict _, _, _ => False

/-- Nothing has been inserted or evicted. -/
structure PathResolver.Unused (r : PathResolver) : Prop where
  empty : r.pathCache = []
  counter : r.curCacheSize = 0

theorem lookupPrefixes_empty (empty : r.pathCache = []) (cur : Position) (idx i : Nat) (keys : List Name) :
    r.lookupPrefixes cur idx i keys = (cur, idx, r) := by
  induction keys generalizing i with
  | nil => rfl
  | cons key keys ih =>
    rw [PathResolver.lookupPrefixes, empty]
    exact ih (i + 1)

theorem PathResolver.Unused.resolve {x : Position} {path : Name} (unused : r.Unused)
    (nothing : FindsNothing S root (.resolve path) r t) (runs : Runs S (r.resolve root path) t (x, r') t') :
    r' = r := by
  have done : ∀ y, Runs S (pure (y, r) : VfsProg (Position × PathResolver)) t (x, r') t' → r' = r :=
    fun y runs => (Prod.mk.inj (runs_pure.mp runs).1).2
  rw [FindsNothing] at nothing
  rw [PathResolver.resolve] at nothing runs
  split at runs
  · exact done _ runs
  · split at runs
    · exact done _ runs
    · rename_i rooted other
      simp only [rooted, other, if_false, lookupPrefixes_empty unused.empty] at nothing runs
      generalize ((split ((removeEndSlash path).drop 1) false).zip
        (split ((removeEndSlash path).drop 1) true)).drop 0 = rest at nothing runs
      cases rest with
      | nil => exact done _ runs
      | cons part rest =>
        cases runs with
        | @ask _ _ _ u _ answer _ given after =>
          cases answer with
          | none => exact (Prod.mk.inj (runs_pure.mp after).1).2
          | some inode => exact absurd given (nothing root part.1 _ rfl inode u)

theorem PathResolver.Unused.removePrefix {pre : Name} (unused : r.Unused)
    (removed : r.removePrefix pre = some r') : r'.Unused := by
  rw [PathResolver.removePrefix] at removed
  split at removed
  · cases removed
  · cases removed
    exact ⟨by simp [unused.empty], unused.counter⟩

theorem CacheRun.unused {r₀ : PathResolver} {t₀ : τ} (start : r₀.Unused)
    (run : CacheRun S root (FindsNothing S root) r₀ t₀ r t) : r.Unused := by
  induction run with
  | start => exact start
  | @call _ _ _ _ call _ meets makes ih =>
    cases call with
    | resolve path =>
      obtain ⟨x, runs⟩ := makes
      rw [ih.resolve meets runs]
      exact ih
    | removePrefix pre => exact ih.removePrefix makes.1
    | evict size => exact meets.elim
  | changed _ ih => exact ih

theorem PathResolver.Unused.accounted (unused : r.Unused) : r.Accounted := by
  refine ⟨?_, fun _ => ?_, fun _ _ _ _ _ e member => ?_⟩
  · rw [unused.empty, unused.counter]
    rfl
  · rw [unused.empty]
    exact Nat.zero_le _
  · rw [unused.empty] at member
    cases member

/-- The first entry goes in, and the counter stays at 0. -/
theorem PathResolver.Unused.remember (unused : r.Unused) (key : Name) (inode : Position) :
    r.remember key inode = some { r with pathCache := [(key, ⟨inode, true⟩)] } := by
  have evicted : ∀ size, (if 0 < size then r.evict size else some r) = some r := by
    intro size
    have same : { r with curCacheSize := 0 } = r := by
      rw [← unused.counter]
    rw [PathResolver.evict, evictFrom_empty unused.empty, same, ite_self]
  rw [PathResolver.remember]
  simp only [evicted, Option.map_some, unused.empty, PathCache.insert]

/-- In every run of `resolve` and `removePrefix` calls from a new resolver of any size in
which `resolve` finds nothing to insert, the accounting is right; and whatever is inserted
next, the counter is wrong afterwards. -/
theorem accounting_holds {size : Nat} {t₀ : τ}
    (run : CacheRun S root (FindsNothing S root) (.new size) t₀ r t) :
    r.Accounted ∧ ∀ key inode r', r.remember key inode = some r' → r'.curCacheSize ≠ r'.pathCache.bytes := by
  have unused := run.unused ⟨rfl, rfl⟩
  refine ⟨unused.accounted, fun key inode r' remembered => ?_⟩
  rw [unused.remember key inode] at remembered
  cases remembered
  rw [unused.counter]
  simp only [PathCache.bytes, List.map_cons, List.map_nil, List.sum_cons, List.sum_nil, entrySize]
  omega

end

/-! ### One entry -/

/-- On the default size, `/a` is cached and the counter stays at 0. -/
theorem accounting_fails : ∃ r,
    CacheRun Namespace.service ⟨2, 0⟩ (fun _ _ _ => True) (.new kPathCacheSize) twoNames r twoNames ∧
      r.curCacheSize = 0 ∧ r.pathCache.bytes = 57 := by
  have unused : (PathResolver.new kPathCacheSize).Unused := ⟨rfl, rfl⟩
  have makes : PathCall.Makes Namespace.service ⟨2, 0⟩ (.resolve [47, 97]) (.new kPathCacheSize) twoNames
      ⟨[([97], ⟨⟨2, 128⟩, true⟩)], .pastEnd, 0, kPathCacheSize⟩ twoNames :=
    makes_resolve twoNames isPart_a rfl rfl (unused.remember _ _)
  exact ⟨_, .call .start trivial makes, rfl, by decide⟩

/-- A lookup that fails leaves the accounting right. -/
theorem accounting_holds_missing : (PathResolver.new kPathCacheSize).Accounted := by
  have asks : ∃ next, (PathResolver.new kPathCacheSize).resolve ⟨2, 0⟩ [47, 99] =
      .ask (.find ⟨2, 0⟩ [99]) next := ⟨_, rfl⟩
  obtain ⟨next, asks⟩ := asks
  have meets : FindsNothing Namespace.service ⟨2, 0⟩ (.resolve [47, 99]) (.new kPathCacheSize) twoNames := by
    intro dir c next' same inode u answer
    rw [asks] at same
    obtain ⟨rfl, rfl⟩ := InodeReq.find.inj (ReqProg.ask.inj same).1
    exact nomatch answer.1
  have makes : PathCall.Makes Namespace.service ⟨2, 0⟩ (.resolve [47, 99]) (.new kPathCacheSize) twoNames
      (.new kPathCacheSize) twoNames :=
    ⟨.invalid, .ask (r := none) ⟨rfl, rfl⟩ .done⟩
  exact (accounting_holds (.call .start meets makes)).1

end Sbfs
