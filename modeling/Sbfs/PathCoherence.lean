import Sbfs.Namespace
import Mathlib.Data.List.TakeWhile

/-! # The path cache agrees with the directories

An entry of the path cache is right when its key is that of a path that leads to its
inode.  This is an invariant of the callbacks that change the directories: a change is
followed by `removePrefix`, which drops every path through the changed entry, and in a
tree no other path runs through it (`Call.body_ensures`). -/

namespace Sbfs

open NamedTree ReqProg

/-! ## The entries of the cache -/

/-- Every entry has a key and an inode that satisfy `P`. -/
def PathCache.All (P : Name → Position → Prop) (cache : PathCache) : Prop :=
  ∀ e ∈ cache, P e.1 e.2.inode

namespace PathCache.All

variable {P : Name → Position → Prop} {cache : PathCache} {key : Name}

theorem setVisited (all : cache.All P) (key : Name) (visited : Bool) :
    (cache.setVisited key visited).All P := by
  intro e member
  obtain ⟨e', member', rfl⟩ := List.mem_map.mp member
  split
  · exact all e' member'
  · exact all e' member'

theorem sweep (all : cache.All P) (key : Name) : (cache.sweep key).1.All P := by
  fun_induction PathCache.sweep cache key with
  | case1 cache key _ ih => exact ih (all.setVisited key false)
  | case2 => exact all

theorem lookup (all : cache.All P) {val : PathCacheValue} (found : cache.lookup key = some val) :
    P key val.inode := by
  obtain ⟨e, hit, rfl⟩ := Option.map_eq_some_iff.mp found
  have same := List.find?_some hit
  rw [decide_eq_true_eq] at same
  exact same ▸ all e (List.mem_of_find?_eq_some hit)

theorem insert (all : cache.All P) {val : PathCacheValue} (new : P key val.inode) :
    (cache.insert key val).All P := by
  induction cache with
  | nil =>
    intro e member
    rw [List.mem_singleton.mp member]
    exact new
  | cons e cache ih =>
    have tail : PathCache.All P cache := fun e' member => all e' (List.mem_cons_of_mem _ member)
    rw [PathCache.insert]
    split
    · exact List.forall_mem_cons.mpr ⟨new, all⟩
    · split
      · exact List.forall_mem_cons.mpr ⟨new, tail⟩
      · exact List.forall_mem_cons.mpr ⟨all e List.mem_cons_self, ih tail⟩

theorem evictFrom {r r' : PathResolver} {size curSize : Nat} (all : r.pathCache.All P)
    (evicted : r.evictFrom size curSize = some r') : r'.pathCache.All P := by
  fun_induction PathResolver.evictFrom size curSize r with
  | case1 => cases evicted
  | case2 curSize r _ key _ swept ih =>
    exact ih (fun e member => all.sweep key e (List.mem_of_mem_filter member)) evicted
  | case3 curSize r => cases evicted; exact all

theorem remember {r r' : PathResolver} {inode : Position} (all : r.pathCache.All P)
    (new : P key inode) (remembered : r.remember key inode = some r') : r'.pathCache.All P := by
  obtain ⟨r₁, evicted, rfl⟩ := Option.map_eq_some_iff.mp remembered
  have value : P key (PathCacheValue.mk inode true).inode := new
  refine insert ?_ value
  split at evicted
  · exact all.evictFrom evicted
  · cases evicted
    exact all

/-- What `removePrefix` leaves are entries whose keys do not begin with the prefix. -/
theorem removePrefix {r r' : PathResolver} {pre : Name} (all : r.pathCache.All P)
    (removed : r.removePrefix pre = some r') :
    r'.pathCache.All fun key inode => P key inode ∧ ¬ (removeEndSlash pre).drop 1 <+: key := by
  rw [PathResolver.removePrefix] at removed
  split at removed
  · cases removed
  · cases removed
    intro e member
    rcases List.mem_append.mp member with before | after
    · -- such a key is smaller than the prefix
      have less := List.mem_takeWhile_imp before
      rw [decide_eq_true_eq] at less
      exact ⟨all e (List.takeWhile_subset _ before), fun starts =>
        absurd (List.IsPrefix.le starts) (List.not_le.mpr less)⟩
    · obtain ⟨member', other⟩ := List.mem_filter.mp after
      refine ⟨all e (List.dropWhile_subset _ member'), fun starts => ?_⟩
      rw [List.isPrefixOf_iff_prefix.mpr starts] at other
      cases other

end PathCache.All

/-! ## The clock iterator -/

namespace PathResolver

/-- The iterator is `end()` or points to an entry. -/
def ClockOk (r : PathResolver) : Prop :=
  match r.clockIter with
  | .pastEnd => True
  | .entry key => key ∈ r.pathCache.map (·.1)
  | .dangling => False

theorem ClockOk.clockKey {r : PathResolver} (ok : r.ClockOk) (nonempty : r.pathCache ≠ []) :
    r.clockKey ≠ none := by
  cases clock : r.clockIter with
  | pastEnd =>
    cases first : r.pathCache with
    | nil => exact absurd first nonempty
    | cons e cache => simp [PathResolver.clockKey, clock, first]
  | entry key =>
    simp only [ClockOk, clock] at ok
    simp [PathResolver.clockKey, clock, ok]
  | dangling => simp only [ClockOk, clock] at ok

theorem ClockOk.evictFrom {r : PathResolver} {size curSize : Nat} (ok : r.ClockOk) :
    ∃ r', r.evictFrom size curSize = some r' ∧ r'.ClockOk := by
  fun_induction PathResolver.evictFrom size curSize r with
  | case1 curSize r full none => exact absurd none (ok.clockKey full.2)
  | case2 curSize r _ key _ swept ih =>
    refine ih ?_
    cases follows : swept.1.succ swept.2 with
    | none => exact trivial
    | some key' =>
      obtain ⟨e, hit, rfl⟩ := Option.map_eq_some_iff.mp follows
      have greater := List.find?_some hit
      rw [decide_eq_true_eq] at greater
      refine List.mem_map_of_mem (List.mem_filter.mpr ⟨List.mem_of_find?_eq_some hit, ?_⟩)
      rw [decide_eq_true_eq]
      rintro same
      exact List.lt_irrefl _ (same ▸ greater)
  | case3 curSize r => exact ⟨_, rfl, ok⟩

theorem mem_insert_keys {cache : PathCache} {key key' : Name} {val : PathCacheValue}
    (member : key' ∈ cache.map (·.1)) : key' ∈ (cache.insert key val).map (·.1) := by
  induction cache with
  | nil => cases member
  | cons e cache ih =>
    rw [PathCache.insert]
    split
    · exact List.mem_cons_of_mem _ member
    · split
      · rename_i same
        rcases List.mem_cons.mp member with here | later
        · exact List.mem_cons.mpr (.inl (here.trans same.symm))
        · exact List.mem_cons_of_mem _ later
      · rcases List.mem_cons.mp member with here | later
        · rw [here]
          exact List.mem_cons_self
        · exact List.mem_cons_of_mem _ (ih later)

theorem ClockOk.remember {r : PathResolver} (ok : r.ClockOk) (key : Name) (inode : Position) :
    ∃ r', r.remember key inode = some r' ∧ r'.ClockOk := by
  have evicted : ∀ size, ∃ r₁, (if 0 < size then r.evict size else some r) = some r₁ ∧ r₁.ClockOk := by
    intro size
    split
    · exact ok.evictFrom
    · exact ⟨r, rfl, ok⟩
  obtain ⟨r₁, eq, ok₁⟩ := evicted _
  refine ⟨_, by rw [PathResolver.remember, eq]; rfl, ?_⟩
  cases clock : r₁.clockIter with
  | pastEnd => simp only [ClockOk, clock]
  | entry key' =>
    simp only [ClockOk, clock] at ok₁ ⊢
    exact mem_insert_keys ok₁
  | dangling => simp only [ClockOk, clock] at ok₁

theorem ClockOk.setVisited {r : PathResolver} (ok : r.ClockOk) (key : Name) (visited : Bool) :
    ClockOk { r with pathCache := r.pathCache.setVisited key visited } := by
  rw [ClockOk] at *
  simp only [PathCache.keys_setVisited]
  exact ok

end PathResolver

/-! ## Resolution -/

/-- `key` is the key of a path to `inode`. -/
def Right (ns : Namespace) (key : Name) (inode : Position) : Prop :=
  ∃ cs, cs ≠ [] ∧ (∀ c ∈ cs, IsPart c) ∧ key = keyOf cs ∧ ns.lookup cs = some inode

theorem keyOf_ne {cs : List Name} (nonempty : cs ≠ []) (parts : ∀ c ∈ cs, IsComponent c) : keyOf cs ≠ keyOf [] := by
  cases cs with
  | nil => exact absurd rfl nonempty
  | cons c cs =>
    rw [keyOf_cons]
    exact List.append_ne_nil_of_left_ne_nil (parts c List.mem_cons_self).nonempty _

theorem keyOf_injective {cs ds : List Name} (parts : ∀ c ∈ cs, IsComponent c) (parts' : ∀ c ∈ ds, IsComponent c)
    (same : keyOf cs = keyOf ds) : cs = ds := by
  by_cases empty : cs = []
  · subst empty
    by_contra ne
    exact keyOf_ne (Ne.symm ne) parts' same.symm
  · by_cases empty' : ds = []
    · subst empty'
      exact absurd same (keyOf_ne empty parts)
    · rw [← split_parts empty parts, same, split_parts empty' parts']

theorem canonical_injective {cs ds : List Name} (parts : ∀ c ∈ cs, IsComponent c) (parts' : ∀ c ∈ ds, IsComponent c)
    (same : canonical cs = canonical ds) : cs = ds := by
  rw [← slash_keyOf, ← slash_keyOf] at same
  exact keyOf_injective parts parts' (List.cons.inj same).2

section

variable {ns : Namespace} {r : PathResolver} {cs done rest : List Name} {cur : Position}

/-- A cached inode is the one that its path leads to. -/
theorem Right.lookup {key : Name} {inode : Position} (right : Right ns key inode) (parts : ∀ c ∈ cs, IsPart c)
    (same : key = keyOf cs) : ns.lookup cs = some inode := by
  obtain ⟨ds, -, parts', rfl, found⟩ := right
  rw [keyOf_injective (components parts) (components parts') same.symm]
  exact found

/-- The path that is left after a failed step leads nowhere. -/
theorem lookup_stop {c : Name} (here : ns.lookup done = some cur) (absent : ns.find cur c = none) :
    ns.lookup (done ++ c :: rest) = none := by
  have step : ns.lookup (done ++ [c]) = none := by
    rw [Namespace.lookup_concat, here, Option.bind_some, absent]
  rw [Namespace.lookup] at step
  rw [List.append_cons, Namespace.lookup, walk_append, step, Option.bind_none]

theorem lookup_step {c : Name} {inode : Position} (here : ns.lookup done = some cur)
    (found : ns.find cur c = some inode) : ns.lookup (done ++ [c]) = some inode := by
  rw [Namespace.lookup_concat, here, Option.bind_some, found]

/-- The loop of `resolve` ends where the path leads to, and what it caches is right. -/
theorem walk_ensures (here : ns.lookup done = some cur) (parts : ∀ c ∈ done ++ rest, IsPart c)
    (cached : r.pathCache.All (Right ns)) :
    (r.walk cur (rest.zip (keysFrom done rest))).Ensures Namespace.service (fun a u =>
      u = ns ∧ a.1 = (ns.lookup (done ++ rest)).getD .invalid ∧ a.2.pathCache.All (Right ns)) ns := by
  induction rest generalizing done cur r with
  | nil =>
    refine ⟨rfl, ?_, cached⟩
    rw [List.append_nil, here]
    rfl
  | cons c rest ih =>
    simp only [keysFrom, List.zip_cons_cons, PathResolver.walk, VfsProg.find, ensures_bind,
      ensures_call]
    rintro answer u ⟨rfl, rfl⟩
    cases found : u.find cur c with
    | none =>
      refine ⟨rfl, ?_, cached⟩
      rw [lookup_stop here found]
      rfl
    | some inode =>
      have step := lookup_step here found
      have split : done ++ c :: rest = (done ++ [c]) ++ rest := List.append_cons done c rest
      rw [split] at parts ⊢
      have right : Right u (keyOf (done ++ [c])) inode :=
        ⟨done ++ [c], by simp, fun d member => parts d (List.mem_append_left _ member), rfl, step⟩
      cases remembered : r.remember (keyOf (done ++ [c])) inode with
      | none =>
        simp only [remembered]
        exact ensures_undefined _ _ _
      | some r₁ =>
        simp only [remembered]
        exact ih step parts (cached.remember right remembered)

/-- As long as the clock iterator is not dangling, the loop of `resolve` gets to its end. -/
theorem walk_runs (here : ns.lookup done = some cur) (ok : r.ClockOk) :
    ∃ r', Runs Namespace.service (r.walk cur (rest.zip (keysFrom done rest))) ns
      ((ns.lookup (done ++ rest)).getD .invalid, r') ns := by
  induction rest generalizing done cur r with
  | nil =>
    rw [List.append_nil, here]
    exact ⟨r, .done⟩
  | cons c rest ih =>
    simp only [keysFrom, List.zip_cons_cons, PathResolver.walk, VfsProg.find, runs_bind, runs_call]
    cases found : ns.find cur c with
    | none =>
      rw [lookup_stop here found]
      exact ⟨r, none, ns, ⟨found.symm, rfl⟩, .done⟩
    | some inode =>
      obtain ⟨r₁, remembered, ok₁⟩ := ok.remember (keyOf (done ++ [c])) inode
      obtain ⟨r', runs⟩ := ih (lookup_step here found) ok₁
      rw [← List.append_cons] at runs
      refine ⟨r', some inode, ns, ⟨found.symm, rfl⟩, ?_⟩
      simp only [remembered]
      exact runs

theorem walkNoCache_runs (here : ns.lookup done = some cur) {x : Position} {u : Namespace} :
    Runs Namespace.service (PathResolver.walkNoCache cur rest) ns x u ↔
      x = (ns.lookup (done ++ rest)).getD .invalid ∧ u = ns := by
  induction rest generalizing done cur with
  | nil =>
    rw [List.append_nil, here]
    exact runs_pure
  | cons c rest ih =>
    simp only [PathResolver.walkNoCache, VfsProg.find, runs_bind, runs_call]
    cases found : ns.find cur c with
    | none =>
      rw [lookup_stop here found]
      constructor
      · rintro ⟨_, _, ⟨rfl, rfl⟩, runs⟩
        rw [found] at runs
        exact runs_pure.mp runs
      · rintro ⟨rfl, rfl⟩
        exact ⟨none, u, ⟨found.symm, rfl⟩, .done⟩
    | some inode =>
      rw [List.append_cons, ← ih (lookup_step here found)]
      constructor
      · rintro ⟨_, _, ⟨rfl, rfl⟩, runs⟩
        rw [found] at runs
        exact runs
      · exact fun runs => ⟨some inode, ns, ⟨found.symm, rfl⟩, runs⟩

/-- The loop over the cache ends at a prefix of the path and the inode it leads to. -/
theorem lookupPrefixes_spec {idx : Nat} {ds : List Name} (pre : ds <+: done) (idxEq : idx = ds.length)
    (here : ns.lookup ds = some cur) (parts : ∀ c ∈ done ++ rest, IsPart c)
    (cached : r.pathCache.All (Right ns)) :
    ∃ cur' ds' r', r.lookupPrefixes cur idx done.length (keysFrom done rest) = (cur', ds'.length, r') ∧
      ds' <+: done ++ rest ∧ ns.lookup ds' = some cur' ∧ r'.pathCache.All (Right ns) ∧
      (r.ClockOk → r'.ClockOk) := by
  induction rest generalizing done r cur idx ds with
  | nil =>
    subst idxEq
    rw [List.append_nil]
    exact ⟨cur, ds, r, rfl, pre, here, cached, id⟩
  | cons c rest ih =>
    have split : done ++ c :: rest = (done ++ [c]) ++ rest := List.append_cons done c rest
    have length : done.length + 1 = (done ++ [c]).length := by simp
    rw [split] at parts ⊢
    rw [keysFrom, PathResolver.lookupPrefixes, length]
    cases hit : r.pathCache.lookup (keyOf (done ++ [c])) with
    | none => exact ih (pre.trans (List.prefix_append _ _)) idxEq here parts cached
    | some val =>
      have leads : ns.lookup (done ++ [c]) = some val.inode :=
        (cached.lookup hit).lookup (fun d member => parts d (List.mem_append_left _ member)) rfl
      obtain ⟨cur', ds', r', eq, pre', here', cached', ok⟩ := ih
        (r := { r with pathCache := r.pathCache.setVisited (keyOf (done ++ [c])) true })
        List.prefix_rfl rfl leads parts (cached.setVisited _ true)
      exact ⟨cur', ds', r', eq, pre', here', cached', fun clock => ok (clock.setVisited _ true)⟩

/-- The two spellings of a path: without a slash at the end, and with one as
`splitFromLastSlash` leaves it. -/
def Spells (path : Name) (cs : List Name) : Prop :=
  path = canonical cs ∨ path = pathOf cs ++ [slash]

theorem Spells.root {path : Name} (spells : Spells path []) : path = [slash] := by
  rcases spells with rfl | rfl <;> rfl

theorem Spells.one (c : Name) : Spells (slash :: c) [c] := .inl (by simp [canonical, pathOf])

theorem Spells.key {path : Name} (spells : Spells path cs) (nonempty : cs ≠ [])
    (parts : ∀ c ∈ cs, IsPart c) :
    path.head? = some slash ∧ path ≠ [slash] ∧ removeEndSlash path = pathOf cs := by
  have stripped : removeEndSlash path = pathOf cs := by
    rcases spells with rfl | rfl
    · rw [canonical, if_neg nonempty, removeEndSlash_pathOf nonempty (components parts)]
    · exact removeEndSlash_slash _
  cases cs with
  | nil => exact absurd rfl nonempty
  | cons c cs =>
    refine ⟨?_, ?_, stripped⟩
    · rcases spells with rfl | rfl
      · rw [canonical, if_neg nonempty]
        rfl
      · rfl
    · rintro rfl
      cases stripped

theorem resolve_ensures {path : Name} (spells : Spells path cs) (parts : ∀ c ∈ cs, IsPart c)
    (cached : r.pathCache.All (Right ns)) :
    (r.resolve ns.root path).Ensures Namespace.service (fun a u =>
      u = ns ∧ a.1 = (ns.lookup cs).getD .invalid ∧ a.2.pathCache.All (Right ns)) ns := by
  by_cases root : cs = []
  · subst root
    rw [spells.root]
    exact ⟨rfl, rfl, cached⟩
  · obtain ⟨head, other, stripped⟩ := spells.key root parts
    obtain ⟨cur', ds', r', eq, ⟨rest, rfl⟩, here, cached', -⟩ :=
      lookupPrefixes_spec (List.nil_prefix : [] <+: ([] : List Name)) (rfl : 0 = _) rfl parts cached
    have keys : (pathOf (ds' ++ rest)).drop 1 = keyOf (ds' ++ rest) := rfl
    simp only [PathResolver.resolve, head, ne_eq, not_true_eq_false, if_false, other, stripped, keys,
      split_parts root (components parts), split_keys root (components parts)]
    rw [List.length_nil] at eq
    rw [eq, drop_zip_keysFrom]
    exact walk_ensures here parts cached'

theorem resolve_runs {path : Name} (spells : Spells path cs) (parts : ∀ c ∈ cs, IsPart c)
    (cached : r.pathCache.All (Right ns)) (ok : r.ClockOk) :
    ∃ r', Runs Namespace.service (r.resolve ns.root path) ns ((ns.lookup cs).getD .invalid, r') ns := by
  by_cases root : cs = []
  · subst root
    rw [spells.root]
    exact ⟨r, .done⟩
  · obtain ⟨head, other, stripped⟩ := spells.key root parts
    obtain ⟨cur', ds', r', eq, ⟨rest, rfl⟩, here, -, ok'⟩ :=
      lookupPrefixes_spec (List.nil_prefix : [] <+: ([] : List Name)) (rfl : 0 = _) rfl parts cached
    have keys : (pathOf (ds' ++ rest)).drop 1 = keyOf (ds' ++ rest) := rfl
    simp only [PathResolver.resolve, head, ne_eq, not_true_eq_false, if_false, other, stripped, keys,
      split_parts root (components parts), split_keys root (components parts)]
    rw [List.length_nil] at eq
    rw [eq, drop_zip_keysFrom]
    exact walk_runs here (ok' ok)

theorem resolveNoCache_runs {path : Name} (spells : Spells path cs) (parts : ∀ c ∈ cs, IsPart c)
    {x : Position} {u : Namespace} :
    Runs Namespace.service (PathResolver.resolveNoCache ns.root path) ns x u ↔
      x = (ns.lookup cs).getD .invalid ∧ u = ns := by
  by_cases root : cs = []
  · subst root
    rw [spells.root]
    exact runs_pure
  · obtain ⟨head, other, stripped⟩ := spells.key root parts
    have keys : (pathOf cs).drop 1 = keyOf cs := rfl
    simp only [PathResolver.resolveNoCache, head, ne_eq, not_true_eq_false, if_false, other, stripped,
      keys, split_parts root (components parts)]
    exact walkNoCache_runs (show ns.lookup [] = some ns.root from rfl)

/-- An entry stays right when no changed entry of a directory lies on its path. -/
theorem Right.frame {ns' : Namespace} {key : Name} {inode : Position} (right : Right ns key inode)
    (tree : ns.Tree) (root : ns'.root = ns.root)
    (changes : ∀ m l, ns'.find m l ≠ ns.find m l →
      ∃ ds, ns.lookup ds = some m ∧ ¬ keyOf (ds ++ [l]) <+: key) : Right ns' key inode := by
  obtain ⟨cs, nonempty, parts, rfl, found⟩ := right
  refine ⟨cs, nonempty, parts, rfl, ?_⟩
  rw [tree.lookup_frame root fun m l changed => ?_, found]
  obtain ⟨ds, here, off⟩ := changes m l changed
  exact ⟨ds, here, fun pre => off (keyOf_mono (by simp) pre)⟩

end

/-! ## The callbacks -/

/-- The callbacks that change directories, and resolution by itself. -/
inductive Call where
  | create (path : Name) (mode : UInt16)
  | mkdir (path : Name) (mode : UInt16)
  | unlink (path : Name)
  | rmdir (path : Name)
  | rename (oldPath newPath : Name) (flags : Nat)
  | resolve (path : Name)

/-- The run of a call, without its result. -/
def Call.body (v : Vfs) : Call → VfsProg Vfs
  | create path mode => do return (← v.sbCreate path mode).2.2
  | mkdir path mode => do return (← v.sbMkdir path mode).2
  | unlink path => do return (← v.sbUnlink path).2
  | rmdir path => do return (← v.sbRmdir path).2
  | rename oldPath newPath flags => do return (← v.sbRename oldPath newPath flags).2
  | resolve path => do return (← v.resolve path).2

/-- The calls that the kernel makes: with canonical paths, and `create` and `mkdir` on
names that do not exist. -/
inductive Call.Allowed (ns : Namespace) : Call → Prop
  | create {cs : List Name} {c : Name} (mode : UInt16) (parts : ∀ d ∈ cs ++ [c], IsPart d)
      (absent : ns.lookup (cs ++ [c]) = none) : Allowed ns (create (canonical (cs ++ [c])) mode)
  | mkdir {cs : List Name} {c : Name} (mode : UInt16) (parts : ∀ d ∈ cs ++ [c], IsPart d)
      (absent : ns.lookup (cs ++ [c]) = none) : Allowed ns (mkdir (canonical (cs ++ [c])) mode)
  | unlink {cs : List Name} {c : Name} (parts : ∀ d ∈ cs ++ [c], IsPart d) :
      Allowed ns (unlink (canonical (cs ++ [c])))
  | rmdir {cs : List Name} {c : Name} (parts : ∀ d ∈ cs ++ [c], IsPart d) :
      Allowed ns (rmdir (canonical (cs ++ [c])))
  | rename {cs ds : List Name} {c d : Name} (flags : Nat) (parts : ∀ e ∈ cs ++ [c], IsPart e)
      (parts' : ∀ e ∈ ds ++ [d], IsPart e) :
      Allowed ns (rename (canonical (cs ++ [c])) (canonical (ds ++ [d])) flags)
  | resolve {cs : List Name} (parts : ∀ c ∈ cs, IsPart c) : Allowed ns (resolve (canonical cs))

/-- What holds between calls. -/
structure Coherent (v : Vfs) (ns : Namespace) : Prop where
  root : v.root = ns.root
  tree : ns.Tree
  cached : v.pathResolver.pathCache.All (Right ns)

section

variable {v : Vfs} {ns : Namespace} {cs : List Name} {c : Name} {path : Name}

theorem canonical_concat (cs : List Name) (c : Name) : canonical (cs ++ [c]) = pathOf (cs ++ [c]) := by
  rw [canonical, if_neg (by simp)]

theorem Coherent.resolve (coherent : Coherent v ns) (spells : Spells path cs)
    (parts : ∀ c ∈ cs, IsPart c) :
    (v.resolve path).Ensures Namespace.service (fun a u =>
      u = ns ∧ a.1 = (ns.lookup cs).getD .invalid ∧ Coherent a.2 ns) ns := by
  rw [Vfs.resolve, coherent.root, ensures_bind]
  refine (resolve_ensures spells parts coherent.cached).mono ?_
  rintro ⟨x, r⟩ u ⟨rfl, same, cached⟩
  exact ⟨rfl, same, rfl, coherent.tree, cached⟩

/-- A parent directory that resolves to a valid inode exists. -/
theorem lookup_of_valid {x : Position} (same : x = (ns.lookup cs).getD .invalid)
    (valid : ¬ (!x.isValid) = true) : ns.lookup cs = some x := by
  cases found : ns.lookup cs with
  | none =>
    rw [found] at same
    subst same
    exact absurd rfl valid
  | some y =>
    rw [found] at same
    exact congrArg some same.symm

theorem removePrefix_ensures {P : Name → Position → Prop} (all : v.pathResolver.pathCache.All P)
    (parts : ∀ d ∈ cs ++ [c], IsPart d) :
    (v.removePrefix (canonical (cs ++ [c]))).Ensures Namespace.service (fun v' u => u = ns ∧
      v'.root = v.root ∧
      v'.pathResolver.pathCache.All fun key inode => P key inode ∧ ¬ keyOf (cs ++ [c]) <+: key) ns := by
  rw [Vfs.removePrefix]
  cases removed : v.pathResolver.removePrefix (canonical (cs ++ [c])) with
  | none => exact ensures_undefined _ _ _
  | some r =>
    have kept := all.removePrefix removed
    rw [canonical_concat, removeEndSlash_pathOf (by simp) (components parts)] at kept
    exact ⟨rfl, rfl, kept⟩

/-- Removing an entry and then the prefix of its path keeps the cache right. -/
theorem Coherent.removeEntry {dir : Position} (coherent : Coherent v ns) (here : ns.lookup cs = some dir)
    (parts : ∀ d ∈ cs ++ [c], IsPart d) :
    (v.removePrefix (canonical (cs ++ [c]))).Ensures Namespace.service (fun v' u => Coherent v' u)
      (ns.set dir c none) := by
  refine (removePrefix_ensures coherent.cached parts).mono ?_
  rintro v' u ⟨rfl, root, cached⟩
  refine ⟨root.trans coherent.root, coherent.tree.set_none dir c, fun e member => ?_⟩
  obtain ⟨right, off⟩ := cached e member
  refine right.frame coherent.tree rfl fun m l changed => ⟨cs, ?_⟩
  by_cases same : m = dir ∧ l = c
  · obtain ⟨rfl, rfl⟩ := same
    exact ⟨here, off⟩
  · exact absurd (setEdge_ne none same) changed

theorem Spells.parent (cs : List Name) : Spells (pathOf cs ++ [slash]) cs := .inr rfl

theorem Coherent.after_create {dir inode : Position} (coherent : Coherent v ns)
    (absent : ns.find dir c = none) (loose : Loose ns.root ns.find inode) :
    Coherent v (ns.create dir c inode) := by
  refine ⟨coherent.root, coherent.tree.create loose dir c, fun e member => ?_⟩
  obtain ⟨cs, nonempty, parts, same, found⟩ := coherent.cached e member
  exact ⟨cs, nonempty, parts, same, Namespace.lookup_create absent loose found⟩

/-- The common part of `sb_mkdir` and `sb_create`. -/
theorem Coherent.createEntry {dir : Position} {type : DiskInodeType} {mode : UInt16}
    (coherent : Coherent v ns) (here : ns.lookup cs = some dir) (absent : ns.lookup (cs ++ [c]) = none)
    {r : Ret × Option Position} {u : Namespace}
    (answer : Namespace.service (.create dir c type mode) ns r u) : Coherent v u := by
  rw [Namespace.lookup_concat, here, Option.bind_some] at absent
  obtain ⟨inode, loose, -, rfl⟩ | ⟨-, rfl⟩ := answer absent
  · exact coherent.after_create absent loose
  · exact coherent

theorem sbMkdir_ensures (coherent : Coherent v ns) (parts : ∀ d ∈ cs ++ [c], IsPart d)
    (absent : ns.lookup (cs ++ [c]) = none) (mode : UInt16) :
    (v.sbMkdir (canonical (cs ++ [c])) mode).Ensures Namespace.service
      (fun a u => Coherent a.2 u) ns := by
  rw [canonical_concat, Vfs.sbMkdir, splitFromLastSlash_pathOf cs (parts c (by simp)).component, ensures_bind]
  refine (coherent.resolve (.parent cs) fun d member => parts d (List.mem_append_left _ member)).mono ?_
  rintro ⟨x, v₁⟩ u ⟨rfl, same, coherent₁⟩
  dsimp only at coherent₁ ⊢
  split
  · exact coherent₁
  · rename_i valid
    rw [ensures_bind, VfsProg.create, ensures_call]
    intro r u' answer
    exact coherent₁.createEntry (lookup_of_valid same valid) absent answer

theorem sbCreate_ensures (coherent : Coherent v ns) (parts : ∀ d ∈ cs ++ [c], IsPart d)
    (absent : ns.lookup (cs ++ [c]) = none) (mode : UInt16) :
    (v.sbCreate (canonical (cs ++ [c])) mode).Ensures Namespace.service
      (fun a u => Coherent a.2.2 u) ns := by
  rw [canonical_concat, Vfs.sbCreate, splitFromLastSlash_pathOf cs (parts c (by simp)).component, ensures_bind]
  refine (coherent.resolve (.parent cs) fun d member => parts d (List.mem_append_left _ member)).mono ?_
  rintro ⟨x, v₁⟩ u ⟨rfl, same, coherent₁⟩
  dsimp only at coherent₁ ⊢
  split
  · exact coherent₁
  · rename_i valid
    rw [ensures_bind, VfsProg.create, ensures_call]
    intro r u' answer
    have made := coherent₁.createEntry (lookup_of_valid same valid) absent answer
    exact ⟨made.root, made.tree, made.cached⟩

/-- The common end of `sb_unlink` and `sb_rmdir`. -/
theorem removeThen_ensures {dir : Position} (coherent : Coherent v ns) (here : ns.lookup cs = some dir)
    (parts : ∀ d ∈ cs ++ [c], IsPart d) :
    (do let _ ← VfsProg.remove dir c
        return ((0 : Int), ← v.removePrefix (canonical (cs ++ [c]))) : VfsProg (Int × Vfs)).Ensures
      Namespace.service (fun a u => Coherent a.2 u) ns := by
  rw [ensures_bind, VfsProg.remove, ensures_call]
  rintro r u ⟨-, rfl⟩
  rw [ensures_bind]
  exact coherent.removeEntry here parts

theorem sbUnlink_ensures (coherent : Coherent v ns) (parts : ∀ d ∈ cs ++ [c], IsPart d) :
    (v.sbUnlink (canonical (cs ++ [c]))).Ensures Namespace.service (fun a u => Coherent a.2 u) ns := by
  rw [Vfs.sbUnlink, canonical_concat, splitFromLastSlash_pathOf cs (parts c (by simp)).component, ensures_bind,
    ← canonical_concat]
  refine (coherent.resolve (.parent cs) fun d member => parts d (List.mem_append_left _ member)).mono ?_
  rintro ⟨x, v₁⟩ u ⟨rfl, same, coherent₁⟩
  dsimp only at coherent₁ ⊢
  split
  · exact coherent₁
  · rename_i valid
    rw [ensures_bind, VfsProg.find, ensures_call]
    rintro r u' ⟨rfl, rfl⟩
    split
    · exact coherent₁
    · exact removeThen_ensures coherent₁ (lookup_of_valid same valid) parts

theorem sbRmdir_ensures (coherent : Coherent v ns) (parts : ∀ d ∈ cs ++ [c], IsPart d) :
    (v.sbRmdir (canonical (cs ++ [c]))).Ensures Namespace.service (fun a u => Coherent a.2 u) ns := by
  rw [Vfs.sbRmdir, canonical_concat, splitFromLastSlash_pathOf cs (parts c (by simp)).component, ensures_bind,
    ← canonical_concat]
  refine (coherent.resolve (.parent cs) fun d member => parts d (List.mem_append_left _ member)).mono ?_
  rintro ⟨x, v₁⟩ u ⟨rfl, same, coherent₁⟩
  dsimp only at coherent₁ ⊢
  split
  · exact coherent₁
  · rename_i valid
    rw [ensures_bind, VfsProg.find, ensures_call]
    rintro r u' ⟨rfl, rfl⟩
    split
    · exact coherent₁
    · rw [ensures_bind, VfsProg.checkEmpty, ensures_call]
      rintro ret u rfl
      split
      · exact coherent₁
      · exact removeThen_ensures coherent₁ (lookup_of_valid same valid) parts

/-! ### `sb_rename` -/

/-- Between the first and the last step of `sb_rename`: the source has no name, and
entries outside `A` are as before. -/
structure Moving (ns : Namespace) (A : Position → Name → Prop) (source : Position) (u : Namespace) :
    Prop where
  root : u.root = ns.root
  tree : u.Tree
  loose : Loose u.root u.find source
  off : ∀ m l, ¬ A m l → u.find m l = ns.find m l

section Rename

variable {A : Position → Name → Prop} {source : Position} {u : Namespace} {dir : Position}

theorem Moving.erase (moving : Moving ns A source u) (changed : A dir c) :
    Moving ns A source (u.set dir c none) := by
  refine ⟨moving.root, moving.tree.set_none dir c, moving.loose.of_sub setEdge_none_sub, ?_⟩
  intro m l out
  rw [← moving.off m l out]
  exact setEdge_ne none fun same => out (by rw [same.1, same.2]; exact changed)

theorem Moving.insert (moving : Moving ns A source u) (changed : A dir c) {x : Position}
    (loose : Loose u.root u.find x) (other : x ≠ source) :
    Moving ns A source (u.set dir c (some x)) := by
  refine ⟨moving.root, IsTree.insert moving.tree loose dir c, moving.loose.insert other dir c, ?_⟩
  intro m l out
  rw [← moving.off m l out]
  exact setEdge_ne _ fun same => out (by rw [same.1, same.2]; exact changed)

theorem linkIn_ensures {inode : Position} (dir : Position) (c : Name) (replace : Bool) :
    (Vfs.linkIn dir c (some inode) replace).Ensures Namespace.service
      (fun _ u' => u' = u ∨ u' = u.set dir c (some inode)) u := by
  rw [Vfs.linkIn]
  split
  · exact ensures_undefined _ _ _
  · rw [ensures_bind, VfsProg.link, ensures_call]
    rintro r u' (⟨-, -, rfl⟩ | ⟨-, rfl⟩)
    · exact .inr rfl
    · exact .inl rfl

theorem exchange_ensures {dir' : Position} {c' : Name} (moving : Moving ns A source u)
    (changed : A dir c) (changed' : A dir' c') :
    (Vfs.exchange dir c dir' c').Ensures Namespace.service (fun _ u' => Moving ns A source u') u := by
  rw [Vfs.exchange]
  split
  · exact ensures_undefined _ _ _
  · rw [ensures_bind, VfsProg.unlink, ensures_call]
    rintro r u₁ ⟨rfl, rfl⟩
    dsimp only
    cases found : u.find dir' c' with
    | none => exact ensures_undefined _ _ _
    | some target =>
      have loose : Loose u.root (u.set dir' c' none).find target :=
        IsTree.loose_erase moving.tree found
      have other : target ≠ source := fun same => moving.loose.2 dir' c' (same ▸ found)
      have erased := moving.erase changed'
      refine (linkIn_ensures dir c false).mono ?_
      rintro _ u' (rfl | rfl)
      · exact erased
      · exact erased.insert changed loose other

/-- The end of `sb_rename`: both prefixes are removed after entries on the two paths have
changed. -/
theorem removeBoth_ensures {ds : List Name} {d : Name} (coherent : Coherent v ns)
    (parts : ∀ e ∈ cs ++ [c], IsPart e) (parts' : ∀ e ∈ ds ++ [d], IsPart e) (root : u.root = ns.root)
    (tree : u.Tree) (off : ∀ m l, u.find m l ≠ ns.find m l →
      (ns.lookup cs = some m ∧ l = c) ∨ (ns.lookup ds = some m ∧ l = d)) :
    (do let v ← v.removePrefix (canonical (cs ++ [c]))
        let v ← v.removePrefix (canonical (ds ++ [d]))
        return ((0 : Int), v) : VfsProg (Int × Vfs)).Ensures Namespace.service
      (fun a u => Coherent a.2 u) u := by
  rw [ensures_bind]
  refine (removePrefix_ensures coherent.cached parts).mono ?_
  rintro v₁ _ ⟨rfl, root₁, cached₁⟩
  rw [ensures_bind]
  refine (removePrefix_ensures cached₁ parts').mono ?_
  rintro v₂ _ ⟨rfl, root₂, cached₂⟩
  refine ⟨by rw [root₂, root₁, coherent.root, root], tree, fun e member => ?_⟩
  obtain ⟨⟨right, notOld⟩, notNew⟩ := cached₂ e member
  refine right.frame coherent.tree root fun m l changed => ?_
  obtain ⟨here, rfl⟩ | ⟨here, rfl⟩ := off m l changed
  · exact ⟨cs, here, notOld⟩
  · exact ⟨ds, here, notNew⟩

theorem sbRename_ensures {ds : List Name} {d : Name} (coherent : Coherent v ns)
    (parts : ∀ e ∈ cs ++ [c], IsPart e) (parts' : ∀ e ∈ ds ++ [d], IsPart e) (flags : Nat) :
    (v.sbRename (canonical (cs ++ [c])) (canonical (ds ++ [d])) flags).Ensures Namespace.service
      (fun a u => Coherent a.2 u) ns := by
  have splits : ∀ (ds : List Name) (d : Name), (∀ e ∈ ds ++ [d], IsPart e) →
      splitFromLastSlash (canonical (ds ++ [d])) = (pathOf ds ++ [slash], d) := by
    intro ds d parts
    rw [canonical_concat, splitFromLastSlash_pathOf ds (parts d (by simp)).component]
  rw [Vfs.sbRename, splits cs c parts, splits ds d parts', ensures_bind]
  refine (coherent.resolve (.parent cs) fun d member => parts d (List.mem_append_left _ member)).mono ?_
  rintro ⟨dir, v₁⟩ u ⟨rfl, same, coherent₁⟩
  dsimp only at same coherent₁ ⊢
  split
  · exact coherent₁
  · rename_i valid
    have here := lookup_of_valid same valid
    rw [ensures_bind]
    refine (coherent₁.resolve (.parent ds) fun d member =>
      parts' d (List.mem_append_left _ member)).mono ?_
    rintro ⟨dir', v₂⟩ u ⟨rfl, same', coherent₂⟩
    dsimp only at same' coherent₂ ⊢
    rw [ensures_bind, VfsProg.unlink, ensures_call]
    rintro r u₁ ⟨rfl, rfl⟩
    cases found : u.find dir c with
    | none =>
      -- there is no such entry, and nothing is unlinked
      have unchanged : Coherent v₂ (u.set dir c none) := by
        refine ⟨coherent₂.root, coherent₂.tree.set_none dir c, fun e member => ?_⟩
        refine (coherent₂.cached e member).frame coherent₂.tree rfl fun m l changed => ?_
        by_cases entry : m = dir ∧ l = c
        · obtain ⟨rfl, rfl⟩ := entry
          exact absurd ((setEdge_same none).trans found.symm) changed
        · exact absurd (setEdge_ne none entry) changed
      exact unchanged
    | some source =>
      -- the two entries that the call may change
      let A : Position → Name → Prop := fun m l => (m = dir ∧ l = c) ∨ (m = dir' ∧ l = d)
      have moving : Moving u A source (u.set dir c none) :=
        ⟨rfl, coherent₂.tree.set_none dir c, IsTree.loose_erase coherent₂.tree found,
          fun m l out => setEdge_ne none fun entry => out (.inl entry)⟩
      -- the link and both `removePrefix`, after any exchange
      have finish : ∀ w, Moving u A source w →
          (do Vfs.linkIn dir' d (some source) (!flags.testBit 0)
              let v ← v₂.removePrefix (canonical (cs ++ [c]))
              let v ← v.removePrefix (canonical (ds ++ [d]))
              return ((0 : Int), v) : VfsProg (Int × Vfs)).Ensures Namespace.service
            (fun a u => Coherent a.2 u) w := by
        intro w moving
        rw [ensures_bind]
        by_cases invalid : (!dir'.isValid) = true
        · rw [Vfs.linkIn, if_pos invalid]
          exact ensures_undefined _ _ _
        · have there := lookup_of_valid same' invalid
          refine (linkIn_ensures dir' d _).mono ?_
          have outside : ∀ m l, ¬ ((u.lookup cs = some m ∧ l = c) ∨ (u.lookup ds = some m ∧ l = d)) →
              ¬ A m l := by
            rintro m l out (⟨rfl, rfl⟩ | ⟨rfl, rfl⟩)
            · exact out (.inl ⟨here, rfl⟩)
            · exact out (.inr ⟨there, rfl⟩)
          -- the result of the link is dropped, so that both outcomes are to be covered
          rintro _ w' (rfl | rfl)
          · refine removeBoth_ensures coherent₂ parts parts' moving.root moving.tree fun m l changed => ?_
            by_contra out
            exact changed (moving.off m l (outside m l out))
          · refine removeBoth_ensures coherent₂ parts parts' moving.root
              (IsTree.insert moving.tree moving.loose dir' d) fun m l changed => ?_
            by_contra out
            have off := outside m l out
            exact changed ((setEdge_ne _ fun entry => off (.inr entry)).trans (moving.off m l off))
      simp only [Option.isSome_some, if_true]
      split
      · rw [ensures_bind]
        exact (exchange_ensures moving (.inl ⟨rfl, rfl⟩) (.inr ⟨rfl, rfl⟩)).mono fun _ w => finish w
      · exact finish _ moving

end Rename

/-! ### All of them -/

/-- One call keeps the cache right. -/
theorem Call.body_ensures {call : Call} (coherent : Coherent v ns) (allowed : call.Allowed ns) :
    (call.body v).Ensures Namespace.service (fun v' u => Coherent v' u) ns := by
  cases allowed with
  | create mode parts absent =>
    rw [body, ensures_bind]
    exact sbCreate_ensures coherent parts absent mode
  | mkdir mode parts absent =>
    rw [body, ensures_bind]
    exact sbMkdir_ensures coherent parts absent mode
  | unlink parts =>
    rw [body, ensures_bind]
    exact sbUnlink_ensures coherent parts
  | rmdir parts =>
    rw [body, ensures_bind]
    exact sbRmdir_ensures coherent parts
  | rename flags parts parts' =>
    rw [body, ensures_bind]
    exact sbRename_ensures coherent parts parts' flags
  | resolve parts =>
    rw [body, ensures_bind]
    refine (coherent.resolve (.inl rfl) parts).mono ?_
    rintro a u ⟨rfl, -, coherent'⟩
    exact coherent'

end

end Sbfs
