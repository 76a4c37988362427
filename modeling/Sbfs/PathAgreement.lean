import Sbfs.PathClock

/-! # Cached and uncached resolution

Runs of the callbacks that change directories, with resolutions in between.  Every key of the
cache leads where it says in all states that are reached, so `resolve` gives what
`resolveNoCache` gives, and with the configured size it does return (`resolve_agrees`). -/

namespace Sbfs

open ReqProg NamedTree

section

variable {v : Vfs} {ns : Namespace}

/-- The states that calls lead to.  Between calls `evict` may have dropped any entries and
left the clock anywhere. -/
inductive Reached (v₀ : Vfs) (ns₀ : Namespace) : Vfs → Namespace → Prop
  | start : Reached v₀ ns₀ v₀ ns₀
  | step {v v' : Vfs} {ns ns' : Namespace} {call : Call} :
      Reached v₀ ns₀ v ns → call.Allowed ns → Runs Namespace.service (call.body v) ns v' ns' →
      Reached v₀ ns₀ v' ns'
  | evicted {v : Vfs} {ns : Namespace} {r : PathResolver} :
      Reached v₀ ns₀ v ns → r.pathCache ⊆ v.pathResolver.pathCache →
      Reached v₀ ns₀ { v with pathResolver := r } ns

theorem Reached.coherent {v₀ : Vfs} {ns₀ : Namespace} (start : Coherent v₀ ns₀)
    (reached : Reached v₀ ns₀ v ns) : Coherent v ns := by
  induction reached with
  | start => exact start
  | step _ allowed runs ih => exact ensures_iff_runs.mp (Call.body_ensures ih allowed) _ _ runs
  | evicted _ sub ih => exact ⟨ih.root, ih.tree, fun e member => ih.cached e (sub member)⟩

/-- Nothing has to be dropped from outside. -/
theorem Called.reached {v₀ : Vfs} {ns₀ : Namespace} (called : Called v₀ ns₀ v ns) : Reached v₀ ns₀ v ns := by
  induction called with
  | start => exact .start
  | step _ allowed _ runs ih => exact .step ih allowed runs

/-- From an empty cache and any directory tree, in every state that calls lead to:
`resolveNoCache` has one result for each canonical path, `resolve` returns nothing else
(and returns, unless its clock iterator dangles), and each key of the cache maps to the
inode that `resolveNoCache` gives for it.  With the size that `init_vfs` gives the cache the
iterator does not dangle as long as the calls are on paths below 16 MiB. -/
theorem resolve_agrees {v₀ : Vfs} {ns₀ : Namespace} (root : v₀.root = ns₀.root) (tree : ns₀.Tree)
    {size : Nat} (empty : v₀.pathResolver = .new size) (reached : Reached v₀ ns₀ v ns) :
    (∀ cs : List Name, (∀ c ∈ cs, IsPart c) → ∃ x,
      (∀ y u, Runs Namespace.service (PathResolver.resolveNoCache v.root (canonical cs)) ns y u ↔
        y = x ∧ u = ns) ∧
      (∀ a u, Runs Namespace.service (v.resolve (canonical cs)) ns a u → a.1 = x ∧ u = ns) ∧
      (v.pathResolver.ClockOk →
        ∃ v', Runs Namespace.service (v.resolve (canonical cs)) ns (x, v') ns)) ∧
    (∀ e ∈ v.pathResolver.pathCache, ∀ y u,
      Runs Namespace.service (PathResolver.resolveNoCache v.root (slash :: e.1)) ns y u ↔
        y = e.2.inode ∧ u = ns) ∧
    (size = kPathCacheSize → Called v₀ ns₀ v ns → v.pathResolver.ClockOk) := by
  have coherent : Coherent v ns := reached.coherent ⟨root, tree, by rw [empty]; exact fun e none => by cases none⟩
  refine ⟨fun cs parts => ⟨(ns.lookup cs).getD .invalid, ?_, ?_, ?_⟩, ?_, ?_⟩
  · intro y u
    rw [coherent.root]
    exact resolveNoCache_runs (.inl rfl) parts
  · intro a u runs
    obtain ⟨same, value, -⟩ := ensures_iff_runs.mp (coherent.resolve (.inl rfl) parts) a u runs
    exact ⟨value, same⟩
  · -- with a clock that does not dangle the run of `resolve` is built, so that it returns
    intro ok
    obtain ⟨r', runs⟩ := resolve_runs (.inl rfl) parts coherent.cached ok
    refine ⟨{ v with pathResolver := r' }, ?_⟩
    rw [Vfs.resolve, coherent.root, runs_bind]
    refine ⟨_, ns, runs, ?_⟩
    rw [← coherent.root]
    exact .done
  · -- a key of the cache is a canonical path without the first slash
    intro e member y u
    obtain ⟨cs, nonempty, parts, same, found⟩ := coherent.cached e member
    rw [same, slash_keyOf, coherent.root, resolveNoCache_runs (.inl rfl) parts, found]
    rfl
  · rintro rfl called
    exact called.clockOk empty

end

/-! ### A directory with another name -/

/-- A root without entries, and the state after mounting it. -/
def emptyNamespace : Namespace := ⟨⟨2, 0⟩, fun _ _ => none⟩

def freshVfs : Vfs := ⟨⟨2, 0⟩, .new kPathCacheSize, .new⟩

theorem emptyNamespace_tree : emptyNamespace.Tree :=
  ⟨fun _ _ edge => (by cases edge), fun _ _ _ _ _ edge => (by cases edge)⟩

def oneDir : Namespace := emptyNamespace.create ⟨2, 0⟩ [97] ⟨2, 256⟩

/-- The directory `a` has become `b`. -/
def movedDir : Namespace := (oneDir.set ⟨2, 0⟩ [97] none).set ⟨2, 0⟩ [98] (some ⟨2, 256⟩)

/-- The inode of the directory is cached under a name. -/
def cachedVfs (c : Name) : Vfs :=
  { freshVfs with pathResolver := { freshVfs.pathResolver with pathCache := [(c, ⟨⟨2, 256⟩, true⟩)] } }

theorem resolves_cached {ns : Namespace} {c : Name} (part : IsPart c)
    (found : ns.find ⟨2, 0⟩ c = some ⟨2, 256⟩) :
    Runs Namespace.service ((Call.resolve (slash :: c)).body freshVfs) ns (cachedVfs c) ns := by
  have unused : freshVfs.pathResolver.Unused := ⟨rfl, rfl⟩
  have answers : Namespace.service (.find freshVfs.root c) ns (some ⟨2, 256⟩) ns := ⟨found.symm, rfl⟩
  have runs := runs_resolve_one (r := freshVfs.pathResolver) (.one c) part rfl answers
    (unused.remember c ⟨2, 256⟩)
  have resolved : Runs Namespace.service (freshVfs.resolve (slash :: c)) ns (⟨2, 256⟩, cachedVfs c) ns := by
    rw [Vfs.resolve, runs_bind]
    exact ⟨_, ns, runs, .done⟩
  rw [Call.body, runs_bind]
  exact ⟨_, ns, resolved, .done⟩

theorem renames_cached : Runs Namespace.service ((Call.rename [47, 97] [47, 98] 0).body (cachedVfs [97])) oneDir
    freshVfs movedDir := by
  have unlinked : Namespace.service (.unlink ⟨2, 0⟩ [97]) oneDir (.kSuccess, some ⟨2, 256⟩)
      (oneDir.set ⟨2, 0⟩ [97] none) := ⟨rfl, rfl⟩
  have linked : Namespace.service (.link ⟨2, 0⟩ [98] ⟨2, 256⟩ true) (oneDir.set ⟨2, 0⟩ [97] none) .kSuccess
      movedDir := .inl ⟨rfl, .inl rfl, rfl⟩
  exact .ask unlinked (.ask linked .done)

/-- The calls are `mkdir /a`, the resolution of `/a`, `rename /a /b` and the resolution of `/b`.
Then `/b` is cached and gives the inode, and `/a` gives none. -/
theorem resolve_agrees_movedDir : Called freshVfs emptyNamespace (cachedVfs [98]) movedDir ∧
    (∃ v', Runs Namespace.service ((cachedVfs [98]).resolve [47, 98]) movedDir (⟨2, 256⟩, v') movedDir) ∧
    ∀ a u, Runs Namespace.service ((cachedVfs [98]).resolve [47, 97]) movedDir a u →
      a.1 = .invalid ∧ u = movedDir := by
  have one : ∀ {c : Name}, IsPart c → ∀ d ∈ [] ++ [c], IsPart d := by
    intro c part d member
    rw [List.nil_append, List.mem_singleton] at member
    exact member ▸ part
  have short : ∀ {path : Name}, path.length = 2 → ShortPath path := by
    intro path two
    rw [ShortPath, entrySize, two]
    decide
  have loose : Loose emptyNamespace.root emptyNamespace.find ⟨2, 256⟩ :=
    ⟨by decide, fun _ _ edge => by cases edge⟩
  -- the four calls, one after the other
  have made : Called freshVfs emptyNamespace freshVfs oneDir := by
    refine .step .start (.mkdir 0 (one isPart_a) rfl) (short rfl)
      (.ask (r := (.kSuccess, some ⟨2, 256⟩)) ?_ .done)
    exact fun _ => .inl ⟨_, loose, rfl, rfl⟩
  have resolved : Called freshVfs emptyNamespace (cachedVfs [97]) oneDir :=
    .step made (.resolve (one isPart_a)) (short rfl) (resolves_cached isPart_a rfl)
  have renamed : Called freshVfs emptyNamespace freshVfs movedDir :=
    .step resolved (.rename 0 (one isPart_a) (one isPart_b)) ⟨short rfl, short rfl⟩ renames_cached
  have again : Called freshVfs emptyNamespace (cachedVfs [98]) movedDir :=
    .step renamed (.resolve (one isPart_b)) (short rfl) (resolves_cached isPart_b rfl)
  have root : freshVfs.root = emptyNamespace.root := rfl
  obtain ⟨agrees, -, clock⟩ := resolve_agrees root emptyNamespace_tree rfl again.reached
  have ok := clock rfl again
  -- what `resolveNoCache` gives is read off the namespace, and `agrees` says the same of `resolve`
  have plain : ∀ {c : Name}, IsPart c → Runs Namespace.service (PathResolver.resolveNoCache movedDir.root
      (canonical ([] ++ [c]))) movedDir ((movedDir.lookup ([] ++ [c])).getD .invalid) movedDir :=
    fun part => (resolveNoCache_runs (.inl rfl) (one part)).mpr ⟨rfl, rfl⟩
  refine ⟨again, ?_, ?_⟩
  · obtain ⟨x, noCache, -, returns⟩ := agrees [[98]] (one isPart_b)
    have value : (⟨2, 256⟩ : Position) = x := ((noCache _ _).mp (plain isPart_b)).1
    rw [value]
    exact returns ok
  · obtain ⟨x, noCache, only, -⟩ := agrees [[97]] (one isPart_a)
    have value : Position.invalid = x := ((noCache _ _).mp (plain isPart_a)).1
    rw [value]
    exact only

end Sbfs
