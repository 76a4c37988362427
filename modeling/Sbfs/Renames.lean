import Sbfs.OpenHandles

/-! # Renames

A `rename` that finds room for its link moves what lies at the old name, with everything below it, to the new name
and changes no other path (`FileTree.PathsMoved`).  It gives back nothing of a file that it replaces, and it leaves
`..` as it was. -/

namespace Sbfs

open NamedTree FileTree

/-! ## The tree after a rename -/

/-- Name `c` of `dir` has become name `d` of `dir'`, and `vacated` has taken its place. -/
structure FileTree.Relocated (t : FileTree) (dir : Position) (c : Name) (dir' : Position) (d : Name)
    (vacated : Option Position) (u : FileTree) : Prop where
  root : u.root = t.root
  find : u.find = move t.find dir c dir' d vacated
  kind : u.kind = t.kind
  dots : u.dots = t.dots
  content : u.content = t.content

section

variable {t u w : FileTree} {dir dir' x y : Position} {c d : Name} {cs ds path rest : List Name} {flags : Nat}
  {replace : Bool} {vacated : Option Position}

theorem FileTree.size_mono (fewer : ∀ name, u.find dir name ≠ none → t.find dir name ≠ none) (dots : u.dots = t.dots) :
    u.size dir ≤ t.size dir := by
  rw [FileTree.size, FileTree.size, dots]
  exact add_le_add_left (Set.encard_le_encard fewer) _

/-- A directory with fewer entries is not large either. -/
theorem FileTree.not_large (small : ¬ t.Large dir) (fewer : u.size dir ≤ t.size dir) : ¬ u.Large dir :=
  fun large => small (lt_of_lt_of_le large fewer)

theorem detach_fewer (m : Position) (name : Name) (there : (t.detach dir c x).find m name ≠ none) :
    t.find m name ≠ none := by
  obtain ⟨y, edge⟩ := Option.ne_none_iff_exists'.mp there
  rw [setEdge_none_sub _ _ _ edge]
  exact Option.some_ne_none y

/-- A `link` of a name that is absent from a directory that is not large. -/
theorem FileTree.Linked.small (small : ¬ t.Large dir) (free : replace = false → t.find dir c = none)
    (linked : t.Linked dir c x replace u) : u = (t.setEntry dir c (some x)).recount x (· + 1) := by
  obtain ⟨same, -⟩ | ⟨-, ⟨keeps, taken⟩ | large⟩ := linked.cases
  · exact same
  · exact absurd (free keeps) taken
  · exact absurd large small

/-- The directories that get an entry have room for it, and a name that must not be replaced is absent. -/
def FileTree.FindsPlace (t : FileTree) (dir : Position) (c : Name) (dir' : Position) (d : Name) (flags : Nat)
    (x : Position) : Prop :=
  if flags.testBit 1 = true then
    ∀ y, (t.detach dir c x).find dir' d = some y → ¬ ((t.detach dir c x).detach dir' d y).Large dir ∧
      ¬ (((t.detach dir c x).detach dir' d y).setEntry dir c (some y)).Large dir'
  else (flags.testBit 0 = true → (t.detach dir c x).find dir' d = none) ∧ ¬ (t.detach dir c x).Large dir'

/-- Directories that are not large have room. -/
theorem FileTree.FindsPlace.of_small (found : t.find dir c = some x) (small : ¬ t.Large dir) (small' : ¬ t.Large dir')
    (free : flags.testBit 1 = false → flags.testBit 0 = true → t.find dir' d = none) :
    t.FindsPlace dir c dir' d flags x := by
  have less : ∀ m, (t.detach dir c x).size m ≤ t.size m := fun m => size_mono (detach_fewer m) rfl
  rw [FindsPlace]
  split
  next =>
    refine fun y target => ⟨not_large small ((size_mono (detach_fewer dir) rfl).trans (less dir)), not_large small' ?_⟩
    -- the entry that has come back is at a name that was there
    refine size_mono (fun name linked => ?_) rfl
    by_cases old : dir' = dir ∧ name = c
    · rw [old.1, old.2, found]
      exact Option.some_ne_none x
    · have kept : ((t.detach dir c x).detach dir' d y).find dir' name ≠ none :=
        fun none => linked ((setEdge_ne _ old).trans none)
      exact detach_fewer _ _ (detach_fewer _ _ kept)
  next plain =>
    refine ⟨fun keeps => ?_, not_large small' (less dir')⟩
    by_contra there
    exact detach_fewer _ _ there (free (Bool.not_eq_true _ ▸ plain) keeps)

theorem FileTree.Renamed.relocated (found : t.find dir c = some x) (place : t.FindsPlace dir c dir' d flags x)
    (moves : t.Renamed dir c dir' d flags x u) :
    t.Relocated dir c dir' d (if flags.testBit 1 = true then t.find dir' d else none) u := by
  rw [FindsPlace] at place
  cases moves with
  | moved plain link =>
    rw [plain, if_neg Bool.false_ne_true] at place
    obtain rfl := link.small place.2 fun keeps => place.1 (by simpa using keeps)
    rw [plain, if_neg Bool.false_ne_true]
    exact ⟨rfl, by rw [move, found]; rfl, rfl, rfl, rfl⟩
  | @exchanged y _ _ flag target back link =>
    rw [flag, if_pos rfl] at place
    obtain ⟨room, room'⟩ := place y target
    have there : t.find dir' d = some y := setEdge_none_sub _ _ _ target
    -- a name cannot be exchanged with itself
    have apart : ¬ (dir' = dir ∧ d = c) := by
      rintro ⟨rfl, rfl⟩
      rw [show (t.detach dir' d x).find dir' d = none from setEdge_same _] at target
      cases target
    have gone : ((t.detach dir c x).detach dir' d y).find dir c = none :=
      (setEdge_ne _ fun same => apart ⟨same.1.symm, same.2.symm⟩).trans (setEdge_same _)
    obtain rfl := back.small room fun _ => gone
    have counted : ¬ ((((t.detach dir c x).detach dir' d y).setEntry dir c (some y)).recount y (· + 1)).Large dir' := room'
    obtain rfl := link.small counted fun _ => (setEdge_ne _ apart).trans (setEdge_same _)
    rw [flag, if_pos rfl, there]
    refine ⟨rfl, ?_, rfl, rfl, rfl⟩
    funext m l
    by_cases new : m = dir' ∧ l = d
    · rw [new.1, new.2, move, found]
      exact (setEdge_same _).trans (setEdge_same _).symm
    · by_cases old : m = dir ∧ l = c
      · rw [old.1, old.2, move, setEdge_ne _ fun same => apart ⟨same.1.symm, same.2.symm⟩, setEdge_same]
        exact (setEdge_ne _ fun same => apart ⟨same.1.symm, same.2.symm⟩).trans (setEdge_same _)
      · rw [move, setEdge_ne _ new, setEdge_ne _ old]
        exact (setEdge_ne _ new).trans <| (setEdge_ne _ old).trans <| (setEdge_ne _ new).trans (setEdge_ne _ old)

/-! ## The entries after a rename -/

section

variable {m z : Position} {l : Name}

theorem FileTree.Linked.elsewhere (linked : t.Linked dir c x replace u) (off : ¬ (m = dir ∧ l = c)) :
    u.find m l = t.find m l := by
  obtain ⟨rfl, -⟩ | ⟨rfl, -⟩ := linked.cases
  · exact setEdge_ne _ off
  · rfl

theorem FileTree.Linked.edge (linked : t.Linked dir c x replace u) (edge : u.find m l = some z) :
    t.find m l = some z ∨ m = dir ∧ z = x := by
  obtain ⟨rfl, -⟩ | ⟨rfl, -⟩ := linked.cases
  · obtain ⟨here, -, same⟩ | ⟨-, old⟩ := setEdge_some edge
    · exact .inr ⟨here, (Option.some.inj same).symm⟩
    · exact .inl old
  · exact .inl edge

/-- A rename changes no entry but the two that it names. -/
theorem FileTree.Renamed.elsewhere (moves : t.Renamed dir c dir' d flags x u) (off : ¬ (m = dir ∧ l = c))
    (off' : ¬ (m = dir' ∧ l = d)) : u.find m l = t.find m l := by
  cases moves with
  | moved _ link => exact (link.elsewhere off').trans (setEdge_ne _ off)
  | exchanged _ _ back link =>
    calc u.find m l = _ := link.elsewhere off'
      _ = _ := back.elsewhere off
      _ = _ := setEdge_ne _ off'
      _ = t.find m l := setEdge_ne _ off

/-- The entries after a rename: old ones, that of the source, and that of the target if the two are exchanged. -/
theorem FileTree.Renamed.edge (moves : t.Renamed dir c dir' d flags x u) (edge : u.find m l = some z) :
    t.find m l = some z ∨ m = dir' ∧ z = x ∨ flags.testBit 1 = true ∧ m = dir ∧ t.find dir' d = some z := by
  cases moves with
  | moved _ link =>
    obtain old | new := link.edge edge
    · exact .inl (setEdge_none_sub _ _ _ old)
    · exact .inr (.inl new)
  | exchanged flag target back link =>
    obtain old | new := link.edge edge
    · obtain old | ⟨here, rfl⟩ := back.edge old
      · exact .inl (setEdge_none_sub _ _ _ (setEdge_none_sub _ _ _ old))
      · exact .inr (.inr ⟨flag, here, setEdge_none_sub _ _ _ target⟩)
    · exact .inr (.inl new)

end

theorem FileTree.Linked.root (linked : t.Linked dir c x replace u) : u.root = t.root := by
  obtain ⟨rfl, -⟩ | ⟨rfl, -⟩ := linked.cases
  · rfl
  · rfl

theorem FileTree.Renamed.root (moves : t.Renamed dir c dir' d flags x u) : u.root = t.root := by
  cases moves with
  | moved _ link => exact link.root
  | exchanged _ _ back link => exact link.root.trans back.root

/-! ## Paths -/

/-- What lay at path `old` and below it lies at `new`, and the other way round if the two have been exchanged. -/
structure FileTree.PathsMoved (t : FileTree) (old new : List Name) (exchange : Bool) (u : FileTree) : Prop where
  moved : ∀ rest, u.lookup (new ++ rest) = t.lookup (old ++ rest)
  vacated : ∀ rest, u.lookup (old ++ rest) = if exchange = true then t.lookup (new ++ rest) else none
  elsewhere : ∀ path, ¬ old <+: path → ¬ new <+: path → u.lookup path = t.lookup path

theorem FileTree.Relocated.paths (sound : t.Sound) (parent : t.Dir cs dir) (parent' : t.Dir ds dir')
    (outside : ¬ cs ++ [c] <+: ds) (outside' : ¬ ds ++ [d] <+: cs ++ [c]) {exchange : Bool}
    (moved : t.Relocated dir c dir' d (if exchange = true then t.find dir' d else none) u)
    (there : exchange = true → t.find dir' d ≠ none) : t.PathsMoved (cs ++ [c]) (ds ++ [d]) exchange u := by
  have below : ¬ ds ++ [d] <+: cs := fun pre => outside' (pre.trans (List.prefix_append cs [c]))
  have other : ¬ (dir = dir' ∧ c = d) := by
    rintro ⟨rfl, rfl⟩
    exact outside' (sound.tree.path_unique parent'.1 parent.1 ▸ List.prefix_rfl)
  have walks : ∀ path, u.lookup path =
      walk (move t.find dir c dir' d (if exchange = true then t.find dir' d else none)) t.root path := by
    intro path
    rw [Namespace.lookup, moved.root, moved.find]
  constructor
  case moved =>
    intro rest
    rw [walks, List.append_assoc, List.append_assoc]
    exact sound.tree.walk_move parent.1 parent'.1 outside
  case vacated =>
    intro rest
    rw [walks, List.append_assoc, List.append_assoc]
    cases exchange with
    | false => exact sound.tree.walk_vacated parent.1 parent'.1 below other (.inl rfl)
    | true =>
      refine (sound.tree.walk_vacated parent.1 parent'.1 below other (.inr rfl)).trans ?_
      rw [if_pos rfl, if_neg (there rfl)]
      rfl
  case elsewhere =>
    intro path off off'
    rw [walks]
    exact sound.tree.walk_elsewhere parent.1 parent'.1 off off'

theorem lookup_below {ns : Namespace} (nothing : ns.lookup cs = none) (rest : List Name) :
    ns.lookup (cs ++ rest) = none := by
  rw [Namespace.lookup] at nothing ⊢
  rw [walk_append, nothing, Option.bind_none]

theorem FileTree.Renamed.target (moves : t.Renamed dir c dir' d flags x u) (exchange : flags.testBit 1 = true) :
    ∃ y, (t.detach dir c x).find dir' d = some y := by
  cases moves with
  | moved plain =>
    rw [plain] at exchange
    cases exchange
  | exchanged _ target => exact ⟨_, target⟩

/-- A rename that finds room, to a name that is absent unless the two are exchanged. -/
theorem FileTree.Renamed.tidy (sound : t.Sound) (parent : t.Dir cs dir) (parent' : t.Dir ds dir')
    (found : t.find dir c = some x) (outside : ¬ cs ++ [c] <+: ds)
    (outside' : flags.testBit 1 = true → ¬ ds ++ [d] <+: cs) (small : ¬ t.Large dir) (small' : ¬ t.Large dir')
    (free : flags.testBit 1 = false → t.find dir' d = none) (moves : t.Renamed dir c dir' d flags x u) :
    t.Relocated dir c dir' d (if flags.testBit 1 = true then t.find dir' d else none) u ∧
      t.PathsMoved (cs ++ [c]) (ds ++ [d]) (flags.testBit 1) u := by
  have moved := moves.relocated found (.of_small found small small' fun plain _ => free plain)
  refine ⟨moved, moved.paths sound parent parent' outside ?_ ?_⟩
  · intro pre
    cases exchange : flags.testBit 1 with
    | false =>
      -- nothing lies at the new name
      obtain ⟨rest, same⟩ := pre
      have here := lookup_step parent.1 found
      have absent : t.lookup (ds ++ [d]) = none := by
        rw [Namespace.lookup_concat, parent'.1]
        exact free exchange
      rw [← same, lookup_below absent] at here
      cases here
    | true =>
      obtain same | below := List.prefix_concat_iff.mp pre
      · obtain ⟨rfl, last⟩ := List.append_inj' same rfl
        cases last
        obtain rfl : dir = dir' := Option.some.inj (parent.1.symm.trans parent'.1)
        obtain ⟨y, target⟩ := moves.target exchange
        exact Option.some_ne_none y (target.symm.trans (setEdge_same _))
      · exact outside' exchange below
  · intro exchange
    obtain ⟨y, target⟩ := moves.target exchange
    rw [setEdge_none_sub _ _ _ target]
    exact Option.some_ne_none y

/-! ## The outcomes of a rename -/

/-- The path of a name determines it. -/
theorem FileTree.Dir.bound (parts : ∀ e ∈ cs ++ [c], IsPart e) (parts' : ∀ e ∈ ds ++ [d], IsPart e)
    (same : canonical (cs ++ [c]) = canonical (ds ++ [d])) (there : t.Dir cs dir) (there' : t.Dir ds dir') :
    cs = ds ∧ c = d ∧ dir = dir' := by
  obtain ⟨rfl, last⟩ := List.append_inj' (canonical_injective (components parts) (components parts') same) rfl
  cases last
  exact ⟨rfl, rfl, Option.some.inj (there.1.symm.trans there'.1)⟩

theorem Callback.Effect.of_vfs {m m' : FDManager} {q : VfsCall} {ret : Int} {out : Out}
    (effect : (Callback.vfs q).Effect m t ret out m' u) : q.Effect m t ret out m' u := by
  cases effect with
  | vfs effect => exact effect
  | set sets => rcases sets with ⟨_, same⟩ | ⟨_, _, same⟩ | ⟨_, _, same⟩ <;> cases same
  | refused error =>
    cases error with
    | vfs error => exact .refused error
    | noInode looks => rcases looks with same | ⟨_, same⟩ | ⟨_, _, same⟩ | ⟨_, _, same⟩ <;> cases same

/-- A `rename` moves its source and returns 0, or there is no source and it returns `-ENOENT`. -/
theorem Callback.Effect.of_rename {m m' : FDManager} {ret : Int} {out : Out} (parts : ∀ e ∈ cs ++ [c], IsPart e)
    (parts' : ∀ e ∈ ds ++ [d], IsPart e) (parent : t.Dir cs dir) (parent' : t.Dir ds dir')
    (effect : (Callback.vfs (.rename (canonical (cs ++ [c])) (canonical (ds ++ [d])) flags)).Effect m t ret out m' u) :
    ret = 0 ∧ ¬ cs ++ [c] <+: ds ∧ (∃ x, t.find dir c = some x ∧ t.Renamed dir c dir' d flags x u) ∨
      ret = -2 ∧ t.find dir c = none ∧ u = t := by
  have effect := effect.of_vfs
  generalize call : VfsCall.rename (canonical (cs ++ [c])) (canonical (ds ++ [d])) flags = q at effect
  cases effect with
  | refused error =>
    cases error with
    | noName names early there absent =>
      obtain same | same | ⟨_, _, same⟩ := names
      · cases call.trans same
      · cases call.trans same
      · injection call.trans same with same
        obtain ⟨rfl, rfl, rfl⟩ := Dir.bound parts early same parent there
        exact .inr ⟨rfl, absent, rfl⟩
    | noFile names => rcases names with same | ⟨_, _, same, -⟩ <;> cases call.trans same
    | tooLarge large => rcases large with ⟨_, _, _, _, same, -⟩ | ⟨_, _, _, same, -⟩ <;> cases call.trans same
    | notOpen uses => rcases uses with ⟨_, _, _, same⟩ | ⟨_, _, _, same⟩ | ⟨_, same⟩ <;> cases call.trans same
    | _ => cases call
  | removed removal => rcases removal with ⟨same, -⟩ | ⟨same, -⟩ <;> cases call.trans same
  | renamed early early' there there' found below _ moves =>
    injection call with same same' flag
    obtain ⟨rfl, rfl, rfl⟩ := Dir.bound parts early same parent there
    obtain ⟨rfl, rfl, rfl⟩ := Dir.bound parts' early' same' parent' there'
    subst flag
    exact .inl ⟨rfl, below, _, found, moves⟩
  | _ => cases call

/-! ## Allocated inodes have paths -/

/-- Every allocated inode has a path. -/
def FileTree.Rooted (t : FileTree) : Prop := ∀ x, t.kind x ≠ none → ∃ cs, t.lookup cs = some x

/-- The path of what was at `path` before a rename. -/
def relocate (old new : List Name) (exchange : Bool) (path : List Name) : List Name :=
  if old <+: path then new ++ path.drop old.length
  else if exchange = true ∧ new <+: path then old ++ path.drop new.length
  else path

theorem FileTree.PathsMoved.relocate {old new : List Name} {exchange : Bool} (moves : t.PathsMoved old new exchange u)
    (absent : exchange = false → t.lookup new = none) (found : t.lookup path = some x) :
    u.lookup (relocate old new exchange path) = some x := by
  rw [Sbfs.relocate]
  split
  next below =>
    obtain ⟨rest, rfl⟩ := below
    rw [List.drop_left]
    exact (moves.moved rest).trans found
  next off =>
    split
    next below =>
      obtain ⟨rfl, rest, rfl⟩ := below
      rw [List.drop_left]
      exact (moves.vacated rest).trans found
    next off' =>
      refine (moves.elsewhere path off fun below => ?_).trans found
      obtain ⟨rest, rfl⟩ := below
      cases exchange with
      | true => exact off' ⟨rfl, List.prefix_append new rest⟩
      | false =>
        rw [lookup_below (absent rfl)] at found
        cases found

/-! ## Runs -/

/-- A rename finds room in its two directories, and its new name is absent unless the two are exchanged. -/
def Callback.Tidy (t : FileTree) (cb : Callback) : Prop :=
  ∀ cs c ds d flags dir dir', cb = .vfs (.rename (canonical (cs ++ [c])) (canonical (ds ++ [d])) flags) →
    (∀ e ∈ cs ++ [c], IsPart e) → (∀ e ∈ ds ++ [d], IsPart e) → t.Dir cs dir → t.Dir ds dir' →
      ¬ t.Large dir ∧ ¬ t.Large dir' ∧ (flags.testBit 1 = false → t.find dir' d = none)

theorem FileTree.Rooted.create {type : DiskInodeType} {inode : Position} (rooted : t.Rooted) (sound : t.Sound)
    (parent : t.Dir cs dir) (absent : t.find dir c = none) (unused : t.kind inode = none) :
    (t.create dir c type inode).Rooted := by
  intro y allocated
  have kept : ∀ {ds z}, t.lookup ds = some z → (t.create dir c type inode).lookup ds = some z :=
    Namespace.lookup_create absent (sound.loose unused)
  by_cases new : y = inode
  · subst new
    exact ⟨cs ++ [c], lookup_step (kept parent.1) (setEdge_same _)⟩
  · obtain ⟨path, found⟩ := rooted y fun none => allocated ((Function.update_of_ne new _ _).trans none)
    exact ⟨path, kept found⟩

/-- No path but its own goes through an inode without entries. -/
theorem lookup_remove (sound : t.Sound) (parent : t.Dir cs dir) (found : t.find dir c = some x)
    (empty : ∀ name, t.find x name = none) (there : t.lookup path = some y) (other : y ≠ x) :
    ((t.setEntry dir c none).free x).lookup path = some y := by
  have off : ¬ cs ++ [c] <+: path := by
    rintro ⟨rest, rfl⟩
    have here := lookup_step parent.1 found
    cases rest with
    | nil =>
      rw [List.append_nil, here] at there
      exact other (Option.some.inj there).symm
    | cons l rest =>
      rw [lookup_stop here (empty l)] at there
      cases there
  refine (sound.tree.walk_off fun m k changed => ?_).trans there
  by_cases entry : m = dir ∧ k = c
  · obtain ⟨rfl, rfl⟩ := entry
    exact ⟨cs, parent.1, off⟩
  · exact absurd (setEdge_ne _ entry) changed

/-- A tidy callback leaves no inode without a path. -/
theorem Callback.Effect.rooted {cb : Callback} {ret : Int} {out : Out} {m m' : FDManager} (sound : t.Sound)
    (rooted : t.Rooted) (tidy : cb.Tidy t) (effect : cb.Effect m t ret out m' u) : u.Rooted := by
  cases effect with
  | reported => exact rooted
  | set => exact rooted
  | listed => exact rooted
  | refused => exact rooted
  | vfs effect =>
    cases effect with
    | created parent absent unused => exact rooted.create sound parent absent unused
    | made parent absent unused => exact rooted.create sound parent absent unused
    | @removed _ _ _ x _ _ _ parent found empty =>
      intro y allocated
      have other : y ≠ x := by
        rintro rfl
        exact allocated (Function.update_self ..)
      obtain ⟨path, there⟩ := rooted y fun none => allocated ((Function.update_of_ne other _ _).trans none)
      exact ⟨path, lookup_remove sound parent found empty there other⟩
    | renamed parts parts' parent parent' found outside outside' moves =>
      obtain ⟨small, small', free⟩ := tidy _ _ _ _ _ _ _ rfl parts parts' parent parent'
      obtain ⟨moved, paths⟩ := moves.tidy sound parent parent' found outside outside' small small' free
      intro y allocated
      obtain ⟨path, there⟩ := rooted y (moved.kind ▸ allocated)
      refine ⟨_, paths.relocate (fun plain => ?_) there⟩
      rw [Namespace.lookup_concat, parent'.1]
      exact free plain
    | written => exact rooted
    | truncated => exact rooted
    | opened => exact rooted
    | released => exact rooted
    | bytesRead => exact rooted
    | synced => exact rooted
    | refused => exact rooted

theorem TreeRun.rooted {P : FDManager → FileTree → Callback → Prop} {m₀ m : FDManager} {t₀ : FileTree}
    {events : List Event} (sound : t₀.Sound) (rooted : t₀.Rooted) (tidy : ∀ m t cb, P m t cb → cb.Tidy t)
    (run : TreeRun P m₀ t₀ events m t) : t.Rooted :=
  run.invariant (I := fun _ t => t.Rooted) sound rooted fun sound rooted meets effect =>
    effect.rooted sound rooted (tidy _ _ _ meets)

/-! ## The names of the parents -/

/-- `..` of a directory is the one that has its name. -/
structure FileTree.DotsRight (t : FileTree) : Prop where
  root : t.dots t.root = dotsOf t.root t.root
  below : ∀ {dir c x}, t.find dir c = some x → t.kind x = some kDirectory → t.dots x = dotsOf x dir

theorem FileTree.DotsRight.create {type : DiskInodeType} {inode : Position} (right : t.DotsRight) (sound : t.Sound)
    (unused : t.kind inode = none) : (t.create dir c type inode).DotsRight := by
  have loose := sound.loose unused
  constructor
  case root => exact (Function.update_of_ne loose.1.symm _ _).trans right.root
  case below =>
    intro m l y edge isDir
    obtain ⟨rfl, -, same⟩ | ⟨-, edge⟩ := setEdge_some edge
    · cases same
      have made : (t.create m c type inode).kind inode = some type := Function.update_self inode _ t.kind
      exact (Function.update_self ..).trans (if_pos (Option.some.inj (made.symm.trans isDir)))
    · have old := clearNode_some edge
      have ne : y ≠ inode := fun is => loose.2 m l (is ▸ old)
      exact (Function.update_of_ne ne _ _).trans (right.below old ((Function.update_of_ne ne _ _).symm.trans isDir))

/-- A rename moves directories within their parent only. -/
def Callback.KeepsParents (t : FileTree) (cb : Callback) : Prop :=
  ∀ cs c ds d flags dir dir', cb = .vfs (.rename (canonical (cs ++ [c])) (canonical (ds ++ [d])) flags) →
    (∀ e ∈ cs ++ [c], IsPart e) → (∀ e ∈ ds ++ [d], IsPart e) → t.Dir cs dir → t.Dir ds dir' → dir = dir' ∨
      (∀ x, t.find dir c = some x → t.kind x ≠ some kDirectory) ∧
        (flags.testBit 1 = true → ∀ y, t.find dir' d = some y → t.kind y ≠ some kDirectory)

theorem Callback.KeepsParents.of_rename {ds : List Name} (parts : ∀ e ∈ cs ++ [c], IsPart e)
    (parts' : ∀ e ∈ ds ++ [d], IsPart e) (parent : t.Dir cs dir) (parent' : t.Dir ds dir) :
    (Callback.vfs (.rename (canonical (cs ++ [c])) (canonical (ds ++ [d])) flags)).KeepsParents t := by
  intro cs' c' ds' d' flags' m m' same early early' there there'
  injection same with same
  injection same with same same'
  obtain ⟨-, -, rfl⟩ := Dir.bound parts early same parent there
  obtain ⟨-, -, rfl⟩ := Dir.bound parts' early' same' parent' there'
  exact .inl rfl

theorem Callback.Effect.dotsRight {cb : Callback} {ret : Int} {out : Out} {m m' : FDManager} (sound : t.Sound)
    (right : t.DotsRight) (keeps : cb.KeepsParents t) (effect : cb.Effect m t ret out m' u) :
    u.DotsRight := by
  cases effect with
  | reported => exact right
  | set => exact right
  | listed => exact right
  | refused => exact right
  | vfs effect =>
    cases effect with
    | created _ _ unused => exact right.create sound unused
    | made _ _ unused => exact right.create sound unused
    | @removed _ _ _ x _ _ _ parent found empty =>
      have loose := IsTree.loose_erase sound.tree found
      refine ⟨(Function.update_of_ne loose.1.symm _ _).trans right.root, ?_⟩
      intro m l y edge isDir
      have ne : y ≠ x := fun is => loose.2 m l (is ▸ edge)
      exact (Function.update_of_ne ne _ _).trans
        (right.below (setEdge_none_sub _ _ _ edge) ((Function.update_of_ne ne _ _).symm.trans isDir))
    | renamed parts parts' parent parent' found _ _ moves =>
      have within := keeps _ _ _ _ _ _ _ rfl parts parts' parent parent'
      refine ⟨by rw [moves.dots, moves.root, right.root], fun {m l y} edge isDir => ?_⟩
      rw [moves.kind] at isDir
      rw [moves.dots]
      obtain old | ⟨rfl, rfl⟩ | ⟨exchange, rfl, target⟩ := moves.edge edge
      · exact right.below old isDir
      · obtain rfl | ⟨file, -⟩ := within
        · exact right.below found isDir
        · exact absurd isDir (file _ found)
      · obtain rfl | ⟨-, file⟩ := within
        · exact right.below target isDir
        · exact absurd isDir (file exchange _ target)
    | written => exact ⟨right.root, right.below⟩
    | truncated => exact ⟨right.root, right.below⟩
    | opened => exact right
    | released => exact right
    | bytesRead => exact right
    | synced => exact right
    | refused => exact right

theorem TreeRun.dotsRight {P : FDManager → FileTree → Callback → Prop} {m₀ m : FDManager} {t₀ : FileTree}
    {events : List Event} (sound : t₀.Sound) (right : t₀.DotsRight)
    (keeps : ∀ m t cb, P m t cb → cb.KeepsParents t) (run : TreeRun P m₀ t₀ events m t) : t.DotsRight :=
  run.invariant (I := fun _ t => t.DotsRight) sound right fun sound right meets effect =>
    effect.dotsRight sound right (keeps _ _ _ meets)

end

end Sbfs
