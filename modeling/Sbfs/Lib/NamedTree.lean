import Mathlib.Logic.Function.Basic
import Mathlib.Data.List.Infix

/-! # Trees with named edges

A directory tree as a partial map: `e n l` is the node that the edge named `l` leads to
from node `n`.  Nodes and names are arbitrary types.

* `walk` follows a path; `walk_frame` says that edges off a path do not matter for it.
* `IsTree` asks for one edge into each node at most and none into the root, which makes the
  path of a node unique (`IsTree.path_unique`).  Nodes that cannot be reached are not
  restricted further, so that parts cut off may be anything.
* `setEdge` and `clearNode` are the updates, and the lemmas say when they keep a tree.
* `move` takes what an edge leads to to another place; `IsTree.walk_move`, `IsTree.walk_vacated` and
  `IsTree.walk_elsewhere` say where each path leads then.
-/

namespace NamedTree

variable {N L : Type}

/-- The node reached from `n` by a path. -/
def walk (e : N → L → Option N) (n : N) : List L → Option N
  | [] => some n
  | l :: p => (e n l).bind fun m => walk e m p

variable {e e' : N → L → Option N} {root n m x y : N} {k l : L} {p q : List L}

theorem walk_append : walk e n (p ++ q) = (walk e n p).bind fun m => walk e m q := by
  induction p generalizing n with
  | nil => rfl
  | cons l p ih =>
    simp only [List.cons_append, walk]
    cases e n l with
    | none => rfl
    | some m => exact ih

theorem walk_concat : walk e n (p ++ [l]) = (walk e n p).bind fun m => e m l := by
  rw [walk_append]
  cases walk e n p with
  | none => rfl
  | some m => simp [walk]

/-- The edges that a walk does not take may change. -/
theorem walk_frame
    (same : ∀ p' l' m, p' ++ [l'] <+: p → walk e n p' = some m → e' m l' = e m l') :
    walk e' n p = walk e n p := by
  induction p using List.reverseRecOn with
  | nil => rfl
  | append_singleton p l ih =>
    have before : walk e' n p = walk e n p :=
      ih fun p' l' m pre => same p' l' m (pre.trans (List.prefix_append p [l]))
    rw [walk_concat, walk_concat, before]
    cases reached : walk e n p with
    | none => rfl
    | some m => exact same p l m List.prefix_rfl reached

/-- Each node has one edge leading to it at most, the root has none. -/
structure IsTree (root : N) (e : N → L → Option N) : Prop where
  root : ∀ n l, e n l ≠ some root
  once : ∀ n l m k x, e n l = some x → e m k = some x → n = m ∧ l = k

/-- No edge leads to the node. -/
def Loose (root : N) (e : N → L → Option N) (x : N) : Prop := x ≠ root ∧ ∀ n l, e n l ≠ some x

theorem IsTree.path_unique (tree : IsTree root e) (first : walk e root p = some x)
    (second : walk e root q = some x) : p = q := by
  induction p using List.reverseRecOn generalizing x q with
  | nil =>
    cases first
    cases q using List.reverseRecOn with
    | nil => rfl
    | append_singleton q k =>
      rw [walk_concat] at second
      obtain ⟨m, -, edge⟩ := Option.bind_eq_some_iff.mp second
      exact absurd edge (tree.root m k)
  | append_singleton p l ih =>
    rw [walk_concat] at first
    obtain ⟨n, reached, edge⟩ := Option.bind_eq_some_iff.mp first
    cases q using List.reverseRecOn with
    | nil =>
      cases second
      exact absurd edge (tree.root n l)
    | append_singleton q k =>
      rw [walk_concat] at second
      obtain ⟨m, reached', edge'⟩ := Option.bind_eq_some_iff.mp second
      obtain ⟨rfl, rfl⟩ := tree.once n l m k x edge edge'
      rw [ih reached reached']

/-- In a tree a path that does not run through the edge `l` of the node at `p` does not
depend on that edge. -/
theorem IsTree.off_path (tree : IsTree root e) (here : walk e root p = some n)
    (off : ¬ p ++ [l] <+: q) {p' : List L} {l' : L} {m : N} (pre : p' ++ [l'] <+: q)
    (reached : walk e root p' = some m) : ¬ (m = n ∧ l' = l) := by
  rintro ⟨rfl, rfl⟩
  exact off (tree.path_unique here reached ▸ pre)

theorem not_prefix_self (p : List L) (l : L) : ¬ p ++ [l] <+: p := by
  intro pre
  have := pre.length_le
  rw [List.length_append, List.length_singleton] at this
  omega

/-- A path that takes no changed edge leads to the same node. -/
theorem IsTree.walk_off (tree : IsTree root e)
    (changes : ∀ m k, e' m k ≠ e m k → ∃ p, walk e root p = some m ∧ ¬ p ++ [k] <+: q) :
    walk e' root q = walk e root q := by
  refine walk_frame fun q' k m pre reached => ?_
  by_contra changed
  obtain ⟨p, here, off⟩ := changes m k changed
  exact tree.off_path here off pre reached ⟨rfl, rfl⟩

/-- Below a node the edges of nodes elsewhere do not matter. -/
theorem IsTree.walk_below (tree : IsTree root e) (here : walk e root p = some x)
    (changes : ∀ m k, e' m k ≠ e m k → ∃ q, walk e root q = some m ∧ ¬ p <+: q) : walk e' x q = walk e x q := by
  refine walk_frame fun q' k m _ reached => ?_
  by_contra changed
  obtain ⟨path, there, off⟩ := changes m k changed
  have whole : walk e root (p ++ q') = some m := by
    rw [walk_append, here]
    exact reached
  exact off (tree.path_unique there whole ▸ List.prefix_append p q')

/-- A map with fewer edges is still a tree. -/
theorem IsTree.of_sub (tree : IsTree root e) (sub : ∀ n l x, e' n l = some x → e n l = some x) :
    IsTree root e' :=
  ⟨fun n l edge => tree.root n l (sub n l root edge), fun n l m k x first second =>
    tree.once n l m k x (sub n l x first) (sub m k x second)⟩

theorem Loose.of_sub (loose : Loose root e x) (sub : ∀ n l x, e' n l = some x → e n l = some x) :
    Loose root e' x :=
  ⟨loose.1, fun n l edge => loose.2 n l (sub n l x edge)⟩

section

variable [DecidableEq N]

/-- Remove the edges that leave a node. -/
def clearNode (e : N → L → Option N) (n : N) : N → L → Option N :=
  Function.update e n fun _ => none

theorem clearNode_some (edge : clearNode e n m k = some x) : e m k = some x := by
  by_cases node : m = n
  · subst node
    simp [clearNode] at edge
  · simpa [clearNode, node] using edge

theorem clearNode_ne (ne : m ≠ n) : clearNode e n m k = e m k := by
  simp [clearNode, ne]

theorem IsTree.clear (tree : IsTree root e) (n : N) : IsTree root (clearNode e n) :=
  tree.of_sub fun _ _ _ edge => clearNode_some edge

variable [DecidableEq L]

/-- Change one edge. -/
def setEdge (e : N → L → Option N) (n : N) (l : L) (v : Option N) : N → L → Option N :=
  Function.update e n (Function.update (e n) l v)

theorem setEdge_same (v : Option N) : setEdge e n l v n l = v := by
  simp [setEdge]

theorem setEdge_ne (v : Option N) (ne : ¬ (m = n ∧ k = l)) : setEdge e n l v m k = e m k := by
  by_cases node : m = n
  · subst node
    have name : k ≠ l := fun same => ne ⟨rfl, same⟩
    simp [setEdge, name]
  · simp [setEdge, node]

theorem setEdge_some {v : Option N} (edge : setEdge e n l v m k = some x) :
    (m = n ∧ k = l ∧ v = some x) ∨ (¬ (m = n ∧ k = l) ∧ e m k = some x) := by
  by_cases here : m = n ∧ k = l
  · obtain ⟨rfl, rfl⟩ := here
    rw [setEdge_same] at edge
    exact .inl ⟨rfl, rfl, edge⟩
  · rw [setEdge_ne v here] at edge
    exact .inr ⟨here, edge⟩

theorem setEdge_none_sub (m : N) (k : L) (x : N) (edge : setEdge e n l none m k = some x) :
    e m k = some x := by
  obtain ⟨-, -, none⟩ | ⟨-, edge⟩ := setEdge_some edge
  · cases none
  · exact edge

theorem IsTree.erase (tree : IsTree root e) (n : N) (l : L) : IsTree root (setEdge e n l none) :=
  tree.of_sub setEdge_none_sub

/-- The node at the end of a removed edge becomes loose. -/
theorem IsTree.loose_erase (tree : IsTree root e) (edge : e n l = some x) :
    Loose root (setEdge e n l none) x := by
  refine ⟨fun same => tree.root n l (same ▸ edge), fun m k edge' => ?_⟩
  obtain ⟨-, -, none⟩ | ⟨other, edge'⟩ := setEdge_some edge'
  · cases none
  · exact other (tree.once m k n l x edge' edge)

/-- A loose node may be put anywhere. -/
theorem IsTree.insert (tree : IsTree root e) (loose : Loose root e x) (n : N) (l : L) :
    IsTree root (setEdge e n l (some x)) := by
  constructor
  case root =>
    intro m k edge
    obtain ⟨-, -, same⟩ | ⟨-, edge⟩ := setEdge_some edge
    · exact loose.1 (Option.some.inj same)
    · exact tree.root m k edge
  case once =>
    intro m k m' k' y first second
    obtain ⟨rfl, rfl, same⟩ | ⟨-, edge⟩ := setEdge_some first <;>
      obtain ⟨rfl, rfl, same'⟩ | ⟨-, edge'⟩ := setEdge_some second
    · exact ⟨rfl, rfl⟩
    · cases same
      exact absurd edge' (loose.2 m' k')
    · cases same'
      exact absurd edge (loose.2 m k)
    · exact tree.once m k m' k' y edge edge'

/-- What edge `l` of `n` leads to is moved to edge `k` of `m`, and `v` put in its place. -/
def move (e : N → L → Option N) (n : N) (l : L) (m : N) (k : L) (v : Option N) : N → L → Option N :=
  setEdge (setEdge e n l v) m k (e n l)

/-! Where the paths lead after a move from the end of `p ++ [l]` to the end of `q ++ [k]`. -/

section

variable {v : Option N} {rest path : List L}

theorem move_ne (source : walk e root p = some n) (target : walk e root q = some m) {m' : N} {k' : L}
    (changed : move e n l m k v m' k' ≠ e m' k') :
    walk e root p = some m' ∧ k' = l ∨ walk e root q = some m' ∧ k' = k := by
  by_cases new : m' = m ∧ k' = k
  · exact .inr ⟨new.1 ▸ target, new.2⟩
  · by_cases old : m' = n ∧ k' = l
    · exact .inl ⟨old.1 ▸ source, old.2⟩
    · rw [move, setEdge_ne _ new, setEdge_ne _ old] at changed
      exact absurd rfl changed

theorem IsTree.walk_elsewhere (tree : IsTree root e) (source : walk e root p = some n)
    (target : walk e root q = some m) (off : ¬ p ++ [l] <+: path) (off' : ¬ q ++ [k] <+: path) :
    walk (move e n l m k v) root path = walk e root path := by
  refine tree.walk_off fun m' k' changed => ?_
  obtain ⟨here, rfl⟩ | ⟨there, rfl⟩ := move_ne source target changed
  · exact ⟨p, here, off⟩
  · exact ⟨q, there, off'⟩

/-- Below the new place is what was below the old one. -/
theorem IsTree.walk_move (tree : IsTree root e) (source : walk e root p = some n) (target : walk e root q = some m)
    (off : ¬ p ++ [l] <+: q) :
    walk (move e n l m k v) root (q ++ k :: rest) = walk e root (p ++ l :: rest) := by
  have here : walk (move e n l m k v) root q = some m :=
    (tree.walk_elsewhere source target off (not_prefix_self q k)).trans target
  have edge : move e n l m k v m k = e n l := setEdge_same _
  rw [walk_append, walk_append, here, source, Option.bind_some, Option.bind_some, walk, walk, edge]
  cases moved : e n l with
  | none => rfl
  | some x =>
    have top : walk e root (p ++ [l]) = some x := by rw [walk_concat, source, Option.bind_some, moved]
    refine tree.walk_below top fun m' k' changed => ?_
    obtain ⟨here, -⟩ | ⟨there, -⟩ := move_ne source target changed
    · exact ⟨p, here, not_prefix_self p l⟩
    · exact ⟨q, there, off⟩

/-- The old place is empty, or has got what was at the new one. -/
theorem IsTree.walk_vacated (tree : IsTree root e) (source : walk e root p = some n) (target : walk e root q = some m)
    (off : ¬ q ++ [k] <+: p) (other : ¬ (n = m ∧ l = k)) (vacated : v = none ∨ v = e m k) :
    walk (move e n l m k v) root (p ++ l :: rest) = if v = none then none else walk e root (q ++ k :: rest) := by
  have here : walk (move e n l m k v) root p = some n :=
    (tree.walk_elsewhere source target (not_prefix_self p l) off).trans source
  have edge : move e n l m k v n l = v := by rw [move, setEdge_ne _ other, setEdge_same]
  rw [walk_append, walk_append, here, target, Option.bind_some, Option.bind_some, walk, walk, edge]
  obtain rfl | rfl := vacated
  · rfl
  · cases moved : e m k with
    | none => rfl
    | some y =>
      rw [if_neg (Option.some_ne_none y)]
      have top : walk e root (q ++ [k]) = some y := by rw [walk_concat, target, Option.bind_some, moved]
      refine tree.walk_below top fun m' k' changed => ?_
      obtain ⟨here, -⟩ | ⟨there, -⟩ := move_ne source target changed
      · exact ⟨p, here, off⟩
      · exact ⟨q, there, not_prefix_self q k⟩

end

theorem Loose.insert (loose : Loose root e y) (ne : x ≠ y) (n : N) (l : L) :
    Loose root (setEdge e n l (some x)) y := by
  refine ⟨loose.1, fun m k edge => ?_⟩
  obtain ⟨-, -, same⟩ | ⟨-, edge⟩ := setEdge_some edge
  · exact ne (Option.some.inj same)
  · exact loose.2 m k edge

end

end NamedTree
