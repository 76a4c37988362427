import Mathlib.Data.List.Nodup
import Mathlib.Logic.Function.Basic

/-! # Doubly linked lists in tables

The links of a list of nodes, kept in two tables, with the two ends.  `nil` is the link to no
node.  A list is well formed if following `next` from the first node visits the nodes in order
and ends at the last one, with `prev` leading back (`WellLinked`).

* `WellLinked.push`: a node that is not in the list goes to the front.
* `WellLinked.unlink`: a node leaves the list.
* `Follows` is the same for a chain that has no `prev`. -/

namespace LinkedList

variable {ι : Type}

/-- Following `next` from `z` visits the nodes and ends at `nil`. -/
def Follows (nil : ι) (next : ι → ι) : ι → List ι → Prop
  | z, [] => z = nil
  | z, x :: xs => z = x ∧ x ≠ nil ∧ Follows nil next (next x) xs

structure Links (ι : Type) where
  first : ι
  last : ι
  prev : ι → ι
  next : ι → ι

/-- The nodes from `z` to `last`: `prev` of the first of them is `before`, and `next` of the
last one is `after`. -/
def Segment (nil : ι) (k : Links ι) : ι → ι → List ι → ι → ι → Prop
  | before, z, [], last, after => z = after ∧ last = before
  | before, z, x :: xs, last, after =>
    z = x ∧ x ≠ nil ∧ k.prev x = before ∧ Segment nil k x (k.next x) xs last after

/-- The list of the nodes, the first one first. -/
structure WellLinked (nil : ι) (k : Links ι) (xs : List ι) : Prop where
  nodup : xs.Nodup
  segment : Segment nil k nil k.first xs k.last nil

variable {nil x z z' before last after : ι} {next next' : ι → ι} {k k' : Links ι} {xs ys : List ι}

/-! ## Chains -/

theorem Follows.congr (follows : Follows nil next z xs) (same : ∀ y ∈ xs, next' y = next y) :
    Follows nil next' z xs := by
  induction xs generalizing z with
  | nil => exact follows
  | cons y xs ih =>
    obtain ⟨rfl, some, rest⟩ := follows
    refine ⟨rfl, some, ?_⟩
    rw [same z List.mem_cons_self]
    exact ih rest fun y later => same y (List.mem_cons_of_mem _ later)

theorem Follows.eq_nil_iff (follows : Follows nil next z xs) : xs = [] ↔ z = nil := by
  cases xs with
  | nil => exact iff_of_true rfl follows
  | cons y xs => exact iff_of_false (List.cons_ne_nil _ _) (follows.1 ▸ follows.2.1)

theorem Follows.ne_nil (follows : Follows nil next z xs) : nil ∉ xs := by
  induction xs generalizing z with
  | nil => exact List.not_mem_nil
  | cons y xs ih =>
    obtain ⟨-, some, rest⟩ := follows
    exact List.not_mem_cons_of_ne_of_not_mem some.symm (ih rest)

/-- What the first node has and hands on along the chain, every node has. -/
theorem Follows.forall {P : ι → Prop} (follows : Follows nil next z xs) (first : z = nil ∨ P z)
    (step : ∀ x ∈ xs, P x → next x = nil ∨ P (next x)) : ∀ x ∈ xs, P x := by
  induction xs generalizing z with
  | nil => exact fun x inside => absurd inside List.not_mem_nil
  | cons y xs ih =>
    obtain ⟨rfl, some, rest⟩ := follows
    have here := first.resolve_left some
    refine List.forall_mem_cons.mpr ⟨here, ih rest (step z List.mem_cons_self here) fun x later => ?_⟩
    exact step x (List.mem_cons_of_mem _ later)

theorem Follows.unique (follows : Follows nil next z xs) (other : Follows nil next z ys) : xs = ys := by
  induction xs generalizing z ys with
  | nil => exact (other.eq_nil_iff.mpr follows).symm
  | cons y xs ih =>
    obtain ⟨rfl, some, rest⟩ := follows
    cases ys with
    | nil => exact absurd other some
    | cons y' ys =>
      obtain ⟨rfl, -, rest'⟩ := other
      rw [ih rest rest']

theorem Follows.next_mem (follows : Follows nil next z xs) (inside : x ∈ xs) : next x = nil ∨ next x ∈ xs.tail := by
  induction xs generalizing z with
  | nil => cases inside
  | cons y xs ih =>
    obtain ⟨-, -, rest⟩ := follows
    have onward : next x = nil ∨ next x ∈ xs := by
      cases List.mem_cons.mp inside with
      | inl here =>
        cases xs with
        | nil => exact .inl (here ▸ rest)
        | cons y' xs => exact .inr (here ▸ rest.1 ▸ List.mem_cons_self)
      | inr later => exact (ih rest later).imp_right List.mem_of_mem_tail
    exact onward

/-- No two nodes of a chain lead to the same place. -/
theorem Follows.next_inj (follows : Follows nil next z xs) (nodup : xs.Nodup) (inside : x ∈ xs) {y : ι} (inside' : y ∈ xs)
    (same : next x = next y) : x = y := by
  induction xs generalizing z with
  | nil => cases inside
  | cons w xs ih =>
    obtain ⟨-, -, rest⟩ := follows
    obtain ⟨fresh, nodup⟩ := List.nodup_cons.mp nodup
    -- nothing in the rest leads to its first node
    have onward : ∀ y ∈ xs, next w ≠ next y := by
      intro y later is
      cases xs with
      | nil => cases later
      | cons v xs =>
        obtain ⟨first, some, -⟩ := id rest
        cases rest.next_mem later with
        | inl none => exact some (first ▸ is.trans none)
        | inr inside => exact (List.nodup_cons.mp nodup).1 (first ▸ is ▸ inside)
    cases List.mem_cons.mp inside with
    | inl here =>
      cases List.mem_cons.mp inside' with
      | inl here' => exact here.trans here'.symm
      | inr later => exact absurd (here ▸ same) (onward y later)
    | inr later =>
      cases List.mem_cons.mp inside' with
      | inl here => exact absurd (here ▸ same.symm) (onward x later)
      | inr later' => exact ih rest nodup later later'

theorem Follows.exists_prev (follows : Follows nil next z xs) (some : xs ≠ []) (place : x = nil ∨ x ∈ xs.tail) :
    ∃ y ∈ xs, next y = x := by
  induction xs generalizing z with
  | nil => exact absurd rfl some
  | cons w xs ih =>
    obtain ⟨-, -, rest⟩ := follows
    cases xs with
    | nil =>
      cases place with
      | inl none => exact ⟨w, List.mem_cons_self, none ▸ rest⟩
      | inr inside => cases inside
    | cons v xs =>
      obtain ⟨first, -, -⟩ := id rest
      have onward : x = v ∨ x = nil ∨ x ∈ xs := by
        cases place with
        | inl none => exact .inr (.inl none)
        | inr inside => exact (List.mem_cons.mp inside).imp_right .inr
      cases onward with
      | inl here => exact ⟨w, List.mem_cons_self, first.trans here.symm⟩
      | inr later =>
        obtain ⟨y, inside, is⟩ := ih rest (List.cons_ne_nil _ _) later
        exact ⟨y, List.mem_cons_of_mem _ inside, is⟩

/-- A chain of the same nodes, in which at most one of them has another successor, is the same chain. -/
theorem Follows.next_eq (follows : Follows nil next z xs) (nodup : xs.Nodup) (other : Follows nil next' z ys)
    (members : ∀ y, y ∈ ys ↔ y ∈ xs) (inside : x ∈ xs) (same : ∀ y ∈ xs, y ≠ x → next' y = next y) :
    next' x = next x := by
  have some : ys ≠ [] := List.ne_nil_of_mem ((members x).mpr inside)
  have place : next x = nil ∨ next x ∈ ys.tail := by
    refine (follows.next_mem inside).imp_right fun later => ?_
    have inside' := (members _).mpr (List.mem_of_mem_tail later)
    cases xs with
    | nil => cases inside
    | cons w xs =>
      cases ys with
      | nil => cases inside'
      | cons v ys =>
        refine (List.mem_cons.mp inside').resolve_left fun first => ?_
        have head : w = v := follows.1.symm.trans other.1
        exact (List.nodup_cons.mp nodup).1 (head ▸ first ▸ later)
  obtain ⟨y, inside', is⟩ := other.exists_prev some place
  by_cases here : y = x
  · rw [← here, is, here]
  · have kept := same y ((members y).mp inside') here
    exact absurd (follows.next_inj nodup ((members y).mp inside') inside (kept.symm.trans is)) here

/-! ## Segments -/

theorem Segment.congr (segment : Segment nil k before z xs last after)
    (same : ∀ y ∈ xs, k'.prev y = k.prev y ∧ k'.next y = k.next y) : Segment nil k' before z xs last after := by
  induction xs generalizing before z with
  | nil => exact segment
  | cons y xs ih =>
    obtain ⟨rfl, some, back, rest⟩ := segment
    obtain ⟨prev, next⟩ := same z List.mem_cons_self
    refine ⟨rfl, some, prev.trans back, ?_⟩
    rw [next]
    exact ih rest fun y later => same y (List.mem_cons_of_mem _ later)

theorem segment_append : Segment nil k before z (xs ++ ys) last after ↔
    ∃ last' z', Segment nil k before z xs last' z' ∧ Segment nil k last' z' ys last after := by
  induction xs generalizing before z with
  | nil =>
    constructor
    · exact fun segment => ⟨before, z, ⟨rfl, rfl⟩, segment⟩
    · intro split
      obtain ⟨last', z', ⟨rfl, rfl⟩, segment⟩ := split
      exact segment
  | cons y xs ih =>
    constructor
    · intro segment
      obtain ⟨here, some, back, rest⟩ := segment
      obtain ⟨last', z', first, second⟩ := ih.mp rest
      exact ⟨last', z', ⟨here, some, back, first⟩, second⟩
    · intro split
      obtain ⟨last', z', ⟨here, some, back, first⟩, second⟩ := split
      exact ⟨here, some, back, ih.mpr ⟨last', z', first, second⟩⟩

theorem Segment.ne_nil (segment : Segment nil k before z xs last after) : nil ∉ xs := by
  induction xs generalizing before z with
  | nil => exact List.not_mem_nil
  | cons y xs ih =>
    obtain ⟨-, some, -, rest⟩ := segment
    exact List.not_mem_cons_of_ne_of_not_mem some.symm (ih rest)

/-- The first link leads into the segment. -/
theorem Segment.first_mem (segment : Segment nil k before z xs last after) (some : xs ≠ []) : z ∈ xs := by
  cases xs with
  | nil => exact absurd rfl some
  | cons y xs => exact segment.1 ▸ List.mem_cons_self

theorem Segment.last_mem (segment : Segment nil k before z xs last after) (some : xs ≠ []) : last ∈ xs := by
  induction xs generalizing before z with
  | nil => exact absurd rfl some
  | cons y xs ih =>
    obtain ⟨-, -, -, rest⟩ := segment
    cases xs with
    | nil => exact rest.2 ▸ List.mem_cons_self
    | cons y' xs => exact List.mem_cons_of_mem _ (ih rest (List.cons_ne_nil _ _))

/-- Another predecessor for the first node. -/
theorem Segment.rebase (segment : Segment nil k before z xs last after) (k' : Links ι) (nodup : xs.Nodup) (before' : ι)
    (here : z ∈ xs → k'.prev z = before') (prev : ∀ y ∈ xs, y ≠ z → k'.prev y = k.prev y)
    (next : ∀ y ∈ xs, k'.next y = k.next y) :
    ∃ last', Segment nil k' before' z xs last' after ∧ (xs ≠ [] → last' = last) ∧ (xs = [] → last' = before') := by
  cases xs with
  | nil => exact ⟨before', ⟨segment.1, rfl⟩, fun some => absurd rfl some, fun _ => rfl⟩
  | cons y xs =>
    obtain ⟨rfl, some, -, rest⟩ := segment
    refine ⟨last, ⟨rfl, some, here List.mem_cons_self, ?_⟩, fun _ => rfl, fun none => absurd none (List.cons_ne_nil _ _)⟩
    rw [next z List.mem_cons_self]
    refine rest.congr fun y later =>
      ⟨prev y (List.mem_cons_of_mem _ later) fun same => ?_, next y (List.mem_cons_of_mem _ later)⟩
    exact (List.nodup_cons.mp nodup).1 (same ▸ later)

/-- Another successor for the last node. -/
theorem Segment.redirect (segment : Segment nil k before z xs last after) (k' : Links ι) (nodup : xs.Nodup) (after' : ι)
    (here : last ∈ xs → k'.next last = after') (next : ∀ y ∈ xs, y ≠ last → k'.next y = k.next y)
    (prev : ∀ y ∈ xs, k'.prev y = k.prev y) :
    ∃ z', Segment nil k' before z' xs last after' ∧ (xs ≠ [] → z' = z) ∧ (xs = [] → z' = after') := by
  induction xs generalizing before z with
  | nil => exact ⟨after', ⟨rfl, segment.2⟩, fun some => absurd rfl some, fun _ => rfl⟩
  | cons y xs ih =>
    obtain ⟨rfl, some, back, rest⟩ := segment
    obtain ⟨fresh, nodup⟩ := List.nodup_cons.mp nodup
    have back' : k'.prev z = before := (prev z List.mem_cons_self).trans back
    obtain ⟨z', segment', kept, none⟩ := ih rest nodup (fun inside => here (List.mem_cons_of_mem _ inside))
      (fun y later => next y (List.mem_cons_of_mem _ later)) fun y later => prev y (List.mem_cons_of_mem _ later)
    refine ⟨z, ⟨rfl, some, back', ?_⟩, fun _ => rfl, fun none => absurd none (List.cons_ne_nil _ _)⟩
    suffices k'.next z = z' from this ▸ segment'
    cases xs with
    | nil =>
      rw [none rfl]
      exact rest.2 ▸ here (rest.2 ▸ List.mem_cons_self)
    | cons y xs =>
      rw [kept (List.cons_ne_nil _ _)]
      refine next z List.mem_cons_self fun same => fresh ?_
      exact same ▸ rest.last_mem (List.cons_ne_nil _ _)

theorem WellLinked.first_eq_nil (linked : WellLinked nil k xs) : k.first = nil ↔ xs = [] := by
  cases xs with
  | nil => exact iff_of_true linked.segment.1 rfl
  | cons y xs => exact iff_of_false (linked.segment.1 ▸ linked.segment.2.1) (List.cons_ne_nil _ _)

theorem WellLinked.last_eq_nil (linked : WellLinked nil k xs) : k.last = nil ↔ xs = [] := by
  constructor
  · intro none
    by_contra some
    exact linked.segment.ne_nil (none ▸ linked.segment.last_mem some)
  · rintro rfl
    exact linked.segment.2

/-- `prev` of a node of the list is a node of the list. -/
theorem WellLinked.prev_mem (linked : WellLinked nil k xs) (inside : x ∈ xs) : k.prev x = nil ∨ k.prev x ∈ xs := by
  obtain ⟨before, later, rfl⟩ := List.append_of_mem inside
  obtain ⟨m, z, first, -, -, back, -⟩ := segment_append.mp linked.segment
  rw [back]
  cases before with
  | nil => exact .inl first.2
  | cons y before => exact .inr (List.mem_append_left _ (first.last_mem (List.cons_ne_nil _ _)))

/-! ## Operations -/

namespace Links

variable [DecidableEq ι]

/-- The links after `x` has left. -/
def unlink (nil : ι) (k : Links ι) (x : ι) : Links ι where
  first := if x = k.first then k.next x else k.first
  last := if x = k.last then k.prev x else k.last
  prev := Function.update (if k.next x = nil then k.prev else Function.update k.prev (k.next x) (k.prev x)) x nil
  next := Function.update (if k.prev x = nil then k.next else Function.update k.next (k.prev x) (k.next x)) x nil

/-- The links after those of `x` have been forgotten. -/
def clear (nil : ι) (k : Links ι) (x : ι) : Links ι :=
  { k with prev := Function.update k.prev x nil, next := Function.update k.next x nil }

/-- The links after `x` has been put before the first node. -/
def push (nil : ι) (k : Links ι) (x : ι) : Links ι where
  first := x
  last := if k.last = nil then x else k.last
  prev :=
    let prev := Function.update k.prev x nil
    if k.first = nil then prev else Function.update prev k.first x
  next := Function.update k.next x k.first

theorem next_unlink {y : ι} (other : y ≠ x) : (k.unlink nil x).next y =
    if y = k.prev x ∧ y ≠ nil then k.next x else k.next y := by
  simp only [unlink]
  rw [Function.update_of_ne other]
  split <;> rename_i none
  · rw [if_neg fun both => both.2 (both.1.trans none)]
  · rw [Function.update_apply]
    split <;> rename_i same
    · rw [if_pos ⟨same, same ▸ none⟩]
    · rw [if_neg fun both => same both.1]

theorem next_touch {y : ι} (other : y ≠ x) : ((k.unlink nil x).push nil x).next y =
    if y = k.prev x ∧ y ≠ nil then k.next x else k.next y := by
  rw [← next_unlink other]
  exact Function.update_of_ne other _ _

/-- A node without links leaves the links of the others. -/
theorem next_touch_clear {y : ι} (other : y ≠ x) :
    (((k.clear nil x).unlink nil x).push nil x).next y = k.next y := by
  have none : (k.clear nil x).prev x = nil := Function.update_self ..
  have kept : (k.clear nil x).next y = k.next y := Function.update_of_ne other _ _
  rw [next_touch other, none, if_neg fun both => both.2 both.1, kept]

theorem last_touch (other : x ≠ k.last) (some : k.last ≠ nil) : ((k.unlink nil x).push nil x).last = k.last := by
  have kept : (k.unlink nil x).last = k.last := if_neg other
  rw [← kept] at some ⊢
  exact if_neg some

/-- The last node, without links, becomes the first one and stays the last one. -/
theorem last_touch_clear : (((k.clear nil k.last).unlink nil k.last).push nil k.last).last = k.last := by
  have gone : ((k.clear nil k.last).unlink nil k.last).last = nil :=
    (if_pos rfl).trans (Function.update_self ..)
  exact if_pos gone

end Links

variable [DecidableEq ι]

theorem WellLinked.push (linked : WellLinked nil k xs) (fresh : x ∉ xs) (some : x ≠ nil) :
    WellLinked nil (k.push nil x) (x :: xs) := by
  refine ⟨List.nodup_cons.mpr ⟨fresh, linked.nodup⟩, rfl, some, ?_, ?_⟩
  · simp only [Links.push]
    split
    · exact Function.update_self ..
    · next front =>
      rw [Function.update_of_ne, Function.update_self]
      rintro rfl
      exact fresh (linked.segment.first_mem fun none => front (linked.first_eq_nil.mpr none))
  · have next : (k.push nil x).next x = k.first := Function.update_self ..
    rw [next]
    have ne : ∀ y ∈ xs, y ≠ x := fun y inside same => fresh (same ▸ inside)
    obtain ⟨last', segment, kept, none⟩ := linked.segment.rebase (k.push nil x) linked.nodup x
      (fun inside => by
        have front : k.first ≠ nil := fun none => linked.segment.ne_nil (none ▸ inside)
        simp only [Links.push, if_neg front]
        exact Function.update_self ..)
      (fun y inside other => by
        simp only [Links.push]
        split
        · exact Function.update_of_ne (ne y inside) _ _
        · rw [Function.update_of_ne other, Function.update_of_ne (ne y inside)])
      fun y inside => Function.update_of_ne (ne y inside) _ _
    suffices (k.push nil x).last = last' from this ▸ segment
    simp only [Links.push]
    split
    · next last => rw [none (linked.last_eq_nil.mp last)]
    · next last => rw [kept fun none => last (linked.last_eq_nil.mpr none)]

theorem WellLinked.unlink (linked : WellLinked nil k (xs ++ x :: ys)) : WellLinked nil (k.unlink nil x) (xs ++ ys) := by
  obtain ⟨nodup, segment⟩ := linked
  obtain ⟨m, z, first, rfl, some, back, second⟩ := segment_append.mp segment
  have apart := List.nodup_append.mp nodup
  obtain ⟨nodup₁, nodup₂, apart⟩ := apart
  obtain ⟨fresh₂, nodup₂⟩ := List.nodup_cons.mp nodup₂
  have fresh₁ : z ∉ xs := fun inside => apart z inside z List.mem_cons_self rfl
  have ne₁ : ∀ y ∈ xs, y ≠ z := fun y inside same => fresh₁ (same ▸ inside)
  have ne₂ : ∀ y ∈ ys, y ≠ z := fun y inside same => fresh₂ (same ▸ inside)
  have across : ∀ y ∈ xs, ∀ y' ∈ ys, y ≠ y' := fun y before y' later => apart y before y' (List.mem_cons_of_mem _ later)
  -- `next` leads from what is before to what is after
  obtain ⟨f, first', kept₁, none₁⟩ := first.redirect (k.unlink nil z) nodup₁ (k.next z)
    (fun inside => by
      have link : k.prev z ≠ nil := back ▸ fun none => first.ne_nil (none ▸ inside)
      simp only [Links.unlink, if_neg link]
      rw [Function.update_of_ne (ne₁ m inside), back, Function.update_self])
    (fun y inside other => by
      simp only [Links.unlink]
      rw [Function.update_of_ne (ne₁ y inside)]
      split
      · rfl
      · rw [Function.update_of_ne (back ▸ other)])
    (fun y inside => by
      simp only [Links.unlink]
      rw [Function.update_of_ne (ne₁ y inside)]
      split
      · rfl
      · next link =>
        refine Function.update_of_ne (fun same => ?_) _ _
        have there : ys ≠ [] := by
          rintro rfl
          exact link second.1
        exact across y inside _ (second.first_mem there) same)
  obtain ⟨l, second', kept₂, none₂⟩ := second.rebase (k.unlink nil z) nodup₂ m
    (fun inside => by
      have link : k.next z ≠ nil := fun none => second.ne_nil (none ▸ inside)
      simp only [Links.unlink, if_neg link]
      rw [Function.update_of_ne (ne₂ _ inside), Function.update_self, back])
    (fun y inside other => by
      simp only [Links.unlink]
      rw [Function.update_of_ne (ne₂ y inside)]
      split
      · rfl
      · rw [Function.update_of_ne other])
    (fun y inside => by
      simp only [Links.unlink]
      rw [Function.update_of_ne (ne₂ y inside)]
      split
      · rfl
      · next link =>
        refine Function.update_of_ne (fun same => ?_) _ _
        have there : xs ≠ [] := by
          rintro rfl
          exact link (back.trans first.2)
        exact across _ (first.last_mem there) y inside (same.trans back).symm)
  have front : (k.unlink nil z).first = f := by
    simp only [Links.unlink]
    split
    · next is =>
      refine (none₁ ?_).symm
      by_contra there
      exact ne₁ _ (first.first_mem there) is.symm
    · next other =>
      refine (kept₁ ?_).symm
      rintro rfl
      exact other first.1.symm
  have back' : (k.unlink nil z).last = l := by
    simp only [Links.unlink]
    split
    · next is =>
      rw [back]
      refine (none₂ ?_).symm
      by_contra there
      exact ne₂ _ (second.last_mem there) is.symm
    · next other =>
      refine (kept₂ ?_).symm
      rintro rfl
      exact other second.2.symm
  refine ⟨List.nodup_append.mpr ⟨nodup₁, nodup₂, across⟩, ?_⟩
  rw [front, back']
  exact segment_append.mpr ⟨m, k.next z, first', second'⟩

/-- A node of the list moves to the front. -/
theorem WellLinked.touch (linked : WellLinked nil k (xs ++ x :: ys)) :
    WellLinked nil ((k.unlink nil x).push nil x) (x :: (xs ++ ys)) := by
  refine linked.unlink.push (fun inside => ?_) fun none => ?_
  · exact (List.nodup_cons.mp (List.perm_middle.nodup_iff.mp linked.nodup)).1 inside
  · exact linked.segment.ne_nil (none ▸ List.mem_append_right _ List.mem_cons_self)

theorem Links.unlink_clear (first : x ≠ k.first) (last : x ≠ k.last) : (k.clear nil x).unlink nil x = k.clear nil x := by
  have prev : (k.clear nil x).prev x = nil := Function.update_self ..
  have next : (k.clear nil x).next x = nil := Function.update_self ..
  have first' : (k.clear nil x).first = k.first := rfl
  have last' : (k.clear nil x).last = k.last := rfl
  simp only [unlink, prev, next, if_true, first', last', if_neg first, if_neg last]
  simp only [clear, Function.update_idem]

/-- A node that is not in the list, and whose links mean nothing, goes to the front. -/
theorem WellLinked.enter (linked : WellLinked nil k xs) (fresh : x ∉ xs) (some : x ≠ nil) :
    WellLinked nil (((k.clear nil x).unlink nil x).push nil x) (x :: xs) := by
  have outside : ∀ z, z = nil ∨ z ∈ xs → x ≠ z := by
    rintro z (rfl | inside) rfl
    · exact some rfl
    · exact fresh inside
  have front : k.first = nil ∨ k.first ∈ xs := by
    by_cases none : xs = []
    · exact .inl (linked.first_eq_nil.mpr none)
    · exact .inr (linked.segment.first_mem none)
  have back : k.last = nil ∨ k.last ∈ xs := by
    by_cases none : xs = []
    · exact .inl (linked.last_eq_nil.mpr none)
    · exact .inr (linked.segment.last_mem none)
  rw [Links.unlink_clear (outside _ front) (outside _ back)]
  refine WellLinked.push ⟨linked.nodup, linked.segment.congr fun y inside => ?_⟩ fresh some
  have other : y ≠ x := fun same => fresh (same ▸ inside)
  exact ⟨Function.update_of_ne other _ _, Function.update_of_ne other _ _⟩

/-! ### Links forgotten too early -/

/-- The only node of a list has no links to forget. -/
theorem WellLinked.enter_only (linked : WellLinked nil k [x]) :
    WellLinked nil (((k.clear nil x).unlink nil x).push nil x) [x] := by
  obtain ⟨-, first, some, -, -, last⟩ := linked
  have only : WellLinked nil (k.clear nil x) ([] ++ x :: []) :=
    ⟨List.nodup_singleton x, first, some, Function.update_self .., Function.update_self .., last⟩
  exact only.touch

/-- The last node of several has been reached from another one, which still leads to it after
its links have been forgotten: from then on it is the first and the last node, with a node after it. -/
theorem WellLinked.not_enter_last (linked : WellLinked nil k xs) (several : 2 ≤ xs.length) :
    ¬ WellLinked nil (((k.clear nil k.last).unlink nil k.last).push nil k.last) ys := by
  intro linked'
  have distinct : k.last ≠ k.first := by
    match xs, several, linked with
    | y :: y' :: rest, _, ⟨nodup, segment⟩ =>
      obtain ⟨first, -, -, later⟩ := segment
      rw [first]
      exact fun same => (List.nodup_cons.mp nodup).1 (same ▸ later.last_mem (List.cons_ne_nil _ _))
  have next : (((k.clear nil k.last).unlink nil k.last).push nil k.last).next k.last = k.first := by
    simp only [Links.push, Function.update_self]
    exact if_neg distinct
  have last : (((k.clear nil k.last).unlink nil k.last).push nil k.last).last = k.last := by
    have prev : (k.clear nil k.last).prev k.last = nil := Function.update_self ..
    have cleared : ((k.clear nil k.last).unlink nil k.last).last = nil := (if_pos rfl).trans prev
    exact if_pos cleared
  have front : k.first ≠ nil := fun none => by
    rw [linked.first_eq_nil.mp none] at several
    cases several
  obtain ⟨nodup, segment⟩ := linked'
  rw [last] at segment
  cases ys with
  | nil => exact front (linked.first_eq_nil.mpr (linked.last_eq_nil.mp segment.1))
  | cons y ys =>
    obtain ⟨rfl, -, -, rest⟩ := segment
    cases ys with
    | nil => exact front (next.symm.trans rest.1)
    | cons y ys => exact (List.nodup_cons.mp nodup).1 (rest.last_mem (List.cons_ne_nil _ _))

end LinkedList
