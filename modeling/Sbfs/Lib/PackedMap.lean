import Mathlib.Data.List.Induction
import Mathlib.Data.List.Perm.Basic
import Mathlib.Data.List.Nodup
import Mathlib.Logic.Function.Basic

/-! # Maps packed in a list

A finite map kept as a list of pairs with distinct keys, without gaps: a new pair goes to
the end, a pair is replaced in its place, and removal moves the last pair into the hole
(`removeAt`).  Each operation is the obvious one on the map (`find_append`, `find_set`,
`find_removeAt`) and keeps the keys distinct. -/

namespace PackedMap

variable {α κ ν : Type} {e : Nat}

/-! ## Removal -/

/-- The last element moves to place `e`, and the list gets shorter by one. -/
def removeAt (es : List α) (e : Nat) : List α :=
  match es.getLast? with
  | none => []
  | some last => (es.set e last).dropLast

theorem removeAt_concat (es : List α) (x : α) (e : Nat) :
    removeAt (es ++ [x]) e = ((es ++ [x]).set e x).dropLast := by
  rw [removeAt, List.getLast?_concat]

theorem removeAt_of_getLast? {es : List α} {x : α} (last : es.getLast? = some x) (e : Nat) :
    removeAt es e = (es.set e x).dropLast := by
  rw [removeAt, last]

/-- The last element needs no replacement. -/
theorem removeAt_last {es : List α} (atEnd : e + 1 = es.length) : removeAt es e = es.dropLast := by
  induction es using List.reverseRecOn with
  | nil => cases atEnd
  | append_singleton init last _ =>
    rw [List.length_append, List.length_singleton, Nat.add_right_cancel_iff] at atEnd
    rw [removeAt_concat, atEnd, List.set_append_right _ _ (Nat.le_refl _), Nat.sub_self, List.set_cons_zero]

/-- Up to the order, removal takes out the element at place `e`. -/
theorem removeAt_perm {es : List α} (inside : e < es.length) : (es[e] :: removeAt es e).Perm es := by
  induction es using List.reverseRecOn with
  | nil => cases inside
  | append_singleton init last _ =>
    rw [removeAt_concat]
    by_cases early : e < init.length
    · -- the last element takes the place of the removed one
      rw [List.set_append_left e last early, List.dropLast_concat, List.getElem_append_left early]
      calc
        (init[e] :: init.set e last).Perm (init[e] :: last :: init.eraseIdx e) :=
          (List.set_perm_cons_eraseIdx early last).cons _
        _ |>.Perm (last :: init[e] :: init.eraseIdx e) := .swap _ _ _
        _ |>.Perm (last :: init) := (List.getElem_cons_eraseIdx_perm early).cons _
        _ |>.Perm (init ++ [last]) := (List.perm_append_singleton last init).symm
    · have at_end : e = init.length := by
        rw [List.length_append, List.length_singleton] at inside
        omega
      subst at_end
      rw [List.set_append_right _ _ (Nat.le_refl _), Nat.sub_self, List.set_cons_zero, List.dropLast_concat,
        List.getElem_concat_length rfl]
      exact (List.perm_append_singleton last init).symm

theorem length_removeAt {es : List α} (inside : e < es.length) :
    (removeAt es e).length + 1 = es.length := by
  have perm := (removeAt_perm inside).length_eq
  rwa [List.length_cons] at perm

theorem subset_removeAt {es : List α} (inside : e < es.length) : removeAt es e ⊆ es :=
  fun _ member => (removeAt_perm inside).subset (List.mem_cons_of_mem _ member)

theorem countP_removeAt (p : α → Bool) {es : List α} (inside : e < es.length) :
    (removeAt es e).countP p + (if p es[e] = true then 1 else 0) = es.countP p := by
  rw [← (removeAt_perm inside).countP_eq, List.countP_cons]

/-! ## The map -/

/-- No key occurs twice. -/
def Distinct (es : List (κ × ν)) : Prop := (es.map Prod.fst).Nodup

variable {es : List (κ × ν)} {k : κ} {v w : ν}

theorem Distinct.functional (distinct : Distinct es) (here : (k, v) ∈ es) (there : (k, w) ∈ es) : v = w :=
  congrArg Prod.snd (List.inj_on_of_nodup_map distinct here there rfl)

/-- A key stands in one place. -/
theorem Distinct.unique (distinct : Distinct es) {e' : Nat} (here : es[e]? = some (k, v))
    (there : es[e']? = some (k, w)) : e = e' ∧ v = w := by
  have inside : e < (es.map Prod.fst).length := by
    rw [List.length_map]
    exact (List.getElem?_eq_some_iff.mp here).1
  refine ⟨(List.getElem?_inj inside distinct).mp ?_,
    distinct.functional (List.mem_of_getElem? here) (List.mem_of_getElem? there)⟩
  rw [List.getElem?_map, List.getElem?_map, here, there]
  rfl

theorem Distinct.append (distinct : Distinct es) (absent : ∀ w, (k, w) ∉ es) (v : ν) :
    Distinct (es ++ [(k, v)]) := by
  rw [Distinct, List.map_append, List.nodup_append']
  refine ⟨distinct, List.nodup_singleton _, fun k' member new => ?_⟩
  obtain ⟨pair, there, rfl⟩ := List.mem_map.mp member
  have same : pair.1 = k := List.mem_singleton.mp new
  exact absent pair.2 (same ▸ there)

theorem keys_set (here : es[e]? = some (k, v)) (w : ν) : (es.set e (k, w)).map Prod.fst = es.map Prod.fst := by
  obtain ⟨inside, eq⟩ := List.getElem?_eq_some_iff.mp here
  rw [List.map_set]
  conv_lhs => rw [show (k, w).1 = es[e].1 by rw [eq], ← List.map_set, List.set_getElem_self]

theorem Distinct.set (distinct : Distinct es) (here : es[e]? = some (k, v)) (w : ν) :
    Distinct (es.set e (k, w)) := by
  rw [Distinct, keys_set here]
  exact distinct

/-- The keys after a removal: the removed one is not among them. -/
theorem Distinct.removeAt_keys (distinct : Distinct es) (here : es[e]? = some (k, v)) :
    Distinct (removeAt es e) ∧ ∀ w, (k, w) ∉ removeAt es e := by
  obtain ⟨inside, eq⟩ := List.getElem?_eq_some_iff.mp here
  have perm := ((removeAt_perm inside).map Prod.fst).nodup_iff.mpr distinct
  rw [List.map_cons, eq, List.nodup_cons] at perm
  exact ⟨perm.2, fun w member => perm.1 (List.mem_map.mpr ⟨_, member, rfl⟩)⟩

theorem Distinct.removeAt (distinct : Distinct es) (here : es[e]? = some (k, v)) :
    Distinct (removeAt es e) :=
  (distinct.removeAt_keys here).1

theorem mem_set_of_ne {k' : κ} (here : es[e]? = some (k, v)) (ne : k' ≠ k) {v' w : ν} :
    (k', v') ∈ es.set e (k, w) ↔ (k', v') ∈ es := by
  obtain ⟨inside, eq⟩ := List.getElem?_eq_some_iff.mp here
  have before := (List.getElem_cons_eraseIdx_perm inside).mem_iff (a := (k', v'))
  have after := (List.set_perm_cons_eraseIdx inside (k, w)).mem_iff (a := (k', v'))
  rw [← before, after, eq]
  simp [ne]

theorem mem_removeAt_of_ne {k' : κ} (here : es[e]? = some (k, v)) (ne : k' ≠ k) {v' : ν} :
    (k', v') ∈ removeAt es e ↔ (k', v') ∈ es := by
  obtain ⟨inside, eq⟩ := List.getElem?_eq_some_iff.mp here
  rw [← (removeAt_perm inside).mem_iff, eq]
  simp [ne]

variable [DecidableEq κ]

/-- The value of the first pair with the key. -/
def find (es : List (κ × ν)) (k : κ) : Option ν := es.lookup k

theorem find_eq_none : find es k = none ↔ ∀ v, (k, v) ∉ es := by
  rw [find, List.lookup_eq_none_iff]
  constructor
  · intro other v member
    have := other _ member
    simp at this
  · intro absent p member
    have other : k ≠ p.1 := by
      rintro rfl
      exact absent p.2 member
    exact bne_iff_ne.mpr other

theorem find_eq_some (distinct : Distinct es) : find es k = some v ↔ (k, v) ∈ es := by
  constructor
  · intro found
    obtain ⟨before, after, rfl, -⟩ := List.lookup_eq_some_iff.mp found
    exact List.mem_append_right _ List.mem_cons_self
  · intro member
    cases found : find es k with
    | none => exact absurd member (find_eq_none.mp found v)
    | some w =>
      obtain ⟨before, after, rfl, -⟩ := List.lookup_eq_some_iff.mp found
      have here := List.mem_append_right before (List.mem_cons_self (a := (k, w)) (l := after))
      rw [distinct.functional here member]

/-- Lists with the same pairs are the same map. -/
theorem find_congr {es' : List (κ × ν)} (distinct : Distinct es) (distinct' : Distinct es')
    {k' : κ} (same : ∀ v, (k', v) ∈ es' ↔ (k', v) ∈ es) : find es' k' = find es k' := by
  ext v
  rw [find_eq_some distinct', find_eq_some distinct, same]

theorem find_append (distinct : Distinct es) (absent : ∀ w, (k, w) ∉ es) (v : ν) :
    find (es ++ [(k, v)]) = Function.update (find es) k (some v) := by
  have distinct' := distinct.append absent v
  funext k'
  by_cases same : k' = k
  · subst same
    rw [Function.update_self, find_eq_some distinct']
    exact List.mem_append_right _ List.mem_cons_self
  · rw [Function.update_of_ne same]
    refine find_congr distinct distinct' fun w => ?_
    rw [List.mem_append, List.mem_singleton, Prod.mk.injEq, or_iff_left (fun both => same both.1)]

theorem find_set (distinct : Distinct es) (here : es[e]? = some (k, v)) (w : ν) :
    find (es.set e (k, w)) = Function.update (find es) k (some w) := by
  have distinct' := distinct.set here w
  funext k'
  by_cases same : k' = k
  · subst same
    rw [Function.update_self, find_eq_some distinct']
    exact List.mem_set (List.getElem?_eq_some_iff.mp here).1 _
  · rw [Function.update_of_ne same]
    exact find_congr distinct distinct' fun _ => mem_set_of_ne here same

theorem find_removeAt (distinct : Distinct es) (here : es[e]? = some (k, v)) :
    find (removeAt es e) = Function.update (find es) k none := by
  obtain ⟨distinct', gone⟩ := distinct.removeAt_keys here
  funext k'
  by_cases same : k' = k
  · subst same
    rw [Function.update_self, find_eq_none]
    exact gone
  · rw [Function.update_of_ne same]
    exact find_congr distinct distinct' fun _ => mem_removeAt_of_ne here same

end PackedMap
