import Mathlib.Data.List.Basic
import Mathlib.Data.List.Nodup
import Mathlib.Data.List.Perm.Basic

/-! # The second-chance queue

The order in which the hand of a clock algorithm meets the entries is a queue: an entry that
is marked goes to the back with its mark cleared, one that is not is taken out.  `ClockRun`
is any number of such moves together with the entries taken, in order.

* `ClockRun.map_perm`: no entry is lost, made or renamed.
* `ClockRun.second_chance`: until all entries that were not marked at the start are taken,
  nothing else is.
-/

variable {α κ : Type} {marked : α → Prop} {clear : α → α}

/-- Moves from one queue to another that take the entries of `taken`. -/
inductive ClockRun (marked : α → Prop) (clear : α → α) : List α → List α → List α → Prop
  | stop (queue : List α) : ClockRun marked clear queue [] queue
  | pass {x : α} {queue taken rest : List α} (set : marked x)
      (after : ClockRun marked clear (queue ++ [clear x]) taken rest) :
      ClockRun marked clear (x :: queue) taken rest
  | take {x : α} {queue taken rest : List α} (unset : ¬ marked x)
      (after : ClockRun marked clear queue taken rest) :
      ClockRun marked clear (x :: queue) (x :: taken) rest

namespace ClockRun

variable {queue taken rest : List α}

/-- What clearing a mark keeps, a run keeps. -/
theorem map_perm (run : ClockRun marked clear queue taken rest) (key : α → κ)
    (keeps : ∀ x, key (clear x) = key x) : ((taken ++ rest).map key).Perm (queue.map key) := by
  induction run with
  | stop queue => exact .refl _
  | @pass x queue taken rest set after ih =>
    refine ih.trans ?_
    rw [List.map_append, List.map_singleton, keeps, List.map_cons]
    exact List.perm_append_singleton _ _
  | take unset after ih => exact ih.cons _

/-- The entries before `passed` have not been met yet: either only such entries are taken, none
of them marked, or all of those that are not marked. -/
theorem clean_or_drained_append {ahead passed : List α}
    (run : ClockRun marked clear (ahead ++ passed) taken rest) :
    (∀ y ∈ taken, y ∈ ahead ∧ ¬ marked y) ∨ ∀ z ∈ ahead, ¬ marked z → z ∈ taken := by
  generalize eq : ahead ++ passed = queue at run
  induction run generalizing ahead passed with
  | stop queue => exact .inl fun y none => nomatch none
  | @pass x queue taken rest set after ih =>
    cases ahead with
    | nil => exact .inr fun z none => nomatch none
    | cons y ahead =>
      obtain ⟨rfl, rfl⟩ := List.cons.inj eq
      cases ih (List.append_assoc _ _ _).symm with
      | inl clean => exact .inl fun y member => ⟨.tail _ (clean y member).1, (clean y member).2⟩
      | inr drained =>
        refine .inr fun z member unset => ?_
        cases member with
        | head => exact absurd set unset
        | tail _ member => exact drained z member unset
  | @take x queue taken rest unset after ih =>
    cases ahead with
    | nil => exact .inr fun z none => nomatch none
    | cons y ahead =>
      obtain ⟨rfl, rfl⟩ := List.cons.inj eq
      cases ih rfl with
      | inl clean =>
        refine .inl fun z member => ?_
        cases member with
        | head => exact ⟨.head _, unset⟩
        | tail _ member => exact ⟨.tail _ (clean z member).1, (clean z member).2⟩
      | inr drained =>
        refine .inr fun z member unset => ?_
        cases member with
        | head => exact .head _
        | tail _ member => exact .tail _ (drained z member unset)

/-- An entry that is marked is taken only after all that are not. -/
theorem second_chance (run : ClockRun marked clear queue taken rest) (key : α → κ)
    (distinct : (queue.map key).Nodup) {x y z : α} (member : x ∈ queue) (set : marked x)
    (out : y ∈ taken) (same : key y = key x) (other : z ∈ queue) (unset : ¬ marked z) : z ∈ taken := by
  rw [← List.append_nil queue] at run
  cases run.clean_or_drained_append with
  | inl clean =>
    obtain ⟨there, unset⟩ := clean y out
    exact absurd set (List.inj_on_of_nodup_map distinct there member same ▸ unset)
  | inr drained => exact drained z other unset

end ClockRun
