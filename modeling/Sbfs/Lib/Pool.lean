import Mathlib.Order.Bounds.Basic
import Mathlib.Order.SetNotation
import Mathlib.Data.List.Nodup
import Mathlib.Data.List.Perm.Subperm
import Mathlib.Data.Set.Basic

/-! # First-fit pools

A pool hands out members of an ordered set `U`.  `T` is the set of those that are taken: a
caller takes the least member of `U` that is not in `T`, and gives members back.

* `Run.held` says that what a caller took and has not given back is still taken, so nobody
  else gets it (`Run.not_held`).
* `Run.restores_iff` and `Run.gets_back` say when giving members back and taking as many
  again leaves the pool as it was.
-/

namespace Pool

variable {α : Type}

inductive Call (α : Type) where
  | took (got : Option α)
  | gave (a : α)

variable [LinearOrder α] {U T T' M : Set α} {a : α} {calls calls' : List (Call α)}

/-- One call on a pool. -/
inductive Step (U : Set α) : Set α → Call α → Set α → Prop where
  | took {T : Set α} {a : α} (least : IsLeast (U \ T) a) : Step U T (.took (some a)) (insert a T)
  | full {T : Set α} (full : U ⊆ T) : Step U T (.took none) T
  | gave {T : Set α} {a : α} (inside : a ∈ U) : Step U T (.gave a) (T \ {a})

/-- The calls in `calls`, the first one first, lead from `T` to `T'`. -/
inductive Run (U : Set α) : Set α → List (Call α) → Set α → Prop where
  | nil {T : Set α} : Run U T [] T
  | cons {T M T' : Set α} {call : Call α} {calls : List (Call α)} (step : Step U T call M)
      (rest : Run U M calls T') : Run U T (call :: calls) T'

theorem Run.snoc {call : Call α} (run : Run U T calls M) (step : Step U M call T') :
    Run U T (calls ++ [call]) T' := by
  induction run with
  | nil => exact .cons step .nil
  | cons first _ ih => exact .cons first (ih step)

theorem run_append : Run U T (calls ++ calls') T' ↔ ∃ M, Run U T calls M ∧ Run U M calls' T' := by
  induction calls generalizing T with
  | nil =>
    refine ⟨fun run => ⟨T, .nil, run⟩, fun split => ?_⟩
    obtain ⟨M, first, second⟩ := split
    cases first
    exact second
  | cons call calls ih =>
    constructor
    · intro run
      cases run with
      | cons step rest =>
        obtain ⟨M, first, second⟩ := ih.mp rest
        exact ⟨M, .cons step first, second⟩
    · intro split
      obtain ⟨M, first, second⟩ := split
      cases first with
      | cons step rest => exact .cons step (ih.mpr ⟨M, rest, second⟩)

/-! ## Nothing is handed out twice -/

/-- Member `a` was taken, and has not been given back since. -/
def Held (calls : List (Call α)) (a : α) : Prop :=
  ∃ before after, calls = before ++ .took (some a) :: after ∧ .gave a ∉ after

/-- What nobody gives back stays taken. -/
theorem Run.stays (run : Run U T calls T') (kept : .gave a ∉ calls) (member : a ∈ T) : a ∈ T' := by
  induction run with
  | nil => exact member
  | cons step _ ih =>
    rw [List.mem_cons, not_or] at kept
    refine ih kept.2 ?_
    cases step with
    | took _ => exact Set.mem_insert_of_mem _ member
    | full _ => exact member
    | gave _ => exact ⟨member, fun same => kept.1 (same ▸ rfl)⟩

theorem Run.held (run : Run U T calls T') (held : Held calls a) : a ∈ T' := by
  obtain ⟨before, after, rfl, kept⟩ := held
  obtain ⟨M, -, run⟩ := run_append.mp run
  cases run with
  | cons step rest =>
    refine rest.stays kept ?_
    cases step with
    | took _ => exact Set.mem_insert _ _

theorem Step.fresh (step : Step U T (.took (some a)) T') : a ∉ T := by
  cases step with
  | took least => exact least.1.2

/-- A member that is handed out is not held by anybody. -/
theorem Run.not_held (run : Run U T calls M) (step : Step U M (.took (some a)) T') : ¬ Held calls a :=
  fun held => step.fresh (run.held held)

/-! ## Giving back and taking again -/

theorem run_gave {given : List α} (run : Run U T (given.map .gave) T') : T' = T \ {a | a ∈ given} := by
  induction given generalizing T with
  | nil =>
    cases run
    simp
  | cons a given ih =>
    cases run with
    | cons step rest =>
      cases step with
      | gave _ =>
        rw [ih rest]
        ext x
        simp only [Set.mem_sdiff, Set.mem_singleton_iff, Set.mem_ofPred_eq, List.mem_cons]
        tauto

/-- Members taken one after another are distinct, and were not taken before. -/
theorem run_took {taken : List α} (run : Run U T (taken.map fun a => .took (some a)) T') :
    T' = T ∪ {a | a ∈ taken} ∧ taken.Nodup ∧ ∀ a ∈ taken, a ∉ T := by
  induction taken generalizing T with
  | nil =>
    cases run
    simp
  | cons a taken ih =>
    cases run with
    | cons step rest =>
      cases step with
      | took least =>
        obtain ⟨eq, nodup, fresh⟩ := ih rest
        refine ⟨?_, List.nodup_cons.mpr ⟨fun again => fresh a again (Set.mem_insert _ _), nodup⟩, ?_⟩
        · rw [eq]
          ext x
          simp only [Set.mem_union, Set.mem_insert_iff, Set.mem_ofPred_eq, List.mem_cons]
          tauto
        · intro x member
          cases List.mem_cons.mp member with
          | inl same => exact same ▸ least.1.2
          | inr later => exact fun old => fresh x later (Set.mem_insert_of_mem _ old)

variable {given taken : List α}

/-- The pool is as before exactly if the members taken are those that were given back. -/
theorem Run.restores_iff (run : Run U T (given.map .gave ++ taken.map fun a => .took (some a)) T')
    (allocated : ∀ a ∈ given, a ∈ T) : T' = T ↔ ∀ a, a ∈ taken ↔ a ∈ given := by
  obtain ⟨M, first, second⟩ := run_append.mp run
  have rest := run_gave first
  obtain ⟨eq, -, fresh⟩ := run_took second
  subst rest
  subst eq
  constructor
  · intro same a
    constructor
    · intro again
      by_contra kept
      have old : a ∈ T := same ▸ Or.inr again
      exact fresh a again ⟨old, kept⟩
    · intro back
      have here : a ∈ T \ {a | a ∈ given} ∪ {a | a ∈ taken} := same.symm ▸ allocated a back
      exact here.resolve_left fun kept => kept.2 back
  · intro same
    ext x
    simp only [Set.mem_union, Set.mem_sdiff, Set.mem_ofPred_eq, same]
    have := allocated x
    tauto

/-- If nothing below them is free, the members given back are the ones that are taken again. -/
theorem Run.gets_back (run : Run U T (given.map .gave ++ taken.map fun a => .took (some a)) T')
    (inside : ∀ a ∈ given, a ∈ U) (distinct : given.Nodup) (count : taken.length = given.length)
    (packed : ∀ a ∈ given, ∀ x ∈ U, x < a → x ∈ T) : ∀ a, a ∈ taken ↔ a ∈ given := by
  obtain ⟨M, first, second⟩ := run_append.mp run
  have rest := run_gave first
  obtain ⟨-, nodup, -⟩ := run_took second
  -- as long as fewer are taken than were given back, one of the latter is left to be the least
  have subset : ∀ n, n ≤ taken.length → ∀ a ∈ taken.take n, a ∈ given := by
    intro n
    induction n with
    | zero => simp
    | succ n ih =>
      intro bound
      have early := ih (by omega)
      rw [List.take_add_one, List.getElem?_eq_getElem (by omega : n < taken.length)]
      intro a member
      cases List.mem_append.mp member with
      | inl old => exact early a old
      | inr last =>
        obtain rfl : a = taken[n] := by simpa using last
        have split : taken = taken.take n ++ taken[n] :: taken.drop (n + 1) := by simp
        rw [split, List.map_append, List.map_cons] at second
        obtain ⟨N, takes, next⟩ := run_append.mp second
        obtain ⟨eq, shortNodup, -⟩ := run_took takes
        have least : IsLeast (U \ N) taken[n] := by
          cases next with
          | cons step _ => cases step with | took least => exact least
        -- one of those given back is not taken yet
        have left : ∃ x ∈ given, x ∉ taken.take n := by
          by_contra none
          have all : given ⊆ taken.take n := fun x back => by
            by_contra missing
            exact none ⟨x, back, missing⟩
          have := (List.subperm_of_subset distinct all).length_le
          rw [List.length_take] at this
          omega
        obtain ⟨x, back, missing⟩ := left
        have open' : x ∈ U \ N := by
          refine ⟨inside x back, fun closed => ?_⟩
          rw [eq, rest] at closed
          cases closed with
          | inl kept => exact kept.2 back
          | inr again => exact missing again
        by_contra other
        have below : taken[n] < x := lt_of_le_of_ne (least.2 open') fun same => other (same ▸ back)
        refine least.1.2 ?_
        rw [eq, rest]
        exact Or.inl ⟨packed x back _ least.1.1 below, other⟩
  have all : taken ⊆ given := fun a member => subset taken.length le_rfl a (by simpa using member)
  have perm := (List.subperm_of_subset nodup all).perm_of_length_le (Nat.le_of_eq count.symm)
  exact fun a => perm.mem_iff

end Pool
