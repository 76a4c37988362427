import Sbfs.Vfs
import Mathlib.Data.Set.Card
import Mathlib.Order.Interval.Finset.Nat

/-! # Handles and reference counts

`FDManager` over whole runs.  What has happened is a list of events; `Held` says from it alone
which handles are open and for which inodes, and `Agrees` that both maps say the same. -/

namespace Sbfs

/-! ## Runs -/

inductive FdCall where
  | open' (inode : Position)
  | close (fd : Nat)
  | get (fd : Nat)

/-- A call with its answer. -/
inductive FdEvent where
  | opened (inode : Position) (fd : Nat)
  | closed (fd : Nat)
  | got (fd : Nat) (inode : Option (Option Position))

namespace FDManager

@[simp] theorem deltaRefCnt_fdManager (m : FDManager) (inode : Option Position) (delta : Int) :
    (m.deltaRefCnt inode delta).fdManager = m.fdManager := by
  rw [deltaRefCnt]
  split <;> rfl

@[simp] theorem deltaRefCnt_fdCounter (m : FDManager) (inode : Option Position) (delta : Int) :
    (m.deltaRefCnt inode delta).fdCounter = m.fdCounter := by
  rw [deltaRefCnt]
  split <;> rfl

/-- A missing key counts as 0. -/
@[simp] theorem deltaRefCnt_referenceCount (m : FDManager) (inode : Option Position) (delta : Int) :
    (m.deltaRefCnt inode delta).referenceCount = Function.update m.referenceCount inode
      (some (uint64 ((m.referenceCount inode).getD 0 + delta))) := by
  rw [deltaRefCnt]
  split
  next missing => rw [missing, Option.getD_none, Nat.cast_zero, Int.zero_add]
  next found => rw [found, Option.getD_some]

def step (m : FDManager) : FdCall → FdEvent × FDManager
  | .open' inode => (.opened inode (m.open' (some inode)).1, (m.open' (some inode)).2)
  | .close fd => (.closed fd, m.close fd)
  | .get fd => (.got fd (m.get fd), m)

/-- The events of a sequence of calls, and the state after it. -/
def play : List FdCall → FDManager → List FdEvent × FDManager
  | [], m => ([], m)
  | call :: calls, m =>
    let rest := play calls (m.step call).2
    ((m.step call).1 :: rest.1, rest.2)

theorem play_concat (calls : List FdCall) (call : FdCall) (m : FDManager) :
    play (calls ++ [call]) m = ((play calls m).1 ++ [((play calls m).2.step call).1], ((play calls m).2.step call).2) := by
  induction calls generalizing m with
  | nil => rfl
  | cons first calls ih => simp only [List.cons_append, play, ih]

end FDManager

/-- How many of the calls are `open`. -/
def opens (calls : List FdCall) : Nat := calls.countP fun
  | .open' _ => true
  | .close _ => false
  | .get _ => false

/-- The handles that `open` has returned. -/
def handedOut (events : List FdEvent) : List Nat := events.filterMap fun
  | .opened _ fd => some fd
  | .closed _ => none
  | .got _ _ => none

/-- `open` has returned the handle for this inode, and it has not been closed since. -/
def Held (events : List FdEvent) (fd : Nat) (inode : Position) : Prop :=
  ∃ before after, events = before ++ .opened inode fd :: after ∧ .closed fd ∉ after

section

variable {events : List FdEvent} {e : FdEvent} {fd fd' : Nat} {inode inode' : Position}

theorem held_concat : Held (events ++ [e]) fd inode ↔
    Held events fd inode ∧ e ≠ .closed fd ∨ e = .opened inode fd := by
  constructor
  · rintro ⟨before, after, split, open'⟩
    cases after using List.reverseRecOn with
    | nil => exact .inr (List.append_inj' split rfl |>.2 |> List.singleton_inj.mp)
    | append_singleton after last =>
      rw [← List.cons_append, ← List.append_assoc] at split
      obtain ⟨front, back⟩ := List.append_inj' split rfl
      rw [List.mem_append, not_or, List.mem_singleton] at open'
      exact .inl ⟨⟨before, after, front, open'.1⟩, fun is => open'.2 (is.symm.trans (List.singleton_inj.mp back))⟩
  · rintro (⟨⟨before, after, rfl, open'⟩, other⟩ | rfl)
    · refine ⟨before, after ++ [e], by rw [List.append_assoc, List.cons_append], ?_⟩
      rw [List.mem_append, not_or, List.mem_singleton]
      exact ⟨open', fun is => other is.symm⟩
    · exact ⟨events, [], rfl, List.not_mem_nil⟩

theorem held_handedOut (held : Held events fd inode) : fd ∈ handedOut events := by
  obtain ⟨before, after, rfl, -⟩ := held
  exact List.mem_filterMap.mpr ⟨_, List.mem_append_right _ List.mem_cons_self, rfl⟩

end

/-! ## The invariant -/

/-- The maps agree with what has happened. -/
structure Agrees (events : List FdEvent) (m : FDManager) : Prop where
  low : 10 ≤ m.fdCounter
  handed : ∀ fd ∈ handedOut events, 10 ≤ fd ∧ fd < m.fdCounter
  distinct : (handedOut events).Nodup
  table : ∀ fd inode, m.fdManager fd = some inode ↔ ∃ pos, inode = some pos ∧ Held events fd pos
  counts : ∀ inode, (m.referenceCount (some inode)).getD 0 = {fd | Held events fd inode}.ncard

namespace Agrees

variable {events : List FdEvent} {m : FDManager} {fd : Nat} {inode : Position}

theorem init : Agrees [] .new := by
  have none : ∀ fd inode, ¬ Held [] fd inode := fun fd inode held => List.not_mem_nil (held_handedOut held)
  constructor
  case low => exact Nat.le_refl _
  case handed => exact fun fd member => absurd member List.not_mem_nil
  case distinct => exact List.nodup_nil
  case table =>
    intro fd inode
    refine iff_of_false (fun found : Option.none = some inode => by cases found) ?_
    rintro ⟨pos, -, held⟩
    exact none fd pos held
  case counts =>
    intro inode
    have empty : {fd | Held [] fd inode} = ∅ := Set.eq_empty_of_forall_notMem fun fd => none fd inode
    rw [empty, Set.ncard_empty]
    rfl

theorem finite (agrees : Agrees events m) (inode : Position) : {fd | Held events fd inode}.Finite :=
  (Set.finite_lt_nat m.fdCounter).subset fun fd held => (agrees.handed fd (held_handedOut held)).2

/-- A handle is open for one inode. -/
theorem unique (agrees : Agrees events m) {inode' : Position} (held : Held events fd inode)
    (held' : Held events fd inode') : inode = inode' := by
  have found := (agrees.table fd _).mpr ⟨inode, rfl, held⟩
  rw [(agrees.table fd _).mpr ⟨inode', rfl, held'⟩] at found
  exact Option.some.inj (Option.some.inj found).symm

theorem card_le (agrees : Agrees events m) (inode : Position) :
    {fd | Held events fd inode}.ncard + 10 ≤ m.fdCounter := by
  have inside : {fd | Held events fd inode} ⊆ ↑(Finset.Ico 10 m.fdCounter) := fun fd held =>
    Finset.mem_coe.mpr (Finset.mem_Ico.mpr (agrees.handed fd (held_handedOut held)))
  have card := Set.ncard_le_ncard inside (Finset.finite_toSet _)
  have low := agrees.low
  rw [Set.ncard_coe_finset, Nat.card_Ico] at card
  omega

theorem opened (agrees : Agrees events m) (few : m.fdCounter + 1 < 18446744073709551616) (pos : Position) :
    Agrees (events ++ [.opened pos (m.open' (some pos)).1]) (m.open' (some pos)).2 := by
  -- the counter has not been handed out, so that no handle is held under it
  have unused : ∀ pos, ¬ Held events m.fdCounter pos := fun pos held =>
    Nat.lt_irrefl _ (agrees.handed _ (held_handedOut held)).2
  have free : m.fdManager m.fdCounter = none := by
    cases found : m.fdManager m.fdCounter with
    | none => rfl
    | some inode =>
      obtain ⟨pos, -, held⟩ := (agrees.table _ _).mp found
      exact absurd held (unused pos)
  have held : ∀ fd inode, Held (events ++ [.opened pos m.fdCounter]) fd inode ↔
      Held events fd inode ∨ (fd = m.fdCounter ∧ inode = pos) := by
    intro fd inode
    rw [held_concat, and_iff_left (by simp), FdEvent.opened.injEq]
    exact or_congr_right (and_comm.trans (and_congr eq_comm eq_comm))
  have out : handedOut (events ++ [.opened pos m.fdCounter]) = handedOut events ++ [m.fdCounter] := by
    rw [handedOut, List.filterMap_append]
    rfl
  have low := agrees.low
  have next : (m.fdCounter + 1) % 18446744073709551616 = m.fdCounter + 1 := Nat.mod_eq_of_lt few
  simp only [FDManager.open', free, next]
  constructor
  case low =>
    rw [FDManager.deltaRefCnt_fdCounter]
    exact Nat.le_succ_of_le low
  case handed =>
    intro fd member
    rw [FDManager.deltaRefCnt_fdCounter]
    rw [out, List.mem_append, List.mem_singleton] at member
    cases member with
    | inl old =>
      have range := agrees.handed fd old
      exact ⟨range.1, Nat.lt_succ_of_lt range.2⟩
    | inr new => exact ⟨new ▸ low, new ▸ Nat.lt_succ_self _⟩
  case distinct =>
    rw [out, List.nodup_append]
    refine ⟨agrees.distinct, List.nodup_singleton _, fun fd member fd' new same => ?_⟩
    rw [List.mem_singleton] at new
    exact Nat.ne_of_lt (agrees.handed fd member).2 (same.trans new)
  case table =>
    intro fd inode
    simp only [FDManager.deltaRefCnt_fdManager, Function.update_apply, held]
    by_cases new : fd = m.fdCounter
    · rw [if_pos new, new]
      constructor
      · intro same
        cases same
        exact ⟨pos, rfl, .inr ⟨rfl, rfl⟩⟩
      · rintro ⟨pos', rfl, held | ⟨-, rfl⟩⟩
        · exact absurd held (unused pos')
        · rfl
    · simp only [new, if_false, false_and, or_false]
      exact agrees.table fd inode
  case counts =>
    intro inode
    have card := agrees.card_le pos
    rw [FDManager.deltaRefCnt_referenceCount, Function.update_apply]
    simp only [held]
    by_cases is : inode = pos
    · subst is
      -- the set of the handles of `pos` gets one element more
      have more : {fd | Held events fd inode ∨ fd = m.fdCounter ∧ inode = inode} =
          insert m.fdCounter {fd | Held events fd inode} :=
        Set.ext fun fd => (or_congr_right (and_iff_left rfl)).trans or_comm
      have fresh : m.fdCounter ∉ {fd | Held events fd inode} := unused inode
      rw [more, Set.ncard_insert_of_notMem fresh (agrees.finite inode), if_pos rfl, Option.getD_some,
        agrees.counts, uint64]
      omega
    · rw [if_neg fun same => is (Option.some.inj same)]
      simp only [is, and_false, or_false]
      exact agrees.counts inode

/-- A call that opens no handle and closes none. -/
theorem unchanged {e : FdEvent} (agrees : Agrees events m) (same : Held (events ++ [e]) = Held events)
    (out : handedOut (events ++ [e]) = handedOut events) : Agrees (events ++ [e]) m :=
  ⟨agrees.low, out ▸ agrees.handed, out ▸ agrees.distinct, same ▸ agrees.table, same ▸ agrees.counts⟩

theorem closed (agrees : Agrees events m) (small : m.fdCounter < 18446744073709551616) (fd : Nat) :
    Agrees (events ++ [.closed fd]) (m.close fd) := by
  have held : ∀ fd' inode, Held (events ++ [.closed fd]) fd' inode ↔ Held events fd' inode ∧ fd' ≠ fd := by
    intro fd' inode
    rw [held_concat, or_iff_left (by simp), ne_eq, FdEvent.closed.injEq, eq_comm]
  have out : handedOut (events ++ [.closed fd]) = handedOut events := by
    rw [handedOut, List.filterMap_append]
    exact List.append_nil _
  by_cases here : ∃ pos, Held events fd pos
  · obtain ⟨pos, here⟩ := here
    have range := agrees.handed fd (held_handedOut here)
    have found := (agrees.table fd _).mpr ⟨pos, rfl, here⟩
    rw [FDManager.close, if_neg (by omega), found]
    constructor
    case low => exact (FDManager.deltaRefCnt_fdCounter _ _ _).symm ▸ agrees.low
    case handed =>
      rw [out]
      exact (FDManager.deltaRefCnt_fdCounter _ _ _).symm ▸ agrees.handed
    case distinct =>
      rw [out]
      exact agrees.distinct
    case table =>
      intro fd' inode
      simp only [Function.update_apply, held]
      by_cases is : fd' = fd
      · rw [if_pos is]
        refine iff_of_false (fun none : Option.none = some inode => by cases none) ?_
        rintro ⟨pos', -, -, other⟩
        exact other is
      · simp only [is, if_false, ne_eq, not_false_eq_true, and_true]
        exact agrees.table fd' inode
    case counts =>
      intro inode
      simp only [FDManager.deltaRefCnt_referenceCount, Function.update_apply, held]
      by_cases is : inode = pos
      · subst is
        -- the set of the handles of `pos` loses one element
        have fewer : {fd' | Held events fd' inode ∧ fd' ≠ fd} = {fd' | Held events fd' inode} \ {fd} := rfl
        have member : fd ∈ {fd' | Held events fd' inode} := here
        have positive := (Set.ncard_pos (agrees.finite inode)).mpr ⟨fd, member⟩
        have few := agrees.card_le inode
        rw [fewer, Set.ncard_sdiff_singleton_of_mem member, if_pos rfl, Option.getD_some, agrees.counts, uint64]
        omega
      · -- `fd` was not a handle of this inode
        have same : {fd' | Held events fd' inode ∧ fd' ≠ fd} = {fd' | Held events fd' inode} := by
          ext fd'
          refine and_iff_left_of_imp fun there at_fd => is ?_
          exact agrees.unique there (at_fd ▸ here)
        rw [if_neg fun same => is (Option.some.inj same), same]
        exact agrees.counts inode
  · -- a handle that is not open
    have none : m.fdManager fd = none := by
      cases found : m.fdManager fd with
      | none => rfl
      | some inode =>
        obtain ⟨pos, -, held⟩ := (agrees.table _ _).mp found
        exact absurd ⟨pos, held⟩ here
    have stays : m.close fd = m := by
      rw [FDManager.close, none]
      split <;> rfl
    have same : Held (events ++ [.closed fd]) = Held events := by
      funext fd' inode
      rw [held, eq_iff_iff]
      exact and_iff_left_of_imp fun there is => here ⟨inode, is ▸ there⟩
    rw [stays]
    exact agrees.unchanged same out

theorem got (agrees : Agrees events m) (fd : Nat) (r : Option (Option Position)) :
    Agrees (events ++ [.got fd r]) m := by
  have same : Held (events ++ [.got fd r]) = Held events := by
    funext fd' inode
    rw [held_concat, or_iff_left (by simp), and_iff_left (by simp)]
  have out : handedOut (events ++ [.got fd r]) = handedOut events := by
    rw [handedOut, List.filterMap_append]
    exact List.append_nil _
  exact agrees.unchanged same out

end Agrees

/-- The invariant holds after every sequence of calls. -/
theorem agrees_play (calls : List FdCall) (few : opens calls < 18446744073709551606) :
    Agrees (FDManager.play calls .new).1 (FDManager.play calls .new).2 ∧
      (FDManager.play calls .new).2.fdCounter = 10 + opens calls := by
  induction calls using List.reverseRecOn with
  | nil => exact ⟨.init, rfl⟩
  | append_singleton calls call ih =>
    have count : opens (calls ++ [call]) = opens calls + opens [call] := List.countP_append
    obtain ⟨agrees, counter⟩ := ih (by omega)
    rw [FDManager.play_concat]
    generalize FDManager.play calls .new = play at agrees counter ⊢
    cases call with
    | open' inode =>
      have one : opens [.open' inode] = 1 := rfl
      refine ⟨agrees.opened (by omega) inode, ?_⟩
      have next : (play.2.fdCounter + 1) % 18446744073709551616 = play.2.fdCounter + 1 := Nat.mod_eq_of_lt (by omega)
      simp only [FDManager.step, FDManager.open', FDManager.deltaRefCnt_fdCounter, next]
      omega
    | close fd =>
      have none : opens [.close fd] = 0 := rfl
      refine ⟨agrees.closed (by omega) fd, ?_⟩
      have same : (play.2.close fd).fdCounter = play.2.fdCounter := by
        rw [FDManager.close]
        split
        · rfl
        · split
          · rfl
          · exact FDManager.deltaRefCnt_fdCounter _ _ _
      simp only [FDManager.step, same]
      omega
    | get fd =>
      have none : opens [.get fd] = 0 := rfl
      refine ⟨agrees.got fd _, ?_⟩
      simp only [FDManager.step]
      omega

/-- Handles and reference counts agree. -/
theorem handles_agree (calls : List FdCall) (few : opens calls < 18446744073709551606) :
    let events := (FDManager.play calls .new).1
    let m := (FDManager.play calls .new).2
    (handedOut events).Nodup ∧
    (∀ fd inode, m.get fd = some inode ↔ ∃ pos, inode = some pos ∧ Held events fd pos) ∧
    (∀ inode, (m.referenceCount (some inode)).getD 0 = {fd | Held events fd inode}.ncard) ∧
    ∀ inode, m.isOpen (some inode) = true ↔ ∃ fd, Held events fd inode := by
  obtain ⟨agrees, -⟩ := agrees_play calls few
  intro events m
  refine ⟨agrees.distinct, fun fd inode => ?_, agrees.counts, fun inode => ?_⟩
  · rw [← agrees.table, FDManager.get]
    by_cases zero : fd = 0
    · rw [if_pos zero]
      refine iff_of_false (fun none => by cases none) fun found => ?_
      obtain ⟨pos, -, held⟩ := (agrees.table _ _).mp found
      have range := agrees.handed fd (held_handedOut held)
      omega
    · rw [if_neg zero]
  · have counts := agrees.counts inode
    have positive : m.isOpen (some inode) = true ↔ 0 < (m.referenceCount (some inode)).getD 0 := by
      rw [FDManager.isOpen]
      split
      next missing => simp [missing]
      next found => simp [found]
    rw [positive, counts, Set.ncard_pos (agrees.finite inode)]
    rfl

/-- Two handles on one inode; one of them is closed, twice, and then 0 is. -/
theorem handles_agree_twice :
    let calls : List FdCall := [.open' ⟨2, 128⟩, .open' ⟨2, 128⟩, .close 10, .close 10, .close 0, .get 11]
    let events := (FDManager.play calls .new).1
    let m := (FDManager.play calls .new).2
    (handedOut events).Nodup ∧
    (∀ fd inode, m.get fd = some inode ↔ ∃ pos, inode = some pos ∧ Held events fd pos) ∧
    (∀ inode, (m.referenceCount (some inode)).getD 0 = {fd | Held events fd inode}.ncard) ∧
    ∀ inode, m.isOpen (some inode) = true ↔ ∃ fd, Held events fd inode :=
  handles_agree _ (by decide)

end Sbfs
