import Mathlib.Logic.Function.Basic

/-! # Programs over a block device

A `DevProg β α` is a program that computes an `α` and talks to a block device
whose blocks have type `β`: it may read and write blocks, ask for a block (or all
of them) to be forced to stable storage, and look at the clock.  Such a program is
a plain tree, so it means nothing until a `Handler` says how the device answers.

* `DevProg.interp` runs a program on any handler; `interp_invariant` lifts what every
  request preserves to whole programs.
* `Store` is the flat device, an array of blocks that also records every write
  request, and `DevProg.run` runs a program on it.
* `DevProg.reads` are the blocks that a run asks the flat device for, and `DevProg.Yields`
  is a run with a bound on them (`Yields.bind`).
* `Touches W` says that a run wrote only blocks in `W`; it is the frame rule of the
  developments that use this module.
* `DevProg.ReadOnly` programs make no write request, so they touch nothing.
* `DevProg.Throughout P` says that `P` holds at every moment of a run; by `throughout_iff` that
  is `P` after every prefix of the run's writes.
-/

/-- A program over a device with blocks `β`, with result `α`. -/
inductive DevProg (β α : Type) : Type where
  | done (a : α)
  | read (id : Nat) (next : Option β → DevProg β α)
  | write (id : Nat) (blk : β) (next : Bool → DevProg β α)
  | sync (id : Nat) (next : Bool → DevProg β α)
  | syncAll (next : Bool → DevProg β α)
  | time (next : Nat → DevProg β α)

namespace DevProg

variable {β α γ δ : Type}

/-- Sequencing: run `p`, then continue with its result. -/
def bind : DevProg β α → (α → DevProg β γ) → DevProg β γ
  | .done a, f => f a
  | .read id next, f => .read id fun r => (next r).bind f
  | .write id blk next, f => .write id blk fun r => (next r).bind f
  | .sync id next, f => .sync id fun r => (next r).bind f
  | .syncAll next, f => .syncAll fun r => (next r).bind f
  | .time next, f => .time fun t => (next t).bind f

instance : Monad (DevProg β) where
  pure := .done
  bind := .bind

theorem bind_done (p : DevProg β α) : p.bind .done = p := by
  induction p with
  | done a => rfl
  | read id next ih => exact congrArg (DevProg.read id) (funext ih)
  | write id blk next ih => exact congrArg (DevProg.write id blk) (funext ih)
  | sync id next ih => exact congrArg (DevProg.sync id) (funext ih)
  | syncAll next ih => exact congrArg DevProg.syncAll (funext ih)
  | time next ih => exact congrArg DevProg.time (funext ih)

theorem bind_bind (p : DevProg β α) (f : α → DevProg β γ) (g : γ → DevProg β δ) :
    (p.bind f).bind g = p.bind fun a => (f a).bind g := by
  induction p with
  | done a => rfl
  | read id next ih => exact congrArg (DevProg.read id) (funext ih)
  | write id blk next ih => exact congrArg (DevProg.write id blk) (funext ih)
  | sync id next ih => exact congrArg (DevProg.sync id) (funext ih)
  | syncAll next ih => exact congrArg DevProg.syncAll (funext ih)
  | time next ih => exact congrArg DevProg.time (funext ih)

instance : LawfulMonad (DevProg β) := .mk' (DevProg β) bind_done (fun _ _ => rfl) bind_bind

/-- Request the content of block `id`; `none` is a failed read. -/
def readBlk (id : Nat) : DevProg β (Option β) := .read id .done

/-- Request that block `id` become `blk`; `false` is a failed write. -/
def writeBlk (id : Nat) (blk : β) : DevProg β Bool := .write id blk .done

/-- Request that block `id` be on stable storage. -/
def syncBlk (id : Nat) : DevProg β Bool := .sync id .done

/-- Request that every block be on stable storage. -/
def syncBlks : DevProg β Bool := .syncAll .done

/-- Look at the clock. -/
def now : DevProg β Nat := .time .done

end DevProg

/-! ## Handlers -/

/-- How a device with state `σ` answers the requests of a program. -/
structure Handler (β σ : Type) where
  read : Nat → σ → Option β × σ
  write : Nat → β → σ → Bool × σ
  sync : Nat → σ → Bool × σ
  syncAll : σ → Bool × σ
  time : σ → Nat × σ

namespace DevProg

variable {β α γ σ τ : Type}

/-- The run of a program on a device. -/
def interp (h : Handler β σ) : DevProg β α → σ → α × σ
  | .done a, s => (a, s)
  | .read id next, s => (next (h.read id s).1).interp h (h.read id s).2
  | .write id blk next, s => (next (h.write id blk s).1).interp h (h.write id blk s).2
  | .sync id next, s => (next (h.sync id s).1).interp h (h.sync id s).2
  | .syncAll next, s => (next (h.syncAll s).1).interp h (h.syncAll s).2
  | .time next, s => (next (h.time s).1).interp h (h.time s).2

@[simp] theorem interp_pure (h : Handler β σ) (a : α) (s : σ) :
    (pure a : DevProg β α).interp h s = (a, s) := rfl

theorem interp_bind (h : Handler β σ) (p : DevProg β α) (f : α → DevProg β γ) (s : σ) :
    (p >>= f).interp h s = (f (p.interp h s).1).interp h (p.interp h s).2 := by
  change (p.bind f).interp h s = _
  induction p generalizing s with
  | done a => rfl
  | read id next ih => exact ih _ _
  | write id blk next ih => exact ih _ _
  | sync id next ih => exact ih _ _
  | syncAll next ih => exact ih _ _
  | time next ih => exact ih _ _

/-- A property of the device that every request preserves is preserved by every program. -/
theorem interp_invariant {h : Handler β σ} {Inv : σ → Prop}
    (read : ∀ id s, Inv s → Inv (h.read id s).2)
    (write : ∀ id blk s, Inv s → Inv (h.write id blk s).2)
    (sync : ∀ id s, Inv s → Inv (h.sync id s).2)
    (syncAll : ∀ s, Inv s → Inv (h.syncAll s).2)
    (time : ∀ s, Inv s → Inv (h.time s).2)
    (p : DevProg β α) (s : σ) (inv : Inv s) : Inv (p.interp h s).2 := by
  induction p generalizing s with
  | done a => exact inv
  | read id next ih => exact ih _ _ (read id s inv)
  | write id blk next ih => exact ih _ _ (write id blk s inv)
  | sync id next ih => exact ih _ _ (sync id s inv)
  | syncAll next ih => exact ih _ _ (syncAll s inv)
  | time next ih => exact ih _ _ (time s inv)

end DevProg

/-! ## The flat device -/

/-- An array of `count` blocks.  `writes` records every write request in order,
`clock` gives the answers of the clock and `syncs` those of the sync requests,
which an array of blocks does not determine. -/
structure Store (β : Type) where
  count : Nat
  blocks : Nat → β
  writes : List (Nat × β)
  clock : Nat → Nat
  syncs : Nat → Bool

namespace Store

variable {β : Type}

/-- The store after a write request; a request past the end changes no block. -/
def put (s : Store β) (id : Nat) (blk : β) : Store β :=
  { s with
    blocks := if id < s.count then Function.update s.blocks id blk else s.blocks
    writes := s.writes ++ [(id, blk)] }

/-- The store after the clock has been read. -/
def tick (s : Store β) : Store β := { s with clock := fun n => s.clock (n + 1) }

/-- The store after a sync request has been answered. -/
def synced (s : Store β) : Store β := { s with syncs := fun n => s.syncs (n + 1) }

/-- The flat device as a handler. -/
def handler : Handler β (Store β) where
  read id s := (if id < s.count then some (s.blocks id) else none, s)
  write id blk s := (decide (id < s.count), s.put id blk)
  sync _ s := (s.syncs 0, s.synced)
  syncAll s := (s.syncs 0, s.synced)
  time s := (s.clock 0, s.tick)

@[simp] theorem put_count (s : Store β) (id : Nat) (blk : β) : (s.put id blk).count = s.count := rfl
@[simp] theorem tick_count (s : Store β) : s.tick.count = s.count := rfl
@[simp] theorem tick_blocks (s : Store β) : s.tick.blocks = s.blocks := rfl
@[simp] theorem tick_writes (s : Store β) : s.tick.writes = s.writes := rfl

theorem put_blocks_of_lt (s : Store β) {id : Nat} (blk : β) (h : id < s.count) :
    (s.put id blk).blocks = Function.update s.blocks id blk := by
  simp [put, h]

theorem put_blocks_same (s : Store β) {id : Nat} (blk : β) (h : id < s.count) :
    (s.put id blk).blocks id = blk := by
  simp [put_blocks_of_lt s blk h]

theorem put_blocks_ne (s : Store β) {id b : Nat} (blk : β) (h : b ≠ id) :
    (s.put id blk).blocks b = s.blocks b := by
  simp only [put]
  split
  · exact Function.update_of_ne h _ _
  · rfl

/-- Writing a block as it is changes nothing. -/
theorem put_blocks_self (s : Store β) (id : Nat) : (s.put id (s.blocks id)).blocks = s.blocks := by
  simp only [put]
  split
  · exact Function.update_eq_self _ _
  · rfl

end Store

namespace DevProg

variable {β α γ : Type}

/-- The run of a program on the flat device. -/
def run (p : DevProg β α) (s : Store β) : α × Store β := p.interp Store.handler s

@[simp] theorem run_done (a : α) (s : Store β) : (DevProg.done a : DevProg β α).run s = (a, s) := rfl

@[simp] theorem run_pure (a : α) (s : Store β) : (pure a : DevProg β α).run s = (a, s) := rfl

@[simp] theorem run_bind (p : DevProg β α) (f : α → DevProg β γ) (s : Store β) :
    (p >>= f).run s = (f (p.run s).1).run (p.run s).2 :=
  interp_bind _ p f s

@[simp] theorem run_now (s : Store β) : (now : DevProg β Nat).run s = (s.clock 0, s.tick) := rfl

theorem run_readBlk (id : Nat) (s : Store β) :
    (readBlk id).run s = (if id < s.count then some (s.blocks id) else none, s) := rfl

theorem run_writeBlk (id : Nat) (blk : β) (s : Store β) :
    (writeBlk id blk).run s = (decide (id < s.count), s.put id blk) := rfl

theorem run_readBlk_of_lt {id : Nat} {s : Store β} (h : id < s.count) :
    (readBlk id).run s = (some (s.blocks id), s) := by
  rw [run_readBlk, if_pos h]

theorem run_readBlk_of_ge {id : Nat} {s : Store β} (h : s.count ≤ id) :
    (readBlk id).run s = (none, s) := by
  rw [run_readBlk, if_neg (Nat.not_lt.mpr h)]

theorem run_writeBlk_of_lt {id : Nat} {s : Store β} (blk : β) (h : id < s.count) :
    (writeBlk id blk).run s = (true, s.put id blk) := by
  rw [run_writeBlk, decide_eq_true h]

/-- No program changes the size of the device. -/
theorem run_count (p : DevProg β α) (s : Store β) : (p.run s).2.count = s.count := by
  refine @interp_invariant β α (Store β) Store.handler (fun t => t.count = s.count) ?_ ?_ ?_ ?_ ?_ p s rfl
  · exact fun _ _ same => same
  · exact fun _ _ _ same => same
  · exact fun _ _ same => same
  · exact fun _ same => same
  · exact fun _ same => same

theorem count_of_run {p : DevProg β α} {s s' : Store β} {a : α} (run : p.run s = (a, s')) : s'.count = s.count := by
  have count := run_count p s
  rwa [run] at count

/-- The read requests of the run on the flat device, in order. -/
def reads : DevProg β α → Store β → List Nat
  | .done _, _ => []
  | .read id next, s => id :: (next (Store.handler.read id s).1).reads s
  | .write id blk next, s => (next (Store.handler.write id blk s).1).reads (s.put id blk)
  | .sync _ next, s => (next (s.syncs 0)).reads s.synced
  | .syncAll next, s => (next (s.syncs 0)).reads s.synced
  | .time next, s => (next (s.clock 0)).reads s.tick

@[simp] theorem reads_pure (a : α) (s : Store β) : (pure a : DevProg β α).reads s = [] := rfl

@[simp] theorem reads_readBlk (id : Nat) (s : Store β) : (readBlk id).reads s = [id] := rfl

@[simp] theorem reads_writeBlk (id : Nat) (blk : β) (s : Store β) : (writeBlk id blk).reads s = [] := rfl

theorem reads_bind (p : DevProg β α) (f : α → DevProg β γ) (s : Store β) :
    (p >>= f).reads s = p.reads s ++ (f (p.run s).1).reads (p.run s).2 := by
  change (p.bind f).reads s = _
  induction p generalizing s with
  | done a => rfl
  | read id next ih => exact congrArg (List.cons id) (ih _ s)
  | write id blk next ih => exact ih _ _
  | sync id next ih => exact ih _ _
  | syncAll next ih => exact ih _ _
  | time next ih => exact ih _ _

/-- The run of `p` from `s` returns `a` and ends in `s'`, and it asks for blocks in `R` only. -/
structure Yields (R : Nat → Prop) (p : DevProg β α) (s : Store β) (a : α) (s' : Store β) : Prop where
  run : p.run s = (a, s')
  reads : ∀ b ∈ p.reads s, R b

namespace Yields

variable {R V : Nat → Prop} {s s₁ s' : Store β}

theorem pure (R : Nat → Prop) (a : α) (s : Store β) : Yields R (pure a : DevProg β α) s a s :=
  ⟨rfl, fun _ none => absurd none List.not_mem_nil⟩

theorem bind {p : DevProg β α} {f : α → DevProg β γ} {a : α} {c : γ} (first : Yields R p s a s₁)
    (second : Yields R (f a) s₁ c s') : Yields R (p >>= f) s c s' := by
  constructor
  case run => rw [run_bind, first.run, second.run]
  case reads =>
    intro b member
    rw [reads_bind, first.run, List.mem_append] at member
    exact member.elim (first.reads b) (second.reads b)

theorem readBlk {id : Nat} (inside : id < s.count) (allowed : R id) :
    Yields R (readBlk id) s (some (s.blocks id)) s :=
  ⟨run_readBlk_of_lt inside, fun _ member => List.mem_singleton.mp member ▸ allowed⟩

/-- What is read after a run that is known. -/
theorem reads_after {p : DevProg β α} {f : α → DevProg β γ} {a : α} {b : Nat} (first : Yields R p s a s₁)
    (later : b ∈ (f a).reads s₁) : b ∈ (p >>= f).reads s := by
  rw [reads_bind, first.run]
  exact List.mem_append_right _ later

theorem mono {p : DevProg β α} {a : α} (wider : ∀ b, R b → V b) (yields : Yields R p s a s') : Yields V p s a s' :=
  ⟨yields.run, fun b member => wider b (yields.reads b member)⟩

end Yields

end DevProg

/-! ## Frames -/

/-- `s'` comes from `s` by write requests for blocks in `W` only. -/
structure Touches {β : Type} (W : Nat → Prop) (s s' : Store β) : Prop where
  count : s'.count = s.count
  blocks : ∀ b, ¬ W b → s'.blocks b = s.blocks b
  writes : ∃ ws, s'.writes = s.writes ++ ws ∧ ∀ w ∈ ws, W w.1

namespace Touches

variable {β : Type} {W V : Nat → Prop} {s t u : Store β}

theorem refl (W : Nat → Prop) (s : Store β) : Touches W s s :=
  ⟨rfl, fun _ _ => rfl, [], by simp, by simp⟩

theorem tick (W : Nat → Prop) (s : Store β) : Touches W s s.tick :=
  ⟨rfl, fun _ _ => rfl, [], by simp, by simp⟩

theorem synced (W : Nat → Prop) (s : Store β) : Touches W s s.synced :=
  ⟨rfl, fun _ _ => rfl, [], (List.append_nil _).symm, by simp⟩

theorem trans (first : Touches W s t) (second : Touches W t u) : Touches W s u := by
  obtain ⟨ws, logged, inside⟩ := first.writes
  obtain ⟨ws', logged', inside'⟩ := second.writes
  refine ⟨second.count.trans first.count, ?_, ws ++ ws', ?_, ?_⟩
  · intro b out
    rw [second.blocks b out, first.blocks b out]
  · rw [logged', logged, List.append_assoc]
  · intro w member
    rcases List.mem_append.mp member with member | member
    · exact inside w member
    · exact inside' w member

theorem mono (wider : ∀ b, W b → V b) (touches : Touches W s t) : Touches V s t := by
  obtain ⟨ws, logged, inside⟩ := touches.writes
  exact ⟨touches.count, fun b out => touches.blocks b fun h => out (wider b h),
    ws, logged, fun w member => wider _ (inside w member)⟩

/-- A run without writes: only the clock and the answers to syncs have moved on. -/
theorem quiet (touches : Touches (fun _ => False) s t) : t.blocks = s.blocks :=
  funext fun b => touches.blocks b id

theorem put (s : Store β) {id : Nat} (blk : β) (allowed : W id) : Touches W s (s.put id blk) := by
  refine ⟨rfl, fun b out => ?_, [(id, blk)], rfl, by simpa using allowed⟩
  exact s.put_blocks_ne blk fun same => out (same ▸ allowed)

/-- A program whose first part ends in a known state. -/
theorem bind {α γ : Type} {p : DevProg β α} {f : α → DevProg β γ} {a : α} (run : p.run s = (a, t))
    (first : Touches W s t) (rest : Touches W t ((f a).run t).2) : Touches W s ((p >>= f).run s).2 := by
  rw [DevProg.run_bind, run]
  exact first.trans rest

/-- A program of which the result of the first part does not matter. -/
theorem bind_any {α γ : Type} {p : DevProg β α} {f : α → DevProg β γ} (first : Touches W s (p.run s).2)
    (rest : ∀ a t, Touches W t ((f a).run t).2) : Touches W s ((p >>= f).run s).2 :=
  .bind rfl first (rest _ _)

end Touches

/-! ## Programs that do not write -/

namespace DevProg

variable {β α γ : Type}

/-- The program makes no write request, whatever the answers are. -/
def ReadOnly : DevProg β α → Prop
  | .done _ => True
  | .read _ next => ∀ r, (next r).ReadOnly
  | .write _ _ _ => False
  | .sync _ next => ∀ ok, (next ok).ReadOnly
  | .syncAll next => ∀ ok, (next ok).ReadOnly
  | .time next => ∀ t, (next t).ReadOnly

theorem ReadOnly.bind {p : DevProg β α} {f : α → DevProg β γ} (first : p.ReadOnly)
    (second : ∀ a, (f a).ReadOnly) : (p >>= f).ReadOnly := by
  induction p with
  | done a => exact second a
  | read id next ih => exact fun r => ih r (first r)
  | write id blk next ih => exact first.elim
  | sync id next ih => exact fun ok => ih ok (first ok)
  | syncAll next ih => exact fun ok => ih ok (first ok)
  | time next ih => exact fun t => ih t (first t)

theorem ReadOnly.touches {p : DevProg β α} (readOnly : p.ReadOnly) (s : Store β) :
    Touches (fun _ => False) s (p.run s).2 := by
  induction p generalizing s with
  | done a => exact .refl _ _
  | read id next ih => exact ih _ (readOnly _) s
  | write id blk next ih => exact readOnly.elim
  | sync id next ih => exact (Touches.synced _ s).trans (ih (s.syncs 0) (readOnly _) s.synced)
  | syncAll next ih => exact (Touches.synced _ s).trans (ih (s.syncs 0) (readOnly _) s.synced)
  | time next ih => exact (Touches.tick _ s).trans (ih _ (readOnly _) s.tick)

end DevProg

/-- The run from `s` to `s'` contains a write request for block `b`. -/
def Wrote {β : Type} (b : Nat) (s s' : Store β) : Prop :=
  ∃ ws, s'.writes = s.writes ++ ws ∧ b ∈ ws.map Prod.fst

namespace Wrote

variable {β : Type} {W : Nat → Prop} {b : Nat} {s t u : Store β}

theorem put (s : Store β) (b : Nat) (blk : β) : Wrote b s (s.put b blk) :=
  ⟨[(b, blk)], rfl, by simp⟩

theorem then_touches (wrote : Wrote b s t) (touches : Touches W t u) : Wrote b s u := by
  obtain ⟨ws, logged, member⟩ := wrote
  obtain ⟨ws', logged', -⟩ := touches.writes
  refine ⟨ws ++ ws', by rw [logged', logged, List.append_assoc], ?_⟩
  rw [List.map_append]
  exact List.mem_append_left _ member

theorem after_touches (touches : Touches W s t) (wrote : Wrote b t u) : Wrote b s u := by
  obtain ⟨ws, logged, -⟩ := touches.writes
  obtain ⟨ws', logged', member⟩ := wrote
  refine ⟨ws ++ ws', by rw [logged', logged, List.append_assoc], ?_⟩
  rw [List.map_append]
  exact List.mem_append_right _ member

/-- A block that was written is one of those that the run may touch. -/
theorem allowed (wrote : Wrote b s t) (touches : Touches W s t) : W b := by
  obtain ⟨ws, logged, member⟩ := wrote
  obtain ⟨ws', logged', inside⟩ := touches.writes
  obtain rfl : ws = ws' := List.append_cancel_left (logged.symm.trans logged')
  obtain ⟨w, listed, rfl⟩ := List.mem_map.mp member
  exact inside w listed

end Wrote

/-! ## Crash points -/

/-- The blocks after the write requests `ws`. -/
def Store.after {β : Type} (s : Store β) (ws : List (Nat × β)) : Nat → β :=
  ws.foldl (fun D w => if w.1 < s.count then Function.update D w.1 w.2 else D) s.blocks

namespace DevProg

variable {β α γ : Type} {P Q : (Nat → β) → Prop} {s : Store β}

/-- `P` holds of the blocks at every moment of the run on the flat device. -/
def Throughout (P : (Nat → β) → Prop) : DevProg β α → Store β → Prop
  | .done _, s => P s.blocks
  | .read id next, s => (next (Store.handler.read id s).1).Throughout P s
  | .write id blk next, s => P s.blocks ∧ (next (Store.handler.write id blk s).1).Throughout P (s.put id blk)
  | .sync _ next, s => (next (s.syncs 0)).Throughout P s.synced
  | .syncAll next, s => (next (s.syncs 0)).Throughout P s.synced
  | .time next, s => (next (s.clock 0)).Throughout P s.tick

@[simp] theorem throughout_pure {a : α} : (pure a : DevProg β α).Throughout P s ↔ P s.blocks := Iff.rfl

@[simp] theorem throughout_readBlk {id : Nat} : (readBlk id : DevProg β (Option β)).Throughout P s ↔ P s.blocks :=
  Iff.rfl

@[simp] theorem throughout_writeBlk {id : Nat} {blk : β} :
    (writeBlk id blk).Throughout P s ↔ P s.blocks ∧ P (s.put id blk).blocks := Iff.rfl

namespace Throughout

theorem start {p : DevProg β α} (throughout : p.Throughout P s) : P s.blocks := by
  induction p generalizing s with
  | done a => exact throughout
  | read id next ih => exact ih _ throughout
  | write id blk next ih => exact throughout.1
  | sync id next ih => exact ih (s.syncs 0) (s := s.synced) throughout
  | syncAll next ih => exact ih (s.syncs 0) (s := s.synced) throughout
  | time next ih => exact ih (s.clock 0) (s := s.tick) throughout

theorem finish {p : DevProg β α} (throughout : p.Throughout P s) : P (p.run s).2.blocks := by
  induction p generalizing s with
  | done a => exact throughout
  | read id next ih => exact ih _ throughout
  | write id blk next ih => exact ih _ throughout.2
  | sync id next ih => exact ih (s.syncs 0) (s := s.synced) throughout
  | syncAll next ih => exact ih (s.syncs 0) (s := s.synced) throughout
  | time next ih => exact ih (s.clock 0) (s := s.tick) throughout

end Throughout

theorem throughout_bind {p : DevProg β α} {f : α → DevProg β γ} :
    (p >>= f).Throughout P s ↔ p.Throughout P s ∧ (f (p.run s).1).Throughout P (p.run s).2 := by
  change (p.bind f).Throughout P s ↔ _
  induction p generalizing s with
  | done a => exact ⟨fun later => ⟨later.start, later⟩, fun both => both.2⟩
  | read id next ih => exact ih _
  | write id blk next ih => exact (and_congr_right fun _ => ih _).trans (and_assoc).symm
  | sync id next ih => exact ih _
  | syncAll next ih => exact ih _
  | time next ih => exact ih _

theorem throughout_map {p : DevProg β α} {f : α → γ} :
    (p >>= fun a => pure (f a)).Throughout P s ↔ p.Throughout P s := by
  rw [throughout_bind]
  exact and_iff_left_of_imp Throughout.finish

theorem ReadOnly.throughout {p : DevProg β α} (readOnly : p.ReadOnly) : p.Throughout P s ↔ P s.blocks := by
  induction p generalizing s with
  | done a => exact Iff.rfl
  | read id next ih => exact ih _ (readOnly _)
  | write id blk next ih => exact readOnly.elim
  | sync id next ih => exact ih _ (readOnly _)
  | syncAll next ih => exact ih _ (readOnly _)
  | time next ih => exact ih _ (readOnly _)

/-- A run only adds to the write requests. -/
theorem writes_run (p : DevProg β α) (s : Store β) : s.writes <+: (p.run s).2.writes := by
  let Inv : Store β → Prop := fun t => s.writes <+: t.writes
  have start : Inv s := List.prefix_rfl
  have write : ∀ id blk t, Inv t → Inv (Store.handler.write id blk t).2 :=
    fun _ _ _ before => before.trans (List.prefix_append _ _)
  exact interp_invariant (fun _ _ => id) write (fun _ _ => id) (fun _ => id) (fun _ => id) p s start

/-- The moments of a run are those between two of its write requests. -/
theorem throughout_iff {p : DevProg β α} :
    p.Throughout P s ↔ ∀ ws, s.writes ++ ws <+: (p.run s).2.writes → P (s.after ws) := by
  induction p generalizing s with
  | done a =>
    refine ⟨fun now ws some => ?_, fun all => all [] (by rw [List.append_nil]; exact List.prefix_rfl)⟩
    have none : ws = [] := by
      have length := some.length_le
      rw [List.length_append] at length
      exact List.eq_nil_of_length_eq_zero (by simp only [run_done] at length; omega)
    rw [none]
    exact now
  | read id next ih => exact ih _
  | write id blk next ih =>
    refine (and_congr_right fun _ => ih _).trans ⟨fun both ws some => ?_, fun all => ⟨?_, fun ws some => ?_⟩⟩
    · cases ws with
      | nil => exact both.1
      | cons w ws =>
        -- the first request of the run is the one at its head
        obtain ⟨rest, here⟩ := some
        obtain ⟨later, there⟩ := writes_run (next (Store.handler.write id blk s).1) (s.put id blk)
        have first : w = (id, blk) := by
          have both := here.trans there.symm
          simp only [Store.put, List.append_assoc, List.append_cancel_left_eq, List.cons_append,
            List.cons.injEq] at both
          exact both.1
        subst first
        refine both.2 ws ⟨rest, Eq.trans ?_ here⟩
        simp only [Store.put, List.append_assoc, List.cons_append, List.nil_append]
    · exact all [] (by rw [List.append_nil]; exact writes_run (.write id blk next) s)
    · refine all ((id, blk) :: ws) ?_
      simp only [Store.put, List.append_assoc, List.cons_append, List.nil_append] at some
      exact some
  | sync id next ih => exact ih (s.syncs 0) (s := s.synced)
  | syncAll next ih => exact ih (s.syncs 0) (s := s.synced)
  | time next ih => exact ih (s.clock 0) (s := s.tick)

end DevProg
