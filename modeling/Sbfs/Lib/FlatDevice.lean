import Sbfs.Lib.DevProg
import Sbfs.Lib.ReqProg

/-! # Devices that show an array of blocks

A device with caches, write-backs and counters of its own is as good as an array of blocks when its
answers are those that an array would give.  `Handler.Shows` says so request by request, for writes to the blocks
of a set `W`; a program that stays `Within` that set then has on the array the run that it has on the device.

The answers to sync requests are the exception: an array takes them from a stream that it has from the start.  So a
run on the device is `Foreseen` by the array: whatever the stream shall be at the end, there is one to begin with.

* `DevProg.Within` is checked by walking through the text of a program (`within_bind`).
* `Handler.Shows.foreseen` is the simulation for programs over the device, and `ReqProg.Runs.foreseen` for programs
  over a service whose requests are such programs.
-/

namespace DevProg

variable {β α γ : Type} {W V : Nat → Prop}

/-- Whatever the answers are, the program writes to blocks in `W` only, and its result satisfies `post`.  A block
that could be read is one of them. -/
def Within (W : Nat → Prop) : DevProg β α → (α → Prop) → Prop
  | .done a, post => post a
  | .read id next, post => ∀ r, (r ≠ none → W id) → (next r).Within W post
  | .write id _ next, post => W id ∧ ∀ ok, (next ok).Within W post
  | .sync _ next, post => ∀ ok, (next ok).Within W post
  | .syncAll next, post => ∀ ok, (next ok).Within W post
  | .time next, post => ∀ t, (next t).Within W post

@[simp] theorem within_pure {a : α} {post : α → Prop} : (pure a : DevProg β α).Within W post ↔ post a := Iff.rfl

@[simp] theorem within_bind {p : DevProg β α} {f : α → DevProg β γ} {post : γ → Prop} :
    (p >>= f).Within W post ↔ p.Within W fun a => (f a).Within W post := by
  change (p.bind f).Within W post ↔ _
  induction p with
  | done a => exact Iff.rfl
  | read id next ih => exact forall_congr' fun r => imp_congr_right fun _ => ih r
  | write id blk next ih => exact and_congr_right fun _ => forall_congr' ih
  | sync id next ih => exact forall_congr' ih
  | syncAll next ih => exact forall_congr' ih
  | time next ih => exact forall_congr' ih

@[simp] theorem within_readBlk {id : Nat} {post : Option β → Prop} :
    (readBlk id).Within W post ↔ ∀ r, (r ≠ none → W id) → post r := Iff.rfl

@[simp] theorem within_writeBlk {id : Nat} {blk : β} {post : Bool → Prop} :
    (writeBlk id blk).Within W post ↔ W id ∧ ∀ ok, post ok := Iff.rfl

theorem Within.mono {p : DevProg β α} {post post' : α → Prop} (within : p.Within W post)
    (weaker : ∀ a, post a → post' a) : p.Within W post' := by
  induction p with
  | done a => exact weaker a within
  | read id next ih => exact fun r known => ih r (within r known)
  | write id blk next ih => exact ⟨within.1, fun ok => ih ok (within.2 ok)⟩
  | sync id next ih => exact fun ok => ih ok (within ok)
  | syncAll next ih => exact fun ok => ih ok (within ok)
  | time next ih => exact fun t => ih t (within t)

theorem ReadOnly.within {p : DevProg β α} (readOnly : p.ReadOnly) : p.Within W fun _ => True := by
  induction p with
  | done a => exact trivial
  | read id next ih => exact fun r _ => ih r (readOnly r)
  | write id blk next ih => exact readOnly.elim
  | sync id next ih => exact fun ok => ih ok (readOnly ok)
  | syncAll next ih => exact fun ok => ih ok (readOnly ok)
  | time next ih => exact fun t => ih t (readOnly t)

/-- What a program does first, when nothing has to be known of its result. -/
theorem Within.bind {p : DevProg β α} {f : α → DevProg β γ} {post : γ → Prop} (first : p.Within W fun _ => True)
    (second : ∀ a, (f a).Within W post) : (p >>= f).Within W post :=
  within_bind.mpr (first.mono fun a _ => second a)

end DevProg

/-! ## Foreseen runs -/

section

variable {β σ : Type} {R : σ → Store β → Prop} {u u₁ u' : σ}

/-- What leads from `u` to `u'` is `D` on the arrays that the two show: whatever the answers to the sync requests
after it shall be, there are such to begin with. -/
def Foreseen (R : σ → Store β → Prop) (u : σ) (D : Store β → Store β → Prop) (u' : σ) : Prop :=
  ∀ later, ∃ now, ∀ s, R u s → s.syncs = now → ∃ s', D s s' ∧ R u' s' ∧ s'.syncs = later

/-- The answers to sync requests are not shown. -/
def HidesSyncs (R : σ → Store β → Prop) : Prop := ∀ u s syncs, R u s → R u { s with syncs }

namespace Foreseen

variable {D E : Store β → Store β → Prop}

theorem refl (R : σ → Store β → Prop) (u : σ) : Foreseen R u (fun s s' => s' = s) u :=
  fun later => ⟨later, fun s shown same => ⟨s, rfl, shown, same⟩⟩

theorem trans (first : Foreseen R u D u₁) (second : Foreseen R u₁ E u') :
    Foreseen R u (fun s s' => ∃ s₁, D s s₁ ∧ E s₁ s') u' := by
  intro later
  obtain ⟨between, second⟩ := second later
  obtain ⟨now, first⟩ := first between
  refine ⟨now, fun s shown same => ?_⟩
  obtain ⟨s₁, did, shown₁, same₁⟩ := first s shown same
  obtain ⟨s', did', shown', same'⟩ := second s₁ shown₁ same₁
  exact ⟨s', ⟨s₁, did, did'⟩, shown', same'⟩

theorem mono (foreseen : Foreseen R u D u') (weaker : ∀ s s', R u s → D s s' → E s s') : Foreseen R u E u' := by
  intro later
  obtain ⟨now, foreseen⟩ := foreseen later
  refine ⟨now, fun s shown same => ?_⟩
  obtain ⟨s', did, shown', same'⟩ := foreseen s shown same
  exact ⟨s', weaker s s' shown did, shown', same'⟩

theorem shown (foreseen : Foreseen R u D u') (hides : HidesSyncs R) (shown : ∃ s, R u s) : ∃ s', R u' s' := by
  obtain ⟨s, shown⟩ := shown
  obtain ⟨now, foreseen⟩ := foreseen fun _ => true
  obtain ⟨s', -, shown', -⟩ := foreseen { s with syncs := now } (hides u s now shown) rfl
  exact ⟨s', shown'⟩

end Foreseen

/-! ## Devices -/

/-- The device answers as the array that it shows, when it is asked to write to blocks in `W`. -/
structure Handler.Shows (h : Handler β σ) (W : Nat → Prop) (R : σ → Store β → Prop) : Prop where
  read : ∀ {id u s}, R u s → (h.read id u).1 = (Store.handler.read id s).1 ∧ R (h.read id u).2 s
  inside : ∀ {id u s}, R u s → id < s.count → W id
  write : ∀ {id blk u s}, R u s → W id →
    (h.write id blk u).1 = decide (id < s.count) ∧ R (h.write id blk u).2 (s.put id blk)
  sync : ∀ {id u s}, R u s → R (h.sync id u).2 s
  syncAll : ∀ {u s}, R u s → R (h.syncAll u).2 s
  time : ∀ {u s}, R u s → (h.time u).1 = s.clock 0 ∧ R (h.time u).2 s.tick
  hides : HidesSyncs R

/-- The answer that the device gives is put in front of the stream. -/
theorem Foreseen.answered {D : Store β → Store β → Prop} (hides : HidesSyncs R) (keeps : ∀ s, R u s → R u₁ s) (ok : Bool)
    (rest : Foreseen R u₁ D u') : Foreseen R u (fun s s' => s.syncs 0 = ok ∧ D s.synced s') u' := by
  intro later
  obtain ⟨now, rest⟩ := rest later
  refine ⟨fun n => n.casesOn ok now, fun s shown same => ?_⟩
  have next : s.synced.syncs = now := by
    funext n
    simp only [Store.synced, same]
  obtain ⟨s', did, shown', same'⟩ := rest s.synced (hides u₁ s _ (keeps s shown)) next
  exact ⟨s', ⟨congrFun same 0, did⟩, shown', same'⟩

/-- The simulation for a program over the device. -/
theorem Handler.Shows.foreseen {h : Handler β σ} {W : Nat → Prop} (shows : h.Shows W R) {α : Type} {p : DevProg β α}
    {post : α → Prop} (within : p.Within W post) (shown : ∃ s, R u s) :
    Foreseen R u (fun s s' => p.run s = ((p.interp h u).1, s')) (p.interp h u).2 := by
  induction p generalizing u with
  | done a => exact (Foreseen.refl R u).mono fun s s' _ same => by rw [same]; rfl
  | read id next ih =>
    obtain ⟨s₀, shown₀⟩ := shown
    obtain ⟨answer, shown₁⟩ : (h.read id u).1 = _ ∧ _ := shows.read shown₀
    -- a block that is read lies on the device, or the read fails on both sides
    have known : (h.read id u).1 ≠ none → W id := by
      rw [answer]
      intro some
      refine shows.inside shown₀ ?_
      by_contra outside
      exact some (if_neg outside)
    intro later
    obtain ⟨now, rest⟩ := ih _ (within _ known) ⟨s₀, shown₁⟩ later
    refine ⟨now, fun s shown same => ?_⟩
    obtain ⟨answer, shown⟩ : (h.read id u).1 = _ ∧ _ := shows.read shown
    obtain ⟨s', run, shown', same'⟩ := rest s shown same
    refine ⟨s', ?_, shown', same'⟩
    change (next (Store.handler.read id s).1).run s = _
    rw [← answer]
    exact run
  | write id blk next ih =>
    obtain ⟨inside, within⟩ := within
    obtain ⟨s₀, shown₀⟩ := shown
    intro later
    obtain ⟨now, rest⟩ := ih _ (within _) ⟨_, (shows.write shown₀ inside).2⟩ later
    refine ⟨now, fun s shown same => ?_⟩
    obtain ⟨answer, shown⟩ : (h.write id blk u).1 = _ ∧ _ := shows.write shown inside
    obtain ⟨s', run, shown', same'⟩ := rest (s.put id blk) shown same
    refine ⟨s', ?_, shown', same'⟩
    change (next (decide (id < s.count))).run (s.put id blk) = _
    rw [← answer]
    exact run
  -- the answer is the first of the stream of answers, and the rest of the stream serves what follows
  | sync id next ih =>
    obtain ⟨s₀, shown₀⟩ := shown
    have shown₁ : R (h.sync id u).2 s₀ := shows.sync shown₀
    have rest := ih (h.sync id u).1 (within _) ⟨s₀, shown₁⟩
    refine (rest.answered shows.hides (fun s shown => shows.sync shown) (h.sync id u).1).mono ?_
    rintro s s' - ⟨same, run⟩
    change (next (s.syncs 0)).run s.synced = _
    rw [same]
    exact run
  | syncAll next ih =>
    obtain ⟨s₀, shown₀⟩ := shown
    have rest := ih (h.syncAll u).1 (within _) ⟨s₀, shows.syncAll shown₀⟩
    refine (rest.answered shows.hides (fun s shown => shows.syncAll shown) (h.syncAll u).1).mono ?_
    rintro s s' - ⟨same, run⟩
    change (next (s.syncs 0)).run s.synced = _
    rw [same]
    exact run
  | time next ih =>
    obtain ⟨s₀, shown₀⟩ := shown
    intro later
    obtain ⟨now, rest⟩ := ih _ (within _) ⟨_, (shows.time shown₀).2⟩ later
    refine ⟨now, fun s shown same => ?_⟩
    obtain ⟨answer, shown⟩ := shows.time shown
    obtain ⟨s', run, shown', same'⟩ := rest s.tick shown same
    refine ⟨s', ?_, shown', same'⟩
    change (next (s.clock 0)).run s.tick = _
    rw [← answer]
    exact run

/-- The simulation for a program over a service. -/
theorem ReqProg.Runs.foreseen {Q : Type} {A : Q → Type} {α : Type} {C : Service Q A σ} {D : Service Q A (Store β)}
    (hides : HidesSyncs R)
    (step : ∀ q u r u', (∃ s, R u s) → C q u r u' → Foreseen R u (fun s s' => D q s r s') u')
    {p : ReqProg Q A α} {a : α} (runs : Runs C p u a u') (shown : ∃ s, R u s) :
    Foreseen R u (fun s s' => Runs D p s a s') u' := by
  induction runs with
  | done => exact (Foreseen.refl R _).mono fun s s' _ same => by rw [same]; exact .done
  | ask answer _ ih =>
    have first := step _ _ _ _ shown answer
    refine (first.trans (ih (first.shown hides shown))).mono ?_
    rintro s s' - ⟨s₁, answer', rest⟩
    exact .ask answer' rest

end
