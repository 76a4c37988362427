/-! # Programs over a service

A `ReqProg Q A α` computes an `α` by requests of a service: request `q : Q` is answered
by an `A q`.  A service is a `Service`, a relation that says which answers to a request
it may give in a state and which state may come next; a request that has no answer
leaves the program without a run.

* `Runs` are the runs of a program on a service.
* `Ensures` is the weakest precondition over all of them (`ensures_iff_runs`); it
  follows the shape of the program (`ensures_bind`), so that a program is verified by
  walking through its text.
* `Meets` is `Ensures` together with a condition on every request that is made; a program
  that meets it runs on another service as it runs on this one (`Meets.simulate`).
* `Avoids` says that some requests are never made, whatever the answers are.
* `lift` takes a program to a service with more requests.
-/

/-- A program that requests an answer of type `A q` for each request `q`. -/
inductive ReqProg (Q : Type) (A : Q → Type) (α : Type) : Type where
  | done (a : α)
  | ask (q : Q) (next : A q → ReqProg Q A α)

/-- The answers that a service with states `τ` may give, and the state after each. -/
abbrev Service (Q : Type) (A : Q → Type) (τ : Type) := (q : Q) → τ → A q → τ → Prop

namespace ReqProg

variable {Q : Type} {A : Q → Type} {α β τ υ : Type}

/-- Sequencing: run `p`, then continue with its result. -/
def bind : ReqProg Q A α → (α → ReqProg Q A β) → ReqProg Q A β
  | .done a, f => f a
  | .ask q next, f => .ask q fun r => (next r).bind f

instance : Monad (ReqProg Q A) where
  pure := .done
  bind := .bind

theorem bind_done (p : ReqProg Q A α) : p.bind .done = p := by
  induction p with
  | done => rfl
  | ask q next ih => exact congrArg (ask q) (funext ih)

theorem bind_bind {γ : Type} (p : ReqProg Q A α) (f : α → ReqProg Q A β) (g : β → ReqProg Q A γ) :
    (p.bind f).bind g = p.bind fun a => (f a).bind g := by
  induction p with
  | done => rfl
  | ask q next ih => exact congrArg (ask q) (funext ih)

instance : LawfulMonad (ReqProg Q A) := .mk' (ReqProg Q A) bind_done (fun _ _ => rfl) bind_bind

/-- Make a request and return the answer. -/
def call (q : Q) : ReqProg Q A (A q) := .ask q .done

/-! ## Runs -/

/-- From state `t` the program may return `a` and leave the service in state `u`. -/
inductive Runs (S : Service Q A τ) : ReqProg Q A α → τ → α → τ → Prop where
  | done {a : α} {t : τ} : Runs S (.done a) t a t
  | ask {q : Q} {next : A q → ReqProg Q A α} {t u v : τ} {r : A q} {a : α} :
      S q t r u → Runs S (next r) u a v → Runs S (.ask q next) t a v

variable {S : Service Q A τ} {t u v : τ}

theorem Runs.bind {p : ReqProg Q A α} {f : α → ReqProg Q A β} {a : α} {b : β}
    (first : Runs S p t a u) (second : Runs S (f a) u b v) : Runs S (p >>= f) t b v := by
  induction first with
  | done => exact second
  | ask answer _ ih => exact .ask answer (ih second)

theorem runs_pure {a b : α} : Runs S (pure a) t b u ↔ b = a ∧ u = t := by
  constructor
  · intro runs
    cases runs with
    | done => exact ⟨rfl, rfl⟩
  · rintro ⟨rfl, rfl⟩
    exact .done

theorem runs_bind {p : ReqProg Q A α} {f : α → ReqProg Q A β} {b : β} :
    Runs S (p >>= f) t b v ↔ ∃ a u, Runs S p t a u ∧ Runs S (f a) u b v := by
  constructor
  · intro runs
    induction p generalizing t with
    | done a => exact ⟨a, t, .done, runs⟩
    | ask q next ih =>
      cases runs with
      | ask answer rest =>
        obtain ⟨a, u, first, second⟩ := ih _ rest
        exact ⟨a, u, .ask answer first, second⟩
  · rintro ⟨a, u, first, second⟩
    exact first.bind second

theorem runs_call {q : Q} {r : A q} : Runs S (call q) t r u ↔ S q t r u := by
  constructor
  · intro runs
    cases runs with
    | ask answer rest =>
      cases rest with
      | done => exact answer
  · exact fun answer => .ask answer .done

/-- A service that answers in one way has one run of each program. -/
theorem Runs.unique (functional : ∀ q t r r' u u', S q t r u → S q t r' u' → r = r' ∧ u = u')
    {p : ReqProg Q A α} {a b : α} (first : Runs S p t a u) (second : Runs S p t b v) : a = b ∧ u = v := by
  induction first with
  | done =>
    cases second with
    | done => exact ⟨rfl, rfl⟩
  | ask answer _ ih =>
    cases second with
    | ask answer' rest =>
      obtain ⟨rfl, rfl⟩ := functional _ _ _ _ _ _ answer answer'
      exact ih rest

/-! ## Weakest preconditions -/

/-- Every run of the program from `t` ends in a result and a state that satisfy `post`. -/
def Ensures (S : Service Q A τ) : ReqProg Q A α → (α → τ → Prop) → τ → Prop
  | .done a, post, t => post a t
  | .ask q next, post, t => ∀ r u, S q t r u → (next r).Ensures S post u

@[simp] theorem ensures_pure {a : α} {post : α → τ → Prop} :
    (pure a : ReqProg Q A α).Ensures S post t ↔ post a t := Iff.rfl

@[simp] theorem ensures_bind {p : ReqProg Q A α} {f : α → ReqProg Q A β} {post : β → τ → Prop} :
    (p >>= f).Ensures S post t ↔ p.Ensures S (fun a u => (f a).Ensures S post u) t := by
  induction p generalizing t with
  | done a => exact Iff.rfl
  | ask q next ih => exact forall_congr' fun r => forall_congr' fun u => imp_congr_right fun _ => ih r

@[simp] theorem ensures_call {q : Q} {post : A q → τ → Prop} :
    (call q : ReqProg Q A (A q)).Ensures S post t ↔ ∀ r u, S q t r u → post r u := Iff.rfl

theorem Ensures.mono {p : ReqProg Q A α} {post post' : α → τ → Prop}
    (ensures : p.Ensures S post t) (weaker : ∀ a u, post a u → post' a u) :
    p.Ensures S post' t := by
  induction p generalizing t with
  | done a => exact weaker a t ensures
  | ask q next ih => exact fun r u answer => ih r (ensures r u answer)

theorem ensures_iff_runs {p : ReqProg Q A α} {post : α → τ → Prop} :
    p.Ensures S post t ↔ ∀ a u, Runs S p t a u → post a u := by
  constructor
  · intro ensures a u runs
    induction runs with
    | done => exact ensures
    | ask answer _ ih => exact ih (ensures _ _ answer)
  · intro all
    induction p generalizing t with
    | done a => exact all a t .done
    | ask q next ih => exact fun r u answer => ih r fun a v runs => all a v (.ask answer runs)

/-! ## Requests with preconditions -/

/-- Every run of the program from `t` makes only requests that `pre` allows, and ends in a
result and a state that satisfy `post`. -/
def Meets (S : Service Q A τ) (pre : Q → τ → Prop) : ReqProg Q A α → (α → τ → Prop) → τ → Prop
  | .done a, post, t => post a t
  | .ask q next, post, t => pre q t ∧ ∀ r u, S q t r u → (next r).Meets S pre post u

section

variable {pre : Q → τ → Prop}

@[simp] theorem meets_pure {a : α} {post : α → τ → Prop} :
    (pure a : ReqProg Q A α).Meets S pre post t ↔ post a t := Iff.rfl

@[simp] theorem meets_bind {p : ReqProg Q A α} {f : α → ReqProg Q A β} {post : β → τ → Prop} :
    (p >>= f).Meets S pre post t ↔ p.Meets S pre (fun a u => (f a).Meets S pre post u) t := by
  induction p generalizing t with
  | done a => exact Iff.rfl
  | ask q next ih =>
    exact and_congr_right' (forall_congr' fun r => forall_congr' fun u => imp_congr_right fun _ => ih r)

@[simp] theorem meets_call {q : Q} {post : A q → τ → Prop} :
    (call q : ReqProg Q A (A q)).Meets S pre post t ↔ pre q t ∧ ∀ r u, S q t r u → post r u := Iff.rfl

theorem Meets.mono {p : ReqProg Q A α} {post post' : α → τ → Prop} (meets : p.Meets S pre post t)
    (weaker : ∀ a u, post a u → post' a u) : p.Meets S pre post' t := by
  induction p generalizing t with
  | done a => exact weaker a t meets
  | ask q next ih => exact ⟨meets.1, fun r u answer => ih r (meets.2 r u answer)⟩

/-- What a service with simpler states ensures, one whose answers look the same does. -/
theorem Meets.and_ensures {S' : Service Q A υ} {f : τ → υ} {p : ReqProg Q A α} {post : α → τ → Prop}
    {post' : α → υ → Prop} (meets : p.Meets S pre post t)
    (answers : ∀ q t r u, pre q t → S q t r u → S' q (f t) r (f u)) (ensures : p.Ensures S' post' (f t)) :
    p.Meets S pre (fun a u => post a u ∧ post' a (f u)) t := by
  induction p generalizing t with
  | done a => exact ⟨meets, ensures⟩
  | ask q next ih =>
    exact ⟨meets.1, fun r u answer => ih r (meets.2 r u answer) (ensures r (f u) (answers q t r u meets.1 answer))⟩

/-- A condition that holds wherever a request is allowed, and after its answer, holds at the end. -/
theorem Meets.and_invariant {I : τ → Prop} (keeps : ∀ q t r u, pre q t → S q t r u → I u) {p : ReqProg Q A α}
    {post : α → τ → Prop} (meets : p.Meets S pre post t) (start : I t) :
    p.Meets S pre (fun a u => post a u ∧ I u) t := by
  induction p generalizing t with
  | done a => exact ⟨meets, start⟩
  | ask q next ih =>
    exact ⟨meets.1, fun r u answer => ih r (meets.2 r u answer) (keeps q t r u meets.1 answer)⟩

/-- Simulation: `C` answers an allowed request as `S` does, up to `R`. -/
theorem Meets.simulate {C : Service Q A υ} {R : υ → τ → Prop} {p : ReqProg Q A α} {post : α → τ → Prop}
    {s s' : υ} {a : α} (meets : p.Meets S pre post t)
    (step : ∀ q s t r s', R s t → pre q t → C q s r s' → ∃ t', S q t r t' ∧ R s' t') (related : R s t)
    (runs : Runs C p s a s') : ∃ t', Runs S p t a t' ∧ R s' t' ∧ post a t' := by
  induction runs generalizing t with
  | done => exact ⟨t, .done, related, meets⟩
  | ask answer _ ih =>
    obtain ⟨u, answer', related'⟩ := step _ _ _ _ _ related meets.1 answer
    obtain ⟨t', runs', related'', ends⟩ := ih (meets.2 _ _ answer') related'
    exact ⟨t', .ask answer' runs', related'', ends⟩

end

/-! ## Requests that are never made -/

/-- Whatever the answers are, no request is in `bad`. -/
def Avoids (bad : Q → Prop) : ReqProg Q A α → Prop
  | .done _ => True
  | .ask q next => ¬ bad q ∧ ∀ r, (next r).Avoids bad

theorem Avoids.bind {bad : Q → Prop} {p : ReqProg Q A α} {f : α → ReqProg Q A β}
    (first : p.Avoids bad) (second : ∀ a, (f a).Avoids bad) : (p >>= f).Avoids bad := by
  induction p with
  | done a => exact second a
  | ask q next ih => exact ⟨first.1, fun r => ih r (first.2 r)⟩

theorem Avoids.mono {bad bad' : Q → Prop} (fewer : ∀ q, bad' q → bad q) {p : ReqProg Q A α} (avoids : p.Avoids bad) :
    p.Avoids bad' := by
  induction p with
  | done a => exact trivial
  | ask q next ih => exact ⟨fun worse => avoids.1 (fewer q worse), fun r => ih r (avoids.2 r)⟩

/-- If no request is bad, all programs avoid them. -/
theorem Avoids.all (p : ReqProg Q A α) : p.Avoids fun _ => False := by
  induction p with
  | done a => exact trivial
  | ask q next ih => exact ⟨id, ih⟩

/-- A program that avoids some requests need not be allowed them. -/
theorem Meets.and_avoids {bad : Q → Prop} {pre : Q → τ → Prop} {p : ReqProg Q A α} {post : α → τ → Prop}
    (meets : p.Meets S pre post t) (avoids : p.Avoids bad) : p.Meets S (fun q t => pre q t ∧ ¬ bad q) post t := by
  induction p generalizing t with
  | done a => exact meets
  | ask q next ih => exact ⟨⟨meets.1, avoids.1⟩, fun r u answer => ih r (meets.2 r u answer) (avoids.2 r)⟩

/-- What every request but the bad ones does, a run without bad ones does. -/
theorem Avoids.related {bad : Q → Prop} {R : τ → τ → Prop} (refl : ∀ t, R t t)
    (trans : ∀ t u v, R t u → R u v → R t v) (step : ∀ q t r u, ¬ bad q → S q t r u → R t u)
    {p : ReqProg Q A α} {a : α} (avoids : p.Avoids bad) (runs : Runs S p t a u) : R t u := by
  induction runs with
  | done => exact refl _
  | ask answer _ ih => exact trans _ _ _ (step _ _ _ _ avoids.1 answer) (ih (avoids.2 _))

/-- A run without bad requests is one on each service that answers the others as well. -/
theorem Avoids.runs {bad : Q → Prop} {S' : Service Q A τ} (answers : ∀ q t r u, ¬ bad q → S q t r u → S' q t r u)
    {p : ReqProg Q A α} {a : α} (avoids : p.Avoids bad) (runs : Runs S p t a u) : Runs S' p t a u := by
  induction runs with
  | done => exact .done
  | ask answer _ ih => exact .ask (answers _ _ _ _ avoids.1 answer) (ih (avoids.2 _))

/-! ## Larger services -/

variable {Q' : Type} {A' : Q' → Type}

/-- A program over some of the requests of a larger service. -/
def lift (f : Q → Q') {α : Type} : ReqProg Q (fun q => A' (f q)) α → ReqProg Q' A' α
  | .done a => .done a
  | .ask q next => .ask (f q) fun r => lift f (next r)

theorem runs_lift {f : Q → Q'} {S : Service Q' A' τ} {p : ReqProg Q (fun q => A' (f q)) α} {a : α} :
    Runs S (p.lift f) t a u ↔ Runs (fun q => S (f q)) p t a u := by
  constructor
  · intro runs
    induction p generalizing t with
    | done a =>
      cases runs with
      | done => exact .done
    | ask q next ih =>
      cases runs with
      | ask answer rest => exact .ask answer (ih _ rest)
  · intro runs
    induction runs with
    | done => exact .done
    | ask answer _ ih => exact .ask answer ih

end ReqProg
