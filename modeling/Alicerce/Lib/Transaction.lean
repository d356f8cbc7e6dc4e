import Alicerce.Lib.Program

/-!
# A connection to a shared database

One client of a database that other clients use at the same time.  What the client sees and what can
go wrong is its environment `Env`: the state the others have committed by the time of each of its
statements, and which of its statements fail.  Statements are told apart by labels, which is enough
as long as a program issues none twice.

Writing transactions are serialized by the database: from `begin` on, nobody else commits, so the
transaction works on the state it began with, and `commit` publishes it whole.  Outside a
transaction each statement sees what is committed at that moment.  A transaction that is neither
committed nor rolled back is discarded by `close`.

A statement whose failure also ends the transaction makes the later `rollback` a no-op; that is the
same as a rollback that succeeds, and is not told apart from it.

What a program of statements comes to is a function without effects, and there are three ways for it
to come to one, each closed under sequencing:

* `Reads`: it changes nothing, and its result is a function of what each statement sees;
* `Transacts`: inside a transaction, it takes the working state to another one;
* `Commits`: inside a transaction, it does that and then publishes.

`transaction` puts a body between connecting and closing, with handlers that raise (`Rethrows`).
When it returns, it has published what its body came to (`transaction_ok`), and when it raises,
nothing (`transaction_error`).
-/

set_option autoImplicit false

namespace Lib

/-- What one client of a database meets.  `κ` labels its statements. -/
structure Env (κ δ ε : Type) where
  /-- What is committed when a statement is issued. -/
  committed : κ → δ
  /-- How a statement fails, if it does. -/
  fault : κ → Option ε

/-- The state of one client's connection. -/
structure Session (δ : Type) where
  /-- The connection is open. -/
  connected : Bool
  /-- The working state of the open transaction. -/
  transaction : Option δ
  /-- What the connection has committed. -/
  published : Option δ

/-- Before connecting. -/
def Session.initial {δ : Type} : Session δ := ⟨false, none, none⟩

/-- A program that talks to a database. -/
abbrev Client (κ δ ε α : Type) : Type := Program (Env κ δ ε) (Session δ) ε α

variable {κ δ ε α β : Type}

/-- How a statement comes off. -/
def Env.issue (env : Env κ δ ε) (k : κ) : Except ε Unit :=
  match env.fault k with
  | none => .ok ()
  | some e => .error e

/-- What the statements of a session see. -/
def Env.view (env : Env κ δ ε) (s : Session δ) (k : κ) : δ := s.transaction.getD (env.committed k)

theorem Env.view_of_transaction {env : Env κ δ ε} {s : Session δ} {d : δ}
    (h : s.transaction = some d) : env.view s = fun _ ↦ d := by
  funext k
  rw [Env.view, h, Option.getD_some]

theorem Env.view_of_none {env : Env κ δ ε} {s : Session δ} (h : s.transaction = none) :
    env.view s = env.committed := by
  funext k
  rw [Env.view, h, Option.getD_none]

namespace Client

open Program

/-! ## Statements -/

/-- Issue a statement that only succeeds or fails. -/
def statement (k : κ) : Client κ δ ε Unit := fun env s ↦ (env.issue k, s)

/-- The connection is there to be used by handlers from now on. -/
def opened : Client κ δ ε Unit := fun _ s ↦ (.ok (), { s with connected := true })

/-- `BEGIN IMMEDIATE`. -/
def begin (k : κ) : Client κ δ ε Unit := fun env s ↦
  match env.issue k with
  | .ok () => (.ok (), { s with transaction := some (env.committed k) })
  | .error e => (.error e, s)

/-- A statement that reads. -/
def read (k : κ) (f : δ → α) : Client κ δ ε α := fun env s ↦
  ((env.issue k).map fun _ ↦ f (env.view s k), s)

/-- A statement that writes inside a transaction, and may violate a constraint. -/
def write (k : κ) (f : δ → Except ε (α × δ)) : Client κ δ ε α := fun env s ↦
  match (do env.issue k; f (env.view s k)) with
  | .ok (a, d) => (.ok a, { s with transaction := some d })
  | .error e => (.error e, s)

/-- `COMMIT`, when a transaction is open. -/
def commit (k : κ) : Client κ δ ε Unit := fun env s ↦
  match s.transaction with
  | none => (.ok (), s)
  | some d =>
    match env.issue k with
    | .ok () => (.ok (), { s with transaction := none, published := some d })
    | .error e => (.error e, s)

/-- `ROLLBACK`, when a transaction is open. -/
def rollback (k : κ) : Client κ δ ε Unit := fun env s ↦
  match s.transaction with
  | none => (.ok (), s)
  | some _ =>
    match env.issue k with
    | .ok () => (.ok (), { s with transaction := none })
    | .error e => (.error e, s)

/-- Run a clause only on an open connection: `if connection is not None`. -/
def whenConnected (p : Client κ δ ε Unit) : Client κ δ ε Unit := fun env s ↦
  if s.connected then p env s else (.ok (), s)

/-- Close the connection, which cannot fail. -/
def close : Client κ δ ε Unit := fun _ s ↦
  (.ok (), { s with connected := false, transaction := none })

/-! ## Programs that only read -/

variable {env : Env κ δ ε} {k : κ}

/-- A program changes nothing, and its result depends on what its statements see. -/
def Reads (env : Env κ δ ε) (p : Client κ δ ε α) (f : (κ → δ) → Except ε α) : Prop :=
  ∀ s, p env s = (f (env.view s), s)

theorem reads_pure (a : α) : Reads env (pure a) fun _ ↦ .ok a := fun _ ↦ rfl

theorem reads_lift (x : Except ε α) : Reads env (lift x) fun _ ↦ x := fun _ ↦ rfl

theorem reads_raise (e : ε) : Reads env (raise e : Client κ δ ε α) fun _ ↦ .error e := fun _ ↦ rfl

theorem reads_statement : Reads env (statement k) fun _ ↦ env.issue k := fun _ ↦ rfl

theorem reads_read (f : δ → α) :
    Reads env (read k f) fun view ↦ (env.issue k).map fun _ ↦ f (view k) := fun _ ↦ rfl

theorem Reads.bind {p : Client κ δ ε α} {f : (κ → δ) → Except ε α}
    {q : α → Client κ δ ε β} {g : α → (κ → δ) → Except ε β} (hp : Reads env p f)
    (hq : ∀ a, Reads env (q a) (g a)) :
    Reads env (p >>= q) fun view ↦ f view >>= fun a ↦ g a view := by
  intro s
  cases h : f (env.view s) with
  | ok a =>
    rw [run_bind_ok ((hp s).trans (by rw [h])), hq a s]
    simp only [h]
    rfl
  | error e =>
    rw [run_bind_error ((hp s).trans (by rw [h]))]
    simp only [h]
    rfl

/-- Handlers that only raise change what is raised. -/
theorem Reads.tryCatch {p : Client κ δ ε α} {f : (κ → δ) → Except ε α} (hp : Reads env p f)
    (h : ε → ε) : Reads env (tryCatch p fun e ↦ raise (h e)) fun view ↦ (f view).mapError h := by
  intro s
  cases hf : f (env.view s) with
  | ok a =>
    rw [run_tryCatch_ok ((hp s).trans (by rw [hf]))]
    simp only [hf]
    rfl
  | error e =>
    rw [run_tryCatch_error ((hp s).trans (by rw [hf]))]
    simp only [hf]
    rfl

/-! ## Programs inside a transaction -/

/-- Inside a transaction, a program takes the working state as `f` says; when it raises, the
transaction stays open. -/
structure Transacts (env : Env κ δ ε) (p : Client κ δ ε α) (f : δ → Except ε (α × δ)) : Prop where
  ok : ∀ {s d a d'}, s.transaction = some d → f d = .ok (a, d') →
    p env s = (.ok a, { s with transaction := some d' })
  error : ∀ {s d e}, s.transaction = some d → f d = .error e →
    ∃ d', p env s = (.error e, { s with transaction := some d' })

theorem Reads.transacts {p : Client κ δ ε α} {f : (κ → δ) → Except ε α} (hp : Reads env p f) :
    Transacts env p fun d ↦ (f fun _ ↦ d).map (·, d) where
  ok := by
    intro s d a d' hs hf
    rw [hp s, Env.view_of_transaction hs]
    cases h : f fun _ ↦ d with
    | ok b =>
      rw [h, Except.map, Except.ok.injEq, Prod.mk.injEq] at hf
      rw [hf.1, ← hf.2, ← hs]
    | error e => rw [h] at hf; exact absurd hf (by simp [Except.map])
  error := by
    intro s d e hs hf
    refine ⟨d, ?_⟩
    rw [hp s, Env.view_of_transaction hs]
    cases h : f fun _ ↦ d with
    | ok b => rw [h] at hf; exact absurd hf (by simp [Except.map])
    | error e' =>
      rw [h, Except.map, Except.error.injEq] at hf
      rw [hf, ← hs]

theorem transacts_write (f : δ → Except ε (α × δ)) :
    Transacts env (write k f) fun d ↦ do env.issue k; f d where
  ok := by
    intro s d a d' hs hf
    simp only [write, Env.view_of_transaction hs, hf]
  error := by
    intro s d e hs hf
    refine ⟨d, ?_⟩
    simp only [write, Env.view_of_transaction hs, hf, ← hs]

theorem Transacts.bind {p : Client κ δ ε α} {f : δ → Except ε (α × δ)}
    {q : α → Client κ δ ε β} {g : α → δ → Except ε (β × δ)} (hp : Transacts env p f)
    (hq : ∀ a, Transacts env (q a) (g a)) :
    Transacts env (p >>= q) fun d ↦ f d >>= fun r ↦ g r.1 r.2 where
  ok := by
    intro s d b d'' hs h
    cases hf : f d with
    | ok r =>
      rw [hf] at h
      exact (run_bind_ok (hp.ok hs hf)).trans ((hq r.1).ok rfl h)
    | error e => rw [hf] at h; exact absurd h (by simp [Bind.bind, Except.bind])
  error := by
    intro s d e hs h
    cases hf : f d with
    | ok r =>
      rw [hf] at h
      obtain ⟨d', hd'⟩ := (hq r.1).error (s := { s with transaction := some r.2 }) rfl h
      exact ⟨d', (run_bind_ok (hp.ok hs hf)).trans hd'⟩
    | error e' =>
      rw [hf] at h
      obtain ⟨d', hd'⟩ := hp.error hs hf
      exact ⟨d', (run_bind_error hd').trans (by rw [← Except.error.inj h])⟩

theorem transacts_ite {c : Prop} [Decidable c] {p q : Client κ δ ε α}
    {f g : δ → Except ε (α × δ)} (hp : Transacts env p f) (hq : Transacts env q g) :
    Transacts env (if c then p else q) fun d ↦ if c then f d else g d := by
  by_cases h : c
  · simpa only [if_pos h] using hp
  · simpa only [if_neg h] using hq

/-! ## Programs that commit -/

/-- Inside a transaction, a program takes the working state as `f` says and publishes it; when it
raises, nothing is published and the transaction stays open. -/
structure Commits (env : Env κ δ ε) (p : Client κ δ ε α) (f : δ → Except ε (α × δ)) : Prop where
  ok : ∀ {s d a d'}, s.transaction = some d → f d = .ok (a, d') →
    p env s = (.ok a, { s with transaction := none, published := some d' })
  error : ∀ {s d e}, s.transaction = some d → f d = .error e →
    ∃ d', p env s = (.error e, { s with transaction := some d' })

theorem commits_commit : Commits env (commit k) fun d ↦ (env.issue k).map (·, d) where
  ok := by
    intro s d a d' hs hf
    simp only [commit, hs]
    cases h : env.issue k with
    | ok u =>
      rw [h, Except.map, Except.ok.injEq, Prod.mk.injEq] at hf
      rw [← hf.2]
    | error e => rw [h] at hf; exact absurd hf (by simp [Except.map])
  error := by
    intro s d e hs hf
    refine ⟨d, ?_⟩
    simp only [commit, hs]
    cases h : env.issue k with
    | ok u => rw [h] at hf; exact absurd hf (by simp [Except.map])
    | error e' =>
      rw [h, Except.map, Except.error.injEq] at hf
      rw [hf, ← hs]

/-- What raises without having committed. -/
theorem commits_raise (e : ε) : Commits env (raise e : Client κ δ ε α) fun _ ↦ .error e where
  ok := fun _ h ↦ absurd h (by simp)
  error := by
    intro s d e' hs h
    refine ⟨d, ?_⟩
    rw [run_raise, Except.error.inj h, ← hs]

theorem Commits.congr {p : Client κ δ ε α} {f g : δ → Except ε (α × δ)} (hp : Commits env p f)
    (h : ∀ d, f d = g d) : Commits env p g := funext h ▸ hp

theorem commits_ite {c : Prop} [Decidable c] {p q : Client κ δ ε α}
    {f g : δ → Except ε (α × δ)} (hp : Commits env p f) (hq : Commits env q g) :
    Commits env (if c then p else q) fun d ↦ if c then f d else g d := by
  by_cases h : c
  · simpa only [if_pos h] using hp
  · simpa only [if_neg h] using hq

/-- A return behind the commit. -/
theorem Commits.map {p : Client κ δ ε α} {f : δ → Except ε (α × δ)} (hp : Commits env p f)
    (b : β) : Commits env (p >>= fun _ ↦ pure b) fun d ↦ (f d).map fun r ↦ (b, r.2) where
  ok := by
    intro s d a d' hs h
    cases hf : f d with
    | ok r =>
      rw [hf, Except.map, Except.ok.injEq, Prod.mk.injEq] at h
      rw [run_bind_ok (hp.ok hs hf), run_pure, h.1, h.2]
    | error e => rw [hf] at h; exact absurd h (by simp [Except.map])
  error := by
    intro s d e hs h
    cases hf : f d with
    | ok r => rw [hf] at h; exact absurd h (by simp [Except.map])
    | error e' =>
      rw [hf, Except.map, Except.error.injEq] at h
      obtain ⟨d', hd'⟩ := hp.error hs hf
      exact ⟨d', by rw [run_bind_error hd', h]⟩

theorem Transacts.commits {p : Client κ δ ε α} {f : δ → Except ε (α × δ)}
    {q : α → Client κ δ ε β} {g : α → δ → Except ε (β × δ)} (hp : Transacts env p f)
    (hq : ∀ a, Commits env (q a) (g a)) :
    Commits env (p >>= q) fun d ↦ f d >>= fun r ↦ g r.1 r.2 where
  ok := by
    intro s d b d'' hs h
    cases hf : f d with
    | ok r =>
      rw [hf] at h
      exact (run_bind_ok (hp.ok hs hf)).trans ((hq r.1).ok rfl h)
    | error e => rw [hf] at h; exact absurd h (by simp [Bind.bind, Except.bind])
  error := by
    intro s d e hs h
    cases hf : f d with
    | ok r =>
      rw [hf] at h
      obtain ⟨d', hd'⟩ := (hq r.1).error (s := { s with transaction := some r.2 }) rfl h
      exact ⟨d', (run_bind_ok (hp.ok hs hf)).trans hd'⟩
    | error e' =>
      rw [hf] at h
      obtain ⟨d', hd'⟩ := hp.error hs hf
      exact ⟨d', (run_bind_error hd').trans (by rw [← Except.error.inj h])⟩

/-! ## A transaction on a connection of its own -/

/-- Connect, begin and run a body.  What is raised goes through a handler, and the connection is
closed in the end. -/
def transaction (connects : Client κ δ ε Unit) (k : κ) (handler : ε → Client κ δ ε α)
    (body : Client κ δ ε α) : Client κ δ ε α :=
  tryFinally (tryCatch (do connects; opened; begin k; body) handler) (whenConnected close)

/-- A handler raises, and publishes nothing. -/
def Rethrows (env : Env κ δ ε) (handler : ε → Client κ δ ε α) : Prop :=
  ∀ e c t, ∃ e' c' t', handler e env ⟨c, t, none⟩ = (.error e', ⟨c', t', none⟩)

section Transaction

variable {connects : Client κ δ ε Unit} {handler : ε → Client κ δ ε α} {body : Client κ δ ε α}
  {x : Except ε Unit} {f : δ → Except ε (α × δ)}

/-- What a transaction comes to, before the handler. -/
def outcome (env : Env κ δ ε) (k : κ) (x : Except ε Unit) (f : δ → Except ε (α × δ)) :
    Except ε (α × δ) := do
  x
  env.issue k
  f (env.committed k)

theorem run_begin_ok {c : Bool} {t d : Option δ} (h : env.issue k = .ok ()) :
    begin k env ⟨c, t, d⟩ = (.ok (), ⟨c, some (env.committed k), d⟩) := by
  simp only [begin, h]

theorem run_begin_error {c : Bool} {t d : Option δ} {e : ε} (h : env.issue k = .error e) :
    begin k env ⟨c, t, d⟩ = (.error e, ⟨c, t, d⟩) := by
  simp only [begin, h]

theorem run_close (env : Env κ δ ε) (c : Bool) (t d : Option δ) : ∃ t',
    whenConnected (close : Client κ δ ε Unit) env ⟨c, t, d⟩ = (.ok (), ⟨false, t', d⟩) := by
  cases c
  · exact ⟨t, rfl⟩
  · exact ⟨none, rfl⟩

/-- **A transaction that returns has published what its body came to.** -/
theorem transaction_ok {a : α} {d : δ} (handler : ε → Client κ δ ε α)
    (hconnects : Reads env connects fun _ ↦ x) (hbody : Commits env body f)
    (h : outcome env k x f = .ok (a, d)) :
    ∃ s, transaction connects k handler body env .initial = (.ok a, s) ∧ s.published = some d := by
  cases hx : x with
  | error e => exact absurd (hx ▸ h) (by simp [outcome, Bind.bind, Except.bind])
  | ok u =>
    cases hk : env.issue k with
    | error e =>
      rw [outcome, hx, hk] at h
      exact absurd h (by simp [Bind.bind, Except.bind])
    | ok u' =>
      rw [outcome, hx, hk] at h
      have hconnected : connects env .initial = (.ok (), .initial) :=
        (hconnects _).trans (by rw [hx])
      obtain ⟨t, hclose⟩ := run_close env true none (some d)
      refine ⟨_, run_tryFinally (run_tryCatch_ok ?_) hclose, rfl⟩
      exact (run_bind_ok hconnected).trans ((run_bind_ok (p := opened) rfl).trans
        ((run_bind_ok (run_begin_ok hk)).trans (hbody.ok rfl h)))

/-- **A transaction that raises has published nothing**, and raises what its handler does. -/
theorem transaction_error {e : ε} (hconnects : Reads env connects fun _ ↦ x)
    (hbody : Commits env body f) (hhandler : Rethrows env handler)
    (h : outcome env k x f = .error e) :
    ∃ c t e' s s', handler e env ⟨c, t, none⟩ = (.error e', s') ∧
      transaction connects k handler body env .initial = (.error e', s) ∧ s.published = none := by
  have hraised : ∃ c t, (do connects; opened; begin k; body) env .initial =
      (.error e, ⟨c, t, none⟩) := by
    cases hx : x with
    | error e' =>
      rw [outcome, hx] at h
      obtain rfl : e' = e := Except.error.inj h
      exact ⟨false, none, run_bind_error ((hconnects _).trans (by rw [hx]; rfl))⟩
    | ok u =>
      have hconnected : connects env .initial = (.ok (), .initial) :=
        (hconnects _).trans (by rw [hx])
      have hopened := fun q : Client κ δ ε α ↦
        (run_bind_ok (f := fun _ ↦ do opened; q) hconnected).trans (run_bind_ok (p := opened) rfl)
      rw [hopened]
      cases hk : env.issue k with
      | error e' =>
        rw [outcome, hx, hk] at h
        obtain rfl : e' = e := Except.error.inj h
        exact ⟨true, none, run_bind_error (run_begin_error hk)⟩
      | ok u' =>
        rw [outcome, hx, hk] at h
        obtain ⟨d, hd⟩ := hbody.error (s := ⟨true, some (env.committed k), none⟩) rfl h
        exact ⟨true, some d, (run_bind_ok (run_begin_ok hk)).trans hd⟩
  obtain ⟨c, t, hrun⟩ := hraised
  obtain ⟨e', c', t', hh⟩ := hhandler e c t
  obtain ⟨t'', hclose⟩ := run_close env c' t' none
  exact ⟨c, t, e', _, _, hh, run_tryFinally ((run_tryCatch_error hrun).trans hh) hclose, rfl⟩

end Transaction

end Client

end Lib
