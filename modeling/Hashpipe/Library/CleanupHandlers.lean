import Mathlib.Tactic

/-!
# Threads with cleanup handlers

Code that makes calls, tests and loops, and that brackets code with a handler, as
`pthread_cleanup_push` and `pthread_cleanup_pop(0)` do.  A thread may be cancelled in the calls that
allow it, and may exit; both unwind it, that is, they run the handlers of the brackets it is in, the
innermost first and with cancellation held back.

`Triple` is partial correctness with two postconditions, one for code that has come to its end and
one for code that is being unwound.  The rules are those of Hoare logic; in the rule for brackets
the handler takes what unwinding has left to what the bracket promises (`Triple.bracket`).
`Stays` is the case in which both postconditions relate the state to the one at the start; for a
preorder it is closed under every way of putting code together, and it keeps what the relation keeps
(`Stays.keeps`).
-/

namespace CleanupHandlers

/-- A call: what it does to the state, by the answer it gets, and whether the thread may be
cancelled in it; it has then done nothing. -/
structure Call (S A : Type) where
  act : A → S → Option S
  cancellable : Bool

inductive Code (S A : Type)
  | skip
  | assign (f : S → S)
  | call (k : Call S A)
  | seq (p q : Code S A)
  | test (b : S → Bool) (p q : Code S A)
  | loop (b : S → Bool) (p : Code S A)
  | exit
  /-- The handler is chosen in the state in which the bracket is entered. -/
  | bracket (handler : S → Code S A) (p : Code S A)

inductive Outcome
  | done
  | unwinding
  deriving DecidableEq

variable {S A : Type}

/-- How code may run; `cancels` is false where cancellation is held back. -/
inductive Runs : Bool → Code S A → S → Outcome → S → Prop
  | skip {cancels : Bool} {s : S} : Runs cancels .skip s .done s
  | assign {cancels : Bool} {f : S → S} {s : S} : Runs cancels (.assign f) s .done (f s)
  | call {cancels : Bool} {k : Call S A} {a : A} {s s' : S} : k.act a s = some s' →
      Runs cancels (.call k) s .done s'
  | cancel {k : Call S A} {s : S} : k.cancellable = true → Runs true (.call k) s .unwinding s
  | seq {cancels : Bool} {p q : Code S A} {s s₁ s₂ : S} {o : Outcome} : Runs cancels p s .done s₁ →
      Runs cancels q s₁ o s₂ → Runs cancels (.seq p q) s o s₂
  | seqUnwinding {cancels : Bool} {p q : Code S A} {s s₁ : S} : Runs cancels p s .unwinding s₁ →
      Runs cancels (.seq p q) s .unwinding s₁
  | testTrue {cancels : Bool} {b : S → Bool} {p q : Code S A} {s s' : S} {o : Outcome} :
      b s = true → Runs cancels p s o s' → Runs cancels (.test b p q) s o s'
  | testFalse {cancels : Bool} {b : S → Bool} {p q : Code S A} {s s' : S} {o : Outcome} :
      b s = false → Runs cancels q s o s' → Runs cancels (.test b p q) s o s'
  | loopEnd {cancels : Bool} {b : S → Bool} {p : Code S A} {s : S} : b s = false →
      Runs cancels (.loop b p) s .done s
  | loopNext {cancels : Bool} {b : S → Bool} {p : Code S A} {s s₁ s₂ : S} {o : Outcome} :
      b s = true → Runs cancels p s .done s₁ → Runs cancels (.loop b p) s₁ o s₂ →
      Runs cancels (.loop b p) s o s₂
  | loopUnwinding {cancels : Bool} {b : S → Bool} {p : Code S A} {s s₁ : S} : b s = true →
      Runs cancels p s .unwinding s₁ → Runs cancels (.loop b p) s .unwinding s₁
  | exit {cancels : Bool} {s : S} : Runs cancels .exit s .unwinding s
  | pop {cancels : Bool} {handler : S → Code S A} {p : Code S A} {s s₁ : S} :
      Runs cancels p s .done s₁ → Runs cancels (.bracket handler p) s .done s₁
  | unwind {cancels : Bool} {handler : S → Code S A} {p : Code S A} {s s₁ s₂ : S} :
      Runs cancels p s .unwinding s₁ → Runs false (handler s) s₁ .done s₂ →
      Runs cancels (.bracket handler p) s .unwinding s₂

/-- The postcondition for an outcome. -/
def Outcome.post (Q U : S → Prop) : Outcome → S → Prop
  | .done => Q
  | .unwinding => U

/-- Code that runs to its end ends in `Q`, and code that is unwound leaves `U`. -/
def Triple (cancels : Bool) (P : S → Prop) (p : Code S A) (Q U : S → Prop) : Prop :=
  ∀ s o s', P s → Runs cancels p s o s' → o.post Q U s'

section Rules

variable {cancels : Bool} {P Q R U : S → Prop} {p q : Code S A}

theorem Triple.mono {P' Q' U' : S → Prop} (h : Triple cancels P' p Q' U') (hP : ∀ s, P s → P' s)
    (hQ : ∀ s, Q' s → Q s) (hU : ∀ s, U' s → U s) : Triple cancels P p Q U := by
  intro s o s' hs hruns
  have hpost := h s o s' (hP s hs) hruns
  cases o with
  | done => exact hQ s' hpost
  | unwinding => exact hU s' hpost

/-- A triple for each state there may be at the start. -/
theorem Triple.of_start (h : ∀ s₀, P s₀ → Triple cancels (· = s₀) p Q U) : Triple cancels P p Q U :=
  fun s o s' hs hruns => h s hs s o s' rfl hruns

theorem Triple.skip : Triple cancels Q (.skip : Code S A) Q U := by
  intro s o s' hs hruns
  cases hruns
  exact hs

theorem Triple.assign {f : S → S} (h : ∀ s, P s → Q (f s)) :
    Triple cancels P (.assign f : Code S A) Q U := by
  intro s o s' hs hruns
  cases hruns
  exact h s hs

theorem Triple.call {k : Call S A} (hact : ∀ a s s', P s → k.act a s = some s' → Q s')
    (hcancel : k.cancellable = true → ∀ s, P s → U s) : Triple cancels P (.call k) Q U := by
  intro s o s' hs hruns
  cases hruns with
  | call ha => exact hact _ s s' hs ha
  | cancel hk => exact hcancel hk s hs

theorem Triple.exit (h : ∀ s, P s → U s) : Triple cancels P (.exit : Code S A) Q U := by
  intro s o s' hs hruns
  cases hruns
  exact h s hs

theorem Triple.seq (hp : Triple cancels P p R U) (hq : Triple cancels R q Q U) :
    Triple cancels P (.seq p q) Q U := by
  intro s o s' hs hruns
  cases hruns with
  | seq hfirst hsecond => exact hq _ o s' (hp s .done _ hs hfirst) hsecond
  | seqUnwinding hfirst => exact hp s .unwinding s' hs hfirst

theorem Triple.test {b : S → Bool} (hp : Triple cancels (fun s => P s ∧ b s = true) p Q U)
    (hq : Triple cancels (fun s => P s ∧ b s = false) q Q U) :
    Triple cancels P (.test b p q) Q U := by
  intro s o s' hs hruns
  cases hruns with
  | testTrue hb h => exact hp s o s' ⟨hs, hb⟩ h
  | testFalse hb h => exact hq s o s' ⟨hs, hb⟩ h

/-- A test whose answer does not matter. -/
theorem Triple.branch {b : S → Bool} (hp : Triple cancels P p Q U) (hq : Triple cancels P q Q U) :
    Triple cancels P (.test b p q) Q U :=
  .test (hp.mono (fun _ hs => hs.1) (fun _ hs => hs) fun _ hs => hs)
    (hq.mono (fun _ hs => hs.1) (fun _ hs => hs) fun _ hs => hs)

/-- **Loops** keep their invariant. -/
theorem Triple.loop {b : S → Bool} (hp : Triple cancels (fun s => P s ∧ b s = true) p P U) :
    Triple cancels P (.loop b p) (fun s => P s ∧ b s = false) U := by
  intro s o s' hs hruns
  generalize hcode : Code.loop b p = code at hruns
  induction hruns with
  | loopEnd hb =>
    cases hcode
    exact ⟨hs, hb⟩
  | loopNext hb hbody _ _ ih =>
    cases hcode
    exact ih hp (hp _ .done _ ⟨hs, hb⟩ hbody) rfl
  | loopUnwinding hb hbody =>
    cases hcode
    exact hp _ .unwinding _ ⟨hs, hb⟩ hbody
  | skip | assign | call | cancel | seq | seqUnwinding | testTrue | testFalse | exit | pop | unwind =>
    cases hcode

/-- **Brackets**: what unwinding leaves, the handler takes to the postcondition. -/
theorem Triple.bracket {handler : S → Code S A} {s₀ : S}
    (hbody : Triple cancels (· = s₀) p Q R) (hhandler : Triple false R (handler s₀) U fun _ => True) :
    Triple cancels (· = s₀) (.bracket handler p) Q U := by
  rintro s o s' rfl hruns
  cases hruns with
  | pop h => exact hbody s .done s' rfl h
  | unwind h hafter => exact hhandler _ .done s' (hbody s .unwinding _ rfl h) hafter

end Rules

/-- On whatever way the code is left, the state is related to the one at the start. -/
def Stays (cancels : Bool) (r : S → S → Prop) (p : Code S A) : Prop :=
  ∀ s₀, Triple cancels (· = s₀) p (r s₀) (r s₀)

section Stays

variable {cancels : Bool} {r : S → S → Prop} {p q : Code S A}

theorem Stays.mono {r' : S → S → Prop} (h : Stays cancels r p) (hr : ∀ s s', r s s' → r' s s') :
    Stays cancels r' p :=
  fun s₀ => (h s₀).mono (fun _ hs => hs) (hr s₀) (hr s₀)

/-- **What the relation keeps**, the code keeps. -/
theorem Stays.keeps (h : Stays cancels r p) {P : S → Prop} (hP : ∀ s s', P s → r s s' → P s') :
    Triple cancels P p P P :=
  .of_start fun s₀ hs₀ => (h s₀).mono (fun _ hs => hs) (fun s hs => hP s₀ s hs₀ hs)
    fun s hs => hP s₀ s hs₀ hs

theorem Stays.assign {f : S → S} (h : ∀ s, r s (f s)) : Stays cancels r (.assign f : Code S A) := by
  intro s₀
  refine .assign fun s hs => ?_
  rw [hs]
  exact h s₀

theorem Stays.test {b : S → Bool} (hp : Stays cancels r p) (hq : Stays cancels r q) :
    Stays cancels r (.test b p q) :=
  fun s₀ => (hp s₀).branch (hq s₀)

variable [IsPreorder S r]

theorem Stays.from (h : Stays cancels r p) (s₀ : S) : Triple cancels (r s₀) p (r s₀) (r s₀) :=
  h.keeps fun _ _ => IsTrans.trans _ _ _

theorem Stays.skip : Stays cancels r (.skip : Code S A) := by
  intro s₀
  refine Triple.skip.mono (fun s hs => ?_) (fun _ hs => hs) fun _ hs => hs
  rw [hs]
  exact refl s₀

theorem Stays.call {k : Call S A} (h : ∀ a s s', k.act a s = some s' → r s s') :
    Stays cancels r (.call k) := by
  intro s₀
  refine .call (fun a s s' hs hact => ?_) fun _ s hs => ?_
  · rw [hs] at hact
    exact h a s₀ s' hact
  · rw [hs]
    exact refl s₀

theorem Stays.exit : Stays cancels r (.exit : Code S A) := by
  intro s₀
  refine .exit fun s hs => ?_
  rw [hs]
  exact refl s₀

theorem Stays.seq (hp : Stays cancels r p) (hq : Stays cancels r q) : Stays cancels r (.seq p q) :=
  fun s₀ => (hp s₀).seq (hq.from s₀)

theorem Stays.loop {b : S → Bool} (hp : Stays cancels r p) : Stays cancels r (.loop b p) := by
  intro s₀
  have hbody : Triple cancels (fun s => r s₀ s ∧ b s = true) p (r s₀) (r s₀) :=
    (hp.from s₀).mono (fun _ hs => hs.1) (fun _ hs => hs) fun _ hs => hs
  refine hbody.loop.mono (fun s hs => ?_) (fun _ hs => hs.1) fun _ hs => hs
  rw [hs]
  exact refl s₀

theorem Stays.bracket {handler : S → Code S A} (hp : Stays cancels r p)
    (hhandler : ∀ s, Stays false r (handler s)) : Stays cancels r (.bracket handler p) :=
  fun s₀ => .bracket (hp s₀) (((hhandler s₀).from s₀).mono (fun _ hs => hs) (fun _ hs => hs)
    fun _ _ => trivial)

end Stays

end CleanupHandlers
