import Mathlib.Tactic

/-!
# Step systems, their runs and their invariants

A system has initial states and a partial step function: an action carries every
choice the environment makes (who moves, how a call answers), so that a run is a
list of actions and can be replayed.  `Reachable` quantifies over all runs;
`ReachableUnder ok` only over those whose every step meets the condition `ok`.

An invariant is proved once per step and carried to all runs by
`Reachable.invariant` or `ReachableUnder.invariant`; `Simulation` moves invariants
of an abstract system down to a concrete one.
-/

namespace StepSystem

universe u v w x

/-- Initial states, and the state an enabled action leads to. -/
structure System (σ : Type u) (α : Type v) where
  init : σ → Prop
  next : σ → α → Option σ

variable {σ : Type u} {α : Type v}

/-- The states some run reaches. -/
inductive Reachable (S : System σ α) : σ → Prop
  | init {s : σ} : S.init s → Reachable S s
  | step {s t : σ} (a : α) : Reachable S s → S.next s a = some t → Reachable S t

/-- The states reached by runs whose every step is taken under `ok`. -/
inductive ReachableUnder (S : System σ α) (ok : σ → α → Prop) : σ → Prop
  | init {s : σ} : S.init s → ReachableUnder S ok s
  | step {s t : σ} (a : α) : ReachableUnder S ok s → ok s a → S.next s a = some t →
      ReachableUnder S ok t

/-- **Invariant rule.**  What holds initially and is kept by every step holds in
every reachable state. -/
theorem Reachable.invariant {S : System σ α} {I : σ → Prop} (hinit : ∀ s, S.init s → I s)
    (hstep : ∀ s a t, I s → S.next s a = some t → I t) {s : σ} (h : Reachable S s) : I s := by
  induction h with
  | init hs => exact hinit _ hs
  | step a _ hn ih => exact hstep _ a _ ih hn

/-- The invariant rule for the runs that respect a condition. -/
theorem ReachableUnder.invariant {S : System σ α} {ok : σ → α → Prop} {I : σ → Prop}
    (hinit : ∀ s, S.init s → I s)
    (hstep : ∀ s a t, I s → ok s a → S.next s a = some t → I t)
    {s : σ} (h : ReachableUnder S ok s) : I s := by
  induction h with
  | init hs => exact hinit _ hs
  | step a _ hok hn ih => exact hstep _ a _ ih hok hn

/-- A run under a condition is a run. -/
theorem ReachableUnder.reachable {S : System σ α} {ok : σ → α → Prop} {s : σ}
    (h : ReachableUnder S ok s) : Reachable S s := by
  induction h with
  | init hs => exact .init hs
  | step a _ _ hn ih => exact .step a ih hn

/-- A run is a run under no condition. -/
theorem Reachable.underTrue {S : System σ α} {s : σ} (h : Reachable S s) :
    ReachableUnder S (fun _ _ => True) s := by
  induction h with
  | init hs => exact .init hs
  | step a _ hn ih => exact .step a ih trivial hn

/-- A weaker condition allows every run that a stronger one does. -/
theorem ReachableUnder.mono {S : System σ α} {ok ok' : σ → α → Prop}
    (hok : ∀ s a, ok s a → ok' s a) {s : σ} (h : ReachableUnder S ok s) :
    ReachableUnder S ok' s := by
  induction h with
  | init hs => exact .init hs
  | step a _ hs hn ih => exact .step a ih (hok _ a hs) hn

/-- Replay a list of actions. -/
def run (S : System σ α) : σ → List α → Option σ
  | s, [] => some s
  | s, a :: as => (S.next s a).bind fun t => run S t as

theorem Reachable.run {S : System σ α} {as : List α} :
    ∀ {s t : σ}, Reachable S s → StepSystem.run S s as = some t → Reachable S t := by
  induction as with
  | nil =>
    intro s t hs h
    obtain rfl : s = t := by simpa [StepSystem.run] using h
    exact hs
  | cons a as ih =>
    intro s t hs h
    obtain ⟨m, hm, hrest⟩ := Option.bind_eq_some_iff.mp h
    exact ih (.step a hs hm) hrest

theorem run_append {S : System σ α} {as bs : List α} :
    ∀ {s : σ}, StepSystem.run S s (as ++ bs) =
      (StepSystem.run S s as).bind fun t => StepSystem.run S t bs := by
  induction as with
  | nil =>
    intro s
    rfl
  | cons a as ih =>
    intro s
    rw [List.cons_append, StepSystem.run, StepSystem.run, Option.bind_assoc]
    congr 1
    funext t
    exact ih

/-- The last step of a replay. -/
theorem run_concat {S : System σ α} {as : List α} {a : α} {s t : σ}
    (h : StepSystem.run S s (as ++ [a]) = some t) :
    ∃ u, StepSystem.run S s as = some u ∧ S.next u a = some t := by
  rw [run_append] at h
  obtain ⟨u, hu, hlast⟩ := Option.bind_eq_some_iff.mp h
  obtain ⟨v, hv, hnil⟩ := Option.bind_eq_some_iff.mp hlast
  cases hnil
  exact ⟨u, hu, hv⟩

/-- What every step keeps, a replay keeps. -/
theorem run_invariant {S : System σ α} {I : σ → Prop}
    (hstep : ∀ s a t, I s → S.next s a = some t → I t) {as : List α} :
    ∀ {s t : σ}, I s → StepSystem.run S s as = some t → I t := by
  induction as with
  | nil =>
    intro s t hs h
    obtain rfl : s = t := by simpa [StepSystem.run] using h
    exact hs
  | cons a as ih =>
    intro s t hs h
    obtain ⟨m, hm, hrest⟩ := Option.bind_eq_some_iff.mp h
    exact ih (hstep _ _ _ hs hm) hrest

/-- Where a replay ends, or its start if it gets stuck: reachable either way. -/
theorem Reachable.run_getD {S : System σ α} {s : σ} (hs : Reachable S s) (as : List α) :
    Reachable S ((StepSystem.run S s as).getD s) := by
  cases h : StepSystem.run S s as with
  | none => exact hs
  | some t => exact hs.run h

/-- Replay under a condition: the run stops where the condition fails. -/
def runUnder (S : System σ α) (ok : σ → α → Prop) [∀ s a, Decidable (ok s a)] :
    σ → List α → Option σ
  | s, [] => some s
  | s, a :: as => if ok s a then (S.next s a).bind fun t => runUnder S ok t as else none

theorem ReachableUnder.run {S : System σ α} {ok : σ → α → Prop} [∀ s a, Decidable (ok s a)]
    {as : List α} : ∀ {s t : σ}, ReachableUnder S ok s → runUnder S ok s as = some t →
      ReachableUnder S ok t := by
  induction as with
  | nil =>
    intro s t hs h
    obtain rfl : s = t := by simpa [runUnder] using h
    exact hs
  | cons a as ih =>
    intro s t hs h
    by_cases hok : ok s a
    · simp only [runUnder, if_pos hok] at h
      obtain ⟨m, hm, hrest⟩ := Option.bind_eq_some_iff.mp h
      exact ih (.step a hs hok hm) hrest
    · simp [runUnder, if_neg hok] at h

/-- A replay of actions that the condition allows in every state. -/
theorem ReachableUnder.run_of_forall {S : System σ α} {ok : σ → α → Prop} {as : List α} :
    ∀ {s t : σ}, ReachableUnder S ok s → (∀ a ∈ as, ∀ s, ok s a) →
      StepSystem.run S s as = some t → ReachableUnder S ok t := by
  induction as with
  | nil =>
    intro s t hs _ h
    obtain rfl : s = t := by simpa [StepSystem.run] using h
    exact hs
  | cons a as ih =>
    intro s t hs hok h
    obtain ⟨m, hm, hrest⟩ := Option.bind_eq_some_iff.mp h
    exact ih (.step a hs (hok a (List.mem_cons_self ..) s) hm)
      (fun b hb => hok b (List.mem_cons_of_mem _ hb)) hrest

theorem ReachableUnder.run_getD {S : System σ α} {ok : σ → α → Prop}
    [∀ s a, Decidable (ok s a)] {s : σ} (hs : ReachableUnder S ok s) (as : List α) :
    ReachableUnder S ok ((runUnder S ok s as).getD s) := by
  cases h : runUnder S ok s as with
  | none => exact hs
  | some t => exact hs.run h

/-- Replay a list of actions each of which leaves an entry in a log. -/
def runLogged {β : Type w} (step : σ → α → Option (σ × β)) : σ → List α → Option (σ × List β)
  | s, [] => some (s, [])
  | s, a :: as => (step s a).bind fun r => (runLogged step r.1 as).map fun q => (q.1, r.2 :: q.2)

/-- A location that a step sets only if its log entry says so holds what the last such entry
says. -/
theorem runLogged_last {β : Type w} {ι : Type x} {step : σ → α → Option (σ × β)} (read : σ → ι)
    (writes : β → Option ι)
    (hstep : ∀ s a t b, step s a = some (t, b) → read t = (writes b).getD (read s))
    {as : List α} : ∀ {s t : σ} {log : List β}, runLogged step s as = some (t, log) →
      read t = (log.reverse.findSome? writes).getD (read s) := by
  induction as with
  | nil =>
    intro s t log h
    cases h
    rfl
  | cons a as ih =>
    intro s t log h
    obtain ⟨⟨u, b⟩, hfirst, hrest⟩ := Option.bind_eq_some_iff.mp h
    obtain ⟨⟨t', bs⟩, hrun, heq⟩ := Option.map_eq_some_iff.mp hrest
    cases heq
    rw [ih hrun, hstep s a u b hfirst, List.reverse_cons, List.findSome?_append]
    cases List.findSome? writes bs.reverse with
    | none => simp
    | some v => rfl

/-- A relation between concrete and abstract states under which every concrete step
is an abstract step or leaves the related abstract state alone. -/
structure Simulation {τ : Type w} {β : Type x} (C : System σ α) (A : System τ β)
    (ok : σ → α → Prop) (R : σ → τ → Prop) : Prop where
  init : ∀ s, C.init s → ∃ r, A.init r ∧ R s r
  step : ∀ s r a t, R s r → ok s a → C.next s a = some t →
    R t r ∨ ∃ b r', A.next r b = some r' ∧ R t r'

/-- Every concrete state reached under the condition is related to a reachable
abstract state. -/
theorem Simulation.reachable {τ : Type w} {β : Type x} {C : System σ α} {A : System τ β}
    {ok : σ → α → Prop} {R : σ → τ → Prop} (hsim : Simulation C A ok R) {s : σ}
    (h : ReachableUnder C ok s) : ∃ r, Reachable A r ∧ R s r := by
  induction h with
  | init hs =>
    obtain ⟨r, hr, hR⟩ := hsim.init _ hs
    exact ⟨r, .init hr, hR⟩
  | step a _ hok hn ih =>
    obtain ⟨r, hr, hR⟩ := ih
    rcases hsim.step _ r a _ hR hok hn with hstay | ⟨b, r', hb, hR'⟩
    · exact ⟨r, hr, hstay⟩
    · exact ⟨r', .step b hr hb, hR'⟩

end StepSystem
