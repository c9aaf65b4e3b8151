import Mathlib.Tactic
import Hashpipe.Library.StepSystem

/-!
# Procedures under a lock

Threads work on a store with procedures made of atomic accesses.  A thread starts a procedure
inside the lock and stays there until it has returned; what the accesses are and how many of
them a procedure makes is left open.

`Shared.serial` is the rule: the procedures that have returned did, and gave back, what they
would have in the order of their returns with no other thread around, and while none is under way
the store is what they left.
-/

namespace CriticalSection

open StepSystem

variable {T Λ A Op σ ρ : Type}

/-- What a thread does to the store, one atomic access after the other. -/
inductive Procedure (σ ρ : Type)
  | done (result : ρ)
  | access (write : σ → σ) (next : σ → Procedure σ ρ)

/-- The store and the result if nobody else touches the store. -/
def Procedure.run : Procedure σ ρ → σ → σ × ρ
  | .done result, s => (s, result)
  | .access write next, s => (next s).run (write s)

/-- The accesses of a call do what the whole call does, where that is defined, if nobody comes
between them. -/
def Implements {ε : Type} (effect : σ → Op → Except ε (σ × ρ)) (body : Op → Procedure σ ρ) : Prop :=
  ∀ s op r, effect s op = .ok r → (body op).run s = r

section Effect

variable {ε : Type} [Inhabited ρ] (effect : σ → Op → Except ε (σ × ρ))

/-- The store after the whole call and its result; a call that fails leaves the store. -/
@[irreducible] def outcome (s : σ) (op : Op) : σ × ρ :=
  (effect s op).toOption.getD (s, default)

variable {effect} in
theorem outcome_ok {s : σ} {op : Op} {r : σ × ρ} (h : effect s op = .ok r) :
    outcome effect s op = r := by
  rw [outcome, h]
  rfl

/-- A call that reads the store in one access and writes it in another. -/
def readThenWrite (op : Op) : Procedure σ ρ :=
  .access id fun s =>
    .access (fun _ => (outcome effect s op).1) fun _ => .done (outcome effect s op).2

theorem readThenWrite_run (op : Op) (s : σ) :
    (readThenWrite effect op).run s = outcome effect s op := rfl

theorem readThenWrite_implements : Implements effect (readThenWrite effect) := by
  intro s op r hr
  rw [readThenWrite_run, outcome_ok hr]

end Effect

/-- A lock: at most one thread is inside, and it goes in and out by its own steps. -/
structure Guard (T Λ A : Type) where
  lock : System Λ (T × A)
  inside : Λ → T → Bool
  ok : Λ → T × A → Prop
  exclusive : ∀ l, ReachableUnder lock ok l → ∀ t u, inside l t = true → inside l u = true → t = u
  frame : ∀ l t u a l', t ≠ u → lock.next l (u, a) = some l' → inside l' t = inside l t

/-- The lock, the store, the procedure that each thread is in, and those that have returned. -/
structure Shared (T Λ Op σ ρ : Type) where
  lock : Λ
  store : σ
  current : T → Option (Op × Procedure σ ρ)
  log : List (T × Op × ρ)

inductive Move (T A Op : Type)
  /-- A step of the lock's protocol. -/
  | lock (t : T) (a : A)
  | start (t : T) (op : Op)
  /-- The next access of the thread's procedure, or its return. -/
  | access (t : T)

section Serial

variable (G : Guard T Λ A) (body : Op → Procedure σ ρ) (s₀ : σ) (pre : σ → Op → Prop)

/-- The procedures one after the other lead from one store to another, with these results. -/
def Serial : σ → List (T × Op × ρ) → σ → Prop
  | s, [], s' => s' = s
  | s, (_, op, result) :: log, s' =>
    pre s op ∧ ((body op).run s).2 = result ∧ Serial ((body op).run s).1 log s'

variable {body pre} {s₀}

theorem serial_append {log log' : List (T × Op × ρ)} {s s' s'' : σ}
    (h : Serial body pre s log s') (h' : Serial body pre s' log' s'') :
    Serial body pre s (log ++ log') s'' := by
  induction log generalizing s with
  | nil =>
    obtain rfl : s' = s := h
    exact h'
  | cons entry log ih =>
    obtain ⟨hpre, hresult, hrest⟩ := h
    exact ⟨hpre, hresult, ih hrest⟩

/-- The store that the procedures which have returned left, and what becomes of it by the one that
is under way. -/
structure SharedInv (body : Op → Procedure σ ρ) (s₀ : σ) (pre : σ → Op → Prop)
    (s : Shared T Λ Op σ ρ) (base : σ) : Prop where
  lock : ReachableUnder G.lock G.ok s.lock
  inside : ∀ t, s.current t ≠ none → G.inside s.lock t = true
  serial : Serial body pre s₀ s.log base
  current : ∀ t op p, s.current t = some (op, p) →
    pre base op ∧ p.run s.store = (body op).run base
  idle : (∀ t, s.current t = none) → s.store = base

variable {G} {s s' : Shared T Λ Op σ ρ} {base : σ}

/-- One thread at most is in a procedure. -/
theorem SharedInv.alone (h : SharedInv G body s₀ pre s base) {t u : T}
    (ht : G.inside s.lock t = true) (hu : u ≠ t) : s.current u = none := by
  by_contra hbusy
  exact hu (G.exclusive s.lock h.lock u t (h.inside u hbusy) ht)

/-- A thread inside the lock and in no procedure finds the store of the log. -/
theorem SharedInv.store_eq (h : SharedInv G body s₀ pre s base) {t : T}
    (hinside : G.inside s.lock t = true) (hidle : s.current t = none) : s.store = base := by
  refine h.idle fun u => ?_
  by_cases hu : u = t
  · rw [hu, hidle]
  · exact h.alone hinside hu

theorem SharedInv.lock_step (h : SharedInv G body s₀ pre s base) {t : T} {a : A} {l : Λ}
    (hidle : s.current t = none) (hok : G.ok s.lock (t, a))
    (hnext : G.lock.next s.lock (t, a) = some l) :
    SharedInv G body s₀ pre { s with lock := l } base where
  lock := .step (t, a) h.lock hok hnext
  inside := by
    intro u hu
    have hne : u ≠ t := by
      rintro rfl
      exact hu hidle
    rw [G.frame s.lock u t a l hne hnext]
    exact h.inside u hu
  serial := h.serial
  current := h.current
  idle := h.idle

end Serial

section System

variable [DecidableEq T]

def sharedSystem (G : Guard T Λ A) (body : Op → Procedure σ ρ) (s₀ : σ) :
    System (Shared T Λ Op σ ρ) (Move T A Op) where
  init s := G.lock.init s.lock ∧ s.store = s₀ ∧ (∀ t, s.current t = none) ∧ s.log = []
  next s
    | .lock t a =>
      if (s.current t).isNone then (G.lock.next s.lock (t, a)).map fun l => { s with lock := l }
      else none
    | .start t op =>
      if G.inside s.lock t ∧ (s.current t).isNone then
        some { s with current := Function.update s.current t (some (op, body op)) }
      else none
    | .access t =>
      match s.current t with
      | none => none
      | some (op, .done result) =>
        some { s with
          current := Function.update s.current t none
          log := s.log ++ [(t, op, result)] }
      | some (op, .access write next) =>
        some { s with
          store := write s.store
          current := Function.update s.current t (some (op, next s.store)) }

/-- The lock's own condition, and the precondition of what is started. -/
def moveOk (G : Guard T Λ A) (pre : σ → Op → Prop) (s : Shared T Λ Op σ ρ) : Move T A Op → Prop
  | .lock t a => G.ok s.lock (t, a)
  | .start _ op => pre s.store op
  | .access _ => True

variable {G : Guard T Λ A} {body : Op → Procedure σ ρ} {s₀ : σ} {pre : σ → Op → Prop}
  {s s' : Shared T Λ Op σ ρ} {base : σ}

/-- A thread inside the lock is in a procedure, at a point from which it goes on as from its
start. -/
theorem SharedInv.progress (h : SharedInv G body s₀ pre s base) {t : T} {op : Op}
    {p : Procedure σ ρ} {store : σ} (hinside : G.inside s.lock t = true) (hpre : pre base op)
    (hrun : p.run store = (body op).run base) :
    SharedInv G body s₀ pre
      ⟨s.lock, store, Function.update s.current t (some (op, p)), s.log⟩ base where
  lock := h.lock
  inside := by
    intro u hu
    by_cases hut : u = t
    · rw [hut]
      exact hinside
    · exact h.inside u fun hnone => hu ((Function.update_of_ne hut _ _).trans hnone)
  serial := h.serial
  current := by
    intro u op' p' hp
    by_cases hut : u = t
    · subst hut
      have hself : some (op, p) = some (op', p') := (Function.update_self u _ _).symm.trans hp
      cases hself
      exact ⟨hpre, hrun⟩
    · have hother : s.current u = some (op', p') := (Function.update_of_ne hut _ _).symm.trans hp
      rw [h.alone hinside hut] at hother
      cases hother
  idle := by
    intro hall
    have hself : some (op, p) = none := (Function.update_self t _ _).symm.trans (hall t)
    cases hself

theorem SharedInv.start_step (h : SharedInv G body s₀ pre s base) {t : T} {op : Op}
    (hinside : G.inside s.lock t = true) (hidle : s.current t = none) (hpre : pre s.store op) :
    SharedInv G body s₀ pre
      { s with current := Function.update s.current t (some (op, body op)) } base := by
  have hstore := h.store_eq hinside hidle
  rw [hstore] at hpre
  exact h.progress hinside hpre (by rw [hstore])

theorem SharedInv.access_step (h : SharedInv G body s₀ pre s base) {t : T} {op : Op}
    {write : σ → σ} {next : σ → Procedure σ ρ} (hcur : s.current t = some (op, .access write next)) :
    SharedInv G body s₀ pre
      { s with
        store := write s.store
        current := Function.update s.current t (some (op, next s.store)) } base := by
  have hinside : G.inside s.lock t = true := h.inside t (by rw [hcur]; exact Option.some_ne_none _)
  obtain ⟨hpre, hrun⟩ := h.current t op _ hcur
  exact h.progress hinside hpre hrun

theorem SharedInv.return_step (h : SharedInv G body s₀ pre s base) {t : T} {op : Op} {result : ρ}
    (hcur : s.current t = some (op, .done result)) :
    SharedInv G body s₀ pre
      { s with
        current := Function.update s.current t none
        log := s.log ++ [(t, op, result)] } s.store := by
  have hinside : G.inside s.lock t = true := h.inside t (by rw [hcur]; exact Option.some_ne_none _)
  obtain ⟨hpre, hrun⟩ := h.current t op _ hcur
  have hnone : ∀ u, (Function.update s.current t none) u = none := by
    intro u
    by_cases hut : u = t
    · rw [hut]
      exact Function.update_self _ _ _
    · rw [Function.update_of_ne hut]
      exact h.alone hinside hut
  refine ⟨h.lock, fun u hu => absurd (hnone u) hu, serial_append h.serial ⟨hpre, ?_, ?_⟩,
    fun u op' p hp => ?_, fun _ => rfl⟩
  · rw [← hrun]
    rfl
  · show s.store = _
    rw [← hrun]
    rfl
  · exact absurd ((hnone u).symm.trans hp) (Option.some_ne_none _).symm

theorem SharedInv.step {m : Move T A Op} (h : SharedInv G body s₀ pre s base)
    (hok : moveOk G pre s m) (hnext : (sharedSystem G body s₀).next s m = some s') :
    ∃ base', SharedInv G body s₀ pre s' base' := by
  cases m with
  | lock t a =>
    simp only [sharedSystem, Option.ite_none_right_eq_some, Option.isNone_iff_eq_none] at hnext
    obtain ⟨hidle, hlock⟩ := hnext
    obtain ⟨l, hl, rfl⟩ := Option.map_eq_some_iff.mp hlock
    exact ⟨base, h.lock_step hidle hok hl⟩
  | start t op =>
    simp only [sharedSystem, Option.ite_none_right_eq_some, Option.isNone_iff_eq_none,
      Option.some.injEq] at hnext
    obtain ⟨⟨hinside, hidle⟩, rfl⟩ := hnext
    exact ⟨base, h.start_step hinside hidle hok⟩
  | access t =>
    simp only [sharedSystem] at hnext
    split at hnext
    · cases hnext
    · rename_i op result hcur
      cases hnext
      exact ⟨s.store, h.return_step hcur⟩
    · rename_i op write next hcur
      cases hnext
      exact ⟨base, h.access_step hcur⟩

/-- **Under a lock, procedures are atomic**: in every state that a run leads to, those that have
returned ran one after the other, and the store is what they left as long as none is under way. -/
theorem Shared.serial (h : ReachableUnder (sharedSystem G body s₀) (moveOk G pre) s) :
    ∃ base, SharedInv G body s₀ pre s base := by
  refine ReachableUnder.invariant (I := fun s => ∃ base, SharedInv G body s₀ pre s base) ?_ ?_ h
  · rintro s ⟨hlock, hstore, hnone, hlog⟩
    refine ⟨s₀, .init hlock, fun t ht => absurd (hnone t) ht, ?_, fun t op p hp => ?_,
      fun _ => hstore⟩
    · rw [hlog]
      rfl
    · rw [hnone t] at hp
      cases hp
  · rintro s m s' ⟨base, hinv⟩ hok hnext
    exact hinv.step hok hnext

/-! ### Runs in which nobody comes between -/

/-- The state when the thread's call has returned and nobody else has moved. -/
def Shared.called (body : Op → Procedure σ ρ) (s : Shared T Λ Op σ ρ) (t : T) (op : Op) :
    Shared T Λ Op σ ρ :=
  { s with
    store := ((body op).run s.store).1
    log := s.log ++ [(t, op, ((body op).run s.store).2)] }

variable {ok : Shared T Λ Op σ ρ → Move T A Op → Prop} {t : T} {op : Op}

/-- A thread in a procedure makes its accesses and returns. -/
theorem return_reachable (haccess : ∀ s t, ok s (.access t)) (p : Procedure σ ρ) :
    ∀ {s : Shared T Λ Op σ ρ}, ReachableUnder (sharedSystem G body s₀) ok s →
      s.current t = some (op, p) →
      ReachableUnder (sharedSystem G body s₀) ok
        ⟨s.lock, (p.run s.store).1, Function.update s.current t none,
          s.log ++ [(t, op, (p.run s.store).2)]⟩ := by
  induction p with
  | done result =>
    intro s hs hcur
    refine .step (.access t) hs (haccess s t) ?_
    simp only [sharedSystem, hcur, Procedure.run]
  | access write next ih =>
    intro s hs hcur
    have hnext : ReachableUnder (sharedSystem G body s₀) ok
        { s with
          store := write s.store
          current := Function.update s.current t (some (op, next s.store)) } :=
      .step (.access t) hs (haccess s t) (by simp only [sharedSystem, hcur])
    have hreturned := ih s.store hnext (Function.update_self t _ _)
    rwa [Function.update_idem] at hreturned

/-- A thread inside the lock makes a call while no other is under way. -/
theorem call_reachable (haccess : ∀ s t, ok s (.access t))
    (hs : ReachableUnder (sharedSystem G body s₀) ok s) (hidle : ∀ u, s.current u = none)
    (hinside : G.inside s.lock t = true) (hok : ok s (.start t op)) :
    ReachableUnder (sharedSystem G body s₀) ok (s.called body t op) := by
  have hstart : ReachableUnder (sharedSystem G body s₀) ok
      { s with current := Function.update s.current t (some (op, body op)) } := by
    refine .step (.start t op) hs hok ?_
    simp only [sharedSystem, hinside, hidle t, Option.isNone_none, and_self, if_true]
  have hcurrent : Function.update (Function.update s.current t (some (op, body op))) t none =
      s.current := by
    rw [Function.update_idem]
    exact Function.update_eq_self_iff.mpr (hidle t).symm
  have hreturned := return_reachable haccess (body op) hstart (Function.update_self t _ _)
  simp only [hcurrent] at hreturned
  exact hreturned

/-- The lock's own steps while no call is under way. -/
theorem lock_reachable [∀ l a, Decidable (G.ok l a)]
    (hlock : ∀ s t a, G.ok s.lock (t, a) → ok s (.lock t a)) {as : List (T × A)} {l : Λ} :
    ∀ {s : Shared T Λ Op σ ρ}, ReachableUnder (sharedSystem G body s₀) ok s →
      (∀ u, s.current u = none) → runUnder G.lock G.ok s.lock as = some l →
      ReachableUnder (sharedSystem G body s₀) ok { s with lock := l } := by
  induction as with
  | nil =>
    intro s hs _ h
    obtain rfl : s.lock = l := Option.some.inj h
    exact hs
  | cons a as ih =>
    intro s hs hidle h
    obtain ⟨hok, h⟩ := Option.ite_none_right_eq_some.mp h
    obtain ⟨l', hnext, hrest⟩ := Option.bind_eq_some_iff.mp h
    have hstep : ReachableUnder (sharedSystem G body s₀) ok { s with lock := l' } := by
      refine .step (.lock a.1 a.2) hs (hlock s a.1 a.2 hok) ?_
      simp only [sharedSystem, hidle a.1, Option.isNone_none, if_true, hnext, Option.map_some]
    have hend := ih hstep hidle hrest
    exact hend

end System

end CriticalSection
