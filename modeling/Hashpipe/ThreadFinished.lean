import Mathlib.Tactic
import Hashpipe.Library.StepSystem

/-!
# The finished flag of a thread

`hashpipe_thread_set_finished` and `hashpipe_thread_finished` of `hashpipe_thread_args.c`, called
by any number of threads for the arguments of one: a flag, a mutex and a condition variable.
`hashpipe_thread_finished` waits once, for as long as it is told, and looks again; it does not
look at what `pthread_cond_timedwait` says, which may be that the time is up, that `tv_nsec` is
out of range, or nothing at all.

`FinishedInv` carries what there is to say of a run without cancellation (`finished_seen`).  The
wait is a cancellation point, and nothing unlocks the mutex of a thread that is cancelled there
(`cancelled_wait_blocks`).
-/

namespace Hashpipe

open StepSystem

variable {T : Type}

inductive FinishedPc
  | idle
  /-- `hashpipe_thread_set_finished`, in `pthread_mutex_lock`. -/
  | lockSet
  | set
  | broadcast
  | unlockSet
  /-- `hashpipe_thread_finished`, in `pthread_mutex_lock`. -/
  | lockTest
  | test
  /-- On the condition variable, without the mutex. -/
  | waiting
  /-- Taking the mutex again. -/
  | relock
  /-- At `rv = a->finished`. -/
  | read
  | unlockTest (rv : Bool)
  /-- Cancelled in the wait, and taking the mutex again to run its cleanup handlers. -/
  | dying
  | dead
  deriving DecidableEq

/-- One thread, and of its call (history): whether the flag was set when it was made, and
whether its wait was ended by a broadcast. -/
structure FinishedThread where
  pc : FinishedPc
  before : Bool
  woken : Bool
  deriving DecidableEq

/-- What a call of `hashpipe_thread_finished` has returned. -/
structure FinishedReturn where
  rv : Bool
  before : Bool
  woken : Bool

structure FinishedState (T : Type) where
  owner : Option T
  finished : Bool
  thread : T → FinishedThread
  log : List (T × FinishedReturn)

inductive FinishedAction
  | callSet
  | callFinished
  | lock
  /-- `a->finished=1`. -/
  | set
  | broadcast
  /-- `pthread_mutex_unlock`, and the call returns. -/
  | unlock
  | test
  /-- The `twait` is refused: the mutex stays locked. -/
  | waitFails
  /-- The time is up, or the wait ends for no reason. -/
  | wakeUp
  | read
  | cancel
  deriving DecidableEq

def FinishedThread.at (th : FinishedThread) (pc : FinishedPc) : FinishedThread := { th with pc := pc }

/-- A thread that waits goes on. -/
def FinishedThread.awake (th : FinishedThread) : FinishedThread :=
  if th.pc = .waiting then { th with pc := .relock, woken := true } else th

/-- Where a thread is when `pthread_mutex_lock` has returned. -/
def FinishedPc.locked : FinishedPc → Option FinishedPc
  | .lockSet => some .set
  | .lockTest => some .test
  | .relock => some .read
  | .dying => some .dead
  | _ => none

section System

variable [DecidableEq T]

def FinishedState.move (s : FinishedState T) (t : T) (pc : FinishedPc) : FinishedState T :=
  { s with thread := Function.update s.thread t ((s.thread t).at pc) }

def finishedNext (s : FinishedState T) (t : T) : FinishedAction → Option (FinishedState T)
  | .callSet => if (s.thread t).pc = .idle then some (s.move t .lockSet) else none
  | .callFinished =>
    if (s.thread t).pc = .idle then
      some { s with thread := Function.update s.thread t ⟨.lockTest, s.finished, false⟩ }
    else none
  | .lock =>
    match (s.thread t).pc.locked with
    | some pc => if s.owner = none then some { s.move t pc with owner := some t } else none
    | none => none
  | .set =>
    if (s.thread t).pc = .set then some { s.move t .broadcast with finished := true } else none
  | .broadcast =>
    if (s.thread t).pc = .broadcast then
      some { s with thread :=
        Function.update (fun u => (s.thread u).awake) t ((s.thread t).at .unlockSet) }
    else none
  | .unlock =>
    match (s.thread t).pc with
    | .unlockSet => some { s.move t .idle with owner := none }
    | .unlockTest rv =>
      some { s.move t .idle with
        owner := none
        log := s.log ++ [(t, ⟨rv, (s.thread t).before, (s.thread t).woken⟩)] }
    | _ => none
  | .test =>
    if (s.thread t).pc = .test then
      if s.finished then some (s.move t .read)
      else some { s.move t .waiting with owner := none }
    else none
  | .waitFails =>
    if (s.thread t).pc = .test ∧ s.finished = false then some (s.move t .read) else none
  | .wakeUp => if (s.thread t).pc = .waiting then some (s.move t .relock) else none
  | .read => if (s.thread t).pc = .read then some (s.move t (.unlockTest s.finished)) else none
  | .cancel => if (s.thread t).pc = .waiting then some (s.move t .dying) else none

/-- `hashpipe_thread_args_init`, and no thread in a call. -/
def finishedSystem (T : Type) [DecidableEq T] : System (FinishedState T) (T × FinishedAction) where
  init s := s.owner = none ∧ s.finished = false ∧ (∀ t, (s.thread t).pc = .idle) ∧ s.log = []
  next s a := finishedNext s a.1 a.2

/-- No thread is cancelled in its wait. -/
def notCancelled (_ : FinishedState T) (a : T × FinishedAction) : Prop := a.2 ≠ .cancel

end System

/-! ### The invariant -/

/-- The thread has the mutex. -/
def FinishedPc.holds : FinishedPc → Bool
  | .set | .broadcast | .unlockSet | .test | .read | .unlockTest _ | .dead => true
  | .idle | .lockSet | .lockTest | .waiting | .relock | .dying => false

/-- The thread is in `hashpipe_thread_finished`. -/
def FinishedPc.testing : FinishedPc → Bool
  | .lockTest | .test | .waiting | .relock | .read | .unlockTest _ | .dying | .dead => true
  | .idle | .lockSet | .set | .broadcast | .unlockSet => false

/-- What a thread knows of the flag. -/
structure FinishedThread.Promise (finished : Bool) (th : FinishedThread) : Prop where
  setting : th.pc = .broadcast ∨ th.pc = .unlockSet → finished = true
  testing : th.pc.testing = true → th.before = true ∨ th.woken = true → finished = true
  zero : th.pc = .unlockTest false → th.before = false ∧ th.woken = false
  one : th.pc = .unlockTest true → finished = true

/-- What a call that has returned `rv` says of the flag. -/
structure FinishedReturn.Promise (finished : Bool) (r : FinishedReturn) : Prop where
  zero : r.rv = false → r.before = false ∧ r.woken = false
  one : r.rv = true → finished = true

structure FinishedInv (s : FinishedState T) : Prop where
  owner : ∀ t, (s.thread t).pc.holds = true ↔ s.owner = some t
  promise : ∀ t, (s.thread t).Promise s.finished
  /-- A thread that waits although the flag is set is about to be woken. -/
  awaited : s.finished = true → ∀ t, (s.thread t).pc = .waiting →
    ∃ u, (s.thread u).pc = .broadcast
  log : ∀ e ∈ s.log, e.2.Promise s.finished

section Invariant

variable [DecidableEq T] {s s' : FinishedState T} {t : T}

@[simp] theorem FinishedThread.at_pc (th : FinishedThread) (pc : FinishedPc) :
    (th.at pc).pc = pc := rfl

@[simp] theorem FinishedThread.at_before (th : FinishedThread) (pc : FinishedPc) :
    (th.at pc).before = th.before := rfl

@[simp] theorem FinishedThread.at_woken (th : FinishedThread) (pc : FinishedPc) :
    (th.at pc).woken = th.woken := rfl

/-- The flag is set, and stays set. -/
theorem FinishedThread.Promise.set {finished : Bool} {th : FinishedThread}
    (h : th.Promise finished) : th.Promise true :=
  ⟨fun _ => rfl, fun _ _ => rfl, h.zero, fun _ => rfl⟩

/-- **One thread moves**, the flag being what it was: what is to be shown is about that thread
and the mutex. -/
theorem FinishedInv.update (h : FinishedInv s) (th : FinishedThread) (owner : Option T)
    (log : List (T × FinishedReturn))
    (howner : owner = if th.pc.holds then some t
      else if (s.thread t).pc.holds then none else s.owner)
    (hfree : th.pc.holds = true → (s.thread t).pc.holds = false → s.owner = none)
    (hpromise : th.Promise s.finished)
    (hwait : th.pc = .waiting → s.finished = false)
    (hbroadcast : (s.thread t).pc ≠ .broadcast)
    (hlog : ∀ e ∈ log, e.2.Promise s.finished) :
    FinishedInv { s with owner := owner, thread := Function.update s.thread t th, log := log } := by
  have hother : ∀ u, u ≠ t → ((s.thread u).pc.holds = true ↔ owner = some u) := by
    intro u hu
    have hs := h.owner u
    have ht := h.owner t
    subst howner
    split
    · rename_i hnew
      constructor
      · intro hholds
        cases hold : (s.thread t).pc.holds with
        | false => rw [hfree hnew hold] at hs; exact absurd (hs.mp hholds) (by simp)
        | true => rw [ht.mp hold] at hs; exact absurd (Option.some.inj (hs.mp hholds)).symm hu
      · intro heq
        exact absurd (Option.some.inj heq).symm hu
    · split
      · rename_i hold
        rw [ht.mp hold] at hs
        rw [hs]
        constructor
        · intro heq
          exact absurd (Option.some.inj heq).symm hu
        · intro heq
          cases heq
      · exact hs
  refine ⟨fun u => ?_, fun u => ?_, fun hset u hu => ?_, hlog⟩
  · show (Function.update s.thread t th u).pc.holds = true ↔ owner = some u
    rcases eq_or_ne u t with rfl | hu
    · rw [Function.update_self, howner]
      have ht := h.owner u
      cases hnew : th.pc.holds <;> cases hold : (s.thread u).pc.holds <;> simp_all
    · rw [Function.update_of_ne hu]
      exact hother u hu
  · show (Function.update s.thread t th u).Promise s.finished
    rcases eq_or_ne u t with rfl | hu
    · rwa [Function.update_self]
    · rw [Function.update_of_ne hu]
      exact h.promise u
  · show ∃ v, (Function.update s.thread t th v).pc = .broadcast
    have hu' : u ≠ t := by
      rintro rfl
      have hpc : th.pc = .waiting := by simpa using hu
      exact absurd hset (by simp [hwait hpc])
    have hwaits : (s.thread u).pc = .waiting := by simpa [Function.update_of_ne hu'] using hu
    obtain ⟨v, hv⟩ := h.awaited hset u hwaits
    have hvt : v ≠ t := by
      rintro rfl
      exact hbroadcast hv
    exact ⟨v, by rwa [Function.update_of_ne hvt]⟩

/-- The move of a thread that neither takes nor gives up the mutex. -/
theorem FinishedInv.move (h : FinishedInv s) (pc : FinishedPc)
    (hholds : pc.holds = (s.thread t).pc.holds)
    (hpromise : ((s.thread t).at pc).Promise s.finished)
    (hwait : pc = .waiting → s.finished = false)
    (hbroadcast : (s.thread t).pc ≠ .broadcast) : FinishedInv (s.move t pc) := by
  refine h.update ((s.thread t).at pc) s.owner s.log ?_ ?_ hpromise hwait hbroadcast h.log
  · show s.owner = if pc.holds then some t else if (s.thread t).pc.holds then none else s.owner
    rw [hholds]
    cases hpc : (s.thread t).pc.holds with
    | false => rfl
    | true => exact (h.owner t).mp hpc
  · intro hnew hold
    rw [FinishedThread.at_pc, hholds, hold] at hnew
    cases hnew

/-- What a thread at another place of the same call knows. -/
theorem FinishedThread.Promise.move {finished : Bool} {th : FinishedThread}
    (h : th.Promise finished) {pc : FinishedPc} (htesting : th.pc.testing = true)
    (hpc : pc ≠ .broadcast ∧ pc ≠ .unlockSet ∧ ∀ rv, pc ≠ .unlockTest rv) :
    (th.at pc).Promise finished :=
  ⟨fun hset => (hset.elim hpc.1 hpc.2.1).elim, fun _ => h.testing htesting,
    fun hpc' => absurd hpc' (hpc.2.2 false), fun hpc' => absurd hpc' (hpc.2.2 true)⟩

/-- A thread outside `hashpipe_thread_finished` that knows nothing of the flag. -/
theorem FinishedThread.promise_at (th : FinishedThread) (finished : Bool) {pc : FinishedPc}
    (hpc : pc = .idle ∨ pc = .lockSet ∨ pc = .set) : (th.at pc).Promise finished := by
  rcases hpc with rfl | rfl | rfl <;> constructor <;> simp [FinishedPc.testing]

/-- The mutex is taken. -/
theorem FinishedInv.lock (h : FinishedInv s) {pc : FinishedPc}
    (hlocked : (s.thread t).pc.locked = some pc) (hfree : s.owner = none) :
    FinishedInv { s.move t pc with owner := some t } := by
  have hpromise := h.promise t
  cases hpc : (s.thread t).pc with
  | lockSet =>
    obtain rfl : .set = pc := by simpa [FinishedPc.locked, hpc] using hlocked
    exact h.update _ _ _ rfl (fun _ _ => hfree) (FinishedThread.promise_at _ _ (by simp))
      (by simp) (by simp [hpc]) h.log
  | lockTest =>
    obtain rfl : .test = pc := by simpa [FinishedPc.locked, hpc] using hlocked
    exact h.update _ _ _ rfl (fun _ _ => hfree)
      (hpromise.move (by rw [hpc]; rfl) (by simp)) (by simp) (by simp [hpc]) h.log
  | relock =>
    obtain rfl : .read = pc := by simpa [FinishedPc.locked, hpc] using hlocked
    exact h.update _ _ _ rfl (fun _ _ => hfree)
      (hpromise.move (by rw [hpc]; rfl) (by simp)) (by simp) (by simp [hpc]) h.log
  | dying =>
    obtain rfl : .dead = pc := by simpa [FinishedPc.locked, hpc] using hlocked
    exact h.update _ _ _ rfl (fun _ _ => hfree)
      (hpromise.move (by rw [hpc]; rfl) (by simp)) (by simp) (by simp [hpc]) h.log
  | idle | set | broadcast | unlockSet | test | waiting | read | dead =>
    simp [FinishedPc.locked, hpc] at hlocked
  | unlockTest rv => simp [FinishedPc.locked, hpc] at hlocked

/-- `a->finished=1`: whoever waits will be woken by this thread. -/
theorem FinishedInv.set (h : FinishedInv s) (hpc : (s.thread t).pc = .set) :
    FinishedInv { s.move t .broadcast with finished := true } := by
  refine ⟨fun u => ?_, fun u => ?_, fun _ _ _ => ⟨t, ?_⟩, fun e he => ?_⟩
  · show (Function.update s.thread t ((s.thread t).at .broadcast) u).pc.holds = true ↔ _
    rcases eq_or_ne u t with rfl | hu
    · rw [Function.update_self]
      have ht := h.owner u
      rw [hpc] at ht
      exact ht
    · rw [Function.update_of_ne hu]
      exact h.owner u
  · show (Function.update s.thread t ((s.thread t).at .broadcast) u).Promise true
    rcases eq_or_ne u t with rfl | hu
    · rw [Function.update_self]
      exact ⟨fun _ => rfl, fun _ _ => rfl, by simp, by simp⟩
    · rw [Function.update_of_ne hu]
      exact (h.promise u).set
  · show (Function.update s.thread t ((s.thread t).at .broadcast) t).pc = .broadcast
    rw [Function.update_self]
    rfl
  · exact ⟨(h.log e he).zero, fun _ => rfl⟩

theorem FinishedThread.awake_holds (th : FinishedThread) :
    th.awake.pc.holds = th.pc.holds := by
  unfold FinishedThread.awake
  split
  · rename_i hpc
    rw [hpc]
    rfl
  · rfl

theorem FinishedThread.awake_pc_ne (th : FinishedThread) : th.awake.pc ≠ .waiting := by
  unfold FinishedThread.awake
  split
  · simp
  · assumption

theorem FinishedThread.Promise.awake {th : FinishedThread} (h : th.Promise true) :
    th.awake.Promise true := by
  unfold FinishedThread.awake
  split
  · exact ⟨fun _ => rfl, fun _ _ => rfl, by simp, fun _ => rfl⟩
  · exact h

/-- `pthread_cond_broadcast`: nobody waits any more. -/
theorem FinishedInv.broadcast (h : FinishedInv s) (hpc : (s.thread t).pc = .broadcast) :
    FinishedInv { s with
      thread := Function.update (fun u => (s.thread u).awake) t ((s.thread t).at .unlockSet) } := by
  have hset : s.finished = true := (h.promise t).setting (.inl hpc)
  refine ⟨fun u => ?_, fun u => ?_, fun _ u hu => ?_, h.log⟩
  · show (Function.update (fun u => (s.thread u).awake) t _ u).pc.holds = true ↔ s.owner = some u
    rcases eq_or_ne u t with rfl | hne
    · rw [Function.update_self]
      have ht := h.owner u
      rw [hpc] at ht
      exact ht
    · rw [Function.update_of_ne hne, FinishedThread.awake_holds]
      exact h.owner u
  · show (Function.update (fun u => (s.thread u).awake) t _ u).Promise s.finished
    have hpromise := h.promise u
    rw [hset] at hpromise ⊢
    rcases eq_or_ne u t with rfl | hne
    · rw [Function.update_self]
      exact ⟨fun _ => rfl, fun _ _ => rfl, by simp, fun _ => rfl⟩
    · rw [Function.update_of_ne hne]
      exact hpromise.awake
  · exfalso
    change (Function.update (fun u => (s.thread u).awake) t ((s.thread t).at .unlockSet) u).pc = _
      at hu
    rcases eq_or_ne u t with rfl | hne
    · rw [Function.update_self] at hu
      cases hu
    · rw [Function.update_of_ne hne] at hu
      exact (s.thread u).awake_pc_ne hu

/-- The mutex is given up at the end of a call. -/
theorem FinishedInv.unlock (h : FinishedInv s) (log : List (T × FinishedReturn))
    (hholds : (s.thread t).pc.holds = true) (hpc : (s.thread t).pc ≠ .broadcast)
    (hlog : ∀ e ∈ log, e.2.Promise s.finished) :
    FinishedInv { s.move t .idle with owner := none, log := log } := by
  refine h.update ((s.thread t).at .idle) none log ?_ ?_
    (FinishedThread.promise_at _ _ (.inl rfl)) ?_ hpc hlog
  · rw [hholds]
    rfl
  · intro hnew
    cases hnew
  · intro hwaiting
    cases hwaiting

/-- **Every step keeps the invariant.** -/
theorem FinishedInv.next (h : FinishedInv s) {a : FinishedAction}
    (hn : finishedNext s t a = some s') : FinishedInv s' := by
  have hpromise := h.promise t
  cases a with
  | callSet =>
    obtain ⟨hpc, heq⟩ := Option.ite_none_right_eq_some.mp hn
    obtain rfl := Option.some.inj heq
    exact h.move .lockSet (by rw [hpc]; rfl) (FinishedThread.promise_at _ _ (by simp)) (by simp)
      (by simp [hpc])
  | callFinished =>
    obtain ⟨hpc, heq⟩ := Option.ite_none_right_eq_some.mp hn
    obtain rfl := Option.some.inj heq
    exact h.update _ s.owner s.log (by rw [hpc]; rfl) (by simp [FinishedPc.holds])
      ⟨by simp, by simp, by simp, by simp⟩ (by simp) (by simp [hpc]) h.log
  | lock =>
    simp only [finishedNext] at hn
    split at hn
    · rename_i pc hlocked
      obtain ⟨hfree, heq⟩ := Option.ite_none_right_eq_some.mp hn
      obtain rfl := Option.some.inj heq
      exact h.lock hlocked hfree
    · cases hn
  | set =>
    obtain ⟨hpc, heq⟩ := Option.ite_none_right_eq_some.mp hn
    obtain rfl := Option.some.inj heq
    exact h.set hpc
  | broadcast =>
    obtain ⟨hpc, heq⟩ := Option.ite_none_right_eq_some.mp hn
    obtain rfl := Option.some.inj heq
    exact h.broadcast hpc
  | unlock =>
    simp only [finishedNext] at hn
    split at hn
    · rename_i hpc
      obtain rfl := Option.some.inj hn
      exact h.unlock s.log (by rw [hpc]; rfl) (by simp [hpc]) h.log
    · rename_i rv hpc
      obtain rfl := Option.some.inj hn
      refine h.unlock _ (by rw [hpc]; rfl) (by simp [hpc]) fun e he => ?_
      rcases List.mem_append.mp he with hold | hnew
      · exact h.log e hold
      · obtain rfl := List.mem_singleton.mp hnew
        refine ⟨?_, ?_⟩
        · rintro rfl
          exact hpromise.zero hpc
        · rintro rfl
          exact hpromise.one hpc
    · cases hn
  | test =>
    obtain ⟨hpc, heq⟩ := Option.ite_none_right_eq_some.mp hn
    have htesting : (s.thread t).pc.testing = true := by rw [hpc]; rfl
    split at heq
    · obtain rfl := Option.some.inj heq
      exact h.move .read (by rw [hpc]; rfl) (hpromise.move htesting (by simp)) (by simp)
        (by simp [hpc])
    · rename_i hclear
      obtain rfl := Option.some.inj heq
      exact h.update ((s.thread t).at .waiting) none s.log (by rw [hpc]; rfl)
        (by simp [FinishedPc.holds]) (hpromise.move htesting (by simp)) (fun _ => by simpa using hclear)
        (by simp [hpc]) h.log
  | waitFails =>
    obtain ⟨⟨hpc, _⟩, heq⟩ := Option.ite_none_right_eq_some.mp hn
    obtain rfl := Option.some.inj heq
    exact h.move .read (by rw [hpc]; rfl) (hpromise.move (by rw [hpc]; rfl) (by simp)) (by simp)
      (by simp [hpc])
  | wakeUp =>
    obtain ⟨hpc, heq⟩ := Option.ite_none_right_eq_some.mp hn
    obtain rfl := Option.some.inj heq
    exact h.move .relock (by rw [hpc]; rfl) (hpromise.move (by rw [hpc]; rfl) (by simp)) (by simp)
      (by simp [hpc])
  | read =>
    obtain ⟨hpc, heq⟩ := Option.ite_none_right_eq_some.mp hn
    obtain rfl := Option.some.inj heq
    refine h.move (.unlockTest s.finished) (by rw [hpc]; rfl) ⟨by simp, ?_, ?_, ?_⟩ (by simp)
      (by simp [hpc])
    · intro _
      exact hpromise.testing (by rw [hpc]; rfl)
    · intro hzero
      have hclear : s.finished = false := by simpa using hzero
      have hknown := hpromise.testing (by rw [hpc]; rfl)
      rw [hclear] at hknown
      exact ⟨by simpa using fun hb => hknown (.inl hb), by simpa using fun hw => hknown (.inr hw)⟩
    · intro hone
      simpa using hone
  | cancel =>
    obtain ⟨hpc, heq⟩ := Option.ite_none_right_eq_some.mp hn
    obtain rfl := Option.some.inj heq
    exact h.move .dying (by rw [hpc]; rfl) (hpromise.move (by rw [hpc]; rfl) (by simp)) (by simp)
      (by simp [hpc])

theorem finishedInv_init (h : (finishedSystem T).init s) : FinishedInv s := by
  obtain ⟨howner, _, hidle, hlog⟩ := h
  refine ⟨fun t => ?_, fun t => ?_, fun _ t ht => ?_, fun e he => ?_⟩
  · rw [hidle t, howner]
    simp [FinishedPc.holds]
  · have hpc := hidle t
    constructor <;> simp [hpc, FinishedPc.testing]
  · rw [hidle t] at ht
    cases ht
  · rw [hlog] at he
    cases he

/-- The invariant of every run, with cancellation or without. -/
theorem finishedInv_reachable (h : Reachable (finishedSystem T) s) : FinishedInv s :=
  h.invariant (fun _ hs => finishedInv_init hs)
    fun s a s' hi (hn : finishedNext s a.1 a.2 = some s') => hi.next hn

/-! ### What a step leaves alone -/

/-- The thread is cancelled in its wait. -/
def FinishedPc.cancelled : FinishedPc → Bool
  | .dying | .dead => true
  | _ => false

/-- A step of a call that is under way. -/
def FinishedAction.inCall : FinishedAction → Bool
  | .callSet | .callFinished | .cancel => false
  | _ => true

/-- How many steps a call has before it at most. -/
def FinishedPc.rank : FinishedPc → ℕ
  | .idle | .dead => 0
  | .unlockSet | .unlockTest _ | .dying => 1
  | .broadcast | .read => 2
  | .set | .relock => 3
  | .lockSet | .waiting => 4
  | .test => 5
  | .lockTest => 6

/-- What a step of `t` cannot do. -/
structure FinishedFrame (s : FinishedState T) (t : T) (a : FinishedAction) (s' : FinishedState T) :
    Prop where
  alive : (s.thread t).pc ≠ .dead
  others : ∀ u, u ≠ t → s'.thread u = s.thread u ∨ s'.thread u = (s.thread u).awake
  cancelled : a ≠ .cancel → (s.thread t).pc.cancelled = false →
    (s'.thread t).pc.cancelled = false
  /-- Without the mutex, nothing but taking it. -/
  outside : (s.thread t).pc.holds = false →
    s'.finished = s.finished ∧ s'.log = s.log ∧ (s.owner = none ∨ s'.owner = s.owner)
  flag : s.finished = true → s'.finished = true
  rank : a.inCall = true → (s'.thread t).pc.rank < (s.thread t).pc.rank

/-- The frame of a step that puts one thread elsewhere. -/
theorem FinishedFrame.of_update {a : FinishedAction} (th : FinishedThread) (owner : Option T)
    (log : List (T × FinishedReturn)) (halive : (s.thread t).pc ≠ .dead)
    (hcancelled : a ≠ .cancel → (s.thread t).pc.cancelled = false → th.pc.cancelled = false)
    (houtside : (s.thread t).pc.holds = false →
      log = s.log ∧ (s.owner = none ∨ owner = s.owner))
    (hrank : a.inCall = true → th.pc.rank < (s.thread t).pc.rank) :
    FinishedFrame s t a
      { s with owner := owner, thread := Function.update s.thread t th, log := log } := by
  refine ⟨halive, fun u hu => .inl (Function.update_of_ne hu _ _), ?_, fun hpc => ?_, id, ?_⟩
  · show a ≠ .cancel → _ → (Function.update s.thread t th t).pc.cancelled = false
    rwa [Function.update_self]
  · exact ⟨rfl, houtside hpc⟩
  · show a.inCall = true → (Function.update s.thread t th t).pc.rank < _
    rwa [Function.update_self]

/-- What taking the mutex does to a thread. -/
theorem FinishedPc.locked_frame {p pc : FinishedPc} (h : p.locked = some pc) :
    p ≠ .dead ∧ pc.cancelled = p.cancelled ∧ pc.rank < p.rank := by
  cases p with
  | lockSet | lockTest | relock | dying =>
    obtain rfl := Option.some.inj h
    exact ⟨by simp, rfl, by decide⟩
  | idle | set | broadcast | unlockSet | test | waiting | read | dead => cases h
  | unlockTest rv => cases h

theorem finishedNext_frame {a : FinishedAction} (hn : finishedNext s t a = some s') :
    FinishedFrame s t a s' := by
  cases a with
  | callSet =>
    obtain ⟨hpc, heq⟩ := Option.ite_none_right_eq_some.mp hn
    obtain rfl := Option.some.inj heq
    exact .of_update _ _ _ (by simp [hpc]) (fun _ _ => rfl) (fun _ => ⟨rfl, .inr rfl⟩) nofun
  | callFinished =>
    obtain ⟨hpc, heq⟩ := Option.ite_none_right_eq_some.mp hn
    obtain rfl := Option.some.inj heq
    exact .of_update _ s.owner s.log (by simp [hpc]) (fun _ _ => rfl)
      (fun _ => ⟨rfl, .inr rfl⟩) nofun
  | lock =>
    simp only [finishedNext] at hn
    split at hn
    · rename_i pc hlocked
      obtain ⟨hfree, heq⟩ := Option.ite_none_right_eq_some.mp hn
      obtain rfl := Option.some.inj heq
      obtain ⟨halive, hcancelled, hrank⟩ := FinishedPc.locked_frame hlocked
      exact .of_update _ _ _ halive (fun _ hpc => hcancelled.trans hpc)
        (fun _ => ⟨rfl, .inl hfree⟩) fun _ => hrank
    · cases hn
  | set =>
    obtain ⟨hpc, heq⟩ := Option.ite_none_right_eq_some.mp hn
    obtain rfl := Option.some.inj heq
    have ht : Function.update s.thread t ((s.thread t).at .broadcast) t
        = (s.thread t).at .broadcast := Function.update_self ..
    refine ⟨by simp [hpc], fun u hu => .inl (Function.update_of_ne hu _ _), fun _ _ => ?_,
      fun hholds => ?_, fun _ => rfl, fun _ => ?_⟩
    · show (Function.update s.thread t ((s.thread t).at .broadcast) t).pc.cancelled = false
      rw [ht]
      rfl
    · rw [hpc] at hholds
      cases hholds
    · show (Function.update s.thread t ((s.thread t).at .broadcast) t).pc.rank < _
      simp [hpc, FinishedPc.rank]
  | broadcast =>
    obtain ⟨hpc, heq⟩ := Option.ite_none_right_eq_some.mp hn
    obtain rfl := Option.some.inj heq
    have ht : Function.update (fun u => (s.thread u).awake) t ((s.thread t).at .unlockSet) t
        = (s.thread t).at .unlockSet := Function.update_self ..
    refine ⟨by simp [hpc], fun u hu => .inr ?_, fun _ _ => ?_, fun hholds => ?_, id, fun _ => ?_⟩
    · show Function.update (fun u => (s.thread u).awake) t _ u = (s.thread u).awake
      rw [Function.update_of_ne hu]
    · show (Function.update (fun u => (s.thread u).awake) t _ t).pc.cancelled = false
      rw [ht]
      rfl
    · rw [hpc] at hholds
      cases hholds
    · show (Function.update (fun u => (s.thread u).awake) t _ t).pc.rank < _
      simp [hpc, FinishedPc.rank]
  | unlock =>
    simp only [finishedNext] at hn
    split at hn
    · rename_i hpc
      obtain rfl := Option.some.inj hn
      exact .of_update _ none s.log (by simp [hpc]) (fun _ _ => rfl)
        (fun hholds => by simp [hpc, FinishedPc.holds] at hholds) (fun _ => by simp [hpc, FinishedPc.rank])
    · rename_i rv hpc
      obtain rfl := Option.some.inj hn
      exact .of_update _ none _ (by simp [hpc]) (fun _ _ => rfl)
        (fun hholds => by simp [hpc, FinishedPc.holds] at hholds)
        (fun _ => by simp [hpc, FinishedPc.rank])
    · cases hn
  | test =>
    obtain ⟨hpc, heq⟩ := Option.ite_none_right_eq_some.mp hn
    split at heq
    · obtain rfl := Option.some.inj heq
      exact .of_update _ _ _ (by simp [hpc]) (fun _ _ => rfl) (fun _ => ⟨rfl, .inr rfl⟩)
        (fun _ => by simp [hpc, FinishedPc.rank])
    · obtain rfl := Option.some.inj heq
      exact .of_update _ none s.log (by simp [hpc]) (fun _ _ => rfl)
        (fun hholds => by simp [hpc, FinishedPc.holds] at hholds) (fun _ => by simp [hpc, FinishedPc.rank])
  | waitFails =>
    obtain ⟨⟨hpc, _⟩, heq⟩ := Option.ite_none_right_eq_some.mp hn
    obtain rfl := Option.some.inj heq
    exact .of_update _ _ _ (by simp [hpc]) (fun _ _ => rfl) (fun _ => ⟨rfl, .inr rfl⟩)
      (fun _ => by simp [hpc, FinishedPc.rank])
  | wakeUp =>
    obtain ⟨hpc, heq⟩ := Option.ite_none_right_eq_some.mp hn
    obtain rfl := Option.some.inj heq
    exact .of_update _ _ _ (by simp [hpc]) (fun _ _ => rfl) (fun _ => ⟨rfl, .inr rfl⟩)
      (fun _ => by simp [hpc, FinishedPc.rank])
  | read =>
    obtain ⟨hpc, heq⟩ := Option.ite_none_right_eq_some.mp hn
    obtain rfl := Option.some.inj heq
    exact .of_update _ _ _ (by simp [hpc]) (fun _ _ => rfl) (fun _ => ⟨rfl, .inr rfl⟩)
      (fun _ => by simp [hpc, FinishedPc.rank])
  | cancel =>
    obtain ⟨hpc, heq⟩ := Option.ite_none_right_eq_some.mp hn
    obtain rfl := Option.some.inj heq
    exact .of_update _ _ _ (by simp [hpc]) (fun hne => absurd rfl hne)
      (fun _ => ⟨rfl, .inr rfl⟩) nofun

theorem FinishedThread.awake_cancelled (th : FinishedThread) :
    th.awake.pc.cancelled = th.pc.cancelled := by
  unfold FinishedThread.awake
  split
  · rename_i hpc
    rw [hpc]
    rfl
  · rfl

/-- Nobody is cancelled. -/
theorem notCancelled_reachable (h : ReachableUnder (finishedSystem T) notCancelled s) :
    ∀ u, (s.thread u).pc.cancelled = false := by
  refine h.invariant (I := fun s => ∀ u, (s.thread u).pc.cancelled = false) ?_ ?_
  · rintro s ⟨_, _, hidle, _⟩ u
    rw [hidle u]
    rfl
  · intro s a s' ih hok (hn : finishedNext s a.1 a.2 = some s') u
    have hframe := finishedNext_frame hn
    rcases eq_or_ne u a.1 with rfl | hu
    · exact hframe.cancelled hok (ih _)
    · rcases hframe.others u hu with heq | heq <;> rw [heq]
      · exact ih u
      · rw [FinishedThread.awake_cancelled]
        exact ih u

/-! ### Runs -/

/-- Some call that is under way can go on. -/
def FinishedState.CanMove (s : FinishedState T) : Prop :=
  ∃ u a s', FinishedAction.inCall a = true ∧ finishedNext s u a = some s'

/-- Who has the mutex can go on. -/
theorem canMove_of_holds {u : T} (hholds : (s.thread u).pc.holds = true)
    (halive : (s.thread u).pc.cancelled = false) : s.CanMove := by
  cases hpc : (s.thread u).pc with
  | set => exact ⟨u, .set, _, rfl, if_pos hpc⟩
  | broadcast => exact ⟨u, .broadcast, _, rfl, if_pos hpc⟩
  | unlockSet => exact ⟨u, .unlock, { s.move u .idle with owner := none }, rfl, by
      simp only [finishedNext, hpc]⟩
  | test =>
    cases hset : s.finished with
    | false => exact ⟨u, .test, { s.move u .waiting with owner := none }, rfl, by
        simp [finishedNext, hpc, hset]⟩
    | true => exact ⟨u, .test, s.move u .read, rfl, by simp [finishedNext, hpc, hset]⟩
  | read => exact ⟨u, .read, _, rfl, if_pos hpc⟩
  | unlockTest rv => exact ⟨u, .unlock, { s.move u .idle with
      owner := none
      log := s.log ++ [(u, ⟨rv, (s.thread u).before, (s.thread u).woken⟩)] }, rfl, by
      simp only [finishedNext, hpc]⟩
  | idle | lockSet | lockTest | waiting | relock | dying | dead =>
    simp_all [FinishedPc.holds, FinishedPc.cancelled]

/-- **No call is stuck** while nobody has been cancelled. -/
theorem FinishedInv.canMove (h : FinishedInv s) (halive : ∀ u, (s.thread u).pc.cancelled = false)
    (hcall : (s.thread t).pc ≠ .idle) : s.CanMove := by
  cases howner : s.owner with
  | some u => exact canMove_of_holds ((h.owner u).mpr howner) (halive u)
  | none =>
    have hlock : ∀ pc, (s.thread t).pc.locked = some pc → s.CanMove := fun pc hlocked =>
      ⟨t, .lock, { s.move t pc with owner := some t }, rfl, by simp [finishedNext, hlocked, howner]⟩
    have hnot : (s.thread t).pc.holds = false := by
      cases hholds : (s.thread t).pc.holds with
      | false => rfl
      | true =>
        rw [(h.owner t).mp hholds] at howner
        cases howner
    cases hpc : (s.thread t).pc with
    | lockSet => exact hlock .set (by rw [hpc]; rfl)
    | lockTest => exact hlock .test (by rw [hpc]; rfl)
    | relock => exact hlock .read (by rw [hpc]; rfl)
    | waiting => exact ⟨t, .wakeUp, _, rfl, if_pos hpc⟩
    | idle => exact absurd hpc hcall
    | dying =>
      have ht := halive t
      rw [hpc] at ht
      cases ht
    | set | broadcast | unlockSet | test | read | dead =>
      rw [hpc] at hnot
      cases hnot
    | unlockTest rv =>
      rw [hpc] at hnot
      cases hnot

/-- **The finished flag is seen.**  In every run in which no thread is cancelled in its wait, any
number of threads may set the flag and ask for it: one at a time has the mutex; a call that has
returned 0 was made before the flag was set and was not woken by a broadcast, and one that has
returned 1 returned what the flag is; a thread waits on although the flag is set only while the
thread that set it has yet to broadcast; and some call that is under way can always go on. -/
theorem finished_seen (h : ReachableUnder (finishedSystem T) notCancelled s) :
    (∀ t u, (s.thread t).pc.holds = true → (s.thread u).pc.holds = true → t = u) ∧
      (∀ e ∈ s.log, (e.2.rv = false → e.2.before = false ∧ e.2.woken = false) ∧
        (e.2.rv = true → s.finished = true)) ∧
      (s.finished = true → ∀ t, (s.thread t).pc = .waiting →
        ∃ u, (s.thread u).pc = .broadcast) ∧
      ((∃ t, (s.thread t).pc ≠ .idle) → s.CanMove) := by
  have hinv := finishedInv_reachable h.reachable
  refine ⟨fun t u ht hu => ?_, fun e he => ⟨(hinv.log e he).zero, (hinv.log e he).one⟩,
    hinv.awaited, ?_⟩
  · have htu := (hinv.owner t).mp ht
    rw [(hinv.owner u).mp hu] at htu
    exact (Option.some.inj htu).symm
  · rintro ⟨t, ht⟩
    exact hinv.canMove (notCancelled_reachable h) ht

/-! ### Two threads -/

instance (s : FinishedState T) (a : T × FinishedAction) : Decidable (notCancelled s a) :=
  inferInstanceAs (Decidable (a.2 ≠ .cancel))

def finishedStart : FinishedState Bool := ⟨none, false, fun _ => ⟨.idle, false, false⟩, []⟩

theorem finishedStart_reachable :
    ReachableUnder (finishedSystem Bool) notCancelled finishedStart :=
  .init ⟨rfl, rfl, fun _ => rfl, rfl⟩

/-- One thread asks and waits, the other sets the flag and wakes it. -/
def askAndSet : List (Bool × FinishedAction) :=
  [(true, .callFinished), (false, .callSet), (true, .lock), (true, .test), (false, .lock),
    (false, .set), (false, .broadcast), (false, .unlock), (true, .lock), (true, .read),
    (true, .unlock)]

def finishedEnd : FinishedState Bool :=
  (runUnder (finishedSystem Bool) notCancelled finishedStart askAndSet).getD finishedStart

theorem finishedEnd_reachable : ReachableUnder (finishedSystem Bool) notCancelled finishedEnd :=
  finishedStart_reachable.run_getD askAndSet

theorem finished_seen_askAndSet : finishedEnd.log.map (fun e => (e.1, e.2.rv)) = [(true, true)] ∧
    ((∀ t u, (finishedEnd.thread t).pc.holds = true → (finishedEnd.thread u).pc.holds = true →
        t = u) ∧
      (∀ e ∈ finishedEnd.log, (e.2.rv = false → e.2.before = false ∧ e.2.woken = false) ∧
        (e.2.rv = true → finishedEnd.finished = true)) ∧
      (finishedEnd.finished = true → ∀ t, (finishedEnd.thread t).pc = .waiting →
        ∃ u, (finishedEnd.thread u).pc = .broadcast) ∧
      ((∃ t, (finishedEnd.thread t).pc ≠ .idle) → finishedEnd.CanMove)) :=
  ⟨rfl, finished_seen finishedEnd_reachable⟩

section Returns

variable [Fintype T]

/-- How many steps are left to the calls under way. -/
def FinishedState.stepsLeft (s : FinishedState T) : ℕ := ∑ t, (s.thread t).pc.rank

theorem FinishedThread.awake_rank (th : FinishedThread) : th.awake.pc.rank ≤ th.pc.rank := by
  unfold FinishedThread.awake
  split
  · rename_i hpc
    simp [hpc, FinishedPc.rank]
  · exact le_rfl

omit [DecidableEq T] in
theorem FinishedFrame.stepsLeft {a : FinishedAction} (h : FinishedFrame s t a s')
    (ha : a.inCall = true) : s'.stepsLeft < s.stepsLeft := by
  refine Finset.sum_lt_sum (fun u _ => ?_) ⟨t, Finset.mem_univ t, h.rank ha⟩
  rcases eq_or_ne u t with rfl | hu
  · exact (h.rank ha).le
  · rcases h.others u hu with heq | heq <;> rw [heq]
    exact FinishedThread.awake_rank _

theorem FinishedPc.rank_le (pc : FinishedPc) : pc.rank ≤ 6 := by
  cases pc <;> simp [FinishedPc.rank]

omit [DecidableEq T] in
theorem FinishedState.stepsLeft_le (s : FinishedState T) :
    s.stepsLeft ≤ 6 * Fintype.card T := by
  calc s.stepsLeft ≤ ∑ _t : T, 6 := Finset.sum_le_sum fun t _ => (s.thread t).pc.rank_le
    _ = 6 * Fintype.card T := by rw [Finset.sum_const, Finset.card_univ, smul_eq_mul, mul_comm]

/-- A run of steps of calls under way is as long as there are steps left. -/
theorem length_le_stepsLeft {as : List (T × FinishedAction)} :
    ∀ {s s' : FinishedState T}, (∀ a ∈ as, FinishedAction.inCall a.2 = true) →
      run (finishedSystem T) s as = some s' → as.length + s'.stepsLeft ≤ s.stepsLeft := by
  induction as with
  | nil =>
    intro s s' _ hrun
    obtain rfl : s = s' := by simpa [run] using hrun
    exact (Nat.zero_add _).le
  | cons a as ih =>
    intro s s' hcall hrun
    obtain ⟨m, hm, hrest⟩ := Option.bind_eq_some_iff.mp hrun
    have hfirst := (finishedNext_frame hm).stepsLeft (hcall a (List.mem_cons_self ..))
    have hlater := ih (fun b hb => hcall b (List.mem_cons_of_mem _ hb)) hrest
    rw [List.length_cons]
    omega

/-- **Every call returns.**  From any state that a run without cancellation reaches, the calls that
are under way take at most six steps a thread, in whatever order; and where they can take no
more, they have all returned. -/
theorem finished_returns (h : ReachableUnder (finishedSystem T) notCancelled s)
    {as : List (T × FinishedAction)} (hcall : ∀ a ∈ as, FinishedAction.inCall a.2 = true)
    (hrun : run (finishedSystem T) s as = some s') :
    as.length ≤ 6 * Fintype.card T ∧ (¬ s'.CanMove → ∀ t, (s'.thread t).pc = .idle) := by
  refine ⟨?_, fun hstuck t => ?_⟩
  · have hsteps := length_le_stepsLeft hcall hrun
    have hbound := s.stepsLeft_le
    omega
  · have hend : ReachableUnder (finishedSystem T) notCancelled s' := by
      refine h.run_of_forall (fun a ha _ => ?_) hrun
      intro hcancel
      have hin := hcall a ha
      rw [hcancel] at hin
      cases hin
    by_contra hpc
    exact hstuck ((finishedInv_reachable hend.reachable).canMove (notCancelled_reachable hend) hpc)

/-- Both calls have been made. -/
def finishedCalled : FinishedState Bool :=
  (runUnder (finishedSystem Bool) notCancelled finishedStart (askAndSet.take 2)).getD finishedStart

theorem finishedCalled_reachable :
    ReachableUnder (finishedSystem Bool) notCancelled finishedCalled :=
  finishedStart_reachable.run_getD _

theorem finished_returns_askAndSet : (askAndSet.drop 2).length ≤ 6 * Fintype.card Bool ∧
    (¬ finishedEnd.CanMove → ∀ t, (finishedEnd.thread t).pc = .idle) :=
  finished_returns finishedCalled_reachable (by decide) rfl

end Returns

/-- What a dead thread leaves: the mutex is its own for good. -/
structure LeftLocked (t : T) (s s' : FinishedState T) : Prop where
  dead : (s'.thread t).pc = .dead
  finished : s'.finished = s.finished
  log : s'.log = s.log

theorem LeftLocked.next {s₀ : FinishedState T} (h : LeftLocked t s₀ s) (hinv : FinishedInv s)
    {u : T} {a : FinishedAction} (hn : finishedNext s u a = some s') : LeftLocked t s₀ s' := by
  have hframe := finishedNext_frame hn
  have howner : s.owner = some t := (hinv.owner t).mp (by rw [h.dead]; rfl)
  have hut : t ≠ u := by
    rintro rfl
    exact hframe.alive h.dead
  have houtside : (s.thread u).pc.holds = false := by
    cases hholds : (s.thread u).pc.holds with
    | false => rfl
    | true =>
      rw [(hinv.owner u).mp hholds] at howner
      exact absurd (Option.some.inj howner).symm hut
  obtain ⟨hfinished, hlog, _⟩ := hframe.outside houtside
  refine ⟨?_, hfinished.trans h.finished, hlog.trans h.log⟩
  rcases hframe.others t hut with heq | heq <;> rw [heq]
  · exact h.dead
  · have hpc := h.dead
    unfold FinishedThread.awake
    rwa [if_neg (by simp [hpc])]

/-- **A wait that is cancelled blocks the others.**  Nothing unlocks the mutex that a thread
cancelled in `hashpipe_thread_finished` has taken again: however the run goes on, the mutex stays
with it, the flag stays as it was, no call returns and no thread passes
`pthread_mutex_lock`. -/
theorem cancelled_wait_blocks (h : Reachable (finishedSystem T) s)
    (hdead : (s.thread t).pc = .dead) {as : List (T × FinishedAction)}
    (hrun : run (finishedSystem T) s as = some s') :
    s'.owner = some t ∧ s'.finished = s.finished ∧ s'.log = s.log ∧
      ∀ u, u ≠ t → (s'.thread u).pc.holds = false := by
  have hleft : LeftLocked t s s' ∧ FinishedInv s' := by
    have hstart : LeftLocked t s s := ⟨hdead, rfl, rfl⟩
    have hstep : ∀ r a r', LeftLocked t s r ∧ FinishedInv r →
        (finishedSystem T).next r a = some r' → LeftLocked t s r' ∧ FinishedInv r' :=
      fun r a r' hi (hn : finishedNext r a.1 a.2 = some r') => ⟨hi.1.next hi.2 hn, hi.2.next hn⟩
    exact run_invariant hstep ⟨hstart, finishedInv_reachable h⟩ hrun
  obtain ⟨hleft, hinv⟩ := hleft
  have howner : s'.owner = some t := (hinv.owner t).mp (by rw [hleft.dead]; rfl)
  refine ⟨howner, hleft.finished, hleft.log, fun u hu => ?_⟩
  cases hholds : (s'.thread u).pc.holds with
  | false => rfl
  | true =>
    rw [(hinv.owner u).mp hholds] at howner
    exact absurd (Option.some.inj howner) hu

/-- Cancelled in its wait. -/
def finishedDead : FinishedState Bool :=
  (run (finishedSystem Bool) finishedStart [(true, .callFinished), (true, .lock), (true, .test),
    (true, .cancel), (true, .lock)]).getD finishedStart

/-- The other thread is in `pthread_mutex_lock`. -/
def finishedBlocked : FinishedState Bool :=
  (run (finishedSystem Bool) finishedDead [(false, .callSet)]).getD finishedStart

theorem cancelled_wait_blocks_set :
    finishedBlocked.owner = some true ∧ finishedBlocked.finished = finishedDead.finished ∧
      finishedBlocked.log = finishedDead.log ∧
      ∀ u, u ≠ true → (finishedBlocked.thread u).pc.holds = false := by
  have hrun : run (finishedSystem Bool) finishedDead [(false, .callSet)] = some finishedBlocked :=
    rfl
  exact cancelled_wait_blocks (finishedStart_reachable.reachable.run_getD _) rfl hrun

end Invariant

end Hashpipe
