import Mathlib.Tactic
import Mathlib.Data.Fintype.Card
import Hashpipe.Library.StepSystem

/-!
# The status buffer lock

`hashpipe_status.h` and `hashpipe_status.c`: the lock is one POSIX semaphore, 1 when
the buffer is free.  `hashpipe_status_lock_safe` pushes `hashpipe_status_unlock` as a
cleanup handler *before* it waits, so that a thread cancelled inside a critical section
gives the lock back; the callers ignore what the lock call returns.

`hashpipe_status_unlock` first reads the value and posts only if it is below 1.  The
read tells that *somebody* holds the lock, not who: a thread cancelled while it waits
runs the handler too, and releases the lock of the thread it was waiting for
(`waiter_releases_other`).  Where that does not happen the semaphore implements the
mutex `mutexSystem`.
-/

namespace Hashpipe.Status

open StepSystem

variable {T : Type}

inductive LockPc
  | idle
  /-- In `sem_wait`. -/
  | waiting
  /-- In the loop around `sem_trywait`. -/
  | trying
  | critical
  /-- In `hashpipe_status_unlock`, before `sem_getvalue`. -/
  | unlocking
  /-- After a failed `sem_getvalue`: the two messages, then `lock_val = 0`. -/
  | reporting
  | posting
  /-- The value was 1 already. -/
  | warning
  | exited
  deriving DecidableEq

/-- One thread: where it is, whether the cleanup handler is pushed, whether it is
running it, and (history) whether its own wait has taken the lock. -/
structure LockThread where
  pc : LockPc
  handler : Bool
  exiting : Bool
  owns : Bool
  deriving DecidableEq

inductive LockAction
  /-- Call `hashpipe_status_lock` or its busywait sibling, `_safe` or plain. -/
  | enter (safe busywait : Bool)
  | semWait
  /-- `EINTR` and the like; the return value goes nowhere. -/
  | semWaitFails
  /-- One `sem_trywait`. -/
  | semTrywait
  | semTrywaitFails
  /-- The end of the critical section: call `hashpipe_status_unlock`. -/
  | leave
  | semGetvalue
  | semGetvalueFails
  | report
  | semPost
  | warn
  /-- The thread is cancelled at a cancellation point. -/
  | cancel
  deriving DecidableEq

/-- `hashpipe_status_unlock` returns, to the pop of the handler or out of it. -/
def LockThread.unlocked (th : LockThread) : LockThread :=
  { th with pc := if th.exiting then .exited else .idle, handler := false }

/-- Unwinding runs the handler if it is pushed. -/
def LockThread.cancelled (th : LockThread) : LockThread :=
  { th with pc := if th.handler then .unlocking else .exited, handler := false, exiting := true }

/-- The cancellation points: `sem_wait`, the writes to stderr, and whatever the code
outside the lock calls does.  A thread that unwinds is not cancelled again. -/
def LockThread.cancellable (th : LockThread) : Bool :=
  !th.exiting && match th.pc with
    | .idle | .waiting | .critical | .reporting | .warning => true
    | .trying | .unlocking | .posting | .exited => false

/-- One atomic step of one thread, on the value of the semaphore and its own state. -/
def lockStep (sem : ℕ) (th : LockThread) : LockAction → Option (ℕ × LockThread)
  | .enter safe busywait =>
    if th.pc = .idle then
      some (sem, { th with pc := if busywait then .trying else .waiting, handler := safe })
    else none
  | .semWait =>
    if th.pc = .waiting ∧ 0 < sem then
      some (sem - 1, { th with pc := .critical, owns := true })
    else none
  | .semWaitFails => if th.pc = .waiting then some (sem, { th with pc := .critical }) else none
  | .semTrywait =>
    if th.pc = .trying then
      if 0 < sem then some (sem - 1, { th with pc := .critical, owns := true })
      else some (sem, th)
    else none
  | .semTrywaitFails => if th.pc = .trying then some (sem, { th with pc := .critical }) else none
  | .leave => if th.pc = .critical then some (sem, { th with pc := .unlocking }) else none
  | .semGetvalue =>
    if th.pc = .unlocking then
      some (sem, { th with pc := if sem < 1 then .posting else .warning })
    else none
  | .semGetvalueFails => if th.pc = .unlocking then some (sem, { th with pc := .reporting }) else none
  | .report => if th.pc = .reporting then some (sem, { th with pc := .posting }) else none
  | .semPost =>
    if th.pc = .posting then some (sem + 1, { th.unlocked with owns := false }) else none
  | .warn => if th.pc = .warning then some (sem, th.unlocked) else none
  | .cancel => if th.cancellable then some (sem, th.cancelled) else none

/-- The threads, of one process or several, that share the semaphore. -/
structure LockState (T : Type) where
  sem : ℕ
  thread : T → LockThread

def lockSystem (T : Type) [DecidableEq T] : System (LockState T) (T × LockAction) where
  init s := s.sem = 1 ∧ ∀ t, s.thread t = ⟨.idle, false, false, false⟩
  next s a := (lockStep s.sem (s.thread a.1) a.2).map fun r =>
    ⟨r.1, Function.update s.thread a.1 r.2⟩

/-- The number of threads whose wait has taken the lock and that have not posted. -/
def LockState.holders [Fintype T] (s : LockState T) : ℕ :=
  (Finset.univ.filter fun t => (s.thread t).owns = true).card

/-- At most one thread is in a critical section, and the semaphore counts the holders. -/
def LockState.safe [Fintype T] (s : LockState T) : Prop :=
  (∀ t u, (s.thread t).pc = .critical → (s.thread u).pc = .critical → t = u) ∧
    s.sem + s.holders = 1

/-- The wait calls go through, and a thread runs `hashpipe_status_unlock` without owning
the lock only where `sem_getvalue` tells it that the lock is free. -/
def lockOk (s : LockState T) (a : T × LockAction) : Prop :=
  match a.2 with
  | .semWaitFails | .semTrywaitFails => False
  | .semGetvalue => (s.thread a.1).owns = true ∨ 1 ≤ s.sem
  | .semGetvalueFails => (s.thread a.1).owns = true
  | _ => True

instance (s : LockState T) (a : T × LockAction) : Decidable (lockOk s a) := by
  obtain ⟨t, a⟩ := a
  cases a <;> simp only [lockOk] <;> infer_instance

/-! ### The mutex -/

inductive MutexAction (T : Type)
  | acquire (t : T)
  | release (t : T)

/-- A mutex is free or has one owner, who alone can release it. -/
def mutexSystem (T : Type) [DecidableEq T] : System (Option T) (MutexAction T) where
  init r := r = none
  next
    | none, .acquire t => some (some t)
    | some t, .release u => if t = u then some none else none
    | _, _ => none

/-- Where a thread may be only with the lock. -/
def LockThread.justified (th : LockThread) : Prop :=
  th.pc = .critical ∨ th.pc = .reporting ∨ th.pc = .posting → th.owns = true

/-- The state of the lock when `r` is the state of the mutex. -/
structure LockRel (s : LockState T) (r : Option T) : Prop where
  sem : s.sem = if r.isSome then 0 else 1
  owner : ∀ t, (s.thread t).owns = true ↔ r = some t
  justified : ∀ t, (s.thread t).justified

/-- What one step does to the semaphore and to its own thread: nothing to either, take
the lock, or give back a lock it owns. -/
theorem lockStep_cases {sem sem' : ℕ} {th th' : LockThread} {a : LockAction}
    (hj : th.justified) (hfail : a ≠ .semWaitFails ∧ a ≠ .semTrywaitFails)
    (hget : a = .semGetvalue → th.owns = true ∨ 1 ≤ sem)
    (hgetfail : a = .semGetvalueFails → th.owns = true)
    (h : lockStep sem th a = some (sem', th')) :
    th'.justified ∧
      ((sem' = sem ∧ th'.owns = th.owns) ∨
       (0 < sem ∧ sem' = sem - 1 ∧ th'.owns = true) ∨
       (th.owns = true ∧ sem' = sem + 1 ∧ th'.owns = false)) := by
  cases a with
  | semWaitFails => exact absurd rfl hfail.1
  | semTrywaitFails => exact absurd rfl hfail.2
  | enter safe busywait =>
    simp only [lockStep, Option.ite_none_right_eq_some, Option.some.injEq, Prod.mk.injEq] at h
    obtain ⟨-, rfl, rfl⟩ := h
    exact ⟨by cases busywait <;> simp [LockThread.justified], .inl ⟨rfl, rfl⟩⟩
  | semWait =>
    simp only [lockStep, Option.ite_none_right_eq_some, Option.some.injEq, Prod.mk.injEq] at h
    obtain ⟨⟨-, hpos⟩, rfl, rfl⟩ := h
    exact ⟨fun _ => rfl, .inr (.inl ⟨hpos, rfl, rfl⟩)⟩
  | semTrywait =>
    simp only [lockStep, Option.ite_none_right_eq_some] at h
    obtain ⟨-, h⟩ := h
    by_cases hpos : 0 < sem
    · simp only [if_pos hpos, Option.some.injEq, Prod.mk.injEq] at h
      obtain ⟨rfl, rfl⟩ := h
      exact ⟨fun _ => rfl, .inr (.inl ⟨hpos, rfl, rfl⟩)⟩
    · simp only [if_neg hpos, Option.some.injEq, Prod.mk.injEq] at h
      obtain ⟨rfl, rfl⟩ := h
      exact ⟨hj, .inl ⟨rfl, rfl⟩⟩
  | leave =>
    simp only [lockStep, Option.ite_none_right_eq_some, Option.some.injEq, Prod.mk.injEq] at h
    obtain ⟨-, rfl, rfl⟩ := h
    exact ⟨by simp [LockThread.justified], .inl ⟨rfl, rfl⟩⟩
  | semGetvalue =>
    simp only [lockStep, Option.ite_none_right_eq_some, Option.some.injEq, Prod.mk.injEq] at h
    obtain ⟨-, rfl, rfl⟩ := h
    refine ⟨?_, .inl ⟨rfl, rfl⟩⟩
    rcases hget rfl with hown | hfree
    · exact fun _ => hown
    · simp [LockThread.justified, show ¬ sem < 1 by omega]
  | semGetvalueFails =>
    simp only [lockStep, Option.ite_none_right_eq_some, Option.some.injEq, Prod.mk.injEq] at h
    obtain ⟨-, rfl, rfl⟩ := h
    exact ⟨fun _ => hgetfail rfl, .inl ⟨rfl, rfl⟩⟩
  | report =>
    simp only [lockStep, Option.ite_none_right_eq_some, Option.some.injEq, Prod.mk.injEq] at h
    obtain ⟨hpc, rfl, rfl⟩ := h
    exact ⟨fun _ => hj (.inr (.inl hpc)), .inl ⟨rfl, rfl⟩⟩
  | semPost =>
    simp only [lockStep, Option.ite_none_right_eq_some, Option.some.injEq, Prod.mk.injEq] at h
    obtain ⟨hpc, rfl, rfl⟩ := h
    refine ⟨?_, .inr (.inr ⟨hj (.inr (.inr hpc)), rfl, rfl⟩)⟩
    cases hex : th.exiting <;> simp [LockThread.justified, LockThread.unlocked, hex]
  | warn =>
    simp only [lockStep, Option.ite_none_right_eq_some, Option.some.injEq, Prod.mk.injEq] at h
    obtain ⟨-, rfl, rfl⟩ := h
    refine ⟨?_, .inl ⟨rfl, rfl⟩⟩
    cases hex : th.exiting <;> simp [LockThread.justified, LockThread.unlocked, hex]
  | cancel =>
    simp only [lockStep, Option.ite_none_right_eq_some, Option.some.injEq, Prod.mk.injEq] at h
    obtain ⟨-, rfl, rfl⟩ := h
    refine ⟨?_, .inl ⟨rfl, rfl⟩⟩
    cases hh : th.handler <;> simp [LockThread.justified, LockThread.cancelled, hh]

theorem LockRel.safe [Fintype T] {s : LockState T} {r : Option T} (hR : LockRel s r) :
    s.safe := by
  constructor
  · intro t u ht hu
    have hrt := (hR.owner t).mp (hR.justified t (.inl ht))
    have hru := (hR.owner u).mp (hR.justified u (.inl hu))
    exact Option.some.inj (hrt.symm.trans hru)
  · have hholders : (Finset.univ.filter fun t => (s.thread t).owns = true) = r.toFinset := by
      ext t
      simp [hR.owner t, Option.mem_def]
    rw [LockState.holders, hholders, hR.sem]
    cases r <;> simp

section Refinement

variable [DecidableEq T]

/-- Replacing one thread keeps the relation if the new thread fits the new owner. -/
theorem LockRel.update {s : LockState T} {r r' : Option T} (hR : LockRel s r) {t : T}
    {sem' : ℕ} {th' : LockThread} (hj : th'.justified)
    (hsem : sem' = if r'.isSome then 0 else 1) (howns : th'.owns = true ↔ r' = some t)
    (hothers : ∀ u, u ≠ t → (r = some u ↔ r' = some u)) :
    LockRel ⟨sem', Function.update s.thread t th'⟩ r' where
  sem := hsem
  owner := by
    intro u
    by_cases hu : u = t
    · subst hu
      simpa using howns
    · simpa [Function.update_of_ne hu] using (hR.owner u).trans (hothers u hu)
  justified := by
    intro u
    by_cases hu : u = t
    · subst hu
      simpa using hj
    · simpa [Function.update_of_ne hu] using hR.justified u

/-- **The lock refines the mutex**, as long as no thread runs the unlock on somebody
else's lock. -/
theorem lock_refines_mutex :
    Simulation (lockSystem T) (mutexSystem T) lockOk (LockRel (T := T)) where
  init := by
    intro s ⟨hsem, hthread⟩
    refine ⟨none, rfl, ⟨by simpa using hsem, ?_, ?_⟩⟩
    · intro t
      simp [hthread t]
    · intro t
      simp [hthread t, LockThread.justified]
  step := by
    intro s r ⟨t, a⟩ s' hR hok hstep
    obtain ⟨⟨sem', th'⟩, hlocal, rfl⟩ := Option.map_eq_some_iff.mp hstep
    obtain ⟨hj, heffect⟩ := lockStep_cases (hR.justified t)
      ⟨by rintro rfl; exact hok, by rintro rfl; exact hok⟩
      (by rintro rfl; exact hok) (by rintro rfl; exact hok) hlocal
    rcases heffect with ⟨hsem, howns⟩ | ⟨hpos, hsem, howns⟩ | ⟨howned, hsem, howns⟩
    · refine .inl (hR.update hj (hsem.trans hR.sem) ?_ fun _ _ => Iff.rfl)
      rw [howns]
      exact hR.owner t
    · -- the semaphore was positive, so the mutex was free
      have hfree : r = none := by
        cases r with
        | none => rfl
        | some u => have := hR.sem; simp at this; omega
      subst hfree
      have hone : s.sem = 1 := by simpa using hR.sem
      refine .inr ⟨.acquire t, some t, rfl, hR.update hj ?_ (by simp [howns]) ?_⟩
      · simp [hsem, hone]
      · intro u hu
        simp [Ne.symm hu]
    · have hown : r = some t := (hR.owner t).mp howned
      subst hown
      have hzero : s.sem = 0 := by simpa using hR.sem
      refine .inr ⟨.release t, none, by simp [mutexSystem], hR.update hj ?_ (by simp [howns]) ?_⟩
      · simp [hsem, hzero]
      · intro u hu
        simp [Ne.symm hu]

/-- **The lock excludes** in every run in which no wait fails and no thread without the
lock finds it taken when it unlocks. -/
theorem lock_excludes [Fintype T] {s : LockState T}
    (h : ReachableUnder (lockSystem T) lockOk s) : s.safe := by
  obtain ⟨r, -, hR⟩ := lock_refines_mutex.reachable h
  exact hR.safe

/-- The condition leaves out only runs about to break the lock: a thread that unlocks
without owning, while the lock is taken, goes on to a state that is not safe. -/
theorem unlock_without_lock_breaks [Fintype T] {s : LockState T}
    (h : ReachableUnder (lockSystem T) lockOk s) {t : T}
    (hpc : (s.thread t).pc = .unlocking) (howns : (s.thread t).owns = false) (hsem : s.sem = 0) :
    ∃ s', run (lockSystem T) s [(t, .semGetvalue), (t, .semPost)] = some s' ∧ ¬ s'.safe := by
  have hholders : s.holders = 1 := by
    obtain ⟨r, -, hR⟩ := lock_refines_mutex.reachable h
    have := hR.safe.2
    omega
  refine ⟨⟨1, Function.update s.thread t { (s.thread t).unlocked with owns := false }⟩, ?_, ?_⟩
  · simp [run, lockSystem, lockStep, hpc, hsem, LockThread.unlocked]
  · intro hsafe
    have hsame : LockState.holders ⟨1, Function.update s.thread t
        { (s.thread t).unlocked with owns := false }⟩ = s.holders := by
      refine congrArg Finset.card (Finset.filter_congr fun u _ => ?_)
      by_cases hu : u = t
      · subst hu
        simp [howns]
      · simp [Function.update_of_ne hu]
    have := hsafe.2
    rw [hsame, hholders] at this
    simp at this

end Refinement

/-! ### The waiter that unlocks -/

def lockStart : LockState (Fin 3) := ⟨1, fun _ => ⟨.idle, false, false, false⟩⟩

theorem lockStart_init : (lockSystem (Fin 3)).init lockStart := ⟨rfl, fun _ => rfl⟩

/-- A thread is cancelled in its critical section and another takes over. -/
def handOverRun : List (Fin 3 × LockAction) :=
  [(0, .enter true false), (0, .semWait), (1, .enter true false), (0, .cancel),
   (0, .semGetvalue), (0, .semPost), (1, .semWait)]

def handOverEnd : LockState (Fin 3) :=
  (runUnder (lockSystem (Fin 3)) lockOk lockStart handOverRun).getD lockStart

theorem lock_excludes_handOver : (handOverEnd.thread 1).pc = .critical ∧ handOverEnd.safe :=
  ⟨by decide, lock_excludes ((ReachableUnder.init lockStart_init).run_getD handOverRun)⟩

/-- Thread 0 is in its critical section; thread 1 is cancelled in `sem_wait`, and its
handler lets thread 2 in. -/
def waiterRun : List (Fin 3 × LockAction) :=
  [(0, .enter true false), (0, .semWait), (1, .enter true false), (1, .cancel),
   (1, .semGetvalue), (1, .semPost), (2, .enter true false), (2, .semWait)]

def waiterEnd : LockState (Fin 3) :=
  (run (lockSystem (Fin 3)) lockStart waiterRun).getD lockStart

theorem waiter_releases_other :
    Reachable (lockSystem (Fin 3)) waiterEnd ∧ (waiterEnd.thread 0).pc = .critical ∧
      (waiterEnd.thread 2).pc = .critical ∧ ¬ waiterEnd.safe := by
  have h0 : (waiterEnd.thread 0).pc = .critical := by decide
  have h2 : (waiterEnd.thread 2).pc = .critical := by decide
  refine ⟨(Reachable.init lockStart_init).run_getD waiterRun, h0, h2, fun hsafe => ?_⟩
  exact absurd (hsafe.1 0 2 h0 h2) (by decide)

end Hashpipe.Status
