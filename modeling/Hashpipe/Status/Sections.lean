import Hashpipe.Library.CriticalSection
import Hashpipe.Status.Lock
import Hashpipe.Status.Strings

/-!
# The buffer under its lock

Any number of threads, of one process or several, work on the status buffer between
`hashpipe_status_lock` and `hashpipe_status_unlock`: the tools and the pipeline threads put,
delete, clear and get.  None of these functions is atomic, and what they read and write one after
the other is left open.

`status_sections_serial`: in all their interleavings the buffer is what the calls that have
returned make of it one after the other, each get has returned the value that was in the buffer
then, and the buffer is well formed whenever no call is under way.
-/

namespace Hashpipe.Status

open ByteMemory StepSystem CriticalSection

/-- A call inside the lock. -/
inductive BufferOp
  | update (op : ToolOp)
  | get (keyword : CString)

/-- The buffer after the call, and what a get returns. -/
def BufferOp.effect (m : Mem) : BufferOp → Except Fault (Mem × Option (List UInt8))
  | update op => (op.run m).map fun m' => (m', none)
  | get keyword => .ok (m, hgetc m keyword)

/-- When a call keeps the buffer well formed: a record has room, and the update meets its own
condition; a get's copy of its keyword has an end. -/
def BufferOp.Meets (m : Mem) (n : ℕ) : BufferOp → Prop
  | update op => 80 * (n + 2) ≤ totalSize ∧ op.Meets m n
  | get keyword => KeywordCopied keyword

/-- A call is started where it keeps the buffer well formed, if it is. -/
def BufferOp.pre (m : Mem) (op : BufferOp) : Prop := ∀ n, WellFormed m n → op.Meets m n

/-- The calls one after the other lead from one buffer to another, with these results. -/
def SerialCalls {T : Type} : Mem → List (T × BufferOp × Option (List UInt8)) → Mem → Prop
  | m, [], m' => m' = m
  | m, (_, op, result) :: log, m' =>
    ∃ next, op.effect m = .ok (next, result) ∧ SerialCalls next log m'

/-- A well-formed buffer stays so, and the call does not fault. -/
theorem BufferOp.keeps {m : Mem} {n : ℕ} {op : BufferOp} (h : WellFormed m n) (hop : op.Meets m n) :
    ∃ m' n' result, op.effect m = .ok (m', result) ∧ WellFormed m' n' := by
  cases op with
  | update op =>
    obtain ⟨hroom, hmeets⟩ := hop
    obtain ⟨m', n', hrun, hwf⟩ := (h.runs_iff hroom op).mpr hmeets
    refine ⟨m', n', none, ?_, hwf⟩
    rw [BufferOp.effect, hrun]
    rfl
  | get keyword => exact ⟨m, n, hgetc m keyword, rfl, h⟩

section Lock

variable {T : Type} [DecidableEq T]

/-- A thread is inside in its critical section. -/
def statusGuard (T : Type) [DecidableEq T] : Guard T (LockState T) LockAction where
  lock := lockSystem T
  inside l t := decide ((l.thread t).pc = .critical)
  ok := lockOk
  exclusive := by
    intro l hl t u ht hu
    obtain ⟨r, -, hR⟩ := lock_refines_mutex.reachable hl
    have hrt := (hR.owner t).mp (hR.justified t (.inl (of_decide_eq_true ht)))
    have hru := (hR.owner u).mp (hR.justified u (.inl (of_decide_eq_true hu)))
    exact Option.some.inj (hrt.symm.trans hru)
  frame := by
    intro l t u a l' hne hnext
    obtain ⟨r, -, rfl⟩ := Option.map_eq_some_iff.mp hnext
    show decide ((Function.update l.thread u r.2 t).pc = .critical) = _
    rw [Function.update_of_ne hne]

/-- The threads at the buffer. -/
def bufferSystem (body : BufferOp → Procedure Mem (Option (List UInt8))) (m₀ : Mem) :
    System (Shared T (LockState T) BufferOp Mem (Option (List UInt8)))
      (Move T LockAction BufferOp) := sharedSystem (statusGuard T) body m₀

/-- No thread breaks the lock, and no call is started on a buffer that it does not keep well
formed. -/
def bufferOk (s : Shared T (LockState T) BufferOp Mem (Option (List UInt8)))
    (a : Move T LockAction BufferOp) : Prop := moveOk (statusGuard T) BufferOp.pre s a

variable {body : BufferOp → Procedure Mem (Option (List UInt8))}

/-- A buffer is well formed with one number of records only. -/
theorem WellFormed.records_unique {m : Mem} {n n' : ℕ} (h : WellFormed m n) (h' : WellFormed m n') :
    n = n' := by
  have hend := h.ksearch_end
  rw [h'.ksearch_end] at hend
  have := Option.some.inj hend
  omega

omit [DecidableEq T] in
/-- The library's serial runs, from a well-formed buffer, are calls that do not fault. -/
theorem serialCalls_of_serial (hbody : Implements BufferOp.effect body)
    {log : List (T × BufferOp × Option (List UInt8))} {m m' : Mem} {n : ℕ} (hwf : WellFormed m n)
    (h : Serial body BufferOp.pre m log m') :
    SerialCalls m log m' ∧ ∃ n', WellFormed m' n' := by
  induction log generalizing m n with
  | nil =>
    obtain rfl : m' = m := h
    exact ⟨rfl, n, hwf⟩
  | cons entry log ih =>
    obtain ⟨t, op, result⟩ := entry
    obtain ⟨hpre, hresult, hrest⟩ := h
    obtain ⟨next, n', result', heffect, hnext⟩ := BufferOp.keeps hwf (hpre n hwf)
    have hrun := hbody m op _ heffect
    rw [hrun] at hresult hrest
    obtain rfl : result' = result := hresult
    obtain ⟨hcalls, hwf'⟩ := ih hnext hrest
    exact ⟨⟨next, heffect, hcalls⟩, hwf'⟩

/-- **Calls under the lock are serial**: whatever accesses they consist of, and however the
threads take turns, the buffer is the result of the calls that have returned one after the other,
with what they have returned, and well formed, as long as no call is under way; one that is
under way finds that buffer. -/
theorem status_sections_serial (hbody : Implements BufferOp.effect body) {m₀ : Mem} {n₀ : ℕ}
    (hwf : WellFormed m₀ n₀) {s : Shared T (LockState T) BufferOp Mem (Option (List UInt8))}
    (h : ReachableUnder (bufferSystem body m₀) bufferOk s) :
    ∃ m n, SerialCalls m₀ s.log m ∧ WellFormed m n ∧
      ((∀ t, s.current t = none) → s.store = m) ∧
      ∀ t op p, s.current t = some (op, p) →
        (∀ u, u ≠ t → s.current u = none) ∧ op.effect m = .ok (p.run s.store) := by
  obtain ⟨base, hinv⟩ := Shared.serial h
  obtain ⟨hcalls, n, hbase⟩ := serialCalls_of_serial hbody hwf hinv.serial
  refine ⟨base, n, hcalls, hbase, hinv.idle, fun t op p hp => ?_⟩
  have hinside := hinv.inside t (by rw [hp]; exact Option.some_ne_none _)
  obtain ⟨hpre, hrun⟩ := hinv.current t op p hp
  obtain ⟨next, n', result, heffect, -⟩ := BufferOp.keeps hbase (hpre n hbase)
  refine ⟨fun u hu => hinv.alone hinside hu, ?_⟩
  rw [hrun, hbody base op _ heffect]
  exact heffect

end Lock

/-! ### Two threads, one after the other -/

def lockFree : LockState Bool := ⟨1, fun _ => ⟨.idle, false, false, false⟩⟩

/-- `false` has the lock and `true` waits for it. -/
def lockTaken : LockState Bool :=
  ⟨0, fun t => ⟨if t then .waiting else .critical, true, false, !t⟩⟩

/-- `false` has given the lock back and `true` has it. -/
def lockPassed : LockState Bool :=
  ⟨0, fun t => if t then ⟨.critical, true, false, true⟩ else ⟨.idle, false, false, false⟩⟩

theorem lockFree_taken :
    runUnder (lockSystem Bool) lockOk lockFree
      [(false, .enter true false), (true, .enter true false), (false, .semWait)] =
      some lockTaken := by
  refine congrArg some (congrArg (LockState.mk 0) (funext fun t => ?_))
  cases t <;> rfl

theorem lockTaken_passed :
    runUnder (lockSystem Bool) lockOk lockTaken
      [(false, .leave), (false, .semGetvalue), (false, .semPost), (true, .semWait)] =
      some lockPassed := by
  refine congrArg some (congrArg (LockState.mk 0) (funext fun t => ?_))
  cases t <;> rfl

theorem lockPassed_free :
    runUnder (lockSystem Bool) lockOk lockPassed
      [(true, .leave), (true, .semGetvalue), (true, .semPost)] = some lockFree := by
  refine congrArg some (congrArg (LockState.mk 1) (funext fun t => ?_))
  cases t <;> rfl

instance (l : LockState Bool) (a : Bool × LockAction) : Decidable ((statusGuard Bool).ok l a) :=
  inferInstanceAs (Decidable (lockOk l a))

section TwoThreads

variable {Op ρ : Type} {body : Op → Procedure Mem ρ} {m₀ : Mem}
  {ok : Shared Bool (LockState Bool) Op Mem ρ → Move Bool LockAction Op → Prop}
  {s : Shared Bool (LockState Bool) Op Mem ρ} {op₁ op₂ : Op}

theorem start_reachable : ReachableUnder (sharedSystem (statusGuard Bool) body m₀) ok
    ⟨lockFree, m₀, fun _ => none, []⟩ :=
  .init ⟨⟨rfl, fun _ => rfl⟩, rfl, fun _ => rfl, rfl⟩

/-- Both threads want the lock; `false` has it first, and each makes a call. -/
theorem two_calls (hlock : ∀ s t a, lockOk s.lock (t, a) → ok s (.lock t a))
    (haccess : ∀ s t, ok s (.access t))
    (hs : ReachableUnder (sharedSystem (statusGuard Bool) body m₀) ok s) (hfree : s.lock = lockFree)
    (hidle : ∀ u, s.current u = none) (hok₁ : ok { s with lock := lockTaken } (.start false op₁))
    (hok₂ : ok { s.called body false op₁ with lock := lockPassed } (.start true op₂)) :
    ReachableUnder (sharedSystem (statusGuard Bool) body m₀) ok
      ((s.called body false op₁).called body true op₂) := by
  have htaken := lock_reachable hlock hs hidle (by rw [hfree]; exact lockFree_taken)
  have hfirst := call_reachable (t := false) haccess htaken hidle rfl hok₁
  have hpassed := lock_reachable hlock hfirst hidle lockTaken_passed
  have hsecond := call_reachable (t := true) haccess hpassed hidle rfl hok₂
  have hend := lock_reachable hlock hsecond hidle lockPassed_free
  rw [← hfree] at hend
  exact hend

end TwoThreads

/-- Two threads at a buffer that has been cleared. -/
def sectionStart : Shared Bool (LockState Bool) BufferOp Mem (Option (List UInt8)) :=
  ⟨lockFree, clearedBuffer noBytes 3, fun _ => none, []⟩

def putLevel : BufferOp := .update (.hputi4 levelToolKey 1)

def putRate : BufferOp := .update (.hputi4 rateToolKey 8)

theorem putLevel_effect : putLevel.effect (clearedBuffer noBytes 3) = .ok (levelBuffer, none) := by
  have hput : hputi4 (clearedBuffer noBytes 3) levelToolKey.text 1 = .ok (0, levelBuffer) :=
    levelBuffer_put.1
  rw [putLevel, BufferOp.effect, ToolOp.run, hput]
  rfl

/-- One thread has put LEVEL and the other RATE. -/
def sectionEnd : Shared Bool (LockState Bool) BufferOp Mem (Option (List UInt8)) :=
  (sectionStart.called (readThenWrite BufferOp.effect) false putLevel).called
    (readThenWrite BufferOp.effect) true putRate

theorem sectionEnd_reachable :
    ReachableUnder (bufferSystem (readThenWrite BufferOp.effect) (clearedBuffer noBytes 3))
      bufferOk sectionEnd := by
  refine two_calls (fun _ _ _ hok => hok) (fun _ _ => trivial) start_reachable rfl
    (fun _ => rfl) ?_ ?_
  · intro n hn
    obtain rfl : n = 1 := hn.records_unique (clear_wellFormed noBytes 3).2
    exact ⟨by decide, level_meets⟩
  · have hstore : (outcome BufferOp.effect (clearedBuffer noBytes 3) putLevel).1 =
        levelBuffer := by
      rw [outcome_ok putLevel_effect]
    show BufferOp.pre (outcome BufferOp.effect (clearedBuffer noBytes 3) putLevel).1 putRate
    rw [hstore]
    intro n hn
    obtain rfl : n = 2 := hn.records_unique levelBuffer_put.2
    exact ⟨by decide, rate_meets⟩

/-- What both threads have put is in the buffer. -/
theorem status_sections_serial_levelRate :
    ∃ m n, SerialCalls (clearedBuffer noBytes 3) sectionEnd.log m ∧ WellFormed m n ∧
      ((∀ t, sectionEnd.current t = none) → sectionEnd.store = m) ∧
      ∀ t op p, sectionEnd.current t = some (op, p) →
        (∀ u, u ≠ t → sectionEnd.current u = none) ∧
          op.effect m = .ok (p.run sectionEnd.store) :=
  status_sections_serial (readThenWrite_implements BufferOp.effect) (clear_wellFormed noBytes 3).2
    sectionEnd_reachable

end Hashpipe.Status
