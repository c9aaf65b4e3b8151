import Hashpipe.Status.Sections
import Hashpipe.Status.ValueMap

/-!
# The shared status buffer as a map of values

`Sections` and `ValueMap` put together: any number of threads put, delete and get under the
lock, each call being any number of accesses to the bytes, and to all of them the buffer is one
map of values.  A call takes effect at one point between its lock and its unlock, and the log
lists the calls in that order; what a get has returned is the text of the value that the map had
then.
-/

namespace Hashpipe.Status

open ByteMemory StepSystem CriticalSection

inductive ValueOp
  | update (op : StatusOp)
  | get (key : PutKey)

/-- The buffer after the call, and the text that a getter finds. -/
def ValueOp.effect (m : Mem) : ValueOp → Except Fault (Mem × Option (List UInt8))
  | update op => (op.run m).map fun r => (r.2, none)
  | get key => .ok (m, hgetc m key.text)

/-- What the call does to the map. -/
def ValueMap.next (M : ValueMap) : ValueOp → ValueMap
  | .update op => M.apply op
  | .get _ => M

/-- What the call returns, in terms of the map. -/
def ValueMap.answer (M : ValueMap) : ValueOp → Option (List UInt8)
  | .update _ => none
  | .get key => (M.lookup key.pre).map StatusVal.text

/-- The calls one after the other, on the map. -/
def MapCalls {T : Type} : ValueMap → List (T × ValueOp × Option (List UInt8)) → ValueMap → Prop
  | M, [], M' => M' = M
  | M, (_, op, result) :: log, M' => result = M.answer op ∧ MapCalls (M.next op) log M'

/-- At most 2300 keys, if the buffer holds a map. -/
def Roomy (m : Mem) : Prop := ∀ n spare M, Holds m n spare M → 80 * (M.keys.card + 4) ≤ totalSize

/-- Where a call may be started. -/
def ValueOp.pre (m : Mem) (_ : ValueOp) : Prop := Roomy m

section Calls

variable {m : Mem} {n spare : ℕ} {M : ValueMap}

/-- A buffer holds maps of one size only. -/
theorem Holds.roomy (h : Holds m n spare M) (hroom : 80 * (M.keys.card + 4) ≤ totalSize) :
    Roomy m := by
  intro n' spare' M' h'
  have hend := h.ledger.ksearch_end
  rw [h'.ledger.ksearch_end] at hend
  have hsame := Option.some.inj hend
  rw [h.card_keys] at hroom
  rw [h'.card_keys]
  omega

theorem ValueMap.card_next (M : ValueMap) (op : ValueOp) :
    (M.next op).keys.card ≤ M.keys.card + 1 := by
  cases op with
  | get key => exact Nat.le_succ _
  | update op =>
    cases op with
    | put key val =>
      have hsub : (M.insert key.pre val).keys ⊆ insert key.pre M.keys := by
        intro pre hpre
        rcases Finmap.mem_insert.mp (Finmap.mem_keys.mp hpre) with heq | hmem
        · exact Finset.mem_insert.mpr (.inl heq)
        · exact Finset.mem_insert_of_mem (Finmap.mem_keys.mpr hmem)
      exact (Finset.card_le_card hsub).trans (Finset.card_insert_le _ _)
    | del key =>
      have hsub : (M.erase key.pre).keys ⊆ M.keys := fun pre hpre =>
        Finmap.mem_keys.mpr (Finmap.mem_erase.mp (Finmap.mem_keys.mp hpre)).2
      exact (Finset.card_le_card hsub).trans (Nat.le_succ _)

/-- **One call** is one step of the map, and a get finds what the map has. -/
theorem Holds.call (h : Holds m n spare M) (op : ValueOp)
    (hroom : 80 * (M.keys.card + 3) ≤ totalSize) :
    ∃ m' n' spare', op.effect m = .ok (m', M.answer op) ∧ Holds m' n' spare' (M.next op) := by
  cases op with
  | update op =>
    obtain ⟨rc, m', n', spare', hrun, hholds⟩ := h.step op hroom
    refine ⟨m', n', spare', ?_, hholds⟩
    rw [ValueOp.effect, hrun]
    rfl
  | get key =>
    refine ⟨m, n, spare, ?_, h⟩
    have hget : hgetc m key.text = (M.lookup key.pre).map StatusVal.text := by
      cases hv : M.lookup key.pre with
      | none => exact h.hgetc_missing hroom hv
      | some v => exact h.hgetc_present hv
    rw [ValueOp.effect, hget]
    rfl

theorem cleared_roomy (m : Mem) (instanceId : Int32) : Roomy (clearedBuffer m instanceId) := by
  have hholds := clear_holds m instanceId
  refine hholds.roomy ?_
  rw [hholds.card_keys]
  decide

/-- A call where one key is, leaves room for the next. -/
theorem Holds.roomy_next (h : Holds m 1 spare M) (op : ValueOp) :
    Roomy (outcome ValueOp.effect m op).1 := by
  have htotal : totalSize = 184320 := rfl
  have hone := h.card_keys
  obtain ⟨m', n', spare', heffect, hholds⟩ := h.call op (by omega)
  have hcard := M.card_next op
  rw [outcome_ok heffect]
  exact hholds.roomy (by omega)

/-- The library's serial runs are runs of the map. -/
theorem mapCalls_of_serial {T : Type} {body : ValueOp → Procedure Mem (Option (List UInt8))}
    (hbody : Implements ValueOp.effect body) {log : List (T × ValueOp × Option (List UInt8))} {m' : Mem}
    (hholds : Holds m n spare M) (hroom : 80 * (M.keys.card + 3) ≤ totalSize)
    (h : Serial body ValueOp.pre m log m') :
    ∃ n' spare' M', MapCalls M log M' ∧ Holds m' n' spare' M' ∧
      80 * (M'.keys.card + 3) ≤ totalSize := by
  induction log generalizing m n spare M with
  | nil =>
    obtain rfl : m' = m := h
    exact ⟨n, spare, M, rfl, hholds, hroom⟩
  | cons entry log ih =>
    obtain ⟨t, op, result⟩ := entry
    obtain ⟨hpre, hresult, hrest⟩ := h
    obtain ⟨next, n₁, spare₁, heffect, hnext⟩ := hholds.call op hroom
    have hrun := hbody m op _ heffect
    rw [hrun] at hresult hrest
    have hcard := M.card_next op
    have hfits := hpre n spare M hholds
    obtain ⟨n', spare', M', hcalls, hholds', hroom'⟩ := ih hnext (by omega) hrest
    exact ⟨n', spare', M', ⟨hresult.symm, hcalls⟩, hholds', hroom'⟩

end Calls

section Shared

variable {T : Type} [DecidableEq T]

/-- The threads at the buffer. -/
def mapSystem (body : ValueOp → Procedure Mem (Option (List UInt8))) (m₀ : Mem) :
    System (Shared T (LockState T) ValueOp Mem (Option (List UInt8)))
      (Move T LockAction ValueOp) := sharedSystem (statusGuard T) body m₀

/-- No thread breaks the lock, and a call is started where there is room. -/
def mapOk (s : Shared T (LockState T) ValueOp Mem (Option (List UInt8)))
    (a : Move T LockAction ValueOp) : Prop := moveOk (statusGuard T) ValueOp.pre s a

/-- **The shared buffer is linearizable.**  After a clear, and however the accesses of the
threads' calls under the lock interleave, the calls that have returned are steps of one map in the
order of their returns, each get having returned the map's text; and while no call is under way
every getter of every key reads what that map has. -/
theorem status_linearizable {body : ValueOp → Procedure Mem (Option (List UInt8))}
    (hbody : Implements ValueOp.effect body) (buf : Mem) (instanceId : Int32)
    {s : Shared T (LockState T) ValueOp Mem (Option (List UInt8))}
    (h : ReachableUnder (mapSystem body (clearedBuffer buf instanceId)) mapOk s) :
    ∃ M, MapCalls (clearedValues instanceId) s.log M ∧
      ((∀ t, s.current t = none) → ∀ k : PutKey,
        (∀ v, M.lookup k.pre = some v → ReadsValue s.store k v) ∧
          (M.lookup k.pre = none → MissingValue s.store k)) := by
  obtain ⟨base, hinv⟩ := Shared.serial h
  have hclear := clear_holds buf instanceId
  have hroom : 80 * ((clearedValues instanceId).keys.card + 3) ≤ totalSize := by
    rw [hclear.card_keys]
    decide
  obtain ⟨n, spare, M, hcalls, hholds, hroom⟩ := mapCalls_of_serial hbody hclear hroom hinv.serial
  refine ⟨M, hcalls, fun hidle k => ?_⟩
  rw [hinv.idle hidle]
  exact ⟨fun v hv => readsValue_of_hgetc (hholds.hgetc_present hv), fun hv =>
    missingValue_of_hgetc (hholds.hgetc_missing hroom hv)⟩

end Shared

/-! ### A put by one thread and a get by the other -/

/-- Two threads at a buffer that has been cleared. -/
def mapStart : Shared Bool (LockState Bool) ValueOp Mem (Option (List UInt8)) :=
  ⟨lockFree, clearedBuffer noBytes 3, fun _ => none, []⟩

def putGain : ValueOp := .update (.put gainKey (.integer (.i4 8)))

def getGain : ValueOp := .get gainKey

/-- One thread has put GAIN and the other has asked for it. -/
def mapEnd : Shared Bool (LockState Bool) ValueOp Mem (Option (List UInt8)) :=
  (mapStart.called (readThenWrite ValueOp.effect) false putGain).called
    (readThenWrite ValueOp.effect) true getGain

theorem mapEnd_reachable :
    ReachableUnder (mapSystem (readThenWrite ValueOp.effect) (clearedBuffer noBytes 3)) mapOk
      mapEnd :=
  two_calls (fun _ _ _ hok => hok) (fun _ _ => trivial) start_reachable rfl (fun _ => rfl)
    (cleared_roomy noBytes 3) ((clear_holds noBytes 3).roomy_next putGain)

theorem status_linearizable_gain :
    ∃ M, MapCalls (clearedValues 3) mapEnd.log M ∧
      ((∀ t, mapEnd.current t = none) → ∀ k : PutKey,
        (∀ v, M.lookup k.pre = some v → ReadsValue mapEnd.store k v) ∧
          (M.lookup k.pre = none → MissingValue mapEnd.store k)) :=
  status_linearizable (readThenWrite_implements ValueOp.effect) noBytes 3 mapEnd_reachable

end Hashpipe.Status
