import Hashpipe.Status.SharedMap

/-!
# A new segment

What `hashpipe_status_attach` makes of the segment that `shmget` has just created, and of one that
others use already: any number of threads attach it, each in its own time, and put, get, delete
and clear it afterwards.  `hashpipe_status_chkinit` looks for END under the lock, so one attach
clears the segment and no other does; all it may change of what others have put is INSTANCE.
-/

namespace Hashpipe.Status

open ByteMemory CNumber StepSystem CriticalSection

inductive SegmentOp
  /-- `hashpipe_status_chkinit`, at the end of `hashpipe_status_attach`. -/
  | attach (instanceId : Int32)
  | clear (instanceId : Int32)
  | call (op : ValueOp)

def SegmentOp.effect (m : Mem) : SegmentOp → Except Fault (Mem × Option (List UInt8))
  | attach instanceId => (hashpipeStatusChkinit m instanceId).map fun m' => (m', none)
  | clear instanceId => (hashpipeStatusClear m instanceId).map fun m' => (m', none)
  | call op => op.effect m

/-- What `hgeti4` makes of a value. -/
def StatusVal.asI4 (v : StatusVal) : Int32 :=
  Int32.ofInt (saturate (-2 ^ 31) (2 ^ 31 - 1) (doubleValue (stripHash v.text)))

/-- An attach sees to INSTANCE. -/
def ValueMap.attached (M : ValueMap) (instanceId : Int32) : ValueMap :=
  if (M.lookup instancePutKey.pre).map StatusVal.asI4 = some instanceId then M
  else M.insert instancePutKey.pre (.integer (.i4 instanceId))

/-- What a call does to the map, if there is one: only an attach or a clear makes it. -/
def SegmentOp.next : Option ValueMap → SegmentOp → Option ValueMap
  | none, attach instanceId => some (clearedValues instanceId)
  | some M, attach instanceId => some (M.attached instanceId)
  | _, clear instanceId => some (clearedValues instanceId)
  | none, call _ => none
  | some M, call op => some (M.next op)

def SegmentOp.answer : Option ValueMap → SegmentOp → Option (List UInt8)
  | some M, call op => M.answer op
  | _, _ => none

/-- The calls one after the other, each of which leaves a map. -/
def SegmentCalls {T : Type} : Option ValueMap → List (T × SegmentOp × Option (List UInt8)) →
    Option ValueMap → Prop
  | M, [], M' => M' = M
  | M, (_, op, result) :: log, M' =>
    ∃ N, op.next M = some N ∧ result = op.answer M ∧ SegmentCalls (some N) log M'

def SegmentOp.isAttach : SegmentOp → Bool
  | attach _ => true
  | _ => false

/-- Where a call may be started: with room, and only an attach on a new segment. -/
def SegmentOp.pre (m : Mem) (op : SegmentOp) : Prop :=
  Roomy m ∧ (op.isAttach = false → ∃ e, findEnd m = some e)

/-- The segment is new, or holds the map. -/
def Stands (m : Mem) : Option ValueMap → Prop
  | none => findEnd m = none
  | some M => ∃ n spare, Holds m n spare M ∧ 80 * (M.keys.card + 3) ≤ totalSize

section Calls

variable {m : Mem} {n spare : ℕ} {M : ValueMap}

/-- A buffer that holds a map is not cleared by an attach. -/
theorem Holds.findEnd (h : Holds m n spare M) : ∃ e, Status.findEnd m = some e := by
  rw [← Option.ne_none_iff_exists']
  intro hnone
  rw [Status.findEnd, Option.map_eq_none_iff, firstFrom_eq_none] at hnone
  have hfits := h.ledger.fits
  have hfalse := hnone n (Nat.zero_le n) (by
    unfold totalSize at hfits ⊢
    unfold recordSize
    omega)
  refine absurd hfalse ?_
  rw [Bool.not_eq_false, List.all_eq_true]
  intro j hj
  have h3 : j < 3 := by simpa using hj
  have hending := h.ledger.ending 0 (Nat.zero_le spare) j (by omega)
  rw [Nat.add_zero] at hending
  rw [beq_iff_eq, recordSize, hending, endByte, if_pos h3]

/-- What an attach finds of INSTANCE. -/
theorem Holds.hgeti4_instance (h : Holds m n spare M)
    (hroom : 80 * (M.keys.card + 3) ≤ totalSize) :
    hgeti4 m instanceKey = (M.lookup instancePutKey.pre).map StatusVal.asI4 := by
  show (hgetc m instancePutKey.text).map _ = _
  cases hv : M.lookup instancePutKey.pre with
  | none =>
    rw [h.hgetc_missing hroom hv]
    rfl
  | some v =>
    rw [h.hgetc_present hv]
    rfl

/-- **An attach** of a buffer in use sees to INSTANCE and to nothing else. -/
theorem Holds.chkinit (h : Holds m n spare M) (instanceId : Int32)
    (hroom : 80 * (M.keys.card + 3) ≤ totalSize) :
    ∃ m' n' spare', hashpipeStatusChkinit m instanceId = .ok m' ∧
      Holds m' n' spare' (M.attached instanceId) := by
  obtain ⟨e, he⟩ := h.findEnd
  have hget := h.hgeti4_instance hroom
  unfold ValueMap.attached
  split
  · rename_i hsame
    exact ⟨m, n, spare, chkinit_keeps he (hget.trans hsame), h⟩
  · rename_i hdiff
    obtain ⟨rc, m', n', spare', hrun, hholds⟩ :=
      h.step (.put instancePutKey (.integer (.i4 instanceId))) hroom
    refine ⟨m', n', spare', ?_, hholds⟩
    rw [chkinit_puts he (by rwa [hget])]
    have hput : hputi4 m instanceKey instanceId = .ok (rc, m') := hrun
    rw [hput]
    rfl

theorem ValueMap.card_attached (M : ValueMap) (instanceId : Int32) :
    (M.attached instanceId).keys.card ≤ M.keys.card + 1 := by
  unfold ValueMap.attached
  split
  · exact Nat.le_succ _
  · exact M.card_next (.update (.put instancePutKey (.integer (.i4 instanceId))))

/-- A cleared segment, whatever it was. -/
theorem stands_cleared (m : Mem) (instanceId : Int32) :
    hashpipeStatusClear m instanceId = .ok (clearedBuffer m instanceId) ∧
      Stands (clearedBuffer m instanceId) (some (clearedValues instanceId)) := by
  have hclear := clear_holds m instanceId
  refine ⟨(clear_wellFormed m instanceId).1, 1, 0, hclear, ?_⟩
  rw [hclear.card_keys]
  decide

/-- **One call** is one step of the map. -/
theorem Stands.call {M : Option ValueMap} (h : Stands m M) {op : SegmentOp} (hpre : op.pre m) :
    ∃ m' N, op.effect m = .ok (m', op.answer M) ∧ op.next M = some N ∧ Stands m' (some N) := by
  obtain ⟨hroomy, hcall⟩ := hpre
  cases op with
  | clear instanceId =>
    obtain ⟨hrun, hstands⟩ := stands_cleared m instanceId
    refine ⟨_, _, ?_, ?_, hstands⟩
    · rw [SegmentOp.effect, hrun]
      cases M <;> rfl
    · cases M <;> rfl
  | attach instanceId =>
    cases M with
    | none =>
      obtain ⟨hrun, hstands⟩ := stands_cleared m instanceId
      refine ⟨_, _, ?_, rfl, hstands⟩
      rw [SegmentOp.effect, chkinit_clears h, hrun]
      rfl
    | some M =>
      obtain ⟨n, spare, hholds, hroom⟩ := h
      obtain ⟨m', n', spare', hrun, hholds'⟩ := hholds.chkinit instanceId hroom
      have hfits := hroomy n spare M hholds
      have hcard := M.card_attached instanceId
      refine ⟨m', _, ?_, rfl, n', spare', hholds', by omega⟩
      rw [SegmentOp.effect, hrun]
      rfl
  | call op =>
    cases M with
    | none =>
      obtain ⟨e, he⟩ := hcall rfl
      have hnew : Status.findEnd m = none := h
      rw [hnew] at he
      cases he
    | some M =>
      obtain ⟨n, spare, hholds, hroom⟩ := h
      obtain ⟨m', n', spare', heffect, hholds'⟩ := hholds.call op hroom
      have hfits := hroomy n spare M hholds
      have hcard := M.card_next op
      exact ⟨m', _, heffect, rfl, n', spare', hholds', by omega⟩

/-- The library's serial runs are runs of the map. -/
theorem segmentCalls_of_serial {T : Type} {body : SegmentOp → Procedure Mem (Option (List UInt8))}
    (hbody : Implements SegmentOp.effect body) {log : List (T × SegmentOp × Option (List UInt8))} {m m' : Mem}
    {M : Option ValueMap} (hstands : Stands m M) (h : Serial body SegmentOp.pre m log m') :
    ∃ M', SegmentCalls M log M' ∧ Stands m' M' := by
  induction log generalizing m M with
  | nil =>
    obtain rfl : m' = m := h
    exact ⟨M, rfl, hstands⟩
  | cons entry log ih =>
    obtain ⟨t, op, result⟩ := entry
    obtain ⟨hpre, hresult, hrest⟩ := h
    obtain ⟨next, N, heffect, hnext, hstands'⟩ := hstands.call hpre
    have hrun := hbody m op _ heffect
    rw [hrun] at hresult hrest
    obtain ⟨M', hcalls, hend⟩ := ih hstands' hrest
    exact ⟨M', ⟨N, hnext, hresult.symm, hcalls⟩, hend⟩

/-- After the first call there is a map. -/
theorem SegmentCalls.exists_map {T : Type} {log : List (T × SegmentOp × Option (List UInt8))}
    {M M' : Option ValueMap} (h : SegmentCalls M log M') (hlog : log ≠ []) : ∃ N, M' = some N := by
  induction log generalizing M with
  | nil => exact absurd rfl hlog
  | cons entry log ih =>
    obtain ⟨t, op, result⟩ := entry
    obtain ⟨N, -, -, hrest⟩ := h
    cases log with
    | nil => exact ⟨N, hrest⟩
    | cons entry' log => exact ih hrest (List.cons_ne_nil _ _)

end Calls

section Segment

variable {T : Type} [DecidableEq T]

/-- The threads at the segment, which holds `m₀` when it is new. -/
def segmentSystem (body : SegmentOp → Procedure Mem (Option (List UInt8))) (m₀ : Mem) :
    System (Shared T (LockState T) SegmentOp Mem (Option (List UInt8)))
      (Move T LockAction SegmentOp) := sharedSystem (statusGuard T) body m₀

/-- No thread breaks the lock, a call is started where there is room, and a thread attaches the
segment before it does anything else with it. -/
def segmentOk (s : Shared T (LockState T) SegmentOp Mem (Option (List UInt8))) :
    Move T LockAction SegmentOp → Prop
  | .lock t a => lockOk s.lock (t, a)
  | .start t op => Roomy s.store ∧
      (op.isAttach = false → ∃ instanceId result, (t, .attach instanceId, result) ∈ s.log)
  | .access _ => True

variable {body : SegmentOp → Procedure Mem (Option (List UInt8))} {m₀ : Mem}
  {s : Shared T (LockState T) SegmentOp Mem (Option (List UInt8))}

/-- A thread that has attached the segment finds END in it. -/
theorem segment_moves (hbody : Implements SegmentOp.effect body) (hnew : findEnd m₀ = none)
    (h : ReachableUnder (segmentSystem body m₀) segmentOk s) :
    ReachableUnder (segmentSystem body m₀) (moveOk (statusGuard T) SegmentOp.pre) s := by
  induction h with
  | init hs => exact .init hs
  | @step s s' a _ hok hn ih =>
    refine .step a ih ?_ hn
    cases a with
    | lock t a => exact hok
    | access t => trivial
    | start t op =>
      obtain ⟨hroomy, hattached⟩ := hok
      refine ⟨hroomy, fun hop => ?_⟩
      obtain ⟨base, hinv⟩ := Shared.serial ih
      obtain ⟨M, hcalls, hstands⟩ := segmentCalls_of_serial (M := none) hbody hnew hinv.serial
      obtain ⟨instanceId, result, hmem⟩ := hattached hop
      obtain ⟨N, rfl⟩ := hcalls.exists_map (List.ne_nil_of_mem hmem)
      obtain ⟨n, spare, hholds, -⟩ := hstands
      have hstart : (statusGuard T).inside s.lock t ∧ (s.current t).isNone :=
        (Option.ite_none_right_eq_some.mp hn).1
      rw [hinv.store_eq hstart.1 (Option.isNone_iff_eq_none.mp hstart.2)]
      exact hholds.findEnd

/-- **The first attach clears the segment and no other does.**  From a segment without END on,
whatever accesses the calls of the threads consist of and however these interleave, each thread
attaching before it does anything else: the calls that have returned are steps of one map in the
order of their returns, which the first attach has made, which a later attach changes in INSTANCE
alone, and from which every get has returned what was put; and while no call is under way, the
segment is as it was if none has returned, and otherwise every getter of every key reads what the
map has. -/
theorem segment_linearizable (hbody : Implements SegmentOp.effect body) (hnew : findEnd m₀ = none)
    (h : ReachableUnder (segmentSystem body m₀) segmentOk s) :
    ∃ M, SegmentCalls none s.log M ∧ (s.log ≠ [] → ∃ N, M = some N) ∧
      ((∀ t, s.current t = none) → (s.log = [] → s.store = m₀) ∧
        ∀ N, M = some N → ∀ k : PutKey,
          (∀ v, N.lookup k.pre = some v → ReadsValue s.store k v) ∧
            (N.lookup k.pre = none → MissingValue s.store k)) := by
  obtain ⟨base, hinv⟩ := Shared.serial (segment_moves hbody hnew h)
  obtain ⟨M, hcalls, hstands⟩ := segmentCalls_of_serial (M := none) hbody hnew hinv.serial
  refine ⟨M, hcalls, hcalls.exists_map, fun hidle => ⟨fun hlog => ?_, fun N hN k => ?_⟩⟩
  · have hserial := hinv.serial
    rw [hlog] at hserial
    exact (hinv.idle hidle).trans hserial
  · subst hN
    obtain ⟨n, spare, hholds, hroom⟩ := hstands
    rw [hinv.idle hidle]
    exact ⟨fun v hv => readsValue_of_hgetc (hholds.hgetc_present hv), fun hv =>
      missingValue_of_hgetc (hholds.hgetc_missing hroom hv)⟩

end Segment

/-! ### Two threads attach the segment, one puts and the other gets -/

/-- No record of the new segment starts with END. -/
theorem findEnd_noBytes : findEnd noBytes = none := by
  rw [findEnd, Option.map_eq_none_iff, firstFrom_eq_none]
  intro r _ _
  rfl

theorem roomy_noBytes : Roomy noBytes := by
  intro n spare M hholds
  obtain ⟨e, he⟩ := hholds.findEnd
  rw [findEnd_noBytes] at he
  cases he

/-- A call leaves room for the next as long as the map is small. -/
theorem Stands.roomy_next {m : Mem} {M : Option ValueMap} (h : Stands m M) (op : SegmentOp)
    {N : ValueMap} (hpre : op.pre m) (hnext : op.next M = some N) (hcard : N.keys.card ≤ 3) :
    Roomy (outcome SegmentOp.effect m op).1 ∧
      Stands (outcome SegmentOp.effect m op).1 (some N) := by
  obtain ⟨m', N', heffect, hnext', hstands⟩ := h.call hpre
  obtain rfl : N = N' := Option.some.inj (hnext.symm.trans hnext')
  obtain ⟨n, spare, hholds, hroom⟩ := hstands
  have htotal : totalSize = 184320 := rfl
  rw [outcome_ok heffect]
  exact ⟨hholds.roomy (by omega), n, spare, hholds, hroom⟩

def segmentStart : Shared Bool (LockState Bool) SegmentOp Mem (Option (List UInt8)) :=
  ⟨lockFree, noBytes, fun _ => none, []⟩

/-- Both threads have attached the segment. -/
def segmentAttached : Shared Bool (LockState Bool) SegmentOp Mem (Option (List UInt8)) :=
  (segmentStart.called (readThenWrite SegmentOp.effect) false (.attach 3)).called
    (readThenWrite SegmentOp.effect) true (.attach 3)

/-- One thread has put GAIN and the other has asked for it. -/
def segmentEnd : Shared Bool (LockState Bool) SegmentOp Mem (Option (List UInt8)) :=
  (segmentAttached.called (readThenWrite SegmentOp.effect) false (.call putGain)).called
    (readThenWrite SegmentOp.effect) true (.call getGain)

/-- The map after the two attaches, and after the put. -/
def attachedValues : ValueMap := (clearedValues 3).attached 3

theorem attachedValues_card : attachedValues.keys.card ≤ 2 := by
  have hone : (clearedValues 3).keys.card = 1 := (clear_holds noBytes 3).card_keys
  have hcard := (clearedValues 3).card_attached 3
  rw [hone] at hcard
  exact hcard

theorem segmentAttached_stands :
    Roomy (outcome SegmentOp.effect noBytes (.attach 3)).1 ∧
      Roomy segmentAttached.store ∧ Stands segmentAttached.store (some attachedValues) := by
  have hone : (clearedValues 3).keys.card = 1 := (clear_holds noBytes 3).card_keys
  have hcard := attachedValues_card
  have hnew : Stands noBytes none := findEnd_noBytes
  have hfirst := hnew.roomy_next (.attach 3) ⟨roomy_noBytes, fun h => by cases h⟩ rfl
    (by omega)
  exact ⟨hfirst.1, hfirst.2.roomy_next (.attach 3) ⟨hfirst.1, fun h => by cases h⟩ rfl
    (Nat.le_succ_of_le hcard)⟩

theorem segmentAttached_reachable :
    ReachableUnder (segmentSystem (readThenWrite SegmentOp.effect) noBytes) segmentOk
      segmentAttached :=
  two_calls (fun _ _ _ hok => hok) (fun _ _ => trivial) start_reachable rfl (fun _ => rfl)
    ⟨roomy_noBytes, fun h => by cases h⟩ ⟨segmentAttached_stands.1, fun h => by cases h⟩

theorem segmentEnd_reachable :
    ReachableUnder (segmentSystem (readThenWrite SegmentOp.effect) noBytes) segmentOk
      segmentEnd := by
  obtain ⟨-, hroomy, hstands⟩ := segmentAttached_stands
  have hend : ∃ e, findEnd segmentAttached.store = some e := by
    obtain ⟨n, spare, hholds, -⟩ := hstands
    exact hholds.findEnd
  have hcard := attachedValues_card
  have hput := attachedValues.card_next putGain
  have hstored := hstands.roomy_next (.call putGain) ⟨hroomy, fun _ => hend⟩ rfl (by omega)
  have hone : ∃ result, (false, SegmentOp.attach 3, result) ∈ segmentAttached.log :=
    ⟨_, List.mem_cons_self ..⟩
  have htwo : ∃ result, (true, SegmentOp.attach 3, result) ∈ segmentAttached.log :=
    ⟨_, List.mem_cons_of_mem _ (List.mem_cons_self ..)⟩
  refine two_calls (fun _ _ _ hok => hok) (fun _ _ => trivial) segmentAttached_reachable rfl
    (fun _ => rfl) ⟨hroomy, fun _ => ⟨3, hone⟩⟩ ⟨hstored.1, fun _ => ⟨3, ?_⟩⟩
  obtain ⟨result, hmem⟩ := htwo
  exact ⟨result, List.mem_append_left _ hmem⟩

theorem segment_linearizable_gain :
    ∃ M, SegmentCalls none segmentEnd.log M ∧ (segmentEnd.log ≠ [] → ∃ N, M = some N) ∧
      ((∀ t, segmentEnd.current t = none) → (segmentEnd.log = [] →
          segmentEnd.store = noBytes) ∧
        ∀ N, M = some N → ∀ k : PutKey,
          (∀ v, N.lookup k.pre = some v → ReadsValue segmentEnd.store k v) ∧
            (N.lookup k.pre = none → MissingValue segmentEnd.store k)) :=
  segment_linearizable (readThenWrite_implements SegmentOp.effect) findEnd_noBytes
    segmentEnd_reachable

end Hashpipe.Status
