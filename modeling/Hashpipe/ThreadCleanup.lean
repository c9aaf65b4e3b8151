import Hashpipe.Library.CleanupHandlers
import Hashpipe.ThreadRun

/-!
# What a thread gives back

`hashpipe_thread_run` attaches the status buffer and the databufs and pushes a cleanup handler for
each, and `null_output_thread` does so for a databuf of its own.  Both are modelled here call by
call, with the messages, the waits for the lock and the `pthread_testcancel` in which a thread may
be cancelled.  Of the state the model keeps the thread's own mappings, the pointers to them and what
the code tests.  `pthread_cleanup_push` hands `&args->st` to `set_exit_status`, which expects
`args`; that handler is taken to leave all mappings alone.

`thread_gives_back` says what is left mapped when the thread has ended, on whatever way: what
`shmdt` refused, and a status buffer whose `hashpipe_status_attach` had mapped it but did not come to
return `HASHPIPE_OK`.
-/

namespace Hashpipe.ThreadCleanup

open CleanupHandlers

/-- The places of pointers to mappings: `args->st.buf`, `args->ibuf`, `args->obuf` and a local
variable. -/
inductive Slot
  | st
  | ibuf
  | obuf
  | db
  deriving DecidableEq

inductive Pointer
  | null
  /-- `(void *)-1` -/
  | failed
  | segment (a : ℕ)
  deriving DecidableEq

/-- A thread's mappings, those of them that `shmdt` has refused to undo, its pointers, the last
answer of a call, and whether `hashpipe_status_attach` has returned `HASHPIPE_OK` and anything was
detached that was not attached. -/
structure ThreadMaps where
  mine : Finset ℕ
  stuck : Finset ℕ
  ptr : Slot → Pointer
  answer : Option ℕ
  rv : ℤ
  tries : ℕ
  attached : Bool
  stray : Bool

def ThreadMaps.set (s : ThreadMaps) (sl : Slot) (p : Pointer) : ThreadMaps :=
  { s with ptr := Function.update s.ptr sl p }

/-- Calls answer with a number, or `none` for a failure. -/
abbrev ThreadCall := Call ThreadMaps (Option ℕ)

abbrev ThreadCode := Code ThreadMaps (Option ℕ)

/-- A call whose answer is tested. -/
def ask (cancellable : Bool) : ThreadCall := ⟨fun a s => some { s with answer := a }, cancellable⟩

/-- A message on `stderr` or `stdout`. -/
def message : ThreadCode := .call ⟨fun _ s => some s, true⟩

/-- A call that changes nothing here. -/
def quiet : ThreadCode := .call ⟨fun _ s => some s, false⟩

/-- `shmat` maps at an address where the thread has nothing. -/
def shmat : ThreadCall where
  act a s :=
    match a with
    | some n => if n ∈ s.mine then none else some { s with mine := insert n s.mine, answer := a }
    | none => some { s with answer := a }
  cancellable := false

def shmdt (d : ThreadMaps → Pointer) : ThreadCall where
  act a s :=
    match d s with
    | .segment n =>
      if n ∈ s.mine then
        if a.isSome then some { s with mine := s.mine.erase n, answer := a }
        else some { s with stuck := insert n s.stuck, answer := a }
      else some { s with stray := true, answer := a }
    | _ => some { s with answer := none }
  cancellable := false

def answered (s : ThreadMaps) : Bool := s.answer.isSome

/-- `hashpipe_databuf_attach` into a pointer. -/
def hashpipeDatabufAttach (sl : Slot) : ThreadCode :=
  .seq (.assign fun s => s.set sl .null) <|
  .seq (.call (ask true)) <| .test answered
    (.seq (.call (ask false)) <| .test answered
      (.seq (.call shmat) <| .test answered
        (.assign fun s => s.set sl (.segment (s.answer.getD 0)))
        message)
      (.seq (.call (ask false)) (.test answered .skip message)))
    message

/-- `hashpipe_databuf_detach`. -/
def hashpipeDatabufDetach (d : ThreadMaps → Pointer) : ThreadCode :=
  .test (fun s => d s ≠ .null)
    (.seq (.call (shmdt d)) (.test answered .skip message))
    (.assign fun s => { s with answer := some 0 })

/-- `hashpipe_status_detach`. -/
def hashpipeStatusDetach : ThreadCode :=
  .test (fun s => s.ptr .st ≠ .null)
    (.seq (.call (shmdt fun s => s.ptr .st))
      (.test answered (.assign fun s => s.set .st .null) message))
    .skip

/-- `hashpipe_status_unlock`; the value of the semaphore counts as 0 if it cannot be got. -/
def hashpipeStatusUnlock : ThreadCode :=
  .seq (.call (ask false)) <|
  .seq (.test answered .skip
    (.seq message (.seq message (.assign fun s => { s with answer := some 0 })))) <|
  .test (fun s => s.answer = some 0) quiet message

/-- `hashpipe_status_lock`. -/
def hashpipeStatusLock : ThreadCode := .call (ask true)

/-- `hashpipe_status_chkinit`; it gives a warning if INSTANCE has another value. -/
def hashpipeStatusChkinit : ThreadCode :=
  .seq hashpipeStatusLock <| .seq (.call (ask false)) <|
  .seq (.test answered .skip message) <| .seq quiet hashpipeStatusUnlock

/-- `hashpipe_status_attach`; an error of the key is returned as `HASHPIPE_OK`. -/
def hashpipeStatusAttach : ThreadCode :=
  .seq (.call (ask true)) <| .test answered
    (.seq (.call (ask false)) <| .test answered
      (.seq (.call shmat) <| .test answered
        (.seq (.assign fun s => s.set .st (.segment (s.answer.getD 0))) <|
          .seq (.call (ask false)) <| .test answered
            (.seq (.call (ask true)) <| .test answered
              (.seq hashpipeStatusChkinit (.assign fun s => { s with attached := true }))
              message)
            message)
        (.seq (.assign fun s => s.set .st .failed) (.seq message (.seq message message))))
      message)
    (.seq message (.assign fun s => { s with attached := true }))

/-- A put under the lock, with `hashpipe_status_lock_safe` and `hashpipe_status_unlock_safe`. -/
def putSafe : ThreadCode :=
  .bracket (fun _ => hashpipeStatusUnlock)
    (.seq hashpipeStatusLock (.seq quiet hashpipeStatusUnlock))

/-- `set_exit_status`. -/
def setExitStatus (desc : ThreadDesc) : ThreadCode :=
  .test (fun s => s.ptr .st ≠ .null && desc.skey) putSafe .skip

/-- `set_cpu_affinity`. -/
def setCpuAffinity (mask : ℕ) : ThreadCode :=
  .test (fun _ => mask ≠ 0) (.seq (.call (ask false)) (.test answered .skip message))
    (.assign fun s => { s with answer := some 0 })

def failThread : ThreadCode := .seq message (.assign fun s => { s with rv := threadError })

/-- One of the databufs: attached if it is used, with a handler pushed, and detached. -/
def withDatabuf (create : Bool) (sl : Slot) (inner : ThreadCode) : ThreadCode :=
  .seq (.test (fun _ => create)
    (.seq (hashpipeDatabufAttach sl) (.test (fun s => s.ptr sl = .null) failThread .skip)) .skip) <|
  .seq (.bracket (fun s => hashpipeDatabufDetach fun _ => s.ptr sl)
    (.seq inner <| .seq (hashpipeDatabufDetach fun s => s.ptr sl) <|
      .test answered .skip failThread)) <|
  .assign fun s => s.set sl .null

/-- The call of the thread's `run` function, with `hashpipe_thread_set_finished` pushed, and
`clear_run_threads`. -/
def callRun (run : ThreadCode) : ThreadCode :=
  .seq (.bracket (fun _ => quiet) (.seq (.test (fun s => s.rv = threadOk) run .skip) quiet)) quiet

/-- What `hashpipe_thread_run` does with the status buffer attached; the handler pushed is
`set_exit_status`. -/
def withStatus (desc : ThreadDesc) (run : ThreadCode) : ThreadCode :=
  .bracket (fun _ => quiet) <|
    .seq (withDatabuf desc.ibufCreate .ibuf <| withDatabuf desc.obufCreate .obuf <| callRun run)
      (setExitStatus desc)

/-- `hashpipe_thread_run`. -/
def hashpipeThreadRun (desc : ThreadDesc) (run : ThreadCode) : ThreadCode :=
  .seq (setCpuAffinity desc.cpu_mask) <| .test answered
    (.seq hashpipeStatusAttach <| .test (·.attached)
      (.bracket (fun _ => hashpipeStatusDetach) (.seq (withStatus desc run) hashpipeStatusDetach))
      failThread)
    failThread

/-- The attempts of `null_output_thread` to attach to a databuf that may not be there yet. -/
def nullOutputAttach : ThreadCode :=
  .loop (fun s => s.tries < 1000000 && s.ptr .db = .null) <|
    .seq (hashpipeDatabufAttach .db) <| .test (fun s => s.ptr .db = .null)
      (.seq (.call (ask true)) (.assign fun s => { s with tries := s.tries + 1 })) .skip

/-- Its main loop, while `run_threads()`; `hashpipe_databuf_wait_filled` answers with 0 for
`HASHPIPE_OK`, another number for `HASHPIPE_TIMEOUT` and `none` for an error. -/
def nullOutputLoop : ThreadCode :=
  .seq (.call (ask false)) <| .loop answered <|
    .seq putSafe <|
    .seq (.call (ask true)) <|
    .seq (.loop (fun s => s.answer ≠ some 0) <|
      .seq (.test answered putSafe (.seq message .exit)) (.call (ask true))) <|
    .seq putSafe <|
    .seq (.call (ask true)) <|
    .seq (.call (ask true)) (.call (ask false))

/-- `run` of `null_output_thread`. -/
def nullOutputRun : ThreadCode :=
  .seq (.assign fun s => { s.set .db .null with tries := 0 }) <|
  .seq nullOutputAttach <|
  .test (fun s => s.ptr .db = .null) failThread <|
  .seq (.bracket (fun s => hashpipeDatabufDetach fun _ => s.ptr .db)
    (.seq nullOutputLoop (hashpipeDatabufDetach fun s => s.ptr .db)))
  (.assign fun s => { s with rv := threadOk })

/-! ### Code that gives back -/

/-- The mappings and the pointers are the same. -/
structure SameMaps (s₀ s : ThreadMaps) : Prop where
  ptr : s.ptr = s₀.ptr
  mine : s.mine = s₀.mine
  stuck : s.stuck = s₀.stuck
  attached : s.attached = s₀.attached
  stray : s.stray = s₀.stray

/-- The thread has what it had, pointers in `W` apart, and more only if `shmdt` refused it. -/
structure Kept (W : List Slot) (s₀ s : ThreadMaps) : Prop where
  ptr : ∀ sl ∉ W, s.ptr sl = s₀.ptr sl
  attached : s.attached = s₀.attached
  stray : s.stray = s₀.stray
  mine : s₀.mine ⊆ s.mine
  rest : ∀ a ∈ s.mine, a ∈ s₀.mine ∨ a ∈ s.stuck
  stuck : s₀.stuck ⊆ s.stuck

section Kept

variable {W V : List Slot} {s₀ s₁ s : ThreadMaps}

instance : IsPreorder ThreadMaps SameMaps where
  refl _ := ⟨rfl, rfl, rfl, rfl, rfl⟩
  trans _ _ _ h h' := ⟨h'.ptr.trans h.ptr, h'.mine.trans h.mine, h'.stuck.trans h.stuck,
    h'.attached.trans h.attached, h'.stray.trans h.stray⟩

theorem Kept.trans (h : Kept W s₀ s₁) (h' : Kept W s₁ s) : Kept W s₀ s where
  ptr sl hsl := (h'.ptr sl hsl).trans (h.ptr sl hsl)
  attached := h'.attached.trans h.attached
  stray := h'.stray.trans h.stray
  mine := h.mine.trans h'.mine
  rest a ha := by
    rcases h'.rest a ha with hmine | hstuck
    · rcases h.rest a hmine with hold | hold
      · exact .inl hold
      · exact .inr (h'.stuck hold)
    · exact .inr hstuck
  stuck := h.stuck.trans h'.stuck

theorem SameMaps.kept (h : SameMaps s₀ s) : Kept W s₀ s where
  ptr sl _ := by rw [h.ptr]
  attached := h.attached
  stray := h.stray
  mine := by rw [h.mine]
  rest a ha := .inl (by rwa [← h.mine])
  stuck := by rw [h.stuck]

instance : IsPreorder ThreadMaps (Kept W) where
  refl s := (refl (r := SameMaps) s).kept
  trans _ _ _ := Kept.trans

theorem Kept.mono (h : Kept V s₀ s) (hVW : V ⊆ W) : Kept W s₀ s where
  ptr sl hsl := h.ptr sl fun hV => hsl (hVW hV)
  attached := h.attached
  stray := h.stray
  mine := h.mine
  rest := h.rest
  stuck := h.stuck

end Kept

section Same

variable {cancels : Bool} {W : List Slot} {p : ThreadCode}

theorem same_ask (cancellable : Bool) : Stays cancels SameMaps (.call (ask cancellable)) :=
  .call fun a s s' hact => by
    cases hact
    exact ⟨rfl, rfl, rfl, rfl, rfl⟩

theorem same_message : Stays cancels SameMaps message :=
  .call fun a s s' hact => by
    cases hact
    exact refl s

theorem same_quiet : Stays cancels SameMaps quiet :=
  .call fun a s s' hact => by
    cases hact
    exact refl s

theorem same_answer (a : Option ℕ) :
    Stays cancels SameMaps (.assign fun s => { s with answer := a } : ThreadCode) :=
  .assign fun _ => ⟨rfl, rfl, rfl, rfl, rfl⟩

theorem same_failThread : Stays cancels SameMaps failThread :=
  same_message.seq (.assign fun _ => ⟨rfl, rfl, rfl, rfl, rfl⟩)

theorem same_unlock : Stays cancels SameMaps hashpipeStatusUnlock :=
  (same_ask false).seq <|
    (Stays.skip.test (same_message.seq (same_message.seq (same_answer _)))).seq
      (same_quiet.test same_message)

theorem same_chkinit : Stays cancels SameMaps hashpipeStatusChkinit :=
  (same_ask true).seq <| (same_ask false).seq <| (Stays.skip.test same_message).seq <|
    same_quiet.seq same_unlock

theorem same_putSafe : Stays cancels SameMaps putSafe :=
  .bracket ((same_ask true).seq (same_quiet.seq same_unlock)) fun _ => same_unlock

theorem same_setExitStatus (desc : ThreadDesc) : Stays cancels SameMaps (setExitStatus desc) :=
  same_putSafe.test .skip

theorem same_setCpuAffinity (mask : ℕ) : Stays cancels SameMaps (setCpuAffinity mask) :=
  ((same_ask false).seq (Stays.skip.test same_message)).test (same_answer _)

theorem same_nullOutputLoop : Stays cancels SameMaps nullOutputLoop :=
  (same_ask _).seq <| .loop <| same_putSafe.seq <| (same_ask _).seq <|
    (Stays.loop ((same_putSafe.test (same_message.seq .exit)).seq (same_ask _))).seq <|
    same_putSafe.seq <| (same_ask _).seq <| (same_ask _).seq (same_ask _)

theorem keeps_of_same (h : Stays cancels SameMaps p) : Stays cancels (Kept W) p :=
  h.mono fun _ _ hs => hs.kept

end Same

/-! ### A databuf attached and detached -/

/-- One pointer has got a new mapping, or none. -/
structure Opened (sl : Slot) (s₀ s : ThreadMaps) : Prop where
  ptr : ∀ sl' ≠ sl, s.ptr sl' = s₀.ptr sl'
  stuck : s.stuck = s₀.stuck
  attached : s.attached = s₀.attached
  stray : s.stray = s₀.stray
  maps : (s.ptr sl = .null ∧ s.mine = s₀.mine) ∨
    ∃ a ∉ s₀.mine, s.ptr sl = .segment a ∧ s.mine = insert a s₀.mine

section Databuf

variable {cancels : Bool} {V W : List Slot} {sl : Slot} {s₀ s₁ s : ThreadMaps}

theorem SameMaps.opened (h : SameMaps s₀ s) (hnull : s₀.ptr sl = .null) : Opened sl s₀ s where
  ptr sl' _ := by rw [h.ptr]
  stuck := h.stuck
  attached := h.attached
  stray := h.stray
  maps := .inl ⟨by rw [h.ptr]; exact hnull, h.mine⟩

/-- Without a mapping nothing has happened. -/
theorem Opened.same (h : Opened sl s₀ s) (hnull : s₀.ptr sl = .null) (hnone : s.ptr sl = .null) :
    SameMaps s₀ s := by
  refine ⟨funext fun sl' => ?_, ?_, h.stuck, h.attached, h.stray⟩
  · by_cases hsl : sl' = sl
    · rw [hsl, hnull, hnone]
    · exact h.ptr sl' hsl
  · rcases h.maps with ⟨-, hmine⟩ | ⟨a, -, ha, -⟩
    · exact hmine
    · rw [hnone] at ha
      cases ha

/-- What `shmat` comes back with. -/
structure Mapped (s₀ s : ThreadMaps) : Prop where
  ptr : s.ptr = s₀.ptr
  stuck : s.stuck = s₀.stuck
  attached : s.attached = s₀.attached
  stray : s.stray = s₀.stray
  maps : (s.answer = none ∧ s.mine = s₀.mine) ∨
    ∃ a ∉ s₀.mine, s.answer = some a ∧ s.mine = insert a s₀.mine

theorem mapped_shmat : Triple cancels (SameMaps s₀) (.call shmat) (Mapped s₀) (SameMaps s₀) := by
  refine .call (fun a s s' hs hact => ?_) fun _ _ hs => hs
  cases a with
  | none =>
    cases hact
    exact ⟨hs.ptr, hs.stuck, hs.attached, hs.stray, .inl ⟨rfl, hs.mine⟩⟩
  | some n =>
    by_cases hn : n ∈ s.mine
    · have hnone : shmat.act (some n) s = none := if_pos hn
      rw [hnone] at hact
      cases hact
    · have hsome : shmat.act (some n) s =
          some { s with mine := insert n s.mine, answer := some n } := if_neg hn
      rw [hsome] at hact
      cases hact
      exact ⟨hs.ptr, hs.stuck, hs.attached, hs.stray, .inr ⟨n, by rwa [← hs.mine], rfl,
        congrArg (insert n) hs.mine⟩⟩

theorem Mapped.same (h : Mapped s₀ s) (hnone : answered s = false) : SameMaps s₀ s := by
  rcases h.maps with ⟨-, hmine⟩ | ⟨a, -, ha, -⟩
  · exact ⟨h.ptr, hmine, h.stuck, h.attached, h.stray⟩
  · rw [answered, ha] at hnone
    cases hnone

theorem Mapped.some (h : Mapped s₀ s) (hsome : answered s = true) :
    ∃ a ∉ s₀.mine, s.answer = some a ∧ s.mine = insert a s₀.mine := by
  rcases h.maps with ⟨hnone, -⟩ | hmapped
  · rw [answered, hnone] at hsome
    cases hsome
  · exact hmapped

/-- **`hashpipe_databuf_attach`**: a new mapping, or none. -/
theorem databufAttach_opened (hnull : s₀.ptr sl = .null) :
    Triple cancels (SameMaps s₀) (hashpipeDatabufAttach sl) (Opened sl s₀) (SameMaps s₀) := by
  have hmessage : Triple cancels (SameMaps s₀) message (Opened sl s₀) (SameMaps s₀) :=
    (same_message.from s₀).mono (fun _ hs => hs) (fun _ hs => hs.opened hnull) fun _ hs => hs
  have hskip : Triple cancels (SameMaps s₀) (.skip : ThreadCode) (Opened sl s₀) (SameMaps s₀) :=
    Triple.skip.mono (fun _ hs => hs.opened hnull) (fun _ hs => hs) fun _ hs => hs
  refine .seq (.assign fun s hs => ?_) (.seq ((same_ask true).from s₀) (.branch ?_ hmessage))
  · have hptr : Function.update s.ptr sl .null = s₀.ptr := by
      rw [hs.ptr, ← hnull, Function.update_eq_self]
    exact ⟨hptr, hs.mine, hs.stuck, hs.attached, hs.stray⟩
  · refine .seq ((same_ask false).from s₀) (.branch (mapped_shmat.seq (.test ?_ ?_)) ?_)
    · refine .assign fun s hs => ?_
      obtain ⟨a, hfresh, hanswer, hmine⟩ := hs.1.some hs.2
      refine ⟨fun sl' hsl => ?_, hs.1.stuck, hs.1.attached, hs.1.stray,
        .inr ⟨a, hfresh, ?_, hmine⟩⟩
      · show Function.update s.ptr sl _ sl' = _
        rw [Function.update_of_ne hsl, hs.1.ptr]
      · show Function.update s.ptr sl _ sl = _
        rw [Function.update_self, hanswer]
        rfl
    · exact hmessage.mono (fun s hs => hs.1.same hs.2) (fun _ hs => hs) fun _ hs => hs
    · exact ((same_ask false).from s₀).seq (.branch hskip hmessage)

/-- An attach with what follows when it has got nothing. -/
theorem attachOr_opened (hnull : s₀.ptr sl = .null) {p : ThreadCode}
    (hp : Stays cancels SameMaps p) :
    Triple cancels (SameMaps s₀)
      (.seq (hashpipeDatabufAttach sl) (.test (fun s => s.ptr sl = .null) p .skip))
      (Opened sl s₀) (SameMaps s₀) := by
  refine (databufAttach_opened hnull).seq (.test ?_ ?_)
  · exact (hp.from s₀).mono (fun s hs => hs.1.same hnull (of_decide_eq_true hs.2))
      (fun _ hs => hs.opened hnull) fun _ hs => hs
  · exact Triple.skip.mono (fun _ hs => hs.1) (fun _ hs => hs) fun _ hs => hs

/-- Without a mapping there is nothing to give back. -/
theorem Kept.closed_null (h : Kept W s₁ s) (hopened : Opened sl s₀ s₁)
    (hnull : s₁.ptr sl = .null) : Kept (sl :: W) s₀ s := by
  have hmine : s₁.mine = s₀.mine := by
    rcases hopened.maps with ⟨-, hmine⟩ | ⟨a, -, ha, -⟩
    · exact hmine
    · rw [hnull] at ha
      cases ha
  refine Kept.trans ⟨fun sl' hsl => ?_, hopened.attached, hopened.stray, ?_, ?_, ?_⟩
    (h.mono (List.subset_cons_self sl W))
  · exact hopened.ptr sl' fun heq => hsl (heq ▸ List.mem_cons_self)
  · rw [hmine]
  · exact fun a ha => .inl (by rwa [← hmine])
  · rw [hopened.stuck]

/-- **`shmdt` of a mapping** undoes it, or refuses to. -/
theorem Kept.closed_segment (h : Kept W s₁ s) (hopened : Opened sl s₀ s₁) {n : ℕ}
    (hn : s₁.ptr sl = .segment n) {s' : ThreadMaps} (hptr : s'.ptr = s.ptr)
    (hattached : s'.attached = s.attached) (hstray : s'.stray = s.stray)
    (hstuck : s.stuck ⊆ s'.stuck) (hmine : s'.mine = s.mine.erase n ∨
      (s'.mine = s.mine ∧ n ∈ s'.stuck)) : Kept (sl :: W) s₀ s' := by
  obtain ⟨hfresh, hinsert⟩ : n ∉ s₀.mine ∧ s₁.mine = insert n s₀.mine := by
    rcases hopened.maps with ⟨hnull, -⟩ | ⟨a, hfresh, ha, hinsert⟩
    · rw [hn] at hnull
      cases hnull
    · rw [hn] at ha
      cases ha
      exact ⟨hfresh, hinsert⟩
  refine ⟨fun sl' hsl => ?_, ?_, ?_, fun a ha => ?_, fun a ha => ?_, fun a ha => ?_⟩
  · rw [List.mem_cons, not_or] at hsl
    rw [hptr, h.ptr sl' hsl.2, hopened.ptr sl' hsl.1]
  · rw [hattached, h.attached, hopened.attached]
  · rw [hstray, h.stray, hopened.stray]
  · have hs : a ∈ s.mine := h.mine (by rw [hinsert]; exact Finset.mem_insert_of_mem ha)
    rcases hmine with hmine | ⟨hmine, -⟩
    · rw [hmine]
      exact Finset.mem_erase.mpr ⟨fun heq => hfresh (heq ▸ ha), hs⟩
    · rwa [hmine]
  · have hs : a ∈ s.mine ∧ (a = n → a ∈ s'.stuck) := by
      rcases hmine with hmine | ⟨hmine, hmem⟩
      · rw [hmine] at ha
        obtain ⟨hne, hold⟩ := Finset.mem_erase.mp ha
        exact ⟨hold, fun heq => absurd heq hne⟩
      · rw [hmine] at ha
        exact ⟨ha, fun heq => heq ▸ hmem⟩
    rcases h.rest a hs.1 with hold | hold
    · rw [hinsert] at hold
      rcases Finset.mem_insert.mp hold with heq | hold
      · exact .inr (hs.2 heq)
      · exact .inl hold
    · exact .inr (hstuck hold)
  · exact hstuck (h.stuck (by rwa [hopened.stuck]))

/-- What a detach leaves: all is given back, and if `shmdt` refused, the mapping is still there. -/
def Closed (sl : Slot) (W : List Slot) (s₀ s₁ s : ThreadMaps) : Prop :=
  Kept (sl :: W) s₀ s ∧ (answered s = false → Kept W s₁ s)

/-- **`shmdt`** of what was attached. -/
theorem shmdt_closed (hopened : Opened sl s₀ s₁) {P U : ThreadMaps → Prop}
    {d : ThreadMaps → Pointer} (hP : ∀ s, P s → Kept W s₁ s ∧ d s = s₁.ptr sl)
    (hne : ∀ s, P s → d s ≠ .null) :
    Triple cancels P (.call (shmdt d)) (Closed sl W s₀ s₁) U := by
  refine .call (fun a s s' hs hact => ?_) fun hcancel => absurd hcancel Bool.false_ne_true
  obtain ⟨hkept, hd⟩ := hP s hs
  rcases hopened.maps with ⟨hnull, -⟩ | ⟨n, -, hn, hinsert⟩
  · exact absurd (hd.trans hnull) (hne s hs)
  · have hmem : n ∈ s.mine := hkept.mine (by rw [hinsert]; exact Finset.mem_insert_self n _)
    have hds : d s = .segment n := hd.trans hn
    simp only [shmdt, hds, if_pos hmem] at hact
    cases a with
    | none =>
      cases hact
      refine ⟨hkept.closed_segment hopened hn rfl rfl rfl (Finset.subset_insert n _)
        (.inr ⟨rfl, Finset.mem_insert_self n _⟩), fun _ => hkept.trans ?_⟩
      exact ⟨fun _ _ => rfl, rfl, rfl, Finset.Subset.refl _, fun _ ha => .inl ha,
        Finset.subset_insert n _⟩
    | some k =>
      cases hact
      refine ⟨hkept.closed_segment hopened hn rfl rfl rfl (Finset.Subset.refl _) (.inl rfl),
        fun hnone => ?_⟩
      cases hnone

/-- **`hashpipe_databuf_detach`** of what was attached. -/
theorem databufDetach_closed (hopened : Opened sl s₀ s₁) {P : ThreadMaps → Prop}
    {d : ThreadMaps → Pointer} (hP : ∀ s, P s → Kept W s₁ s ∧ d s = s₁.ptr sl) :
    Triple cancels P (hashpipeDatabufDetach d) (Closed sl W s₀ s₁) (Kept W s₁) := by
  refine .test (.seq (shmdt_closed hopened (fun s hs => hP s hs.1) fun s hs => by simpa using hs.2)
    (.test ?_ ?_)) (.assign fun s hs => ?_)
  · exact Triple.skip.mono (fun _ hs => hs.1) (fun _ hs => hs) fun _ hs => hs
  · exact .call (fun a s s' hs hact => by
      cases hact
      exact hs.1) fun _ s hs => hs.1.2 hs.2
  · obtain ⟨hkept, hd⟩ := hP s hs.1
    have hnull : s₁.ptr sl = .null := by
      rw [← hd]
      simpa using hs.2
    have hkept' : Kept W s₁ { s with answer := some 0 } :=
      hkept.trans (SameMaps.kept ⟨rfl, rfl, rfl, rfl, rfl⟩)
    exact ⟨hkept'.closed_null hopened hnull, fun _ => hkept'⟩

/-- **The bracket of a databuf**: the handler gives back what unwinding has left. -/
theorem bracket_closed (hopened : Opened sl s₀ s₁) {body : ThreadCode}
    (hbody : Triple cancels (· = s₁) body (Kept (sl :: V) s₀) (Kept W s₁)) :
    Triple cancels (· = s₁) (.bracket (fun s => hashpipeDatabufDetach fun _ => s.ptr sl) body)
      (Kept (sl :: V) s₀) (Kept (sl :: W) s₀) :=
  .bracket hbody ((databufDetach_closed hopened fun _ hs => ⟨hs, rfl⟩).mono (fun _ hs => hs)
    (fun _ hs => hs.1) fun _ _ => trivial)

/-- The detach at the end of the bracket. -/
theorem detach_closed (hopened : Opened sl s₀ s₁) (hsl : sl ∉ V) (hVW : V ⊆ W) :
    Triple cancels (Kept V s₁) (hashpipeDatabufDetach fun s => s.ptr sl)
      (Closed sl V s₀ s₁) (Kept W s₁) :=
  (databufDetach_closed hopened fun _ hs => ⟨hs, hs.ptr sl hsl⟩).mono (fun _ hs => hs)
    (fun _ hs => hs) fun _ hs => hs.mono hVW

/-- **A databuf of `hashpipe_thread_run`**, around code that keeps what it finds. -/
theorem withDatabuf_keeps (create : Bool) (hnull : s₀.ptr sl = .null) (hsl : sl ∉ V) (hVW : V ⊆ W)
    {inner : ThreadCode} (hinner : ∀ s, Opened sl s₀ s →
      Triple cancels (· = s) inner (Kept V s) (Kept W s)) :
    Triple cancels (· = s₀) (withDatabuf create sl inner) (Kept V s₀) (Kept (sl :: W) s₀) := by
  have hattach : Triple cancels (SameMaps s₀)
      (.test (fun _ => create) (.seq (hashpipeDatabufAttach sl)
        (.test (fun s => s.ptr sl = .null) failThread .skip)) .skip)
      (Opened sl s₀) (SameMaps s₀) :=
    (attachOr_opened hnull same_failThread).branch
      (Triple.skip.mono (fun _ hs => hs.opened hnull) (fun _ hs => hs) fun _ hs => hs)
  refine (hattach.mono (fun s hs => by rw [hs]; exact refl s₀) (fun _ hs => hs)
    fun _ hs => hs.kept).seq (.seq (R := Kept (sl :: V) s₀) (.of_start fun s₁ hopened => ?_) ?_)
  · refine bracket_closed hopened ((hinner s₁ hopened).seq
      ((detach_closed hopened hsl hVW).seq (.test ?_ (.seq (R := Kept (sl :: V) s₀) ?_ ?_))))
    · exact Triple.skip.mono (fun _ hs => hs.1.1) (fun _ hs => hs) fun _ hs => hs
    · refine .call (fun a s s' hs hact => ?_) fun _ s hs => (hs.1.2 hs.2).mono hVW
      cases hact
      exact hs.1.1
    · exact .assign fun _ hs => hs.trans (SameMaps.kept ⟨rfl, rfl, rfl, rfl, rfl⟩)
  · refine .assign fun s hs => ⟨fun sl' hsl' => ?_, hs.attached, hs.stray, hs.mine, hs.rest, hs.stuck⟩
    show Function.update s.ptr sl _ sl' = _
    by_cases heq : sl' = sl
    · rw [heq, Function.update_self, hnull]
    · rw [Function.update_of_ne heq, hs.ptr sl' (by simp [heq, hsl'])]

/-- The attempts end with a mapping or without one. -/
theorem nullOutputAttach_opened (hnull : s₀.ptr .db = .null) :
    Triple cancels (· = s₀) nullOutputAttach (Opened .db s₀) (Kept [.db] s₀) := by
  have hretry : Stays cancels SameMaps
      (.seq (.call (ask true)) (.assign fun s => { s with tries := s.tries + 1 })) :=
    (same_ask true).seq (.assign fun _ => ⟨rfl, rfl, rfl, rfl, rfl⟩)
  have hattempt : Triple cancels (fun s => Opened .db s₀ s ∧
        (decide (s.tries < 1000000) && decide (s.ptr .db = .null)) = true)
      (.seq (hashpipeDatabufAttach .db) <| .test (fun s => s.ptr .db = .null)
        (.seq (.call (ask true)) (.assign fun s => { s with tries := s.tries + 1 })) .skip)
      (Opened .db s₀) (Kept [.db] s₀) :=
    (attachOr_opened hnull hretry).mono (fun s hs => hs.1.same hnull
      (of_decide_eq_true (Bool.and_eq_true_iff.mp hs.2).2)) (fun _ hs => hs) fun _ hs => hs.kept
  refine hattempt.loop.mono (fun s hs => ?_) (fun _ hs => hs.1) fun _ hs => hs
  rw [hs]
  exact (refl (r := SameMaps) s₀).opened hnull

/-- **`null_output_thread`** gives its databuf back. -/
theorem nullOutputRun_keeps : Stays cancels (Kept [.db]) nullOutputRun := by
  intro s₀
  set s₁ : ThreadMaps := { s₀.set .db .null with tries := 0 } with hs₁
  have hnull : s₁.ptr .db = .null := by
    show Function.update s₀.ptr .db .null .db = .null
    rw [Function.update_self]
  have hsame : Kept [.db] s₀ s₁ := by
    refine ⟨fun sl hsl => ?_, rfl, rfl, Finset.Subset.refl _, fun _ ha => .inl ha,
      Finset.Subset.refl _⟩
    show Function.update s₀.ptr .db .null sl = s₀.ptr sl
    rw [Function.update_of_ne (by simpa using hsl)]
  have hrest : Triple cancels (Opened .db s₁) (.test (fun s => s.ptr .db = .null) failThread <|
      .seq (.bracket (fun s => hashpipeDatabufDetach fun _ => s.ptr .db)
        (.seq nullOutputLoop (hashpipeDatabufDetach fun s => s.ptr .db)))
      (.assign fun s => { s with rv := threadOk })) (Kept [.db] s₁) (Kept [.db] s₁) := by
    refine .test ?_ (.seq (R := Kept [.db] s₁) (.of_start fun s₂ hs₂ => ?_)
      (.assign fun s hs => hs.trans (SameMaps.kept ⟨rfl, rfl, rfl, rfl, rfl⟩)))
    · exact ((keeps_of_same same_failThread).from s₁).mono
        (fun s hs => (hs.1.same hnull (by simpa using hs.2)).kept) (fun _ hs => hs) fun _ hs => hs
    · refine bracket_closed (V := []) (W := []) hs₂.1 ((keeps_of_same same_nullOutputLoop s₂).seq ?_)
      exact (detach_closed hs₂.1 List.not_mem_nil (List.nil_subset [])).mono (fun _ hs => hs)
        (fun _ hs => hs.1) fun _ hs => hs
  refine (Triple.assign (Q := (· = s₁)) fun s hs => by rw [hs]).seq
    (((nullOutputAttach_opened hnull).seq hrest).mono (fun _ hs => hs)
      (fun _ hs => hsame.trans hs) fun _ hs => hsame.trans hs)

end Databuf

/-! ### The status buffer attached and detached -/

/-- Before `hashpipe_status_attach` has returned `HASHPIPE_OK`: its pointer alone is written, and a
mapping is the one that it points to. -/
structure Attaching (s₀ s : ThreadMaps) : Prop where
  ptr : ∀ sl ≠ .st, s.ptr sl = s₀.ptr sl
  stuck : s.stuck = s₀.stuck
  stray : s.stray = s₀.stray
  maps : ((∀ a, s.ptr .st ≠ .segment a) ∧ s.mine = s₀.mine) ∨
    ∃ a ∉ s₀.mine, s.ptr .st = .segment a ∧ s.mine = insert a s₀.mine

/-- It has not returned `HASHPIPE_OK`. -/
structure Unreturned (s₀ s : ThreadMaps) : Prop extends Attaching s₀ s where
  attached : s.attached = false

/-- It has returned, and only from the failure of `shmat` with the pointer of that. -/
structure Returned (s₀ s : ThreadMaps) : Prop extends Attaching s₀ s where
  pointer : s.attached = true → s.ptr .st ≠ .failed

section StatusBuffer

variable {cancels : Bool} {s₀ s₁ s : ThreadMaps} {W : List Slot}

theorem Attaching.same (h : Attaching s₀ s₁) (h' : SameMaps s₁ s) : Attaching s₀ s where
  ptr sl hsl := by rw [h'.ptr, h.ptr sl hsl]
  stuck := h'.stuck.trans h.stuck
  stray := h'.stray.trans h.stray
  maps := by
    rw [h'.ptr, h'.mine]
    exact h.maps

theorem Unreturned.same (h : Unreturned s₀ s₁) (h' : SameMaps s₁ s) : Unreturned s₀ s :=
  ⟨h.toAttaching.same h', h'.attached.trans h.attached⟩

theorem Unreturned.returned (h : Unreturned s₀ s) : Returned s₀ s where
  toAttaching := h.toAttaching
  pointer hattached := by
    rw [h.attached] at hattached
    cases hattached

/-- Code that leaves the mappings alone, while the attach is under way. -/
theorem unreturned_of_same {p : ThreadCode} (h : Stays cancels SameMaps p) :
    Triple cancels (Unreturned s₀) p (Unreturned s₀) (Unreturned s₀) :=
  h.keeps fun _ _ => Unreturned.same

/-- What the attach returns after `HASHPIPE_OK`. -/
theorem Returned.opened (h : Returned s₀ s) (hattached : s.attached = true) :
    Opened .st { s₀ with attached := true } s where
  ptr := h.ptr
  stuck := h.stuck
  attached := hattached
  stray := h.stray
  maps := by
    rcases h.maps with ⟨hnone, hmine⟩ | hmapped
    · refine .inl ⟨?_, hmine⟩
      cases hptr : s.ptr .st with
      | null => rfl
      | failed => exact absurd hptr (h.pointer hattached)
      | segment a => exact absurd hptr (hnone a)
    · exact .inr hmapped

/-- The mapping is made, or there was no segment to map. -/
def Pending (s₀ s : ThreadMaps) : Prop := Unreturned s₀ s ∧ s.ptr .st ≠ .failed

theorem pending_of_same {p : ThreadCode} (h : Stays cancels SameMaps p) :
    Triple cancels (Pending s₀) p (Pending s₀) (Unreturned s₀) :=
  (h.keeps fun s s' hs hsame => ⟨hs.1.same hsame, by rw [hsame.ptr]; exact hs.2⟩).mono
    (fun _ hs => hs) (fun _ hs => hs) fun _ hs => hs.1

theorem pending_message : Triple cancels (Pending s₀) message (Returned s₀) (Unreturned s₀) :=
  (unreturned_of_same same_message).mono (fun _ hs => hs.1) (fun _ hs => hs.returned) fun _ hs => hs

theorem pending_attached :
    Triple cancels (Pending s₀) (.assign fun s => { s with attached := true } : ThreadCode)
      (Returned s₀) (Unreturned s₀) :=
  .assign fun _ hs => ⟨⟨hs.1.ptr, hs.1.stuck, hs.1.stray, hs.1.maps⟩, fun _ => hs.2⟩

theorem SameMaps.pending (h : SameMaps s₀ s) (hnull : s₀.ptr .st = .null)
    (hattached : s₀.attached = false) : Pending s₀ s := by
  have hptr : s.ptr .st = .null := by rw [h.ptr, hnull]
  refine ⟨⟨⟨fun sl _ => by rw [h.ptr], h.stuck, h.stray, .inl ⟨fun a => ?_, h.mine⟩⟩,
    h.attached.trans hattached⟩, ?_⟩
  · rw [hptr]
    exact Pointer.noConfusion
  · rw [hptr]
    exact Pointer.noConfusion

/-- `shmat` has failed. -/
theorem SameMaps.failed (h : SameMaps s₀ s) (hattached : s₀.attached = false) :
    Unreturned s₀ (s.set .st .failed) where
  ptr sl hsl := by
    show Function.update s.ptr .st _ sl = _
    rw [Function.update_of_ne hsl, h.ptr]
  stuck := h.stuck
  stray := h.stray
  maps := by
    refine .inl ⟨fun a => ?_, h.mine⟩
    show Function.update s.ptr .st _ .st ≠ _
    rw [Function.update_self]
    exact Pointer.noConfusion
  attached := h.attached.trans hattached

/-- `shmat` has answered. -/
theorem Mapped.pending (h : Mapped s₀ s) (hattached : s₀.attached = false)
    (hanswer : answered s = true) : Pending s₀ (s.set .st (.segment (s.answer.getD 0))) := by
  obtain ⟨a, hfresh, ha, hmine⟩ := h.some hanswer
  have hptr : (s.set .st (.segment (s.answer.getD 0))).ptr .st = .segment a := by
    show Function.update s.ptr .st _ .st = _
    rw [Function.update_self, ha]
    rfl
  refine ⟨⟨⟨fun sl hsl => ?_, h.stuck, h.stray, .inr ⟨a, hfresh, hptr, hmine⟩⟩,
    h.attached.trans hattached⟩, ?_⟩
  · show Function.update s.ptr .st _ sl = _
    rw [Function.update_of_ne hsl, h.ptr]
  · rw [hptr]
    exact Pointer.noConfusion

/-- **`hashpipe_status_attach`** into a pointer to nothing. -/
theorem statusAttach_returned (hnull : s₀.ptr .st = .null) (hattached : s₀.attached = false) :
    Triple cancels (SameMaps s₀) hashpipeStatusAttach (Returned s₀) (Unreturned s₀) := by
  have hpending : ∀ s, SameMaps s₀ s → Pending s₀ s := fun _ hs => hs.pending hnull hattached
  have hsame : ∀ {p : ThreadCode}, Stays cancels SameMaps p →
      Triple cancels (SameMaps s₀) p (SameMaps s₀) (Unreturned s₀) := fun hp =>
    (hp.from s₀).mono (fun _ hs => hs) (fun _ hs => hs) fun s hs => (hpending s hs).1
  have hfailed : Triple cancels (Unreturned s₀) (.seq message (.seq message message))
      (Returned s₀) (Unreturned s₀) :=
    (unreturned_of_same (same_message.seq (same_message.seq same_message))).mono
      (fun _ hs => hs) (fun _ hs => hs.returned) fun _ hs => hs
  refine (hsame (same_ask true)).seq (.branch ((hsame (same_ask false)).seq (.branch ?_ ?_)) ?_)
  · refine (mapped_shmat.mono (fun _ hs => hs) (fun _ hs => hs) fun s hs => (hpending s hs).1).seq
      (.test (.seq (R := Pending s₀) (.assign fun s hs => hs.1.pending hattached hs.2) ?_)
        (.seq (.assign fun s hs => (hs.1.same hs.2).failed hattached) hfailed))
    exact (pending_of_same (same_ask false)).seq (.branch ((pending_of_same (same_ask true)).seq
      (.branch ((pending_of_same same_chkinit).seq pending_attached) pending_message))
        pending_message)
  · exact pending_message.mono hpending (fun _ hs => hs) fun _ hs => hs
  · exact ((pending_of_same same_message).seq pending_attached).mono hpending (fun _ hs => hs)
      fun _ hs => hs

/-- **`hashpipe_status_detach`** of what was attached. -/
theorem statusDetach_closed (hopened : Opened .st s₀ s₁) (hst : .st ∉ W) :
    Triple cancels (Kept W s₁) hashpipeStatusDetach (Kept (.st :: W) s₀) (Kept W s₁) := by
  refine .test (.seq (shmdt_closed hopened (fun s hs => ⟨hs.1, hs.1.ptr .st hst⟩)
    fun s hs => by simpa using hs.2) (.test ?_ ?_)) ?_
  · refine .assign fun s hs => ⟨fun sl hsl => ?_, hs.1.1.attached, hs.1.1.stray, hs.1.1.mine,
      hs.1.1.rest, hs.1.1.stuck⟩
    have hne : sl ≠ .st := fun heq => hsl (heq ▸ List.mem_cons_self)
    show Function.update s.ptr .st _ sl = _
    rw [Function.update_of_ne hne, hs.1.1.ptr sl hsl]
  · refine .call (fun a s s' hs hact => ?_) fun _ s hs => hs.1.2 hs.2
    cases hact
    exact hs.1.1
  · refine Triple.skip.mono (fun s hs => ?_) (fun _ hs => hs) fun _ hs => hs
    have hnull : s₁.ptr .st = .null := by
      rw [← hs.1.ptr .st hst]
      simpa using hs.2
    exact hs.1.closed_null hopened hnull

end StatusBuffer

/-! ### The thread -/

/-- A thread starts without mappings, for `hashpipe_thread_init` has undone its own. -/
def threadStart : ThreadMaps where
  mine := ∅
  stuck := ∅
  ptr _ := .null
  answer := none
  rv := threadOk
  tries := 0
  attached := false
  stray := false

section ThreadRun

variable {cancels : Bool} {run : ThreadCode} {s₀ s₁ : ThreadMaps}

theorem callRun_keeps (hrun : Stays cancels (Kept [.db]) run) :
    Stays cancels (Kept [.db]) (callRun run) :=
  (Stays.bracket ((hrun.test .skip).seq (keeps_of_same same_quiet)) fun _ =>
    keeps_of_same same_quiet).seq (keeps_of_same same_quiet)

/-- With the status buffer attached: at the end the databufs are detached and their pointers null,
and unwinding too gives them back. -/
theorem withStatus_kept (desc : ThreadDesc) (hrun : Stays cancels (Kept [.db]) run)
    (hibuf : s₁.ptr .ibuf = .null) (hobuf : s₁.ptr .obuf = .null) :
    Triple cancels (· = s₁) (withStatus desc run) (Kept [.db] s₁) (Kept [.ibuf, .obuf, .db] s₁) := by
  have hdatabufs : Triple cancels (· = s₁)
      (withDatabuf desc.ibufCreate .ibuf <| withDatabuf desc.obufCreate .obuf <| callRun run)
      (Kept [.db] s₁) (Kept [.ibuf, .obuf, .db] s₁) := by
    refine withDatabuf_keeps (V := [.db]) (W := [.obuf, .db]) desc.ibufCreate hibuf (by simp)
      (by simp) fun s₂ hopened => ?_
    have hobuf₂ : s₂.ptr .obuf = .null := by rw [hopened.ptr .obuf (by simp), hobuf]
    exact withDatabuf_keeps (V := [.db]) (W := [.db]) desc.obufCreate hobuf₂ (by simp) (by simp)
      fun s₃ _ => callRun_keeps hrun s₃
  have hexit : Triple cancels (Kept [.db] s₁) (setExitStatus desc) (Kept [.db] s₁)
      (Kept [.ibuf, .obuf, .db] s₁) :=
    ((keeps_of_same (same_setExitStatus desc)).from s₁).mono (fun _ hs => hs) (fun _ hs => hs)
      fun _ hs => hs.mono (by simp)
  exact .bracket (hdatabufs.seq hexit) (((keeps_of_same same_quiet).from s₁).mono (fun _ hs => hs)
    (fun _ hs => hs) fun _ _ => trivial)

/-- **`hashpipe_thread_run`**: the status buffer has not been attached, or all is given back. -/
theorem threadRun_keeps (desc : ThreadDesc) (hrun : Stays cancels (Kept [.db]) run)
    (hnull : ∀ sl, s₀.ptr sl = .null) (hattached : s₀.attached = false) :
    Triple cancels (· = s₀) (hashpipeThreadRun desc run)
      (fun s => Unreturned s₀ s ∨ Kept [.st, .db] { s₀ with attached := true } s)
      (fun s => Unreturned s₀ s ∨ Kept [.st, .ibuf, .obuf, .db] { s₀ with attached := true } s) := by
  have hstart : ∀ s, SameMaps s₀ s → Unreturned s₀ s := fun s hs =>
    (hs.pending (hnull .st) hattached).1
  have hfail : Triple cancels (Unreturned s₀) failThread
      (fun s => Unreturned s₀ s ∨ Kept [.st, .db] { s₀ with attached := true } s)
      (fun s => Unreturned s₀ s ∨ Kept [.st, .ibuf, .obuf, .db] { s₀ with attached := true } s) :=
    (unreturned_of_same same_failThread).mono (fun _ hs => hs) (fun _ hs => .inl hs)
      fun _ hs => .inl hs
  refine ((same_setCpuAffinity desc.cpu_mask s₀).mono (fun _ hs => hs) (fun _ hs => hs)
    fun s hs => .inl (hstart s hs)).seq (.branch (((statusAttach_returned (hnull .st)
      hattached).mono (fun _ hs => hs) (fun _ hs => hs) fun _ hs => .inl hs).seq (.test ?_ ?_)) ?_)
  · -- attached: the bracket of `hashpipe_status_detach`
    refine .of_start fun s₁ hs₁ => ?_
    have hopened : Opened .st { s₀ with attached := true } s₁ := hs₁.1.opened hs₁.2
    have hbody : Triple cancels (· = s₁) (.seq (withStatus desc run) hashpipeStatusDetach)
        (Kept [.st, .db] { s₀ with attached := true }) (Kept [.ibuf, .obuf, .db] s₁) :=
      (withStatus_kept desc hrun (by rw [hopened.ptr .ibuf (by simp)]; exact hnull .ibuf)
        (by rw [hopened.ptr .obuf (by simp)]; exact hnull .obuf)).seq
        ((statusDetach_closed hopened (by simp)).mono (fun _ hs => hs) (fun _ hs => hs)
          fun _ hs => hs.mono (by simp))
    refine .bracket (hbody.mono (fun _ hs => hs) (fun _ hs => .inr hs) fun _ hs => hs) ?_
    exact (statusDetach_closed hopened (by simp)).mono (fun _ hs => hs) (fun _ hs => .inr hs)
      fun _ _ => trivial
  · refine hfail.mono (fun s hs => ⟨hs.1.toAttaching, hs.2⟩) (fun _ hs => hs) fun _ hs => hs
  · exact hfail.mono hstart (fun _ hs => hs) fun _ hs => hs

/-- What a thread with nothing at the start has at the end. -/
theorem Unreturned.mapped (h : Unreturned threadStart s₁) (a : ℕ) :
    a ∈ s₁.mine ∧ a ∉ s₁.stuck ↔ s₁.attached = false ∧ s₁.ptr .st = .segment a := by
  have hstuck : a ∉ s₁.stuck := by
    rw [h.stuck]
    exact Finset.notMem_empty a
  rcases h.maps with ⟨hnone, hmine⟩ | ⟨b, -, hptr, hmine⟩
  · have hmem : a ∉ s₁.mine := by
      rw [hmine]
      exact Finset.notMem_empty a
    exact ⟨fun hs => absurd hs.1 hmem, fun hs => absurd hs.2 (hnone a)⟩
  · rw [hmine, hptr]
    simp only [hstuck, h.attached, threadStart, insert_empty_eq, Finset.mem_singleton,
      not_false_eq_true, and_true, true_and, Pointer.segment.injEq]
    exact eq_comm

theorem Kept.mapped {W : List Slot} (h : Kept W { threadStart with attached := true } s₁) (a : ℕ) :
    a ∈ s₁.mine ∧ a ∉ s₁.stuck ↔ s₁.attached = false ∧ s₁.ptr .st = .segment a := by
  have hattached : s₁.attached = true := h.attached
  refine ⟨fun hs => ?_, fun hs => ?_⟩
  · rcases h.rest a hs.1 with hold | hold
    · exact absurd hold (Finset.notMem_empty a)
    · exact absurd hold hs.2
  · rw [hattached] at hs
    cases hs.1

/-- **What a thread gives back.**  Whatever way a thread ends, it has never detached what it had not
attached; apart from what `shmdt` refused, it has still mapped just the status buffer that
`hashpipe_status_attach` had mapped and not returned with `HASHPIPE_OK`; and if it comes to its end,
`args` points to no databuf. -/
theorem thread_gives_back (desc : ThreadDesc) (hrun : Stays true (Kept [.db]) run) {o : Outcome}
    {s : ThreadMaps} (hruns : Runs true (hashpipeThreadRun desc run) threadStart o s) :
    s.stray = false ∧
      (∀ a, a ∈ s.mine ∧ a ∉ s.stuck ↔ s.attached = false ∧ s.ptr .st = .segment a) ∧
      (o = .done → s.ptr .ibuf = .null ∧ s.ptr .obuf = .null) := by
  have hnull : ∀ sl, threadStart.ptr sl = .null := fun _ => rfl
  have hpost := threadRun_keeps desc hrun hnull rfl threadStart o s rfl hruns
  cases o with
  | done =>
    rcases hpost with hs | hs
    · exact ⟨hs.stray, hs.mapped, fun _ => ⟨hs.ptr .ibuf (by simp), hs.ptr .obuf (by simp)⟩⟩
    · exact ⟨hs.stray, hs.mapped, fun _ => ⟨hs.ptr .ibuf (by simp), hs.ptr .obuf (by simp)⟩⟩
  | unwinding =>
    rcases hpost with hs | hs
    · exact ⟨hs.stray, hs.mapped, fun ho => Outcome.noConfusion ho⟩
    · exact ⟨hs.stray, hs.mapped, fun ho => Outcome.noConfusion ho⟩

/-- A thread that has mapped segment 7 for the status buffer. -/
def mappedStatus : ThreadMaps :=
  { threadStart.set .st (.segment 7) with mine := {7}, answer := some 0 }

/-- `null_output_thread`, cancelled while `hashpipe_status_chkinit` waits for the lock. -/
theorem cancelledAttach_runs :
    Runs true (hashpipeThreadRun ⟨true, false, false, 0⟩ nullOutputRun) threadStart .unwinding
      mappedStatus := by
  have hmap : shmat.act (some 7) { threadStart with answer := some 0 } =
      some { threadStart with mine := {7}, answer := some 7 } := rfl
  refine .seq (.testFalse rfl .assign) (.testTrue rfl (.seqUnwinding ?_))
  refine .seq (.call (a := some 0) rfl) (.testTrue rfl (.seq (.call (a := some 0) rfl)
    (.testTrue rfl (.seq (.call hmap) (.testTrue rfl (.seq .assign ?_))))))
  refine .seq (.call (a := some 0) rfl) (.testTrue rfl (.seq (.call (a := some 0) rfl)
    (.testTrue rfl (.seqUnwinding (.seqUnwinding (.cancel rfl))))))

/-- The segment stays mapped. -/
theorem thread_gives_back_cancelledAttach :
    Runs true (hashpipeThreadRun ⟨true, false, false, 0⟩ nullOutputRun) threadStart .unwinding
      mappedStatus ∧ mappedStatus.stray = false ∧ 7 ∈ mappedStatus.mine ∧ 7 ∉ mappedStatus.stuck := by
  obtain ⟨hstray, hmapped, -⟩ :=
    thread_gives_back ⟨true, false, false, 0⟩ nullOutputRun_keeps cancelledAttach_runs
  exact ⟨cancelledAttach_runs, hstray, (hmapped 7).mpr ⟨rfl, rfl⟩⟩

end ThreadRun

end Hashpipe.ThreadCleanup
