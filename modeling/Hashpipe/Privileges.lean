import Hashpipe.CommandLine

/-!
# Whose program this is

`hashpipe` may be installed setuid, for the memory locks and the priorities.  `main` gives the
effective user id up while it loads a plugin, takes it back to initialise threads, and drops it for
good before it starts them.  The ids of the process are added here to `main` of the command line;
the code of plugins is taken to leave them alone.

`privileges` says with which ids plugins are loaded and threads initialised and started, for every
command line and whatever call fails.  The drop is for good only for a program that is root's:
`setuid` changes the saved id of root alone (`privileges_dropped_iff`).
-/

namespace Hashpipe.CommandLine

/-- The real, the effective and the saved user id. -/
structure Uids where
  ruid : ℕ
  euid : ℕ
  suid : ℕ
  deriving DecidableEq

/-- The kernel lets root take any id, and others those they have. -/
def Uids.may (u : Uids) (id : ℕ) : Prop := u.euid = 0 ∨ id = u.ruid ∨ id = u.euid ∨ id = u.suid

instance (u : Uids) (id : ℕ) : Decidable (u.may id) := inferInstanceAs (Decidable (_ ∨ _))

/-- `seteuid`; `ok` is false for a failure that is not about permission. -/
def seteuid (u : Uids) (id : ℕ) (ok : Bool) : Option Uids :=
  if u.may id ∧ ok then some { u with euid := id } else none

/-- `setuid` sets all three ids for root, and the effective one alone for others. -/
def setuid (u : Uids) (id : ℕ) (ok : Bool) : Option Uids :=
  if !ok then none
  else if u.euid = 0 then some ⟨id, id, id⟩
  else if id = u.ruid ∨ id = u.suid then some { u with euid := id }
  else none

/-- What the two `seteuid` around a `dlopen` come back with. -/
structure PluginCalls where
  drop : Bool
  restore : Bool

/-- What plugins get to run, and with which ids. -/
inductive PrivEvent
  /-- The constructors of a plugin, in `dlopen`. -/
  | loading (u : Uids)
  /-- `hashpipe_thread_init` with the `create` and `init` functions of a thread. -/
  | initing (u : Uids)
  /-- The thread of a slot. -/
  | started (k : ℕ) (u : Uids)

/-- The ids, the events, and what the options have come to. -/
structure PrivRun where
  uids : Uids
  events : List PrivEvent
  result : Except MainEnd MainState

/-- One pass of the loop over the options. -/
def privOption (s : MainState) (u : Uids) (o : MainOption) (c : PluginCalls) : PrivRun :=
  match o with
  | .plugin loaded =>
    match seteuid u u.ruid c.drop with
    | none => ⟨u, [], .error (.exit 1)⟩
    | some v =>
      match loaded with
      | none => ⟨v, [.loading v], .error (.exit 1)⟩
      | some loaded =>
        match seteuid v u.euid c.restore with
        | none => ⟨v, [.loading v], .error (.exit 1)⟩
        | some w => ⟨w, [.loading v], mainOption s (.plugin (some loaded))⟩
  | .thread name calls =>
    if (findHashpipeThread s.thread_list name).isSome then
      ⟨u, [.initing u], mainOption s (.thread name calls)⟩
    else ⟨u, [], .error (.exit 1)⟩
  | o => ⟨u, [], mainOption s o⟩

def privLoop : MainState → Uids → List (MainOption × PluginCalls) → PrivRun
  | s, u, [] => ⟨u, [], .ok s⟩
  | s, u, (o, c) :: opts =>
    match (privOption s u o c).result with
    | .error e => ⟨(privOption s u o c).uids, (privOption s u o c).events, .error e⟩
    | .ok s' =>
      ⟨(privLoop s' (privOption s u o c).uids opts).uids,
        (privOption s u o c).events ++ (privLoop s' (privOption s u o c).uids opts).events,
        (privLoop s' (privOption s u o c).uids opts).result⟩

/-- The threads that are created, the last first, up to the first that cannot be. -/
def startedThreads (created : ℕ → Bool) (n : ℕ) : List ℕ :=
  (List.range n).reverse.takeWhile created

/-- What happens in `main`, and the ids it is left with. -/
def privMain (stack : ℕ → HashpipeThreadArgs) (thread_list : List HashpipeThreadDesc)
    (calls : StartCalls) (u : Uids) (opts : List (MainOption × PluginCalls)) :
    Uids × List PrivEvent :=
  let r := privLoop (mainInit stack thread_list) u opts
  match r.result with
  | .error _ => (r.uids, r.events)
  | .ok s =>
    match setuid r.uids r.uids.ruid calls.setuid with
    | none => (r.uids, r.events)
    | some v => (v, r.events ++ (startedThreads calls.created s.num_threads).map (.started · v))

/-! ### The loop -/

section Loop

variable {u : Uids} {opts : List (MainOption × PluginCalls)}

/-- What an event may be before the threads are started. -/
def PrivEvent.Allowed (u : Uids) : PrivEvent → Prop
  | .loading v => v = { u with euid := u.ruid }
  | .initing v => v = u
  | .started _ _ => False

theorem seteuid_eq {id : ℕ} {ok : Bool} {v : Uids} (h : seteuid u id ok = some v) :
    v = { u with euid := id } := by
  obtain ⟨-, heq⟩ := Option.ite_none_right_eq_some.mp h
  exact (Option.some.inj heq).symm

/-- One pass loads plugins without the effective id, and goes on with the ids it had. -/
theorem privOption_ids (s : MainState) (u : Uids) (o : MainOption) (c : PluginCalls) :
    (∀ e ∈ (privOption s u o c).events, e.Allowed u) ∧
      (∀ s', (privOption s u o c).result = .ok s' →
        (privOption s u o c).uids = u ∧ mainOption s o = .ok s') := by
  cases o with
  | plugin loaded =>
    simp only [privOption]
    cases hdrop : seteuid u u.ruid c.drop with
    | none => exact ⟨fun e he => (List.not_mem_nil he).elim, fun s' h => by cases h⟩
    | some v =>
      obtain rfl := seteuid_eq hdrop
      have hallowed : ∀ e ∈ [PrivEvent.loading { u with euid := u.ruid }], e.Allowed u := by
        intro e he
        obtain rfl := List.mem_singleton.mp he
        rfl
      cases loaded with
      | none => exact ⟨hallowed, fun s' h => by cases h⟩
      | some loaded =>
        dsimp only
        cases hrestore : seteuid { u with euid := u.ruid } u.euid c.restore with
        | none => exact ⟨hallowed, fun s' h => by cases h⟩
        | some w =>
          obtain rfl := seteuid_eq hrestore
          exact ⟨hallowed, fun s' h => ⟨rfl, h⟩⟩
  | thread name calls =>
    simp only [privOption]
    split
    · refine ⟨fun e he => ?_, fun s' h => ⟨rfl, h⟩⟩
      obtain rfl := List.mem_singleton.mp he
      rfl
    · exact ⟨fun e he => (List.not_mem_nil he).elim, fun s' h => by cases h⟩
  | help | list | version | shmkey | buffer | instanceId | option | mask | cpu | error =>
    exact ⟨fun e he => (List.not_mem_nil he).elim, fun s' h => ⟨rfl, h⟩⟩

/-- **The loop**: all its events are allowed, and if it gets to the end the ids are the old ones and
the options have come to what they do without ids. -/
theorem privLoop_ids (s : MainState) (u : Uids) (opts : List (MainOption × PluginCalls)) :
    (∀ e ∈ (privLoop s u opts).events, e.Allowed u) ∧
      (∀ s', (privLoop s u opts).result = .ok s' →
        (privLoop s u opts).uids = u ∧ mainLoop s (opts.map Prod.fst) = .ok s') := by
  induction opts generalizing s with
  | nil => exact ⟨fun e he => (List.not_mem_nil he).elim, fun s' h => ⟨rfl, h⟩⟩
  | cons oc opts ih =>
    obtain ⟨o, c⟩ := oc
    obtain ⟨hevents, hids⟩ := privOption_ids s u o c
    simp only [privLoop]
    cases hresult : (privOption s u o c).result with
    | error e => exact ⟨hevents, fun s' h => by cases h⟩
    | ok s₁ =>
      obtain ⟨huids, hmain⟩ := hids s₁ hresult
      obtain ⟨hlater, hend⟩ := ih s₁
      dsimp only
      rw [huids]
      refine ⟨fun e he => ?_, fun s' h => ?_⟩
      · rcases List.mem_append.mp he with hfirst | hrest
        · exact hevents e hfirst
        · exact hlater e hrest
      · obtain ⟨hsame, hloop⟩ := hend s' h
        refine ⟨hsame, ?_⟩
        rw [List.map_cons, mainLoop, hmain]
        exact hloop

end Loop

/-! ### The whole of `main` -/

section Main

variable {stack : ℕ → HashpipeThreadArgs} {thread_list : List HashpipeThreadDesc}
  {calls : StartCalls} {u : Uids} {opts : List (MainOption × PluginCalls)}

/-- The ids that threads run with. -/
def Uids.dropped (u : Uids) : Uids :=
  if u.euid = 0 then ⟨u.ruid, u.ruid, u.ruid⟩ else { u with euid := u.ruid }

theorem setuid_eq {ok : Bool} {v : Uids} (h : setuid u u.ruid ok = some v) : v = u.dropped := by
  unfold setuid at h
  unfold Uids.dropped
  split at h
  · cases h
  · split at h
    · rename_i hroot
      rw [if_pos hroot]
      exact (Option.some.inj h).symm
    · rename_i hroot
      rw [if_pos (.inl rfl)] at h
      rw [if_neg hroot]
      exact (Option.some.inj h).symm

/-- What happens in `main` is allowed in the loop, or is the start of a thread. -/
theorem privMain_events {e : PrivEvent} (he : e ∈ (privMain stack thread_list calls u opts).2) :
    e.Allowed u ∨ ∃ k s, e = .started k u.dropped ∧
      mainLoop (mainInit stack thread_list) (opts.map Prod.fst) = .ok s ∧ k < s.num_threads := by
  obtain ⟨hevents, hids⟩ := privLoop_ids (mainInit stack thread_list) u opts
  simp only [privMain] at he
  cases hresult : (privLoop (mainInit stack thread_list) u opts).result with
  | error e' =>
    rw [hresult] at he
    exact .inl (hevents e he)
  | ok s =>
    obtain ⟨huids, hmain⟩ := hids s hresult
    rw [hresult] at he
    dsimp only at he
    rw [huids] at he
    cases hset : setuid u u.ruid calls.setuid with
    | none =>
      rw [hset] at he
      exact .inl (hevents e he)
    | some v =>
      obtain rfl := setuid_eq hset
      rw [hset] at he
      rcases List.mem_append.mp he with hbefore | hstart
      · exact .inl (hevents e hbefore)
      · obtain ⟨k, hk, rfl⟩ := List.mem_map.mp hstart
        have hrange := (List.takeWhile_sublist _).subset hk
        exact .inr ⟨k, s, rfl, hmain, List.mem_range.mp (List.mem_reverse.mp hrange)⟩

theorem Uids.dropped_euid (u : Uids) : u.dropped.euid = u.ruid := by
  unfold Uids.dropped
  split <;> rfl

/-- **Privileges.**  For every command line and whatever calls fail: plugins are loaded with the
effective user id of the real user, threads are initialised with the ids that the program was
started with, and a thread is started only after the drop, if all options have come to what `main`
makes of them. -/
theorem privileges :
    (∀ v, .loading v ∈ (privMain stack thread_list calls u opts).2 →
      v = { u with euid := u.ruid }) ∧
    (∀ v, .initing v ∈ (privMain stack thread_list calls u opts).2 → v = u) ∧
    (∀ k v, .started k v ∈ (privMain stack thread_list calls u opts).2 → v = u.dropped ∧
      v.euid = u.ruid ∧
      ∃ s, mainLoop (mainInit stack thread_list) (opts.map Prod.fst) = .ok s ∧
        k < s.num_threads) := by
  refine ⟨fun v hv => ?_, fun v hv => ?_, fun k v hv => ?_⟩
  · rcases privMain_events hv with hallowed | ⟨k, s, heq, -⟩
    · exact hallowed
    · cases heq
  · rcases privMain_events hv with hallowed | ⟨k, s, heq, -⟩
    · exact hallowed
    · cases heq
  · rcases privMain_events hv with hallowed | ⟨k', s, heq, hmain, hk⟩
    · exact hallowed.elim
    · cases heq
      exact ⟨rfl, u.dropped_euid, s, hmain, hk⟩

/-- What a process can come to have for ids, by any calls of `seteuid` and `setuid`. -/
inductive Uids.Reaches (u : Uids) : Uids → Prop
  | refl : Reaches u u
  | seteuid {v w : Uids} {id : ℕ} : Reaches u v → CommandLine.seteuid v id true = some w →
      Reaches u w
  | setuid {v w : Uids} {id : ℕ} : Reaches u v → CommandLine.setuid v id true = some w →
      Reaches u w

/-- A process whose three ids are one user's, not root's, keeps them. -/
theorem Uids.Reaches.same {id : ℕ} {v : Uids} (hid : id ≠ 0)
    (h : Uids.Reaches ⟨id, id, id⟩ v) : v = ⟨id, id, id⟩ := by
  induction h with
  | refl => rfl
  | @seteuid v w id' _ hset ih =>
    rw [ih] at hset
    obtain ⟨⟨hmay, -⟩, heq⟩ := Option.ite_none_right_eq_some.mp hset
    obtain rfl : id' = id := by
      rcases hmay with hroot | hsame | hsame | hsame
      · exact absurd hroot hid
      · exact hsame
      · exact hsame
      · exact hsame
    exact (Option.some.inj heq).symm
  | @setuid v w id' _ hset ih =>
    rw [ih] at hset
    simp only [CommandLine.setuid, Bool.not_true, Bool.false_eq_true, if_false, if_neg hid,
      or_self] at hset
    obtain ⟨rfl, heq⟩ := Option.ite_none_right_eq_some.mp hset
    exact (Option.some.inj heq).symm

/-- **When the drop is for good.**  A thread started by a real user other than root can get another
effective id than that user's exactly if the program is neither root's nor the user's own. -/
theorem privileges_dropped_iff (hruid : u.ruid ≠ 0) {k : ℕ} {v : Uids}
    (hstart : .started k v ∈ (privMain stack thread_list calls u opts).2) :
    (∀ w, Uids.Reaches v w → w.euid = u.ruid) ↔ u.euid = 0 ∨ u.suid = u.ruid := by
  have hv : v = u.dropped := by
    rcases privMain_events hstart with hallowed | ⟨k', s, heq, -⟩
    · exact hallowed.elim
    · cases heq
      rfl
  rw [hv]
  constructor
  · intro hkeeps
    by_contra hneither
    obtain ⟨hroot, hown⟩ := not_or.mp hneither
    have hdropped : u.dropped = { u with euid := u.ruid } := if_neg hroot
    have hback : CommandLine.seteuid u.dropped u.suid true = some { u with euid := u.suid } := by
      rw [hdropped]
      exact if_pos ⟨.inr (.inr (.inr rfl)), rfl⟩
    exact hown (hkeeps _ (.seteuid .refl hback))
  · intro hgood w hw
    have hids : u.dropped = ⟨u.ruid, u.ruid, u.ruid⟩ := by
      unfold Uids.dropped
      split
      · rfl
      · rename_i hroot
        rw [hgood.resolve_left hroot]
    rw [hids] at hw
    rw [hw.same hruid]

end Main

/-- A plugin with the null thread, and the thread. -/
def pluginThread : List (MainOption × PluginCalls) :=
  [(.plugin (some [nullThread]), ⟨true, true⟩), (.thread nullThread.name calmInit, ⟨true, true⟩)]

/-- User 1000 runs a program of user 5. -/
def otherOwner : Uids := ⟨1000, 5, 5⟩

theorem pluginThread_starts :
    .started 0 ⟨1000, 1000, 5⟩ ∈ (privMain (fun _ => zeroArgs) [] calmStart otherOwner pluginThread).2 := by
  have hevents : (privMain (fun _ => zeroArgs) [] calmStart otherOwner pluginThread).2 =
      [.loading ⟨1000, 1000, 5⟩, .initing ⟨1000, 5, 5⟩, .started 0 ⟨1000, 1000, 5⟩] := rfl
  rw [hevents]
  simp

theorem privileges_dropped_iff_otherOwner :
    (∀ w, Uids.Reaches ⟨1000, 1000, 5⟩ w → w.euid = otherOwner.ruid) ↔
      otherOwner.euid = 0 ∨ otherOwner.suid = otherOwner.ruid :=
  privileges_dropped_iff (by decide) pluginThread_starts

end Hashpipe.CommandLine
