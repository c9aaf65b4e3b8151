import Mathlib.Tactic

/-!
# Queue pairs and completion queues

What `hashpipe_ibverbs.c` uses of the verbs library in its send and receive paths: the
state of a queue pair, and `ibv_poll_cq`, which takes up to a batch of completions off
the front of a completion queue and reports fewer only when it has emptied it.
-/

namespace Hashpipe.Ibverbs

inductive QpState
  | RESET
  | INIT
  | RTR
  | RTS
  | other
  deriving DecidableEq

def wcBatchSize : ℕ := 16

/-- The completions reported and those that stay queued. -/
def ibvPollCq {α : Type} (cq : List α) : List α × List α := (cq.take wcBatchSize, cq.drop wcBatchSize)

theorem ibvPollCq_append {α : Type} (cq : List α) : (ibvPollCq cq).1 ++ (ibvPollCq cq).2 = cq :=
  List.take_append_drop _ _

/-- A poll that reports nothing found the queue empty. -/
theorem ibvPollCq_eq_nil {α : Type} {cq : List α} (h : (ibvPollCq cq).1 = []) : cq = [] := by
  rcases List.take_eq_nil_iff.mp h with hzero | hnil
  · exact absurd hzero (by decide)
  · exact hnil

/-- `ibv_modify_qp` to `target` on a queue pair in state `current`. -/
def ibvModifyQp (modify : QpState → Bool) (current target : QpState) : QpState × Bool :=
  if modify target then (target, true) else (current, false)

/-- Run the next step of the ladder if this one went through. -/
def thenReady (r : QpState × Bool) (k : QpState → QpState × Bool) : QpState × Bool :=
  if r.2 then k r.1 else r

/-- The first loop of `hashpipe_ibv_get_pkts`, for one queue pair: climb to RTS.  The cases
of the `switch` fall through. -/
def sendReady (modify : QpState → Bool) (state : QpState) : QpState × Bool :=
  let fromRtr := fun s => ibvModifyQp modify s .RTS
  let fromInit := fun s => thenReady (ibvModifyQp modify s .RTR) fromRtr
  let fromReset := fun s => thenReady (ibvModifyQp modify s .INIT) fromInit
  match state with
  | .RESET => fromReset .RESET
  | .INIT => fromInit .INIT
  | .RTR => fromRtr .RTR
  | .RTS => (.RTS, true)
  | .other => (.other, false)

theorem sendReady_ne_other (modify : QpState → Bool) {state : QpState} (h : state ≠ .other) :
    (sendReady modify state).1 ≠ .other := by
  cases state <;> simp only [sendReady, thenReady, ibvModifyQp] <;> grind

/-- Where every `ibv_modify_qp` succeeds, a queue pair in a known state gets to RTS. -/
theorem sendReady_succeeds {modify : QpState → Bool} (hmodify : ∀ target, modify target = true)
    {state : QpState} (h : state ≠ .other) : sendReady modify state = (.RTS, true) := by
  cases state with
  | other => exact absurd rfl h
  | _ => simp [sendReady, thenReady, ibvModifyQp, hmodify]

/-- The first loop of `hashpipe_ibv_recv_pkts`, for one queue pair: climb to RTR. -/
def recvReady (modify : QpState → Bool) (state : QpState) : QpState × Bool :=
  let fromInit := fun s => ibvModifyQp modify s .RTR
  let fromReset := fun s => thenReady (ibvModifyQp modify s .INIT) fromInit
  match state with
  | .RESET => fromReset .RESET
  | .INIT => fromInit .INIT
  | .RTR => (.RTR, true)
  | .RTS => (.RTS, true)
  | .other => (.other, false)

end Hashpipe.Ibverbs
