import Hashpipe.Ibverbs.Verbs
import Hashpipe.Library.LinkedChain
import Hashpipe.Library.QueueFamily
import Hashpipe.Library.StepSystem

/-!
# Receive packets

`hashpipe_ibv_recv_pkts` and `hashpipe_ibv_release_pkts`.  A work request is named by its
index in `recv_pkt_buf`, its `wr_id`.  It is posted on the queue pair it was linked for at
initialisation, completed into that queue pair's receive CQ, polled into the list that
`recv_pkts` rebuilds through the old links, and reposted by `release_pkts`, which looks at
the first packet of a list only.

All receive CQs share one completion channel.  A CQ that is armed turns its next completion
into an event there and is no longer armed; `recv_pkts` takes one event, re-arms its CQ and
only then drains it.  The event's CQ goes into `ev_cq` and its context into `ev_cq_ctx`, a
store of eight bytes through an `int`: where the compiler puts `ev_cq` right behind it, the
low half of `ev_cq` is lost before the CQ is acknowledged.

`RecvInv` is about where the work requests are, `WakeInv` about the events.
-/

namespace Hashpipe.Ibverbs

open LinkedChain QueueFamily StepSystem

/-- The context's fields, as they are once `hashpipe_ibv_init` has replaced zeros, and where
the CQs and the local variables of `recv_pkts` lie in memory. -/
structure RecvConfig where
  nqp : ℕ
  recv_pkt_num : ℕ
  /-- The pointers `recv_cq[q]`. -/
  cqAddr : ℕ → ℕ
  cqAddr_inj : ∀ p < nqp, ∀ q < nqp, cqAddr p = cqAddr q → p = q
  /-- Whether the four bytes behind `ev_cq_ctx` are the low half of `ev_cq`; if not, they
  are taken to be nobody's. -/
  evCqBehind : Bool

def RecvConfig.total (c : RecvConfig) : ℕ := c.recv_pkt_num * c.nqp

/-- `ev_cq` after `ibv_get_cq_event` has stored CQ `q` in it and then `(void *)q` in
`ev_cq_ctx`. -/
def RecvConfig.evCq (c : RecvConfig) (q : ℕ) : ℕ :=
  if c.evCqBehind then c.cqAddr q / 2 ^ 32 * 2 ^ 32 + q / 2 ^ 32 else c.cqAddr q

/-- The receive CQ at an address. -/
def RecvConfig.cqAt (c : RecvConfig) (addr : ℕ) : Option ℕ :=
  (List.range c.nqp).find? fun q => c.cqAddr q = addr

/-- What `recv_pkts` reads of a work completion. -/
structure Wc where
  wr_id : ℕ
  success : Bool
  byte_len : ℕ

inductive RecvPc
  | idle
  /-- In the loop over the queue pairs' states, at `i`. -/
  | preparing (i : ℕ)
  /-- In `poll`. -/
  | polling
  | gettingEvent
  | acking (q : ℕ)
  | arming (q : ℕ)
  /-- In the loop that empties the CQ, with `recv_head` and `recv_tail`. -/
  | draining (q : ℕ) (recv_head recv_tail : Option ℕ)
  /-- A verbs call was given an `ev_cq` that points to no CQ. -/
  | undefined
  deriving DecidableEq

structure RecvState where
  wr_id : ℕ → ℕ
  next : ℕ → Option ℕ
  length : ℕ → ℕ
  qp : ℕ → QpState
  posted : ℕ → List ℕ
  recv_cq : ℕ → List Wc
  armed : ℕ → Bool
  /-- The CQs with an event on `recv_cc`, oldest first. -/
  channel : List ℕ
  pc : RecvPc
  /-- The lists that `recv_pkts` has returned and `release_pkts` not been given. -/
  held : List ℕ
  result : Option ℕ
  /-- History: the work requests polled by the call in progress, and by queue pair all
  that the NIC completed and all that was returned. -/
  polled : List ℕ
  completed : ℕ → List ℕ
  delivered : ℕ → List ℕ

inductive RecvAction
  | recvPkts
  | prepare (modify : QpState → Bool)
  /-- `poll` returns: the channel is readable, or a timeout or an error. -/
  | poll (readable : Bool)
  | getEvent (fails : Bool)
  | ack
  | reqNotify (fails : Bool)
  | pollCq (fails : Bool)
  | releasePkts (recv_pkt : Option ℕ)
  /-- A packet arrives on a queue pair and uses up a posted work request. -/
  | arrive (q : ℕ) (wc : Wc)

/-- The links that `hashpipe_ibv_init` makes, one chain for each queue pair. -/
def recvLinks (recv_pkt_num i : ℕ) : Option ℕ :=
  if i % recv_pkt_num < recv_pkt_num - 1 then some (i + 1) else none

/-- The part of `hashpipe_ibv_init` that links and posts the receive packets.  Where the
product is not below 2^31 a loop variable overflows, or (when it wraps around) the links
are written past the array: no defined result. -/
def hashpipeIbvInitRecv (c : RecvConfig) : Option RecvState :=
  if c.total = 0 ∨ 2 ^ 31 ≤ c.total then none
  else some
    { wr_id := fun i => i
      next := recvLinks c.recv_pkt_num
      length := fun _ => 0
      qp := fun _ => .INIT
      posted := fun q => walk (recvLinks c.recv_pkt_num) c.total (some (q * c.recv_pkt_num))
      recv_cq := fun _ => []
      armed := fun _ => true
      channel := []
      pc := .idle
      held := []
      result := none
      polled := []
      completed := fun _ => []
      delivered := fun _ => [] }

/-- The packets' links and lengths with `recv_head` and `recv_tail`. -/
structure RecvList where
  next : ℕ → Option ℕ
  length : ℕ → ℕ
  recv_head : Option ℕ
  recv_tail : Option ℕ

/-- The body of the loop over one batch of completions. -/
def addCompletion (r : RecvList) (wc : Wc) : RecvList :=
  let length := Function.update r.length wc.wr_id (if wc.success then wc.byte_len else 0)
  match r.recv_head, r.recv_tail with
  | none, _ => ⟨r.next, length, some wc.wr_id, some wc.wr_id⟩
  | some head, some tail =>
    ⟨Function.update r.next tail (some wc.wr_id), length, some head, some wc.wr_id⟩
  | some head, none => ⟨r.next, length, some head, none⟩

/-- `return NULL`. -/
def RecvState.returnNull (s : RecvState) : RecvState :=
  { s with pc := .idle, result := none, polled := [] }

/-- The last lines of `recv_pkts`: terminate the list and return it. -/
def RecvState.returnList (s : RecvState) (q : ℕ) (recv_head recv_tail : Option ℕ) : RecvState :=
  { s with next := match recv_tail with
             | none => s.next
             | some tail => Function.update s.next tail none
           pc := .idle
           result := recv_head
           held := recv_head.toList ++ s.held
           polled := []
           delivered := Function.update s.delivered q (s.delivered q ++ s.polled) }

/-- The NIC's side: the completion is queued, and an armed CQ raises an event. -/
def RecvState.arrive (s : RecvState) (q : ℕ) (wc : Wc) : RecvState :=
  { s with posted := Function.update s.posted q ((s.posted q).erase wc.wr_id)
           recv_cq := Function.update s.recv_cq q (s.recv_cq q ++ [wc])
           armed := Function.update s.armed q false
           channel := if s.armed q then s.channel ++ [q] else s.channel
           completed := Function.update s.completed q (s.completed q ++ [wc.wr_id]) }

def recvNext (c : RecvConfig) (s : RecvState) : RecvAction → Option RecvState
  | .recvPkts => if s.pc = .idle then some { s with pc := .preparing 0 } else none
  | .prepare modify =>
    match s.pc with
    | .preparing i =>
      if i < c.nqp then
        let r := recvReady modify (s.qp i)
        let s' := { s with qp := Function.update s.qp i r.1 }
        if r.2 then some { s' with pc := .preparing (i + 1) } else some s'.returnNull
      else some { s with pc := .polling }
    | _ => none
  | .poll readable =>
    if s.pc = .polling then
      if readable then
        if s.channel = [] then none else some { s with pc := .gettingEvent }
      else some s.returnNull
    else none
  | .getEvent fails =>
    if s.pc = .gettingEvent then
      match fails, s.channel with
      | false, q :: channel =>
        match c.cqAt (c.evCq q) with
        | some ev_cq => some { s with channel := channel, pc := .acking ev_cq }
        | none => some { s with channel := channel, pc := .undefined }
      | _, _ => some s.returnNull
    else none
  | .ack =>
    match s.pc with
    | .acking q => some { s with pc := .arming q }
    | _ => none
  | .reqNotify fails =>
    match s.pc with
    | .arming q =>
      if fails then some s.returnNull
      else some { s with armed := Function.update s.armed q true, pc := .draining q none none }
    | _ => none
  | .pollCq fails =>
    match s.pc with
    | .draining q recv_head recv_tail =>
      if fails then some s.returnNull
      else
        let wc := ibvPollCq (s.recv_cq q)
        if wc.1 = [] then some (s.returnList q recv_head recv_tail)
        else
          let r := wc.1.foldl addCompletion ⟨s.next, s.length, recv_head, recv_tail⟩
          some { s with next := r.next, length := r.length,
                        recv_cq := Function.update s.recv_cq q wc.2,
                        polled := s.polled ++ wc.1.map Wc.wr_id,
                        pc := .draining q r.recv_head r.recv_tail }
    | _ => none
  | .releasePkts recv_pkt =>
    match recv_pkt with
    | none => some s
    | some head =>
      if head ∈ s.held then
        let i := s.wr_id head / c.recv_pkt_num
        let wrs := (walk s.next c.total (some head)).map s.wr_id
        some { s with posted := Function.update s.posted i (s.posted i ++ wrs),
                      held := s.held.erase head }
      else none
  | .arrive q wc => if q < c.nqp ∧ wc.wr_id ∈ s.posted q then some (s.arrive q wc) else none

def recvSystem (c : RecvConfig) : System RecvState RecvAction where
  init s := hashpipeIbvInitRecv c = some s
  next := recvNext c

/-- All that one step can do. -/
inductive RecvMove (c : RecvConfig) (s : RecvState) : RecvAction → RecvState → Prop
  | called : s.pc = .idle → RecvMove c s .recvPkts { s with pc := .preparing 0 }
  | prepared {modify : QpState → Bool} {i : ℕ} (qp : ℕ → QpState) : s.pc = .preparing i →
      RecvMove c s (.prepare modify) { s with qp := qp, pc := .preparing (i + 1) }
  | prepareFails {modify : QpState → Bool} {i : ℕ} (qp : ℕ → QpState) : s.pc = .preparing i →
      RecvMove c s (.prepare modify) { s with qp := qp }.returnNull
  | polls {modify : QpState → Bool} {i : ℕ} : s.pc = .preparing i →
      RecvMove c s (.prepare modify) { s with pc := .polling }
  | readable : s.pc = .polling → RecvMove c s (.poll true) { s with pc := .gettingEvent }
  | notReadable : s.pc = .polling → RecvMove c s (.poll false) s.returnNull
  | gotEvent {q ev_cq : ℕ} {channel : List ℕ} : s.pc = .gettingEvent →
      s.channel = q :: channel → c.cqAt (c.evCq q) = some ev_cq →
        RecvMove c s (.getEvent false) { s with channel := channel, pc := .acking ev_cq }
  | gotNoCq {q : ℕ} {channel : List ℕ} : s.pc = .gettingEvent → s.channel = q :: channel →
      c.cqAt (c.evCq q) = none →
        RecvMove c s (.getEvent false) { s with channel := channel, pc := .undefined }
  | eventFails {fails : Bool} : s.pc = .gettingEvent →
      RecvMove c s (.getEvent fails) s.returnNull
  | acked {q : ℕ} : s.pc = .acking q → RecvMove c s .ack { s with pc := .arming q }
  | armFails {q : ℕ} : s.pc = .arming q → RecvMove c s (.reqNotify true) s.returnNull
  | armed {q : ℕ} : s.pc = .arming q → RecvMove c s (.reqNotify false)
      { s with armed := Function.update s.armed q true, pc := .draining q none none }
  | cqFails {q : ℕ} {recv_head recv_tail : Option ℕ} : s.pc = .draining q recv_head recv_tail →
      RecvMove c s (.pollCq true) s.returnNull
  | drained {q : ℕ} {recv_head recv_tail : Option ℕ} : s.pc = .draining q recv_head recv_tail →
      (ibvPollCq (s.recv_cq q)).1 = [] →
        RecvMove c s (.pollCq false) (s.returnList q recv_head recv_tail)
  | polled {q : ℕ} {recv_head recv_tail : Option ℕ} {wc : List Wc} {r : RecvList} :
      s.pc = .draining q recv_head recv_tail → wc = (ibvPollCq (s.recv_cq q)).1 →
      r = wc.foldl addCompletion ⟨s.next, s.length, recv_head, recv_tail⟩ →
        RecvMove c s (.pollCq false)
          { s with next := r.next, length := r.length,
                   recv_cq := Function.update s.recv_cq q (ibvPollCq (s.recv_cq q)).2,
                   polled := s.polled ++ wc.map Wc.wr_id,
                   pc := .draining q r.recv_head r.recv_tail }
  | releasedNone : RecvMove c s (.releasePkts none) s
  | released {head i : ℕ} : head ∈ s.held → i = s.wr_id head / c.recv_pkt_num →
      RecvMove c s (.releasePkts (some head))
        { s with posted := Function.update s.posted i
                   (s.posted i ++ (walk s.next c.total (some head)).map s.wr_id),
                 held := s.held.erase head }
  | arrived {q : ℕ} {wc : Wc} : q < c.nqp → wc.wr_id ∈ s.posted q →
      RecvMove c s (.arrive q wc) (s.arrive q wc)

theorem recvNext_move {c : RecvConfig} {s t : RecvState} {a : RecvAction}
    (h : recvNext c s a = some t) : RecvMove c s a t := by
  cases a with
  | recvPkts =>
    simp only [recvNext, Option.ite_none_right_eq_some] at h
    obtain ⟨hpc, h⟩ := h
    obtain rfl := Option.some.inj h
    exact .called hpc
  | prepare modify =>
    simp only [recvNext] at h
    split at h
    · rename_i i hpc
      split at h
      · split at h <;> obtain rfl := Option.some.inj h
        · exact .prepared _ hpc
        · exact .prepareFails _ hpc
      · obtain rfl := Option.some.inj h
        exact .polls hpc
    · cases h
  | poll readable =>
    simp only [recvNext, Option.ite_none_right_eq_some] at h
    obtain ⟨hpc, h⟩ := h
    cases readable with
    | true =>
      simp only [if_true, Option.ite_none_left_eq_some] at h
      obtain ⟨-, h⟩ := h
      obtain rfl := Option.some.inj h
      exact .readable hpc
    | false =>
      obtain rfl := Option.some.inj h
      exact .notReadable hpc
  | getEvent fails =>
    simp only [recvNext, Option.ite_none_right_eq_some] at h
    obtain ⟨hpc, h⟩ := h
    split at h
    · rename_i q channel hchannel
      split at h <;> obtain rfl := Option.some.inj h
      · exact .gotEvent hpc hchannel ‹_›
      · exact .gotNoCq hpc hchannel ‹_›
    · obtain rfl := Option.some.inj h
      exact .eventFails hpc
  | ack =>
    simp only [recvNext] at h
    split at h
    · rename_i q hpc
      obtain rfl := Option.some.inj h
      exact .acked hpc
    · cases h
  | reqNotify fails =>
    simp only [recvNext] at h
    split at h
    · rename_i q hpc
      cases fails with
      | true =>
        obtain rfl := Option.some.inj h
        exact .armFails hpc
      | false =>
        obtain rfl := Option.some.inj h
        exact .armed hpc
    · cases h
  | pollCq fails =>
    simp only [recvNext] at h
    split at h
    · rename_i q recv_head recv_tail hpc
      cases fails with
      | true =>
        obtain rfl := Option.some.inj h
        exact .cqFails hpc
      | false =>
        simp only [Bool.false_eq_true, if_false] at h
        split at h <;> obtain rfl := Option.some.inj h
        · exact .drained hpc ‹_›
        · exact .polled hpc rfl rfl
    · cases h
  | releasePkts recv_pkt =>
    cases recv_pkt with
    | none =>
      obtain rfl := Option.some.inj h
      exact .releasedNone
    | some head =>
      simp only [recvNext, Option.ite_none_right_eq_some] at h
      obtain ⟨hh, h⟩ := h
      obtain rfl := Option.some.inj h
      exact .released hh rfl
  | arrive q wc =>
    simp only [recvNext, Option.ite_none_right_eq_some] at h
    obtain ⟨⟨hq, hwc⟩, h⟩ := h
    obtain rfl := Option.some.inj h
    exact .arrived hq hwc

/-- The verbs calls that `recv_pkts` makes once its queue pairs are ready succeed. -/
def verbsSucceed (_ : RecvState) : RecvAction → Prop
  | .getEvent fails | .reqNotify fails | .pollCq fails => fails = false
  | _ => True

instance (s : RecvState) (a : RecvAction) : Decidable (verbsSucceed s a) := by
  cases a <;> simp only [verbsSucceed] <;> infer_instance

/-- `recv_head` of the call in progress. -/
def RecvState.recvHead (s : RecvState) : Option ℕ :=
  match s.pc with
  | .draining _ recv_head _ => recv_head
  | _ => none

/-- `ibv_poll_cq` fails only while the call in progress has polled nothing. -/
def pollFailsFirst (s : RecvState) : RecvAction → Prop
  | .pollCq true => s.recvHead = none
  | _ => True

instance (s : RecvState) (a : RecvAction) : Decidable (pollFailsFirst s a) := by
  cases a <;> simp only [pollFailsFirst] <;> first | infer_instance | (split <;> infer_instance)

theorem pollFailsFirst_of_succeed (s : RecvState) (a : RecvAction) (h : verbsSucceed s a) :
    pollFailsFirst s a := by
  cases a with
  | pollCq fails =>
    obtain rfl : fails = false := h
    trivial
  | _ => trivial

/-- The next event leaves a CQ in `ev_cq`. -/
def evCqIsCq (c : RecvConfig) (s : RecvState) : RecvAction → Prop
  | .getEvent false => ∀ q ∈ s.channel.head?, (c.cqAt (c.evCq q)).isSome
  | _ => True

/-- The next event leaves its own CQ in `ev_cq`. -/
def evCqKept (c : RecvConfig) (s : RecvState) : RecvAction → Prop
  | .getEvent false => ∀ q ∈ s.channel.head?, c.cqAt (c.evCq q) = some q
  | _ => True

theorem evCqIsCq_of_kept {c : RecvConfig} {s : RecvState} {a : RecvAction}
    (h : evCqKept c s a) : evCqIsCq c s a := by
  unfold evCqKept at h
  unfold evCqIsCq
  split
  · intro q hq
    rw [h q hq]
    rfl
  · trivial

theorem RecvConfig.cqAt_lt {c : RecvConfig} {addr q : ℕ} (h : c.cqAt addr = some q) :
    q < c.nqp := List.mem_range.mp (List.mem_of_find?_eq_some h)

/-- The CQs are told apart by their addresses. -/
theorem RecvConfig.cqAt_cqAddr {c : RecvConfig} {q : ℕ} (hq : q < c.nqp) :
    c.cqAt (c.cqAddr q) = some q := by
  have hfound : (c.cqAt (c.cqAddr q)).isSome := by
    rw [RecvConfig.cqAt, List.find?_isSome]
    exact ⟨q, List.mem_range.mpr hq, decide_eq_true rfl⟩
  obtain ⟨p, hp⟩ := Option.isSome_iff_exists.mp hfound
  have haddr : c.cqAddr p = c.cqAddr q := by simpa using List.find?_some hp
  rw [hp, c.cqAddr_inj p (RecvConfig.cqAt_lt hp) q hq haddr]

/-- The work requests on the list that starts at `head`. -/
def RecvState.listFrom (c : RecvConfig) (s : RecvState) (head : ℕ) : List ℕ :=
  walk s.next c.total (some head)

/-- The `wr_id`s of the completions in each receive CQ. -/
def RecvState.cqWrIds (s : RecvState) (q : ℕ) : List ℕ := (s.recv_cq q).map Wc.wr_id

/-- Every work request, once for each place it is in. -/
def RecvState.places (c : RecvConfig) (s : RecvState) : Multiset ℕ :=
  contents c.nqp s.posted + contents c.nqp s.cqWrIds + (s.polled : Multiset ℕ) +
    (s.held.flatMap (s.listFrom c) : List ℕ)

/-- The same between calls: what the NIC has and what the caller can reach. -/
def RecvState.kept (c : RecvConfig) (s : RecvState) : Multiset ℕ :=
  contents c.nqp s.posted + contents c.nqp s.cqWrIds + (s.held.flatMap (s.listFrom c) : List ℕ)

/-- What the program counter says about the list under construction. -/
def RecvState.building (c : RecvConfig) (s : RecvState) : Prop :=
  match s.pc with
  | .draining q recv_head recv_tail =>
    q < c.nqp ∧ Growing s.next recv_head recv_tail s.polled ∧
      ∀ a ∈ s.polled, a / c.recv_pkt_num = q
  | .acking q | .arming q => q < c.nqp ∧ s.polled = []
  | _ => s.polled = []

/-- The part of the history that the call in progress has polled from queue pair `q`. -/
def RecvState.polledFrom (s : RecvState) (q : ℕ) : List ℕ :=
  match s.pc with
  | .draining q' _ _ => if q = q' then s.polled else []
  | _ => []

/-- `lists h` is the caller's list that starts at `h`. -/
structure RecvInv (c : RecvConfig) (s : RecvState) (lists : ℕ → List ℕ) : Prop where
  wr_id : ∀ i < c.total, s.wr_id i = i
  heldChain : Chains s.next s.held lists
  heldQp : ∀ h ∈ s.held, ∀ a ∈ lists h, a / c.recv_pkt_num = h / c.recv_pkt_num
  postedQp : ∀ q < c.nqp, ∀ a ∈ s.posted q, a / c.recv_pkt_num = q
  cqQp : ∀ q < c.nqp, ∀ a ∈ s.cqWrIds q, a / c.recv_pkt_num = q
  channel : ∀ q ∈ s.channel, q < c.nqp
  building : s.building c
  places : contents c.nqp s.posted + contents c.nqp s.cqWrIds + (s.polled : Multiset ℕ) +
    (s.held.flatMap lists : List ℕ) = Multiset.range c.total
  history : ∀ q < c.nqp, s.completed q = s.delivered q ++ s.polledFrom q ++ s.cqWrIds q

section Invariant

variable {c : RecvConfig} {s t : RecvState} {lists : ℕ → List ℕ}

/-! ### Building the list -/

/-- One completion goes behind the tail. -/
theorem addCompletion_spec {r : RecvList} {l : List ℕ} (wc : Wc)
    (hg : Growing r.next r.recv_head r.recv_tail l) (hl : l.Nodup) :
    Growing (addCompletion r wc).next (addCompletion r wc).recv_head
        (addCompletion r wc).recv_tail (l ++ [wc.wr_id]) ∧
      ∀ a, a ∉ l → (addCompletion r wc).next a = r.next a := by
  rcases r with ⟨next, length, head, tail⟩
  cases tail with
  | none =>
    rcases hg with ⟨rfl, rfl, -⟩ | ⟨_, _, _, htail, _⟩
    · exact ⟨Growing.first _, fun _ _ => rfl⟩
    · cases htail
  | some last =>
    cases head with
    | none =>
      rcases hg with ⟨_, _, htail⟩ | ⟨front, _, _, _, hseg⟩
      · cases htail
      · cases front with
        | nil => cases hseg
        | cons _ _ => cases hseg.1
    | some head =>
      refine ⟨hg.append hl, fun a ha => Function.update_of_ne ?_ _ _⟩
      rintro rfl
      rcases hg with ⟨_, _, htail⟩ | ⟨front, _, rfl, htail, _⟩
      · cases htail
      · cases htail
        exact ha (List.mem_append_right _ List.mem_cons_self)

/-- A batch of completions goes behind the tail, in order. -/
theorem addCompletions_spec {wcs : List Wc} : ∀ {r : RecvList} {l : List ℕ},
    Growing r.next r.recv_head r.recv_tail l → (l ++ wcs.map Wc.wr_id).Nodup →
    Growing (wcs.foldl addCompletion r).next (wcs.foldl addCompletion r).recv_head
        (wcs.foldl addCompletion r).recv_tail (l ++ wcs.map Wc.wr_id) ∧
      ∀ a, a ∉ l ++ wcs.map Wc.wr_id → (wcs.foldl addCompletion r).next a = r.next a := by
  induction wcs with
  | nil =>
    intro r l hg _
    rw [List.map_nil, List.append_nil]
    exact ⟨hg, fun _ _ => rfl⟩
  | cons wc wcs ih =>
    intro r l hg hn
    have hassoc : l ++ (wc :: wcs).map Wc.wr_id = (l ++ [wc.wr_id]) ++ wcs.map Wc.wr_id := by
      simp
    rw [hassoc] at hn ⊢
    have hl : l.Nodup := (List.nodup_append.mp (List.nodup_append.mp hn).1).1
    obtain ⟨hone, hframe⟩ := addCompletion_spec wc hg hl
    obtain ⟨hall, hframe'⟩ := ih hone hn
    refine ⟨hall, fun a ha => (hframe' a ha).trans (hframe a fun hmem => ha ?_)⟩
    exact List.mem_append_left _ (List.mem_append_left _ hmem)

/-! ### Where the work requests are -/

theorem RecvInv.nodup (hi : RecvInv c s lists) :
    (contents c.nqp s.posted + contents c.nqp s.cqWrIds + (s.polled : Multiset ℕ) +
      (s.held.flatMap lists : List ℕ)).Nodup := by
  rw [hi.places]
  exact Multiset.nodup_range _

/-- What was polled and what is still queued on one CQ are different work requests, and
neither is on a list of the caller. -/
theorem RecvInv.polled_apart (hi : RecvInv c s lists) {q : ℕ} (hq : q < c.nqp) :
    (s.polled ++ s.cqWrIds q).Nodup ∧
      ∀ h ∈ s.held, ∀ a ∈ lists h, a ∉ s.polled ++ s.cqWrIds q := by
  have hcq : (s.cqWrIds q : Multiset ℕ) ≤ contents c.nqp s.cqWrIds :=
    Finset.single_le_sum (f := fun q => (s.cqWrIds q : Multiset ℕ))
      (fun _ _ => Multiset.zero_le _) (Finset.mem_range.mpr hq)
  obtain ⟨rest, hrest⟩ := Multiset.le_iff_exists_add.mp hcq
  have hsplit : contents c.nqp s.posted + contents c.nqp s.cqWrIds + (s.polled : Multiset ℕ) +
      (s.held.flatMap lists : List ℕ) =
      (s.polled ++ s.cqWrIds q : List ℕ) + ((s.held.flatMap lists : List ℕ) +
        (contents c.nqp s.posted + rest)) := by
    rw [hrest, ← Multiset.coe_add]
    abel
  have hn := hi.nodup
  rw [hsplit] at hn
  obtain ⟨hleft, -, hdisj⟩ := Multiset.nodup_add.mp hn
  refine ⟨Multiset.coe_nodup.mp hleft, fun h hh a ha hmem => ?_⟩
  exact Multiset.disjoint_left.mp hdisj hmem
    (Multiset.mem_add.mpr (.inl (List.mem_flatMap.mpr ⟨h, hh, ha⟩)))

theorem RecvInv.length_le (hi : RecvInv c s lists) {h : ℕ} (hh : h ∈ s.held) :
    (lists h).length ≤ c.total := by
  have hcard := congrArg Multiset.card hi.places
  have hsplit := congrArg Multiset.card (flatMap_erase hh lists)
  simp only [Multiset.card_add, Multiset.coe_card, Multiset.card_range] at hcard hsplit
  omega

theorem RecvInv.held_lt (hi : RecvInv c s lists) {h a : ℕ} (hh : h ∈ s.held)
    (ha : a ∈ lists h) : a < c.total := by
  have hmem : a ∈ contents c.nqp s.posted + contents c.nqp s.cqWrIds + (s.polled : Multiset ℕ) +
      (s.held.flatMap lists : List ℕ) :=
    Multiset.mem_add.mpr (.inr (List.mem_flatMap.mpr ⟨h, hh, ha⟩))
  rw [hi.places] at hmem
  exact Multiset.mem_range.mp hmem

theorem RecvInv.map_wr_id (hi : RecvInv c s lists) {h : ℕ} (hh : h ∈ s.held) :
    (lists h).map s.wr_id = lists h := by
  have hid : ∀ a ∈ lists h, s.wr_id a = id a := fun a ha => hi.wr_id a (hi.held_lt hh ha)
  rw [List.map_congr_left hid, List.map_id]

/-- A list starts with its head. -/
theorem RecvInv.head_mem (hi : RecvInv c s lists) {h : ℕ} (hh : h ∈ s.held) : h ∈ lists h := by
  have hhead := (hi.heldChain h hh).head
  exact List.mem_of_mem_head? (Option.mem_def.mpr hhead.symm)

theorem RecvInv.walk_eq (hi : RecvInv c s lists) {h : ℕ} (hh : h ∈ s.held) :
    walk s.next c.total (some h) = lists h :=
  (hi.heldChain h hh).walk_eq (hi.length_le hh)

/-! ### Initially all work requests are posted -/

/-- The blocks of `r` numbers make up the first `n * r`. -/
theorem contents_blocks (r n : ℕ) :
    contents n (fun q => List.range' (q * r) r) = Multiset.range (n * r) := by
  induction n with
  | zero =>
    rw [Nat.zero_mul]
    rfl
  | succ n ih =>
    have hstep : contents (n + 1) (fun q => List.range' (q * r) r) =
        contents n (fun q => List.range' (q * r) r) + (List.range' (n * r) r : List ℕ) :=
      Finset.sum_range_succ _ n
    have happ := List.range'_append_1 (s := 0) (m := n * r) (n := r)
    rw [Nat.zero_add, ← List.range_eq_range', ← List.range_eq_range'] at happ
    rw [hstep, ih, Multiset.range, Multiset.range, Multiset.coe_add, happ, Nat.succ_mul]

theorem div_of_mem_block {r q a : ℕ} (ha : a ∈ List.range' (q * r) r) : a / r = q := by
  obtain ⟨hlo, hhi⟩ := List.mem_range'_1.mp ha
  have hr : 0 < r := by omega
  rw [← Nat.succ_mul] at hhi
  exact Nat.div_eq_of_lt_le hlo hhi

theorem mod_of_block {r q i : ℕ} (hlo : q * r ≤ i) (hhi : i < q * r + r) :
    i % r = i - q * r := by
  obtain ⟨k, rfl⟩ := Nat.exists_eq_add_of_le hlo
  rw [Nat.mul_comm q r, Nat.mul_add_mod, Nat.mod_eq_of_lt (by omega), Nat.add_sub_cancel_left]

/-- Initialisation links the packets of each queue pair into one chain. -/
theorem chain_block {r q : ℕ} (hr : 0 < r) :
    Chain (recvLinks r) (some (q * r)) (List.range' (q * r) r) := by
  have hsucc : r - 1 + 1 = r := by omega
  rw [← hsucc]
  apply Chain.range' (m := q * r + r)
  · rw [hsucc]
    have hmod := mod_of_block (r := r) (q := q) (i := q * r + r - 1) (by omega) (by omega)
    exact if_neg (by omega)
  · rw [hsucc]
  · rw [hsucc]
    intro i hlo hlt
    have hmod := mod_of_block (r := r) (q := q) (i := i) hlo (by omega)
    exact if_pos (by omega)

theorem recvInv_init (h : hashpipeIbvInitRecv c = some s) : RecvInv c s (fun _ => []) := by
  unfold hashpipeIbvInitRecv at h
  split at h
  · cases h
  · rename_i hdef
    obtain rfl := Option.some.inj h
    have htotal : c.total = c.nqp * c.recv_pkt_num := Nat.mul_comm _ _
    have hr : 0 < c.recv_pkt_num := by
      apply Nat.pos_of_ne_zero
      intro hzero
      exact hdef (.inl (by rw [htotal, hzero, Nat.mul_zero]))
    have hposted : ∀ q < c.nqp,
        walk (recvLinks c.recv_pkt_num) c.total (some (q * c.recv_pkt_num)) =
          List.range' (q * c.recv_pkt_num) c.recv_pkt_num := by
      intro q hq
      apply (chain_block hr).walk_eq
      rw [List.length_range', htotal]
      exact Nat.le_mul_of_pos_left _ (by omega)
    refine ⟨fun _ _ => rfl, by simp [Chains], by simp, ?_, by simp [RecvState.cqWrIds], by simp,
      rfl, ?_, by simp [RecvState.cqWrIds, RecvState.polledFrom]⟩
    · intro q hq a ha
      dsimp only at ha
      rw [hposted q hq] at ha
      exact div_of_mem_block ha
    · have hsum : contents c.nqp (fun q =>
          walk (recvLinks c.recv_pkt_num) c.total (some (q * c.recv_pkt_num))) =
            Multiset.range c.total := by
        rw [htotal, ← contents_blocks, ← htotal]
        apply Finset.sum_congr rfl
        intro q hq
        dsimp only
        rw [hposted q (Finset.mem_range.mp hq)]
      have hcq : contents c.nqp (fun _ => ([] : List ℕ)) = 0 := contents_empty _
      show contents c.nqp _ + contents c.nqp (fun _ => ([] : List ℕ)) + 0 + 0 = _
      rw [hsum, hcq, add_zero, add_zero, add_zero]

/-! ### Each step keeps every work request in one place -/

/-- A step that only moves the program counter, with an empty list under construction. -/
theorem RecvInv.control (hi : RecvInv c s lists) (qp : ℕ → QpState) (pc : RecvPc)
    (result : Option ℕ) (armed : ℕ → Bool) (channel : List ℕ)
    (hchannel : ∀ q ∈ channel, q < c.nqp) (hpolled : s.polled = [])
    (hbuilding : RecvState.building c { s with pc := pc }) :
    RecvInv c { s with qp := qp, pc := pc, result := result, armed := armed, channel := channel }
      lists := by
  refine ⟨hi.wr_id, hi.heldChain, hi.heldQp, hi.postedQp, hi.cqQp, hchannel, hbuilding,
    hi.places, ?_⟩
  intro q hq
  have hnone : ∀ pc : RecvPc, RecvState.polledFrom { s with pc := pc } q = [] := by
    intro pc
    cases pc <;> simp [RecvState.polledFrom, hpolled]
  have hhist := hi.history q hq
  rw [show s.polledFrom q = [] from hnone s.pc] at hhist
  have hgoal : RecvState.polledFrom
      { s with qp := qp, pc := pc, result := result, armed := armed, channel := channel } q = [] :=
    hnone pc
  rw [hgoal]
  exact hhist

theorem RecvInv.pollSome (hi : RecvInv c s lists) {q : ℕ} {recv_head recv_tail : Option ℕ}
    (hpc : s.pc = .draining q recv_head recv_tail) {wc rest : List Wc}
    (hwc : wc ++ rest = s.recv_cq q) {r : RecvList}
    (hr : r = wc.foldl addCompletion ⟨s.next, s.length, recv_head, recv_tail⟩) :
    RecvInv c
      { s with next := r.next, length := r.length,
               recv_cq := Function.update s.recv_cq q rest,
               polled := s.polled ++ wc.map Wc.wr_id,
               pc := .draining q r.recv_head r.recv_tail }
      lists := by
  have hbuild := hi.building
  simp only [RecvState.building, hpc] at hbuild
  obtain ⟨hq, hg, hqp⟩ := hbuild
  have hids : s.cqWrIds q = wc.map Wc.wr_id ++ rest.map Wc.wr_id := by
    rw [RecvState.cqWrIds, ← hwc, List.map_append]
  obtain ⟨hnodup, hapart⟩ := hi.polled_apart hq
  rw [hids, ← List.append_assoc] at hnodup hapart
  obtain ⟨hgrow, hframe⟩ := addCompletions_spec
    (r := ⟨s.next, s.length, recv_head, recv_tail⟩) hg (List.nodup_append.mp hnodup).1
  rw [← hr] at hgrow hframe
  have hcq : RecvState.cqWrIds { s with recv_cq := Function.update s.recv_cq q rest } =
      Function.update s.cqWrIds q (rest.map Wc.wr_id) := map_update _ _ _ _
  refine ⟨hi.wr_id, ?_, hi.heldQp, hi.postedQp, ?_, hi.channel, ⟨hq, hgrow, ?_⟩, ?_, ?_⟩
  · refine hi.heldChain.congr fun h hh a ha => hframe a fun hmem => ?_
    exact hapart h hh a ha (List.mem_append_left _ hmem)
  · intro p hp a ha
    have hmem : a ∈ Function.update s.cqWrIds q (rest.map Wc.wr_id) p := hcq ▸ ha
    by_cases hpq : p = q
    · subst hpq
      rw [Function.update_self] at hmem
      exact hi.cqQp p hp a (by rw [hids]; exact List.mem_append_right _ hmem)
    · rw [Function.update_of_ne hpq] at hmem
      exact hi.cqQp p hp a hmem
  · intro a ha
    rcases List.mem_append.mp ha with hold | hnew
    · exact hqp a hold
    · exact hi.cqQp q hq a (by rw [hids]; exact List.mem_append_left _ hnew)
  · have htake : contents c.nqp (Function.update s.cqWrIds q (rest.map Wc.wr_id)) +
        (wc.map Wc.wr_id : List ℕ) = contents c.nqp s.cqWrIds := by
      apply contents_take hq
      rw [hids, Multiset.coe_add]
    have hgoal : contents c.nqp s.posted +
        contents c.nqp (Function.update s.cqWrIds q (rest.map Wc.wr_id)) +
        ((s.polled ++ wc.map Wc.wr_id : List ℕ) : Multiset ℕ) +
        (s.held.flatMap lists : List ℕ) = Multiset.range c.total := by
      rw [← hi.places, ← htake, ← Multiset.coe_add]
      abel
    rw [← hcq] at hgoal
    exact hgoal
  · intro p hp
    have hhist := hi.history p hp
    show s.completed p = s.delivered p ++ (if p = q then s.polled ++ wc.map Wc.wr_id else []) ++
      RecvState.cqWrIds { s with recv_cq := Function.update s.recv_cq q rest } p
    rw [hcq]
    simp only [RecvState.polledFrom, hpc] at hhist
    by_cases hpq : p = q
    · subst hpq
      rw [if_pos rfl, hids] at hhist
      rw [if_pos rfl, Function.update_self, hhist]
      simp only [List.append_assoc]
    · rw [if_neg hpq] at hhist ⊢
      rw [Function.update_of_ne hpq, hhist]

/-- The end of a call: the caller gets the list that was under construction. -/
theorem RecvInv.returnList (hi : RecvInv c s lists) {q : ℕ} {recv_head recv_tail : Option ℕ}
    (hpc : s.pc = .draining q recv_head recv_tail) :
    Chain (s.returnList q recv_head recv_tail).next recv_head s.polled ∧
      ∃ lists', RecvInv c (s.returnList q recv_head recv_tail) lists' := by
  have hbuild := hi.building
  simp only [RecvState.building, hpc] at hbuild
  obtain ⟨hq, hg, hqp⟩ := hbuild
  obtain ⟨hnodup, hapart⟩ := hi.polled_apart hq
  have hpolled : s.polled.Nodup := (List.nodup_append.mp hnodup).1
  have hout : ∀ h ∈ s.held, ∀ a ∈ lists h, a ∉ s.polled := fun h hh a ha hmem =>
    hapart h hh a ha (List.mem_append_left _ hmem)
  have hlinks : Chain (s.returnList q recv_head recv_tail).next recv_head s.polled ∧
      Chains (s.returnList q recv_head recv_tail).next s.held lists := by
    cases recv_tail with
    | none =>
      rcases hg with ⟨hnil, hhead, -⟩ | ⟨_, _, _, htail, _⟩
      · refine ⟨?_, hi.heldChain⟩
        rw [hnil, hhead]
        rfl
      · cases htail
    | some tail =>
      refine ⟨hg.close hpolled, hi.heldChain.congr fun h hh a ha => ?_⟩
      have hne : a ≠ tail := by
        rintro rfl
        rcases hg with ⟨_, _, htail⟩ | ⟨front, _, hl, htail, _⟩
        · cases htail
        · cases htail
          exact hout h hh a ha (by rw [hl]; exact List.mem_append_right _ List.mem_cons_self)
      exact Function.update_of_ne hne _ _
  refine ⟨hlinks.1, ?_⟩
  obtain ⟨lists', hchains, hflat, hold, hnew⟩ := hlinks.2.add hlinks.1 hout
  refine ⟨lists', hi.wr_id, hchains, ?_, hi.postedQp, hi.cqQp, hi.channel, rfl, ?_, ?_⟩
  · intro h hh a ha
    rcases List.mem_append.mp hh with hhead | hheld
    · have hsome : recv_head = some h := by simpa [eq_comm] using hhead
      rw [hnew h hsome] at ha
      have hmem : h ∈ s.polled := by
        have hfirst := hlinks.1.head
        rw [hsome] at hfirst
        exact List.mem_of_mem_head? (Option.mem_def.mpr hfirst.symm)
      rw [hqp a ha, hqp h hmem]
    · rw [hold h hheld] at ha
      exact hi.heldQp h hheld a ha
  · show contents c.nqp s.posted + contents c.nqp s.cqWrIds + 0 +
      ((recv_head.toList ++ s.held).flatMap lists' : List ℕ) = _
    rw [hflat, ← hi.places, ← Multiset.coe_add]
    abel
  · intro p hp
    have hhist := hi.history p hp
    simp only [RecvState.polledFrom, hpc] at hhist
    show s.completed p = Function.update s.delivered q (s.delivered q ++ s.polled) p ++ [] ++
      s.cqWrIds p
    by_cases hpq : p = q
    · subst hpq
      rw [if_pos rfl] at hhist
      rw [Function.update_self, List.append_nil, hhist]
    · rw [if_neg hpq] at hhist
      rw [Function.update_of_ne hpq, hhist]

theorem RecvInv.release (hi : RecvInv c s lists) {h : ℕ} (hh : h ∈ s.held) :
    RecvInv c
      { s with posted := Function.update s.posted (s.wr_id h / c.recv_pkt_num)
                 (s.posted (s.wr_id h / c.recv_pkt_num) ++
                   (walk s.next c.total (some h)).map s.wr_id),
               held := s.held.erase h }
      lists := by
  have hlt : h < c.total := hi.held_lt hh (hi.head_mem hh)
  have hq : h / c.recv_pkt_num < c.nqp := Nat.div_lt_of_lt_mul hlt
  rw [hi.wr_id h hlt, hi.walk_eq hh, hi.map_wr_id hh]
  refine ⟨hi.wr_id, hi.heldChain.erase h, ?_, ?_, hi.cqQp, hi.channel, hi.building, ?_,
    hi.history⟩
  · intro p hp
    exact hi.heldQp p (List.mem_of_mem_erase hp)
  · intro p hp a ha
    by_cases hpq : p = h / c.recv_pkt_num
    · subst hpq
      dsimp only at ha
      rw [Function.update_self] at ha
      rcases List.mem_append.mp ha with hold | hnew
      · exact hi.postedQp _ hp a hold
      · exact hi.heldQp h hh a hnew
    · dsimp only at ha
      rw [Function.update_of_ne hpq] at ha
      exact hi.postedQp p hp a ha
  · have hput : contents c.nqp (Function.update s.posted (h / c.recv_pkt_num)
        (s.posted (h / c.recv_pkt_num) ++ lists h)) =
        contents c.nqp s.posted + (lists h : Multiset ℕ) := by
      apply contents_put hq
      rw [Multiset.coe_add]
    show contents c.nqp (Function.update s.posted _ _) + contents c.nqp s.cqWrIds +
      (s.polled : Multiset ℕ) + ((s.held.erase h).flatMap lists : List ℕ) = _
    rw [hput, ← hi.places, flatMap_erase hh]
    abel

theorem RecvInv.arrive (hi : RecvInv c s lists) {q : ℕ} {wc : Wc} (hq : q < c.nqp)
    (hwc : wc.wr_id ∈ s.posted q) : RecvInv c (s.arrive q wc) lists := by
  have hcq : RecvState.cqWrIds (s.arrive q wc) =
      Function.update s.cqWrIds q (s.cqWrIds q ++ [wc.wr_id]) := by
    have hmap := map_update Wc.wr_id s.recv_cq q (s.recv_cq q ++ [wc])
    rw [List.map_append] at hmap
    exact hmap
  refine ⟨hi.wr_id, hi.heldChain, hi.heldQp, ?_, ?_, ?_, hi.building, ?_, ?_⟩
  · intro p hp a ha
    by_cases hpq : p = q
    · subst hpq
      simp only [RecvState.arrive, Function.update_self] at ha
      exact hi.postedQp p hp a (List.mem_of_mem_erase ha)
    · simp only [RecvState.arrive, Function.update_of_ne hpq] at ha
      exact hi.postedQp p hp a ha
  · intro p hp a ha
    rw [hcq] at ha
    by_cases hpq : p = q
    · subst hpq
      rw [Function.update_self] at ha
      rcases List.mem_append.mp ha with hold | hnew
      · exact hi.cqQp p hp a hold
      · rw [List.mem_singleton.mp hnew]
        exact hi.postedQp p hp _ hwc
    · rw [Function.update_of_ne hpq] at ha
      exact hi.cqQp p hp a ha
  · intro p hp
    simp only [RecvState.arrive] at hp
    split at hp
    · rcases List.mem_append.mp hp with hold | hnew
      · exact hi.channel p hold
      · rw [List.mem_singleton.mp hnew]
        exact hq
    · exact hi.channel p hp
  · have htake : contents c.nqp (Function.update s.posted q ((s.posted q).erase wc.wr_id)) +
        (([wc.wr_id] : List ℕ) : Multiset ℕ) = contents c.nqp s.posted := by
      apply contents_take hq
      rw [Multiset.coe_add, Multiset.coe_eq_coe]
      exact List.perm_cons_erase hwc
    have hput : contents c.nqp (Function.update s.cqWrIds q (s.cqWrIds q ++ [wc.wr_id])) =
        contents c.nqp s.cqWrIds + (([wc.wr_id] : List ℕ) : Multiset ℕ) := by
      apply contents_put hq
      rw [Multiset.coe_add]
    show contents c.nqp (Function.update s.posted q _) + contents c.nqp (s.arrive q wc).cqWrIds +
      (s.polled : Multiset ℕ) + (s.held.flatMap lists : List ℕ) = _
    rw [hcq, hput, ← hi.places, ← htake]
    abel
  · intro p hp
    have hhist := hi.history p hp
    show Function.update s.completed q (s.completed q ++ [wc.wr_id]) p =
      s.delivered p ++ s.polledFrom p ++ (s.arrive q wc).cqWrIds p
    rw [hcq]
    by_cases hpq : p = q
    · subst hpq
      rw [Function.update_self, Function.update_self, hhist]
      simp only [List.append_assoc]
    · rw [Function.update_of_ne hpq, Function.update_of_ne hpq, hhist]

theorem RecvState.returnNull_eq (h : s.polled = []) :
    s.returnNull = { s with pc := .idle, result := none } := by
  rw [RecvState.returnNull, ← h]

/-- `return NULL` before anything was polled. -/
theorem RecvInv.returnNull (hi : RecvInv c s lists) (qp : ℕ → QpState) (h : s.polled = []) :
    RecvInv c { s with qp := qp }.returnNull lists := by
  rw [RecvState.returnNull_eq (s := { s with qp := qp }) h]
  exact hi.control qp .idle none s.armed s.channel hi.channel h h

/-- The list under construction is empty while it has no head. -/
theorem RecvInv.polled_of_head (hi : RecvInv c s lists) (h : s.recvHead = none) :
    s.polled = [] := by
  have hbuild := hi.building
  cases hpc : s.pc with
  | draining q recv_head recv_tail =>
    simp only [RecvState.building, hpc] at hbuild
    simp only [RecvState.recvHead, hpc] at h
    rcases hbuild.2.1 with ⟨hnil, -, -⟩ | ⟨front, last, hl, -, hseg⟩
    · exact hnil
    · rw [h] at hseg
      cases front with
      | nil => cases hseg
      | cons _ _ => cases hseg.1
  | acking q | arming q =>
    simp only [RecvState.building, hpc] at hbuild
    exact hbuild.2
  | _ =>
    simp only [RecvState.building, hpc] at hbuild
    exact hbuild

theorem RecvInv.recvHead_of_polled (hi : RecvInv c s lists) (h : s.polled = []) :
    s.recvHead = none := by
  have hbuild := hi.building
  cases hpc : s.pc with
  | draining q recv_head recv_tail =>
    simp only [RecvState.building, hpc] at hbuild
    simp only [RecvState.recvHead, hpc]
    rcases hbuild.2.1 with ⟨-, hhead, -⟩ | ⟨front, last, hl, -⟩
    · exact hhead
    · rw [h] at hl
      simp at hl
  | _ => simp only [RecvState.recvHead, hpc]

/-- **One step keeps every work request in one place**, unless `ibv_poll_cq` fails with
work requests already on the list under construction. -/
theorem RecvInv.next (hi : RecvInv c s lists) {a : RecvAction} (hok : pollFailsFirst s a)
    (h : recvNext c s a = some t) : ∃ lists', RecvInv c t lists' := by
  have hbuild := hi.building
  cases recvNext_move h with
  | called hpc =>
    simp only [RecvState.building, hpc] at hbuild
    exact ⟨_, hi.control s.qp _ s.result s.armed s.channel hi.channel hbuild hbuild⟩
  | prepared qp hpc =>
    simp only [RecvState.building, hpc] at hbuild
    exact ⟨_, hi.control qp _ s.result s.armed s.channel hi.channel hbuild hbuild⟩
  | prepareFails qp hpc =>
    simp only [RecvState.building, hpc] at hbuild
    exact ⟨_, hi.returnNull qp hbuild⟩
  | polls hpc =>
    simp only [RecvState.building, hpc] at hbuild
    exact ⟨_, hi.control s.qp _ s.result s.armed s.channel hi.channel hbuild hbuild⟩
  | readable hpc =>
    simp only [RecvState.building, hpc] at hbuild
    exact ⟨_, hi.control s.qp _ s.result s.armed s.channel hi.channel hbuild hbuild⟩
  | notReadable hpc =>
    simp only [RecvState.building, hpc] at hbuild
    exact ⟨_, hi.returnNull s.qp hbuild⟩
  | @gotEvent q ev_cq channel hpc hchannel hcq =>
    simp only [RecvState.building, hpc] at hbuild
    have hmem : ∀ p ∈ q :: channel, p < c.nqp := hchannel ▸ hi.channel
    exact ⟨_, hi.control s.qp _ s.result s.armed channel (List.forall_mem_cons.mp hmem).2 hbuild
      ⟨RecvConfig.cqAt_lt hcq, hbuild⟩⟩
  | @gotNoCq q channel hpc hchannel =>
    simp only [RecvState.building, hpc] at hbuild
    have hmem : ∀ p ∈ q :: channel, p < c.nqp := hchannel ▸ hi.channel
    exact ⟨_, hi.control s.qp _ s.result s.armed channel (List.forall_mem_cons.mp hmem).2 hbuild
      hbuild⟩
  | eventFails hpc =>
    simp only [RecvState.building, hpc] at hbuild
    exact ⟨_, hi.returnNull s.qp hbuild⟩
  | acked hpc =>
    simp only [RecvState.building, hpc] at hbuild
    exact ⟨_, hi.control s.qp _ s.result s.armed s.channel hi.channel hbuild.2 hbuild⟩
  | armFails hpc =>
    simp only [RecvState.building, hpc] at hbuild
    exact ⟨_, hi.returnNull s.qp hbuild.2⟩
  | armed hpc =>
    simp only [RecvState.building, hpc] at hbuild
    refine ⟨_, hi.control s.qp _ s.result _ s.channel hi.channel hbuild.2
      ⟨hbuild.1, .inl ⟨hbuild.2, rfl, rfl⟩, ?_⟩⟩
    rw [hbuild.2]
    simp
  | cqFails => exact ⟨_, hi.returnNull s.qp (hi.polled_of_head hok)⟩
  | drained hpc => exact (hi.returnList hpc).2
  | polled hpc hwc hr => exact ⟨_, hi.pollSome hpc (hwc ▸ ibvPollCq_append _) hr⟩
  | releasedNone => exact ⟨_, hi⟩
  | released hh hi' =>
    subst hi'
    exact ⟨_, hi.release hh⟩
  | arrived hq hwc => exact ⟨_, hi.arrive hq hwc⟩

theorem recvInv_of_reachable (h : ReachableUnder (recvSystem c) pollFailsFirst s) :
    ∃ lists, RecvInv c s lists := by
  refine h.invariant (I := fun s => ∃ lists, RecvInv c s lists) ?_ ?_
  · intro s hs
    exact ⟨_, recvInv_init hs⟩
  · intro s a t ⟨lists, hi⟩ hok hs
    exact hi.next hok hs

/-! ### What becomes of `ev_cq` -/

/-- Where `ev_cq` does not lie behind `ev_cq_ctx`, every event leaves its own CQ there. -/
theorem evCqKept_of_apart {ok : RecvState → RecvAction → Prop}
    (hok : ∀ s a, ok s a → pollFailsFirst s a) (hc : c.evCqBehind = false)
    (h : ReachableUnder (recvSystem c) ok s) :
    ReachableUnder (recvSystem c) (fun s a => ok s a ∧ evCqKept c s a) s := by
  induction h with
  | init hs => exact .init hs
  | @step s t a hs ha hn ih =>
    refine .step a ih ⟨ha, ?_⟩ hn
    obtain ⟨lists, hi⟩ := recvInv_of_reachable (hs.mono hok)
    unfold evCqKept
    split
    · intro q hq
      have hlt : q < c.nqp := hi.channel q (List.mem_of_mem_head? hq)
      rw [show c.evCq q = c.cqAddr q by simp [RecvConfig.evCq, hc], RecvConfig.cqAt_cqAddr hlt]
    · trivial

/-- A run in which every event leaves its own CQ is one in which it leaves a CQ. -/
theorem evCqIsCq_of_runs {ok : RecvState → RecvAction → Prop}
    (h : ReachableUnder (recvSystem c) (fun s a => ok s a ∧ evCqKept c s a) s) :
    ReachableUnder (recvSystem c) (fun s a => ok s a ∧ evCqIsCq c s a) s :=
  h.mono fun _ _ hok => ⟨hok.1, evCqIsCq_of_kept hok.2⟩

/-- Only an event can leave `ev_cq` without a CQ. -/
theorem recvNext_defined {a : RecvAction} (hok : evCqIsCq c s a) (h : recvNext c s a = some t)
    (hpc : s.pc ≠ .undefined) : t.pc ≠ .undefined := by
  cases recvNext_move h with
  | gotNoCq _ hchannel hno =>
    have hsome := hok _ (by rw [hchannel]; rfl)
    rw [hno] at hsome
    cases hsome
  | releasedNone | released | arrived => exact hpc
  | _ => nofun

theorem defined_of_reachable {ok : RecvState → RecvAction → Prop}
    (h : ReachableUnder (recvSystem c) (fun s a => ok s a ∧ evCqIsCq c s a) s) :
    s.pc ≠ .undefined := by
  refine h.invariant (I := fun s => s.pc ≠ .undefined) ?_ ?_
  · intro s hs
    have hstart : hashpipeIbvInitRecv c = some s := hs
    unfold hashpipeIbvInitRecv at hstart
    split at hstart
    · cases hstart
    · obtain rfl := Option.some.inj hstart
      nofun
  · intro s a t hpc hok hs
    exact recvNext_defined hok.2 hs hpc

theorem defined_iff_evCqIsCq (h : recvNext c s (.getEvent false) = some t) :
    t.pc ≠ .undefined ↔ evCqIsCq c s (.getEvent false) := by
  constructor
  · intro hpc q hq
    by_contra hno
    cases hchannel : s.channel with
    | nil =>
      rw [hchannel] at hq
      cases hq
    | cons p channel =>
      rw [hchannel] at hq
      cases hq
      simp only [recvNext, Option.ite_none_right_eq_some, hchannel,
        Option.not_isSome_iff_eq_none.mp hno] at h
      obtain ⟨-, h⟩ := h
      obtain rfl := Option.some.inj h
      exact hpc rfl
  · intro hok
    refine recvNext_defined hok h ?_
    intro hpc
    simp [recvNext, hpc] at h

/-- The caller's lists change when a call returns one and when one is released. -/
theorem recvNext_held {a : RecvAction} (h : recvNext c s a = some t) :
    t.held = s.held ∨ (s.pc ≠ .idle ∧ t.pc = .idle ∧ t.held = t.result.toList ++ s.held) ∨
      ∃ p ∈ s.held, a = .releasePkts (some p) ∧ t.held = s.held.erase p := by
  cases recvNext_move h with
  | drained hpc => exact .inr (.inl ⟨by simp [hpc], rfl, rfl⟩)
  | released hp => exact .inr (.inr ⟨_, hp, rfl, rfl⟩)
  | _ => exact .inl rfl

/-! ### What the caller can rely on -/

theorem RecvInv.places_eq (hi : RecvInv c s lists) :
    s.places c = Multiset.range c.total := by
  have hlists : s.held.flatMap (s.listFrom c) = s.held.flatMap lists := by
    apply List.flatMap_congr
    intro h hh
    exact hi.walk_eq hh
  rw [RecvState.places, hlists]
  exact hi.places

/-- Outside a call no list is under construction. -/
theorem RecvInv.polled_idle (hi : RecvInv c s lists) (hpc : s.pc = .idle) : s.polled = [] := by
  have hbuild := hi.building
  simp only [RecvState.building, hpc] at hbuild
  exact hbuild

/-- **Receive packets keep to their queue pair.**  Each work request is in exactly one
place: posted on its own queue pair, completed and unpolled in that queue pair's CQ, on one
list of the caller, or (during a call) on the list under construction.  The caller's lists
are null-terminated, visit no packet twice and stay within one queue pair; a call returns
what it polled, in the order of completion, and nothing else adds to the caller's lists; a
release is always possible and reposts a list where it came from.  All this as long as the
`ev_cq` that an event leaves is a CQ, the exact condition for the calls to be defined. -/
theorem recv_pkts_owned
    (h : ReachableUnder (recvSystem c) (fun s a => verbsSucceed s a ∧ evCqIsCq c s a) s) :
    s.pc ≠ .undefined ∧
    s.places c = Multiset.range c.total ∧ (s.pc = .idle → s.polled = []) ∧
    (∀ q < c.nqp, ∀ a, a ∈ s.posted q ∨ a ∈ s.cqWrIds q → a / c.recv_pkt_num = q) ∧
    (∀ p ∈ s.held, Chain s.next (some p) (s.listFrom c p) ∧ (s.listFrom c p).Nodup ∧
      ∀ a ∈ s.listFrom c p, a / c.recv_pkt_num = p / c.recv_pkt_num) ∧
    (∀ q < c.nqp, s.completed q = s.delivered q ++ s.polledFrom q ++ s.cqWrIds q) ∧
    (∀ q recv_head recv_tail t, s.pc = .draining q recv_head recv_tail →
      recvNext c s (.pollCq false) = some t → t.pc = .idle →
      Chain t.next t.result s.polled ∧ s.polled.Nodup ∧ t.held = t.result.toList ++ s.held ∧
        (∀ a ∈ s.polled, a / c.recv_pkt_num = q) ∧ t.delivered q = s.delivered q ++ s.polled) ∧
    (∀ p t, recvNext c s (.releasePkts (some p)) = some t →
      ∃ q < c.nqp, t.posted = Function.update s.posted q (s.posted q ++ s.listFrom c p) ∧
        ∀ a ∈ s.listFrom c p, a / c.recv_pkt_num = q) ∧
    (∀ a t, recvNext c s a = some t →
      t.held = s.held ∨ (s.pc ≠ .idle ∧ t.pc = .idle ∧ t.held = t.result.toList ++ s.held) ∨
        ∃ p ∈ s.held, a = .releasePkts (some p) ∧ t.held = s.held.erase p) ∧
    (∀ p ∈ s.held, (recvNext c s (.releasePkts (some p))).isSome) ∧
    (∀ t, recvNext c s (.getEvent false) = some t →
      (t.pc ≠ .undefined ↔ evCqIsCq c s (.getEvent false))) := by
  obtain ⟨lists, hi⟩ :=
    recvInv_of_reachable (h.mono fun s a hok => pollFailsFirst_of_succeed s a hok.1)
  have hlist : ∀ p ∈ s.held, s.listFrom c p = lists p := fun p hp => hi.walk_eq hp
  refine ⟨defined_of_reachable h, hi.places_eq, hi.polled_idle, ?_, ?_, hi.history, ?_, ?_,
    fun a t ht => recvNext_held ht, ?_, fun t ht => defined_iff_evCqIsCq ht⟩
  · intro q hq a ha
    rcases ha with hposted | hcq
    · exact hi.postedQp q hq a hposted
    · exact hi.cqQp q hq a hcq
  · intro p hp
    rw [hlist p hp]
    exact ⟨hi.heldChain p hp, (hi.heldChain p hp).nodup, hi.heldQp p hp⟩
  · intro q recv_head recv_tail t hpc ht hidle
    have hbuild := hi.building
    simp only [RecvState.building, hpc] at hbuild
    obtain ⟨hq, -, hqp⟩ := hbuild
    simp only [recvNext, hpc, Bool.false_eq_true, if_false] at ht
    split at ht <;> obtain rfl := Option.some.inj ht
    · refine ⟨(hi.returnList hpc).1, ?_, rfl, hqp, Function.update_self ..⟩
      exact (List.nodup_append.mp (hi.polled_apart hq).1).1
    · cases hidle
  · intro p t ht
    simp only [recvNext, Option.ite_none_right_eq_some] at ht
    obtain ⟨hp, ht⟩ := ht
    obtain rfl := Option.some.inj ht
    have hlt : p < c.total := hi.held_lt hp (hi.head_mem hp)
    refine ⟨p / c.recv_pkt_num, Nat.div_lt_of_lt_mul hlt, ?_, ?_⟩
    · dsimp only
      rw [hi.wr_id p hlt, hi.walk_eq hp, hi.map_wr_id hp, hlist p hp]
    · rw [hlist p hp]
      exact hi.heldQp p hp
  · intro p hp
    simp [recvNext, hp]

theorem RecvState.places_eq_kept (c : RecvConfig) (s : RecvState) :
    s.places c = s.kept c + (s.polled : Multiset ℕ) := by
  rw [RecvState.places, RecvState.kept]
  abel

/-- **What an error of `recv_pkts` loses.**  As long as `ibv_poll_cq` fails only in calls
that have polled nothing yet, and the `ev_cq` that an event leaves is a CQ, a call that has
returned, with NULL or not, leaves every work request posted, unpolled or on a list of the
caller.  A failure of `ibv_poll_cq` leaves them so exactly when the list under construction
is empty. -/
theorem recv_errors_lose_nothing
    (h : ReachableUnder (recvSystem c) (fun s a => pollFailsFirst s a ∧ evCqIsCq c s a) s) :
    s.pc ≠ .undefined ∧
    s.places c = Multiset.range c.total ∧
    (s.pc = .idle → s.kept c = Multiset.range c.total) ∧
    (∀ t, recvNext c s (.pollCq true) = some t →
      (t.kept c = Multiset.range c.total ↔ s.recvHead = none)) ∧
    (∀ t, recvNext c s (.getEvent false) = some t →
      (t.pc ≠ .undefined ↔ evCqIsCq c s (.getEvent false))) := by
  obtain ⟨lists, hi⟩ := recvInv_of_reachable (h.mono fun _ _ hok => hok.1)
  have hplaces := hi.places_eq
  have hsplit := hplaces
  rw [RecvState.places_eq_kept] at hsplit
  refine ⟨defined_of_reachable h, hplaces, ?_, ?_, fun t ht => defined_iff_evCqIsCq ht⟩
  · intro hpc
    rw [hi.polled_idle hpc, Multiset.coe_nil, add_zero] at hsplit
    exact hsplit
  · intro t ht
    have hkept : t.kept c = s.kept c := by
      simp only [recvNext] at ht
      split at ht
      · obtain rfl := Option.some.inj ht
        rfl
      · cases ht
    rw [hkept]
    constructor
    · intro hall
      -- nothing is left for the list under construction
      rw [hall] at hsplit
      have hnil : s.polled = [] := by simpa using hsplit
      exact hi.recvHead_of_polled hnil
    · intro hhead
      rw [hi.polled_of_head hhead, Multiset.coe_nil, add_zero] at hsplit
      exact hsplit

end Invariant

/-! ### No lost wake-up -/

/-- A CQ that is not armed has its event pending or taken by the call in progress; an armed
CQ holds completions only while the call in progress drains it. -/
structure WakeInv (s : RecvState) : Prop where
  unarmed : ∀ q, s.armed q = false → q ∈ s.channel ∨ s.pc = .acking q ∨ s.pc = .arming q
  drained : ∀ q, s.armed q = true → s.recv_cq q ≠ [] → ∃ head tail, s.pc = .draining q head tail

section WakeUp

variable {c : RecvConfig} {s t : RecvState}

/-- A CQ that is not armed has an event, unless it is just being acknowledged or armed. -/
theorem WakeInv.event_of_unarmed (hi : WakeInv s) {p : ℕ} (hp : s.armed p = false)
    (hack : ∀ q, s.pc ≠ .acking q) (harm : ∀ q, s.pc ≠ .arming q) : p ∈ s.channel := by
  rcases hi.unarmed p hp with hmem | hacking | harming
  · exact hmem
  · exact absurd hacking (hack p)
  · exact absurd harming (harm p)

theorem wakeInv_init (h : hashpipeIbvInitRecv c = some s) : WakeInv s := by
  unfold hashpipeIbvInitRecv at h
  split at h
  · cases h
  · obtain rfl := Option.some.inj h
    exact ⟨by simp, by simp⟩

/-- Between the event of one CQ and its re-arming every other CQ is quiet or has an event,
and so a change of the program counter that takes no event keeps the invariant. -/
theorem WakeInv.control (hi : WakeInv s) (hacking : ∀ q, s.pc ≠ .acking q)
    (harming : ∀ q, s.pc ≠ .arming q) (hdraining : ∀ q head tail, s.pc ≠ .draining q head tail)
    (ht : t.armed = s.armed ∧ t.channel = s.channel ∧ t.recv_cq = s.recv_cq) : WakeInv t := by
  obtain ⟨harmed, hchannel, hcq⟩ := ht
  constructor
  · intro q hq
    rw [harmed] at hq
    rw [hchannel]
    rcases hi.unarmed q hq with hmem | hpc | hpc
    · exact .inl hmem
    · exact absurd hpc (hacking q)
    · exact absurd hpc (harming q)
  · intro q hq hne
    rw [harmed] at hq
    rw [hcq] at hne
    obtain ⟨head, tail, hpc⟩ := hi.drained q hq hne
    exact absurd hpc (hdraining q head tail)

theorem WakeInv.arrive (hi : WakeInv s) (q : ℕ) (wc : Wc) : WakeInv (s.arrive q wc) := by
  constructor
  · intro p hp
    show p ∈ (if s.armed q then s.channel ++ [q] else s.channel) ∨ _
    have hp' : Function.update s.armed q false p = false := hp
    by_cases harmed : s.armed q = true
    · rw [if_pos harmed]
      by_cases hpq : p = q
      · subst hpq
        exact .inl (List.mem_append_right _ List.mem_cons_self)
      · rw [Function.update_of_ne hpq] at hp'
        exact (hi.unarmed p hp').imp_left (List.mem_append_left _)
    · rw [if_neg harmed]
      by_cases hpq : p = q
      · subst hpq
        exact hi.unarmed p (by simpa using harmed)
      · rw [Function.update_of_ne hpq] at hp'
        exact hi.unarmed p hp'
  · intro p hp hne
    have hp' : Function.update s.armed q false p = true := hp
    have hpq : p ≠ q := by
      rintro rfl
      rw [Function.update_self] at hp'
      cases hp'
    rw [Function.update_of_ne hpq] at hp'
    have hne' : Function.update s.recv_cq q (s.recv_cq q ++ [wc]) p ≠ [] := hne
    rw [Function.update_of_ne hpq] at hne'
    exact hi.drained p hp' hne'

/-- Re-arming before draining: from here on a completion raises an event or is drained. -/
theorem WakeInv.reqNotify (hi : WakeInv s) {q : ℕ} (hpc : s.pc = .arming q) :
    WakeInv { s with armed := Function.update s.armed q true,
                     pc := .draining q none none } := by
  constructor
  · intro p hp
    have hpq : p ≠ q := by
      rintro rfl
      simp at hp
    simp only [Function.update_of_ne hpq] at hp
    rcases hi.unarmed p hp with hmem | hacking | harming
    · exact .inl hmem
    · exact absurd (hpc.symm.trans hacking) (by simp)
    · exact absurd (hpc.symm.trans harming) (by simpa using Ne.symm hpq)
  · intro p hp hne
    by_cases hpq : p = q
    · subst hpq
      exact ⟨none, none, rfl⟩
    · simp only [Function.update_of_ne hpq] at hp
      obtain ⟨head, tail, hdraining⟩ := hi.drained p hp hne
      exact absurd (hpc.symm.trans hdraining) (by simp)

theorem WakeInv.getEvent (hi : WakeInv s) (hpc : s.pc = .gettingEvent) {q : ℕ}
    {channel : List ℕ} (hchannel : s.channel = q :: channel) :
    WakeInv { s with channel := channel, pc := .acking q } := by
  constructor
  · intro p hp
    have hmem : p ∈ s.channel := hi.event_of_unarmed hp (by simp [hpc]) (by simp [hpc])
    rw [hchannel] at hmem
    rcases List.mem_cons.mp hmem with rfl | hrest
    · exact .inr (.inl rfl)
    · exact .inl hrest
  · intro p hp hne
    obtain ⟨head, tail, hdraining⟩ := hi.drained p hp hne
    exact absurd (hpc.symm.trans hdraining) (by simp)

theorem WakeInv.ack (hi : WakeInv s) {q : ℕ} (hpc : s.pc = .acking q) :
    WakeInv { s with pc := .arming q } := by
  constructor
  · intro p hp
    rcases hi.unarmed p hp with hmem | hacking | harming
    · exact .inl hmem
    · obtain rfl : q = p := by simpa using hpc.symm.trans hacking
      exact .inr (.inr rfl)
    · exact absurd (hpc.symm.trans harming) (by simp)
  · intro p hp hne
    obtain ⟨head, tail, hdraining⟩ := hi.drained p hp hne
    exact absurd (hpc.symm.trans hdraining) (by simp)

/-- Polling goes on in the CQ that is being drained. -/
theorem WakeInv.pollSome (hi : WakeInv s) {q : ℕ} {head tail head' tail' : Option ℕ}
    (hpc : s.pc = .draining q head tail) {rest : List Wc}
    (ht : t.armed = s.armed ∧ t.channel = s.channel ∧
      t.recv_cq = Function.update s.recv_cq q rest ∧ t.pc = .draining q head' tail') :
    WakeInv t := by
  obtain ⟨harmed, hchannel, hcq, hpc'⟩ := ht
  constructor
  · intro p hp
    rw [harmed] at hp
    rw [hchannel]
    exact .inl (hi.event_of_unarmed hp (by simp [hpc]) (by simp [hpc]))
  · intro p hp hne
    by_cases hpq : p = q
    · subst hpq
      exact ⟨head', tail', hpc'⟩
    · rw [harmed] at hp
      rw [hcq, Function.update_of_ne hpq] at hne
      obtain ⟨_, _, hdraining⟩ := hi.drained p hp hne
      have hsame := hpc.symm.trans hdraining
      exact absurd (RecvPc.draining.inj hsame).1 (Ne.symm hpq)

/-- A call returns only when the CQ it drains is empty. -/
theorem WakeInv.returnList (hi : WakeInv s) {q : ℕ} {head tail : Option ℕ}
    (hpc : s.pc = .draining q head tail) (hempty : s.recv_cq q = []) :
    WakeInv (s.returnList q head tail) := by
  constructor
  · intro p hp
    exact .inl (hi.event_of_unarmed hp (by simp [hpc]) (by simp [hpc]))
  · intro p hp hne
    obtain ⟨_, _, hdraining⟩ := hi.drained p hp hne
    have hsame := hpc.symm.trans hdraining
    obtain rfl : q = p := (RecvPc.draining.inj hsame).1
    exact absurd hempty hne

/-- **One step strands no completion**, when the verbs calls succeed. -/
theorem WakeInv.next (hi : WakeInv s) {a : RecvAction} (hok : verbsSucceed s a)
    (hkept : evCqKept c s a) (h : recvNext c s a = some t) : WakeInv t := by
  cases recvNext_move h with
  | @gotEvent q ev_cq channel hpc hchannel hcq =>
    have hq : c.cqAt (c.evCq q) = some q := hkept q (by rw [hchannel]; rfl)
    obtain rfl : ev_cq = q := Option.some.inj (hcq.symm.trans hq)
    exact hi.getEvent hpc hchannel
  | @gotNoCq q channel _ hchannel hno =>
    have hq : c.cqAt (c.evCq q) = some q := hkept q (by rw [hchannel]; rfl)
    cases hno.symm.trans hq
  | acked hpc => exact hi.ack hpc
  | armFails => exact absurd hok (by simp [verbsSucceed])
  | armed hpc => exact hi.reqNotify hpc
  | cqFails => exact absurd hok (by simp [verbsSucceed])
  | drained hpc hnil => exact hi.returnList hpc (ibvPollCq_eq_nil hnil)
  | polled hpc => exact hi.pollSome hpc ⟨rfl, rfl, rfl, rfl⟩
  | releasedNone => exact hi
  | released => exact ⟨hi.unarmed, hi.drained⟩
  | @arrived q wc => exact hi.arrive q wc
  -- the other steps leave the CQs, their events and their arming alone
  | called hpc | prepared _ hpc | prepareFails _ hpc | polls hpc | readable hpc | notReadable hpc
  | eventFails hpc =>
    exact hi.control (by simp [hpc]) (by simp [hpc]) (by simp [hpc]) ⟨rfl, rfl, rfl⟩

theorem wakeInv_of_reachable
    (h : ReachableUnder (recvSystem c) (fun s a => verbsSucceed s a ∧ evCqKept c s a) s) :
    WakeInv s := by
  refine h.invariant (I := WakeInv) ?_ ?_
  · intro s hs
    exact wakeInv_init hs
  · intro s a t hi hok hs
    exact hi.next hok.1 hok.2 hs

/-- **No lost wake-up**: as long as each event leaves its own CQ in `ev_cq`, between calls
every CQ that holds a completion has an event. -/
theorem no_lost_wakeup
    (h : ReachableUnder (recvSystem c) (fun s a => verbsSucceed s a ∧ evCqKept c s a) s) :
    s.pc ≠ .undefined ∧ (s.pc = .idle → ∀ q, s.recv_cq q ≠ [] → q ∈ s.channel) := by
  refine ⟨defined_of_reachable (evCqIsCq_of_runs h), ?_⟩
  intro hidle q hq
  have hi := wakeInv_of_reachable h
  have hunarmed : s.armed q = false := by
    rw [Bool.eq_false_iff]
    intro harmed
    obtain ⟨_, _, hpc⟩ := hi.drained q harmed hq
    exact absurd (hidle.symm.trans hpc) (by simp)
  rcases hi.unarmed q hunarmed with hmem | hacking | harming
  · exact hmem
  · exact absurd (hidle.symm.trans hacking) (by simp)
  · exact absurd (hidle.symm.trans harming) (by simp)

end WakeUp

/-- Two queue pairs with two work requests each.  Two packets arrive on queue pair 1, one of
them after the event was taken; the list goes back before a third one arrives. -/
def recvPair : RecvConfig :=
  { nqp := 2
    recv_pkt_num := 2
    cqAddr := fun q => 2 ^ 32 + 4096 * (q + 1)
    cqAddr_inj := by omega
    evCqBehind := false }

def recvRun : List RecvAction :=
  [.arrive 1 ⟨3, true, 64⟩, .recvPkts, .prepare fun _ => true, .prepare fun _ => true,
   .prepare fun _ => true, .poll true, .getEvent false, .ack, .arrive 1 ⟨2, true, 65⟩,
   .reqNotify false, .pollCq false, .pollCq false, .releasePkts (some 3), .arrive 1 ⟨3, true, 66⟩]

def recvStart : RecvState := (hashpipeIbvInitRecv recvPair).get (by decide)

def recvEnd : RecvState :=
  (runUnder (recvSystem recvPair) verbsSucceed recvStart recvRun).getD recvStart

theorem recvEnd_reachable : ReachableUnder (recvSystem recvPair) verbsSucceed recvEnd :=
  (ReachableUnder.init (Option.some_get _).symm).run_getD recvRun

theorem recvEnd_kept :
    ReachableUnder (recvSystem recvPair) (fun s a => verbsSucceed s a ∧ evCqKept recvPair s a)
      recvEnd :=
  evCqKept_of_apart pollFailsFirst_of_succeed rfl recvEnd_reachable

theorem recv_pkts_owned_recvRun :
    recvEnd.delivered 1 = [3, 2] ∧ recvEnd.posted 1 = [2] ∧
      recvEnd.places recvPair = Multiset.range 4 :=
  ⟨by decide, by decide,
    (recv_pkts_owned (evCqIsCq_of_runs recvEnd_kept)).2.1⟩

/-- The same CQs, but `ev_cq` lies right behind `ev_cq_ctx`: the low half of the pointer to
CQ 1 becomes 0. -/
def recvBehind : RecvConfig := { recvPair with evCqBehind := true }

def recvEventRun : List RecvAction :=
  [.arrive 1 ⟨3, true, 64⟩, .recvPkts, .prepare fun _ => true, .prepare fun _ => true,
   .prepare fun _ => true, .poll true, .getEvent false]

def recvBehindStart : RecvState := (hashpipeIbvInitRecv recvBehind).get (by decide)

def recvBehindEnd : RecvState :=
  (runUnder (recvSystem recvBehind) verbsSucceed recvBehindStart recvEventRun).getD
    recvBehindStart

/-- The call that was to return work request 3 goes on with a pointer to no CQ, and so has no
defined end. -/
theorem recv_event_leaves_no_cq :
    ReachableUnder (recvSystem recvBehind) verbsSucceed recvBehindEnd ∧
      recvBehindEnd.pc = .undefined ∧ recvBehindEnd.cqWrIds 1 = [3] ∧
      recvBehindEnd.channel = [] := by
  have hinit : ReachableUnder (recvSystem recvBehind) verbsSucceed recvBehindStart :=
    .init (Option.some_get _).symm
  exact ⟨hinit.run_getD recvEventRun, by decide, by decide, by decide⟩

/-- Errors where nothing is on the list yet: the event is gone and the packet unpolled. -/
def recvErrorRun : List RecvAction :=
  [.arrive 1 ⟨3, true, 64⟩, .recvPkts, .prepare fun _ => true, .prepare fun _ => true,
   .prepare fun _ => true, .poll true, .getEvent false, .ack, .reqNotify false, .pollCq true]

def recvErrorEnd : RecvState :=
  (runUnder (recvSystem recvPair) pollFailsFirst recvStart recvErrorRun).getD recvStart

theorem recv_errors_lose_nothing_recvErrorRun :
    recvErrorEnd.pc = .idle ∧ recvErrorEnd.cqWrIds 1 = [3] ∧
      recvErrorEnd.kept recvPair = Multiset.range 4 := by
  have hinit : ReachableUnder (recvSystem recvPair) pollFailsFirst recvStart :=
    .init (Option.some_get _).symm
  have hidle : recvErrorEnd.pc = .idle := by decide
  have hkept := evCqKept_of_apart (fun _ _ hok => hok) rfl (hinit.run_getD recvErrorRun)
  exact ⟨hidle, by decide, (recv_errors_lose_nothing (evCqIsCq_of_runs hkept)).2.2.1 hidle⟩

/-- The CQ's second poll fails, and the packet that the first one reported is gone. -/
def recvLostRun : List RecvAction :=
  [.arrive 1 ⟨3, true, 64⟩, .recvPkts, .prepare fun _ => true, .prepare fun _ => true,
   .prepare fun _ => true, .poll true, .getEvent false, .ack, .reqNotify false, .pollCq false,
   .pollCq true]

def recvLostEnd : RecvState := (run (recvSystem recvPair) recvStart recvLostRun).getD recvStart

theorem recv_error_loses_packet :
    Reachable (recvSystem recvPair) recvLostEnd ∧ recvLostEnd.pc = .idle ∧
      recvLostEnd.result = none ∧ 3 ∈ Multiset.range recvPair.total ∧
      3 ∉ recvLostEnd.kept recvPair := by
  have hinit : Reachable (recvSystem recvPair) recvStart := .init (Option.some_get _).symm
  exact ⟨hinit.run_getD recvLostRun, by decide, by decide, by decide, by decide⟩

theorem no_lost_wakeup_recvRun : 1 ∈ recvEnd.channel :=
  (no_lost_wakeup recvEnd_kept).2 (by decide) 1 (List.ne_nil_of_length_pos (by decide))

/-- `ev_cq` lies right behind `ev_cq_ctx`, and what is left of the pointer to CQ 0 is the
pointer to CQ 1. -/
def recvAliased : RecvConfig :=
  { nqp := 2
    recv_pkt_num := 2
    cqAddr := fun q => 2 ^ 32 + 4096 * (1 - q)
    cqAddr_inj := by omega
    evCqBehind := true }

/-- The event of CQ 0 is taken, and CQ 1 is armed and drained for it. -/
def recvAliasedRun : List RecvAction :=
  [.arrive 0 ⟨0, true, 64⟩, .recvPkts, .prepare fun _ => true, .prepare fun _ => true,
   .prepare fun _ => true, .poll true, .getEvent false, .ack, .reqNotify false, .pollCq false]

def recvAliasedStart : RecvState := (hashpipeIbvInitRecv recvAliased).get (by decide)

def recvAliasedEnd : RecvState :=
  (runUnder (recvSystem recvAliased) verbsSucceed recvAliasedStart recvAliasedRun).getD
    recvAliasedStart

theorem recv_event_strands_completion :
    ReachableUnder (recvSystem recvAliased) verbsSucceed recvAliasedEnd ∧
      recvAliasedEnd.pc = .idle ∧ recvAliasedEnd.recv_cq 0 ≠ [] ∧
      0 ∉ recvAliasedEnd.channel := by
  have hinit : ReachableUnder (recvSystem recvAliased) verbsSucceed recvAliasedStart :=
    .init (Option.some_get _).symm
  exact ⟨hinit.run_getD recvAliasedRun, by decide, List.ne_nil_of_length_pos (by decide),
    by decide⟩

end Hashpipe.Ibverbs
