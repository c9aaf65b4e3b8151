import Hashpipe.Ibverbs.FlowMatch

/-!
# The flow tables as one table of criteria

What the calls of `hashpipe_ibv_flow` amount to for the caller: a table that holds the criteria
of each index.  A call that returns 0 puts its criteria there, or nothing if it has none, and a
call that fails leaves the index empty, unless its arguments were refused.

`TableInv` relates the rules on the queue pairs, the recorded addresses and the memberships of
the multicast socket to that table.  Behind it, `flows_deliver`: each queue pair gets the packets
that some criteria in the table ask for, and the groups joined are those of the table.
-/

namespace Hashpipe.Ibverbs

open StepSystem

/-- The criteria at each index. -/
abbrev FlowTable := ℕ → Option FlowCriteria

/-- The call is refused before anything is changed. -/
def FlowCall.refused (c : FlowConfig) (a : FlowCall) : Prop :=
  c.max_flows ≤ a.flow_idx ∨ a.criteria.flow_type = .other

instance (c : FlowConfig) (a : FlowCall) : Decidable (a.refused c) := by
  unfold FlowCall.refused
  infer_instance

/-- The table after a call that has returned `rv`. -/
def FlowTable.after (c : FlowConfig) (table : FlowTable) (a : FlowCall) (rv : ℤ) : FlowTable :=
  if a.refused c then table
  else Function.update table a.flow_idx
    (if rv = 0 ∧ a.criteria.isEmpty = false then some a.criteria else none)

/-- The calls, with the table that their return values lead to. -/
def flowTableSystem (c : FlowConfig) : System (FlowState × FlowTable) FlowCall where
  init s := s = (flowInit, fun _ => none)
  next s a :=
    let r := hashpipeIbvFlow c a.flow_idx a.criteria a.env s.1
    some (r.1, s.2.after c a r.2)

/-- No call stops half way, and what is there can be removed. -/
def flowTableOk (c : FlowConfig) (s : FlowState × FlowTable) (a : FlowCall) : Prop :=
  flowOk c s.1 a ∧ a.env.drop = true ∧ ∀ i < c.nqp, a.env.destroy i = true

instance (c : FlowConfig) (s : FlowState × FlowTable) (a : FlowCall) :
    Decidable (flowTableOk c s a) := by
  unfold flowTableOk
  infer_instance

/-- A rule on queue pair `i` matches the packet. -/
def DeliveredTo (c : FlowConfig) (s : FlowState) (i : ℕ) (p : Packet) : Prop :=
  ∃ idx < c.max_flows, ∃ flow : HashpipeIbvFlowStruct,
    s.ibv_flows (flowSlot c i idx) = some flow.rule ∧ flow.Matches p

/-! ### One call -/

section Call

variable {c : FlowConfig} {idx : ℕ} {env : FlowEnv} {s t : FlowState}

/-- The handles and addresses of the other indices are as they were. -/
structure Elsewhere (c : FlowConfig) (idx : ℕ) (s t : FlowState) : Prop where
  flows : ∀ k < c.max_flows, k ≠ idx → ∀ i < c.nqp,
    t.ibv_flows (flowSlot c i k) = s.ibv_flows (flowSlot c i k)
  dst_ips : ∀ k, k ≠ idx → t.flow_dst_ips k = s.flow_dst_ips k

theorem Elsewhere.refl (s : FlowState) : Elsewhere c idx s s :=
  ⟨fun _ _ _ _ _ => rfl, fun _ _ => rfl⟩

theorem Elsewhere.trans {u : FlowState} (h : Elsewhere c idx s t) (h' : Elsewhere c idx t u) :
    Elsewhere c idx s u :=
  ⟨fun k hk hne i hi => (h'.flows k hk hne i hi).trans (h.flows k hk hne i hi),
    fun k hne => (h'.dst_ips k hne).trans (h.dst_ips k hne)⟩

/-- The group of a live index can be left. -/
theorem FlowInv.drops (hi : FlowInv c s) (hidx : idx < c.max_flows) (hlive : s.live c idx) :
    (hashpipeIbvMcastMembership s.joined .DROP (s.flow_dst_ips idx) true).2 = true := by
  unfold hashpipeIbvMcastMembership
  by_cases hm : beMulticast (s.flow_dst_ips idx) = true
  · have hjoined := (hi.joined _).mpr ⟨hm, idx, hidx, hlive, rfl⟩
    simp [hm, hjoined]
  · simp [hm]

/-- What removing leaves: nothing at the index, and no multicast address that was not there
before without a flow. -/
structure Removed (c : FlowConfig) (idx : ℕ) (s t : FlowState) : Prop where
  inv : FlowInv c t
  absent : t.absent c idx
  elsewhere : Elsewhere c idx s t
  address : t = s ∨ t.flow_dst_ips idx = 0
  live : (s.ibv_flows idx).isSome = true → t.flow_dst_ips idx = 0

/-- When each call of it succeeds, removing succeeds. -/
theorem FlowInv.removes (hi : FlowInv c s) (hsize : c.nqp * c.max_flows ≤ 2 ^ 31)
    (hn : 0 < c.nqp) (hidx : idx < c.max_flows) (hdrop : env.drop = true)
    (hall : ∀ i < c.nqp, env.destroy i = true) :
    ∃ t, Ibverbs.removeFlows c idx env s = .ok t ∧ Removed c idx s t := by
  by_cases hsome : (s.ibv_flows idx).isSome = true
  · have hlive := (hi.live_iff hsize hn hidx).mp hsome
    have hout := hi.drops hidx hlive
    have hdropped := hi.dropRecord hidx hlive hout
    obtain ⟨flows, hrun, hnone, hsame⟩ := destroyFlows_ok
      (s := { s with
        joined := (hashpipeIbvMcastMembership s.joined .DROP (s.flow_dst_ips idx) true).1,
        flow_dst_ips := Function.update s.flow_dst_ips idx 0 })
      hsize hidx hlive c.nqp le_rfl hall
    have hzero : Function.update s.flow_dst_ips idx 0 idx = 0 := Function.update_self _ _ _
    refine ⟨{ s with
      ibv_flows := flows
      joined := (hashpipeIbvMcastMembership s.joined .DROP (s.flow_dst_ips idx) true).1
      flow_dst_ips := Function.update s.flow_dst_ips idx 0 }, ?_, ?_, hnone, ⟨?_, ?_⟩, .inr hzero,
      fun _ => hzero⟩
    · simp only [Ibverbs.removeFlows, hsome, if_true, hdrop, hout]
      exact hrun
    · refine hdropped.clearHandles hsize hn hidx ?_ hnone hsame
      dsimp only
      rw [hzero]
      rfl
    · intro k hk hne i hin
      exact live_congr hsize hidx hsame hk hne i hin
    · intro k hne
      exact Function.update_of_ne hne _ _
  · have habsent : s.absent c idx := by
      apply FlowState.absent_of_not_live hi.toconsistent hidx
      rwa [← hi.live_iff hsize hn hidx]
    refine ⟨s, ?_, hi, habsent, .refl s, .inl rfl, fun h => absurd h hsome⟩
    simp only [Ibverbs.removeFlows, hsome]
    rfl

/-- What the index has after a call that was not refused. -/
structure CallResult (c : FlowConfig) (idx : ℕ) (f : FlowCriteria) (s : FlowState)
    (r : FlowState × ℤ) : Prop where
  elsewhere : Elsewhere c idx s r.1
  here : ∀ i < c.nqp, r.1.ibv_flows (flowSlot c i idx) =
    if r.2 = 0 ∧ f.isEmpty = false then some (flowRule c.mac f) else none
  address : r.2 = 0 → f.isEmpty = false →
    if f.records then r.1.flow_dst_ips idx = htobe32 f.dst_ip
    else beMulticast (r.1.flow_dst_ips idx) = false

/-- Recording an address touches the index only. -/
theorem recordDstIp_elsewhere {f : FlowCriteria} :
    Elsewhere c idx s (leaves (recordDstIp idx f env s)) := by
  refine ⟨fun k _ _ i _ => ?_, fun k hne => ?_⟩
  · rw [recordDstIp_handles]
  · unfold recordDstIp
    split
    · split
      · dsimp only
        split <;> exact Function.update_of_ne hne _ _
      · exact Function.update_of_ne hne _ _
    · rfl

/-- The address that is recorded. -/
theorem recordDstIp_address {f : FlowCriteria} (h : recordDstIp idx f env s = .ok t) :
    t.flow_dst_ips idx = if f.records then htobe32 f.dst_ip else s.flow_dst_ips idx := by
  unfold recordDstIp at h
  by_cases hrec : f.records = true
  · rw [if_pos hrec]
    simp only [hrec, if_true] at h
    split at h
    · split at h
      · cases h
        exact Function.update_self _ _ _
      · cases h
    · cases h
      exact Function.update_self _ _ _
  · rw [if_neg hrec] at h ⊢
    cases h
    rfl

/-- **What one call does**, when it is not refused. -/
theorem FlowInv.call (hi : FlowInv c s) (hsize : c.nqp * c.max_flows ≤ 2 ^ 31) (hn : 0 < c.nqp)
    {a : FlowCall} {table : FlowTable} (hok : flowTableOk c (s, table) a) (hvalid : ¬ a.refused c) :
    CallResult c a.flow_idx a.criteria s (hashpipeIbvFlow c a.flow_idx a.criteria a.env s) := by
  obtain ⟨⟨-, hcreate, hstale⟩, hdrop, hdestroy⟩ := hok
  unfold FlowCall.refused at hvalid
  push Not at hvalid
  obtain ⟨hidx, htype⟩ := hvalid
  rw [hashpipeIbvFlow, if_neg (not_le.mpr hidx), if_neg htype]
  obtain ⟨t, hremove, hremoved⟩ := hi.removes hsize hn hidx hdrop hdestroy
  simp only [replaceFlows, hremove, Except.bind]
  by_cases hempty : a.criteria.isEmpty = true
  · simp only [hempty, if_true]
    refine ⟨hremoved.elsewhere, fun i hin => ?_, fun _ h => ?_⟩
    · rw [if_neg (by simp [hempty])]
      exact hremoved.absent i hin
    · rw [hempty] at h
      cases h
  have hgiven : a.criteria.isEmpty = false := by simpa using hempty
  simp only [hgiven, Bool.false_eq_true, if_false]
  have hrecorded : Elsewhere c a.flow_idx t
      (leaves (Ibverbs.recordDstIp a.flow_idx a.criteria a.env t)) := recordDstIp_elsewhere
  have helse := hremoved.elsewhere.trans hrecorded
  have hhandles := @recordDstIp_handles a.flow_idx a.criteria a.env t
  cases hrecord : Ibverbs.recordDstIp a.flow_idx a.criteria a.env t with
  | error u =>
    rw [hrecord] at helse hhandles
    refine ⟨helse, fun i hin => ?_, fun h => by cases h⟩
    rw [if_neg (by simp)]
    exact (congrFun hhandles _).trans (hremoved.absent i hin)
  | ok u =>
    rw [hrecord] at helse hhandles
    have habsent : u.absent c a.flow_idx := fun i hin =>
      (congrFun hhandles _).trans (hremoved.absent i hin)
    rcases hcreate with hall | ⟨hfirst, -⟩
    · obtain ⟨flows, hrun, hsome, hsame⟩ := createFlows_ok (s := u) hsize hidx habsent
        (flowRule c.mac a.criteria) c.nqp le_rfl hall
      simp only [hrun]
      refine ⟨helse.trans ⟨?_, fun _ _ => rfl⟩, fun i hin => ?_, fun _ _ => ?_⟩
      · intro k hk hne i hin
        exact live_congr hsize hidx hsame hk hne i hin
      · rw [if_pos ⟨rfl, hgiven⟩]
        exact hsome i hin
      · have haddress := recordDstIp_address hrecord
        by_cases hrec : a.criteria.records = true
        · rw [if_pos hrec] at haddress ⊢
          exact haddress
        · rw [if_neg hrec] at haddress ⊢
          -- the address found there is no group, or the call would have recorded its own
          have hplain : beMulticast (t.flow_dst_ips a.flow_idx) = false := by
            rcases hstale with h | h | hlive | hplain
            · exact absurd h hrec
            · exact absurd h hempty
            · rw [hremoved.live hlive]
              rfl
            · rcases hremoved.address with rfl | hzero
              · exact hplain
              · rw [hzero]
                rfl
          show beMulticast (u.flow_dst_ips a.flow_idx) = false
          rw [haddress]
          exact hplain
    · simp only [createFlows_first hn (habsent 0 hn) _ hfirst]
      refine ⟨helse, fun i hin => ?_, fun h => by cases h⟩
      rw [if_neg (by simp)]
      exact habsent i hin

end Call

/-! ### All calls -/

section Table

variable {c : FlowConfig} {s t : FlowState} {table : FlowTable}

/-- The state holds the criteria of the table. -/
structure TableInv (c : FlowConfig) (s : FlowState) (table : FlowTable) : Prop where
  flows : FlowInv c s
  handles : ∀ idx < c.max_flows, ∀ i < c.nqp,
    s.ibv_flows (flowSlot c i idx) = (table idx).map (flowRule c.mac)
  types : ∀ idx f, table idx = some f → f.flow_type ≠ .other
  addresses : ∀ idx < c.max_flows, ∀ f, table idx = some f →
    if f.records then s.flow_dst_ips idx = htobe32 f.dst_ip
    else beMulticast (s.flow_dst_ips idx) = false

theorem tableInv_init (hn : 0 < c.nqp) : TableInv c flowInit fun _ => none :=
  ⟨flowInv_init hn, fun _ _ _ _ => rfl, fun _ _ h => (by cases h), fun _ _ _ h => (by cases h)⟩

/-- **One call keeps the table**, whether it succeeds or not. -/
theorem TableInv.next (hi : TableInv c s table) (hn : 0 < c.nqp)
    (hsize : c.nqp * c.max_flows ≤ 2 ^ 31) {a : FlowCall} (hok : flowTableOk c (s, table) a) :
    TableInv c (hashpipeIbvFlow c a.flow_idx a.criteria a.env s).1
      (table.after c a (hashpipeIbvFlow c a.flow_idx a.criteria a.env s).2) := by
  have hflows := hi.flows.next hsize hn hok.1
  by_cases hrefused : a.refused c
  · have hsame : hashpipeIbvFlow c a.flow_idx a.criteria a.env s = (s, 1) := by
      unfold hashpipeIbvFlow
      rcases hrefused with hidx | htype
      · rw [if_pos hidx]
      · rw [if_pos htype, ite_self]
    rw [FlowTable.after, if_pos hrefused, hsame]
    exact hi
  have hcall := hi.flows.call hsize hn hok hrefused
  generalize hashpipeIbvFlow c a.flow_idx a.criteria a.env s = r at hflows hcall ⊢
  rw [FlowTable.after, if_neg hrefused]
  refine ⟨hflows, fun k hk i hin => ?_, fun k f hf => ?_, fun k hk f hf => ?_⟩
  · by_cases hne : k = a.flow_idx
    · subst hne
      rw [hcall.here i hin, Function.update_self]
      split <;> rfl
    · rw [Function.update_of_ne hne, hcall.elsewhere.flows k hk hne i hin]
      exact hi.handles k hk i hin
  · by_cases hne : k = a.flow_idx
    · rw [hne, Function.update_self, Option.ite_none_right_eq_some] at hf
      obtain ⟨-, hf⟩ := hf
      obtain rfl := Option.some.inj hf
      exact fun htype => hrefused (.inr htype)
    · rw [Function.update_of_ne hne] at hf
      exact hi.types k f hf
  · by_cases hne : k = a.flow_idx
    · rw [hne, Function.update_self, Option.ite_none_right_eq_some] at hf
      obtain ⟨⟨hrv, hgiven⟩, hf⟩ := hf
      obtain rfl := Option.some.inj hf
      rw [hne]
      exact hcall.address hrv hgiven
    · rw [Function.update_of_ne hne] at hf
      rw [hcall.elsewhere.dst_ips k hne]
      exact hi.addresses k hk f hf

theorem tableInv_of_reachable (hn : 0 < c.nqp) (hsize : c.nqp * c.max_flows ≤ 2 ^ 31)
    {s : FlowState × FlowTable} (h : ReachableUnder (flowTableSystem c) (flowTableOk c) s) :
    TableInv c s.1 s.2 := by
  refine h.invariant (I := fun s => TableInv c s.1 s.2) ?_ ?_
  · intro s hs
    have hs : s = (flowInit, fun _ => none) := hs
    rw [hs]
    exact tableInv_init hn
  · intro s a t hi hok hs
    obtain rfl := Option.some.inj hs
    exact hi.next hn hsize hok

/-- Which packets a structure matches is in the rule. -/
theorem matches_congr {flow flow' : HashpipeIbvFlowStruct} (h : flow.rule = flow'.rule)
    (p : Packet) : flow.Matches p ↔ flow'.Matches p := by
  have hlayers : ∀ flow : HashpipeIbvFlowStruct, flow.Matches p ↔
      ∀ matched ∈ [flow.spec_eth.matchesEth, flow.spec_ipv4.matchesIpv4,
        flow.spec_tcp_udp.matchesTcpUdp].take flow.num_of_specs, matched p := by
    intro flow
    show (∀ layer ∈ flow.layers.take flow.num_of_specs, layer.2 p) ↔
      ∀ matched ∈ (flow.layers.map Prod.snd).take flow.num_of_specs, matched p
    rw [← List.map_take, List.forall_mem_map]
  rw [hlayers, hlayers]
  simp only [HashpipeIbvFlowStruct.rule, FlowRule.mk.injEq, Prod.mk.injEq] at h
  obtain ⟨hspecs, ⟨heth, heth'⟩, ⟨hipv4, hipv4'⟩, htype, htcp, htcp'⟩ := h
  have h1 : flow.spec_eth.matchesEth = flow'.spec_eth.matchesEth := by
    funext p
    simp only [FlowSpec.matchesEth, heth, heth']
  have h2 : flow.spec_ipv4.matchesIpv4 = flow'.spec_ipv4.matchesIpv4 := by
    funext p
    simp only [FlowSpec.matchesIpv4, hipv4, hipv4']
  have h3 : flow.spec_tcp_udp.matchesTcpUdp = flow'.spec_tcp_udp.matchesTcpUdp := by
    funext p
    simp only [FlowSpec.matchesTcpUdp, htype, htcp, htcp']
  rw [hspecs, h1, h2, h3]

/-- A queue pair gets what the criteria of the table ask for. -/
theorem TableInv.delivered (hi : TableInv c s table) {i : ℕ} (hin : i < c.nqp) (p : Packet) :
    DeliveredTo c s i p ↔
      ∃ idx < c.max_flows, ∃ f, table idx = some f ∧ Wanted c.mac f p := by
  refine exists_congr fun idx => and_congr_right fun hidx => ?_
  rw [hi.handles idx hidx i hin]
  constructor
  · intro ⟨flow, hrule, hmatch⟩
    obtain ⟨f, hf, hrule⟩ := Option.map_eq_some_iff.mp hrule
    rw [← flowStruct_rule 1] at hrule
    exact ⟨f, hf, (matches_wanted (hi.types idx f hf) p).mp ((matches_congr hrule p).mpr hmatch)⟩
  · intro ⟨f, hf, hwanted⟩
    refine ⟨flowStruct 1 c.mac f, ?_, (matches_wanted (hi.types idx f hf) p).mpr hwanted⟩
    rw [hf, flowStruct_rule]
    rfl

/-- An index is live when the table has criteria for it. -/
theorem TableInv.live_iff (hi : TableInv c s table) (hn : 0 < c.nqp) {idx : ℕ}
    (hidx : idx < c.max_flows) : s.live c idx ↔ ∃ f, table idx = some f := by
  constructor
  · intro hlive
    have hsome := hlive 0 hn
    rw [hi.handles idx hidx 0 hn, Option.isSome_map] at hsome
    exact Option.isSome_iff_exists.mp hsome
  · intro ⟨f, hf⟩ i hin
    rw [hi.handles idx hidx i hin, hf]
    rfl

/-- The groups that are joined are those that the table asks for. -/
theorem TableInv.groups (hi : TableInv c s table) (hn : 0 < c.nqp) (group : UInt32) :
    s.joined (htobe32 group) = true ↔
      ∃ idx < c.max_flows, ∃ f, table idx = some f ∧ f.toGroup ∧ f.dst_ip = group := by
  rw [hi.flows.joined, beMulticast_htobe32]
  constructor
  · intro ⟨hm, idx, hidx, hlive, haddress⟩
    obtain ⟨f, hf⟩ := (hi.live_iff hn hidx).mp hlive
    have hrecorded := hi.addresses idx hidx f hf
    by_cases hrec : f.records = true
    · rw [if_pos hrec, haddress] at hrecorded
      have hgroup : group = f.dst_ip := by
        rw [← htobe32_htobe32 group, hrecorded, htobe32_htobe32]
      subst hgroup
      have hparts : f.isIp = true ∧ f.dst_ip ≠ 0 := by
        simpa [FlowCriteria.records] using hrec
      exact ⟨idx, hidx, f, hf, ⟨hparts.1, hparts.2, hm⟩, rfl⟩
    · rw [if_neg hrec, haddress, beMulticast_htobe32, hm] at hrecorded
      cases hrecorded
  · intro ⟨idx, hidx, f, hf, ⟨hip, hne, hm⟩, hgroup⟩
    have hrecorded := hi.addresses idx hidx f hf
    have hrec : f.records = true := by
      simp [FlowCriteria.records, hip, hne]
    rw [if_pos hrec] at hrecorded
    subst hgroup
    exact ⟨hm, idx, hidx, (hi.live_iff hn hidx).mpr ⟨f, hf⟩, hrecorded⟩

end Table

/-- **What the calls of `hashpipe_ibv_flow` amount to.**  In every run in which no call stops
half way and removing works, each queue pair gets exactly the packets that some criteria in the
caller's table ask for, and the groups joined are exactly those of the table. -/
theorem flows_deliver {c : FlowConfig} {s : FlowState × FlowTable} (hn : 0 < c.nqp)
    (hsize : c.nqp * c.max_flows ≤ 2 ^ 31)
    (h : ReachableUnder (flowTableSystem c) (flowTableOk c) s) :
    (∀ i < c.nqp, ∀ p, DeliveredTo c s.1 i p ↔
      ∃ idx < c.max_flows, ∃ f, s.2 idx = some f ∧ Wanted c.mac f p) ∧
    ∀ group, s.1.joined (htobe32 group) = true ↔
      ∃ idx < c.max_flows, ∃ f, s.2 idx = some f ∧ f.toGroup ∧ f.dst_ip = group := by
  have hi := tableInv_of_reachable hn hsize h
  exact ⟨fun i hin p => hi.delivered hin p, hi.groups hn⟩

/-- A group at index 0 gives way to another, then a second index is set and cleared, with a
failure in between. -/
def groupRun : List FlowCall :=
  [⟨0, udpGroup 0xe0000001, allSucceed⟩, ⟨0, udpGroup 0xe0000002, allSucceed⟩,
   ⟨1, udpPort 4000, createFails 0⟩, ⟨1, udpPort 4000, allSucceed⟩,
   ⟨1, ⟨.UDP, none, none, 0, 0, 0, 0, 0, 0⟩, allSucceed⟩]

def groupEnd : FlowState × FlowTable :=
  (runUnder (flowTableSystem twoQps) (flowTableOk twoQps) (flowInit, fun _ => none) groupRun).getD
    (flowInit, fun _ => none)

theorem flows_deliver_groupRun :
    groupEnd.1.joined (htobe32 0xe0000001) = false ∧ groupEnd.1.joined (htobe32 0xe0000002) = true ∧
      ∀ p, DeliveredTo twoQps groupEnd.1 1 p ↔
        ∃ idx < 2, ∃ f, groupEnd.2 idx = some f ∧ Wanted zeroMac f p := by
  have hstart : ReachableUnder (flowTableSystem twoQps) (flowTableOk twoQps)
      (flowInit, fun _ => none) := .init rfl
  have hdeliver := flows_deliver (by decide) (by decide) (hstart.run_getD groupRun)
  exact ⟨by decide, by decide, hdeliver.1 1 (by decide)⟩

end Hashpipe.Ibverbs
