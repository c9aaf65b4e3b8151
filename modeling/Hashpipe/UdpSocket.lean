import Hashpipe.Error
import Hashpipe.UdpPacket

/-!
# Opening and closing a UDP socket

`hashpipe_udp_init` asks for the addresses of `bindhost` and goes through them until it has a
socket that it can bind.  It stores the port into each address itself, with the `int` from the
parameters cut to 16 bits.

`udpInit_binds` says what it leaves: the first address that works, or no descriptor at all.  The
list of addresses is given back on the error path only.  Where there is no list, because
`getaddrinfo` has failed, `freeaddrinfo` gets a pointer that was never set, and there is nothing to
say about what follows.
-/

namespace Hashpipe.UdpSocket

open ByteMemory Packet Pktsock UdpPacket

/-- `struct addrinfo`, with the bytes of its `struct sockaddr_in`. -/
structure AddrInfo where
  ai_family : ℤ
  ai_socktype : ℤ
  ai_protocol : ℤ
  ai_addr : Mem

/-- `name` is the address and the port that a socket is bound to. -/
structure Socket where
  domain : ℤ
  type : ℤ
  protocol : ℤ
  name : Option (UInt32 × ℕ)
  nonblock : Bool
  rcvbuf : Option ℕ

/-- The descriptors of the process. -/
abbrev Sockets := ℕ → Option Socket

structure UdpParams where
  bindhost : String
  bindport : ℤ
  sock : ℤ
  pfd_fd : ℤ
  pfd_events : ℕ

/-- What has become of the variable `result`. -/
inductive AddrList
  /-- Still there. -/
  | live
  | freed
  deriving DecidableEq

/-- What the calls come back with, `socket` and `bind` for each address of the list. -/
structure UdpCalls where
  getaddrinfo : String → Option (List AddrInfo)
  socket : ℕ → Option ℕ
  bind : ℕ → Bool
  fcntl : Bool
  setsockopt : Bool

def POLLIN : ℕ := 1

/-- Offsets in `struct sockaddr_in`. -/
def SIN_PORT : ℕ := 2
def SIN_ADDR : ℕ := 4

/-- A new socket. -/
def AddrInfo.opened (rp : AddrInfo) : Socket :=
  ⟨rp.ai_family, rp.ai_socktype, rp.ai_protocol, none, false, none⟩

/-- `bind(2)` takes the port and the address as the network has them. -/
def Socket.bindTo (sock : Socket) (addr : Mem) : Socket :=
  { sock with name := some (be32 addr SIN_ADDR, be16 addr SIN_PORT) }

/-- The loop over the addresses, from the `i`-th on: whether it was left by `break`. -/
def bindLoop (order : ByteOrder) (calls : UdpCalls) (bindport : ℤ) :
    ℕ → List AddrInfo → ℤ → Sockets → Bool × ℤ × Sockets
  | _, [], sock, s => (false, sock, s)
  | i, rp :: rest, _, s =>
    match calls.socket i with
    | none => bindLoop order calls bindport (i + 1) rest (-1) s
    | some fd =>
      let s := Function.update s fd (some rp.opened)
      let addr := store16 order rp.ai_addr SIN_PORT (htons order (UInt16.ofInt bindport))
      if calls.bind i then
        (true, fd, Function.update s fd (some (rp.opened.bindTo addr)))
      else bindLoop order calls bindport (i + 1) rest (-1) (Function.update s fd none)

/-- `fcntl` and `setsockopt`, the failures of which only leave the socket as it is. -/
def Socket.setUp (calls : UdpCalls) (sock : Socket) : Socket :=
  { sock with
    nonblock := calls.fcntl
    rcvbuf := if calls.setsockopt then some (128 * 1024 * 1024) else sock.rcvbuf }

/-- `hashpipe_udp_init`; `none` is undefined behaviour. -/
def hashpipeUdpInit (order : ByteOrder) (calls : UdpCalls) (p : UdpParams) (s : Sockets) :
    Option (ℤ × UdpParams × Sockets × AddrList) :=
  match calls.getaddrinfo p.bindhost with
  -- `freeaddrinfo(result)` with `result` unset
  | none => none
  | some result =>
    let (broke, sock, s) := bindLoop order calls p.bindport 0 result p.sock s
    let p := { p with sock := sock }
    if broke then
      let s := Function.update s sock.toNat ((s sock.toNat).map (Socket.setUp calls))
      some (hashpipeOk, { p with pfd_fd := sock, pfd_events := POLLIN }, s, .live)
    else some (hashpipeErrSys, p, s, .freed)

/-- `hashpipe_udp_close`; a descriptor that is not open is not looked at. -/
def hashpipeUdpClose (p : UdpParams) (s : Sockets) : ℤ × Sockets :=
  (hashpipeOk, if p.sock < 0 then s else Function.update s p.sock.toNat none)

/-! ### What is left -/

/-- A socket can be had for the `i`-th address, and bound to it. -/
def UdpCalls.binds (calls : UdpCalls) (i : ℕ) : Prop :=
  (calls.socket i).isSome = true ∧ calls.bind i = true

/-- The socket as it should be. -/
def boundSocket (calls : UdpCalls) (bindport : ℤ) (rp : AddrInfo) : Socket :=
  Socket.setUp calls { rp.opened with
    name := some (be32 rp.ai_addr SIN_ADDR, (bindport % 2 ^ 16).toNat) }

/-- The first address of the list that can be bound, on the descriptor `fd`. -/
structure FirstBound (calls : UdpCalls) (result : List AddrInfo) (i : ℕ) (rp : AddrInfo)
    (fd : ℕ) : Prop where
  addr : result[i]? = some rp
  binds : calls.binds i
  first : ∀ j < i, ¬ calls.binds j
  socket : calls.socket i = some fd

/-- What a call that returns `HASHPIPE_OK` leaves. -/
structure InitOk (calls : UdpCalls) (p : UdpParams) (s : Sockets) (p' : UdpParams) (s' : Sockets)
    (list : AddrList) : Prop where
  bound : ∃ result i rp fd, calls.getaddrinfo p.bindhost = some result ∧
    FirstBound calls result i rp fd ∧
      s' = Function.update s fd (some (boundSocket calls p.bindport rp)) ∧
        p' = { p with sock := fd, pfd_fd := fd, pfd_events := POLLIN }
  /-- Nothing points to the list any more. -/
  leaked : list = .live
  closes : hashpipeUdpClose p' s' = (hashpipeOk, s)

/-- What any other call leaves. -/
structure InitFailed (calls : UdpCalls) (p : UdpParams) (rv : ℤ) (s s' : Sockets)
    (list : AddrList) : Prop where
  rv : rv = hashpipeErrSys
  sockets : s' = s
  none_binds : ∀ result i, calls.getaddrinfo p.bindhost = some result → i < result.length →
    ¬ calls.binds i
  freed : list = .freed

section Loop

variable {order : ByteOrder} {calls : UdpCalls} {bindport : ℤ} {s : Sockets}

theorem be16_store16_htons (order : ByteOrder) (m : Mem) (a : ℕ) (v : UInt16) :
    be16 (store16 order m a (htons order v)) a = v.toNat := by
  rw [store16_htons, be16, overlay_inside (Nat.add_zero a).symm (by decide),
    overlay_inside (j := 1) rfl (by decide)]
  exact be16_bytes v

/-- The port that the kernel reads is the one stored, cut to 16 bits; the address is that of
the list. -/
theorem bindTo_stored (order : ByteOrder) (rp : AddrInfo) (bindport : ℤ) (sock : Socket) :
    sock.bindTo (store16 order rp.ai_addr SIN_PORT (htons order (UInt16.ofInt bindport))) =
      { sock with name := some (be32 rp.ai_addr SIN_ADDR, (bindport % 2 ^ 16).toNat) } := by
  have hport : be16 (store16 order rp.ai_addr SIN_PORT (htons order (UInt16.ofInt bindport)))
      SIN_PORT = (bindport % 2 ^ 16).toNat := by
    rw [be16_store16_htons]
    exact UInt16.toNat_ofNat_of_lt (by rw [UInt16.size]; omega)
  have haddr : be32 (store16 order rp.ai_addr SIN_PORT (htons order (UInt16.ofInt bindport)))
      SIN_ADDR = be32 rp.ai_addr SIN_ADDR := by
    rw [store16_htons]
    simp only [be32, be16, SIN_ADDR, SIN_PORT]
    rw [overlay_outside (by omega), overlay_outside (by omega), overlay_outside (by omega),
      overlay_outside (by omega)]
  rw [Socket.bindTo, hport, haddr]

/-- An address that does not work leaves everything as it was. -/
theorem bindLoop_next {i : ℕ} {rp : AddrInfo} {rest : List AddrInfo} {sock : ℤ}
    (hfresh : ∀ fd, calls.socket i = some fd → s fd = none) (h : ¬ calls.binds i) :
    bindLoop order calls bindport i (rp :: rest) sock s =
      bindLoop order calls bindport (i + 1) rest (-1) s := by
  rw [bindLoop]
  cases hsocket : calls.socket i with
  | none => rfl
  | some fd =>
    have hbind : ¬ calls.bind i = true := fun hbind => h ⟨by rw [hsocket]; rfl, hbind⟩
    have hundo : Function.update (Function.update s fd (some rp.opened)) fd none = s := by
      rw [Function.update_idem, ← hfresh fd hsocket, Function.update_eq_self]
    simp only [if_neg hbind, hundo]

theorem bindLoop_found {i fd : ℕ} {rp : AddrInfo} {rest : List AddrInfo} {sock : ℤ}
    (hsocket : calls.socket i = some fd) (hbind : calls.bind i = true) :
    bindLoop order calls bindport i (rp :: rest) sock s =
      (true, (fd : ℤ), Function.update s fd (some { rp.opened with
        name := some (be32 rp.ai_addr SIN_ADDR, (bindport % 2 ^ 16).toNat) })) := by
  rw [bindLoop, hsocket]
  simp only [if_pos hbind, bindTo_stored, Function.update_idem]

/-- **The loop stops at the first address that works**, with that socket and no other. -/
theorem bindLoop_spec (hfresh : ∀ i fd, calls.socket i = some fd → s fd = none)
    (result : List AddrInfo) (i : ℕ) (sock : ℤ) :
    (∃ k rp fd, result[k]? = some rp ∧ calls.binds (i + k) ∧
      (∀ j < k, ¬ calls.binds (i + j)) ∧ calls.socket (i + k) = some fd ∧
        bindLoop order calls bindport i result sock s =
          (true, (fd : ℤ), Function.update s fd (some { rp.opened with
            name := some (be32 rp.ai_addr SIN_ADDR, (bindport % 2 ^ 16).toNat) }))) ∨
    ((∀ k < result.length, ¬ calls.binds (i + k)) ∧
      (bindLoop order calls bindport i result sock s).1 = false ∧
        (bindLoop order calls bindport i result sock s).2.2 = s) := by
  induction result generalizing i sock with
  | nil => exact .inr ⟨fun k hk => absurd hk (Nat.not_lt_zero k), rfl, rfl⟩
  | cons rp rest ih =>
    by_cases h : calls.binds i
    · obtain ⟨fd, hfd⟩ := Option.isSome_iff_exists.mp h.1
      exact .inl ⟨0, rp, fd, rfl, h, fun j hj => absurd hj (Nat.not_lt_zero j), hfd,
        bindLoop_found hfd h.2⟩
    · have hnext : bindLoop order calls bindport i (rp :: rest) sock s =
          bindLoop order calls bindport (i + 1) rest (-1) s := bindLoop_next (hfresh i) h
      rw [hnext]
      have hshift : ∀ k, i + 1 + k = i + (k + 1) := fun k => by omega
      rcases ih (i + 1) (-1) with ⟨k, rp', fd, haddr, hbinds, hfirst, hsocket, hloop⟩ | ⟨hnone, hrest⟩
      · refine .inl ⟨k + 1, rp', fd, haddr, hshift k ▸ hbinds, fun j hj => ?_, hshift k ▸ hsocket,
          hloop⟩
        cases j with
        | zero => exact h
        | succ j => exact hshift j ▸ hfirst j (by omega)
      · refine .inr ⟨fun k hk => ?_, hrest⟩
        cases k with
        | zero => exact h
        | succ k => exact hshift k ▸ hnone k (Nat.lt_of_succ_lt_succ hk)

end Loop

/-- The outcomes where there is a list. -/
theorem udpInit_outcome {order : ByteOrder} {calls : UdpCalls} {p p' : UdpParams} {s s' : Sockets}
    {rv : ℤ} {list : AddrList} {result : List AddrInfo}
    (hfresh : ∀ i fd, calls.socket i = some fd → s fd = none)
    (hresult : calls.getaddrinfo p.bindhost = some result)
    (h : hashpipeUdpInit order calls p s = some (rv, p', s', list)) :
    (rv = hashpipeOk ∧ InitOk calls p s p' s' list) ∨ InitFailed calls p rv s s' list := by
  rw [hashpipeUdpInit, hresult] at h
  rcases @bindLoop_spec order calls p.bindport s hfresh result 0 p.sock with
    ⟨k, rp, fd, haddr, hbinds, hfirst, hsocket, hloop⟩ | ⟨hnone, hbroke, hs⟩
  · simp only [hloop] at h
    cases h
    rw [Nat.zero_add] at hbinds hsocket
    have hsock : Function.update (Function.update s fd (some { rp.opened with
        name := some (be32 rp.ai_addr SIN_ADDR, (p.bindport % 2 ^ 16).toNat) })) fd
          (some (boundSocket calls p.bindport rp)) =
        Function.update s fd (some (boundSocket calls p.bindport rp)) := Function.update_idem _ _ _
    refine .inl ⟨rfl, ⟨result, k, rp, fd, hresult,
      ⟨haddr, hbinds, fun j hj => Nat.zero_add j ▸ hfirst j hj, hsocket⟩, ?_, rfl⟩, rfl, ?_⟩
    · simp only [Int.toNat_natCast, Function.update_self, Option.map_some]
      exact hsock
    · rw [hashpipeUdpClose]
      simp only [Int.toNat_natCast, Function.update_self, Option.map_some]
      rw [if_neg (by omega), Function.update_idem, Function.update_idem, ← hfresh k fd hsocket,
        Function.update_eq_self]
  · obtain ⟨⟨broke, sock, s₁⟩, hloop⟩ : ∃ r, bindLoop order calls p.bindport 0 result p.sock s = r :=
      ⟨_, rfl⟩
    rw [hloop] at hbroke hs
    simp only [hloop] at h
    obtain rfl : broke = false := hbroke
    obtain rfl : s₁ = s := hs
    cases h
    refine .inr ⟨rfl, rfl, ?_, rfl⟩
    intro result' i hresult' hi
    obtain rfl := Option.some.inj (hresult.symm.trans hresult')
    exact Nat.zero_add i ▸ hnone i hi

/-- **The outcomes of `hashpipe_udp_init`.**  It is undefined exactly when the host has no list of
addresses.  Otherwise it returns `HASHPIPE_OK` exactly when some address of the host can be bound,
and then it has the first such address, under the port asked for cut to 16 bits, on its only new
descriptor; otherwise it leaves no descriptor behind. -/
theorem udpInit_binds {order : ByteOrder} {calls : UdpCalls} {p : UdpParams} {s : Sockets}
    (hfresh : ∀ i fd, calls.socket i = some fd → s fd = none) :
    (hashpipeUdpInit order calls p s = none ↔ calls.getaddrinfo p.bindhost = none) ∧
      ∀ rv p' s' list, hashpipeUdpInit order calls p s = some (rv, p', s', list) →
        (rv = hashpipeOk ∧ InitOk calls p s p' s' list) ∨ InitFailed calls p rv s s' list := by
  cases hresult : calls.getaddrinfo p.bindhost with
  | none =>
    have hundefined : hashpipeUdpInit order calls p s = none := by
      rw [hashpipeUdpInit, hresult]
    refine ⟨⟨fun _ => rfl, fun _ => hundefined⟩, fun rv p' s' list h => ?_⟩
    rw [hundefined] at h
    cases h
  | some result =>
    refine ⟨⟨fun h => ?_, fun h => by cases h⟩, fun rv p' s' list h =>
      udpInit_outcome hfresh hresult h⟩
    rw [hashpipeUdpInit, hresult] at h
    dsimp only at h
    split at h <;> cases h

/-- No socket for the first of three addresses, and the second cannot be bound. -/
def thirdWorks : UdpCalls :=
  ⟨fun _ => some [⟨2, 2, 17, fun _ => 0⟩, ⟨2, 2, 17, fun _ => 127⟩, ⟨2, 2, 17, fun _ => 10⟩],
    fun i => if i = 0 then none else some (3 + i), fun i => i == 2, true, true⟩

/-- A port that does not fit 16 bits. -/
def largePort : UdpParams := ⟨"localhost", 70000, -1, -1, 0⟩

theorem udpInit_binds_thirdWorks : ∃ p' s' list,
    hashpipeUdpInit .little thirdWorks largePort (fun _ => none) =
        some (hashpipeOk, p', s', list) ∧
      InitOk thirdWorks largePort (fun _ => none) p' s' list := by
  have houtcome := (@udpInit_binds .little thirdWorks largePort (fun _ => none)
    fun _ _ _ => rfl).2
  exact ⟨_, _, _, rfl, ((houtcome _ _ _ _ rfl).resolve_right
    fun h => absurd h.rv (by decide)).2⟩

end Hashpipe.UdpSocket
