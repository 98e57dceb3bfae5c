import TTcp.Routed
import TTcp.Tcp.Balance

/-!
# TTcp.SMain.Runs

What becomes of the program of `user/s_main.c`?

A UDP test gives back all that it takes.  A TCP test keeps its control block, so there are as many
tests as control blocks, and the next one hands the null pointer of `t_tcp_new` to `t_tcp_connect`.
Nothing else makes `main` crash or hang, whatever comes in: `Inv` counts the tests, and every step of
the program keeps it (`Inv.final`).
-/

namespace TTcp

/-- The packets that the task keeps, because it never comes back to free them. -/
def Fate.lost : Fate → Nat
  | .returns _ => 0
  | .hangs | .crashes => 1

theorem Fate.lost_le (fate : Fate) : fate.lost ≤ 1 := by
  cases fate with
  | returns ret => exact Nat.zero_le 1
  | hangs => exact Nat.le_refl 1
  | crashes => exact Nat.le_refl 1

/-! ## what the handlers keep -/

section
variable (h : Host) (indet : Nat → Option Netif) (cbRet : ErrT) (netif : Netif)

/-- Only TCP input changes more than the ARP table. -/
theorem handle_host (d : Handler × Pbuf) :
    (handle h indet cbRet netif d).2.2.1.udp = h.udp ∧
      ((handle h indet cbRet netif d).2.2.1.tcp = h.tcp ∨
        (handle h indet cbRet netif d).2.2.1.tcp = (tTcpInput h.tcp indet cbRet d.2).2.2) := by
  obtain ⟨d, p⟩ := d
  cases d with
  | arp => exact ⟨rfl, .inl rfl⟩
  | icmp => exact ⟨rfl, .inl rfl⟩
  | udp =>
      cases hudp : tUdpInput h.udp p with
      | none => simp only [handle, hudp, true_or, and_self]
      | some r => simp only [handle, hudp, true_or, and_self]
  | tcp =>
      rw [handle_tcp_eq]
      generalize tTcpInput h.tcp indet cbRet p = r
      exact ⟨rfl, .inr rfl⟩
  | drop ret => exact ⟨rfl, .inl rfl⟩

/-- What a frame leaves as it was. -/
structure Host.Passed (h h' : Host) : Prop where
  udp : h'.udp = h.udp
  net : h'.tcp.net = h.tcp.net
  tcpPcbPool : h'.tcp.tcpPcbPool = h.tcp.tcpPcbPool
  quiet : h.tcp.Quiet → h'.tcp.Quiet
  idle : ∀ i, (h.tcp.pcb i).Idle → (h'.tcp.pcb i).Idle

theorem handle_passed (d : Handler × Pbuf) : h.Passed (handle h indet cbRet netif d).2.2.1 := by
  obtain ⟨hudp, htcp | htcp⟩ := handle_host h indet cbRet netif d
  · refine ⟨hudp, by rw [htcp], by rw [htcp], fun hq => by rwa [htcp], fun i hi => by rwa [htcp]⟩
  · have hexec : (h.tcp.exec (.input d.2 cbRet indet)).2 =
        (tTcpInput h.tcp indet cbRet d.2).2.2 := by
      simp only [TcpHost.exec]
    have hnet := h.tcp.exec_net (.input d.2 cbRet indet)
    have hpool := h.tcp.exec_tcpPcbPool (.input d.2 cbRet indet)
    rw [hexec] at hnet hpool
    refine ⟨hudp, by rw [htcp, hnet], by rw [htcp, hpool], fun hq => ?_, fun i hi => ?_⟩
    · rw [htcp]
      exact hq.input indet cbRet d.2
    · rw [htcp]
      exact TcpHost.input_idle indet cbRet d.2 hi

theorem tRawInput_passed (p : Pbuf) : h.Passed (tRawInput h indet cbRet netif p).2.2.1 := by
  have hpassed := handle_passed h indet cbRet netif (rawDemux p)
  unfold tRawInput
  generalize handle h indet cbRet netif (rawDemux p) = r at hpassed
  obtain ⟨fate, q, h', evs⟩ := r
  cases fate with
  | returns ret => exact ⟨hpassed.udp, hpassed.net, hpassed.tcpPcbPool, hpassed.quiet, hpassed.idle⟩
  | hangs => exact hpassed
  | crashes => exact hpassed

theorem handle_balanced (d : Handler × Pbuf) (hin : InUse h.tcp.queuedPbufs) :
    Balanced h.tcp.pools h.tcp.queuedPbufs (handle h indet cbRet netif d).2.2.1.tcp.pools
      (handle h indet cbRet netif d).2.2.1.tcp.queuedPbufs := by
  obtain ⟨-, htcp | htcp⟩ := handle_host h indet cbRet netif d
  · rw [htcp]
    exact .refl _ hin
  · rw [htcp]
    exact TcpHost.input_balanced hin indet cbRet d.2

/-- The packet goes to the free list, unless it is lost. -/
theorem tRawInput_counts {p : Pbuf} (hp : p.ref = 1) (hin : InUse h.tcp.queuedPbufs) :
    let r := tRawInput h indet cbRet netif p
    InUse r.2.2.1.tcp.queuedPbufs ∧
      r.2.2.1.pbufPool.length + (r.2.2.1.tcp.queuedPbufs.length + r.1.lost) =
        h.pbufPool.length + h.tcp.queuedPbufs.length + 1 ∧
      r.2.2.1.tcp.pools.segPool.length + r.2.2.1.tcp.queuedPbufs.length =
        h.tcp.pools.segPool.length + h.tcp.queuedPbufs.length := by
  have hbal := handle_balanced h indet cbRet netif (rawDemux p) hin
  have hsame : SameUse p (handle h indet cbRet netif (rawDemux p)).2.1 :=
    (rawDemux_sameUse p).trans
      (handle_givesBack h indet cbRet netif (rawDemux p).2 (rawDemux p).1 hin).1
  unfold tRawInput
  generalize handle h indet cbRet netif (rawDemux p) = r at hbal hsame
  obtain ⟨fate, q, h', evs⟩ := r
  have hpbufs := hbal.pbufs
  have hsegs := hbal.segs
  cases fate with
  | returns ret =>
      refine ⟨hbal.inUse, ?_, hsegs⟩
      have hfree : (tPbufFree h'.pbufPool [q]).2.length = h'.pbufPool.length + 1 := by
        rw [tPbufFree_single _ (hsame.2.trans hp), List.length_cons]
      show (tPbufFree h'.pbufPool [q]).2.length + (h'.tcp.queuedPbufs.length + 0) = _
      rw [hfree]
      simp only [Host.pbufPool] at hpbufs ⊢
      omega
  | hangs =>
      refine ⟨hbal.inUse, ?_, hsegs⟩
      simp only [Host.pbufPool, Fate.lost] at hpbufs ⊢
      omega
  | crashes =>
      refine ⟨hbal.inUse, ?_, hsegs⟩
      simp only [Host.pbufPool, Fate.lost] at hpbufs ⊢
      omega

end

/-! ## the control blocks of UDP -/

theorem tUdpBind_pool {u u' : Udp} {i : UdpPcbId} {ipaddr : Option UInt32} {port : UInt16}
    {err : ErrT} (h : tUdpBind u i ipaddr port = some (err, u')) :
    u'.udpPcbPool = u.udpPcbPool := by
  unfold tUdpBind at h
  cases hfind : udpFind u i with
  | none =>
      rw [hfind] at h
      contradiction
  | some rebind =>
      rw [hfind] at h
      simp only [Option.bind_eq_bind, Option.bind_some] at h
      split at h
      all_goals
        obtain ⟨-, rfl⟩ := Prod.mk.inj (Option.some.inj h)
        exact Udp.udpPort_udpPcbPool _ port

/-- A control block that is bound is not bound again. -/
theorem tUdpConnect_pool {u u' : Udp} {i : UdpPcbId} {ipaddr : Option UInt32} {port : UInt16}
    {err : ErrT} (h : tUdpConnect u i ipaddr port = some (err, u')) :
    u'.udpPcbPool = u.udpPcbPool := by
  unfold tUdpConnect at h
  split at h
  all_goals
    obtain ⟨r, hr, h⟩ := Option.bind_eq_some_iff.mp h
    obtain ⟨err', v⟩ := r
  · have hpool : v.udpPcbPool = u.udpPcbPool := tUdpBind_pool hr
    simp only at h
    split at h
    · obtain ⟨-, rfl⟩ := Prod.mk.inj (Option.some.inj h)
      exact hpool
    · obtain ⟨found, -, h⟩ := Option.bind_eq_some_iff.mp h
      cases found with
      | none => rw [← (Prod.mk.inj (Option.some.inj h)).2, Udp.setPcb, hpool]
      | some j => rw [← (Prod.mk.inj (Option.some.inj h)).2, Udp.setPcb, hpool]
  · obtain ⟨rfl, rfl⟩ := Prod.mk.inj (Option.some.inj hr)
    simp only [ne_eq, not_true_eq_false, if_false] at h
    obtain ⟨found, -, h⟩ := Option.bind_eq_some_iff.mp h
    cases found with
    | none => rw [← (Prod.mk.inj (Option.some.inj h)).2, Udp.setPcb]
    | some j => rw [← (Prod.mk.inj (Option.some.inj h)).2, Udp.setPcb]

namespace MainAt

theorem eq_of_atKey {main : MainAt} (h : main.atKey) : main = .getchar := by
  cases main with
  | getchar => rfl
  | _ => contradiction

/-- The control block of a UDP test, while it is on the list. -/
def bound : MainAt → List UdpPcbId
  | udpConnect i | setUdpRecv i | pbufAlloc i | udpSend i _ | udpRemove i => [i]
  | _ => []

/-- The control block of a UDP test. -/
def taken : MainAt → List UdpPcbId
  | udpBind i => [i]
  | main => main.bound

/-- The packet that `main` has. -/
def packet : MainAt → List Pbuf
  | udpSend _ p => [p]
  | _ => []

end MainAt

/-- The list of UDP has the control block of the test, and all others are free. -/
structure UdpTest (main : MainAt) (u : Udp) : Prop where
  listed : u.Listed main.bound
  live : ∀ i ∈ main.taken, u.Live i
  pool : u.udpPcbPool.length + main.taken.length = tMempNumUdpPcb

/-- After `n` TCP tests, `n` control blocks are gone, and no data is queued.  Those that are free, and
the one that `main` is about to connect, have nothing queued. -/
structure TcpTests (n : Nat) (main : MainAt) (h : TcpHost) : Prop where
  net : h.net = ⟨[netif0], some netif0⟩
  quiet : h.Quiet
  nodup : h.tcpPcbPool.Nodup
  pool : h.tcpPcbPool.length = tMempNumTcpPcb - n
  idle : ∀ i, i ∈ h.tcpPcbPool ∨ main = .tcpConnect (some i) → (h.pcb i).Idle
  live : ∀ i, main = .tcpConnect (some i) → i ∉ h.tcpPcbPool

/-- Every pbuf is on the free list, in the mailbox, in a queue, with `main`, or lost. -/
structure Buffers (s : SMain) : Prop where
  mbox : ∀ msg ∈ s.tcpip.mbox, ∃ p netif, msg.body = .input p netif ∧ p.ref = 1
  queued : InUse s.host.tcp.queuedPbufs
  packet : ∀ p ∈ s.main.packet, p.ref = 1 ∧ p.payload = 42
  pbufs : s.host.pbufPool.length + (s.tcpip.mbox.length + s.host.tcp.queuedPbufs.length +
    s.main.packet.length + s.task.lost) = tPbufPoolSize
  segs : s.host.tcp.pools.segPool.length + s.host.tcp.queuedPbufs.length = tMempNumTcpSeg

namespace SMain

/-- The frames that may wait in the mailbox: the queues hold a SYN for each connection, the task may
have lost a packet, and `main` needs one. -/
def backlog : Nat := tPbufPoolSize - tMempNumTcpPcb - 2

/-- What holds in every state, after `n` TCP tests. -/
structure Inv (n : Nat) (s : SMain) : Prop where
  udp : UdpTest s.main s.host.udp
  tcp : TcpTests n s.main s.host.tcp
  bufs : Buffers s
  hung : s.main ≠ .hung
  crashes : s.main = .crashed ∨ s.main = .tcpConnect none ↔ tMempNumTcpPcb < n

variable {n : Nat} {s : SMain}

/-- `main` finds a pbuf. -/
theorem Inv.pbufPool_ne_nil (h : Inv n s) (hmain : s.main.packet = [])
    (hback : s.tcpip.mbox.length ≤ backlog) : s.host.pbufPool ≠ [] := by
  intro hnil
  have hall := h.bufs.pbufs
  have hqueued := h.tcp.quiet.length_queuedPbufs
  have hlost := s.task.lost_le
  rw [hnil, hmain] at hall
  simp only [backlog, tPbufPoolSize, tMempNumTcpPcb, List.length_nil] at hall hqueued hback
  omega

/-- There are more blocks for segments than control blocks. -/
theorem Inv.segPool_ne_nil (h : Inv n s) : s.host.tcp.pools.segPool ≠ [] := by
  intro hnil
  have hall := h.bufs.segs
  have hqueued := h.tcp.quiet.length_queuedPbufs
  rw [hnil] at hall
  simp only [tMempNumTcpSeg, tMempNumTcpPcb, List.length_nil] at hall hqueued
  omega

/-- Every address has a route. -/
theorem Inv.total (h : Inv n s) : s.host.tcp.net.Total := by
  intro dest
  rw [h.tcp.net, tIpRoute]
  split
  · exact Option.some_ne_none _
  · exact Option.some_ne_none _

end SMain

/-! ## what a part of the state does not see -/

theorem UdpTest.congr {main main' : MainAt} {u : Udp} (h : UdpTest main u)
    (hbound : main'.bound = main.bound) (htaken : main'.taken = main.taken) : UdpTest main' u where
  listed := hbound ▸ h.listed
  live := htaken ▸ h.live
  pool := htaken ▸ h.pool

theorem TcpTests.leave {n : Nat} {main main' : MainAt} {h : TcpHost} (ht : TcpTests n main h)
    (hmain : ∀ i, main' ≠ .tcpConnect (some i)) : TcpTests n main' h where
  net := ht.net
  quiet := ht.quiet
  nodup := ht.nodup
  pool := ht.pool
  idle i hi := ht.idle i (.inl (hi.resolve_right (hmain i)))
  live i hi := absurd hi (hmain i)

theorem TcpTests.setPools {n : Nat} {main : MainAt} {h : TcpHost} (ht : TcpTests n main h)
    (pools : Pools) : TcpTests n main { h with pools } where
  net := ht.net
  quiet := ht.quiet
  nodup := ht.nodup
  pool := ht.pool
  idle := ht.idle
  live := ht.live

theorem Buffers.congr {s s' : SMain} (h : Buffers s) (htcp : s'.host.tcp = s.host.tcp)
    (hmbox : s'.tcpip.mbox = s.tcpip.mbox) (hpacket : s'.main.packet = s.main.packet)
    (htask : s'.task = s.task) : Buffers s' where
  mbox := by rw [hmbox]; exact h.mbox
  queued := by rw [htcp]; exact h.queued
  packet := by rw [hpacket]; exact h.packet
  pbufs := by
    rw [Host.pbufPool, htcp, hmbox, hpacket, htask]
    exact h.pbufs
  segs := by rw [htcp]; exact h.segs

/-! ## keys -/

theorem tTcpNew_cons {h : TcpHost} {i : TcpPcbId} {rest : List TcpPcbId}
    (hp : h.tcpPcbPool = i :: rest) : ∃ iss t, tTcpNew h = (some i, t) ∧
      t.pcb = Function.update h.pcb i (tcpPcbInit iss h.tcpTicks) ∧ t.pools = h.pools ∧
      t.net = h.net ∧ t.tcpPcbPool = rest := by
  unfold tTcpNew
  rw [hp]
  exact ⟨_, _, rfl, rfl, rfl, rfl, rfl⟩

/-- A control block with nothing queued takes the place of another. -/
theorem queuedPbufs_update {h t : TcpHost} {i : TcpPcbId} {pcb : TcpPcb}
    (hpcb : t.pcb = Function.update h.pcb i pcb) (hold : (h.pcb i).Idle) (hnew : pcb.Idle) :
    t.queuedPbufs = h.queuedPbufs := by
  refine List.flatMap_congr fun j _ => ?_
  by_cases hji : j = i
  · rw [hji, hpcb, Function.update_self, TcpPcb.pbufs, TcpPcb.pbufs, hnew.unsent, hnew.unacked,
      hold.unsent, hold.unacked]
  · rw [hpcb, Function.update_of_ne hji]

/-- One more test gets a control block. -/
theorem TcpTests.new {n : Nat} {main : MainAt} {h : TcpHost} (ht : TcpTests n main h) {i : TcpPcbId}
    {rest : List TcpPcbId} (hp : h.tcpPcbPool = i :: rest) : ∃ t, tTcpNew h = (some i, t) ∧
      TcpTests (n + 1) (.tcpConnect (some i)) t ∧ t.pools = h.pools ∧
      t.queuedPbufs = h.queuedPbufs := by
  obtain ⟨iss, t, hnew, hpcb, hpools, hnet, hrest⟩ := tTcpNew_cons hp
  have hold : (h.pcb i).Idle := ht.idle i (.inl (hp ▸ List.mem_cons_self))
  have hinit := TcpPcb.idle_init iss h.tcpTicks
  have hnodup := List.nodup_cons.mp (hp ▸ ht.nodup)
  have hpool := ht.pool
  rw [hp, List.length_cons] at hpool
  have hself : t.pcb i = tcpPcbInit iss h.tcpTicks := by rw [hpcb, Function.update_self]
  refine ⟨t, hnew, ⟨hnet.trans ht.net, fun j => ?_, hrest ▸ hnodup.2, ?_, fun j hj => ?_,
    fun j hj => ?_⟩, hpools, queuedPbufs_update hpcb hold hinit⟩
  · show (t.pcb j).Quiet
    by_cases hji : j = i
    · rw [hji, hself]
      exact .inl hinit
    · rw [hpcb, Function.update_of_ne hji]
      exact ht.quiet j
  · rw [hrest]
    simp only [tMempNumTcpPcb] at hpool ⊢
    omega
  · by_cases hji : j = i
    · rw [hji, hself]
      exact hinit
    · rw [hpcb, Function.update_of_ne hji]
      obtain hj | hj := hj
      · exact ht.idle j (.inl (hp ▸ List.mem_cons_of_mem i (hrest ▸ hj)))
      · exact absurd (by simpa using hj.symm) hji
  · obtain rfl : i = j := by simpa using hj
    rw [hrest]
    exact hnodup.1

namespace SMain

variable {n : Nat} {s : SMain}

/-- Key 1: `t_udp_new` finds a control block. -/
theorem Inv.key_udp (h : Inv n s) (hmain : s.main = .getchar) :
    ∃ i rest, s.host.udp.udpPcbPool = i :: rest ∧ (tUdpNew s.host.udp).2.udpPcbPool = rest ∧
      s.key 0x31 = { s.setHost { s.host with udp := (tUdpNew s.host.udp).2 } with
        times := s.times + 1
        main := .udpBind i } := by
  have hpool := h.udp.pool
  rw [hmain] at hpool
  cases hp : s.host.udp.udpPcbPool with
  | nil =>
      rw [hp] at hpool
      contradiction
  | cons i rest =>
      refine ⟨i, rest, rfl, by simp only [tUdpNew, hp], ?_⟩
      simp only [key, host, setHost] at hp ⊢
      simp only [tUdpNew, hp]
      rfl

theorem Inv.udpTest (h : Inv n s) (hmain : s.main = .getchar) : Inv n (s.key 0x31) := by
  obtain ⟨i, rest, hp, hrest, hkey⟩ := h.key_udp hmain
  have hpool := h.udp.pool
  have hlisted := h.udp.listed
  have hcrash := h.crashes
  rw [hmain] at hpool hlisted hcrash
  have hnodup := hp ▸ hlisted.pool
  rw [hp] at hpool
  rw [hkey]
  refine ⟨⟨hlisted.new, fun j hj => ?_, ?_⟩, ?_, ?_, by simp, ?_⟩
  · obtain rfl := List.mem_singleton.mp hj
    show j ∉ (tUdpNew s.host.udp).2.udpPcbPool
    rw [hrest]
    exact (List.nodup_cons.mp hnodup).1
  · show (tUdpNew s.host.udp).2.udpPcbPool.length + 1 = _
    rw [hrest]
    exact hpool
  · exact h.tcp.leave fun j hj => by cases hj
  · exact h.bufs.congr rfl rfl (by rw [hmain]; rfl) rfl
  · simpa using hcrash

/-- Key 2: `t_tcp_new` finds a control block, or `main` has a null pointer. -/
theorem Inv.tcpTest (h : Inv n s) (hmain : s.main = .getchar) : Inv (n + 1) (s.key 0x32) := by
  have hcrash := h.crashes
  rw [hmain] at hcrash
  have hn : ¬ tMempNumTcpPcb < n := fun hn => by simpa using hcrash.mpr hn
  have hpool := h.tcp.pool
  have hkey : s.key 0x32 = { s.setHost { s.host with tcp := (tTcpNew s.host.tcp).2 } with
      main := .tcpConnect (tTcpNew s.host.tcp).1 } := by
    simp only [key]
    rfl
  have hudp : ∀ i, UdpTest (.tcpConnect i) s.host.udp := fun i =>
    h.udp.congr (by rw [hmain]; rfl) (by rw [hmain]; rfl)
  rw [hkey]
  cases hp : s.host.tcp.tcpPcbPool with
  | nil =>
      have hnew : tTcpNew s.host.tcp = (none, s.host.tcp) := by
        simp only [tTcpNew, hp]
      rw [hp, List.length_nil] at hpool
      rw [hnew]
      refine ⟨hudp none, ?_, ?_, by simp, ?_⟩
      · have hzero : tMempNumTcpPcb - (n + 1) = tMempNumTcpPcb - n := by
          simp only [tMempNumTcpPcb] at hpool ⊢
          omega
        have hleave : TcpTests n (.tcpConnect none) s.host.tcp :=
          h.tcp.leave fun j hj => by cases hj
        exact ⟨hleave.net, hleave.quiet, hleave.nodup, hleave.pool.trans hzero.symm, hleave.idle,
          hleave.live⟩
      · exact h.bufs.congr rfl rfl (by rw [hmain]; rfl) rfl
      · refine iff_of_true (.inr rfl) ?_
        simp only [tMempNumTcpPcb] at hn hpool ⊢
        omega
  | cons i rest =>
      obtain ⟨t, hnew, htcp, hpools, hqueued⟩ := h.tcp.new hp
      rw [hp, List.length_cons] at hpool
      rw [hnew]
      refine ⟨hudp (some i), htcp, ?_, by simp, ?_⟩
      · exact {
          mbox := h.bufs.mbox
          queued := (congrArg InUse hqueued).mpr h.bufs.queued
          packet := by simp [MainAt.packet]
          pbufs := by
            have hall := h.bufs.pbufs
            rw [hmain] at hall
            show t.pools.pbufPool.length + (s.tcpip.mbox.length +
              t.queuedPbufs.length + 0 + s.task.lost) = _
            rw [hpools, hqueued]
            exact hall
          segs := by
            show t.pools.segPool.length + t.queuedPbufs.length = _
            rw [hpools, hqueued]
            exact h.bufs.segs }
      · refine iff_of_false (by simp) ?_
        simp only [tMempNumTcpPcb] at hpool ⊢
        omega

end SMain

/-! ## calls -/

/-- The packet of a probe goes back. -/
theorem tcpKeepalive_counts (net : Net) (pools : Pools) (pcb : TcpPcb) :
    (tcpKeepalive net pools pcb).1.pbufPool.length = pools.pbufPool.length ∧
      (tcpKeepalive net pools pcb).1.segPool = pools.segPool := by
  unfold tcpKeepalive
  split
  · next pool ha =>
    rw [tPbufAlloc_eq_none ha]
    exact ⟨rfl, rfl⟩
  · next p pool ha =>
    obtain ⟨-, -, q, hpool, hp⟩ := tPbufAlloc_eq_some ha
    have href : (tIpOutput net none (.value none) (tcpKeepaliveBuild pcb p p.payload)
        (some pcb.localIp) (.val pcb.remoteIp) pcb.ttl 0 tIpProtoTcp).2.1.ref = 1 := by
      rw [tIpOutput_ref, hp]
      simp [tcpKeepaliveBuild, tTcphHdrlenSet]
    refine ⟨?_, rfl⟩
    show (tPbufFree pool _).2.length = _
    rw [tPbufFree_single _ href, hpool]
    rfl

/-- A packet with headroom is sent, and freed. -/
theorem tUdpSend_length {net : Net} (hnet : net.Total) (pool : List Pbuf) (pcb : UdpPcb) {p : Pbuf}
    (href : p.ref = 1) (hpay : p.payload = 42) :
    (tUdpSend net pool pcb p).2.1.length = pool.length + 1 := by
  have hheader : (tPbufHeader p (-tUdpHlen)).1 = 0 := by
    rw [tPbufHeader_eq, hpay]
    rfl
  unfold tUdpSend
  simp only
  rw [if_neg (not_not.mpr hheader)]
  split
  · next hnone => exact absurd hnone (hnet _)
  · rw [tPbufFree_single]
    · rfl
    · rw [tIpOutput_ref]
      simp [udpHdrWrite, href]

namespace SMain

/-- `main` is neither at the end of a TCP test nor at its own. -/
def Plain (main : MainAt) : Prop :=
  main ≠ .hung ∧ main ≠ .crashed ∧ ∀ i, main ≠ .tcpConnect i

variable {n : Nat} {s : SMain}

theorem Inv.le_of_plain (h : Inv n s) (hmain : Plain s.main) : ¬ tMempNumTcpPcb < n := fun hn =>
  (h.crashes.mpr hn).elim hmain.2.1 (hmain.2.2 none)

theorem Inv.of_plain (hn : ¬ tMempNumTcpPcb < n) (hmain : Plain s.main)
    (hudp : UdpTest s.main s.host.udp) (htcp : TcpTests n s.main s.host.tcp) (hbufs : Buffers s) :
    Inv n s :=
  ⟨hudp, htcp, hbufs, hmain.1, iff_of_false (fun hc => hc.elim hmain.2.1 (hmain.2.2 none)) hn⟩

/-- A call that only UDP sees. -/
theorem Inv.udpCall (h : Inv n s) (hmain : Plain s.main) {next : MainAt} {u : Udp}
    (hnext : Plain next) (hpacket : next.packet = s.main.packet) (hu : UdpTest next u) :
    Inv n { s.setHost { s.host with udp := u } with main := next } :=
  .of_plain (h.le_of_plain hmain) hnext hu (h.tcp.leave fun i => hnext.2.2 (some i))
    (h.bufs.congr rfl rfl hpacket rfl)

section
variable (indet : Nat → Option Netif)

/-! What each call of `main` does. -/

theorem Inv.udpBind_eq (h : Inv n s) {i : UdpPcbId} (hmain : s.main = .udpBind i) : ∃ u,
    s.call indet = ({ s.setHost { s.host with udp := u } with main := .udpConnect i }, []) ∧
      u.Listed [i] ∧ u.udpPcbPool = s.host.udp.udpPcbPool ∧
      u.pcb = Function.update s.host.udp.pcb i
        (Udp.boundPcb s.host.udp i (some netif0.ipAddr) (3307 + s.times).toUInt16) := by
  have hudp := h.udp
  rw [hmain] at hudp
  obtain ⟨u, hu, hlisted, hpcb⟩ := hudp.listed.bind (hudp.live i (List.mem_singleton_self i))
    (some netif0.ipAddr) (3307 + s.times).toUInt16
  exact ⟨u, by simp only [call, hmain, hu], hlisted, tUdpBind_pool hu, hpcb⟩

theorem Inv.udpConnect_eq (h : Inv n s) {i : UdpPcbId} (hmain : s.main = .udpConnect i) : ∃ u,
    s.call indet = ({ s.setHost { s.host with udp := u } with main := .setUdpRecv i }, []) ∧
      u.Listed [i] ∧ u.udpPcbPool = s.host.udp.udpPcbPool ∧
      u.pcb = Function.update s.host.udp.pcb i
        (connectedPcb (if (s.host.udp.pcb i).localPort = 0 then
          Udp.boundPcb s.host.udp i (some (s.host.udp.pcb i).localIp) 0 else s.host.udp.pcb i)
        (some testHost) testPort) := by
  have hudp := h.udp
  rw [hmain] at hudp
  obtain ⟨u, hu, hlisted, hpcb⟩ := hudp.listed.connect (hudp.live i (List.mem_singleton_self i))
    (some testHost) testPort
  rw [MainAt.bound, List.insert_of_mem (List.mem_singleton_self i)] at hlisted
  exact ⟨u, by simp only [call, hmain, hu], hlisted, tUdpConnect_pool hu, hpcb⟩

theorem call_setUdpRecv_eq {i : UdpPcbId} (hmain : s.main = .setUdpRecv i) : s.call indet =
    ({ s.setHost { s.host with udp := tSetUdpRecv s.host.udp i (some udpRecvData) 0 } with
      main := .pbufAlloc i }, []) := by
  simp only [call, hmain]

/-- `memcpy` gets a packet. -/
theorem Inv.pbufAlloc_eq (h : Inv n s) {i : UdpPcbId} (hmain : s.main = .pbufAlloc i)
    (hback : s.tcpip.mbox.length ≤ backlog) : ∃ q pool p, s.host.pbufPool = q :: pool ∧
      s.call indet = ({ s.setHost (s.host.setPbufPool pool) with main := .udpSend i p }, []) ∧
      p.ref = 1 ∧ p.payload = 42 ∧ p.totLen = 10 ∧ p.bytes = testData := by
  obtain ⟨q, pool, hpool⟩ :=
    List.exists_cons_of_ne_nil (h.pbufPool_ne_nil (by rw [hmain]; rfl) hback)
  have halloc := tPbufAlloc_pool s.host.pbufPool 42 10 (by decide)
  rw [hpool] at halloc
  refine ⟨q, pool, ({ q with ref := 1, payload := 42, totLen := 10, len := 10 } : Pbuf).memcpy 42
    (frameMem testData) 10, hpool, ?_, rfl, rfl, rfl, ?_⟩
  · simp only [call, hmain, hpool, halloc]
    rfl
  · rw [Pbuf.bytes, Pbuf.memcpy_mem]
    exact (ByteMem.slice_copy_self _ _ 42 10).trans (ByteMem.slice_ofList testData _)

theorem Inv.udpSend_eq (h : Inv n s) {i : UdpPcbId} {p : Pbuf} (hmain : s.main = .udpSend i p) :
    s.call indet = ({ s.setHost (s.host.setPbufPool
        (tUdpSend s.host.tcp.net s.host.pbufPool (s.host.udp.pcb i) p).2.1) with
          main := .udpRemove i },
      (tUdpSend s.host.tcp.net s.host.pbufPool (s.host.udp.pcb i) p).2.2) := by
  have hsound := tUdpSend_sound h.total s.host.pbufPool (s.host.udp.pcb i) p
  simp only [call, hmain]
  rw [hsound.unlessNull]

theorem Inv.udpRemove_eq (h : Inv n s) {i : UdpPcbId} (hmain : s.main = .udpRemove i) : ∃ u,
    s.call indet = ({ s.setHost { s.host with udp := u } with main := .getchar }, []) ∧
      u.Listed [] ∧ u.udpPcbPool = i :: s.host.udp.udpPcbPool := by
  have hudp := h.udp
  rw [hmain] at hudp
  obtain ⟨u, hu, hlisted⟩ := hudp.listed.remove (hudp.live i (List.mem_singleton_self i))
  rw [MainAt.bound, List.erase_cons_head] at hlisted
  refine ⟨u, by simp only [call, hmain, hu], hlisted, ?_⟩
  unfold tUdpRemove at hu
  split at hu
  · rw [← Option.some.inj hu]
  · obtain ⟨next, -, hu⟩ := Option.bind_eq_some_iff.mp hu
    rw [← Option.some.inj hu]

theorem Inv.tcpConnect_eq (h : Inv n s) {i : TcpPcbId} (hmain : s.main = .tcpConnect (some i)) :
    s.call indet = ({ s.setHost { s.host with
        tcp := (tTcpConnect s.host.tcp indet i testHost testPort (some tcpConnected)).2 } with
          main := .keepalive i true },
      (tTcpConnect s.host.tcp indet i testHost testPort (some tcpConnected)).1.evs) := by
  have hsound := tTcpConnect_sound h.total indet i testHost testPort (some tcpConnected)
  simp only [call, hmain]
  generalize tTcpConnect s.host.tcp indet i testHost testPort (some tcpConnected) = r at *
  rw [hsound.unlessNull]

theorem Inv.keepalive_eq (h : Inv n s) {i : TcpPcbId} {again : Bool}
    (hmain : s.main = .keepalive i again) : s.call indet = ({ s.setHost { s.host with tcp :=
        { s.host.tcp with
          pools := (tcpKeepalive s.host.tcp.net s.host.tcp.pools (s.host.tcp.pcb i)).1 } } with
            main := if again then .keepalive i false else .getchar },
      (tcpKeepalive s.host.tcp.net s.host.tcp.pools (s.host.tcp.pcb i)).2) := by
  have hsound := tcpKeepalive_sound h.total s.host.tcp.pools (s.host.tcp.pcb i)
  simp only [call, hmain]
  generalize tcpKeepalive s.host.tcp.net s.host.tcp.pools (s.host.tcp.pcb i) = r at *
  rw [hsound.unlessNull]

/-! What they keep. -/

theorem Inv.call_udpBind (h : Inv n s) {i : UdpPcbId} (hmain : s.main = .udpBind i) :
    Inv n (s.call indet).1 := by
  have hudp := h.udp
  rw [hmain] at hudp
  obtain ⟨u, hcall, hlisted, hpool, -⟩ := h.udpBind_eq indet hmain
  rw [hcall]
  refine h.udpCall (by simp [Plain, hmain]) (by simp [Plain]) (by rw [hmain]; rfl)
    ⟨hlisted, fun j hj => ?_, ?_⟩
  · rw [Udp.Live, hpool]
    exact hudp.live j hj
  · rw [hpool]
    exact hudp.pool

theorem Inv.call_udpConnect (h : Inv n s) {i : UdpPcbId} (hmain : s.main = .udpConnect i) :
    Inv n (s.call indet).1 := by
  have hudp := h.udp
  rw [hmain] at hudp
  obtain ⟨u, hcall, hlisted, hpool, -⟩ := h.udpConnect_eq indet hmain
  rw [hcall]
  refine h.udpCall (by simp [Plain, hmain]) (by simp [Plain]) (by rw [hmain]; rfl)
    ⟨hlisted, fun j hj => ?_, ?_⟩
  · rw [Udp.Live, hpool]
    exact hudp.live j hj
  · rw [hpool]
    exact hudp.pool

theorem Inv.call_setUdpRecv (h : Inv n s) {i : UdpPcbId} (hmain : s.main = .setUdpRecv i) :
    Inv n (s.call indet).1 := by
  have hudp := h.udp
  rw [hmain] at hudp
  rw [call_setUdpRecv_eq indet hmain]
  exact h.udpCall (by simp [Plain, hmain]) (by simp [Plain]) (by rw [hmain]; rfl)
    ⟨hudp.listed.setPcb (.inr rfl), hudp.live, hudp.pool⟩

theorem Inv.call_udpRemove (h : Inv n s) {i : UdpPcbId} (hmain : s.main = .udpRemove i) :
    Inv n (s.call indet).1 := by
  have hudp := h.udp
  rw [hmain] at hudp
  obtain ⟨u, hcall, hlisted, hpool⟩ := h.udpRemove_eq indet hmain
  rw [hcall]
  refine h.udpCall (by simp [Plain, hmain]) (by simp [Plain]) (by rw [hmain]; rfl)
    ⟨hlisted, fun j hj => absurd hj List.not_mem_nil, ?_⟩
  rw [hpool]
  exact hudp.pool

theorem Inv.call_pbufAlloc (h : Inv n s) {i : UdpPcbId} (hmain : s.main = .pbufAlloc i)
    (hback : s.tcpip.mbox.length ≤ backlog) : Inv n (s.call indet).1 := by
  obtain ⟨q, pool, p, hpool, hcall, href, hpay, -⟩ := h.pbufAlloc_eq indet hmain hback
  have hbufs := h.bufs.pbufs
  have hudp := h.udp
  rw [hmain] at hbufs hudp
  rw [hpool] at hbufs
  rw [hcall]
  refine .of_plain (h.le_of_plain (by simp [Plain, hmain])) (by simp [Plain]) (hudp.congr rfl rfl)
    ((h.tcp.leave fun j hj => by cases hj).setPools _) ?_
  exact {
    mbox := h.bufs.mbox
    queued := h.bufs.queued
    packet := fun p' hp => by
      obtain rfl := List.mem_singleton.mp hp
      exact ⟨href, hpay⟩
    pbufs := by
      show pool.length + (s.tcpip.mbox.length + s.host.tcp.queuedPbufs.length + 1 +
        s.task.lost) = _
      simp only [MainAt.packet, List.length_nil, List.length_cons] at hbufs
      omega
    segs := h.bufs.segs }

theorem Inv.call_udpSend (h : Inv n s) {i : UdpPcbId} {p : Pbuf} (hmain : s.main = .udpSend i p) :
    Inv n (s.call indet).1 := by
  have hpacket := h.bufs.packet
  have hbufs := h.bufs.pbufs
  have hudp := h.udp
  rw [hmain] at hpacket hbufs hudp
  obtain ⟨href, hpay⟩ := hpacket p (List.mem_singleton_self p)
  have hlen := tUdpSend_length h.total s.host.pbufPool (s.host.udp.pcb i) href hpay
  rw [h.udpSend_eq indet hmain]
  refine .of_plain (h.le_of_plain (by simp [Plain, hmain])) (by simp [Plain]) (hudp.congr rfl rfl)
    ((h.tcp.leave fun j hj => by cases hj).setPools _) ?_
  exact {
    mbox := h.bufs.mbox
    queued := h.bufs.queued
    packet := fun p hp => absurd hp List.not_mem_nil
    pbufs := by
      show (tUdpSend s.host.tcp.net s.host.pbufPool (s.host.udp.pcb i) p).2.1.length +
        (s.tcpip.mbox.length + s.host.tcp.queuedPbufs.length + 0 + s.task.lost) = _
      rw [hlen]
      simp only [MainAt.packet, List.length_singleton] at hbufs
      omega
    segs := h.bufs.segs }

/-- `t_tcp_connect` finds room for the SYN. -/
theorem Inv.call_tcpConnect (h : Inv n s) {i : TcpPcbId} (hmain : s.main = .tcpConnect (some i))
    (hback : s.tcpip.mbox.length ≤ backlog) : Inv n (s.call indet).1 := by
  have hn : ¬ tMempNumTcpPcb < n := fun hn => by
    have hcrash := h.crashes.mpr hn
    rw [hmain] at hcrash
    simp at hcrash
  have hudp := h.udp
  have hbufs := h.bufs.pbufs
  rw [hmain] at hudp hbufs
  have hidle := h.tcp.idle i (.inr hmain)
  have hpbuf : s.host.tcp.pools.pbufPool ≠ [] := h.pbufPool_ne_nil (by rw [hmain]; rfl) hback
  have hquiet := h.tcp.quiet.connect indet testHost testPort (some tcpConnected) hidle
    h.segPool_ne_nil hpbuf
  have hbal := TcpHost.connect_balanced h.bufs.queued indet i testHost testPort (some tcpConnected)
  have hnet := s.host.tcp.exec_net (.connect i testHost testPort (some tcpConnected) indet)
  have hpool := s.host.tcp.exec_tcpPcbPool (.connect i testHost testPort (some tcpConnected) indet)
  have hother : ∀ j, j ≠ i → (tTcpConnect s.host.tcp indet i testHost testPort
      (some tcpConnected)).2.pcb j = s.host.tcp.pcb j := fun j hj =>
    tTcpConnect_pcb_of_ne _ indet testHost testPort (some tcpConnected) hj
  rw [TcpHost.exec] at hnet hpool
  rw [h.tcpConnect_eq indet hmain]
  generalize tTcpConnect s.host.tcp indet i testHost testPort (some tcpConnected) = r at *
  obtain ⟨out, t⟩ := r
  simp only at hquiet hbal hnet hpool hother ⊢
  refine .of_plain hn (by simp [Plain]) (hudp.congr rfl rfl) ?_ ?_
  · refine ⟨hnet.trans h.tcp.net, hquiet, ?_, ?_, fun j hj => ?_, fun j hj => by cases hj⟩
    · exact (congrArg List.Nodup hpool).mpr h.tcp.nodup
    · exact (congrArg List.length hpool).trans h.tcp.pool
    · have hfree : j ∈ s.host.tcp.tcpPcbPool :=
        hpool ▸ hj.resolve_right fun hj => by cases hj
      show (t.pcb j).Idle
      rw [hother j fun hji => h.tcp.live i hmain (hji ▸ hfree)]
      exact h.tcp.idle j (.inl hfree)
  · exact {
      mbox := h.bufs.mbox
      queued := hbal.inUse
      packet := fun p hp => absurd hp List.not_mem_nil
      pbufs := by
        have hlen := hbal.pbufs
        simp only [Host.pbufPool, MainAt.packet, List.length_nil] at hbufs
        show t.pools.pbufPool.length +
          (s.tcpip.mbox.length + t.queuedPbufs.length + 0 + s.task.lost) = _
        omega
      segs := hbal.segs.trans h.bufs.segs }

theorem Inv.call_keepalive (h : Inv n s) {i : TcpPcbId} {again : Bool}
    (hmain : s.main = .keepalive i again) : Inv n (s.call indet).1 := by
  have hudp := h.udp
  have hbufs := h.bufs.pbufs
  rw [hmain] at hudp hbufs
  obtain ⟨hpbufs, hsegs⟩ := tcpKeepalive_counts s.host.tcp.net s.host.tcp.pools (s.host.tcp.pcb i)
  rw [h.keepalive_eq indet hmain]
  generalize tcpKeepalive s.host.tcp.net s.host.tcp.pools (s.host.tcp.pcb i) = r at *
  obtain ⟨pools, evs⟩ := r
  simp only at hpbufs hsegs ⊢
  have hnext : ∀ next, Plain next → next.bound = [] → next.taken = [] → next.packet = [] →
      Inv n { s.setHost { s.host with tcp := { s.host.tcp with pools } } with main := next } := by
    intro next hplain hbound htaken hpacket
    refine .of_plain (h.le_of_plain (by simp [Plain, hmain])) hplain (hudp.congr hbound htaken)
      ((h.tcp.leave fun j => hplain.2.2 (some j)).setPools _) ?_
    exact {
      mbox := h.bufs.mbox
      queued := h.bufs.queued
      packet := fun p hp => absurd (hpacket ▸ hp) List.not_mem_nil
      pbufs := by
        show pools.pbufPool.length + (s.tcpip.mbox.length + s.host.tcp.queuedPbufs.length +
          next.packet.length + s.task.lost) = _
        rw [hpbufs, hpacket]
        exact hbufs
      segs := by
        show pools.segPool.length + s.host.tcp.queuedPbufs.length = _
        rw [hsegs]
        exact h.bufs.segs }
  cases again with
  | true => exact hnext _ (by simp [Plain]) rfl rfl rfl
  | false => exact hnext _ (by simp [Plain]) rfl rfl rfl

/-- `main` makes its next call. -/
theorem Inv.call (h : Inv n s) (hback : s.tcpip.mbox.length ≤ backlog) :
    Inv n (s.call indet).1 := by
  cases hmain : s.main with
  | udpBind i => exact h.call_udpBind indet hmain
  | udpConnect i => exact h.call_udpConnect indet hmain
  | setUdpRecv i => exact h.call_setUdpRecv indet hmain
  | pbufAlloc i => exact h.call_pbufAlloc indet hmain hback
  | udpSend i p => exact h.call_udpSend indet hmain
  | udpRemove i => exact h.call_udpRemove indet hmain
  | tcpConnect i =>
      cases i with
      | none =>
          have hcrash := h.crashes.mp (.inr hmain)
          have hudp := h.udp
          rw [hmain] at hudp
          simp only [SMain.call, hmain]
          exact ⟨hudp.congr rfl rfl, h.tcp.leave (fun j hj => by cases hj),
            h.bufs.congr rfl rfl (by rw [hmain]; rfl) rfl, by simp, iff_of_true (.inl rfl) hcrash⟩
      | some i => exact h.call_tcpConnect indet hmain hback
  | keepalive i again => exact h.call_keepalive indet hmain
  | getchar | exited | hung | crashed =>
      simp only [SMain.call, hmain]
      exact h

end

/-! ## frames -/

/-- The driver takes a frame in. -/
theorem Inv.recv (h : Inv n s) (frame : List UInt8) :
    Inv n (s.step (.recv frame true)) := by
  have hbufs := h.bufs.pbufs
  obtain ⟨-, heq⟩ | ⟨-, q, p, pool, hpool, -, href, ⟨-, heq⟩ | ⟨id, msgPool, -, heq⟩⟩ :=
    Tcpip.ether0Recv_cases s.tcpip frame netif0 true
  · rw [step, exec, heq]
    exact h
  · rw [step, exec, heq, tPbufFree_single pool href]
    refine ⟨h.udp, h.tcp.setPools _, ?_, h.hung, h.crashes⟩
    exact {
      mbox := h.bufs.mbox
      queued := h.bufs.queued
      packet := h.bufs.packet
      pbufs := by
        rw [show s.host.pbufPool = q :: pool from hpool] at hbufs
        exact hbufs
      segs := h.bufs.segs }
  · rw [step, exec, heq]
    refine ⟨h.udp, h.tcp.setPools _, ?_, h.hung, h.crashes⟩
    exact {
      mbox := fun msg hmsg => by
        obtain hmsg | hmsg := List.mem_append.mp hmsg
        · exact h.bufs.mbox msg hmsg
        · obtain rfl := List.mem_singleton.mp hmsg
          exact ⟨p, netif0, rfl, href⟩
      queued := h.bufs.queued
      packet := h.bufs.packet
      pbufs := by
        rw [show s.host.pbufPool = q :: pool from hpool, List.length_cons] at hbufs
        show pool.length + ((s.tcpip.mbox ++ [(⟨id, .input p netif0⟩ : TcpipMsg)]).length +
          s.host.tcp.queuedPbufs.length + s.main.packet.length + s.task.lost) = _
        rw [List.length_append, List.length_singleton]
        omega
      segs := h.bufs.segs }

/-- The frame that the task fetches next. -/
def Fetches (s : SMain) (p : Pbuf) : Prop :=
  ∃ msg netif, s.tcpip.mbox.head? = some msg ∧ msg.body = .input p netif

/-- An iteration of the task with the packet `p` leaves this host, and ends so: as `t_raw_input`
does, or when the callback reads behind the pool. -/
def Handles (s : SMain) (indet : Nat → Option Netif) (mapped : Bool) (netif : Netif) (p : Pbuf)
    (host : Host) (fate : Fate) : Prop :=
  let r := tRawInput s.host indet 0 netif p
  (¬ (mapped = false ∧ r.2.2.2.any Event.Strays = true) ∧ host = r.2.2.1 ∧ fate = r.1) ∨
    (mapped = false ∧ r.2.2.2.any Event.Strays = true) ∧ host = s.host ∧ fate = .crashes

theorem Handles.udp {indet : Nat → Option Netif} {mapped : Bool} {netif : Netif} {p : Pbuf}
    {host : Host} {fate : Fate} (h : s.Handles indet mapped netif p host fate) :
    host.udp = s.host.udp := by
  obtain ⟨-, rfl, -⟩ | ⟨-, rfl, -⟩ := h
  · exact (tRawInput_passed s.host indet 0 netif p).udp
  · rfl

theorem exec_task_evs (s : SMain) (fetched : Bool) (indet : Nat → Option Netif) (mapped : Bool) :
    (s.exec (.task fetched indet mapped)).2 = taskEvents s.tcpip fetched indet := by
  simp only [exec]
  split <;> rfl

/-- What an iteration of the task can do: it finds no message, or it hands a packet to
`t_raw_input`. -/
theorem Inv.task_cases (h : Inv n s) (fetched : Bool) (indet : Nat → Option Netif)
    (mapped : Bool) :
    (s.step (.task fetched indet mapped) = { s with task := .returns 0 } ∧
        taskEvents s.tcpip fetched indet = [] ∧ (fetched → ∀ p, ¬ s.Fetches p)) ∨
      fetched = true ∧ ∃ p netif msg mbox host msgPool fate, s.tcpip.mbox = msg :: mbox ∧
        msg.body = .input p netif ∧ p.ref = 1 ∧
        taskEvents s.tcpip fetched indet = (tRawInput s.host indet 0 netif p).2.2.2 ∧
        s.Handles indet mapped netif p host fate ∧
        s.step (.task fetched indet mapped) = { s with
          tcpip := ⟨host, msgPool, mbox⟩
          task := fate } := by
  have hnone : taskEvents s.tcpip fetched indet = [] → tTcpipTask s.tcpip fetched indet 0 =
      (.returns 0, s.tcpip) → s.step (.task fetched indet mapped) = { s with task := .returns 0 } := by
    intro hevs htask
    simp only [step, exec, hevs, htask, List.any_nil, Bool.and_false, Bool.false_eq_true, if_false]
    rfl
  cases hmbox : s.tcpip.mbox with
  | nil =>
      have hevs : taskEvents s.tcpip fetched indet = [] := by simp only [taskEvents, hmbox]
      refine .inl ⟨hnone hevs (by simp only [tTcpipTask, hmbox]), hevs, fun _ p hp => ?_⟩
      obtain ⟨msg, netif, hmsg, -⟩ := hp
      rw [hmbox] at hmsg
      cases hmsg
  | cons msg mbox =>
  obtain ⟨p, netif, hbody, href⟩ := h.bufs.mbox msg (hmbox ▸ List.mem_cons_self)
  obtain ⟨id, body⟩ := msg
  obtain rfl : body = .input p netif := hbody
  cases fetched with
  | false =>
      have hevs : taskEvents s.tcpip false indet = [] := by simp [taskEvents, hmbox]
      exact .inl ⟨hnone hevs (by simp [tTcpipTask, hmbox]), hevs, fun hf => by cases hf⟩
  | true =>
      have hevs : taskEvents s.tcpip true indet = (tRawInput s.host indet 0 netif p).2.2.2 := by
        simp only [taskEvents, hmbox]
        rfl
      have hsound := tRawInput_sound h.total indet 0 netif p fun i _ t _ _ =>
        (h.tcp.quiet i).not_nullUnacked t
      by_cases hstray : mapped = false ∧
          (tRawInput s.host indet 0 netif p).2.2.2.any Event.Strays = true
      · refine .inr ⟨rfl, p, netif, _, mbox, s.host, s.tcpip.msgPool, .crashes, rfl, rfl, href, hevs,
          .inr ⟨hstray, rfl, rfl⟩, ?_⟩
        simp only [step, exec, hevs, hstray.1, hstray.2, Bool.not_false, Bool.and_self, if_true,
          hmbox, List.tail_cons]
        rfl
      · have hstep : ∃ msgPool, s.step (.task true indet mapped) = { s with
            tcpip := ⟨(tRawInput s.host indet 0 netif p).2.2.1, msgPool, mbox⟩
            task := (tRawInput s.host indet 0 netif p).1 } := by
          have hcond : ¬ (!mapped && (tRawInput s.host indet 0 netif p).2.2.2.any Event.Strays) =
              true := by simpa using hstray
          simp only [step, exec, hevs, if_neg hcond, hsound.unlessNull]
          simp only [tTcpipTask, tcpipDispatch, hmbox, if_true, host]
          generalize tRawInput s.tcpip.host indet 0 netif p = r
          obtain ⟨fate, q, h', evs⟩ := r
          cases fate with
          | returns ret => exact ⟨_, rfl⟩
          | hangs => exact ⟨_, rfl⟩
          | crashes => exact ⟨_, rfl⟩
        obtain ⟨msgPool, hstep⟩ := hstep
        exact .inr ⟨rfl, p, netif, _, mbox, _, msgPool, _, rfl, rfl, href, hevs,
          .inl ⟨hstray, rfl, rfl⟩, hstep⟩

/-- The task has lost nothing before. -/
theorem Inv.task_step (h : Inv n s) (fetched : Bool) (indet : Nat → Option Netif) (mapped : Bool)
    (hhang : s.task ≠ .hangs) (hcrash : s.task ≠ .crashes) :
    Inv n (s.step (.task fetched indet mapped)) := by
  have hbufs := h.bufs.pbufs
  have hzero : s.task.lost = 0 := by
    cases htask : s.task with
    | returns ret => rfl
    | hangs => exact absurd htask hhang
    | crashes => exact absurd htask hcrash
  rw [hzero] at hbufs
  obtain ⟨hstep, -⟩ | ⟨rfl, p, netif, msg, mbox, host, msgPool, fate, hmbox, -, href, -, hhandles,
      hstep⟩ := h.task_cases fetched indet mapped
  · rw [hstep]
    exact ⟨h.udp, h.tcp, ⟨h.bufs.mbox, h.bufs.queued, h.bufs.packet, hbufs, h.bufs.segs⟩, h.hung,
      h.crashes⟩
  have hmbox' : ∀ msg ∈ mbox, ∃ p netif, msg.body = .input p netif ∧ p.ref = 1 := fun msg hmsg =>
    h.bufs.mbox msg (hmbox ▸ List.mem_cons_of_mem _ hmsg)
  rw [hmbox, List.length_cons] at hbufs
  rw [hstep]
  obtain ⟨-, rfl, rfl⟩ | ⟨-, rfl, rfl⟩ := hhandles
  · have hpassed := tRawInput_passed s.host indet 0 netif p
    obtain ⟨hin, hpbufs, hsegs⟩ := tRawInput_counts s.host indet 0 netif href h.bufs.queued
    generalize tRawInput s.host indet 0 netif p = r at *
    obtain ⟨fate, q, h', evs⟩ := r
    simp only at hpassed hin hpbufs hsegs ⊢
    refine ⟨?_, ?_, ?_, h.hung, h.crashes⟩
    · show UdpTest s.main h'.udp
      rw [hpassed.udp]
      exact h.udp
    · refine ⟨hpassed.net.trans h.tcp.net, hpassed.quiet h.tcp.quiet, ?_, ?_, fun i hi => ?_,
        fun i hi => ?_⟩
      · exact (congrArg List.Nodup hpassed.tcpPcbPool).mpr h.tcp.nodup
      · exact (congrArg List.length hpassed.tcpPcbPool).trans h.tcp.pool
      · exact hpassed.idle i (h.tcp.idle i (hi.imp_left fun hi => hpassed.tcpPcbPool ▸ hi))
      · show i ∉ h'.tcp.tcpPcbPool
        rw [hpassed.tcpPcbPool]
        exact h.tcp.live i hi
    · exact {
        mbox := hmbox'
        queued := hin
        packet := h.bufs.packet
        pbufs := by
          show h'.pbufPool.length + (mbox.length + h'.tcp.queuedPbufs.length +
            s.main.packet.length + fate.lost) = _
          omega
        segs := hsegs.trans h.bufs.segs }
  · refine ⟨h.udp, h.tcp, ?_, h.hung, h.crashes⟩
    exact {
      mbox := hmbox'
      queued := h.bufs.queued
      packet := h.bufs.packet
      pbufs := by
        show s.host.pbufPool.length + (mbox.length + s.host.tcp.queuedPbufs.length +
          s.main.packet.length + 1) = _
        omega
      segs := h.bufs.segs }

end SMain

/-! ## runs -/

/-- A post finds a place in the mailbox. -/
def SMainOp.Posted : SMainOp → Prop
  | .recv _ posted => posted = true
  | _ => True

instance : (op : SMainOp) → Decidable op.Posted
  | .recv _ _ => inferInstanceAs (Decidable (_ = _))
  | .key _ | .call _ | .task _ _ _ => isTrue trivial

/-- The key of a TCP test. -/
def SMainOp.isTcpTest : SMainOp → Bool
  | .key c => c == 0x32
  | _ => false

namespace SMain

variable {n : Nat} {s : SMain}

/-- The thread of the step gets to make it, the mailbox has a place for what is posted, and there is
at most a backlog of frames in it. -/
structure Legal (s : SMain) (op : SMainOp) : Prop where
  enabled : s.Enabled op
  posted : op.Posted
  waiting : s.tcpip.mbox.length ≤ backlog

instance (s : SMain) (op : SMainOp) : Decidable (s.Legal op) :=
  decidable_of_iff (s.Enabled op ∧ op.Posted ∧ s.tcpip.mbox.length ≤ backlog)
    ⟨fun h => ⟨h.1, h.2.1, h.2.2⟩, fun h => ⟨h.enabled, h.posted, h.waiting⟩⟩

/-- One step. -/
theorem Inv.step (h : Inv n s) {op : SMainOp} (hop : s.Legal op) :
    Inv (n + if op.isTcpTest then 1 else 0) (s.step op) := by
  cases op with
  | key c =>
      have hmain : s.main = .getchar := MainAt.eq_of_atKey hop.enabled.2
      by_cases htcp : c = 0x32
      · subst htcp
        exact h.tcpTest hmain
      have hkey : (SMainOp.key c).isTcpTest = false := by simpa [SMainOp.isTcpTest] using htcp
      rw [hkey]
      show Inv n (s.key c)
      by_cases hudp : c = 0x31
      · subst hudp
        exact h.udpTest hmain
      by_cases hexit : c = 32
      · rw [SMain.key, if_pos hexit]
        refine .of_plain (h.le_of_plain (by simp [Plain, hmain])) (by simp [Plain])
          (h.udp.congr (by rw [hmain]; rfl) (by rw [hmain]; rfl))
          (h.tcp.leave fun j hj => by cases hj) (h.bufs.congr rfl rfl (by rw [hmain]; rfl) rfl)
      · rw [SMain.key, if_neg hexit, if_neg hudp, if_neg htcp]
        exact h
  | call indet => exact h.call indet hop.waiting
  | recv frame posted =>
      have hposted : posted = true := hop.posted
      subst hposted
      exact h.recv frame
  | task fetched indet mapped =>
      exact h.task_step fetched indet mapped hop.enabled.2 fun hc => hop.enabled.1 (.inr hc)

/-- A run. -/
theorem Inv.final (h : Inv n s) {ops : List SMainOp} (hl : Run.Along SMain.step Legal s ops) :
    Inv (n + ops.countP SMainOp.isTcpTest) (Run.final SMain.step s ops) := by
  induction ops generalizing n s with
  | nil => exact h
  | cons op ops ih =>
      have hrest := ih (h.step hl.1) hl.2
      rw [List.countP_cons, Nat.add_comm (ops.countP _), ← Nat.add_assoc]
      exact hrest

/-- What every step of the program keeps, a run keeps. -/
theorem Inv.final_of_step {P : SMain → Prop}
    (hstep : ∀ {n s}, Inv n s → P s → ∀ {op}, s.Legal op → P (s.step op)) (h : Inv n s) (hs : P s)
    {ops : List SMainOp} (hl : Run.Along SMain.step Legal s ops) : P (Run.final SMain.step s ops) := by
  induction ops generalizing n s with
  | nil => exact hs
  | cons op ops ih => exact ih (h.step hl.1) (hstep h hs hl.1) hl.2

theorem inv_start (mem : PbufId → ByteMem) : Inv 0 (start mem) := by
  have hidle : TcpPcb.zero.Idle := ⟨by simp [TcpPcb.zero], rfl, rfl, rfl⟩
  have hqueued : (start mem).host.tcp.queuedPbufs = [] :=
    List.flatMap_eq_nil_iff.mpr fun _ _ => rfl
  refine .of_plain (by simp) (by simp [Plain, start]) ?_ ?_ ?_
  · exact ⟨Udp.initial_boot.listed, fun i hi => absurd hi List.not_mem_nil, rfl⟩
  · exact ⟨rfl, fun _ => .inl hidle, List.nodup_finRange _, List.length_finRange, fun _ _ => hidle,
      fun i hi => by cases hi⟩
  · exact {
      mbox := fun msg hmsg => absurd hmsg List.not_mem_nil
      queued := hqueued ▸ inUse_nil
      packet := fun p hp => absurd hp List.not_mem_nil
      pbufs := by
        rw [hqueued]
        show (tPbufInit mem).length + 0 = _
        rw [tPbufInit, List.length_map, List.length_finRange]
      segs := by
        rw [hqueued]
        exact List.length_finRange }

end SMain

end TTcp
