import TTcp.SMain.Hears

/-!
# TTcp.SMain.Sends

What does the program of `user/s_main.c` send in its UDP tests?

Each test sends "1234567890" once, from a port of its own.  `main` makes no other frame outside its
TCP tests (`testFrames_spec`).
-/

namespace TTcp

/-- The frame of the test that `times` counts, from the interface to the host that is tested.  The
port is `3307 + times`, unless that is 0. -/
structure TestDatagram (times : UInt32) (frame : List UInt8) : Prop where
  length : frame.length = 52
  type : (frameMem frame).get16 12 = htons tIpv4FrameType
  hl : (tIphHl (frameMem frame) 14).toNat = 5
  proto : tIphProto (frameMem frame) 14 = tIpProtoUdp.toUInt16
  src : (frameMem frame).get32 26 = netif0.ipAddr
  dst : (frameMem frame).get32 30 = testHost
  srcPort : (3307 + times).toUInt16 ≠ 0 →
    (frameMem frame).get16 34 = htons (3307 + times).toUInt16
  dstPort : (frameMem frame).get16 36 = htons testPort
  udpLen : (frameMem frame).get16 38 = htons 18
  data : frame.drop 42 = testData

namespace MainAt

/-- The test that `main` has begun and not sent the datagram of. -/
def pending : MainAt → UInt32
  | udpBind _ | udpConnect _ | setUdpRecv _ | pbufAlloc _ | udpSend _ _ => 1
  | _ => 0

/-- `main` is in a TCP test. -/
def inTcpTest : MainAt → Bool
  | tcpConnect _ | keepalive _ _ => true
  | _ => false

end MainAt

/-- A step of `t_tcpip_task`. -/
def SMainOp.isTask : SMainOp → Bool
  | .task _ _ _ => true
  | _ => false

namespace SMain

/-- What a step sends that is neither the task's nor in a TCP test. -/
def sends (s : SMain) (op : SMainOp) : List (Netif × List UInt8) :=
  if op.isTask ∨ s.main.inTcpTest then [] else frames (s.exec op).2

/-- What the UDP tests of a run send. -/
def testFrames (s : SMain) (ops : List SMainOp) : List (Netif × List UInt8) :=
  (Run.history (fun s op => (s.sends op, s.step op)) s ops).flatMap Prod.snd

/-- The UDP tests that have sent their datagram. -/
def tests (s : SMain) : UInt32 := s.times - s.main.pending

variable {n : Nat} {s : SMain}

/-! ## one datagram -/

/-- The packet of a test goes out with the headers of its control block. -/
theorem Hearing.testDatagram (h : s.Hearing) {i : UdpPcbId} {p : Pbuf}
    (hmain : s.main = .udpSend i p) : TestDatagram s.times
      (ipFrame (udpPacket (s.host.udp.pcb i) p) netif0 netif0.ipAddr
        (.val (s.host.udp.pcb i).remoteIp) (s.host.udp.pcb i).ttl (s.host.udp.pcb i).tos
        tIpProtoUdp).bytes := by
  have htest := h.test
  have hpacket := h.packet
  rw [hmain] at htest hpacket
  obtain ⟨hpay, htot, hbytes⟩ := hpacket p (List.mem_singleton_self p)
  have hmem := List.mem_singleton_self i
  obtain ⟨-, hremoteIp, hremotePort⟩ := htest.connected i hmem (by simp)
  have htot' : p.totLen.toNat = 10 := by rw [htot]; rfl
  have hroom : UdpRoom p := ⟨hpay.ge, by omega⟩
  have hfields := udpFrame_fields hroom (by omega) (s.host.udp.pcb i) netif0
  generalize ipFrame (udpPacket (s.host.udp.pcb i) p) netif0 netif0.ipAddr
    (.val (s.host.udp.pcb i).remoteIp) (s.host.udp.pcb i).ttl (s.host.udp.pcb i).tos
    tIpProtoUdp = f at hfields ⊢
  obtain ⟨hlen, heth, hvhl, hproto, hsrc, hdst, hsport, hdport, hudplen, hdata⟩ := hfields
  rw [htot'] at hlen hdata
  have h16 : ∀ k, k + 2 ≤ 52 → (frameMem f.bytes).get16 k = f.mem.get16 (f.payload + k) :=
    fun k hk => frameMem_get16 f (by omega)
  have h32 : ∀ k, k + 4 ≤ 52 → (frameMem f.bytes).get32 k = f.mem.get32 (f.payload + k) :=
    fun k hk => frameMem_get32 f (by omega)
  exact {
    length := by rw [f.length_bytes, hlen]
    type := by rw [h16 _ (by omega), heth]; rfl
    hl := by rw [tIphHl, h16 _ (by omega), hvhl, htons_htons, vhltos_hl]
    proto := by rw [tIphProto, h16 _ (by omega), hproto, htons_htons, ttlProto_proto]
    src := by rw [h32 _ (by omega), hsrc]
    dst := by rw [h32 _ (by omega), hdst, hremoteIp]
    srcPort := fun hport => by rw [h16 _ (by omega), hsport, htest.localPort i hmem hport]
    dstPort := by rw [h16 _ (by omega), hdport, hremotePort]
    udpLen := by rw [h16 _ (by omega), hudplen, htot]; rfl
    data := by
      rw [Pbuf.bytes, show f.totLen.toNat = 42 + 10 from hlen, ByteMem.drop_slice, hdata, hbytes] }

/-! ## one step -/

/-- The step sends nothing, and as many tests as before have sent. -/
def Silent (s : SMain) (op : SMainOp) : Prop :=
  s.sends op = [] ∧ (s.step op).tests = s.tests

/-- The step sends the datagram of the test that `main` is in. -/
def SendsDatagram (s : SMain) (op : SMainOp) : Prop :=
  (∃ frame, s.sends op = [(netif0, frame)] ∧ TestDatagram s.times frame) ∧
    s.times = s.tests + 1 ∧ (s.step op).tests = s.times

theorem silent_of_exec {s' : SMain} {op : SMainOp} (hexec : s.exec op = (s', []))
    (htimes : s'.times = s.times) (hpending : s'.main.pending = s.main.pending) :
    s.Silent op := by
  refine ⟨?_, ?_⟩
  · unfold sends
    rw [hexec]
    split <;> rfl
  · rw [step, hexec, tests, tests, htimes, hpending]

/-- A key begins a test. -/
theorem Inv.silent_key (hi : Inv n s) (hmain : s.main = .getchar) (c : UInt8) :
    s.Silent (.key c) := by
  have hexec : s.exec (.key c) = (s.key c, []) := rfl
  by_cases hudp : c = 0x31
  · subst hudp
    obtain ⟨i, rest, -, -, hkey⟩ := hi.key_udp hmain
    refine ⟨?_, ?_⟩
    · unfold sends
      rw [hexec]
      split <;> rfl
    · show (s.key 0x31).times - (s.key 0x31).main.pending = s.times - s.main.pending
      rw [hkey, hmain]
      show s.times + 1 - 1 = s.times - 0
      rw [UInt32.add_sub_cancel, UInt32.sub_zero]
  have hkey : (s.key c).times = s.times ∧ (s.key c).main.pending = s.main.pending := by
    by_cases hexit : c = 32
    · rw [key, if_pos hexit, hmain]
      exact ⟨rfl, rfl⟩
    by_cases htcp : c = 0x32
    · rw [key, if_neg hexit, if_neg hudp, if_pos htcp, hmain]
      exact ⟨rfl, rfl⟩
    · rw [key, if_neg hexit, if_neg hudp, if_neg htcp]
      exact ⟨rfl, rfl⟩
  exact silent_of_exec hexec hkey.1 hkey.2

/-- `main` stays where it is while the task works. -/
theorem Inv.silent_task (hi : Inv n s) (fetched : Bool) (indet : Nat → Option Netif)
    (mapped : Bool) : s.Silent (.task fetched indet mapped) := by
  refine ⟨rfl, ?_⟩
  obtain ⟨hstep, -⟩ | ⟨-, p, netif, msg, mbox, host, msgPool, fate, -, -, -, -, -, hstep⟩ :=
    hi.task_cases fetched indet mapped
  · rw [hstep]
    rfl
  · rw [hstep]
    rfl

/-- A call of `main`. -/
theorem Hearing.sends_call (h : s.Hearing) (hi : Inv n s) {indet : Nat → Option Netif}
    (hop : s.Legal (.call indet)) : s.Silent (.call indet) ∨ s.SendsDatagram (.call indet) := by
  cases hmain : s.main with
  | udpBind i =>
      obtain ⟨u, hcall, -⟩ := hi.udpBind_eq indet hmain
      exact .inl (silent_of_exec hcall rfl (by rw [hmain]; rfl))
  | udpConnect i =>
      obtain ⟨u, hcall, -⟩ := hi.udpConnect_eq indet hmain
      exact .inl (silent_of_exec hcall rfl (by rw [hmain]; rfl))
  | setUdpRecv i =>
      exact .inl (silent_of_exec (call_setUdpRecv_eq indet hmain) rfl (by rw [hmain]; rfl))
  | pbufAlloc i =>
      obtain ⟨q, pool, p, -, hcall, -⟩ := hi.pbufAlloc_eq indet hmain hop.waiting
      exact .inl (silent_of_exec hcall rfl (by rw [hmain]; rfl))
  | udpSend i p =>
      have hpacket := h.packet
      rw [hmain] at hpacket
      obtain ⟨hpay, htot, -⟩ := hpacket p (List.mem_singleton_self p)
      have hin : p.payload + p.totLen.toNat ≤ 1514 := by
        rw [hpay, htot]
        decide
      have hframes := tUdpSend_frames ⟨hpay.ge, hin⟩ netif0 s.host.pbufPool (s.host.udp.pcb i)
      rw [if_pos (by omega), ← hi.tcp.net] at hframes
      have hexec : s.exec (.call indet) = _ := hi.udpSend_eq indet hmain
      refine .inr ⟨⟨_, ?_, h.testDatagram hmain⟩, ?_, ?_⟩
      · unfold sends
        rw [hexec, hmain]
        exact hframes
      · rw [tests, hmain]
        show s.times = s.times - 1 + 1
        rw [UInt32.sub_add_cancel]
      · rw [SMain.step, hexec]
        show s.times - 0 = s.times
        rw [UInt32.sub_zero]
  | udpRemove i =>
      obtain ⟨u, hcall, -⟩ := hi.udpRemove_eq indet hmain
      exact .inl (silent_of_exec hcall rfl (by rw [hmain]; rfl))
  | tcpConnect i =>
      refine .inl ⟨by simp [sends, hmain, MainAt.inTcpTest], ?_⟩
      cases i with
      | none => simp [SMain.step, exec, SMain.call, tests, hmain, MainAt.pending]
      | some i =>
          have hexec : s.exec (.call indet) = _ := hi.tcpConnect_eq indet hmain
          rw [SMain.step, hexec, tests, tests, hmain]
          rfl
  | keepalive i again =>
      refine .inl ⟨by simp [sends, hmain, MainAt.inTcpTest], ?_⟩
      have hexec : s.exec (.call indet) = _ := hi.keepalive_eq indet hmain
      rw [SMain.step, hexec, tests, tests, hmain]
      cases again <;> rfl
  | getchar | exited | hung | crashed =>
      have hexec : s.exec (.call indet) = (s, []) := by simp only [exec, SMain.call, hmain]
      exact .inl (silent_of_exec hexec rfl rfl)

/-- One step. -/
theorem Hearing.sends (h : s.Hearing) (hi : Inv n s) {op : SMainOp} (hop : s.Legal op) :
    s.Silent op ∨ s.SendsDatagram op := by
  cases op with
  | key c => exact .inl (hi.silent_key (MainAt.eq_of_atKey hop.enabled.2) c)
  | call indet => exact h.sends_call hi hop
  | recv frame posted => exact .inl (silent_of_exec rfl rfl rfl)
  | task fetched indet mapped => exact .inl (hi.silent_task fetched indet mapped)

/-! ## runs -/

/-- The frames are those of the tests so far, in their order. -/
structure Sent (s : SMain) (sent : List (Netif × List UInt8)) : Prop where
  count : UInt32.ofNat sent.length = s.tests
  each : ∀ k (hk : k < sent.length),
    sent[k].1 = netif0 ∧ TestDatagram (UInt32.ofNat (k + 1)) sent[k].2

theorem Sent.step {sent : List (Netif × List UInt8)} (hs : s.Sent sent) {op : SMainOp}
    (hop : s.Silent op ∨ s.SendsDatagram op) : (s.step op).Sent (sent ++ s.sends op) := by
  obtain ⟨hnone, htests⟩ | ⟨⟨frame, hframe, htest⟩, htimes, htests⟩ := hop
  · rw [hnone, List.append_nil]
    exact ⟨hs.count.trans htests.symm, hs.each⟩
  · have hcount : s.times = UInt32.ofNat (sent.length + 1) := by
      rw [htimes, ← hs.count, UInt32.ofNat_add]
      rfl
    rw [hframe]
    refine ⟨?_, fun k hk => ?_⟩
    · rw [htests, hcount, List.length_append, List.length_singleton]
    · rw [List.length_append, List.length_singleton] at hk
      by_cases hlast : k < sent.length
      · rw [List.getElem_append_left hlast]
        exact hs.each k hlast
      · obtain rfl : k = sent.length := by omega
        rw [List.getElem_concat_length rfl]
        exact ⟨rfl, hcount ▸ htest⟩

/-- **The UDP tests** of a run send one datagram each, in their order, and nothing else: the frames
that `main` sends outside its TCP tests are those of the tests that have come so far. -/
theorem testFrames_spec (mem : PbufId → ByteMem) {ops : List SMainOp}
    (hl : Run.Along SMain.step Legal (start mem) ops) :
    (Run.final SMain.step (start mem) ops).Sent (testFrames (start mem) ops) := by
  have hstart : (start mem).Sent [] :=
    ⟨(UInt32.sub_zero 0).symm, fun k hk => absurd hk (Nat.not_lt_zero k)⟩
  have hrun : ∃ n, Inv n (Run.final SMain.step (start mem) ops) ∧
      (Run.final SMain.step (start mem) ops).Hearing ∧
      (Run.final SMain.step (start mem) ops).Sent (testFrames (start mem) ops) := by
    refine Run.history_of_along (fun s op => (s.sends op, s.step op))
      (P := fun hist s => ∃ n, Inv n s ∧ s.Hearing ∧ s.Sent (hist.flatMap Prod.snd)) ?_ []
      ⟨0, inv_start mem, start_hearing mem, hstart⟩ hl
    rintro hist s op ⟨n, hi, h, hs⟩ hop
    refine ⟨_, hi.step hop, h.step hi hop, ?_⟩
    rw [List.flatMap_append, List.flatMap_singleton]
    exact hs.step (h.sends hi hop)
  obtain ⟨n, -, -, hsent⟩ := hrun
  exact hsent

theorem testFrames_oneUdpTest : (Run.final SMain.step (start fun _ _ => 0) (oneUdpTest 12)).Sent
    (testFrames (start fun _ _ => 0) (oneUdpTest 12)) :=
  testFrames_spec (fun _ _ => 0) (by decide +kernel)

end SMain

end TTcp
