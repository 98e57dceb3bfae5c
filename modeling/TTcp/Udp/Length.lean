import TTcp.Tcp.Frame
import TTcp.Udp.RoundTrip

/-!
# TTcp.Udp.Length

The lengths that a `recv` callback finds.

`t_udp_input` compares the length field of a datagram with what is left of the
packet, but not with the eight bytes of its own header; and the Ethernet header
is taken off frames that are shorter than it, which leaves almost 64 KiB.  In all
other cases the receiver may take the length field at its word
(`Udp.recv_lengths_iff`).
-/

namespace TTcp

/-- What a receiver of this packet relies on, if it came in as `frame` in `p`: the
length field covers the UDP header and no more than what is left, and that is the
frame less its Ethernet and IP headers. -/
structure RecvLengths (p : Pbuf) (frame : List UInt8) (r : Pbuf) : Prop where
  hlen_le : 8 ≤ (htons (r.mem.get16 (r.payload + 4))).toNat
  le_len : (htons (r.mem.get16 (r.payload + 4))).toNat ≤ r.len.toNat
  totLen : r.totLen = r.len
  len : (r.len.toNat : Int) = frame.length - 14 - 4 * (tIphHl p.mem 14).toNat

/-- What stands in the buffer is taken for a UDP datagram, to a connected control
block that has a callback.  All lengths are 16-bit numbers. -/
structure UdpForCallback (u : Udp) (p : Pbuf) : Prop where
  type : htons (p.mem.get16 12) = tIpv4FrameType
  version : tIphV p.mem 14 = 4
  proto : tIphProto p.mem 14 = tIpProtoUdp.toUInt16
  hlen : 8 + (tIphHl p.mem 14).toNat * 4 ≤ (p.totLen - 14).toNat
  len : (htons (p.mem.get16 (udpHdrAt p + 4))).toNat + (tIphHl p.mem 14).toNat * 4 ≤
    (p.totLen - 14).toNat
  recv : ∃ i, udpLookup u (ntohs (p.mem.get16 (udpHdrAt p + 2))) (p.mem.get32 30) = some (some i) ∧
    (u.pcb i).recv ≠ none

/-! ## only UDP calls back -/

/-- The packet that a `recv` callback is called with. -/
def Event.received? : Event → Option Pbuf
  | .udpRecv _ _ _ p _ _ => some p
  | _ => none

/-- The packets that `recv` callbacks are called with. -/
def received (evs : List Event) : List Pbuf := evs.filterMap Event.received?

theorem received_append (evs evs' : List Event) :
    received (evs ++ evs') = received evs ++ received evs' := List.filterMap_append

@[simp] theorem received_nil : received [] = [] := rfl

theorem received_tIpOutput (net : Net) (indet : Option Netif) (arg : NetifArg) (p : Pbuf)
    (src : Option UInt32) (dst : AddrPtr) (ttl tos proto : UInt8) :
    received (tIpOutput net indet arg p src dst ttl tos proto).2.2 = [] := by
  simp only [tIpOutput]
  repeat' split <;> try rfl

theorem received_tIcmpInput (net : Net) (netif : Netif) (p : Pbuf) :
    received (tIcmpInput net netif p).2.2 = [] := by
  unfold tIcmpInput
  simp only
  split
  · split
    · simp only [received_tIpOutput]
    · rfl
  · rfl

theorem received_tArpInput (table : ArpTable) (netif : Netif) (p : Pbuf) :
    received (tArpInput table netif p).2.2.2 = [] := by
  simp only [tArpInput]
  repeat' split <;> try rfl

section
variable (env : OutEnv) (pools : Pools) (pcb : TcpPcb)

theorem received_tTcpOutputSegment (indet : Option Netif) (seg : TcpSeg) :
    received (tTcpOutputSegment env indet seg pcb).2.2 = [] := by
  have hsend : ∀ netif seg pcb,
      received (tTcpOutputSegmentSend env indet netif seg pcb).2.2 = [] := by
    intro netif seg pcb
    obtain ⟨rttest, rtseq, h⟩ := tTcpOutputSegmentSend_eq env indet netif seg pcb
    rw [h]
    exact received_tIpOutput ..
  obtain ⟨-, h⟩ | ⟨n, -, h⟩ | ⟨-, h⟩ := tTcpOutputSegment_cases env indet seg pcb
  · rw [h]
    rfl
  · rw [h]
    exact hsend ..
  · rw [h]
    exact hsend ..

theorem received_tTcpOutputRound (indet : Option Netif) (seg : TcpSeg) :
    received (tTcpOutputRound env indet pools pcb seg).2.2 = [] := by
  obtain ⟨sndMax, h⟩ := @tTcpOutputRound_eq env pools indet pcb seg _ rfl
  rw [h]
  split
  · exact received_tTcpOutputSegment ..
  · exact received_tTcpOutputSegment ..

theorem received_tTcpOutputLoop (wnd : UInt32) (unsent : List TcpSeg) :
    received (tTcpOutputLoop env wnd pools pcb unsent).2.2 = [] := by
  induction unsent generalizing pools pcb with
  | nil => rfl
  | cons seg rest ih =>
      rw [tTcpOutputLoop]
      split
      · simp only [received_append, received_tTcpOutputRound, ih, List.append_nil]
      · rfl

theorem received_tTcpOutputAck : received (tTcpOutputAck env pools pcb).2.2.2 = [] := by
  unfold tTcpOutputAck
  cases tPbufAlloc pools.pbufPool tPbufIp (UInt16.ofNat tTcpHlen) tPbufFlagPool with
  | mk p pbufPool =>
      cases p with
      | none => rfl
      | some p => exact received_tIpOutput ..

theorem received_tTcpOutput : received (tTcpOutput env pools pcb).2.2.2 = [] := by
  obtain h | h := tTcpOutput_cases env pools pcb
  · rw [h]
    exact received_tTcpOutputAck ..
  · rw [h]
    exact received_tTcpOutputLoop ..

theorem received_tTcpReceive (cbRet : ErrT) (s : Incoming) :
    received (tTcpReceive env cbRet pools pcb s).2.2.2.2 = [] := by
  have hproc : received (tTcpProcess env cbRet pools pcb s).2.2.2.2 = [] :=
    List.filterMap_eq_nil_iff.mpr fun e he => by
      obtain rfl | ⟨fn, err, rfl⟩ := tTcpProcess_evs env cbRet pools pcb s e he <;> rfl
  unfold tTcpReceive
  generalize tTcpProcess env cbRet pools pcb s = r at hproc
  obtain ⟨fate, pools', pcb', p, evs⟩ := r
  cases fate with
  | returns err =>
      simp only
      split
      · simp only [received_append, received_tTcpOutput, List.append_nil]
        exact hproc
      · exact hproc
  | hangs => exact hproc
  | crashes => exact hproc

end

section
variable (h : Host) (indet : Nat → Option Netif) (cbRet : ErrT) (netif : Netif)

theorem received_tTcpInput (tcp : TcpHost) (p : Pbuf) :
    received (tTcpInput tcp indet cbRet p).1.evs = [] := by
  unfold tTcpInput
  generalize tTcpInputHeader p = e
  obtain ⟨p1, e⟩ := e
  cases e with
  | none => rfl
  | some r =>
      obtain ⟨s, k⟩ := r
      simp only
      cases demux tcp k with
      | none => rfl
      | some r =>
          cases r with
          | none => rfl
          | some r => exact received_tTcpReceive ..

/-- No handler but that of UDP calls a `recv` callback. -/
theorem received_handle {d : Handler} (hd : d ≠ .udp) (q : Pbuf) :
    received (handle h indet cbRet netif (d, q)).2.2.2 = [] := by
  cases d with
  | arp => simp only [handle, received_tArpInput]
  | icmp => simp only [handle, received_tIcmpInput]
  | udp => exact absurd rfl hd
  | tcp => simp only [handle, received_tTcpInput]
  | drop ret => rfl

/-! ## what is received -/

/-- Nothing that is not for UDP is received. -/
theorem ipHandler_eq_udp {proto : UInt16} :
    ipHandler proto = .udp ↔ proto = tIpProtoUdp.toUInt16 := by
  unfold ipHandler
  constructor
  · intro h
    split at h
    · cases h
    · split at h
      · assumption
      · split at h <;> cases h
  · rintro rfl
    rfl

/-- A packet for UDP is received if its lengths fit and it finds a control block with a
callback. -/
theorem received_udp {q : Pbuf} (hq : q.payload = 14) :
    ((UdpFits q ∧ ∃ i, udpLookup h.udp (ntohs (q.mem.get16 (udpHdrAt q + 2))) (q.mem.get32 30) =
        some (some i) ∧ (h.udp.pcb i).recv ≠ none) →
      ∃ e, received (handle h indet cbRet netif (.udp, q)).2.2.2 = [udpPulled q e]) ∧
    (¬ (UdpFits q ∧ ∃ i, udpLookup h.udp (ntohs (q.mem.get16 (udpHdrAt q + 2)))
        (q.mem.get32 30) = some (some i) ∧ (h.udp.pcb i).recv ≠ none) →
      received (handle h indet cbRet netif (.udp, q)).2.2.2 = []) := by
  by_cases hfits : UdpFits q
  · obtain ⟨e, he⟩ := tUdpInput_of_fits h.udp hq hfits
    simp only [hfits, true_and, handle, he]
    cases udpLookup h.udp (ntohs (q.mem.get16 (udpHdrAt q + 2))) (q.mem.get32 30) with
    | none =>
        refine ⟨fun hyes => ?_, fun _ => rfl⟩
        obtain ⟨j, hj, -⟩ := hyes
        simp at hj
    | some found =>
        cases found with
        | none =>
            refine ⟨fun hyes => ?_, fun _ => rfl⟩
            obtain ⟨j, hj, -⟩ := hyes
            simp at hj
        | some i =>
            simp only [Option.map_some, udpRecvEvents]
            cases hrecv : (h.udp.pcb i).recv with
            | none =>
                refine ⟨fun hyes => ?_, fun _ => rfl⟩
                obtain ⟨j, hj, hne⟩ := hyes
                obtain rfl : i = j := by simpa using hj
                exact absurd hrecv hne
            | some recv =>
                exact ⟨fun _ => ⟨e, rfl⟩, fun hno => absurd ⟨i, rfl, by simp [hrecv]⟩ hno⟩
  · obtain ⟨p', hp'⟩ := tUdpInput_of_not_fits h.udp hq hfits
    simp only [handle, hp']
    exact ⟨fun hy => absurd hy.1 hfits, fun _ => rfl⟩

/-- What a frame in a buffer is taken for decides whether a callback gets it. -/
theorem received_tRawInput {p : Pbuf} (hp : p.payload = 0) (hlen : p.len = p.totLen) :
    (UdpForCallback h.udp p → ∃ e, received (tRawInput h indet cbRet netif p).2.2.2 =
      [udpPulled { p with payload := 14, totLen := p.totLen - 14, len := p.len - 14 } e]) ∧
    (¬ UdpForCallback h.udp p → received (tRawInput h indet cbRet netif p).2.2.2 = []) := by
  rw [tRawInput_evs]
  by_cases htype : htons (p.mem.get16 12) = tIpv4FrameType
  · obtain ⟨e, hdemux⟩ := rawDemux_ipv4 hp htype
    by_cases hudp : (tIphV p.mem 14 = 4 ∧ (tIphHl p.mem 14).toNat * 4 < (p.len - 14).toNat) ∧
        tIphProto p.mem 14 = tIpProtoUdp.toUInt16
    · obtain ⟨hip, hproto⟩ := hudp
      rw [if_pos hip, ipHandler_eq_udp.mpr hproto] at hdemux
      obtain ⟨hyes, hno⟩ := received_udp h indet cbRet netif (q := { p with
        payload := 14, totLen := p.totLen - 14, len := p.len - 14, rdEnd := e }) rfl
      rw [hdemux]
      exact ⟨fun hfor => hyes ⟨⟨hfor.hlen, hfor.len⟩, hfor.recv⟩,
        fun hfor => hno fun hq => hfor ⟨htype, hip.1, hproto, hq.1.1, hq.1.2, hq.2⟩⟩
    · have hd : (if tIphV p.mem 14 = 4 ∧ (tIphHl p.mem 14).toNat * 4 < (p.len - 14).toNat then
          ipHandler (tIphProto p.mem 14) else .drop (-1)) ≠ .udp := by
        split
        · next hip => exact fun h => hudp ⟨hip, ipHandler_eq_udp.mp h⟩
        · exact Handler.noConfusion
      rw [hdemux, received_handle h indet cbRet netif hd]
      refine ⟨fun hfor => ?_, fun _ => rfl⟩
      have hhlen := hfor.hlen
      rw [← hlen] at hhlen
      exact absurd ⟨⟨hfor.version, by omega⟩, hfor.proto⟩ hudp
  · refine ⟨fun hfor => absurd hfor.type htype, fun _ => ?_⟩
    unfold rawDemux
    simp only [Pbuf.rd16_fst, hp, Nat.zero_add, if_neg htype]
    split
    · exact received_handle h indet cbRet netif Handler.noConfusion _
    · rfl

end

namespace Udp

/-- **Lengths of delivered datagrams**: a `recv` callback finds the length that the
frame left, and a length field between 8 and that, exactly when the frame is as long
as an Ethernet header and the field covers that of UDP. -/
theorem recv_lengths_iff {p : Pbuf} {frame : List UInt8} (hp : Holds p frame)
    (hlen : frame.length ≤ 1514) (h : Host) (indet : Nat → Option Netif) (cbRet : ErrT)
    (netif : Netif) :
    (∀ r ∈ received (tRawInput h indet cbRet netif p).2.2.2, RecvLengths p frame r) ↔
      (UdpForCallback h.udp p →
        14 ≤ frame.length ∧ 8 ≤ (htons (p.mem.get16 (udpHdrAt p + 4))).toNat) := by
  obtain ⟨hyes, hno⟩ := received_tRawInput h indet cbRet netif hp.payload hp.len
  by_cases hfor : UdpForCallback h.udp p
  · obtain ⟨e, he⟩ := hyes hfor
    have htot := hp.totLen
    have hhlen := hfor.hlen
    have hudp := hfor.len
    have hlt := (p.totLen - 14).toNat_lt
    have hhl := tIphHl_lt p.mem 14
    have hrest : (p.totLen - 14 - UInt16.ofNat ((tIphHl p.mem 14).toNat * 4)).toNat =
        (p.totLen - 14).toNat - (tIphHl p.mem 14).toNat * 4 := by
      rw [UInt16.toNat_sub, UInt16.toNat_ofNat']
      omega
    have hstrip : (p.totLen - 14).toNat = (65536 + frame.length - 14) % 65536 := by
      rw [UInt16.toNat_sub, htot, show (14 : UInt16).toNat = 14 from rfl]
      omega
    rw [he]
    simp only [List.mem_singleton, forall_eq, hfor, true_imp_iff]
    constructor
    · intro hr
      have h8 := hr.hlen_le
      have hl := hr.len
      simp only [udpPulled, hp.len, hrest, hstrip] at h8 hl
      refine ⟨by omega, h8⟩
    · rintro ⟨h14, h8⟩
      refine ⟨h8, ?_, ?_, ?_⟩
      · simp only [udpPulled, hp.len, hrest]
        exact Nat.le_sub_of_add_le hudp
      · simp only [udpPulled, hp.len]
      · simp only [udpPulled, hp.len, hrest]
        omega
  · rw [hno hfor]
    simp only [List.not_mem_nil, false_imp_iff, implies_true, hfor]

/-- The datagram of three bytes, as it came in. -/
theorem recv_lengths_three : ∃ q, ether0RecvData receiver.pbufPool threeFrame = (some q, []) ∧
    ((∀ r ∈ received (tRawInput receiver (fun _ => none) 0 sampleNetif q).2.2.2,
      RecvLengths q threeFrame r) ↔ (UdpForCallback receiver.udp q →
        14 ≤ threeFrame.length ∧ 8 ≤ (htons (q.mem.get16 (udpHdrAt q + 4))).toNat)) := by
  have hlen : threeFrame.length ≤ 1514 := by decide +kernel
  obtain ⟨q, hq⟩ := ether0RecvData_cons emptyPacket [] ((Nat.mod_le _ _).trans hlen)
  exact ⟨q, hq, recv_lengths_iff (ether0RecvData_holds (by omega) hq) hlen receiver
    (fun _ => none) 0 sampleNetif⟩

/-- The frame of the three bytes, with a UDP length of zero. -/
def zeroLengthFrame : List UInt8 := threeFrame.set 39 0

/-- It goes to the callback. -/
theorem zeroLength_forCallback {p : Pbuf} (hp : Holds p zeroLengthFrame) :
    UdpForCallback receiver.udp p ∧ (htons (p.mem.get16 (udpHdrAt p + 4))).toNat = 0 := by
  have h16 : ∀ i, i + 2 ≤ 45 → p.mem.get16 i = (frameMem zeroLengthFrame).get16 i := fun i hi =>
    hp.get16 (hi.trans (show 45 ≤ zeroLengthFrame.length by decide +kernel))
  have hdst : p.mem.get32 30 = (frameMem zeroLengthFrame).get32 30 :=
    hp.get32 (show 30 + 4 ≤ zeroLengthFrame.length by decide +kernel)
  have hhl : (tIphHl p.mem 14).toNat = 5 := by
    rw [tIphHl, h16 14 (by omega)]
    decide +kernel
  have htot : (p.totLen - 14).toNat = 31 := by
    rw [UInt16.toNat_sub, hp.totLen, show zeroLengthFrame.length = 45 by decide +kernel]
    rfl
  have hat : udpHdrAt p = 34 := by rw [udpHdrAt, hhl]
  have hzero : (htons (p.mem.get16 (udpHdrAt p + 4))).toNat = 0 := by
    rw [hat, h16 _ (by omega)]
    decide +kernel
  refine ⟨⟨?_, ?_, ?_, by omega, by omega, 0, ?_, by decide⟩, hzero⟩
  · rw [h16 _ (by omega)]
    decide +kernel
  · rw [tIphV, h16 _ (by omega)]
    decide +kernel
  · rw [tIphProto, h16 _ (by omega)]
    decide +kernel
  · rw [hat, h16 _ (by omega), hdst]
    decide +kernel

/-- It leaves a receiver -8 bytes. -/
theorem not_recv_lengths : ¬ ∀ (p : Pbuf) (frame : List UInt8), Holds p frame →
    frame.length ≤ 1514 → ∀ (h : Host) (indet : Nat → Option Netif) (cbRet : ErrT)
    (netif : Netif), ∀ r ∈ received (tRawInput h indet cbRet netif p).2.2.2,
      RecvLengths p frame r := by
  intro hall
  have hlen : zeroLengthFrame.length ≤ 1514 := by decide +kernel
  obtain ⟨p, hp⟩ := exists_holds hlen
  obtain ⟨hfor, hzero⟩ := zeroLength_forCallback hp
  obtain ⟨e, he⟩ := (received_tRawInput receiver (fun _ => none) 0 sampleNetif hp.payload
    hp.len).1 hfor
  have hr := hall p zeroLengthFrame hp hlen receiver (fun _ => none) 0 sampleNetif
    (udpPulled { p with payload := 14, totLen := p.totLen - 14, len := p.len - 14 } e)
    (by rw [he]; exact List.mem_singleton_self _)
  have h8 : 8 ≤ (htons (p.mem.get16 (udpHdrAt p + 4))).toNat := hr.hlen_le
  omega

end Udp

end TTcp
