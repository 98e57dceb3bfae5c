import TTcp.Echo
import TTcp.Tcp.Agreement
import TTcp.Tcp.Progress
import TTcp.Udp.RoundTrip

/-!
# TTcp.Trailer

Does it matter what follows an IPv4 packet in its frame?

`t_ip_input` never looks at the total length field: every handler takes its
lengths from the pbuf, and so from the frame.  The same packet with two
trailers is followed through each handler; what is read behind the packet shows
in an echo, in the length of a datagram, and in the options of a SYN|ACK
(`trailers_alike_iff`).
-/

namespace TTcp

/-! ## what can be seen of a call -/

/-- What a call hands to an interface or a callback: of the packet that a `recv`
callback gets, the length. -/
inductive Seen where
  | frame (netif : Netif) (bytes : List UInt8)
  | udpRecv (pcb : UdpPcbId) (recv : UdpRecvFn) (arg : Nat) (len : UInt16) (addr : UInt32)
      (port : UInt16)
  | tcpConnected (fn : Nat) (err : ErrT)
deriving DecidableEq

/-- What is seen of an event. -/
def Event.seen? : Event → Option Seen
  | .frame netif bytes => some (.frame netif bytes)
  | .udpRecv pcb recv arg p addr port => some (.udpRecv pcb recv arg p.totLen addr port)
  | .tcpConnected fn err => some (.tcpConnected fn err)
  | _ => none

/-- What is seen of the events of a call. -/
def seen (evs : List Event) : List Seen := evs.filterMap Event.seen?

/-- Two calls of `t_raw_input` come to the same: they end alike, all control
blocks and tables are the same after them, and so are the callbacks made and
the frames sent. -/
structure SameOutcome (r r' : Fate × Pbuf × Host × List Event) : Prop where
  hangs : r.1 = .hangs ↔ r'.1 = .hangs
  crashes : r.1 = .crashes ↔ r'.1 = .crashes
  tcpPcb : r.2.2.1.tcp.pcb = r'.2.2.1.tcp.pcb
  tcpNext : r.2.2.1.tcp.next = r'.2.2.1.tcp.next
  tcpActivePcbs : r.2.2.1.tcp.tcpActivePcbs = r'.2.2.1.tcp.tcpActivePcbs
  udp : r.2.2.1.udp = r'.2.2.1.udp
  arpTable : r.2.2.1.arpTable = r'.2.2.1.arpTable
  seen : seen r.2.2.2 = seen r'.2.2.2

namespace SameOutcome

variable {r r' r'' : Fate × Pbuf × Host × List Event}

theorem refl (r : Fate × Pbuf × Host × List Event) : SameOutcome r r :=
  ⟨Iff.rfl, Iff.rfl, rfl, rfl, rfl, rfl, rfl, rfl⟩

theorem symm (h : SameOutcome r r') : SameOutcome r' r :=
  ⟨h.hangs.symm, h.crashes.symm, h.tcpPcb.symm, h.tcpNext.symm, h.tcpActivePcbs.symm, h.udp.symm,
    h.arpTable.symm, h.seen.symm⟩

theorem trans (h : SameOutcome r r') (h' : SameOutcome r' r'') : SameOutcome r r'' :=
  ⟨h.hangs.trans h'.hangs, h.crashes.trans h'.crashes, h.tcpPcb.trans h'.tcpPcb,
    h.tcpNext.trans h'.tcpNext, h.tcpActivePcbs.trans h'.tcpActivePcbs, h.udp.trans h'.udp,
    h.arpTable.trans h'.arpTable, h.seen.trans h'.seen⟩

theorem iff {s s' : Fate × Pbuf × Host × List Event} (h : SameOutcome r s)
    (h' : SameOutcome r' s') : SameOutcome r r' ↔ SameOutcome s s' :=
  ⟨fun hs => (h.symm.trans hs).trans h', fun hs => (h.trans hs).trans h'.symm⟩

end SameOutcome

/-- Where both calls return with the state untouched, it is what is seen. -/
theorem sameOutcome_iff_seen {h : Host} {ret ret' : Int} {p p' : Pbuf} {evs evs' : List Event} :
    SameOutcome (.returns ret, p, h, evs) (.returns ret', p', h, evs') ↔ seen evs = seen evs' :=
  ⟨fun hs => hs.seen, fun hs => ⟨by simp, by simp, rfl, rfl, rfl, rfl, rfl, hs⟩⟩

/-- Freeing the packet makes no difference. -/
theorem tRawInput_same (h : Host) (indet : Nat → Option Netif) (cbRet : ErrT) (netif : Netif)
    (p : Pbuf) :
    SameOutcome (tRawInput h indet cbRet netif p) (handle h indet cbRet netif (rawDemux p)) := by
  unfold tRawInput
  generalize handle h indet cbRet netif (rawDemux p) = r
  obtain ⟨fate, q, h', evs⟩ := r
  cases fate <;> exact ⟨by simp, by simp, rfl, rfl, rfl, rfl, rfl, rfl⟩

/-! ## echo requests -/

/-- If either is an echo request, both are, of one length, and the same behind
the checksum. -/
def EchoAlike (rest rest' : List UInt8) : Prop :=
  frameMem rest 0 = tIcmpEchoRequest ∨ frameMem rest' 0 = tIcmpEchoRequest →
    frameMem rest 0 = frameMem rest' 0 ∧ rest.length = rest'.length ∧ rest.drop 4 = rest'.drop 4

/-- A request of which the bytes agree, up to those that the reply rewrites, is
answered with the same bytes. -/
theorem icmpReplyWrite_agreeOn {p p' : Pbuf} {n echo : Nat}
    (h : Pbuf.AgreeOn (fun i => i < n ∧ (i ≤ echo ∨ echo + 4 ≤ i)) p p') (hecho : 34 ≤ echo)
    (hn : echo < n) (hend : p.payload + p.totLen.toNat ≤ n) :
    Pbuf.AgreeOn (· < n) (icmpReplyWrite p 14 echo) (icmpReplyWrite p' 14 echo) := by
  have hsrc : p.mem.get32 26 = p'.mem.get32 26 := h.mem.get32 fun i _ _ => ⟨by omega, by omega⟩
  have hdst : p.mem.get32 30 = p'.mem.get32 30 := h.mem.get32 fun i _ _ => ⟨by omega, by omega⟩
  have htype : p.mem echo = p'.mem echo := h.mem _ ⟨hn, by omega⟩
  simp only [icmpReplyWrite, Pbuf.rd32_fst, Pbuf.rd32_snd, Pbuf.rd16_fst, Pbuf.rd16_snd,
    Nat.reduceAdd, Pbuf.see_mem]
  have h2 := (((h.see 30 30).see 34 34).set32_same 26 hdst).set32_same 30 hsrc
  generalize hq : (((p.see 30).see 34).set32 26 (p.mem.get32 30)).set32 30 (p.mem.get32 26) = q at h2
  generalize hq' : (((p'.see 30).see 34).set32 26 (p'.mem.get32 30)).set32 30 (p'.mem.get32 26) =
    q' at h2
  have hend' : q.payload + q.totLen.toNat ≤ n := by rw [← hq]; exact hend
  have hbyte : q.mem echo = q'.mem echo := h2.mem _ ⟨hn, by omega⟩
  have hv : htons (q.mem.get16 echo) &&& (0xff00 : UInt16) =
      htons (q'.mem.get16 echo) &&& (0xff00 : UInt16) := by
    rw [htons_get16_high, htons_get16_high, hbyte]
  have h4 : Pbuf.AgreeOn (· < n)
      (((q.see (echo + 2)).set16 echo (htons (q.mem.get16 echo) &&& (0xff00 : UInt16))).set16
        (echo + 2) 0)
      (((q'.see (echo + 2)).set16 echo (htons (q'.mem.get16 echo) &&& (0xff00 : UInt16))).set16
        (echo + 2) 0) := by
    rw [← hv]
    exact (((h2.see _ _).set16 echo _).set16 (echo + 2) 0).mono fun i hi => by omega
  generalize hr : ((q.see (echo + 2)).set16 echo
    (htons (q.mem.get16 echo) &&& (0xff00 : UInt16))).set16 (echo + 2) 0 = r at h4
  generalize hr' : ((q'.see (echo + 2)).set16 echo
    (htons (q'.mem.get16 echo) &&& (0xff00 : UInt16))).set16 (echo + 2) 0 = r' at h4
  have hend'' : r.payload + r.totLen.toNat ≤ n := by rw [← hr]; exact hend'
  refine (h4.see _ _).set16_same _ (congrArg tInetChksum ?_)
  rw [Pbuf.bytes, Pbuf.bytes, Pbuf.see_payload, Pbuf.see_payload, Pbuf.see_totLen, Pbuf.see_totLen,
    Pbuf.see_mem, Pbuf.see_mem, ← h4.payload, ← h4.totLen]
  exact h4.slice hend''

/-- All that is seen of `t_ip_output` is frames. -/
theorem seen_tIpOutput (net : Net) (indet : Option Netif) (arg : NetifArg) (p : Pbuf)
    (src : Option UInt32) (dst : AddrPtr) (ttl tos proto : UInt8) :
    seen (tIpOutput net indet arg p src dst ttl tos proto).2.2 =
      (frames (tIpOutput net indet arg p src dst ttl tos proto).2.2).map fun f =>
        .frame f.1 f.2 := by
  simp only [tIpOutput]
  repeat' split
  all_goals rfl

theorem seen_tIcmpInput (net : Net) (netif : Netif) (p : Pbuf) :
    seen (tIcmpInput net netif p).2.2 =
      (frames (tIcmpInput net netif p).2.2).map fun f => .frame f.1 f.2 := by
  unfold tIcmpInput
  simp only
  split
  · split
    · simp only [seen_tIpOutput]
    · rfl
  · rfl

/-- The replies to two requests are the same frames exactly when the requests
are as long and the same behind the checksum. -/
theorem icmpReply_bytes_iff {p p' : Pbuf} {echo : Nat} (hecho : 34 ≤ echo) (hecho' : echo < 1501)
    (hpay : p.payload = echo) (hpay' : p'.payload = echo) (hpos : 0 < p.totLen.toNat)
    (hfit : p.totLen.toNat ≤ 1500) (hfit' : p'.totLen.toNat ≤ 1500) (hlen : p.len = p.totLen)
    (hlen' : p'.len = p'.totLen) (hpre : ∀ i ≤ echo, p.mem i = p'.mem i) (netif : Netif)
    (ttl : UInt8) :
    (ipFrame ((icmpReplyWrite p 14 echo).see 24) netif netif.ipAddr (.pkt 30) ttl 0
        tIpProtoIcmp).bytes =
      (ipFrame ((icmpReplyWrite p' 14 echo).see 24) netif netif.ipAddr (.pkt 30) ttl 0
        tIpProtoIcmp).bytes ↔
      p.totLen = p'.totLen ∧ p.bytes.drop 4 = p'.bytes.drop 4 := by
  obtain ⟨hw, htot, hwlen, -⟩ := icmpReplyWrite_spec p 14 echo
  obtain ⟨hw', htot', hwlen', -⟩ := icmpReplyWrite_spec p' 14 echo
  have hdrop := ipFrame_bytes_drop (p := (icmpReplyWrite p 14 echo).see 24) (h := echo - 34)
    (by rw [Pbuf.see_payload, hw, hpay]; omega) (by omega)
    (by rw [Pbuf.see_totLen, htot]; omega) netif netif.ipAddr (.pkt 30) ttl 0 tIpProtoIcmp
  have hdrop' := ipFrame_bytes_drop (p := (icmpReplyWrite p' 14 echo).see 24) (h := echo - 34)
    (by rw [Pbuf.see_payload, hw', hpay']; omega) (by omega)
    (by rw [Pbuf.see_totLen, htot']; omega) netif netif.ipAddr (.pkt 30) ttl 0 tIpProtoIcmp
  have hreply : ((icmpReplyWrite p 14 echo).see 24).bytes = (icmpReplyWrite p 14 echo).bytes := rfl
  have hreply' : ((icmpReplyWrite p' 14 echo).see 24).bytes = (icmpReplyWrite p' 14 echo).bytes :=
    rfl
  rw [hreply] at hdrop
  rw [hreply'] at hdrop'
  constructor
  · intro heq
    rw [heq, hdrop'] at hdrop
    refine ⟨UInt16.toNat_inj.1 ?_, ?_⟩
    · have hl := congrArg List.length hdrop
      rwa [Pbuf.length_bytes, Pbuf.length_bytes, htot, htot', eq_comm] at hl
    · rw [← icmpReplyWrite_bytes_drop hpay hecho, ← icmpReplyWrite_bytes_drop hpay' hecho, hdrop]
  · rintro ⟨hsame, hrest⟩
    have hagree : Pbuf.AgreeOn (fun i => i < echo + p.totLen.toNat ∧ (i ≤ echo ∨ echo + 4 ≤ i))
        p p' := by
      refine ⟨by rw [hpay, hpay'], hsame, by rw [hlen, hlen', hsame], fun i hi => ?_⟩
      obtain hle | hge := hi.2
      · exact hpre i hle
      · obtain ⟨j, rfl⟩ : ∃ j, i = echo + 4 + j := ⟨i - (echo + 4), by omega⟩
        have hj := congrArg (fun l : List UInt8 => l[j]?) hrest
        simp only [List.getElem?_drop, Pbuf.bytes, hpay, hpay', ← hsame] at hj
        rw [List.getElem?_eq_getElem (by rw [ByteMem.length_slice]; omega),
          List.getElem?_eq_getElem (by rw [ByteMem.length_slice]; omega), ByteMem.getElem_slice,
          ByteMem.getElem_slice, ← Nat.add_assoc] at hj
        exact Option.some.inj hj
    have hout := (icmpReplyWrite_agreeOn hagree hecho (by omega) (by rw [hpay])).see 24 24
    have hframe := ipFrame_agreeOn hout (by rw [Pbuf.see_payload, hw, hpay]; omega)
      (by rw [Pbuf.see_payload, hw, hpay]; omega) (by rw [Pbuf.see_payload, hw, hpay]; omega) netif
      netif.ipAddr (show ∀ o, AddrPtr.pkt 30 = .pkt o → o + 4 ≤ echo + p.totLen.toNat from
        fun o ho => by cases ho; omega) ttl 0 tIpProtoIcmp
    rw [Pbuf.bytes, Pbuf.bytes, ← hframe.payload, ← hframe.totLen]
    refine hframe.slice ?_
    obtain ⟨-, -, -, -, hpayF, htotF, -⟩ := ipFrame_spec ((icmpReplyWrite p 14 echo).see 24)
      netif netif.ipAddr (.pkt 30) ttl 0 tIpProtoIcmp (h := echo - 34)
      (by rw [Pbuf.see_payload, hw, hpay]; omega) (by omega)
    rw [hpayF, htotF, Pbuf.see_totLen, htot, UInt16.toNat_add, show (34 : UInt16).toNat = 34 from rfl]
    omega

section
variable {pkt : Ipv4Packet} {rest rest' : List UInt8} {q q' : Pbuf} (h : Received pkt rest q)
  (h' : Received pkt rest' q') (heth : ∀ i < 14, q.mem i = q'.mem i)
include h h'

theorem Received.agree_header {i : Nat} (h14 : 14 ≤ i) (hi : i < 14 + pkt.hlen) :
    q.mem i = q'.mem i := by
  obtain ⟨j, rfl⟩ : ∃ j, i = 14 + j := ⟨i - 14, by omega⟩
  rw [h.header j (by omega), h'.header j (by omega)]

include heth

/-- `t_icmp_input` sends the same frames exactly when the packets are alike. -/
theorem tIcmpInput_frames_iff (hpos : 0 < rest.length) (hpos' : 0 < rest'.length)
    (hfit : rest.length ≤ 1500) (hfit' : rest'.length ≤ 1500) (net : Net) (netif : Netif) :
    frames (tIcmpInput net netif q).2.2 = frames (tIcmpInput net netif q').2.2 ↔
      EchoAlike rest rest' := by
  have hge := pkt.hlen_ge
  have hle := pkt.hlen_le_sixty
  obtain ⟨e, he⟩ := tIcmpInput_frames h hpos net netif
  obtain ⟨e', he'⟩ := tIcmpInput_frames h' hpos' net netif
  simp only at he he'
  obtain ⟨r, hr⟩ : ∃ r : Pbuf, r = { q with
      payload := 14 + pkt.hlen
      totLen := UInt16.ofNat rest.length
      len := UInt16.ofNat rest.length
      rdEnd := e } := ⟨_, rfl⟩
  obtain ⟨r', hr'⟩ : ∃ r : Pbuf, r = { q' with
      payload := 14 + pkt.hlen
      totLen := UInt16.ofNat rest'.length
      len := UInt16.ofNat rest'.length
      rdEnd := e' } := ⟨_, rfl⟩
  rw [he, he', ← hr, ← hr']
  have httl : q.mem.get16 22 = q'.mem.get16 22 :=
    ByteMem.get16_congr fun i hi => h.agree_header h' (by omega) (by omega)
  have hpay : r.payload = 14 + pkt.hlen := by rw [hr]
  have hpay' : r'.payload = 14 + pkt.hlen := by rw [hr']
  have htot : r.totLen.toNat = rest.length := by rw [hr, UInt16.toNat_ofNat_of_lt' (show _ < 65536 by omega)]
  have htot' : r'.totLen.toNat = rest'.length := by rw [hr', UInt16.toNat_ofNat_of_lt' (show _ < 65536 by omega)]
  have hmem : ∀ i < rest.length, r.mem (14 + pkt.hlen + i) = frameMem rest i := by
    rw [hr]
    exact h.rest
  have hmem' : ∀ i < rest'.length, r'.mem (14 + pkt.hlen + i) = frameMem rest' i := by
    rw [hr']
    exact h'.rest
  rw [EchoAlike]
  by_cases hreq : frameMem rest 0 = tIcmpEchoRequest
  · by_cases hreq' : frameMem rest' 0 = tIcmpEchoRequest
    · rw [if_pos hreq, if_pos hreq', httl]
      have hbytes : r.bytes = rest := by
        rw [Pbuf.bytes, hpay, htot]
        exact List.ext_getElem (by simp) fun i h1 h2 => by
          rw [ByteMem.getElem_slice, hmem i h2, frameMem, ByteMem.ofList_apply_of_lt _ h2]
      have hbytes' : r'.bytes = rest' := by
        rw [Pbuf.bytes, hpay', htot']
        exact List.ext_getElem (by simp) fun i h1 h2 => by
          rw [ByteMem.getElem_slice, hmem' i h2, frameMem, ByteMem.ofList_apply_of_lt _ h2]
      have hpre : ∀ i ≤ 14 + pkt.hlen, r.mem i = r'.mem i := fun i hi => by
        by_cases h14 : i < 14
        · rw [hr, hr']
          exact heth i h14
        · by_cases hhdr : i < 14 + pkt.hlen
          · rw [hr, hr']
            exact h.agree_header h' (by omega) hhdr
          · obtain rfl : i = 14 + pkt.hlen := by omega
            exact (hmem 0 hpos).trans ((hreq.trans hreq'.symm).trans (hmem' 0 hpos').symm)
      have hiff := icmpReply_bytes_iff (by omega) (by omega) hpay hpay' (by omega) (by omega)
        (by omega) (by rw [hr]) (by rw [hr']) hpre netif (htons (q'.mem.get16 22) >>> 8).toUInt8
      rw [List.singleton_inj, Prod.mk.injEq, eq_self, true_and, hiff, hbytes, hbytes',
        ← UInt16.toNat_inj, htot, htot']
      exact ⟨fun hs _ => ⟨hreq.trans hreq'.symm, hs⟩, fun hs => (hs (Or.inl hreq)).2⟩
    · rw [if_pos hreq, if_neg hreq']
      refine iff_of_false (fun heq => by simp at heq) fun halike => hreq' ?_
      rw [← (halike (Or.inl hreq)).1, hreq]
  · by_cases hreq' : frameMem rest' 0 = tIcmpEchoRequest
    · rw [if_neg hreq, if_pos hreq']
      refine iff_of_false (fun heq => by simp at heq) fun halike => hreq ?_
      rw [(halike (Or.inr hreq')).1, hreq']
    · rw [if_neg hreq, if_neg hreq']
      exact iff_of_true rfl fun hor => (hor.elim hreq hreq').elim

end

/-- Packets for `t_icmp_input` come to the same exactly when they are alike.
With nothing behind its header a packet does not get there. -/
theorem handle_icmp_iff {pkt : Ipv4Packet} {rest rest' : List UInt8} {q q' : Pbuf}
    (h : Received pkt rest q) (h' : Received pkt rest' q') (heth : ∀ i < 14, q.mem i = q'.mem i)
    (hfit : rest.length ≤ 1500) (hfit' : rest'.length ≤ 1500) (host : Host)
    (indet : Nat → Option Netif) (cbRet : ErrT) (netif : Netif) :
    SameOutcome
      (handle host indet cbRet netif (if rest.length = 0 then .drop (-1) else .icmp, q))
      (handle host indet cbRet netif (if rest'.length = 0 then .drop (-1) else .icmp, q')) ↔
      EchoAlike rest rest' := by
  have hframe : ∀ {rest : List UInt8} {q : Pbuf}, Received pkt rest q → 0 < rest.length →
      (seen (tIcmpInput host.tcp.net netif q).2.2 = [] ↔ frameMem rest 0 ≠ tIcmpEchoRequest) := by
    intro rest q h hpos
    obtain ⟨e, he⟩ := tIcmpInput_frames h hpos host.tcp.net netif
    simp only at he
    rw [seen_tIcmpInput, he]
    split
    · next hreq => exact iff_of_false (by simp) fun hne => hne hreq
    · next hreq => exact iff_of_true rfl hreq
  have hempty : ∀ {rest : List UInt8}, rest.length = 0 → frameMem rest 0 ≠ tIcmpEchoRequest :=
    fun h0 => by rw [List.length_eq_zero_iff.mp h0]; decide
  have hicmp : ∀ q, handle host indet cbRet netif (.icmp, q) =
      (.returns (tIcmpInput host.tcp.net netif q).1, (tIcmpInput host.tcp.net netif q).2.1, host,
        (tIcmpInput host.tcp.net netif q).2.2) := fun _ => rfl
  have hdrop : ∀ q, handle host indet cbRet netif (.drop (-1), q) =
      (.returns (-1), q, host, []) := fun _ => rfl
  by_cases h0 : rest.length = 0
  · by_cases h0' : rest'.length = 0
    · rw [if_pos h0, if_pos h0']
      exact iff_of_true (sameOutcome_iff_seen.mpr rfl) fun hor =>
        (hor.elim (hempty h0) (hempty h0')).elim
    · rw [if_pos h0, if_neg h0', hicmp, hdrop]
      refine sameOutcome_iff_seen.trans (eq_comm.trans ((hframe h' (by omega)).trans ?_))
      exact ⟨fun hne hor => (hor.elim (hempty h0) hne).elim, fun ha hreq =>
        hempty h0 ((ha (Or.inr hreq)).1.trans hreq)⟩
  · by_cases h0' : rest'.length = 0
    · rw [if_neg h0, if_pos h0', hicmp, hdrop]
      refine sameOutcome_iff_seen.trans ((hframe h (by omega)).trans ?_)
      exact ⟨fun hne hor => (hor.elim hne (hempty h0')).elim, fun ha hreq =>
        hempty h0' ((ha (Or.inl hreq)).1.symm.trans hreq)⟩
    · rw [if_neg h0, if_neg h0', hicmp, hicmp, sameOutcome_iff_seen, seen_tIcmpInput,
        seen_tIcmpInput,
        ← tIcmpInput_frames_iff h h' heth (by omega) (by omega) hfit hfit' host.tcp.net netif]
      refine (List.map_injective_iff.mpr fun f f' heq => ?_).eq_iff
      exact Prod.ext (Seen.frame.inj heq).1 (Seen.frame.inj heq).2

/-! ## datagrams -/

/-- The datagram is as long as its header says, or longer. -/
def UdpInOrder (rest : List UInt8) : Prop :=
  8 ≤ rest.length ∧ (htons ((frameMem rest).get16 4)).toNat ≤ rest.length

/-- The control block for the datagram. -/
def udpTarget (u : Udp) (dst : UInt32) (rest : List UInt8) : Option (Option UdpPcbId) :=
  udpLookup u (ntohs ((frameMem rest).get16 2)) dst

/-- The search for a control block does not end. -/
def UdpHangs (u : Udp) (dst : UInt32) (rest : List UInt8) : Prop :=
  UdpInOrder rest ∧ udpTarget u dst rest = none

/-- The datagram goes to the callback of control block `i`. -/
def UdpReaches (u : Udp) (dst : UInt32) (rest : List UInt8) (i : UdpPcbId) : Prop :=
  UdpInOrder rest ∧ udpTarget u dst rest = some (some i) ∧ (u.pcb i).recv ≠ none

/-- The search ends for both or for neither; and if either goes to a callback,
both do, with the same ports and of one length. -/
structure UdpAlike (u : Udp) (dst : UInt32) (rest rest' : List UInt8) : Prop where
  hangs : UdpHangs u dst rest ↔ UdpHangs u dst rest'
  reaches : ∀ i, UdpReaches u dst rest i ∨ UdpReaches u dst rest' i →
    UdpReaches u dst rest i ∧ UdpReaches u dst rest' i ∧
      (frameMem rest).get16 0 = (frameMem rest').get16 0 ∧ rest.length = rest'.length

section
variable {pkt : Ipv4Packet} {rest : List UInt8} {q : Pbuf} (h : Received pkt rest q)
include h

theorem Received.udpHdrAt : udpHdrAt q = 14 + pkt.hlen := by rw [TTcp.udpHdrAt, h.hl]

theorem Received.udpDatagram (hin : UdpInOrder rest) : UdpDatagram q := by
  have hge := pkt.hlen_ge
  have hhl := h.hl
  have htot := h.totLen
  have h8 := hin.1
  have hlen := hin.2
  refine ⟨h.payload, by omega, by omega, ?_⟩
  rw [h.udpHdrAt, h.get16 (by omega)]
  omega

/-- A datagram that is not in order is dropped. -/
theorem tUdpInput_of_not_inOrder (u : Udp) (hin : ¬ UdpInOrder rest) :
    ∃ p, tUdpInput u q = some (-1, p, []) := by
  refine tUdpInput_of_not_fits u h.payload fun ⟨hip, hudp⟩ => hin ?_
  have hhl := h.hl
  have htot := h.totLen
  have h8 : 8 ≤ rest.length := by omega
  rw [h.udpHdrAt, h.get16 (by omega)] at hudp
  exact ⟨h8, by omega⟩

/-- What becomes of a datagram. -/
theorem handle_udp (host : Host) (indet : Nat → Option Netif) (cbRet : ErrT) (netif : Netif) :
    (UdpHangs host.udp pkt.dst rest →
      handle host indet cbRet netif (.udp, q) = (.hangs, q, host, [])) ∧
    (¬ UdpHangs host.udp pkt.dst rest → ∃ ret p evs,
      handle host indet cbRet netif (.udp, q) = (.returns ret, p, host, evs) ∧
      ((∀ i, ¬ UdpReaches host.udp pkt.dst rest i) → seen evs = []) ∧
      ∀ i, UdpReaches host.udp pkt.dst rest i → ∃ recv, (host.udp.pcb i).recv = some recv ∧
        seen evs = [.udpRecv i recv (host.udp.pcb i).recvArg (UInt16.ofNat rest.length) pkt.src
          (ntohs ((frameMem rest).get16 0))]) := by
  by_cases hin : UdpInOrder rest
  · obtain ⟨e, he⟩ := tUdpInput_eq host.udp (h.udpDatagram hin)
    have h8 := hin.1
    have hport : q.mem.get16 (14 + pkt.hlen) = (frameMem rest).get16 0 :=
      h.get16 (i := 0) (by omega)
    rw [h.udpHdrAt, h.get16 (by omega), hport, h.src, h.dst] at he
    have htot : (udpPulled q e).totLen = UInt16.ofNat rest.length := by
      have hqtot := h.totLen
      have hlt := q.totLen.toNat_lt
      apply UInt16.toNat_inj.1
      rw [udpPulled, h.hl, UInt16.toNat_sub, UInt16.toNat_ofNat', UInt16.toNat_ofNat']
      omega
    have htarget : udpLookup host.udp (ntohs ((frameMem rest).get16 2)) pkt.dst =
        udpTarget host.udp pkt.dst rest := rfl
    rw [htarget] at he
    cases hfound : udpTarget host.udp pkt.dst rest with
    | none =>
        rw [hfound] at he
        refine ⟨fun _ => ?_, fun hno => absurd ⟨hin, hfound⟩ hno⟩
        simp only [handle, he, Option.map_none]
    | some r =>
        rw [hfound] at he
        refine ⟨fun hhang => ?_, fun _ => ?_⟩
        · rw [UdpHangs, hfound] at hhang
          cases hhang.2
        · refine ⟨0, udpPulled q e, _, by simp only [handle, he, Option.map_some]; rfl, ?_, ?_⟩
          · intro hno
            cases r with
            | none => rfl
            | some i =>
                have hnone : (host.udp.pcb i).recv = none := by
                  by_contra hrecv
                  exact hno i ⟨hin, hfound, hrecv⟩
                simp only [udpRecvEvents, hnone]
                rfl
          · rintro i ⟨-, hi, hrecv⟩
            rw [hfound] at hi
            obtain rfl : r = some i := Option.some.inj hi
            obtain ⟨recv, hrecv⟩ := Option.ne_none_iff_exists'.mp hrecv
            refine ⟨recv, hrecv, ?_⟩
            simp only [udpRecvEvents, hrecv, seen, Event.seen?, List.filterMap_cons,
              List.filterMap_nil, htot]
  · obtain ⟨p, hp⟩ := tUdpInput_of_not_inOrder h host.udp hin
    refine ⟨fun hhang => absurd hhang.1 hin, fun _ => ⟨-1, p, [], by simp only [handle, hp],
      fun _ => rfl, fun i hi => absurd hi.1 hin⟩⟩

end

/-- Datagrams come to the same exactly when they are alike. -/
theorem handle_udp_iff {pkt : Ipv4Packet} {rest rest' : List UInt8} {q q' : Pbuf}
    (h : Received pkt rest q) (h' : Received pkt rest' q') (hfit : rest.length ≤ 1500)
    (hfit' : rest'.length ≤ 1500) (host : Host) (indet : Nat → Option Netif) (cbRet : ErrT)
    (netif : Netif) :
    SameOutcome (handle host indet cbRet netif (.udp, q)) (handle host indet cbRet netif (.udp, q')) ↔
      UdpAlike host.udp pkt.dst rest rest' := by
  obtain ⟨hhangs, hends⟩ := handle_udp h host indet cbRet netif
  obtain ⟨hhangs', hends'⟩ := handle_udp h' host indet cbRet netif
  have hno : ∀ {rest : List UInt8} {i}, UdpHangs host.udp pkt.dst rest →
      ¬ UdpReaches host.udp pkt.dst rest i := fun hh hr => by
    have heq := hh.2.symm.trans hr.2.1
    cases heq
  have huniq : ∀ {rest : List UInt8} {i j}, UdpReaches host.udp pkt.dst rest i →
      UdpReaches host.udp pkt.dst rest j → i = j := fun hi hj =>
    Option.some.inj (Option.some.inj (hi.2.1.symm.trans hj.2.1))
  by_cases hh : UdpHangs host.udp pkt.dst rest
  · by_cases hh' : UdpHangs host.udp pkt.dst rest'
    · rw [hhangs hh, hhangs' hh']
      exact iff_of_true ⟨by simp, by simp, rfl, rfl, rfl, rfl, rfl, rfl⟩
        ⟨iff_of_true hh hh', fun i hi => (hi.elim (hno hh) (hno hh')).elim⟩
    · obtain ⟨ret', p', evs', heq', -⟩ := hends' hh'
      rw [hhangs hh, heq']
      exact iff_of_false (fun hs => by cases hs.hangs.mp rfl) fun ha => hh' (ha.hangs.mp hh)
  obtain ⟨ret, p, evs, heq, hnone, hsome⟩ := hends hh
  by_cases hh' : UdpHangs host.udp pkt.dst rest'
  · rw [heq, hhangs' hh']
    exact iff_of_false (fun hs => by cases hs.hangs.mpr rfl) fun ha => hh (ha.hangs.mpr hh')
  obtain ⟨ret', p', evs', heq', hnone', hsome'⟩ := hends' hh'
  rw [heq, heq', sameOutcome_iff_seen]
  have hlen : ∀ {xs ys : List UInt8}, xs.length ≤ 1500 → ys.length ≤ 1500 →
      UInt16.ofNat xs.length = UInt16.ofNat ys.length → xs.length = ys.length :=
    fun hxs hys heq => by
      have h := congrArg UInt16.toNat heq
      rwa [UInt16.toNat_ofNat_of_lt' (show _ < 65536 by omega),
        UInt16.toNat_ofNat_of_lt' (show _ < 65536 by omega)] at h
  constructor
  · intro hseen
    refine ⟨iff_of_false hh hh', fun i hi => ?_⟩
    -- either both are delivered or neither
    obtain ⟨j, hj⟩ : ∃ j, UdpReaches host.udp pkt.dst rest j := by
      by_contra hnever
      obtain ⟨recv', -, hs'⟩ := hsome' i (hi.resolve_left fun h => hnever ⟨i, h⟩)
      rw [hnone fun k hk => hnever ⟨k, hk⟩, hs'] at hseen
      cases hseen
    obtain ⟨recv, -, hs⟩ := hsome j hj
    obtain ⟨k, hk⟩ : ∃ k, UdpReaches host.udp pkt.dst rest' k := by
      by_contra hnever
      rw [hs, hnone' fun k hk => hnever ⟨k, hk⟩] at hseen
      cases hseen
    obtain ⟨recv', -, hs'⟩ := hsome' k hk
    rw [hs, hs', List.singleton_inj, Seen.udpRecv.injEq] at hseen
    obtain ⟨rfl, -, -, hl, -, hport⟩ := hseen
    obtain rfl : i = j := hi.elim (fun h => huniq h hj) fun h => huniq h hk
    refine ⟨hj, hk, ?_, hlen hfit hfit' hl⟩
    simpa using congrArg ntohs hport
  · intro ha
    by_cases hany : ∃ i, UdpReaches host.udp pkt.dst rest i
    · obtain ⟨i, hi⟩ := hany
      obtain ⟨-, hi', hport, hl⟩ := ha.reaches i (Or.inl hi)
      obtain ⟨recv, hrecv, hs⟩ := hsome i hi
      obtain ⟨recv', hrecv', hs'⟩ := hsome' i hi'
      obtain rfl : recv = recv' := Option.some.inj (hrecv.symm.trans hrecv')
      rw [hs, hs', hport, hl]
    · have hany' : ∀ i, ¬ UdpReaches host.udp pkt.dst rest' i := fun i hi =>
        hany ⟨i, (ha.reaches i (Or.inr hi)).1⟩
      rw [hnone fun i hi => hany ⟨i, hi⟩, hnone' hany']

/-! ## segments -/

/-- The control block for the segment at `o`, of which `n` bytes have come. -/
def tcpTarget (h : TcpHost) (p : Pbuf) (o n : Nat) :
    Option (Option (TcpPcbId × Option TcpPcbId)) :=
  if n < tTcpHlen then some none else demux h (keyAt p o)

/-- The segments are for the same control block, which takes them for the
same. -/
structure SegmentsAlike (h : TcpHost) (p p' : Pbuf) (o n n' : Nat) : Prop where
  target : tcpTarget h p o n = tcpTarget h p' o n'
  sees : ∀ i prev, tcpTarget h p o n = some (some (i, prev)) →
    (h.pcb i).SeesAlike (segmentAt p o) (segmentAt p' o)

/-- A packet too short for a TCP header is dropped. -/
theorem tTcpInputHeader_of_short {pkt : Ipv4Packet} {rest : List UInt8} {q : Pbuf}
    (h : Received pkt rest q) (hshort : rest.length < 20) : (tTcpInputHeader q).2 = none := by
  obtain ⟨e, r, hpull, hr⟩ := h.pull
  have hvhl : ((htons (q.mem.get16 14) >>> 8) &&& 0x0f).toNat * 4 = pkt.hlen := h.hl
  have hlt : r.totLen < UInt16.ofNat tTcpHlen := by
    rw [hr, UInt16.lt_iff_toNat_lt, UInt16.toNat_ofNat_of_lt' (show _ < 65536 by omega)]
    exact hshort
  unfold tTcpInputHeader
  simp only [h.payload, Pbuf.rd16_fst, Pbuf.rd16_snd, hvhl, hpull, hlt, or_true, ↓reduceIte]

/-- What becomes of a segment. -/
theorem handle_tcp {pkt : Ipv4Packet} {rest : List UInt8} {q p : Pbuf} (h : Received pkt rest q)
    (hp : q.mem = p.mem) (host : Host) (indet : Nat → Option Netif) (cbRet : ErrT)
    (netif : Netif) :
    let r := handle host indet cbRet netif (.tcp, q)
    let target := tcpTarget host.tcp p (14 + pkt.hlen) rest.length
    (target = none → ∃ q', r = (.hangs, q', host, [])) ∧
    (target = some none → ∃ ret q', r = (.returns ret, q', host, [])) ∧
    ∀ i prev, target = some (some (i, prev)) → ∃ s q', s.Reads (segmentAt p (14 + pkt.hlen)) ∧
      let t := tTcpReceive (host.tcp.outEnv indet) cbRet host.tcp.pools (host.tcp.pcb i) s
      r = (t.1, q', { host with
          tcp := { (moveToFront host.tcp i prev).setPcb i t.2.2.1 with pools := t.2.1 } },
        t.2.2.2.2) := by
  simp only [handle]
  unfold tTcpInput tcpTarget
  by_cases hshort : rest.length < 20
  · have hnone := tTcpInputHeader_of_short h hshort
    rw [if_pos (show rest.length < tTcpHlen from hshort)]
    generalize tTcpInputHeader q = x at hnone
    obtain ⟨q', r⟩ := x
    obtain rfl : r = none := hnone
    exact ⟨fun hno => (by cases hno), fun _ => ⟨-1, q', rfl⟩, fun i prev hno => (by cases hno)⟩
  · have hge := pkt.hlen_ge
    have htot := h.totLen
    obtain ⟨s, hhdr, hreads⟩ := tTcpInputHeader_reads h.payload h.hl hge (by omega) hp
    rw [if_neg (show ¬ rest.length < tTcpHlen from hshort)]
    generalize tTcpInputHeader q = x at hhdr
    obtain ⟨q', r⟩ := x
    obtain rfl : r = some (s, keyAt p (14 + pkt.hlen)) := hhdr
    cases hd : demux host.tcp (keyAt p (14 + pkt.hlen)) with
    | none =>
        simp only [hd]
        exact ⟨fun _ => ⟨q', rfl⟩, fun hno => (by cases hno), fun i prev hno => (by cases hno)⟩
    | some found =>
        cases found with
        | none =>
            simp only [hd]
            exact ⟨fun hno => (by cases hno), fun _ => ⟨0, q', rfl⟩, fun i prev hno => (by cases hno)⟩
        | some found =>
            obtain ⟨i, prev⟩ := found
            refine ⟨fun hno => (by cases hno), fun hno => (by cases hno), fun j prev' hj => ?_⟩
            obtain ⟨rfl, rfl⟩ : i = j ∧ prev = prev' := by simpa using hj
            refine ⟨s, (tTcpReceive (host.tcp.outEnv indet) cbRet host.tcp.pools (host.tcp.pcb i)
              s).2.2.2.1, hreads, ?_⟩
            simp only [hd, TcpHost.moveToFront_pcb, TcpHost.moveToFront_pools, TcpHost.outEnv,
              TcpHost.moveToFront_net, TcpHost.moveToFront_tcpTicks]

/-- What is taken from the options of an accepted segment shows afterwards. -/
theorem tTcpReceive_of_accepts (env : OutEnv) (cbRet : ErrT) (pools : Pools) {pcb : TcpPcb}
    {s : Incoming} (h : pcb.Accepts s) :
    ((tTcpReceive env cbRet pools pcb s).1 = .hangs ↔ s.options = none) ∧
      ∀ m, s.options = some m →
        (tTcpReceive env cbRet pools pcb s).2.2.1.mss = negotiatedMss pcb.mss m := by
  obtain ⟨rseg, unacked, p, -, -, hhangs, hreturns⟩ := tTcpProcess_of_accepts env cbRet pools h
  refine ⟨?_, fun m hm => by rw [tTcpReceive_mss, hreturns m hm]⟩
  unfold tTcpReceive
  cases hopt : s.options with
  | none => rw [hhangs hopt]; simp
  | some m =>
      rw [hreturns m hopt]
      generalize (if pcb.connected = none then (0 : Int) else cbRet) = err
      by_cases herr : err = errOk
      · simp only [if_pos herr]
        exact iff_of_false (fun hno => by cases hno) (by simp)
      · simp only [if_neg herr]
        exact iff_of_false (fun hno => by cases hno) (by simp)

section
variable {pkt : Ipv4Packet} {rest rest' : List UInt8} {q q' p p' : Pbuf} (h : Received pkt rest q)
  (h' : Received pkt rest' q') (hp : q.mem = p.mem) (hp' : q'.mem = p'.mem) (host : Host)
  (indet : Nat → Option Netif) (cbRet : ErrT) (netif : Netif)
include h h' hp hp'

/-- Segments that are alike come to the same. -/
theorem handle_tcp_of_alike
    (ha : SegmentsAlike host.tcp p p' (14 + pkt.hlen) rest.length rest'.length) :
    SameOutcome (handle host indet cbRet netif (.tcp, q))
      (handle host indet cbRet netif (.tcp, q')) := by
  obtain ⟨hhangs, hnone, hfound⟩ := handle_tcp h hp host indet cbRet netif
  obtain ⟨hhangs', hnone', hfound'⟩ := handle_tcp h' hp' host indet cbRet netif
  cases ht : tcpTarget host.tcp p (14 + pkt.hlen) rest.length with
  | none =>
      obtain ⟨r, hr⟩ := hhangs ht
      obtain ⟨r', hr'⟩ := hhangs' (ha.target.symm.trans ht)
      rw [hr, hr']
      exact ⟨Iff.rfl, Iff.rfl, rfl, rfl, rfl, rfl, rfl, rfl⟩
  | some found =>
      cases found with
      | none =>
          obtain ⟨ret, r, hr⟩ := hnone ht
          obtain ⟨ret', r', hr'⟩ := hnone' (ha.target.symm.trans ht)
          rw [hr, hr', sameOutcome_iff_seen]
      | some found =>
          obtain ⟨i, prev⟩ := found
          obtain ⟨s, r, hs, hr⟩ := hfound i prev ht
          obtain ⟨s', r', hs', hr'⟩ := hfound' i prev (ha.target.symm.trans ht)
          obtain ⟨hfate, hpools, hpcb, hevs⟩ :=
            tTcpReceive_alike (host.tcp.outEnv indet) cbRet host.tcp.pools
              ((hs.seesAlike_iff hs').mpr (ha.sees i prev ht))
          simp only at hr hr'
          rw [hr, hr', hfate, hpools, hpcb, hevs]
          exact ⟨Iff.rfl, Iff.rfl, rfl, rfl, rfl, rfl, rfl, rfl⟩

/-- With the TCP header in the packet itself, segments that come to the same
are alike. -/
theorem segmentsAlike_of_same (h20 : 20 ≤ rest.length) (h20' : 20 ≤ rest'.length)
    (hhdr : ∀ i < 20, frameMem rest i = frameMem rest' i)
    (hsame : SameOutcome (handle host indet cbRet netif (.tcp, q))
      (handle host indet cbRet netif (.tcp, q'))) :
    SegmentsAlike host.tcp p p' (14 + pkt.hlen) rest.length rest'.length := by
  obtain ⟨-, -, hfound⟩ := handle_tcp h hp host indet cbRet netif
  obtain ⟨-, -, hfound'⟩ := handle_tcp h' hp' host indet cbRet netif
  have h16 : ∀ i, i + 2 ≤ 20 → p.mem.get16 (14 + pkt.hlen + i) = p'.mem.get16 (14 + pkt.hlen + i) :=
    fun i hi => by
      rw [← hp, ← hp', h.get16 (by omega), h'.get16 (by omega)]
      exact ByteMem.get16_congr fun j hj => hhdr _ (by omega)
  have h32 : ∀ i, i + 4 ≤ 20 → p.mem.get32 (14 + pkt.hlen + i) = p'.mem.get32 (14 + pkt.hlen + i) :=
    fun i hi => by
      rw [← hp, ← hp', h.get32 (by omega), h'.get32 (by omega)]
      exact ByteMem.get32_congr fun j hj => hhdr _ (by omega)
  have hkey : keyAt p (14 + pkt.hlen) = keyAt p' (14 + pkt.hlen) := by
    have hport : p.mem.get16 (14 + pkt.hlen) = p'.mem.get16 (14 + pkt.hlen) := h16 0 (by omega)
    rw [keyAt, keyAt, ← hp, ← hp', h.src, h'.src, h.dst, h'.dst, hp, hp', h16 2 (by omega), hport]
  have htarget : tcpTarget host.tcp p (14 + pkt.hlen) rest.length =
      tcpTarget host.tcp p' (14 + pkt.hlen) rest'.length := by
    rw [tcpTarget, tcpTarget, if_neg (by simp only [tTcpHlen]; omega),
      if_neg (by simp only [tTcpHlen]; omega), hkey]
  refine ⟨htarget, fun i prev ht => ?_⟩
  obtain ⟨t, ht'⟩ : ∃ t, t = segmentAt p (14 + pkt.hlen) := ⟨_, rfl⟩
  obtain ⟨t', ht''⟩ : ∃ t, t = segmentAt p' (14 + pkt.hlen) := ⟨_, rfl⟩
  have hseq : t.seqno = t'.seqno := by
    rw [ht', ht'', segmentAt, segmentAt, tcphSeqno, tcphSeqno, h32 4 (by omega)]
  have hack : t.ackno = t'.ackno := by
    rw [ht', ht'', segmentAt, segmentAt, h32 8 (by omega)]
  have hflags : t.flags = t'.flags := by
    rw [ht', ht'', segmentAt, segmentAt, tTcphFlags, tTcphFlags, tTcphWord, tTcphWord,
      h16 12 (by omega)]
  have hwnd : t.wnd = t'.wnd := by
    rw [ht', ht'']
    exact h16 14 (by omega)
  have hacc : (host.tcp.pcb i).Accepts t ↔ (host.tcp.pcb i).Accepts t' := by
    rw [TcpPcb.Accepts, TcpPcb.Accepts, hack, hflags]
  rw [← ht', ← ht'']
  refine ⟨by rw [TcpPcb.NullUnacked, TcpPcb.NullUnacked, hflags], hacc, fun _ => hseq,
    fun _ => hwnd, fun ha => ?_⟩
  -- what is left is read behind the header, and shows in how the call ends and in the `mss`
  obtain ⟨s, r, hs, hr⟩ := hfound i prev ht
  obtain ⟨s', r', hs', hr'⟩ := hfound' i prev (htarget.symm.trans ht)
  rw [← ht'] at hs
  rw [← ht''] at hs'
  simp only at hr hr'
  rw [hr, hr'] at hsame
  obtain ⟨hhang, hmss⟩ := tTcpReceive_of_accepts (host.tcp.outEnv indet) cbRet host.tcp.pools
    (hs.accepts.mpr ha)
  obtain ⟨hhang', hmss'⟩ := tTcpReceive_of_accepts (host.tcp.outEnv indet) cbRet host.tcp.pools
    (hs'.accepts.mpr (hacc.mp ha))
  have hends : s.options = none ↔ s'.options = none := hhang.symm.trans (hsame.hangs.trans hhang')
  have hpcb := congrFun hsame.tcpPcb i
  simp only [TcpHost.setPcb_pcb_self] at hpcb
  rw [← hs.options, ← hs'.options]
  cases hopt : s.options with
  | none => rw [hends.mp hopt]
  | some m =>
      obtain ⟨m', hopt'⟩ := Option.ne_none_iff_exists'.mp fun hno => by
        rw [hends.mpr hno] at hopt
        cases hopt
      rw [hopt', Option.map_some, Option.map_some, ← hmss m hopt, ← hmss' m' hopt', hpcb]

end

/-! ## the two frames -/

/-- What the handler for the packet reads behind it makes no difference. -/
structure TrailersAlike (h : Host) (pkt : Ipv4Packet) (p p' : Pbuf) (trailer trailer' : List UInt8) :
    Prop where
  icmp : pkt.proto = tIpProtoIcmp → EchoAlike (pkt.body ++ trailer) (pkt.body ++ trailer')
  udp : pkt.proto = tIpProtoUdp →
    UdpAlike h.udp pkt.dst (pkt.body ++ trailer) (pkt.body ++ trailer')
  tcp : pkt.proto = tIpProtoTcp → SegmentsAlike h.tcp p p' (14 + pkt.hlen)
    (pkt.body ++ trailer).length (pkt.body ++ trailer').length

theorem holds_ethHeader {p : Pbuf} {pkt : Ipv4Packet} {dstMac srcMac : Vector UInt8 6}
    {trailer : List UInt8} (hp : Holds p (pkt.frame dstMac srcMac trailer)) {i : Nat}
    (hi : i < 14) : p.mem i = frameMem (ethHeader dstMac srcMac) i := by
  rw [hp.apply (by rw [pkt.length_frame]; omega), Ipv4Packet.frame,
    frameMem_append_left (by simpa using hi)]

/-- **Trailers**: two frames with the same IPv4 packet and different trailers
come to the same if what the handler reads behind the packet makes no
difference; and only then, if a TCP packet holds its TCP header. -/
theorem trailers_alike_iff (h : Host) (indet : Nat → Option Netif) (cbRet : ErrT) (netif : Netif)
    {dstMac srcMac : Vector UInt8 6} {pkt : Ipv4Packet} {trailer trailer' : List UInt8}
    {p p' : Pbuf} (hp : Holds p (pkt.frame dstMac srcMac trailer))
    (hp' : Holds p' (pkt.frame dstMac srcMac trailer'))
    (hfit : (pkt.frame dstMac srcMac trailer).length ≤ 1514)
    (hfit' : (pkt.frame dstMac srcMac trailer').length ≤ 1514) :
    (TrailersAlike h pkt p p' trailer trailer' →
      SameOutcome (tRawInput h indet cbRet netif p) (tRawInput h indet cbRet netif p')) ∧
    ((pkt.proto = tIpProtoTcp → 20 ≤ pkt.body.length) →
      SameOutcome (tRawInput h indet cbRet netif p) (tRawInput h indet cbRet netif p') →
        TrailersAlike h pkt p p' trailer trailer') := by
  obtain ⟨q, hdemux, hq, hmem⟩ := rawDemux_frame hp
  obtain ⟨q', hdemux', hq', hmem'⟩ := rawDemux_frame hp'
  have hge := pkt.hlen_ge
  rw [pkt.length_frame] at hfit hfit'
  have heth : ∀ i < 14, q.mem i = q'.mem i := fun i hi => by
    rw [hmem, hmem', holds_ethHeader hp hi, holds_ethHeader hp' hi]
  rw [(tRawInput_same h indet cbRet netif p).iff (tRawInput_same h indet cbRet netif p'), hdemux,
    hdemux']
  have hle : (pkt.body ++ trailer).length ≤ 1500 := by omega
  have hle' : (pkt.body ++ trailer').length ≤ 1500 := by omega
  -- without anything behind the header, the handlers for UDP and TCP would do nothing either
  have hudp : ∀ {rest : List UInt8} {q : Pbuf}, Received pkt rest q → SameOutcome
      (handle h indet cbRet netif (if rest.length = 0 then .drop (-1) else .udp, q))
      (handle h indet cbRet netif (.udp, q)) := by
    intro rest q hq
    split
    · next h0 =>
      obtain ⟨-, hends⟩ := handle_udp hq h indet cbRet netif
      have hno : ¬ UdpInOrder rest := fun hin => by have := hin.1; omega
      obtain ⟨ret, r, evs, heq, hnone, -⟩ := hends fun hh => hno hh.1
      rw [heq]
      exact sameOutcome_iff_seen.mpr (hnone fun i hi => hno hi.1).symm
    · exact SameOutcome.refl _
  have htcp : ∀ {rest : List UInt8} {q p : Pbuf}, Received pkt rest q → q.mem = p.mem → SameOutcome
      (handle h indet cbRet netif (if rest.length = 0 then .drop (-1) else .tcp, q))
      (handle h indet cbRet netif (.tcp, q)) := by
    intro rest q p hq hmem
    split
    · next h0 =>
      obtain ⟨-, hnone, -⟩ := handle_tcp hq hmem h indet cbRet netif
      obtain ⟨ret, r, heq⟩ := hnone (if_pos (by rw [h0]; decide))
      rw [heq]
      exact sameOutcome_iff_seen.mpr rfl
    · exact SameOutcome.refl _
  by_cases h1 : pkt.proto = tIpProtoIcmp
  · have hother : pkt.proto ≠ tIpProtoUdp ∧ pkt.proto ≠ tIpProtoTcp := by rw [h1]; decide
    rw [h1, show ipHandler tIpProtoIcmp.toUInt16 = .icmp from rfl,
      handle_icmp_iff hq hq' heth hle hle' h indet cbRet netif]
    exact ⟨fun ha => ha.icmp h1, fun _ he =>
      ⟨fun _ => he, fun h2 => absurd h2 hother.1, fun h3 => absurd h3 hother.2⟩⟩
  by_cases h2 : pkt.proto = tIpProtoUdp
  · have hother : pkt.proto ≠ tIpProtoTcp := by rw [h2]; decide
    rw [h2, show ipHandler tIpProtoUdp.toUInt16 = .udp from rfl, (hudp hq).iff (hudp hq'),
      handle_udp_iff hq hq' hle hle' h indet cbRet netif]
    exact ⟨fun ha => ha.udp h2, fun _ he =>
      ⟨fun hno => absurd hno h1, fun _ => he, fun h3 => absurd h3 hother⟩⟩
  by_cases h3 : pkt.proto = tIpProtoTcp
  · rw [h3, show ipHandler tIpProtoTcp.toUInt16 = .tcp from rfl,
      (htcp hq hmem).iff (htcp hq' hmem')]
    refine ⟨fun ha => handle_tcp_of_alike hq hq' hmem hmem' h indet cbRet netif (ha.tcp h3),
      fun h20 hs => ⟨fun hno => absurd hno h1, fun hno => absurd hno h2, fun _ => ?_⟩⟩
    have h20 := h20 rfl
    refine segmentsAlike_of_same hq hq' hmem hmem' h indet cbRet netif
      (by rw [List.length_append]; omega) (by rw [List.length_append]; omega) (fun i hi => ?_) hs
    rw [frameMem_append_left (by omega), frameMem_append_left (by omega)]
  · rw [ipHandler_drop h1 h2 h3]
    have hdrop : ∀ (b : Prop) [Decidable b] q, SameOutcome
        (handle h indet cbRet netif (if b then .drop (-1) else .drop 0, q))
        (.returns 0, q, h, []) := fun b _ q => by
      split <;> exact sameOutcome_iff_seen.mpr rfl
    exact ⟨fun _ => ((hdrop ..).trans (sameOutcome_iff_seen.mpr rfl)).trans (hdrop ..).symm,
      fun _ _ => ⟨fun h => absurd h h1, fun h => absurd h h2, fun h => absurd h h3⟩⟩

/-- An ICMP packet of type `type` without data, from 192.168.1.1 to
192.168.1.112. -/
def icmpPacket (type : UInt8) : Ipv4Packet where
  bytes := [0x45, 0, 0, 28, 0, 0, 0, 0, 64, 1, 0, 0, 192, 168, 1, 1, 192, 168, 1, 112,
    type, 0, 0, 0, 0, 0, 0, 0]
  ihl := 5
  vhl := rfl
  ihl_ge := by decide
  ihl_le := by decide
  totalLen := rfl
  hlen_le := Nat.le_of_ble_eq_true rfl

/-- The frame of such a packet with a trailer. -/
def icmpFrame (type : UInt8) (trailer : List UInt8) : List UInt8 :=
  (icmpPacket type).frame (.replicate 6 1) (.replicate 6 2) trailer

/-- A UDP packet with three bytes, from port 8837 of 192.168.1.101 to port 3308 of
192.168.1.112. -/
def udpThree : Ipv4Packet where
  bytes := [0x45, 0, 0, 31, 0, 0, 0, 0, 64, 17, 0, 0, 192, 168, 1, 101, 192, 168, 1, 112,
    0x22, 0x85, 0x0c, 0xec, 0, 11, 0, 0, 1, 2, 3]
  ihl := 5
  vhl := rfl
  ihl_ge := by decide
  ihl_le := by decide
  totalLen := rfl
  hlen_le := Nat.le_of_ble_eq_true rfl

theorem udpThree_body : udpThree.body = [0x22, 0x85, 0x0c, 0xec, 0, 11, 0, 0, 1, 2, 3] := by
  decide +kernel

theorem length_udpThree (b : UInt8) : (udpThree.body ++ [b]).length = 12 := by
  rw [udpThree_body]
  rfl

/-- The UDP header is in front of the trailer. -/
theorem udpThree_get16 (b : UInt8) {i : Nat} (hi : i + 2 ≤ 11) :
    (frameMem (udpThree.body ++ [b])).get16 i = (frameMem udpThree.body).get16 i := by
  have hlen : udpThree.body.length = 11 := by rw [udpThree_body]; rfl
  rw [ByteMem.get16, ByteMem.get16, frameMem_append_left (by omega),
    frameMem_append_left (by omega)]

theorem udpThree_reaches (b : UInt8) :
    UdpReaches Udp.receiver.udp udpThree.dst (udpThree.body ++ [b]) 0 := by
  refine ⟨⟨by rw [length_udpThree]; decide, ?_⟩, ?_, by decide +kernel⟩
  · rw [udpThree_get16 b (by omega), length_udpThree]
    decide +kernel
  · rw [udpTarget, udpThree_get16 b (by omega)]
    decide +kernel

theorem udpThree_alike (b b' : UInt8) : UdpAlike Udp.receiver.udp udpThree.dst
    (udpThree.body ++ [b]) (udpThree.body ++ [b']) := by
  have hends : ∀ b, ¬ UdpHangs Udp.receiver.udp udpThree.dst (udpThree.body ++ [b]) := fun b hh => by
    have htarget := (udpThree_reaches b).2.1
    rw [hh.2] at htarget
    exact absurd htarget nofun
  have hzero : ∀ b i, UdpReaches Udp.receiver.udp udpThree.dst (udpThree.body ++ [b]) i → i = 0 :=
    fun b i hi => by
      have htarget := (udpThree_reaches b).2.1
      rw [hi.2.1, Option.some_inj, Option.some_inj] at htarget
      exact htarget
  refine ⟨iff_of_false (hends b) (hends b'), fun i hi => ?_⟩
  obtain rfl : i = 0 := hi.elim (hzero b i) (hzero b' i)
  refine ⟨udpThree_reaches b, udpThree_reaches b', ?_, ?_⟩
  · rw [udpThree_get16 b (by omega), udpThree_get16 b' (by omega)]
  · rw [length_udpThree, length_udpThree]

theorem length_udpThree_frame (b : UInt8) :
    (udpThree.frame (.replicate 6 1) (.replicate 6 2) [b]).length ≤ 1514 := by
  rw [udpThree.length_frame, udpThree_body]
  exact Nat.le_of_ble_eq_true rfl

/-- A datagram that is delivered, with the byte 0 or the byte 1 behind it. -/
theorem trailers_alike_udpThree : (∀ b, UdpReaches Udp.receiver.udp udpThree.dst
      (udpThree.body ++ [b]) 0) ∧
    ∃ p p', Holds p (udpThree.frame (.replicate 6 1) (.replicate 6 2) [0]) ∧
      Holds p' (udpThree.frame (.replicate 6 1) (.replicate 6 2) [1]) ∧
      SameOutcome (tRawInput Udp.receiver (fun _ => none) 0 Udp.sampleNetif p)
        (tRawInput Udp.receiver (fun _ => none) 0 Udp.sampleNetif p') := by
  obtain ⟨p, hp⟩ := exists_holds (length_udpThree_frame 0)
  obtain ⟨p', hp'⟩ := exists_holds (length_udpThree_frame 1)
  have hproto : udpThree.proto = tIpProtoUdp := rfl
  refine ⟨udpThree_reaches, p, p', hp, hp', (trailers_alike_iff Udp.receiver (fun _ => none) 0
    Udp.sampleNetif hp hp' (length_udpThree_frame 0) (length_udpThree_frame 1)).1
      ⟨fun h1 => ?_, fun _ => udpThree_alike 0 1, fun h3 => ?_⟩⟩
  · rw [hproto] at h1
    exact absurd h1 (by decide)
  · rw [hproto] at h3
    exact absurd h3 (by decide)

/-- One more byte behind an echo request is one more byte in the reply. -/
theorem not_trailers_alike : ¬ ∀ (h : Host) (indet : Nat → Option Netif) (cbRet : ErrT)
    (netif : Netif) (dstMac srcMac : Vector UInt8 6) (pkt : Ipv4Packet)
    (trailer trailer' : List UInt8) (p p' : Pbuf),
    pkt.proto = tIpProtoIcmp ∨ pkt.proto = tIpProtoUdp ∨ pkt.proto = tIpProtoTcp →
    Holds p (pkt.frame dstMac srcMac trailer) → Holds p' (pkt.frame dstMac srcMac trailer') →
    (pkt.frame dstMac srcMac trailer).length ≤ 1514 →
    (pkt.frame dstMac srcMac trailer').length ≤ 1514 →
      SameOutcome (tRawInput h indet cbRet netif p) (tRawInput h indet cbRet netif p') := by
  intro hall
  obtain ⟨p, hp⟩ := exists_holds (show (icmpFrame 8 []).length ≤ 1514 by decide)
  obtain ⟨p', hp'⟩ := exists_holds (show (icmpFrame 8 [0]).length ≤ 1514 by decide)
  have hsame := hall Udp.receiver (fun _ => none) 0 Udp.sampleNetif _ _ _ _ _ p p' (.inl rfl) hp hp'
    (by decide) (by decide)
  obtain ⟨q, hdemux, hq, hmem⟩ := rawDemux_frame hp
  obtain ⟨q', hdemux', hq', hmem'⟩ := rawDemux_frame hp'
  rw [(tRawInput_same ..).iff (tRawInput_same ..), hdemux, hdemux',
    show ipHandler (icmpPacket 8).proto.toUInt16 = .icmp from rfl,
    handle_icmp_iff hq hq' (fun i hi => by rw [hmem, hmem', holds_ethHeader hp hi,
      holds_ethHeader hp' hi]) (by decide) (by decide)] at hsame
  exact absurd (hsame (Or.inl (by decide))).2.1 (by decide)

end TTcp
