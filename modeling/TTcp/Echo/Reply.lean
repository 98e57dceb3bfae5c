import TTcp.Echo
import TTcp.Checksum
import TTcp.Udp.RoundTrip

/-!
# TTcp.Echo.Reply

What an echo request gets back.

The word with type and code is swapped when it is read but not when it is
written, so the reply has the request's type in its code field.  Otherwise it
is the reply it should be, but for one header length: with seven words of
header the new time to live and protocol land on the destination address
before it is read (`echo_reply`).
-/

namespace TTcp

open OnesSum

/-- An echo request, with both its checksums right. -/
structure EchoRequest (req : Ipv4Packet) : Prop where
  chksum : onesSum (req.bytes.take req.hlen) = 0xffff
  proto : req.proto = tIpProtoIcmp
  length : 8 ≤ req.body.length
  type : frameMem req.body 0 = tIcmpEchoRequest
  code : frameMem req.body 1 = 0
  icmpChksum : onesSum req.body = 0xffff

/-- `T_ICMP_ECHO_REPLY`. -/
@[simp] def tIcmpEchoReply : UInt8 := 0

/-- What stands behind the IP header of a frame, as the header says. -/
def frameBody (frame : List UInt8) : List UInt8 :=
  frame.drop (14 + 4 * ((frameMem frame 14).toNat % 16))

/-- The frame is the reply to the request. -/
structure EchoReply (req : Ipv4Packet) (frame : List UInt8) : Prop where
  dst : (frameMem frame).get32 30 = req.src
  type : frameMem (frameBody frame) 0 = tIcmpEchoReply
  code : frameMem (frameBody frame) 1 = 0
  /-- identifier, sequence number and data -/
  rest : (frameBody frame).drop 4 = req.body.drop 4
  chksum : onesSum (frameBody frame) = 0xffff

/-! ## the bytes of the reply -/

section
variable {p : Pbuf} {echo : Nat} (h34 : 34 ≤ echo)
include h34

/-- The type of the request becomes the code of the reply. -/
theorem icmpReplyWrite_typeCode : (icmpReplyWrite p 14 echo).mem.get16 echo =
    (p.mem echo).toUInt16 <<< (8 : UInt16) := by
  simp only [icmpReplyWrite, Pbuf.rd32_fst, Pbuf.rd32_snd, Pbuf.rd16_fst, Pbuf.rd16_snd,
    Pbuf.set16_mem, Pbuf.set32_mem, Pbuf.see_mem]
  rw [ByteMem.get16_set16_of_disjoint _ _ (by omega), ByteMem.get16_set16_of_disjoint _ _ (by omega),
    ByteMem.get16_set16_self, htons_get16_high, ByteMem.set32_apply_of_disjoint _ _ (by omega),
    ByteMem.set32_apply_of_disjoint _ _ (by omega)]

/-- The addresses are exchanged. -/
theorem icmpReplyWrite_dst : (icmpReplyWrite p 14 echo).mem.get32 30 = p.mem.get32 26 := by
  simp only [icmpReplyWrite, Pbuf.rd32_fst, Pbuf.rd32_snd, Pbuf.rd16_fst, Pbuf.rd16_snd,
    Pbuf.set16_mem, Pbuf.set32_mem, Pbuf.see_mem]
  rw [ByteMem.get32_set16_of_disjoint _ _ (by omega), ByteMem.get32_set16_of_disjoint _ _ (by omega),
    ByteMem.get32_set16_of_disjoint _ _ (by omega)]
  exact ByteMem.get32_set32_self ..

/-- The reply verifies. -/
theorem icmpReplyWrite_chksum (hpay : p.payload = echo) (hlen : 4 ≤ p.totLen.toNat) (hne : p.mem echo ≠ 0) :
    onesSum (icmpReplyWrite p 14 echo).bytes = 0xffff := by
  have htype := icmpReplyWrite_typeCode (p := p) h34
  have hlt := p.totLen.toNat_lt
  obtain ⟨q, hq, hqpay, hqtot, hzero⟩ : ∃ q : Pbuf, icmpReplyWrite p 14 echo =
      q.set16 (echo + 2) (tInetChksum q.bytes) ∧ q.payload = echo ∧ q.totLen = p.totLen ∧
        q.mem.get16 (echo + 2) = 0 := by
    refine ⟨_, rfl, by simp [hpay], by simp, ?_⟩
    simp only [Pbuf.see_mem, Pbuf.set16_mem]
    exact ByteMem.get16_set16_self ..
  have hset := sumLE_slice_set16 q.mem echo (k := 2) (n := p.totLen.toNat) (by omega) (by omega)
    hzero (tInetChksum q.bytes)
  have hbytes : (icmpReplyWrite p 14 echo).bytes =
      (q.mem.set16 (echo + 2) (tInetChksum q.bytes)).slice echo p.totLen.toNat := by
    rw [hq, Pbuf.bytes, Pbuf.set16_payload, Pbuf.set16_totLen, Pbuf.set16_mem, hqpay, hqtot]
  have hqbytes : q.bytes = q.mem.slice echo p.totLen.toNat := by rw [Pbuf.bytes, hqpay, hqtot]
  rw [onesSum_eq_iff]
  constructor
  · rw [hbytes, hset, ← hqbytes]
    exact dvd_tInetChksum (by rw [Pbuf.length_bytes, hqtot]; exact hlt)
  · obtain ⟨r, hr⟩ : ∃ r, p.totLen.toNat = 2 + r := ⟨p.totLen.toNat - 2, by omega⟩
    obtain ⟨hpay', htot', -⟩ := icmpReplyWrite_spec p 14 echo
    have hpos : (p.mem echo).toNat ≠ 0 := fun h0 => hne (UInt8.toNat_inj.1 h0)
    have hword : ((p.mem echo).toUInt16 <<< (8 : UInt16)).toNat = 256 * (p.mem echo).toNat := by
      have hb := (p.mem echo).toNat_lt
      simp [UInt16.toNat_shiftLeft, Nat.shiftLeft_eq]
      omega
    rw [Pbuf.bytes, hpay', hpay, htot', hr, sumLE_slice_add _ _ (by omega), sumLE_slice_two, htype,
      hword]
    omega

end

/-! ## the frame of the reply -/

/-- The destination that `t_ip_output` writes when it is given as a pointer
into the packet: what stands there after time to live and protocol are
written. -/
theorem ipHdrWrite_pkt (p : Pbuf) (h : Nat) (src : UInt32) (o : Nat) (ttl tos proto : UInt8) :
    ipHdrWrite p h src (.pkt o) ttl tos proto = ipHdrWrite p h src
      (.val ((tIphProtoSet (tIphTtlSet p h ttl) h proto).mem.get32 o)) ttl tos proto := by
  simp only [ipHdrWrite, ipHdrDstSet, AddrPtr.read]

theorem ipFrame_pkt (p : Pbuf) (netif : Netif) (src : UInt32) (o : Nat) (ttl tos proto : UInt8) :
    ∃ q, q = (tPbufHeader p (-20)).2 ∧ ipFrame p netif src (.pkt o) ttl tos proto =
      ipFrame p netif src (.val ((tIphProtoSet (tIphTtlSet q q.payload ttl) q.payload
        proto).mem.get32 o)) ttl tos proto := by
  refine ⟨_, rfl, ?_⟩
  simp only [ipFrame, ipHdrWrite_pkt, getMacFromIp]

/-- Behind an IP header of twenty bytes stands the packet that was sent. -/
theorem frameBody_ipFrame {p : Pbuf} {h : Nat} (hp : p.payload = h + 34) (hlt : h < 1467)
    (htot : p.totLen.toNat + 34 < 65536) (netif : Netif) (src dst : UInt32) (ttl tos proto : UInt8) :
    frameBody (ipFrame p netif src (.val dst) ttl tos proto).bytes = p.bytes := by
  have hf := ipFrame_fields hp hlt netif src dst ttl tos proto
  have hdrop := ipFrame_bytes_drop hp hlt htot netif src (.val dst) ttl tos proto
  obtain ⟨f, hfdef⟩ : ∃ f, f = ipFrame p netif src (.val dst) ttl tos proto := ⟨_, rfl⟩
  rw [← hfdef] at hf hdrop ⊢
  have hftot : f.totLen.toNat = p.totLen.toNat + 34 := by
    rw [hf.totLen, UInt16.toNat_add, show (34 : UInt16).toNat = 34 from rfl]
    omega
  have hword := congrArg (fun w => (htons w).toNat) hf.vhltos
  have hbyte := toNat_byte_or 69 (by omega) tos
  have h15 := (f.mem (h + 14 + 1)).toNat_lt
  have htos := tos.toNat_lt
  rw [show (UInt16.ofNat (256 * 69)) = 0x4500 from rfl] at hbyte
  simp only [htons_htons, hbyte, toNat_htons_get16] at hword
  have hihl : (frameMem f.bytes 14).toNat % 16 = 5 := by
    rw [frameMem_apply _ (by omega), hf.payload]
    omega
  rw [frameBody, hihl]
  exact hdrop

/-- **What an echo request gets back**: one frame, the right reply but for the
code, which is the request's type, and but for the destination if the request
has seven words of header. -/
theorem echo_reply {req : Ipv4Packet} (hreq : EchoRequest req) {p : Pbuf}
    {dstMac srcMac : Vector UInt8 6} (hp : Holds p (req.frame dstMac srcMac []))
    (hfit : (req.frame dstMac srcMac []).length ≤ 1514) (h : Host) (indet : Nat → Option Netif)
    (cbRet : ErrT) (netif : Netif) : ∃ frame,
      frames (tRawInput h indet cbRet netif p).2.2.2 = [(netif, frame)] ∧
      (req.ihl ≠ 7 → (frameMem frame).get32 30 = req.src) ∧
      frameMem (frameBody frame) 0 = tIcmpEchoReply ∧
      frameMem (frameBody frame) 1 = tIcmpEchoRequest ∧
      (frameBody frame).drop 4 = req.body.drop 4 ∧ onesSum (frameBody frame) = 0xffff := by
  obtain ⟨q, hdemux, hq, -⟩ := rawDemux_frame hp
  have hlen := hreq.length
  have hge := req.hlen_ge
  have hle := req.hlen_le_sixty
  rw [req.length_frame, List.append_nil] at hfit
  rw [List.append_nil] at hdemux hq
  rw [if_neg (by omega), hreq.proto, show ipHandler tIpProtoIcmp.toUInt16 = .icmp from rfl] at hdemux
  obtain ⟨e, he⟩ := tIcmpInput_frames hq (by omega) h.tcp.net netif
  obtain ⟨r, hr⟩ : ∃ r : Pbuf, r = { q with
      payload := 14 + req.hlen
      totLen := UInt16.ofNat req.body.length
      len := UInt16.ofNat req.body.length
      rdEnd := e } := ⟨_, rfl⟩
  simp only [← hr, hreq.type, ↓reduceIte] at he
  have hrpay : r.payload = 14 + req.hlen := by rw [hr]
  have hrtot : r.totLen.toNat = req.body.length := by
    rw [hr, UInt16.toNat_ofNat_of_lt' (show _ < 65536 by omega)]
  have hrmem : r.mem = q.mem := by rw [hr]
  have hrbytes : r.bytes = req.body := by
    rw [Pbuf.bytes, hrpay, hrtot, hrmem]
    exact List.ext_getElem (by simp) fun i h1 h2 => by
      rw [ByteMem.getElem_slice, hq.rest i h2, frameMem, ByteMem.ofList_apply_of_lt _ h2]
  have htype : r.mem (14 + req.hlen) = tIcmpEchoRequest := by
    rw [hrmem, ← hreq.type]
    exact hq.rest 0 (by omega)
  obtain ⟨t, ht⟩ : ∃ t, t = icmpReplyWrite r 14 (14 + req.hlen) := ⟨_, rfl⟩
  obtain ⟨htpay, httot, -, htmem⟩ := icmpReplyWrite_spec r 14 (14 + req.hlen)
  have htc := icmpReplyWrite_typeCode (p := r) (show 34 ≤ 14 + req.hlen by omega)
  have hchk := icmpReplyWrite_chksum (by omega) hrpay (by omega) (by rw [htype]; decide)
  have hdrop := icmpReplyWrite_bytes_drop hrpay (by omega)
  rw [← ht] at he htpay httot htmem htc hchk hdrop
  rw [htype] at htc
  have htbyte : ∀ i < 2, frameMem t.bytes i = t.mem (14 + req.hlen + i) := fun i hi => by
    rw [frameMem_apply _ (by rw [httot, hrtot]; omega), htpay, hrpay]
  -- the frame, with the destination that is read out of it
  obtain ⟨u, hu⟩ : ∃ u, u = t.see 24 := ⟨_, rfl⟩
  have hupay : u.payload = req.hlen - 20 + 34 := by
    rw [hu, Pbuf.see_payload, htpay, hrpay]
    omega
  have hubytes : u.bytes = t.bytes := by rw [hu]; rfl
  have hutot : u.totLen.toNat = req.body.length := by rw [hu, Pbuf.see_totLen, httot, hrtot]
  obtain ⟨v, hv, hframe⟩ := ipFrame_pkt u netif netif.ipAddr 30
    (htons (q.mem.get16 22) >>> 8).toUInt8 0 tIpProtoIcmp
  rw [← hu, hframe] at he
  have hbody := frameBody_ipFrame hupay (by omega) (by omega) netif netif.ipAddr
    ((tIphProtoSet (tIphTtlSet v v.payload (htons (q.mem.get16 22) >>> 8).toUInt8) v.payload
      tIpProtoIcmp).mem.get32 30) (htons (q.mem.get16 22) >>> 8).toUInt8 0 tIpProtoIcmp
  have hfields := ipFrame_fields hupay (by omega) netif netif.ipAddr
    ((tIphProtoSet (tIphTtlSet v v.payload (htons (q.mem.get16 22) >>> 8).toUInt8) v.payload
      tIpProtoIcmp).mem.get32 30) (htons (q.mem.get16 22) >>> 8).toUInt8 0 tIpProtoIcmp
  generalize hg : ipFrame u netif netif.ipAddr (.val _) _ 0 tIpProtoIcmp = g at he hbody hfields
  refine ⟨g.bytes, ?_, ?_⟩
  · rw [tRawInput_evs, hdemux]
    exact he
  have hgpay : g.payload = req.hlen - 20 := hfields.payload
  have hgtot : g.totLen.toNat = req.body.length + 34 := by
    rw [hfields.totLen, UInt16.toNat_add, show (34 : UInt16).toNat = 34 from rfl]
    omega
  rw [hbody, hubytes]
  have hbytes : (t.mem (14 + req.hlen)).toNat = 0 ∧ (t.mem (14 + req.hlen + 1)).toNat = 8 := by
    have hword := congrArg UInt16.toNat htc
    have h0 := (t.mem (14 + req.hlen)).toNat_lt
    have h1 := (t.mem (14 + req.hlen + 1)).toNat_lt
    rw [ByteMem.get16, toNat_word,
      show (tIcmpEchoRequest.toUInt16 <<< (8 : UInt16)).toNat = 2048 from rfl] at hword
    omega
  refine ⟨fun h7 => ?_, ?_, ?_, ?_, hchk⟩
  · have h28 : req.hlen ≠ 28 := by
      unfold Ipv4Packet.hlen
      omega
    have hmod : req.hlen % 4 = 0 := by
      unfold Ipv4Packet.hlen
      omega
    have hvpay : v.payload = req.hlen - 6 := by
      rw [hv, show (-20 : Int) = -((20 : Nat) : Int) from rfl,
        tPbufHeader_push u (by omega) (by omega), hupay]
      show req.hlen - 20 + 34 - 20 = req.hlen - 6
      omega
    rw [frameMem_get32 _ (by omega), hgpay, hfields.dst, tIphProtoSet, tIphTtlSet, Pbuf.set16_mem,
      Pbuf.set16_mem, ByteMem.get32_set16_of_disjoint _ _ (by omega),
      ByteMem.get32_set16_of_disjoint _ _ (by omega), hv, tPbufHeader_mem, hu, Pbuf.see_mem, ht,
      icmpReplyWrite_dst (by omega), hrmem, hq.src]
  · rw [htbyte 0 (by omega)]
    exact UInt8.toNat_inj.1 hbytes.1
  · rw [htbyte 1 (by omega)]
    exact UInt8.toNat_inj.1 hbytes.2
  · rw [hdrop, hrbytes]

/-- What `t_icmp_input` should do: answer the request with its reply. -/
def EchoAnswers (req : Ipv4Packet) (netif : Netif) (out : List (Netif × List UInt8)) : Prop :=
  ∃ frame, out = [(netif, frame)] ∧ EchoReply req frame

theorem EchoAnswers.code {req : Ipv4Packet} {netif : Netif} {out : List (Netif × List UInt8)}
    (h : EchoAnswers req netif out) {frame : List UInt8} (hout : out = [(netif, frame)]) :
    frameMem (frameBody frame) 1 = 0 := by
  obtain ⟨frame', hframe, hreply⟩ := h
  obtain rfl : frame = frame' := by
    rw [hout] at hframe
    simpa using hframe
  exact hreply.code

/-- **No echo request is answered right**: the code of the reply is 8. -/
theorem not_echo_answers {req : Ipv4Packet} (hreq : EchoRequest req) {p : Pbuf}
    {dstMac srcMac : Vector UInt8 6} (hp : Holds p (req.frame dstMac srcMac []))
    (hfit : (req.frame dstMac srcMac []).length ≤ 1514) (h : Host) (indet : Nat → Option Netif)
    (cbRet : ErrT) (netif : Netif) :
    ¬ EchoAnswers req netif (frames (tRawInput h indet cbRet netif p).2.2.2) := by
  intro hans
  obtain ⟨frame, hframe, -, -, hcode, -⟩ := echo_reply hreq hp hfit h indet cbRet netif
  exact absurd (hcode.symm.trans (hans.code hframe)) (by decide)

/-- The request of 192.168.1.1 to 192.168.1.112, without data. -/
def ping : Ipv4Packet where
  bytes := [0x45, 0, 0, 28, 0, 0, 0, 0, 64, 1, 0xf7, 0x1f, 192, 168, 1, 1, 192, 168, 1, 112,
    8, 0, 0xf7, 0xff, 0, 0, 0, 0]
  ihl := 5
  vhl := rfl
  ihl_ge := le_rfl
  ihl_le := le_of_lt (by decide)
  totalLen := rfl
  hlen_le := Nat.le_of_ble_eq_true rfl

theorem ping_request : EchoRequest ping :=
  ⟨by decide, by decide, by decide, by decide, by decide, by decide⟩

open Udp in
theorem not_echo_answers_ping : ∃ p, Holds p (ping.frame (.replicate 6 1) (.replicate 6 2) []) ∧
    ¬ EchoAnswers ping sampleNetif
      (frames (tRawInput receiver (fun _ => none) 0 sampleNetif p).2.2.2) := by
  have hfit : (ping.frame (.replicate 6 1) (.replicate 6 2) []).length ≤ 1514 := by decide
  obtain ⟨p, hp⟩ := exists_holds hfit
  exact ⟨p, hp, not_echo_answers ping_request hp hfit receiver (fun _ => none) 0 sampleNetif⟩

open Udp in
/-- The request is answered with code 8. -/
theorem echo_answers_fails : ¬ ∀ (req : Ipv4Packet) (p : Pbuf) (dstMac srcMac : Vector UInt8 6)
    (h : Host) (indet : Nat → Option Netif) (cbRet : ErrT) (netif : Netif), EchoRequest req →
    Holds p (req.frame dstMac srcMac []) → (req.frame dstMac srcMac []).length ≤ 1514 →
      EchoAnswers req netif (frames (tRawInput h indet cbRet netif p).2.2.2) := by
  intro hall
  have hfit : (ping.frame (.replicate 6 1) (.replicate 6 2) []).length ≤ 1514 := by decide
  obtain ⟨p, hp⟩ := exists_holds hfit
  have hans := hall ping p _ _ receiver (fun _ => none) 0 sampleNetif ping_request hp hfit
  obtain ⟨frame, hframe, -, -, hcode, -⟩ := echo_reply ping_request hp hfit receiver
    (fun _ => none) 0 sampleNetif
  exact absurd (hcode.symm.trans (hans.code hframe)) (by decide)

end TTcp
