import TTcp.Arp
import TTcp.Udp.Datagram
import TTcp.Tcp.Host

/-!
# TTcp.Raw

The way of a received frame through the stack: `t_raw_input` and `t_ip_input`
(`core/t_ip.c`) choose the handler by the fields of the Ethernet and IP
headers, and `t_icmp_input` (`core/t_icmp.c`) answers echo requests in place.

Nothing is checked before a field is looked at, so every read is recorded in
the pbuf.
-/

namespace TTcp

/-! ## ICMP -/

@[simp] def tIcmpEchoRequest : UInt8 := 8

/-- The echo reply that `t_icmp_input` makes of the request at `echo`. -/
def icmpReplyWrite (p : Pbuf) (iphdr echo : Nat) : Pbuf :=
  let (src, p) := p.rd32 (iphdr + 12)
  let (dst, p) := p.rd32 (iphdr + 16)
  let p := p.set32 (iphdr + 12) dst
  let p := p.set32 (iphdr + 16) src
  let (typeCode, p) := p.rd16 echo
  let p := p.set16 echo (htons typeCode &&& 0xff00)
  let p := p.set16 (echo + 2) 0
  let p := p.see (p.payload + p.totLen.toNat)
  p.set16 (echo + 2) (tInetChksum p.bytes)

/-- `t_icmp_input`, for the interface `netif`. -/
def tIcmpInput (net : Net) (netif : Netif) (p : Pbuf) : Int × Pbuf × List Event :=
  let iphdr := p.payload
  let (vhl, p) := p.rd16 iphdr
  let hlen := ((htons vhl >>> 8) &&& 0x0f).toNat * 4
  if hlen < 100 then
    let (_, p) := tPbufHeader p hlen
    let (type, p) := p.rd8 p.payload
    if type = tIcmpEchoRequest then
      let p := icmpReplyWrite p iphdr p.payload
      let (ttlProto, p) := p.rd16 (iphdr + 8)
      let (_, p, evs) := tIpOutput net none (.value (some netif)) p none (.pkt (iphdr + 16))
        (htons ttlProto >>> 8).toUInt8 0 tIpProtoIcmp
      (0, p, evs)
    else (0, p, [])
  else (0, p, [])

/-! ## choosing the handler -/

/-- What becomes of a packet: the handler that gets it, or the value it is
dropped with. -/
inductive Handler where
  | arp
  | icmp
  | udp
  | tcp
  | drop (ret : Int)
deriving DecidableEq, Repr

/-- The `switch` of `t_ip_input` over the protocol. -/
def ipHandler (proto : UInt16) : Handler :=
  if proto = tIpProtoIcmp.toUInt16 then .icmp
  else if proto = tIpProtoUdp.toUInt16 then .udp
  else if proto = tIpProtoTcp.toUInt16 then .tcp
  else .drop 0

/-- Packets of other protocols are dropped. -/
theorem ipHandler_drop {proto : UInt8} (h1 : proto ≠ tIpProtoIcmp) (h2 : proto ≠ tIpProtoUdp)
    (h3 : proto ≠ tIpProtoTcp) : ipHandler proto.toUInt16 = .drop 0 := by
  have hinj : ∀ b : UInt8, proto ≠ b → proto.toUInt16 ≠ b.toUInt16 := fun b hb heq =>
    hb (UInt8.toNat_inj.1 (by simpa using congrArg UInt16.toNat heq))
  rw [ipHandler, if_neg (hinj _ h1), if_neg (hinj _ h2), if_neg (hinj _ h3)]

/-- `t_ip_input` up to its `switch`.  The payload pointer is left on the IP
header. -/
def ipDemux (p : Pbuf) : Handler × Pbuf :=
  let (_, p) := tPbufHeader p 14
  let iphdr := p.payload
  let (vhl, p) := p.rd16 iphdr
  if htons vhl >>> 12 ≠ 4 then (.drop (-1), p)
  else
    let iphdrlen := ((htons vhl >>> 8) &&& 0x0f).toNat * 4
    if p.len.toNat > iphdrlen then
      let (ttlProto, p) := p.rd16 (iphdr + 8)
      (ipHandler (htons ttlProto &&& 0xff), p)
    else (.drop (-1), p)

/-- `t_raw_input` and `t_ip_input` up to the handler. -/
def rawDemux (p : Pbuf) : Handler × Pbuf :=
  let (frameType, p) := p.rd16 (p.payload + 12)
  if htons frameType = tArpFrameType then (.arp, p)
  else if htons frameType = tIpv4FrameType then ipDemux p
  else (.drop (-1), p)

/-! ## a host -/

/-- The whole state of the stack. -/
structure Host where
  tcp : TcpHost
  udp : Udp
  arpTable : ArpTable

namespace Host

/-- The free pbufs. -/
def pbufPool (h : Host) : List Pbuf := h.tcp.pools.pbufPool

/-- Replace the free pbufs. -/
def setPbufPool (h : Host) (pbufPool : List Pbuf) : Host :=
  { h with tcp.pools.pbufPool := pbufPool }

end Host

/-- The handlers on a packet.  The callback of a UDP control block is an
event, and does nothing to the packet here. -/
def handle (h : Host) (indet : Nat → Option Netif) (cbRet : ErrT) (netif : Netif) :
    Handler × Pbuf → Fate × Pbuf × Host × List Event
  | (.arp, p) =>
      let (ret, p, arpTable, evs) := tArpInput h.arpTable netif p
      (.returns ret, p, { h with arpTable }, evs)
  | (.icmp, p) =>
      let (ret, p, evs) := tIcmpInput h.tcp.net netif p
      (.returns ret, p, h, evs)
  | (.udp, p) =>
      match tUdpInput h.udp p with
      | none => (.hangs, p, h, [])
      | some (ret, p, evs) => (.returns ret, p, h, evs)
  | (.tcp, p) =>
      let (out, p, tcp) := tTcpInput h.tcp indet cbRet p
      (out.fate, p, { h with tcp }, out.evs)
  | (.drop ret, p) => (.returns ret, p, h, [])

theorem handle_tcp_eq (h : Host) (indet : Nat → Option Netif) (cbRet : ErrT) (netif : Netif)
    (p : Pbuf) : handle h indet cbRet netif (.tcp, p) = ((tTcpInput h.tcp indet cbRet p).1.fate,
      (tTcpInput h.tcp indet cbRet p).2.1, { h with tcp := (tTcpInput h.tcp indet cbRet p).2.2 },
      (tTcpInput h.tcp indet cbRet p).1.evs) := by
  simp only [handle]

/-- `t_raw_input`.  The packet is freed if the handler returns. -/
def tRawInput (h : Host) (indet : Nat → Option Netif) (cbRet : ErrT) (netif : Netif) (p : Pbuf) :
    Fate × Pbuf × Host × List Event :=
  match handle h indet cbRet netif (rawDemux p) with
  | (.returns ret, p, h, evs) =>
      (.returns ret, p, h.setPbufPool (tPbufFree h.pbufPool [p]).2, evs)
  | r => r

/-- Freeing the packet is no event. -/
theorem tRawInput_evs (h : Host) (indet : Nat → Option Netif) (cbRet : ErrT) (netif : Netif)
    (p : Pbuf) : (tRawInput h indet cbRet netif p).2.2.2 =
      (handle h indet cbRet netif (rawDemux p)).2.2.2 := by
  unfold tRawInput
  generalize handle h indet cbRet netif (rawDemux p) = r
  obtain ⟨fate, q, h', evs⟩ := r
  cases fate <;> rfl

/-! ## a frame in a buffer -/

/-- `ether0_recv_data` up to `t_tcpip_input`: copy a frame into a fresh pbuf,
if there is one. -/
def ether0RecvData (pool : List Pbuf) (frame : List UInt8) : Option Pbuf × List Pbuf :=
  match tPbufAlloc pool 0 (UInt16.ofNat frame.length) tPbufFlagPool with
  | (none, pool) => (none, pool)
  | (some p, pool) => (some (tPbufCopyData p (frameMem frame) frame.length).2, pool)

/-- A fresh pbuf with a frame in it. -/
structure Holds (p : Pbuf) (frame : List UInt8) : Prop where
  payload : p.payload = 0
  totLen : p.totLen.toNat = frame.length
  len : p.len = p.totLen
  ref : p.ref = 1
  bytes : p.bytes = frame

theorem ether0RecvData_holds {pool pool' : List Pbuf} {frame : List UInt8}
    (hlt : frame.length < 65536) {p : Pbuf} (h : ether0RecvData pool frame = (some p, pool')) :
    Holds p frame := by
  unfold ether0RecvData at h
  split at h
  · simp at h
  · next q _ halloc =>
    obtain ⟨rfl, -⟩ : (tPbufCopyData q (frameMem frame) frame.length).2 = p ∧ _ := by
      simpa using h
    obtain ⟨-, -, r, -, hq⟩ := tPbufAlloc_eq_some halloc
    have hlen : q.len.toNat = frame.length := by
      rw [hq]
      exact UInt16.toNat_ofNat_of_lt' hlt
    have hcopy : (tPbufCopyData q (frameMem frame) frame.length).2 =
        q.memcpy 0 (frameMem frame) frame.length := by
      unfold tPbufCopyData
      split
      · next hbad =>
        have hzero : frame.length = 0 := by omega
        rw [hzero, Pbuf.memcpy, ByteMem.copy_zero, if_pos rfl]
      · rw [hq]
        rfl
    rw [hcopy]
    refine ⟨by rw [hq]; rfl, ?_, by rw [hq]; rfl, by rw [hq]; rfl, ?_⟩
    · rw [Pbuf.memcpy_totLen, ← hlen, hq]
    · have htot : q.totLen.toNat = frame.length := by rw [← hlen, hq]
      have hpay : q.payload = 0 := by rw [hq]; rfl
      rw [Pbuf.bytes, Pbuf.memcpy_payload, Pbuf.memcpy_totLen, Pbuf.memcpy_mem, htot, hpay]
      calc (q.mem.copy 0 (frameMem frame) frame.length).slice 0 frame.length
          = (frameMem frame).slice 0 frame.length := ByteMem.slice_congr fun i hi => by
            rw [ByteMem.copy_apply_of_mem _ _ (by omega) (by omega), Nat.sub_zero]
        _ = frame := ByteMem.slice_ofList _ _

/-- A frame whose length fits, in its lower half, finds room in a free pbuf. -/
theorem ether0RecvData_cons (p : Pbuf) (pool : List Pbuf) {frame : List UInt8}
    (h : frame.length % 65536 ≤ 1514) :
    ∃ q, ether0RecvData (p :: pool) frame = (some q, pool) := by
  have hfit : (UInt16.ofNat frame.length + 0).toNat ≤ 1514 := by
    rw [UInt16.add_zero, UInt16.toNat_ofNat']
    exact h
  rw [ether0RecvData, tPbufAlloc_pool _ _ _ hfit]
  exact ⟨_, rfl⟩

/-- A frame that fits into a pbuf is held by one. -/
theorem exists_holds {frame : List UInt8} (h : frame.length ≤ 1514) : ∃ p, Holds p frame := by
  obtain ⟨p, hp⟩ := ether0RecvData_cons (arpPacket []) [] (show frame.length % 65536 ≤ 1514 by omega)
  exact ⟨p, ether0RecvData_holds (by omega) hp⟩

/-! ## frames of any length -/

/-- The frame is dropped and no pbuf taken, or the pbuf that is handed on is the
frame. -/
def FrameIntact (pool : List Pbuf) (frame : List UInt8) : Prop :=
  match ether0RecvData pool frame with
  | (none, pool') => pool' = pool
  | (some p, _) => p.len.toNat = frame.length ∧ p.totLen.toNat = frame.length ∧ p.bytes = frame

/-- The length of a fresh pbuf is the lower half of what the driver reports. -/
theorem ether0RecvData_len {pool pool' : List Pbuf} {frame : List UInt8} {p : Pbuf}
    (h : ether0RecvData pool frame = (some p, pool')) :
    p.len.toNat = frame.length % 65536 := by
  unfold ether0RecvData at h
  split at h
  · simp at h
  · next q _ halloc =>
    obtain ⟨-, -, r, -, hq⟩ := tPbufAlloc_eq_some halloc
    have hp : (tPbufCopyData q (frameMem frame) frame.length).2 = p :=
      Option.some.inj (congrArg Prod.fst h)
    have hlen : (tPbufCopyData q (frameMem frame) frame.length).2.len = q.len := by
      unfold tPbufCopyData
      split <;> rfl
    rw [← hp, hlen, hq]
    exact UInt16.toNat_ofNat'

/-- Too long a lower half, or an empty pool, and the frame is dropped. -/
theorem ether0RecvData_drop {pool : List Pbuf} {frame : List UInt8}
    (h : 1514 < frame.length % 65536 ∨ pool = []) : ether0RecvData pool frame = (none, pool) := by
  have halloc : tPbufAlloc pool 0 (UInt16.ofNat frame.length) tPbufFlagPool = (none, pool) := by
    by_cases hlong : 1514 < frame.length % 65536
    · refine tPbufAlloc_refused pool (Or.inl ?_)
      rw [UInt16.add_zero, UInt16.toNat_ofNat']
      exact hlong
    · rw [h.resolve_left hlong, tPbufAlloc_pool _ _ _ (by
        rw [UInt16.add_zero, UInt16.toNat_ofNat']
        exact not_lt.mp hlong)]
  rw [ether0RecvData, halloc]

/-- Past 16 bits, the frame is allocated for by its lower half and not copied. -/
theorem not_frameIntact {pool : List Pbuf} {frame : List UInt8} (hlong : 65536 ≤ frame.length)
    (hlow : frame.length % 65536 ≤ 1514) (hpool : pool ≠ []) : ¬ FrameIntact pool frame := by
  obtain ⟨p, rest, rfl⟩ := List.exists_cons_of_ne_nil hpool
  obtain ⟨q, hq⟩ := ether0RecvData_cons p rest hlow
  have hlen := ether0RecvData_len hq
  rw [FrameIntact, hq]
  rintro ⟨hbad, -⟩
  omega

/-- **Frames enter intact** exactly when their length is a 16-bit number, or its
lower half is too long for a pbuf, or there is no pbuf. -/
theorem frameIntact_iff (pool : List Pbuf) (frame : List UInt8) :
    FrameIntact pool frame ↔
      frame.length < 65536 ∨ 1514 < frame.length % 65536 ∨ pool = [] := by
  constructor
  · intro h
    by_contra hno
    push Not at hno
    obtain ⟨hlong, hlow, hpool⟩ := hno
    exact not_frameIntact hlong hlow hpool h
  · intro h
    by_cases hdrop : 1514 < frame.length % 65536 ∨ pool = []
    · rw [FrameIntact, ether0RecvData_drop hdrop]
    · have hlt := h.resolve_right hdrop
      rw [FrameIntact]
      obtain ⟨hfit, hpool⟩ := not_or.mp hdrop
      obtain ⟨p, rest, rfl⟩ := List.exists_cons_of_ne_nil hpool
      obtain ⟨q, hq⟩ := ether0RecvData_cons p rest (show frame.length % 65536 ≤ 1514 by omega)
      have hholds := ether0RecvData_holds hlt hq
      rw [hq]
      exact ⟨by rw [hholds.len, hholds.totLen], hholds.totLen, hholds.bytes⟩

/-- A frame of 65596 bytes leaves the sixty old bytes of its buffer. -/
theorem not_frames_intact : ¬ ∀ (pool : List Pbuf) (frame : List UInt8),
    frame.length < 2 ^ 31 → FrameIntact pool frame := by
  intro hall
  obtain ⟨frame, hframe⟩ : ∃ frame : List UInt8, frame.length = 65596 :=
    ⟨List.replicate 65596 0, List.length_replicate⟩
  refine not_frameIntact ?_ ?_ (List.cons_ne_nil (arpPacket []) []) (hall _ frame ?_)
  · omega
  · omega
  · omega

namespace Holds

variable {p : Pbuf} {frame : List UInt8} (h : Holds p frame)
include h

theorem apply {i : Nat} (hi : i < frame.length) : p.mem i = frameMem frame i := by
  rw [← h.bytes, frameMem_apply _ (by rw [h.totLen]; exact hi), h.payload, Nat.zero_add]

theorem get16 {i : Nat} (hi : i + 2 ≤ frame.length) :
    p.mem.get16 i = (frameMem frame).get16 i :=
  ByteMem.get16_congr fun j _ => h.apply (by omega)

theorem get32 {i : Nat} (hi : i + 4 ≤ frame.length) :
    p.mem.get32 i = (frameMem frame).get32 i :=
  ByteMem.get32_congr fun j _ => h.apply (by omega)

end Holds

/-! ## the handler of an IP frame -/

/-- The Ethernet header is taken off whatever the frame type says is an IPv4
packet; version and header length then decide, whether there are as many bytes or
not. -/
theorem rawDemux_ipv4_eq {p : Pbuf} (hp : p.payload = 0)
    (heth : htons (p.mem.get16 12) = tIpv4FrameType) :
    rawDemux p = if tIphV p.mem 14 = 4 ∧ (tIphHl p.mem 14).toNat * 4 < (p.len - 14).toNat then
        (ipHandler (tIphProto p.mem 14), { p with
          payload := 14, totLen := p.totLen - 14, len := p.len - 14, rdEnd := max p.rdEnd 24 })
      else (.drop (-1), { p with
        payload := 14, totLen := p.totLen - 14, len := p.len - 14, rdEnd := max p.rdEnd 16 }) := by
  obtain ⟨q, hpull, hq⟩ : ∃ q, tPbufHeader (p.see 14) (14 : Nat) = (0, q) ∧
      q = { p.see 14 with
        payload := 14, totLen := p.totLen - UInt16.ofNat 14, len := p.len - UInt16.ofNat 14 } := by
    rw [tPbufHeader_pull _ (by rw [Pbuf.see_payload, hp]; omega), Pbuf.see_payload, hp]
    exact ⟨_, rfl, rfl⟩
  have hpull : tPbufHeader (p.see 14) 14 = (0, q) := hpull
  have hmem : q.mem = p.mem := by rw [hq]; rfl
  have hpay : q.payload = 14 := by rw [hq]
  have hqlen : q.len = p.len - 14 := by rw [hq]; rfl
  have h16 : q.see 16 = { p with
      payload := 14, totLen := p.totLen - 14, len := p.len - 14, rdEnd := max p.rdEnd 16 } := by
    rw [hq, Pbuf.see, Pbuf.see, max_assoc, show max 14 16 = 16 from rfl]
    rfl
  have h24 : (q.see 16).see 24 = { p with
      payload := 14, totLen := p.totLen - 14, len := p.len - 14, rdEnd := max p.rdEnd 24 } := by
    rw [h16, Pbuf.see, max_assoc, show max 16 24 = 24 from rfl]
  unfold rawDemux
  simp only [Pbuf.rd16_fst, Pbuf.rd16_snd, hp, Nat.zero_add, heth]
  rw [if_neg (by decide), if_pos trivial, ipDemux]
  simp only [hpull, Pbuf.rd16_fst, Pbuf.rd16_snd, hpay, hmem, Pbuf.see_len, Pbuf.see_mem, hqlen,
    gt_iff_lt, Nat.reduceAdd]
  rw [tIphV, tIphHl, tIphProto, h24, h16]
  by_cases hver : htons (p.mem.get16 14) >>> 12 = 4
  · rw [if_neg (not_not.mpr hver)]
    by_cases hlt : ((htons (p.mem.get16 14) >>> 8) &&& 0x0f).toNat * 4 < (p.len - 14).toNat
    · rw [if_pos hlt, if_pos ⟨hver, hlt⟩]
    · rw [if_neg hlt, if_neg fun h => hlt h.2]
  · rw [if_pos hver, if_neg fun h => hver h.1]

theorem rawDemux_ipv4 {p : Pbuf} (hp : p.payload = 0)
    (heth : htons (p.mem.get16 12) = tIpv4FrameType) :
    ∃ e, rawDemux p =
      (if tIphV p.mem 14 = 4 ∧ (tIphHl p.mem 14).toNat * 4 < (p.len - 14).toNat then
        ipHandler (tIphProto p.mem 14) else .drop (-1),
      { p with payload := 14, totLen := p.totLen - 14, len := p.len - 14, rdEnd := e }) := by
  rw [rawDemux_ipv4_eq hp heth]
  split
  · exact ⟨_, rfl⟩
  · exact ⟨_, rfl⟩

/-- An IPv4 packet with something behind its header goes to the handler of its
protocol. -/
theorem rawDemux_ip {p : Pbuf} {frame : List UInt8} (h : Holds p frame) (hlen : 34 ≤ frame.length)
    (heth : (frameMem frame).get16 12 = htons 0x800) (hver : tIphV (frameMem frame) 14 = 4) :
    ∃ e, rawDemux p =
      (if (tIphHl (frameMem frame) 14).toNat * 4 < frame.length - 14 then
        ipHandler (tIphProto (frameMem frame) 14) else .drop (-1),
      { p with payload := 14, totLen := p.totLen - 14, len := p.len - 14, rdEnd := e }) := by
  rw [tIphV, ← h.get16 (by omega)] at hver
  rw [tIphHl, tIphProto, ← h.get16 (by omega), ← h.get16 (by omega)]
  rw [← h.get16 (by omega)] at heth
  obtain ⟨e, he⟩ := rawDemux_ipv4 h.payload (by rw [heth]; decide)
  have hlen : (p.len - 14).toNat = frame.length - 14 := by
    have htot := h.totLen
    have hlt := p.totLen.toNat_lt
    rw [h.len, UInt16.toNat_sub, show (14 : UInt16).toNat = 14 from rfl]
    omega
  refine ⟨e, ?_⟩
  rw [he, tIphV, tIphHl, tIphProto, hlen, if_congr (and_iff_right hver) rfl rfl]

/-- A frame that `t_ip_output` built goes to the handler of its protocol. -/
theorem rawDemux_ipFrame {p : Pbuf} {frame : List UInt8} (h : Holds p frame)
    (hlen : 34 < frame.length) (tos ttl proto : UInt8)
    (heth : (frameMem frame).get16 12 = htons 0x800)
    (hvhl : (frameMem frame).get16 14 = htons (0x4500 ||| tos.toUInt16))
    (hproto : (frameMem frame).get16 22 =
      htons (proto.toUInt16 ||| (ttl.toUInt16 <<< (8 : UInt16)))) :
    ∃ e, rawDemux p = (ipHandler proto.toUInt16, { p with
      payload := 14, totLen := p.totLen - 14, len := p.len - 14, rdEnd := e }) := by
  have hver : tIphV (frameMem frame) 14 = 4 := by rw [tIphV, hvhl, htons_htons, vhltos_version]
  have hhl : (tIphHl (frameMem frame) 14).toNat = 5 := by
    rw [tIphHl, hvhl, htons_htons, vhltos_hl]
  have hpro : tIphProto (frameMem frame) 14 = proto.toUInt16 := by
    rw [tIphProto, hproto, htons_htons, ttlProto_proto]
  obtain ⟨e, he⟩ := rawDemux_ip h hlen.le heth hver
  rw [hhl, hpro, if_pos (by omega)] at he
  exact ⟨e, he⟩

end TTcp
