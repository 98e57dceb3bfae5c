import TTcp.Pbuf
import TTcp.Inet

/-!
# TTcp.Ip

Interfaces, routing and the output side of IP (`core/t_netif.c`,
`core/t_ip.c`), with the events by which the rest of the world notices the
stack.
-/

namespace TTcp

/-! ## interfaces -/

/-- `struct t_netif`.  Its `output` function is the driver, outside the stack:
calling it is an event. -/
structure Netif where
  ipAddr : UInt32
  netmask : UInt32
  gw : UInt32
  hwaddr : Vector UInt8 6
deriving DecidableEq, Repr

/-- A hardware address as memory. -/
def macMem (mac : Vector UInt8 6) : ByteMem := fun i => mac.toList.getD i 0

/-- The globals `netif_list`, from its head on, and `netif_default`. -/
structure Net where
  netifList : List Netif
  netifDefault : Option Netif

/-- The value of a variable `struct t_netif *netif` at a use: assigned
earlier, or not. -/
inductive NetifArg where
  | value (netif : Option Netif)
  | unassigned
deriving DecidableEq, Repr

/-- `indet` is what an unassigned variable happens to hold. -/
def NetifArg.resolve (indet : Option Netif) : NetifArg → Option Netif
  | .value netif => netif
  | .unassigned => indet

/-- A `struct t_ip_addr *`: to a variable of its own, or into the buffer of
the packet being sent. -/
inductive AddrPtr where
  | val (addr : UInt32)
  | pkt (o : Nat)
deriving DecidableEq, Repr

/-- The address pointed to, now. -/
def AddrPtr.read (p : Pbuf) : AddrPtr → UInt32
  | .val addr => addr
  | .pkt o => p.mem.get32 o

/-! ## events -/

abbrev TcpPcbId := Fin tMempNumTcpPcb
abbrev UdpPcbId := Fin tMempNumUdpPcb

/-- The `recv` function pointer of a UDP pcb: `t_recv_udp` of the netconn
layer, or a function of the application. -/
inductive UdpRecvFn where
  | tRecvUdp
  | app (fn : Nat)
deriving DecidableEq, Repr

/-- What the stack does to the world outside it. -/
inductive Event where
  /-- `t_ip_output` is called with this packet. -/
  | ipOutput (inp : NetifArg) (p : Pbuf) (src : Option UInt32) (dst : AddrPtr)
      (ttl tos proto : UInt8)
  /-- `netif->output` is handed this frame. -/
  | frame (netif : Netif) (bytes : List UInt8)
  /-- The `recv` callback of a UDP pcb is called. -/
  | udpRecv (pcb : UdpPcbId) (recv : UdpRecvFn) (arg : Nat) (p : Pbuf) (addr : UInt32)
      (port : UInt16)
  /-- The `connected` callback of a TCP pcb is called. -/
  | tcpConnected (fn : Nat) (err : ErrT)
  /-- An interface is used through a null pointer. -/
  | nullNetif
  /-- The head of an empty `unacked` queue is used. -/
  | nullUnacked

/-- The packet of a call of `t_ip_output`. -/
def Event.ipPacket? : Event → Option Pbuf
  | .ipOutput _ p _ _ _ _ _ => some p
  | _ => none

/-- The frame of a call of `netif->output`. -/
def Event.frame? : Event → Option (Netif × List UInt8)
  | .frame netif bytes => some (netif, bytes)
  | _ => none

/-! ## routing -/

/-- `t_ip_addr_netcmp`: true when the networks differ. -/
def tIpAddrNetcmp (a b mask : UInt32) : Bool := !((a &&& mask) == (b &&& mask))

/-- `t_ip_addr_cmp`: true when the addresses differ. -/
def tIpAddrCmp (a b : UInt32) : Bool := !(a == b)

/-- `t_ip_route`. -/
def tIpRoute (net : Net) (dest : UInt32) : Option Netif :=
  match net.netifList.find? fun netif => tIpAddrNetcmp dest netif.ipAddr netif.netmask with
  | some netif => some netif
  | none => net.netifDefault

/-! ## the IP header in the buffer -/

@[simp] def tIpProtoIcmp : UInt8 := 1
@[simp] def tIpProtoTcp : UInt8 := 6
@[simp] def tIpProtoUdp : UInt8 := 17

/-- `T_IPH_V` of the header at `h`. -/
def tIphV (m : ByteMem) (h : Nat) : UInt16 := htons (m.get16 h) >>> 12

/-- `T_IPH_HL` of the header at `h`. -/
def tIphHl (m : ByteMem) (h : Nat) : UInt16 := (htons (m.get16 h) >>> 8) &&& 0x0f

theorem tIphHl_lt (m : ByteMem) (h : Nat) : (tIphHl m h).toNat < 16 := by
  rw [tIphHl, UInt16.toNat_and]
  exact Nat.lt_succ_of_le Nat.and_le_right

/-- `T_IPH_PROTO` of the header at `h`. -/
def tIphProto (m : ByteMem) (h : Nat) : UInt16 := htons (m.get16 (h + 8)) &&& 0xff

/-- `T_IPH_TTL` of the header at `h`. -/
def tIphTtl (m : ByteMem) (h : Nat) : UInt16 := htons (m.get16 (h + 8)) >>> 8

/-- `T_IPH_TTL_SET`, keeping the old protocol byte. -/
def tIphTtlSet (p : Pbuf) (h : Nat) (ttl : UInt8) : Pbuf :=
  p.set16 (h + 8) (htons (tIphProto p.mem h ||| (ttl.toUInt16 <<< 8)))

/-- `T_IPH_PROTO_SET`, keeping the TTL byte. -/
def tIphProtoSet (p : Pbuf) (h : Nat) (proto : UInt8) : Pbuf :=
  p.set16 (h + 8) (htons (proto.toUInt16 ||| (tIphTtl p.mem h <<< 8)))

/-- `iphdr->dst.addr = dst->addr`. -/
def ipHdrDstSet (p : Pbuf) (h : Nat) (dst : AddrPtr) : Pbuf := p.set32 (h + 16) (dst.read p)

/-- `T_IPH_VHLTOS_SET`. -/
def tIphVhltosSet (p : Pbuf) (h : Nat) (v hl tos : UInt16) : Pbuf :=
  p.set16 h (htons ((v <<< 12) ||| (hl <<< 8) ||| tos))

/-- `T_IPH_LEN_SET(iphdr, htons(p->tot_len))`. -/
def tIphLenSet (p : Pbuf) (h : Nat) : Pbuf := p.set16 (h + 2) (htons p.totLen)

/-- `iphdr->_chksum = 0` and `T_IPH_CHKSUM_SET(iphdr, t_inet_chksum(iphdr, T_IP_HLEN))`. -/
def tIphChksumSet (p : Pbuf) (h : Nat) : Pbuf :=
  let p := p.set16 (h + 10) 0
  p.set16 (h + 10) (tInetChksum (p.mem.slice h 20))

/-- The header that `t_ip_output` writes at `h`.  The identification field is
left as it was. -/
def ipHdrWrite (p : Pbuf) (h : Nat) (src : UInt32) (dst : AddrPtr) (ttl tos proto : UInt8) : Pbuf :=
  let p := tIphTtlSet p h ttl
  let p := tIphProtoSet p h proto
  let p := ipHdrDstSet p h dst
  let p := tIphVhltosSet p h 4 5 tos.toUInt16
  let p := tIphLenSet p h
  let p := p.set16 (h + 6) (htons 0x4000)
  let p := p.set32 (h + 12) src
  tIphChksumSet p h

/-- `get_mac_from_ip`, "only for test". -/
def getMacFromIp (_ : UInt32) : Vector UInt8 6 := #v[0xf8, 0x63, 0x3f, 0x6b, 0x2c, 0xbd]

/-- The Ethernet header that `t_ip_output` writes at `h`. -/
def ethHdrWrite (p : Pbuf) (h : Nat) (dstMac srcMac : Vector UInt8 6) : Pbuf :=
  let p := p.memcpy h (macMem dstMac) 6
  let p := p.memcpy (h + 6) (macMem srcMac) 6
  p.set16 (h + 12) (htons 0x800)

/-! ## output -/

/-- `t_ip_output`.  `src = none` stands for a null pointer. -/
def tIpOutput (net : Net) (indet : Option Netif) (arg : NetifArg) (p : Pbuf)
    (src : Option UInt32) (dst : AddrPtr) (ttl tos proto : UInt8) : Int × Pbuf × List Event :=
  let call := Event.ipOutput arg p src dst ttl tos proto
  let inp := match arg.resolve indet with
    | some netif => some netif
    | none => tIpRoute net (dst.read p)
  let src := match src with
    | some addr => some addr
    | none => inp.map Netif.ipAddr
  let p := (tPbufHeader p (-20)).2
  match src with
  | none => (0, p, [call, .nullNetif])
  | some addr =>
      let p := ipHdrWrite p p.payload addr dst ttl tos proto
      let (r, p) := tPbufHeader p (-14)
      if r ≠ 0 then (0, p, [call])
      else match inp with
        | none => (0, p, [call, .nullNetif])
        | some netif =>
            let p := ethHdrWrite p p.payload (getMacFromIp (dst.read p)) netif.hwaddr
            (0, p, [call, .frame netif (p.mem.slice p.payload p.totLen.toNat)])

/-! ## what the header writers touch -/

section
variable (p : Pbuf) (h : Nat)

theorem tIphTtlSet_writesOnly (ttl : UInt8) :
    p.WritesOnly (tIphTtlSet p h ttl) (h + 8) (h + 10) := .set16 ..

theorem tIphProtoSet_writesOnly (proto : UInt8) :
    p.WritesOnly (tIphProtoSet p h proto) (h + 8) (h + 10) := .set16 ..

theorem ipHdrDstSet_writesOnly (dst : AddrPtr) :
    p.WritesOnly (ipHdrDstSet p h dst) (h + 16) (h + 20) := .set32 ..

theorem tIphVhltosSet_writesOnly (v hl tos : UInt16) :
    p.WritesOnly (tIphVhltosSet p h v hl tos) h (h + 2) := .set16 ..

theorem tIphLenSet_writesOnly : p.WritesOnly (tIphLenSet p h) (h + 2) (h + 4) := .set16 ..

theorem tIphChksumSet_writesOnly : p.WritesOnly (tIphChksumSet p h) (h + 10) (h + 12) :=
  (Pbuf.WritesOnly.set16 ..).trans (.set16 ..)

/-- The IP header is twenty bytes. -/
theorem ipHdrWrite_writesOnly (src : UInt32) (dst : AddrPtr) (ttl tos proto : UInt8) :
    p.WritesOnly (ipHdrWrite p h src dst ttl tos proto) h (h + 20) := by
  have e1 := (tIphTtlSet_writesOnly p h ttl).mono (show h ≤ h + 8 by omega)
    (show h + 10 ≤ h + 20 by omega)
  generalize hp1 : tIphTtlSet p h ttl = p1 at e1
  have e2 := e1.trans ((tIphProtoSet_writesOnly p1 h proto).mono (by omega) (by omega))
  generalize hp2 : tIphProtoSet p1 h proto = p2 at e2
  have e3 := e2.trans ((ipHdrDstSet_writesOnly p2 h dst).mono (by omega) (by omega))
  generalize hp3 : ipHdrDstSet p2 h dst = p3 at e3
  have e4 := e3.trans ((tIphVhltosSet_writesOnly p3 h 4 5 tos.toUInt16).mono (by omega) (by omega))
  generalize hp4 : tIphVhltosSet p3 h 4 5 tos.toUInt16 = p4 at e4
  have e5 := e4.trans ((tIphLenSet_writesOnly p4 h).mono (by omega) (by omega))
  generalize hp5 : tIphLenSet p4 h = p5 at e5
  have e6 := e5.trans ((Pbuf.WritesOnly.set16 p5 (h + 6) (htons 0x4000)).mono (by omega)
    (by omega))
  have e7 := e6.trans ((Pbuf.WritesOnly.set32 _ (h + 12) src).mono (by omega) (by omega))
  have e8 := e7.trans ((tIphChksumSet_writesOnly _ h).mono (by omega) (by omega))
  subst hp1 hp2 hp3 hp4 hp5
  exact e8

/-- The Ethernet header is fourteen bytes. -/
theorem ethHdrWrite_writesOnly (dstMac srcMac : Vector UInt8 6) :
    p.WritesOnly (ethHdrWrite p h dstMac srcMac) h (h + 14) := by
  have e1 := (Pbuf.WritesOnly.memcpy p h (macMem dstMac) 6).mono le_rfl
    (show h + 6 ≤ h + 14 by omega)
  have e2 := e1.trans ((Pbuf.WritesOnly.memcpy _ (h + 6) (macMem srcMac) 6).mono (by omega)
    (by omega))
  exact e2.trans ((Pbuf.WritesOnly.set16 _ (h + 12) (htons 0x800)).mono (by omega) (by omega))

end

/-! ## headers of packets that agree -/

namespace Pbuf.AgreeOn

variable {p p' : Pbuf} {n : Nat} (h : Pbuf.AgreeOn (· < n) p p')
include h

theorem get16 {o : Nat} (ho : o + 2 ≤ n) : p.mem.get16 o = p'.mem.get16 o :=
  h.mem.get16 fun i _ hi => show i < n by omega

theorem slice {o k : Nat} (ho : o + k ≤ n) : p.mem.slice o k = p'.mem.slice o k :=
  h.mem.slice fun i _ hi => show i < n by omega

theorem addr {dst : AddrPtr} (hdst : ∀ o, dst = .pkt o → o + 4 ≤ n) : dst.read p = dst.read p' := by
  cases dst with
  | val addr => rfl
  | pkt o =>
      have ho := hdst o rfl
      exact h.mem.get32 fun i _ hi => show i < n by omega

theorem tIphTtlSet {o : Nat} (ho : o + 10 ≤ n) (ttl : UInt8) :
    Pbuf.AgreeOn (· < n) (tIphTtlSet p o ttl) (tIphTtlSet p' o ttl) :=
  h.set16_same _ (by rw [tIphProto, tIphProto, h.get16 (by omega)])

theorem tIphProtoSet {o : Nat} (ho : o + 10 ≤ n) (proto : UInt8) :
    Pbuf.AgreeOn (· < n) (tIphProtoSet p o proto) (tIphProtoSet p' o proto) :=
  h.set16_same _ (by rw [tIphTtl, tIphTtl, h.get16 (by omega)])

theorem tIphChksumSet {o : Nat} (ho : o + 20 ≤ n) :
    Pbuf.AgreeOn (· < n) (tIphChksumSet p o) (tIphChksumSet p' o) :=
  have hzero := h.set16_same (o + 10) (rfl : (0 : UInt16) = 0)
  hzero.set16_same _ (congrArg tInetChksum (hzero.slice ho))

/-- The IP header is the same in both. -/
theorem ipHdrWrite {o : Nat} (ho : o + 20 ≤ n) (src : UInt32) {dst : AddrPtr}
    (hdst : ∀ o, dst = .pkt o → o + 4 ≤ n) (ttl tos proto : UInt8) :
    Pbuf.AgreeOn (· < n) (ipHdrWrite p o src dst ttl tos proto)
      (ipHdrWrite p' o src dst ttl tos proto) := by
  have e2 := (h.tIphTtlSet (o := o) (by omega) ttl).tIphProtoSet (o := o) (by omega) proto
  generalize hq : TTcp.tIphProtoSet (TTcp.tIphTtlSet p o ttl) o proto = q at e2
  generalize hq' : TTcp.tIphProtoSet (TTcp.tIphTtlSet p' o ttl) o proto = q' at e2
  have e4 : Pbuf.AgreeOn (· < n) (tIphVhltosSet (ipHdrDstSet q o dst) o 4 5 tos.toUInt16)
      (tIphVhltosSet (ipHdrDstSet q' o dst) o 4 5 tos.toUInt16) :=
    (e2.set32_same (o + 16) (e2.addr hdst)).set16_same o rfl
  generalize hr : tIphVhltosSet (ipHdrDstSet q o dst) o 4 5 tos.toUInt16 = r at e4
  generalize hr' : tIphVhltosSet (ipHdrDstSet q' o dst) o 4 5 tos.toUInt16 = r' at e4
  have e5 : Pbuf.AgreeOn (· < n) (tIphLenSet r o) (tIphLenSet r' o) :=
    e4.set16_same _ (congrArg htons e4.totLen)
  have e7 := (e5.set16_same (o + 6) (rfl : htons 0x4000 = _)).set32_same (o + 12) (rfl : src = _)
  have e8 := e7.tIphChksumSet ho
  subst hq hq' hr hr'
  exact e8

theorem ethHdrWrite (o : Nat) (dstMac srcMac : Vector UInt8 6) :
    Pbuf.AgreeOn (· < n) (ethHdrWrite p o dstMac srcMac) (ethHdrWrite p' o dstMac srcMac) :=
  ((h.memcpy_same o _ 6).memcpy_same (o + 6) _ 6).set16_same (o + 12) rfl

end Pbuf.AgreeOn

/-! ## what `t_ip_output` does -/

section
variable (net : Net) (indet : Option Netif) (arg : NetifArg) (p : Pbuf) (src : Option UInt32)
  (dst : AddrPtr) (ttl tos proto : UInt8)

/-- `t_ip_output` always returns 0. -/
@[simp] theorem tIpOutput_fst : (tIpOutput net indet arg p src dst ttl tos proto).1 = 0 := by
  simp only [tIpOutput]
  repeat' split <;> try rfl

/-- The call is the only packet handed to IP. -/
@[simp] theorem tIpOutput_ipPackets :
    (tIpOutput net indet arg p src dst ttl tos proto).2.2.filterMap Event.ipPacket? = [p] := by
  simp only [tIpOutput]
  repeat' split <;> try rfl

@[simp] theorem tIpOutput_id : (tIpOutput net indet arg p src dst ttl tos proto).2.1.id = p.id := by
  have hip := fun q addr => (ipHdrWrite_writesOnly q q.payload addr dst ttl tos proto).id
  have heth := fun q mac mac' => (ethHdrWrite_writesOnly q q.payload mac mac').id
  simp only [tIpOutput]
  repeat' split
  all_goals simp [hip, heth]

@[simp] theorem tIpOutput_ref :
    (tIpOutput net indet arg p src dst ttl tos proto).2.1.ref = p.ref := by
  have hip := fun q addr => (ipHdrWrite_writesOnly q q.payload addr dst ttl tos proto).ref
  have heth := fun q mac mac' => (ethHdrWrite_writesOnly q q.payload mac mac').ref
  simp only [tIpOutput]
  repeat' split
  all_goals simp [hip, heth]

/-- With headroom for both headers, nothing from the payload pointer on is
touched. -/
theorem tIpOutput_mem_of_le (h34 : 34 ≤ p.payload) (hlt : p.payload < 1501) {i : Nat}
    (hi : p.payload ≤ i) :
    (tIpOutput net indet arg p src dst ttl tos proto).2.1.mem i = p.mem i := by
  obtain ⟨q, hq⟩ : ∃ q, q = (tPbufHeader p (-20)).2 := ⟨_, rfl⟩
  have hqpay : q.payload = p.payload - 20 := by
    have hpush := tPbufHeader_push p (n := 20) (by omega) (by omega)
    rw [hq, show (-20 : Int) = -((20 : Nat) : Int) from rfl, hpush]
  have hqmem : q.mem = p.mem := by rw [hq, tPbufHeader_mem]
  have hip : ∀ addr, (ipHdrWrite q q.payload addr dst ttl tos proto).mem i = p.mem i :=
    fun addr => by
      rw [(ipHdrWrite_writesOnly q q.payload addr dst ttl tos proto).mem i (by omega), hqmem]
  have hpush : ∀ r : Pbuf, r.payload = q.payload →
      (tPbufHeader r (-14)).2.payload = p.payload - 34 := fun r hr => by
    rw [show (-14 : Int) = -((14 : Nat) : Int) from rfl,
      tPbufHeader_push r (n := 14) (by omega) (by omega)]
    simp only
    omega
  simp only [tIpOutput, ← hq]
  split
  · rw [hqmem]
  · next addr _ =>
    have hw := ipHdrWrite_writesOnly q q.payload addr dst ttl tos proto
    split
    · rw [tPbufHeader_mem, hip]
    · split
      · simp only [tPbufHeader_mem, hip]
      · simp only
        rw [(ethHdrWrite_writesOnly ..).mem i (by rw [hpush _ hw.payload]; omega),
          tPbufHeader_mem, hip]

end

/-! ## what the IP header says -/

/-- A byte put in the high half of a word, over what the low half holds, and
shifted there again. -/
theorem highByte_eq (w t : UInt16) :
    (((w &&& (255 : UInt16)) ||| (t <<< (8 : UInt16))) >>> (8 : UInt16)) <<< (8 : UInt16) =
      t <<< (8 : UInt16) := by
  have hlow : w.toNat &&& 255 = w.toNat % 256 := Nat.and_two_pow_sub_one_eq_mod _ 8
  have hor : w.toNat % 256 ||| t.toNat * 256 % 65536 = 256 * (t.toNat % 256) + w.toNat % 256 := by
    rw [show t.toNat * 256 % 65536 = 256 * (t.toNat % 256) by omega, Nat.lor_comm]
    exact (Nat.two_pow_add_eq_or_of_lt (i := 8) (by omega) _).symm
  apply UInt16.toNat_inj.1
  simp only [UInt16.toNat_shiftLeft, UInt16.toNat_shiftRight, UInt16.toNat_or, UInt16.toNat_and,
    UInt16.toNat_ofNat]
  norm_num [Nat.shiftLeft_eq, Nat.shiftRight_eq_div_pow, hlow, hor]
  omega

theorem vhltos_version (tos : UInt8) : (0x4500 ||| tos.toUInt16) >>> 12 = 4 := by
  have h := toNat_byte_or 69 (by omega) tos
  have hb := tos.toNat_lt
  apply UInt16.toNat_inj.1
  rw [UInt16.toNat_shiftRight, show (0x4500 : UInt16) = UInt16.ofNat (256 * 69) from rfl, h]
  simp [Nat.shiftRight_eq_div_pow]
  omega

theorem vhltos_hl (tos : UInt8) : (((0x4500 ||| tos.toUInt16) >>> 8) &&& 0x0f).toNat = 5 := by
  have h := toNat_byte_or 69 (by omega) tos
  have hb := tos.toNat_lt
  rw [UInt16.toNat_and, UInt16.toNat_shiftRight,
    show (0x4500 : UInt16) = UInt16.ofNat (256 * 69) from rfl, h]
  have hdiv : (256 * 69 + tos.toNat) >>> ((8 : UInt16).toNat % 16) = 69 := by
    simp [Nat.shiftRight_eq_div_pow]
    omega
  rw [hdiv]
  rfl

/-- The protocol byte below the time to live. -/
theorem ttlProto_proto (proto ttl : UInt8) :
    (proto.toUInt16 ||| (ttl.toUInt16 <<< (8 : UInt16))) &&& 0xff = proto.toUInt16 := by
  have hp := proto.toNat_lt
  have ht := ttl.toNat_lt
  apply UInt16.toNat_inj.1
  have hshift : (ttl.toUInt16 <<< (8 : UInt16)).toNat = 2 ^ 8 * ttl.toNat := by
    simp [UInt16.toNat_shiftLeft, Nat.shiftLeft_eq]
    omega
  rw [UInt16.toNat_and, UInt16.toNat_or, hshift, UInt8.toNat_toUInt16, Nat.lor_comm,
    ← Nat.two_pow_add_eq_or_of_lt hp, show (0xff : UInt16).toNat = 2 ^ 8 - 1 from rfl,
    Nat.and_two_pow_sub_one_eq_mod]
  omega

section
variable (p : Pbuf) (h : Nat) (src : UInt32) (dst : AddrPtr) (ttl tos proto : UInt8)

theorem ipHdrWrite_vhltos : (ipHdrWrite p h src dst ttl tos proto).mem.get16 h =
    htons (0x4500 ||| tos.toUInt16) := by
  simp (disch := omega) [ipHdrWrite, tIphChksumSet, tIphLenSet, tIphVhltosSet]
  rfl

theorem ipHdrWrite_len :
    (ipHdrWrite p h src dst ttl tos proto).mem.get16 (h + 2) = htons p.totLen := by
  simp (disch := omega) [ipHdrWrite, tIphChksumSet, tIphLenSet, tIphVhltosSet, ipHdrDstSet,
    tIphProtoSet, tIphTtlSet]

theorem ipHdrWrite_ttlProto : (ipHdrWrite p h src dst ttl tos proto).mem.get16 (h + 8) =
    htons (proto.toUInt16 ||| (ttl.toUInt16 <<< (8 : UInt16))) := by
  simp (disch := omega) [ipHdrWrite, tIphChksumSet, tIphLenSet, tIphVhltosSet, ipHdrDstSet,
    tIphProtoSet, tIphTtlSet, tIphTtl, tIphProto, highByte_eq]

theorem ipHdrWrite_src : (ipHdrWrite p h src dst ttl tos proto).mem.get32 (h + 12) = src := by
  simp (disch := omega) [ipHdrWrite, tIphChksumSet]

theorem ipHdrWrite_dst (addr : UInt32) :
    (ipHdrWrite p h src (.val addr) ttl tos proto).mem.get32 (h + 16) = addr := by
  simp (disch := omega) [ipHdrWrite, tIphChksumSet, tIphLenSet, tIphVhltosSet, ipHdrDstSet,
    AddrPtr.read]

end

/-! ## the frame -/

/-- The frames that a call hands to an interface. -/
def frames (evs : List Event) : List (Netif × List UInt8) := evs.filterMap Event.frame?

@[simp] theorem frames_nil : frames [] = [] := rfl

@[simp] theorem frames_append (evs evs' : List Event) :
    frames (evs ++ evs') = frames evs ++ frames evs' := List.filterMap_append

/-- The packet as `t_ip_output` hands it to the interface. -/
def ipFrame (p : Pbuf) (netif : Netif) (src : UInt32) (dst : AddrPtr) (ttl tos proto : UInt8) :
    Pbuf :=
  let p := (tPbufHeader p (-20)).2
  let p := ipHdrWrite p p.payload src dst ttl tos proto
  let p := (tPbufHeader p (-14)).2
  ethHdrWrite p p.payload (getMacFromIp (dst.read p)) netif.hwaddr

/-- The bytes of a packet, `tot_len` of them. -/
def Pbuf.bytes (p : Pbuf) : List UInt8 := p.mem.slice p.payload p.totLen.toNat

/-- A frame as memory. -/
def frameMem (frame : List UInt8) : ByteMem := ByteMem.ofList frame fun _ => 0

@[simp] theorem Pbuf.length_bytes (p : Pbuf) : p.bytes.length = p.totLen.toNat := by simp [bytes]

theorem frameMem_apply (p : Pbuf) {i : Nat} (h : i < p.totLen.toNat) :
    frameMem p.bytes i = p.mem (p.payload + i) := ByteMem.ofList_slice_apply _ _ _ _ h

theorem frameMem_get16 (p : Pbuf) {i : Nat} (h : i + 2 ≤ p.totLen.toNat) :
    (frameMem p.bytes).get16 i = p.mem.get16 (p.payload + i) := ByteMem.get16_ofList_slice _ _ _ _ h

theorem frameMem_get32 (p : Pbuf) {i : Nat} (h : i + 4 ≤ p.totLen.toNat) :
    (frameMem p.bytes).get32 i = p.mem.get32 (p.payload + i) := ByteMem.get32_ofList_slice _ _ _ _ h

/-- The interface that `t_ip_output` sends through. -/
def ipNetif (net : Net) (indet : Option Netif) (arg : NetifArg) (dst : UInt32) : Option Netif :=
  match arg.resolve indet with
  | some netif => some netif
  | none => tIpRoute net dst

section
variable (net : Net) (indet : Option Netif) (arg : NetifArg) (p : Pbuf) (netif : Netif)
  (src : UInt32) (dst : AddrPtr) (ttl tos proto : UInt8)

/-- With headroom for both headers, `t_ip_output` sends one frame, if there is
an interface. -/
theorem tIpOutput_frames (h34 : 34 ≤ p.payload) (hlt : p.payload < 1501) :
    frames (tIpOutput net indet arg p (some src) dst ttl tos proto).2.2 =
      match ipNetif net indet arg (dst.read p) with
      | some netif => [(netif, (ipFrame p netif src dst ttl tos proto).bytes)]
      | none => [] := by
  have hpush : ∀ r : Pbuf, r.payload = p.payload - 20 → (tPbufHeader r (-14)).1 = 0 := fun r hr => by
    rw [show (-14 : Int) = -((14 : Nat) : Int) from rfl,
      tPbufHeader_push r (n := 14) (by omega) (by omega)]
  have hpay : (ipHdrWrite (tPbufHeader p (-20)).2 (tPbufHeader p (-20)).2.payload src dst ttl tos
      proto).payload = p.payload - 20 := by
    rw [(ipHdrWrite_writesOnly ..).payload, show (-20 : Int) = -((20 : Nat) : Int) from rfl,
      tPbufHeader_push p (by omega) (by omega)]
  simp only [tIpOutput, hpush _ hpay, ne_eq, not_true_eq_false, ↓reduceIte]
  unfold ipNetif
  cases arg.resolve indet with
  | some netif => rfl
  | none => cases tIpRoute net (dst.read p) <;> rfl

/-- A null source address is that of the interface. -/
theorem tIpOutput_frames_null :
    frames (tIpOutput net indet (.value (some netif)) p none dst ttl tos proto).2.2 =
      frames (tIpOutput net indet (.value (some netif)) p (some netif.ipAddr) dst ttl tos proto).2.2 := by
  simp only [tIpOutput, NetifArg.resolve, Option.map_some]
  split <;> rfl

variable {h : Nat} (hp : p.payload = h + 34) (hlt : h < 1467)
include hp hlt

theorem ipFrame_spec : ∃ q, q.mem = p.mem ∧ q.payload = h + 14 ∧ q.totLen = p.totLen + 20 ∧
    let r := ipFrame p netif src dst ttl tos proto
    r.payload = h ∧ r.totLen = p.totLen + 34 ∧ r.id = p.id ∧ r.ref = p.ref ∧
      r.mem.get16 (h + 12) = htons 0x800 ∧
      ∀ i, h + 14 ≤ i → r.mem i = (ipHdrWrite q (h + 14) src dst ttl tos proto).mem i := by
  have hq : (tPbufHeader p (-20)).2 = { p with
      payload := h + 14, totLen := p.totLen + 20, len := p.len + 20 } := by
    rw [show (-20 : Int) = -((20 : Nat) : Int) from rfl, tPbufHeader_push p (by omega) (by omega)]
    rw [show p.payload - 20 = h + 14 by omega]
    rfl
  refine ⟨(tPbufHeader p (-20)).2, by simp, by rw [hq], by rw [hq], ?_⟩
  obtain ⟨r, hr⟩ : ∃ r, r = ipHdrWrite (tPbufHeader p (-20)).2 (h + 14) src dst ttl tos proto :=
    ⟨_, rfl⟩
  have hw := hr ▸ ipHdrWrite_writesOnly (tPbufHeader p (-20)).2 (h + 14) src dst ttl tos proto
  have hrpay : r.payload = h + 14 := by rw [hw.payload, hq]
  have hr' : (tPbufHeader r (-14)).2 = { r with
      payload := h, totLen := r.totLen + 14, len := r.len + 14 } := by
    rw [show (-14 : Int) = -((14 : Nat) : Int) from rfl, tPbufHeader_push r (by omega) (by omega)]
    rw [show r.payload - 14 = h by omega]
    rfl
  have heq : ipFrame p netif src dst ttl tos proto = ethHdrWrite (tPbufHeader r (-14)).2 h
      (getMacFromIp (dst.read (tPbufHeader r (-14)).2)) netif.hwaddr := by
    rw [hr, ipFrame]
    simp only [show (tPbufHeader p (-20)).2.payload = h + 14 by rw [hq]]
    rw [← hr, show (tPbufHeader r (-14)).2.payload = h by rw [hr']]
  have he := ethHdrWrite_writesOnly (tPbufHeader r (-14)).2 h
    (getMacFromIp (dst.read (tPbufHeader r (-14)).2)) netif.hwaddr
  rw [← heq] at he
  have htot : r.totLen + 14 = p.totLen + 34 := by
    rw [hw.totLen, hq]
    simp only [UInt16.add_assoc]
    rfl
  refine ⟨by rw [he.payload, hr'], by rw [he.totLen, hr', ← htot], ?_, ?_, ?_, fun i hi => ?_⟩
  · rw [he.id, hr', hw.id, hq]
  · rw [he.ref, hr', hw.ref, hq]
  · rw [heq, ethHdrWrite]
    simp
  · rw [he.mem i (by omega), tPbufHeader_mem, hr]

end

/-- Behind the headers of the frame stands the packet. -/
theorem ipFrame_bytes_drop {p : Pbuf} {h : Nat} (hp : p.payload = h + 34) (hlt : h < 1467)
    (htot : p.totLen.toNat + 34 < 65536) (netif : Netif) (src : UInt32) (dst : AddrPtr)
    (ttl tos proto : UInt8) :
    (ipFrame p netif src dst ttl tos proto).bytes.drop 34 = p.bytes := by
  obtain ⟨q, hqmem, -, -, hpay, hrtot, -, -, -, hip⟩ :=
    ipFrame_spec p netif src dst ttl tos proto hp hlt
  have hw := ipHdrWrite_writesOnly q (h + 14) src dst ttl tos proto
  have hlen : (p.totLen + 34).toNat = 34 + p.totLen.toNat := by
    rw [UInt16.toNat_add, show (34 : UInt16).toNat = 34 from rfl]
    omega
  rw [Pbuf.bytes, hpay, hrtot, hlen, ByteMem.drop_slice, Pbuf.bytes, hp]
  exact ByteMem.slice_congr fun i _ => by
    rw [hip _ (by omega), hw.mem _ (by omega), hqmem]

/-- Pbufs that agree below the end of the packet get frames that do. -/
theorem ipFrame_agreeOn {p p' : Pbuf} {n : Nat} (h : Pbuf.AgreeOn (· < n) p p')
    (h34 : 34 ≤ p.payload) (hlt : p.payload < 1501) (hn : p.payload ≤ n) (netif : Netif)
    (src : UInt32) {dst : AddrPtr} (hdst : ∀ o, dst = .pkt o → o + 4 ≤ n) (ttl tos proto : UInt8) :
    Pbuf.AgreeOn (· < n) (ipFrame p netif src dst ttl tos proto)
      (ipFrame p' netif src dst ttl tos proto) := by
  have hq := h.header (-20)
  have hqpay : (tPbufHeader p (-20)).2.payload = p.payload - 20 := by
    rw [show (-20 : Int) = -((20 : Nat) : Int) from rfl, tPbufHeader_push p (by omega) (by omega)]
  have hip := hq.ipHdrWrite (o := p.payload - 20) (by omega) src hdst ttl tos proto
  have hippay := (ipHdrWrite_writesOnly (tPbufHeader p (-20)).2 (p.payload - 20) src dst ttl tos
    proto).payload.trans hqpay
  have hr := hip.header (-14)
  have hrpay : (tPbufHeader (ipHdrWrite (tPbufHeader p (-20)).2 (p.payload - 20) src dst ttl tos
      proto) (-14)).2.payload = p.payload - 34 := by
    rw [show (-14 : Int) = -((14 : Nat) : Int) from rfl,
      tPbufHeader_push _ (by rw [hippay]; omega) (by rw [hippay]; omega), hippay]
    exact Nat.sub_sub ..
  have heth := hr.ethHdrWrite (p.payload - 34) (getMacFromIp 0) netif.hwaddr
  rw [ipFrame, ipFrame]
  simp only [← hq.payload, hqpay, ← hr.payload, hrpay]
  exact heth

/-- `r` is the frame of the packet `p`, which has its headers from `h` on. -/
structure IpFrame (r p : Pbuf) (h : Nat) (netif : Netif) (src dst : UInt32) (ttl tos proto : UInt8) :
    Prop where
  payload : r.payload = h
  totLen : r.totLen = p.totLen + 34
  srcMac : r.mem.slice (h + 6) 6 = netif.hwaddr.toList
  ethType : r.mem.get16 (h + 12) = htons 0x800
  vhltos : r.mem.get16 (h + 14) = htons (0x4500 ||| tos.toUInt16)
  len : r.mem.get16 (h + 16) = htons (p.totLen + 20)
  ttlProto : r.mem.get16 (h + 22) = htons (proto.toUInt16 ||| (ttl.toUInt16 <<< (8 : UInt16)))
  src : r.mem.get32 (h + 26) = src
  dst : r.mem.get32 (h + 30) = dst
  data : ∀ i, h + 34 ≤ i → r.mem i = p.mem i

theorem slice_macMem (mac : Vector UInt8 6) : (macMem mac).slice 0 6 = mac.toList := by
  have hlen : mac.toList.length = 6 := by simp
  have h := ByteMem.slice_ofList mac.toList fun _ => 0
  rwa [hlen] at h

theorem ethHdrWrite_srcMac (p : Pbuf) (h : Nat) (dstMac srcMac : Vector UInt8 6) :
    (ethHdrWrite p h dstMac srcMac).mem.slice (h + 6) 6 = srcMac.toList := by
  rw [ethHdrWrite, Pbuf.set16_mem, ByteMem.slice_set16_of_disjoint _ _ (by omega), Pbuf.memcpy_mem,
    ByteMem.slice_copy_self, slice_macMem]

/-- With headroom for both headers, a packet gets its frame. -/
theorem ipFrame_fields {p : Pbuf} {h : Nat} (hp : p.payload = h + 34) (hlt : h < 1467)
    (netif : Netif) (src dst : UInt32) (ttl tos proto : UInt8) :
    IpFrame (ipFrame p netif src (.val dst) ttl tos proto) p h netif src dst ttl tos proto := by
  obtain ⟨q, hqmem, -, hqtot, hpay, htot, -, -, heth, hip⟩ :=
    ipFrame_spec p netif src (.val dst) ttl tos proto hp hlt
  have hw := ipHdrWrite_writesOnly q (h + 14) src (.val dst) ttl tos proto
  have hmac : ∃ r mac, ipFrame p netif src (.val dst) ttl tos proto =
      ethHdrWrite r r.payload mac netif.hwaddr := ⟨_, _, rfl⟩
  obtain ⟨r', mac, hr'⟩ := hmac
  have hrpay : r'.payload = h := by
    rw [← hpay, hr', (ethHdrWrite_writesOnly ..).payload]
  obtain ⟨r, hr⟩ : ∃ r, r = ipFrame p netif src (.val dst) ttl tos proto := ⟨_, rfl⟩
  rw [← hr] at hpay htot heth hip hr' ⊢
  have h16 : ∀ o, h + 14 ≤ o → r.mem.get16 o =
      (ipHdrWrite q (h + 14) src (.val dst) ttl tos proto).mem.get16 o := fun o ho =>
    ByteMem.get16_congr fun i _ => hip _ (by omega)
  have h32 : ∀ o, h + 14 ≤ o → r.mem.get32 o =
      (ipHdrWrite q (h + 14) src (.val dst) ttl tos proto).mem.get32 o := fun o ho =>
    ByteMem.get32_congr fun i _ => hip _ (by omega)
  refine ⟨hpay, htot, ?_, heth, ?_, ?_, ?_, ?_, ?_, fun i hi => ?_⟩
  · rw [hr', hrpay, ethHdrWrite_srcMac]
  · rw [h16 _ (by omega), ipHdrWrite_vhltos]
  · rw [h16 _ (by omega), show h + 16 = h + 14 + 2 from rfl, ipHdrWrite_len, hqtot]
  · rw [h16 _ (by omega), show h + 22 = h + 14 + 8 from rfl, ipHdrWrite_ttlProto]
  · rw [h32 _ (by omega), show h + 26 = h + 14 + 12 from rfl, ipHdrWrite_src]
  · rw [h32 _ (by omega), show h + 30 = h + 14 + 16 from rfl, ipHdrWrite_dst]
  · rw [hip i (by omega), hw.mem i (by omega), hqmem]

/-- With one interface, everything goes through it. -/
theorem tIpRoute_single (netif : Netif) (dest : UInt32) :
    tIpRoute ⟨[netif], some netif⟩ dest = some netif := by
  unfold tIpRoute
  by_cases h : tIpAddrNetcmp dest netif.ipAddr netif.netmask <;> simp [h]

end TTcp
