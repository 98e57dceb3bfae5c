import TTcp.Api.Cursor
import TTcp.PbufTwice
import TTcp.Udp.RoundTrip

/-!
# TTcp.Api.Recv

Who owns a datagram that is received for a connection (`core/t_ip.c`, `core/t_udp.c`,
`api/t_api_msg.c`)?

`t_recv_udp` puts the pbuf into a netbuf for the application, or frees it when it
cannot.  `t_raw_input` frees it in any case.  So the netbuf that is posted points to a free
pbuf, and without a connection or a netbuf the pbuf is freed twice, which leaves the free
list alone if it returns (`Owned.tPbufFree_free`).
-/

namespace TTcp

open PtrList PbufPool

/-! ## the state -/

/-- `struct t_netbuf`, without what receiving does not set. -/
structure RecvNetbuf extends Netbuf where
  fromaddr : Nat
  fromport : UInt16

/-- `struct t_netconn`, without what receiving does not use.  Its `callback` is null or
`event_callback`, which does nothing. -/
structure RecvConn where
  recvmbox : Int
  recvAvail : UInt16

/-- The pbufs, the blocks, the netbufs in use and the connections at their addresses, and
what is in the mailboxes.  `zeroed` records the pbufs whose `ref` was brought to zero. -/
structure Rx where
  pool : PbufPool
  memp : Memp
  netbufs : Nat → Option RecvNetbuf
  netconns : Nat → RecvConn
  mboxes : Int → List Nat
  zeroed : List Nat

/-- What receiving depends on: the UDP control blocks, the handlers of the other protocols,
the callbacks of applications, and whether `t_sys_mbox_post` takes a message. -/
structure RxEnv where
  udp : Udp
  other : Handler → Rx → Nat → Option (Int × Rx)
  app : Nat → Nat → Rx → Nat → Nat → UInt16 → Option Rx
  post : Bool

namespace Rx

/-- `t_pbuf_free`.  `none` when it does not return. -/
def free (s : Rx) (p : Nat) : Option Rx :=
  (PbufPool.tPbufFree s.pool p).map fun r =>
    { s with pool := r.2, zeroed := s.zeroed ++ PbufPool.zeroed s.pool p }

/-- `t_pbuf_header`, whose result nobody looks at. -/
def header (s : Rx) (p increment : Nat) : Rx :=
  { s with pool := (PbufPool.tPbufHeader s.pool p increment).2 }

/-- `t_recv_udp`, for a mailbox that takes the message or not. -/
def tRecvUdp (post : Bool) (s : Rx) (conn p addr : Nat) (port : UInt16) : Option Rx :=
  if conn = 0 then s.free p
  else if (s.netconns conn).recvmbox ≠ tSysMboxNull then
    let (buf, memp) := tMempMalloc s.memp .netbuf
    let s := { s with memp }
    if buf = 0 then s.free p
    else
      let netbuf : RecvNetbuf := { p, ptr := p, fromaddr := addr, fromport := port }
      let c := s.netconns conn
      let c := { c with recvAvail := c.recvAvail + (pbufHdr s.pool.mem p).totLen }
      let msgs := s.mboxes c.recvmbox
      some { s with
        netbufs := Function.update s.netbufs buf (some netbuf)
        netconns := Function.update s.netconns conn c
        mboxes := Function.update s.mboxes c.recvmbox (if post then msgs ++ [buf] else msgs) }
  else some s

end Rx

namespace RxEnv

variable (env : RxEnv)

/-- `pcb->recv`, if it is not null. -/
def recv (s : Rx) (i : UdpPcbId) (p addr : Nat) (port : UInt16) : Option Rx :=
  match (env.udp.pcb i).recv with
  | none => some s
  | some .tRecvUdp => s.tRecvUdp env.post (env.udp.pcb i).recvArg p addr port
  | some (.app fn) => env.app fn (env.udp.pcb i).recvArg s p addr port

/-- `t_udp_input`. -/
def tUdpInput (s : Rx) (p : Nat) : Option (Int × Rx) :=
  let iphdr := (pbufHdr s.pool.mem p).payload
  let hl := (tIphHl s.pool.mem iphdr).toNat * 4
  if (pbufHdr s.pool.mem p).totLen.toNat < tUdpHlen + hl then some (-1, s)
  else
    let s := s.header p hl
    let udphdr := (pbufHdr s.pool.mem p).payload
    if (pbufHdr s.pool.mem p).totLen < htons (s.pool.mem.get16 (udphdr + 4)) then some (-1, s)
    else
      let src := ntohs (s.pool.mem.get16 udphdr)
      let dest := ntohs (s.pool.mem.get16 (udphdr + 2))
      match udpLookup env.udp dest (s.pool.mem.get32 (iphdr + 16)) with
      | none => none
      | some none => some (0, s)
      | some (some i) => (env.recv s i p (iphdr + 12) src).map fun s => (0, s)

/-- `t_ip_input`. -/
def tIpInput (s : Rx) (p : Nat) : Option (Int × Rx) :=
  let s := s.header p 14
  let iphdr := (pbufHdr s.pool.mem p).payload
  if tIphV s.pool.mem iphdr ≠ 4 then some (-1, s)
  else if (pbufHdr s.pool.mem p).len.toNat > (tIphHl s.pool.mem iphdr).toNat * 4 then
    match ipHandler (tIphProto s.pool.mem iphdr) with
    | .udp => env.tUdpInput s p
    | .drop ret => some (ret, s)
    | d => env.other d s p
  else some (-1, s)

/-- `t_raw_input`.  `none` when a call of it does not return. -/
def tRawInput (s : Rx) (p : Nat) : Option (Int × Rx) := do
  let frameType := htons (s.pool.mem.get16 ((pbufHdr s.pool.mem p).payload + 12))
  let (ret, s) ←
    if frameType = tArpFrameType then env.other .arp s p
    else if frameType = tIpv4FrameType then env.tIpInput s p
    else some (-1, s)
  let s ← s.free p
  some (ret, s)

end RxEnv

/-! ## a fresh pbuf -/

/-- A pbuf in use that is linked to no other, with its payload pointer `k` bytes into its
buffer. -/
structure Held (base : Nat) (s : PbufPool) (free : List Nat) (p k : Nat) : Prop where
  owned : Owned base s free [p]
  next : (pbufHdr s.mem p).next = 0
  payload : (pbufHdr s.mem p).payload = p + sizeofTPbuf + k

namespace Held

variable {base p k : Nat} {s : PbufPool} {free : List Nat}

theorem mem_addrs (h : Held base s free p k) : p ∈ addrs base :=
  h.owned.mem_of_held (List.mem_singleton_self p)

/-- A header comes off near the front of the buffer. -/
theorem tPbufHeader_eq (h : Held base s free p k) (hpl : Placed base) {n : Nat}
    (hfit : k + n < 1481) : ∃ mem, PbufPool.tPbufHeader s p n = (0, ⟨mem, s.pbufPool⟩) ∧
      HdrOnly p s.mem mem ∧ Held base ⟨mem, s.pbufPool⟩ free p (k + n) ∧
      (pbufHdr mem p).totLen = (pbufHdr s.mem p).totLen - UInt16.ofNat n ∧
      (pbufHdr mem p).len = (pbufHdr s.mem p).len - UInt16.ofNat n := by
  have hmem := List.mem_singleton_self p
  have hfits := (addrs_inside h.mem_addrs).2
  have hend := hpl.fits
  have hslot : slot = 1546 := rfl
  have hpay : ((p + sizeofTPbuf + k : Nat) : Int) + (n : Int) =
      (p + sizeofTPbuf + (k + n) : Nat) := by push_cast; omega
  have hlo : ((p + sizeofTPbuf : Nat) : Int) ≤ (p + sizeofTPbuf + (k + n) : Nat) := by omega
  have hhi : ((p + sizeofTPbuf + (k + n) : Nat) : Int) < (p : Int) + tPbufBufsize - 1 := by
    simp only [sizeofTPbuf, tPbufBufsize]
    omega
  have hlt : p + sizeofTPbuf + (k + n) < 2 ^ 64 := by
    simp only [sizeofTPbuf]
    omega
  have hmod : (UInt64.ofNat (p + sizeofTPbuf + (k + n))).toNat = p + sizeofTPbuf + (k + n) := by
    rw [UInt64.toNat_ofNat', Nat.mod_eq_of_lt hlt]
  have honly := (((HdrOnly.refl p s.mem).setPayload (p + sizeofTPbuf + (k + n))).setTotLen
    ((pbufHdr s.mem p).totLen - UInt16.ofNat n)).setLen ((pbufHdr s.mem p).len - UInt16.ofNat n)
  unfold PbufPool.tPbufHeader
  simp only [h.owned.flags p hmem, ↓reduceIte, h.payload, hpay, hlo, hhi, and_self,
    ofInt_natCast, Int.toNat_natCast]
  refine ⟨_, rfl, honly, ⟨h.owned.hdrOnly hmem honly ?_ ?_, ?_, ?_⟩, ?_, ?_⟩
  all_goals simp only [pbufHdr_setLen, pbufHdr_setTotLen, pbufHdr_setPayload, hmod, h.next]

end Held

/-! ## one owner -/

namespace Rx

/-- A netbuf points to the pbuf. -/
def Referenced (s : Rx) (p : Nat) : Prop := ∃ a, ∃ b ∈ s.netbufs a, b.p = p ∨ b.ptr = p

/-- The pbuf has one owner: it is free once and no netbuf points to it, or a netbuf that was
posted to the connection holds it and it is not free; and its `ref` came to zero once at most. -/
structure SingleOwner (s : Rx) (conn p : Nat) : Prop where
  owner : ((∃ l, IsList (PbufPool.links s.pool.mem) (ptr s.pool.pbufPool) l ∧ l.count p = 1) ∧
      ¬ s.Referenced p) ∨
    (∃ a ∈ s.mboxes (s.netconns conn).recvmbox, ∃ b ∈ s.netbufs a, b.p = p) ∧
      ∃ l, IsList (PbufPool.links s.pool.mem) (ptr s.pool.pbufPool) l ∧ p ∉ l
  zeroed : s.zeroed.count p ≤ 1

end Rx

/-- What stands in a fresh pbuf is a datagram for a control block whose callback is
`t_recv_udp`, with this connection.  All lengths are 16-bit numbers. -/
structure ForNetconn (u : Udp) (mem : ByteMem) (p conn : Nat) : Prop where
  type : htons (mem.get16 (p + sizeofTPbuf + 12)) = tIpv4FrameType
  version : tIphV mem (p + sizeofTPbuf + 14) = 4
  proto : tIphProto mem (p + sizeofTPbuf + 14) = tIpProtoUdp.toUInt16
  len : (tIphHl mem (p + sizeofTPbuf + 14)).toNat * 4 < ((pbufHdr mem p).len - 14).toNat
  hlen : 8 + (tIphHl mem (p + sizeofTPbuf + 14)).toNat * 4 ≤ ((pbufHdr mem p).totLen - 14).toNat
  udpLen : let hl := (tIphHl mem (p + sizeofTPbuf + 14)).toNat * 4
    (htons (mem.get16 (p + sizeofTPbuf + 14 + hl + 4))).toNat + hl ≤
      ((pbufHdr mem p).totLen - 14).toNat
  recv : let hl := (tIphHl mem (p + sizeofTPbuf + 14)).toNat * 4
    ∃ i, udpLookup u (ntohs (mem.get16 (p + sizeofTPbuf + 14 + hl + 2)))
        (mem.get32 (p + sizeofTPbuf + 14 + 16)) = some (some i) ∧
      (u.pcb i).recv = some .tRecvUdp ∧ (u.pcb i).recvArg = conn

section
variable {base p conn : Nat} {s s' : Rx} {free : List Nat}

/-- Such a datagram comes to `t_recv_udp`, and the pbuf is freed. -/
theorem RxEnv.tRawInput_eq (env : RxEnv) (hpl : Placed base) (h : Held base s.pool free p 0)
    (hfor : ForNetconn env.udp s.pool.mem p conn) : ∃ k mem addr port,
      Held base ⟨mem, s.pool.pbufPool⟩ free p k ∧
      env.tRawInput s p =
        (({ s with pool := ⟨mem, s.pool.pbufPool⟩ } : Rx).tRecvUdp env.post conn p addr port).bind
          fun s => (s.free p).map fun s => (0, s) := by
  obtain ⟨mem1, hpull1, honly1, h1, htot1, hlen1⟩ := h.tPbufHeader_eq hpl (show 0 + 14 < 1481 by decide)
  obtain ⟨hl, hhl⟩ : ∃ hl, hl = (tIphHl s.pool.mem (p + sizeofTPbuf + 14)).toNat * 4 := ⟨_, rfl⟩
  have hlt : hl ≤ 60 := by
    have := tIphHl_lt s.pool.mem (p + sizeofTPbuf + 14)
    omega
  obtain ⟨mem2, hpull2, honly2, h2, htot2, hlen2⟩ := h1.tPbufHeader_eq hpl
    (show 0 + 14 + hl < 1481 by omega)
  have honly := honly1.trans honly2
  have hpay0 : (pbufHdr s.pool.mem p).payload = p + sizeofTPbuf := h.payload
  have hpay1 : (pbufHdr mem1 p).payload = p + sizeofTPbuf + 14 := h1.payload
  have hpay2 : (pbufHdr mem2 p).payload = p + sizeofTPbuf + 14 + hl := by
    rw [h2.payload]
    omega
  have hheader1 : s.header p 14 = { s with pool := ⟨mem1, s.pool.pbufPool⟩ } := by
    rw [Rx.header, hpull1]
  have hheader2 : Rx.header { s with pool := ⟨mem1, s.pool.pbufPool⟩ } p hl =
      { s with pool := ⟨mem2, s.pool.pbufPool⟩ } := by
    rw [Rx.header, hpull2]
  have hget1 : ∀ i, mem1.get16 (p + sizeofTPbuf + 14 + i) =
      s.pool.mem.get16 (p + sizeofTPbuf + 14 + i) := fun i => honly1.get16 (by omega)
  have hget2 : ∀ i, mem2.get16 (p + sizeofTPbuf + 14 + i) =
      s.pool.mem.get16 (p + sizeofTPbuf + 14 + i) := fun i => honly.get16 (by omega)
  obtain ⟨i, hlookup, hrecv, harg⟩ := hfor.recv
  have hudp := hfor.udpLen
  have hhlen := hfor.hlen
  have hlen := hfor.len
  simp only [← hhl] at hlookup hudp hhlen hlen
  have hhl1 : (tIphHl mem1 (p + sizeofTPbuf + 14)).toNat * 4 = hl := by
    rw [hhl, tIphHl, tIphHl, hget1 0]
  have hver1 : tIphV mem1 (p + sizeofTPbuf + 14) = 4 := by
    rw [tIphV, hget1 0]
    exact hfor.version
  have hproto1 : ipHandler (tIphProto mem1 (p + sizeofTPbuf + 14)) = .udp := by
    have hproto := hfor.proto
    rw [tIphProto, ← hget1 8] at hproto
    rw [tIphProto, hproto]
    rfl
  have htot : (pbufHdr mem1 p).totLen = (pbufHdr s.pool.mem p).totLen - 14 := htot1
  have hlen' : (pbufHdr mem1 p).len = (pbufHdr s.pool.mem p).len - 14 := hlen1
  have hdst : mem2.get32 (p + sizeofTPbuf + 14 + 16) =
      s.pool.mem.get32 (p + sizeofTPbuf + 14 + 16) := honly.get32 (by omega)
  have htotLt : ¬ (pbufHdr mem2 p).totLen <
      htons (s.pool.mem.get16 (p + sizeofTPbuf + 14 + hl + 4)) := by
    rw [htot2, htot, UInt16.lt_iff_toNat_lt, UInt16.toNat_sub, UInt16.toNat_ofNat']
    have := ((pbufHdr s.pool.mem p).totLen - 14).toNat_lt
    omega
  refine ⟨14 + hl, mem2, p + sizeofTPbuf + 14 + 12,
    ntohs (s.pool.mem.get16 (p + sizeofTPbuf + 14 + hl)), ?_, ?_⟩
  · rw [Nat.zero_add] at h2
    exact h2
  -- from one function to the next
  have hin : env.tUdpInput { s with pool := ⟨mem1, s.pool.pbufPool⟩ } p =
      (Rx.tRecvUdp env.post { s with pool := ⟨mem2, s.pool.pbufPool⟩ } conn p
        (p + sizeofTPbuf + 14 + 12)
        (ntohs (s.pool.mem.get16 (p + sizeofTPbuf + 14 + hl)))).map fun s => (0, s) := by
    unfold RxEnv.tUdpInput
    simp only [hpay1, hhl1, hheader2, hpay2]
    rw [if_neg (by rw [htot]; simp only [tUdpHlen]; omega)]
    simp only [Nat.add_assoc (p + sizeofTPbuf + 14), hget2] at htotLt hlookup ⊢
    rw [if_neg htotLt, hdst, hlookup]
    simp only [RxEnv.recv, hrecv, harg]
  have hip : env.tIpInput s p = env.tUdpInput { s with pool := ⟨mem1, s.pool.pbufPool⟩ } p := by
    unfold RxEnv.tIpInput
    simp only [hheader1, hpay1, hver1, hhl1, hproto1]
    rw [if_neg (by decide), if_pos (by rw [hlen']; exact hlen)]
  unfold RxEnv.tRawInput
  simp only [hpay0, hfor.type, hip, hin]
  rw [if_neg (by decide), if_pos trivial]
  cases Rx.tRecvUdp env.post { s with pool := ⟨mem2, s.pool.pbufPool⟩ } conn p
      (p + sizeofTPbuf + 14 + 12) (ntohs (s.pool.mem.get16 (p + sizeofTPbuf + 14 + hl))) with
  | none => rfl
  | some s' =>
      simp only [Option.bind_eq_bind, Option.bind_some, Option.map_eq_bind]
      rfl

/-- Freeing a pbuf in use puts it on the free list. -/
theorem Rx.free_held {k : Nat} (hpl : Placed base) (h : Held base s.pool free p k) : ∃ s',
    s.free p = some s' ∧ s'.netbufs = s.netbufs ∧ s'.zeroed = s.zeroed ++ [p] ∧
      Owned base s'.pool (p :: free) [] ∧ (pbufHdr s'.pool.mem p).ref = 0 := by
  obtain ⟨mem, hround, -, hhdr, howned⟩ := h.owned.freeRound_eq hpl 0
  have hfree : PbufPool.tPbufFree s.pool p = some (free.length + 1, ⟨mem, p⟩) := by
    rw [PbufPool.tPbufFree, Loop.run, hround, h.next]
    rfl
  refine ⟨{ s with pool := ⟨mem, p⟩, zeroed := s.zeroed ++ [p] }, ?_, rfl, rfl, howned, ?_⟩
  · rw [Rx.free, hfree, h.owned.zeroed_eq hpl h.next]
    rfl
  · rw [hhdr]

/-- Freeing it once more leaves it there, if that returns. -/
theorem Rx.free_free (hpl : Placed base) (h : Owned base s.pool (p :: free) [])
    (href : (pbufHdr s.pool.mem p).ref = 0) (hfree : s.free p = some s') :
    s'.netbufs = s.netbufs ∧ s'.zeroed.count p = s.zeroed.count p ∧
      Owned base s'.pool (p :: free) [] := by
  obtain ⟨r, hr, rfl⟩ := Option.map_eq_some_iff.mp hfree
  obtain ⟨howned, hzero⟩ := h.tPbufFree_free hpl rfl href hr
  refine ⟨rfl, ?_, howned⟩
  rw [List.count_append, List.count_eq_zero.mpr hzero, Nat.add_zero]

/-- A free pbuf has one owner if no netbuf points to it. -/
theorem Rx.singleOwner_iff (h : Owned base s.pool (p :: free) []) (hzero : s.zeroed.count p ≤ 1) :
    s.SingleOwner conn p ↔ ¬ s.Referenced p := by
  have hmem : p ∈ p :: free := List.mem_cons_self
  constructor
  · rintro ⟨⟨-, href⟩ | ⟨-, l, hl, hp⟩, -⟩
    · exact href
    · exact absurd (hl.unique h.list ▸ hmem) hp
  · exact fun href => ⟨Or.inl ⟨⟨_, h.list, List.count_eq_one_of_mem h.list.nodup hmem⟩, href⟩, hzero⟩

/-- **One owner** of a received datagram for a connection, exactly when no netbuf points to
its pbuf before, and there is no connection, no mailbox or no netbuf for it. -/
theorem single_owner_iff (env : RxEnv) (hpl : Placed base) (h : Held base s.pool free p 0)
    (hfor : ForNetconn env.udp s.pool.mem p conn) (hzero : s.zeroed = []) {ret : Int}
    (hret : env.tRawInput s p = some (ret, s')) : s'.SingleOwner conn p ↔
      ¬ s.Referenced p ∧ (conn = 0 ∨ (s.netconns conn).recvmbox = tSysMboxNull ∨
        s.memp.mempTab .netbuf = 0) := by
  obtain ⟨k, mem, addr, port, hheld, heq⟩ := env.tRawInput_eq hpl h hfor
  obtain ⟨s1, hs1⟩ : ∃ s1 : Rx, s1 = { s with pool := ⟨mem, s.pool.pbufPool⟩ } := ⟨_, rfl⟩
  have hnetbufs : s1.netbufs = s.netbufs := by rw [hs1]
  rw [heq, ← hs1] at hret
  obtain ⟨s2, hrecv, hret⟩ := Option.bind_eq_some_iff.mp hret
  obtain ⟨s3, hfree, hret⟩ := Option.map_eq_some_iff.mp hret
  obtain ⟨-, rfl⟩ := Prod.mk.inj hret
  -- where `t_recv_udp` frees the pbuf
  have htwice : ∀ s0 : Rx, Held base s0.pool free p k → s0.netbufs = s.netbufs → s0.zeroed = [] →
      s0.free p = some s2 → (s3.SingleOwner conn p ↔ ¬ s.Referenced p) := by
    intro s0 h0 hnb hz hfree0
    obtain ⟨s2', hs2, hnb2, hz2, howned2, href2⟩ := Rx.free_held hpl h0
    obtain rfl := Option.some.inj (hs2.symm.trans hfree0)
    obtain ⟨hnb3, hz3, howned3⟩ := Rx.free_free hpl howned2 href2 hfree
    rw [Rx.singleOwner_iff howned3 (by rw [hz3, hz2, hz]; simp), Rx.Referenced, Rx.Referenced, hnb3,
      hnb2, hnb]
  -- where it does not
  have honce : Held base s2.pool free p k → s2.zeroed = [] →
      (s3.SingleOwner conn p ↔ ¬ s2.Referenced p) := by
    intro h2 hz
    obtain ⟨s3', hs3, hnb3, hz3, howned3, -⟩ := Rx.free_held hpl h2
    obtain rfl := Option.some.inj (hs3.symm.trans hfree)
    rw [Rx.singleOwner_iff howned3 (by rw [hz3, hz]; simp), Rx.Referenced, Rx.Referenced, hnb3]
  unfold Rx.tRecvUdp at hrecv
  by_cases hconn : conn = 0
  · rw [if_pos hconn] at hrecv
    rw [htwice s1 (by rw [hs1]; exact hheld) hnetbufs (by rw [hs1]; exact hzero) hrecv]
    exact (and_iff_left (Or.inl hconn)).symm
  rw [if_neg hconn] at hrecv
  by_cases hmbox : (s.netconns conn).recvmbox = tSysMboxNull
  · rw [if_neg (by rw [hs1]; exact not_not.mpr hmbox)] at hrecv
    obtain rfl := Option.some.inj hrecv
    rw [honce (by rw [hs1]; exact hheld) (by rw [hs1]; exact hzero), Rx.Referenced, Rx.Referenced,
      hnetbufs]
    exact (and_iff_left (Or.inr (Or.inl hmbox))).symm
  rw [if_pos (by rw [hs1]; exact hmbox)] at hrecv
  by_cases hmemp : s.memp.mempTab .netbuf = 0
  · have hmalloc : tMempMalloc s1.memp .netbuf = (0, s1.memp) := by
      rw [hs1, tMempMalloc, hmemp]
      rfl
    simp only [hmalloc, ↓reduceIte] at hrecv
    rw [htwice _ (by rw [hs1]; exact hheld) hnetbufs (by rw [hs1]; exact hzero) hrecv]
    exact (and_iff_left (Or.inr (Or.inr hmemp))).symm
  · obtain ⟨memp, hmalloc⟩ : ∃ memp, tMempMalloc s1.memp .netbuf =
        (s.memp.mempTab .netbuf + sizeofTMemp, memp) := by
      rw [hs1, tMempMalloc, if_pos hmemp]
      exact ⟨_, rfl⟩
    have hbuf : s.memp.mempTab .netbuf + sizeofTMemp ≠ 0 := by
      simp only [sizeofTMemp]
      omega
    simp only [hmalloc, if_neg hbuf] at hrecv
    obtain rfl := Option.some.inj hrecv
    rw [honce (by rw [hs1]; exact hheld) (by rw [hs1]; exact hzero)]
    -- the netbuf holds it
    refine iff_of_false (not_not.mpr ?_) fun hno =>
      hno.2.elim hconn fun hno => hno.elim hmbox hmemp
    exact ⟨_, _, Function.update_self .., Or.inl rfl⟩

end

/-! ## a frame -/

/-- `t_pbuf_copy_data`. -/
def PbufPool.tPbufCopyData (s : PbufPool) (p : Nat) (data : ByteMem) (size : Int) :
    Int × PbufPool :=
  let h := pbufHdr s.mem p
  if size > h.len.toNat ∨ size < 1 then (-1, s)
  else (0, { s with mem := s.mem.copy h.payload data size.toNat })

/-- `ether0_recv_data` up to `t_tcpip_input`: the pbuf, 0 if there is none. -/
def PbufPool.ether0RecvData (s : PbufPool) (frame : List UInt8) : Option (Nat × PbufPool) :=
  (PbufPool.tPbufAlloc s 0 (UInt16.ofNat frame.length) tPbufFlagPool).map fun r =>
    if r.1 = 0 then r
    else (r.1, (PbufPool.tPbufCopyData r.2 r.1 (frameMem frame) frame.length).2)

/-- A frame comes into the first free pbuf. -/
theorem PbufPool.Inv.ether0RecvData_eq {base p : Nat} {u : PbufPool.Use} {l : List Nat}
    (h : Inv base u (p :: l)) (hpl : Placed base) {frame : List UInt8} (hpos : 0 < frame.length)
    (hlen : frame.length ≤ 1514) : ∃ pool,
      PbufPool.ether0RecvData u.pool frame = some (p, pool) ∧ Held base pool l p 0 ∧
      (pbufHdr pool.mem p).totLen = UInt16.ofNat frame.length ∧
      (pbufHdr pool.mem p).len = UInt16.ofNat frame.length ∧
      ∀ i < frame.length, pool.mem (p + sizeofTPbuf + i) = frameMem frame i := by
  have hfit : (UInt16.ofNat frame.length + 0).toNat ≤ tPbufBufsize := by
    rw [UInt16.add_zero, UInt16.toNat_ofNat_of_lt' (show frame.length < 65536 by omega)]
    exact hlen
  obtain ⟨mem, halloc, hhdr, hinv⟩ := h.alloc_cons rfl hfit
  have hp : p ∈ addrs base := h.mem_of_free List.mem_cons_self
  have hin := addrs_inside hp
  have hend := hpl.fits
  have hslot : slot = 1546 := rfl
  have hbase := hpl.pos
  have hpay : (pbufHdr mem p).payload = p + sizeofTPbuf := by
    rw [hhdr, show (0 : UInt16).toNat = 0 from rfl, Nat.add_zero, UInt64.toNat_ofNat',
      Nat.mod_eq_of_lt (by simp only [sizeofTPbuf]; omega)]
  have hlenp : (pbufHdr mem p).len.toNat = frame.length := by
    rw [hhdr, UInt16.toNat_ofNat_of_lt' (show frame.length < 65536 by omega)]
  obtain ⟨mem', hmem'⟩ : ∃ mem', mem' = mem.copy (p + sizeofTPbuf) (frameMem frame) frame.length :=
    ⟨_, rfl⟩
  have hcopy : (PbufPool.tPbufCopyData ⟨mem, (pbufHdr u.pool.mem p).next⟩ p (frameMem frame)
      frame.length).2 = ⟨mem', (pbufHdr u.pool.mem p).next⟩ := by
    unfold PbufPool.tPbufCopyData
    simp only [hpay, hlenp]
    rw [if_neg (by omega), hmem', Int.toNat_natCast]
  -- the copy stays in the buffer
  have hsame : ∀ i, i < p + sizeofTPbuf ∨ p + slot ≤ i → mem' i = mem i := fun i hi => by
    rw [hmem']
    refine ByteMem.copy_apply_of_disjoint _ _ ?_
    simp only [sizeofTPbuf] at hi ⊢
    omega
  have hhdrs : ∀ q ∈ addrs base, pbufHdr mem' q = pbufHdr mem q := fun q hq =>
    Inv.hdr_of_buffer hsame hp hq
  have hinv' : Inv base ⟨⟨mem', (pbufHdr u.pool.mem p).next⟩, p :: u.live⟩ l :=
    hinv.of_same fun q hq => by rw [hhdrs q hq]; exact ⟨rfl, rfl, rfl⟩
  have howned : Owned base ⟨mem', (pbufHdr u.pool.mem p).next⟩ l ([p] ++ u.live) := by
    have hp := hinv'.owned (List.mem_cons_self (a := p) (l := u.live))
    rwa [List.erase_cons_head] at hp
  have hdata : ∀ i < frame.length, mem' (p + sizeofTPbuf + i) = frameMem frame i := fun i hi => by
    rw [hmem', ByteMem.copy_apply_of_mem _ _ (by omega) (by omega), Nat.add_sub_cancel_left]
  refine ⟨⟨mem', (pbufHdr u.pool.mem p).next⟩, ?_, ⟨howned.left, ?_, ?_⟩, ?_, ?_, hdata⟩
  · rw [PbufPool.ether0RecvData, halloc, Option.map_some, if_neg (by omega), hcopy]
  · rw [hhdrs p hp, hhdr]
  · rw [hhdrs p hp, hpay, Nat.add_zero]
  · rw [hhdrs p hp, hhdr]
  · rw [hhdrs p hp, hhdr]

/-- The receiver of the three bytes is a connection, at 8192. -/
def threeEnv : RxEnv where
  udp := TTcp.tSetUdpRecv Udp.receiver.udp 0 (some .tRecvUdp) 8192
  other := fun _ _ _ => none
  app := fun _ _ _ _ _ _ => none
  post := true

/-- It has a mailbox, and there is one netbuf. -/
def threeRx (pool : PbufPool) : Rx where
  pool := pool
  memp := ⟨onesMem.mem, fun _ => 4096⟩
  netbufs := fun _ => none
  netconns := fun _ => ⟨1, 0⟩
  mboxes := fun _ => []
  zeroed := []

/-- The frame of the three bytes is for it. -/
theorem threeFrame_forNetconn {mem : ByteMem} {p : Nat}
    (htot : (pbufHdr mem p).totLen = UInt16.ofNat Udp.threeFrame.length)
    (hlen : (pbufHdr mem p).len = UInt16.ofNat Udp.threeFrame.length)
    (hdata : ∀ i < Udp.threeFrame.length,
      mem (p + sizeofTPbuf + i) = frameMem Udp.threeFrame i) :
    ForNetconn threeEnv.udp mem p 8192 := by
  have hlength : Udp.threeFrame.length = 45 := by decide +kernel
  have h16 : ∀ i, i + 2 ≤ 45 →
      mem.get16 (p + sizeofTPbuf + i) = (frameMem Udp.threeFrame).get16 i := fun i hi =>
    ByteMem.get16_congr fun j hj => by rw [Nat.add_assoc _ i j]; exact hdata _ (by omega)
  have hdst : mem.get32 (p + sizeofTPbuf + 30) = (frameMem Udp.threeFrame).get32 30 :=
    ByteMem.get32_congr fun j hj => by rw [Nat.add_assoc _ 30 j]; exact hdata _ (by omega)
  have hhl : (tIphHl mem (p + sizeofTPbuf + 14)).toNat = 5 := by
    rw [tIphHl, h16 14 (by omega)]
    decide +kernel
  rw [hlength] at htot hlen
  have hrest : ((UInt16.ofNat 45 : UInt16) - 14).toNat = 31 := by decide
  have hudp : (htons (mem.get16 (p + sizeofTPbuf + 38))).toNat = 11 := by
    rw [h16 38 (by omega)]
    decide +kernel
  refine ⟨?_, ?_, ?_, ?_, ?_, ?_, ?_⟩
  · rw [h16 12 (by omega)]
    decide +kernel
  · rw [tIphV, h16 14 (by omega)]
    decide +kernel
  · rw [tIphProto, Nat.add_assoc _ 14 8, h16 22 (by omega)]
    decide +kernel
  · rw [hhl, hlen, hrest]
    decide
  · rw [hhl, htot, hrest]
    decide
  · rw [hhl, htot, hrest]
    show (htons (mem.get16 (p + sizeofTPbuf + 14 + 20 + 4))).toNat + 20 ≤ 31
    rw [show p + sizeofTPbuf + 14 + 20 + 4 = p + sizeofTPbuf + 38 by omega, hudp]
  · rw [hhl]
    refine ⟨0, ?_, rfl, rfl⟩
    show udpLookup _ (ntohs (mem.get16 (p + sizeofTPbuf + 14 + 20 + 2)))
      (mem.get32 (p + sizeofTPbuf + 14 + 16)) = _
    rw [show p + sizeofTPbuf + 14 + 20 + 2 = p + sizeofTPbuf + 36 by omega,
      show p + sizeofTPbuf + 14 + 16 = p + sizeofTPbuf + 30 by omega, hdst, h16 36 (by omega)]
    decide +kernel

/-- It comes in, and `t_raw_input` returns. -/
theorem threeFrame_returns : ∃ pool l ret s', Held 4096 pool l 4096 0 ∧
    ForNetconn threeEnv.udp pool.mem 4096 8192 ∧
    threeEnv.tRawInput (threeRx pool) 4096 = some (ret, s') := by
  have hinv := sample_placed.init ⟨fun _ => 0xff, 0⟩
  rw [show addrs 4096 = 4096 :: (addrs 4096).tail by decide] at hinv
  obtain ⟨pool, -, hheld, htot, hlen, hdata⟩ := hinv.ether0RecvData_eq sample_placed
    (show 0 < Udp.threeFrame.length by decide +kernel)
    (show Udp.threeFrame.length ≤ 1514 by decide +kernel)
  have hfor := threeFrame_forNetconn htot hlen hdata
  obtain ⟨k, mem, addr, port, hheld', heq⟩ := threeEnv.tRawInput_eq (s := threeRx pool)
    sample_placed hheld hfor
  obtain ⟨s1, hs1⟩ : ∃ s1 : Rx, s1 =
      { threeRx pool with pool := ⟨mem, (threeRx pool).pool.pbufPool⟩ } := ⟨_, rfl⟩
  obtain ⟨s2, hrecv, hpool⟩ : ∃ s2, s1.tRecvUdp threeEnv.post 8192 4096 addr port = some s2 ∧
      s2.pool = ⟨mem, (threeRx pool).pool.pbufPool⟩ := by
    rw [hs1]
    exact ⟨_, rfl, rfl⟩
  rw [← hpool] at hheld'
  obtain ⟨s3, hfree, -⟩ := Rx.free_held sample_placed hheld'
  refine ⟨pool, _, 0, s3, hheld, hfor, ?_⟩
  rw [heq, ← hs1, hrecv, Option.bind_some, hfree]
  rfl

theorem single_owner_three : ∃ pool ret s',
    threeEnv.tRawInput (threeRx pool) 4096 = some (ret, s') ∧ (s'.SingleOwner 8192 4096 ↔
      ¬ (threeRx pool).Referenced 4096 ∧ (8192 = 0 ∨
        ((threeRx pool).netconns 8192).recvmbox = tSysMboxNull ∨
        (threeRx pool).memp.mempTab .netbuf = 0)) := by
  obtain ⟨pool, l, ret, s', hheld, hfor, hret⟩ := threeFrame_returns
  exact ⟨pool, ret, s', hret, single_owner_iff threeEnv sample_placed hheld hfor rfl hret⟩

/-- With a mailbox and a netbuf, the pbuf is free and in the netbuf. -/
theorem not_single_owner : ¬ ∀ (env : RxEnv) (base p conn : Nat) (s s' : Rx) (free : List Nat)
    (ret : Int), Placed base → Held base s.pool free p 0 → ForNetconn env.udp s.pool.mem p conn →
    s.zeroed = [] → ¬ s.Referenced p → env.tRawInput s p = some (ret, s') →
      s'.SingleOwner conn p := by
  intro hall
  obtain ⟨pool, l, ret, s', hheld, hfor, hret⟩ := threeFrame_returns
  have hown := hall threeEnv 4096 4096 8192 (threeRx pool) s' l ret sample_placed hheld hfor rfl
    (by rintro ⟨a, b, hb, -⟩; cases hb) hret
  have hcond := ((single_owner_iff threeEnv sample_placed hheld hfor rfl hret).mp hown).2
  simp [threeRx] at hcond

end TTcp
