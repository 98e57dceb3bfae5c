import TTcp.Tcp.Header

/-!
# TTcp.Tcp.Pcb

TCP segments and control blocks (`t_tcp.h`), the pools their memory comes
from, and `t_tcp_seg_free`.

A segment owns its pbuf: nothing else points to it, so the pbuf is part of the
segment's value.  The memory block of a segment keeps its identity, `id`.
-/

namespace TTcp

/-! ## segments -/

/-- The place of a block in the `T_MEMP_TCP_SEG` pool. -/
abbrev SegId := Fin tMempNumTcpSeg

/-- `struct t_tcp_seg`, queued.  `tcphdr` is an offset in the buffer of `p`. -/
structure TcpSeg where
  id : SegId
  p : Pbuf
  len : UInt16
  tcphdr : Nat

namespace TcpSeg

/-- `ntohl(seg->tcphdr->seqno)`. -/
def seqno (seg : TcpSeg) : UInt32 := tcphSeqno seg.p.mem seg.tcphdr

/-- The word of the segment's header that packs its length and flags. -/
def word (seg : TcpSeg) : UInt16 := tTcphWord seg.p.mem seg.tcphdr

/-- `T_TCPH_FLAGS(seg->tcphdr)`. -/
def flags (seg : TcpSeg) : UInt16 := tTcphFlags seg.p.mem seg.tcphdr

theorem flags_eq (seg : TcpSeg) : seg.flags = seg.word &&& tcpFlags := rfl

/-- `T_TCP_TCPLEN`, computed in `int`. -/
def tcplen (seg : TcpSeg) : Nat :=
  seg.len.toNat + if seg.flags &&& tcpFin ≠ 0 ∨ seg.flags &&& tcpSyn ≠ 0 then 1 else 0

/-- The data behind a header without options. -/
def payload (seg : TcpSeg) : List UInt8 := seg.p.mem.slice (seg.tcphdr + 20) seg.len.toNat

@[simp] theorem length_payload (seg : TcpSeg) : seg.payload.length = seg.len.toNat := by
  simp [payload]

/-- `T_TCPH_SET_FLAG(seg->tcphdr, flags)`. -/
def setFlag (seg : TcpSeg) (flags : UInt16) : TcpSeg :=
  { seg with p := tTcphSetFlag seg.p seg.tcphdr flags }

end TcpSeg

/-- The segments follow on one another in the sequence space from `a` to `b`. -/
def Contiguous (a : UInt32) : List TcpSeg → UInt32 → Prop
  | [], b => a = b
  | seg :: q, b => seg.seqno = a ∧ Contiguous (a + UInt32.ofNat seg.tcplen) q b

@[simp] theorem contiguous_nil {a b : UInt32} : Contiguous a [] b ↔ a = b := Iff.rfl

@[simp] theorem contiguous_cons {a b : UInt32} {seg : TcpSeg} {q : List TcpSeg} :
    Contiguous a (seg :: q) b ↔ seg.seqno = a ∧ Contiguous (a + UInt32.ofNat seg.tcplen) q b :=
  Iff.rfl

theorem contiguous_append {a b : UInt32} {q q' : List TcpSeg} :
    Contiguous a (q ++ q') b ↔ ∃ c, Contiguous a q c ∧ Contiguous c q' b := by
  induction q generalizing a with
  | nil => simp
  | cons seg q ih => simp [ih, and_assoc]

/-- The end of a contiguous queue, computed from its beginning. -/
theorem Contiguous.end_eq {a b : UInt32} {q : List TcpSeg} (h : Contiguous a q b) :
    b = a + UInt32.ofNat (q.map TcpSeg.tcplen).sum := by
  induction q generalizing a with
  | nil =>
      obtain rfl := h
      simp
  | cons seg q ih =>
      rw [ih h.2, List.map_cons, List.sum_cons, UInt32.ofNat_add, UInt32.add_assoc]

/-! ## control blocks -/

/-- `enum tcp_state`. -/
inductive TcpState where
  | closed | listen | synSent | synRcvd | established | finWait1 | finWait2 | closeWait
  | closing | lastAck | timeWait
deriving DecidableEq, Repr

@[simp] def tfAckDelay : UInt8 := 0x01
@[simp] def tfAckNow : UInt8 := 0x02

/-- `struct t_tcp_pcb`, less the fields that nothing reads or sets and the
link `next`, which the list of active control blocks keeps. -/
structure TcpPcb where
  localIp : UInt32
  remoteIp : UInt32
  tos : UInt8
  ttl : UInt8
  state : TcpState
  prio : UInt8
  connected : Option Nat
  localPort : UInt16
  remotePort : UInt16
  flags : UInt8
  rcvNxt : UInt32
  rcvWnd : UInt16
  tmr : UInt32
  rtime : UInt16
  mss : UInt16
  rttest : UInt32
  rtseq : UInt32
  sa : Int
  sv : Int
  rto : UInt16
  lastack : UInt32
  cwnd : UInt16
  ssthresh : UInt16
  sndNxt : UInt32
  sndMax : UInt32
  sndWnd : UInt32
  sndWl1 : UInt32
  sndWl2 : UInt32
  sndLbb : UInt32
  sndBuf : UInt16
  sndQueuelen : UInt8
  unsent : List TcpSeg
  unacked : List TcpSeg
  keepalive : UInt32
  keepCnt : UInt8

/-- A control block of zero bytes. -/
def TcpPcb.zero : TcpPcb where
  localIp := 0
  remoteIp := 0
  tos := 0
  ttl := 0
  state := .closed
  prio := 0
  connected := none
  localPort := 0
  remotePort := 0
  flags := 0
  rcvNxt := 0
  rcvWnd := 0
  tmr := 0
  rtime := 0
  mss := 0
  rttest := 0
  rtseq := 0
  sa := 0
  sv := 0
  rto := 0
  lastack := 0
  cwnd := 0
  ssthresh := 0
  sndNxt := 0
  sndMax := 0
  sndWnd := 0
  sndWl1 := 0
  sndWl2 := 0
  sndLbb := 0
  sndBuf := 0
  sndQueuelen := 0
  unsent := []
  unacked := []
  keepalive := 0
  keepCnt := 0

/-! ## pools -/

/-- The free pbufs and the free segment blocks, each list in the order in
which they are handed out. -/
structure Pools where
  pbufPool : List Pbuf
  segPool : List SegId

/-- The pools after `t_pbuf_init` and `t_memp_init`. -/
def Pools.init (mem : PbufId → ByteMem) : Pools := ⟨tPbufInit mem, List.finRange tMempNumTcpSeg⟩

/-- `t_tcp_seg_free`: of a block whose `p` may still be null. -/
def tTcpSegFree (pools : Pools) (seg : SegId × Option Pbuf) : UInt8 × Pools :=
  match seg.2 with
  | some p =>
      let (count, pbufPool) := tPbufFree pools.pbufPool [p]
      (UInt8.ofNat count, ⟨pbufPool, seg.1 :: pools.segPool⟩)
  | none => (0, { pools with segPool := seg.1 :: pools.segPool })

/-- `t_tcp_segs_free`. -/
def tTcpSegsFree (pools : Pools) : List (SegId × Option Pbuf) → UInt8 × Pools
  | [] => (0, pools)
  | seg :: segs =>
      let (count, pools) := tTcpSegFree pools seg
      let (count', pools) := tTcpSegsFree pools segs
      (count + count', pools)

/-- A queued segment, as `t_tcp_seg_free` takes it. -/
def TcpSeg.block (seg : TcpSeg) : SegId × Option Pbuf := (seg.id, some seg.p)

end TTcp
