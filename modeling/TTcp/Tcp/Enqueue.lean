import TTcp.Tcp.Pcb

/-!
# TTcp.Tcp.Enqueue

`t_tcp_enqueue` and `t_tcp_write` (`core/t_tcp_out.c`).

The loop of `t_tcp_enqueue` takes a segment block per round, so it recurses on
the list of free blocks.  One round either appends a segment to the queue
under construction or fails, and then `memerr` frees what is queued so far
together with what the failing round holds.
-/

namespace TTcp

/-- The arguments of a call of `t_tcp_enqueue`, less the length. -/
structure EnqueueArgs where
  arg : Option ByteMem
  flags : UInt8
  copy : Bool
  optdata : Option ByteMem
  optlen : UInt8

/-- The local variables of the loop.  `ptr` counts from `arg`. -/
structure EnqueueState where
  pbufPool : List Pbuf
  queue : List TcpSeg
  left : Nat
  seqno : UInt32
  ptr : Nat
  queuelen : UInt8
  seglen : UInt16

/-- The pbuf of a new segment, filled with its data, and the queue slots it
costs.  Without options and without `copy` the data goes through a pbuf of its
own: `t_pbuf_cat` copies it, and then that pbuf is forgotten. -/
def enqueueAlloc (a : EnqueueArgs) (pbufPool : List Pbuf) (seglen : UInt16) (ptr : Nat) :
    Option (Pbuf × UInt8) × List Pbuf :=
  match a.optdata with
  | some _ =>
      match tPbufAlloc pbufPool tPbufTransport a.optlen.toUInt16 tPbufFlagPool with
      | (none, pbufPool) => (none, pbufPool)
      | (some p, pbufPool) => (some (p, 1), pbufPool)
  | none =>
      if a.copy then
        match tPbufAlloc pbufPool tPbufTransport seglen tPbufFlagPool with
        | (none, pbufPool) => (none, pbufPool)
        | (some p, pbufPool) =>
            match a.arg with
            | some arg => (some (p.memcpy p.payload (arg.shift ptr) seglen.toNat, 1), pbufPool)
            | none => (some (p, 1), pbufPool)
      else
        match tPbufAlloc pbufPool tPbufTransport seglen tPbufFlagPool with
        | (none, pbufPool) => (none, pbufPool)
        | (some data, pbufPool) =>
            match tPbufAlloc pbufPool tPbufTransport 0 tPbufFlagPool with
            | (none, pbufPool) => (none, (tPbufFree pbufPool [data]).2)
            | (some p, pbufPool) =>
                -- a null `arg` has no bytes to speak of
                let arg := a.arg.getD fun _ => 0
                (some (tPbufCat p (arg.shift ptr) data.len, 2), pbufPool)

/-- One round of the loop, with the block `id` for its segment.  A failing
round leaves the pbuf it got, if any, to `memerr`. -/
def tTcpEnqueueRound (pcb : TcpPcb) (a : EnqueueArgs) (id : SegId) (st : EnqueueState) :
    Except (List Pbuf × Option Pbuf) EnqueueState :=
  let seglen := if pcb.mss.toNat < st.left then pcb.mss else UInt16.ofNat st.left
  match enqueueAlloc a st.pbufPool seglen st.ptr with
  | (none, pbufPool) => .error (pbufPool, none)
  | (some (p, slots), pbufPool) =>
      let dataptr := p.payload
      let queuelen := st.queuelen + slots
      if tTcpSndQueuelen < queuelen then .error (pbufPool, some p)
      else
        let (r, p) := tPbufHeader p (-tTcpHlen)
        if r ≠ 0 then .error (pbufPool, some p)
        else
          let p := tcphBuild p p.payload pcb.localPort pcb.remotePort st.seqno a.flags.toUInt16
          let p := match a.optdata with
            | none => tTcphHdrlenSet p p.payload 5
            | some optdata =>
                (tTcphHdrlenSet p p.payload (5 + a.optlen.toUInt16 / 4)).memcpy dataptr optdata
                  a.optlen.toNat
          .ok {
            pbufPool
            queue := st.queue ++ [{ id, p, len := seglen, tcphdr := p.payload }]
            left := st.left - seglen.toNat
            seqno := st.seqno + seglen.toUInt32
            ptr := st.ptr + seglen.toNat
            queuelen
            seglen }

/-- The loop: `while (queue == NULL || left > 0)`, over the free blocks.
`memerr` frees the queue. -/
def tTcpEnqueueLoop (pcb : TcpPcb) (a : EnqueueArgs) (st : EnqueueState) :
    List SegId → Except Pools (List SegId × EnqueueState)
  | [] =>
      if st.queue ≠ [] ∧ st.left = 0 then .ok ([], st)
      else .error (tTcpSegsFree ⟨st.pbufPool, []⟩ (st.queue.map TcpSeg.block)).2
  | id :: segPool =>
      if st.queue ≠ [] ∧ st.left = 0 then .ok (id :: segPool, st)
      else match tTcpEnqueueRound pcb a id st with
        | .ok st => tTcpEnqueueLoop pcb a st segPool
        | .error (pbufPool, p) =>
            .error (tTcpSegsFree ⟨pbufPool, segPool⟩ (st.queue.map TcpSeg.block ++ [(id, p)])).2

/-- The test for chaining the first new segment into the last unsent one. -/
def chains (mss : UInt16) (flags : UInt8) (useg seg : TcpSeg) : Bool :=
  useg.tcplen ≠ 0 && useg.flags &&& (tcpSyn ||| tcpFin) == 0 &&
    flags.toUInt16 &&& (tcpSyn ||| tcpFin) == 0 && useg.len.toNat + seg.len.toNat ≤ mss.toNat

/-- `useg` with the data of `seg` appended; the pbuf of `seg` is forgotten. -/
def TcpSeg.chain (useg seg : TcpSeg) : TcpSeg :=
  let p := (tPbufHeader seg.p tTcpHlen).2
  { useg with p := tPbufCat useg.p p.payloadMem p.len, len := useg.len + seg.len }

section
variable (useg seg : TcpSeg)

@[simp] theorem TcpSeg.chain_id : (useg.chain seg).id = useg.id := by rw [chain]

@[simp] theorem TcpSeg.chain_tcphdr : (useg.chain seg).tcphdr = useg.tcphdr := by rw [chain]

@[simp] theorem TcpSeg.chain_len : (useg.chain seg).len = useg.len + seg.len := by rw [chain]

end

/-- Link the new segments to the unsent queue: the queue, the free blocks, and
whether the last new segment still exists. -/
def enqueueLink (mss : UInt16) (flags : UInt8) (unsent queue : List TcpSeg)
    (segPool : List SegId) : List TcpSeg × List SegId × Bool :=
  match unsent.getLast?, queue with
  | some useg, seg :: rest =>
      if chains mss flags useg seg then
        (unsent.dropLast ++ useg.chain seg :: rest, seg.id :: segPool, !rest.isEmpty)
      else (unsent ++ queue, segPool, true)
  | _, _ => (unsent ++ queue, segPool, true)

/-- Without chaining, the new segments go behind the unsent ones. -/
theorem enqueueLink_append {mss : UInt16} {flags : UInt8} {unsent rest : List TcpSeg} {seg : TcpSeg}
    (segPool : List SegId) (h : ∀ useg ∈ unsent.getLast?, chains mss flags useg seg = false) :
    enqueueLink mss flags unsent (seg :: rest) segPool =
      (unsent ++ seg :: rest, segPool, true) := by
  unfold enqueueLink
  cases hl : unsent.getLast? with
  | none => rfl
  | some useg => simp [h useg (by simp [hl])]

/-- `t_tcp_enqueue`. -/
def tTcpEnqueue (pools : Pools) (pcb : TcpPcb) (arg : Option ByteMem) (len : UInt16)
    (flags : UInt8) (copy : Bool) (optdata : Option ByteMem) (optlen : UInt8) :
    ErrT × Pools × TcpPcb :=
  if pcb.sndBuf < len then (-1, pools, pcb)
  else if tTcpSndQueuelen ≤ pcb.sndQueuelen then (-1, pools, pcb)
  else
    let st : EnqueueState := {
      pbufPool := pools.pbufPool
      queue := []
      left := len.toNat
      seqno := pcb.sndLbb
      ptr := 0
      queuelen := pcb.sndQueuelen
      seglen := 0 }
    match tTcpEnqueueLoop pcb ⟨arg, flags, copy, optdata, optlen⟩ st pools.segPool with
    | .error pools => (-1, pools, pcb)
    | .ok (segPool, st) =>
        let (unsent, segPool, seg) := enqueueLink pcb.mss flags pcb.unsent st.queue segPool
        let len := if flags.toUInt16 &&& tcpSyn ≠ 0 ∨ flags.toUInt16 &&& tcpFin ≠ 0 then len + 1
          else len
        let unsent := if seg ∧ 0 < st.seglen then unsent.modifyLast (TcpSeg.setFlag · tcpPsh)
          else unsent
        (0, ⟨st.pbufPool, segPool⟩, { pcb with
          unsent
          sndLbb := pcb.sndLbb + len.toUInt32
          sndBuf := pcb.sndBuf - len
          sndQueuelen := st.queuelen })

/-- `t_tcp_write`. -/
def tTcpWrite (pools : Pools) (pcb : TcpPcb) (arg : ByteMem) (len : UInt16) (copy : Bool) :
    ErrT × Pools × TcpPcb :=
  if pcb.state = .established ∨ pcb.state = .closeWait ∨ pcb.state = .synSent ∨
      pcb.state = .synRcvd then
    if 0 < len then tTcpEnqueue pools pcb (some arg) len 0 copy none 0
    else (errOk, pools, pcb)
  else (errConn, pools, pcb)

end TTcp
