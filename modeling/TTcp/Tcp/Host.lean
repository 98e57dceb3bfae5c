import TTcp.Lib.Run
import TTcp.Tcp.Input

/-!
# TTcp.Tcp.Host

The TCP layer of a host (`core/t_tcp.c`, `core/t_tcp_in.c`): its control
blocks, the linked list of the active ones, and the calls on them.

The list is kept as the program keeps it, by a head pointer and a link per
control block.  The demultiplexing loop of `t_tcp_input` follows the links, so
it need not end; a bound that covers all its states decides whether it does
(`demux_eq_none_iff`).

A run is a sequence of calls.  In reality nothing follows a call that hangs or
crashes; runs go on, in the state that such a call leaves.
-/

namespace TTcp

/-- The globals of the TCP layer, with the pools and interfaces it uses. -/
structure TcpHost where
  pools : Pools
  net : Net
  tcpTicks : UInt32
  /-- The `iss` of `t_tcp_next_iss`. -/
  iss : UInt32
  /-- The `times` of `t_tcp_new_port`. -/
  portTimes : Nat
  tcpPcbPool : List TcpPcbId
  pcb : TcpPcbId → TcpPcb
  /-- The link of a control block. -/
  next : TcpPcbId → Option TcpPcbId
  tcpActivePcbs : Option TcpPcbId

namespace TcpHost

/-- Replace a control block. -/
def setPcb (h : TcpHost) (i : TcpPcbId) (pcb : TcpPcb) : TcpHost :=
  { h with pcb := Function.update h.pcb i pcb }

/-- What output depends on. -/
def outEnv (h : TcpHost) (indet : Nat → Option Netif) : OutEnv := ⟨h.net, h.tcpTicks, indet⟩

end TcpHost

/-! ## new control blocks -/

/-- `t_tcp_next_iss`: the initial sequence number and the next `iss`. -/
def tTcpNextIss (h : TcpHost) : UInt32 × TcpHost :=
  let iss := h.iss + h.tcpTicks
  (iss, { h with iss })

/-- `t_tcp_new_port`. -/
def tTcpNewPort (h : TcpHost) : UInt16 × TcpHost :=
  let times := h.portTimes + 1
  (UInt16.ofNat (4096 + times), { h with portTimes := times })

@[simp] def tTcpPrioNormal : UInt8 := 64
@[simp] def tTcpTtl : UInt8 := 255
@[simp] def tTcpSlowInterval : UInt16 := 500
@[simp] def tTcpKeepdefault : UInt32 := 7200000

/-- The fields of a new control block; the rest is zero. -/
def tcpPcbInit (iss ticks : UInt32) : TcpPcb :=
  { TcpPcb.zero with
    prio := tTcpPrioNormal
    sndBuf := tTcpSndBuf
    rcvWnd := tTcpWnd
    ttl := tTcpTtl
    mss := tTcpMss
    rto := 3000 / tTcpSlowInterval
    sv := 3000 / 500
    cwnd := 1
    sndWl2 := iss
    sndNxt := iss
    sndMax := iss
    lastack := iss
    sndLbb := iss
    tmr := ticks
    keepalive := tTcpKeepdefault }

/-- `t_tcp_alloc`, as `t_tcp_new` calls it. -/
def tTcpNew (h : TcpHost) : Option TcpPcbId × TcpHost :=
  match h.tcpPcbPool with
  | [] => (none, h)
  | i :: tcpPcbPool =>
      let (iss, h) := tTcpNextIss { h with tcpPcbPool }
      (some i, { h.setPcb i (tcpPcbInit iss h.tcpTicks) with
        next := Function.update h.next i none })

/-! ## connecting -/

/-- `T_TCP_REG(&tcp_active_pcbs, npcb)`. -/
def tTcpReg (h : TcpHost) (i : TcpPcbId) : TcpHost :=
  { h with next := Function.update h.next i h.tcpActivePcbs, tcpActivePcbs := some i }

/-- The MSS option of the SYN. -/
def mssOption (mss : UInt16) : ByteMem :=
  ByteMem.set32 (fun _ => 0) 0 (htonl (((2 : UInt32) <<< 24) ||| ((4 : UInt32) <<< 16) |||
    ((mss.toUInt32 / 256) <<< 8) ||| (mss.toUInt32 &&& (255 : UInt32))))

/-- The fields that `t_tcp_connect` sets before it enqueues the SYN. -/
def tcpConnectPcb (pcb : TcpPcb) (ipaddr : UInt32) (port localPort : UInt16) (iss : UInt32)
    (connected : Option Nat) : TcpPcb :=
  { pcb with
    remoteIp := ipaddr
    remotePort := port
    localPort
    rcvNxt := 0
    sndNxt := iss
    lastack := iss - 1
    sndLbb := iss - 1
    rcvWnd := tTcpWnd
    sndWnd := tTcpWnd.toUInt32
    mss := tTcpMss
    cwnd := 1
    ssthresh := tTcpMss * 10
    state := .synSent
    connected }

/-- What a call tells its caller and the world.  `pcb` is the control block it
was about. -/
structure TcpOut where
  fate : Fate
  pcb : Option TcpPcbId
  evs : List Event

/-- `t_tcp_connect`. -/
def tTcpConnect (h : TcpHost) (indet : Nat → Option Netif) (i : TcpPcbId) (ipaddr : UInt32)
    (port : UInt16) (connected : Option Nat) : TcpOut × TcpHost :=
  let (localPort, h) := if (h.pcb i).localPort = 0 then tTcpNewPort h else ((h.pcb i).localPort, h)
  let (iss, h) := tTcpNextIss h
  let pcb := tcpConnectPcb (h.pcb i) ipaddr port localPort iss connected
  let h := tTcpReg h i
  let (ret, pools, pcb) := tTcpEnqueue h.pools pcb none 0 tcpSyn.toUInt8 false
    (some (mssOption pcb.mss)) 4
  if ret = errOk then
    let (_, pools, pcb, evs) := tTcpOutput (h.outEnv indet) pools pcb
    (⟨.returns ret, some i, evs⟩, { h.setPcb i pcb with pools })
  else (⟨.returns ret, some i, []⟩, { h.setPcb i pcb with pools })

/-! ## input -/

/-- The key of a segment: its ports and addresses. -/
structure TcpKey where
  src : UInt16
  dest : UInt16
  ipSrc : UInt32
  ipDst : UInt32
deriving DecidableEq

/-- The test of the demultiplexing loop. -/
def TcpPcb.matches (pcb : TcpPcb) (k : TcpKey) : Bool :=
  pcb.remotePort == k.src && pcb.localPort == k.dest && !tIpAddrCmp pcb.remoteIp k.ipSrc &&
    !tIpAddrCmp pcb.localIp k.ipDst

/-- One round of the demultiplexing loop, at `pcb` with `prev` behind it.  It
ends with the control block found and its predecessor. -/
def demuxRound (h : TcpHost) (k : TcpKey) : Option TcpPcbId × Option TcpPcbId →
    Loop.Step (Option TcpPcbId × Option TcpPcbId) (Option (TcpPcbId × Option TcpPcbId))
  | (none, _) => .done none
  | (some i, prev) => if (h.pcb i).matches k then .done (some (i, prev)) else .next (h.next i, some i)

/-- The demultiplexing loop: `none` when it does not end. -/
def demux (h : TcpHost) (k : TcpKey) : Option (Option (TcpPcbId × Option TcpPcbId)) :=
  Loop.run (demuxRound h k) ((tMempNumTcpPcb + 1) * (tMempNumTcpPcb + 1)) (h.tcpActivePcbs, none)

/-- Move the control block found to the front of the list. -/
def moveToFront (h : TcpHost) (i : TcpPcbId) (prev : Option TcpPcbId) : TcpHost :=
  match prev with
  | none => h
  | some b =>
      let h := { h with next := Function.update h.next b (h.next i) }
      { h with next := Function.update h.next i h.tcpActivePcbs, tcpActivePcbs := some i }

/-- The first half of `t_tcp_input`: strip the IP header, drop short packets,
and bring the TCP header into host byte order.  The payload pointer stands on
the IP header. -/
def tTcpInputHeader (p : Pbuf) : Pbuf × Option (Incoming × TcpKey) :=
  let iphdr := p.payload
  let (vhl, p) := p.rd16 iphdr
  let hl := (((htons vhl >>> 8) &&& 0x0f).toNat * 4)
  let tcphdr := iphdr + hl
  let (r, p) := tPbufHeader p hl
  if r ≠ 0 ∨ p.totLen < UInt16.ofNat tTcpHlen then (p, none)
  else
    let (word, p) := p.rd16 (tcphdr + 12)
    let hdrlen := ntohs word >>> 12
    let (_, p) := tPbufHeader p (hdrlen.toNat * 4)
    let (src, p) := p.rd16 tcphdr
    let p := p.set16 tcphdr (ntohs src)
    let (dest, p) := p.rd16 (tcphdr + 2)
    let p := p.set16 (tcphdr + 2) (ntohs dest)
    let (seqno, p) := p.rd32 (tcphdr + 4)
    let p := p.set32 (tcphdr + 4) (ntohl seqno)
    let (ackno, p) := p.rd32 (tcphdr + 8)
    let p := p.set32 (tcphdr + 8) (ntohl ackno)
    let (wnd, p) := p.rd16 (tcphdr + 14)
    let p := p.set16 (tcphdr + 14) (ntohs wnd)
    let flags := ntohs word &&& tcpFlags
    let (ipSrc, p) := p.rd32 (iphdr + 12)
    let (ipDst, p) := p.rd32 (iphdr + 16)
    (p, some (⟨p, tcphdr, ntohl seqno, ntohl ackno, flags⟩, ⟨ntohs src, ntohs dest, ipSrc, ipDst⟩))

/-- `t_tcp_input`. -/
def tTcpInput (h : TcpHost) (indet : Nat → Option Netif) (cbRet : ErrT) (p : Pbuf) :
    TcpOut × Pbuf × TcpHost :=
  match tTcpInputHeader p with
  | (p, none) => (⟨.returns (-1), none, []⟩, p, h)
  | (p, some (s, k)) =>
      match demux h k with
      | none => (⟨.hangs, none, []⟩, p, h)
      | some none => (⟨.returns 0, none, []⟩, p, h)
      | some (some (i, prev)) =>
          let h := moveToFront h i prev
          let (fate, pools, pcb, p, evs) := tTcpReceive (h.outEnv indet) cbRet h.pools (h.pcb i) s
          (⟨fate, some i, evs⟩, p, { h.setPcb i pcb with pools })

/-! ## runs -/

/-- A call into the TCP layer, or what the rest of the program does in between
to the pools and the clock. -/
inductive TcpOp where
  | new
  | connect (i : TcpPcbId) (ipaddr : UInt32) (port : UInt16) (connected : Option Nat)
      (indet : Nat → Option Netif)
  | write (i : TcpPcbId) (arg : ByteMem) (len : UInt16) (copy : Bool)
  | output (i : TcpPcbId) (indet : Nat → Option Netif)
  | input (p : Pbuf) (cbRet : ErrT) (indet : Nat → Option Netif)
  | other (pools : Pools) (tcpTicks : UInt32)

/-- The call is a connect of `i`. -/
def TcpOp.Connects (i : TcpPcbId) : TcpOp → Prop
  | .connect j _ _ _ _ => j = i
  | _ => False

namespace TcpHost

/-- One call: what comes of it, and the state after it. -/
def exec (h : TcpHost) : TcpOp → TcpOut × TcpHost
  | .new =>
      let (i, h) := tTcpNew h
      (⟨.returns 0, i, []⟩, h)
  | .connect i ipaddr port connected indet => tTcpConnect h indet i ipaddr port connected
  | .write i arg len copy =>
      let (ret, pools, pcb) := tTcpWrite h.pools (h.pcb i) arg len copy
      (⟨.returns ret, some i, []⟩, { h.setPcb i pcb with pools })
  | .output i indet =>
      let (ret, pools, pcb, evs) := tTcpOutput (h.outEnv indet) h.pools (h.pcb i)
      (⟨.returns ret, some i, evs⟩, { h.setPcb i pcb with pools })
  | .input p cbRet indet =>
      let (out, _, h) := tTcpInput h indet cbRet p
      (out, h)
  | .other pools tcpTicks => (⟨.returns 0, none, []⟩, { h with pools, tcpTicks })

def step (h : TcpHost) (op : TcpOp) : TcpHost := (h.exec op).2

/-- After initialisation: all control blocks are free and none is active.  The
memory, the pools, the interfaces and the counters may hold anything. -/
structure Boot (h : TcpHost) : Prop where
  pool : h.tcpPcbPool = List.finRange tMempNumTcpPcb
  active : h.tcpActivePcbs = none

/-- A host whose memory is all zero. -/
def initial (pools : Pools) (net : Net) : TcpHost where
  pools := pools
  net := net
  tcpTicks := 0
  iss := 0
  portTimes := 0
  tcpPcbPool := List.finRange tMempNumTcpPcb
  pcb _ := .zero
  next _ := none
  tcpActivePcbs := none

theorem initial_boot (pools : Pools) (net : Net) : (initial pools net).Boot := ⟨rfl, rfl⟩

/-- Callers only use control blocks that `t_tcp_new` gave them. -/
def Legal (h : TcpHost) : TcpOp → Prop
  | .connect i _ _ _ _ | .write i _ _ _ | .output i _ => i ∉ h.tcpPcbPool
  | _ => True

/-! ## what a call leaves alone -/

section
variable (h : TcpHost)

@[simp] theorem setPcb_pcb_self (i : TcpPcbId) (pcb : TcpPcb) : (h.setPcb i pcb).pcb i = pcb := by
  simp [setPcb]

theorem setPcb_pcb_of_ne {i j : TcpPcbId} (hij : j ≠ i) (pcb : TcpPcb) :
    (h.setPcb i pcb).pcb j = h.pcb j := by
  simp [setPcb, hij]

@[simp] theorem moveToFront_pcb (i : TcpPcbId) (prev : Option TcpPcbId) :
    (moveToFront h i prev).pcb = h.pcb := by cases prev <;> rfl

@[simp] theorem moveToFront_net (i : TcpPcbId) (prev : Option TcpPcbId) :
    (moveToFront h i prev).net = h.net := by cases prev <;> rfl

@[simp] theorem moveToFront_pools (i : TcpPcbId) (prev : Option TcpPcbId) :
    (moveToFront h i prev).pools = h.pools := by cases prev <;> rfl

@[simp] theorem moveToFront_tcpTicks (i : TcpPcbId) (prev : Option TcpPcbId) :
    (moveToFront h i prev).tcpTicks = h.tcpTicks := by cases prev <;> rfl

@[simp] theorem moveToFront_tcpPcbPool (i : TcpPcbId) (prev : Option TcpPcbId) :
    (moveToFront h i prev).tcpPcbPool = h.tcpPcbPool := by cases prev <;> rfl

/-- The control block that the demultiplexing loop finds matches. -/
theorem demux_matches {k : TcpKey} {i : TcpPcbId} {prev : Option TcpPcbId}
    (hd : demux h k = some (some (i, prev))) : (h.pcb i).matches k = true := by
  refine Loop.run_of_invariant (demuxRound h k) (P := fun _ => True)
    (Q := fun r => ∀ i prev, r = some (i, prev) → (h.pcb i).matches k = true)
    (fun _ _ _ _ => trivial) (fun s r _ hs i prev hr => ?_) trivial hd i prev rfl
  obtain ⟨cur, prev'⟩ := s
  cases cur with
  | none =>
      rw [demuxRound] at hs
      rw [← Loop.Step.done.inj hs] at hr
      contradiction
  | some j =>
      rw [demuxRound] at hs
      split at hs
      · next hm =>
        have hji := (Loop.Step.done.inj hs).trans hr
        simp only [Option.some.injEq, Prod.mk.injEq] at hji
        exact hji.1 ▸ hm
      · contradiction

/-- Either a segment finds no control block, and nothing changes, or it is
received by one that matches. -/
theorem tTcpInput_cases (indet : Nat → Option Netif) (cbRet : ErrT) (p : Pbuf) :
    let r := tTcpInput h indet cbRet p
    (r.1.pcb = none ∧ r.1.evs = [] ∧ r.1.fate ≠ .crashes ∧ r.2.2 = h) ∨
      ∃ i prev s k, (tTcpInputHeader p).2 = some (s, k) ∧ demux h k = some (some (i, prev)) ∧
        (h.pcb i).matches k = true ∧
        r.1 = ⟨(tTcpReceive (h.outEnv indet) cbRet h.pools (h.pcb i) s).1, some i,
          (tTcpReceive (h.outEnv indet) cbRet h.pools (h.pcb i) s).2.2.2.2⟩ ∧
        r.2.2 = { (moveToFront h i prev).setPcb i
            (tTcpReceive (h.outEnv indet) cbRet h.pools (h.pcb i) s).2.2.1 with
          pools := (tTcpReceive (h.outEnv indet) cbRet h.pools (h.pcb i) s).2.1 } := by
  unfold tTcpInput
  simp only
  split
  · exact Or.inl ⟨rfl, rfl, by simp, rfl⟩
  · next p' s k hhdr =>
    split
    · exact Or.inl ⟨rfl, rfl, by simp, rfl⟩
    · exact Or.inl ⟨rfl, rfl, by simp, rfl⟩
    · next i prev hd =>
      right
      refine ⟨i, prev, s, k, by rw [hhdr], hd, demux_matches h hd, ?_, ?_⟩
      · simp [outEnv]
      · simp [outEnv]

theorem exec_net (op : TcpOp) : (h.exec op).2.net = h.net := by
  cases op with
  | new =>
      simp only [exec, tTcpNew]
      split <;> rfl
  | connect i ipaddr port connected indet =>
      simp only [exec, tTcpConnect]
      split <;> split <;> rfl
  | write i arg len copy => rfl
  | output i indet => rfl
  | input p cbRet indet =>
      simp only [exec]
      rcases tTcpInput_cases h indet cbRet p with ⟨-, -, -, hh⟩ | ⟨i, prev, s, k, -, -, -, -, hh⟩
      · rw [hh]
      · rw [hh]
        exact moveToFront_net h i prev
  | other pools tcpTicks => rfl

/-- Control blocks only ever leave the pool. -/
theorem exec_tcpPcbPool (op : TcpOp) :
    (h.exec op).2.tcpPcbPool = match op with
      | .new => h.tcpPcbPool.tail
      | _ => h.tcpPcbPool := by
  cases op with
  | new =>
      simp only [exec, tTcpNew]
      split
      · next hnil => rw [hnil]; rfl
      · next hcons => rw [hcons]; rfl
  | connect i ipaddr port connected indet =>
      simp only [exec, tTcpConnect]
      split <;> split <;> rfl
  | write i arg len copy => rfl
  | output i indet => rfl
  | input p cbRet indet =>
      simp only [exec]
      rcases tTcpInput_cases h indet cbRet p with ⟨-, -, -, hh⟩ | ⟨i, prev, s, k, -, -, -, -, hh⟩
      · rw [hh]
      · rw [hh]
        exact moveToFront_tcpPcbPool h i prev
  | other pools tcpTicks => rfl

theorem not_mem_tcpPcbPool_exec {op : TcpOp} {i : TcpPcbId} (hi : i ∉ h.tcpPcbPool) :
    i ∉ (h.exec op).2.tcpPcbPool := by
  rw [exec_tcpPcbPool]
  split
  · exact fun hm => hi (List.mem_of_mem_tail hm)
  · exact hi

end

end TcpHost

/-! ## one call, seen from one control block -/

/-- The bytes that a call accepts for sending on control block `i`. -/
def acceptedBy (i : TcpPcbId) : TcpOp × TcpOut → List UInt8
  | (.write j arg len _, out) =>
      if j = i ∧ out.fate = .returns errOk then arg.slice 0 len.toNat else []
  | _ => []

/-- What a call about control block `i` does to the world. -/
def evsOf (i : TcpPcbId) (out : TcpOut) : List Event := if out.pcb = some i then out.evs else []

/-- What a call `op` other than a connect can do to control block `i`: its new
value, the events, and the bytes accepted. -/
inductive PcbStep (net : Net) (i : TcpPcbId) (pcb : TcpPcb) :
    TcpOp → TcpPcb → List Event → List UInt8 → Prop
  | idle (op : TcpOp) : PcbStep net i pcb op pcb [] []
  | write (pools : Pools) (arg : ByteMem) (len : UInt16) (copy : Bool) :
      PcbStep net i pcb (.write i arg len copy) (tTcpWrite pools pcb arg len copy).2.2 []
        (if (tTcpWrite pools pcb arg len copy).1 = errOk then arg.slice 0 len.toNat else [])
  | output (env : OutEnv) (pools : Pools) (indet : Nat → Option Netif) (hnet : env.net = net) :
      PcbStep net i pcb (.output i indet) (tTcpOutput env pools pcb).2.2.1
        (tTcpOutput env pools pcb).2.2.2 []
  | receive (env : OutEnv) (pools : Pools) (p : Pbuf) (cbRet : ErrT) (indet : Nat → Option Netif)
      (s : Incoming) (k : TcpKey) (hnet : env.net = net)
      (hhdr : (tTcpInputHeader p).2 = some (s, k)) (hmatch : pcb.matches k = true) :
      PcbStep net i pcb (.input p cbRet indet) (tTcpReceive env cbRet pools pcb s).2.2.1
        (tTcpReceive env cbRet pools pcb s).2.2.2.2 []

/-- Every call on a host is such a step of each control block in use, unless
it connects it. -/
theorem TcpHost.exec_pcbStep (h : TcpHost) (op : TcpOp) {i : TcpPcbId} (hi : i ∉ h.tcpPcbPool)
    (hop : ¬ op.Connects i) :
    PcbStep h.net i (h.pcb i) op ((h.exec op).2.pcb i) (evsOf i (h.exec op).1)
      (acceptedBy i (op, (h.exec op).1)) := by
  have hidle : ∀ pcb evs bytes, pcb = h.pcb i → evs = [] → bytes = [] →
      PcbStep h.net i (h.pcb i) op pcb evs bytes := by
    rintro pcb evs bytes rfl rfl rfl
    exact .idle op
  cases op with
  | new =>
      refine hidle _ _ _ ?_ (by rw [evsOf]; split <;> rfl) rfl
      simp only [exec, tTcpNew]
      cases hp : h.tcpPcbPool with
      | nil => rfl
      | cons j rest =>
          have hij : i ≠ j := fun hij => hi (by rw [hp, hij]; exact List.mem_cons_self)
          exact setPcb_pcb_of_ne _ hij _
  | connect j ipaddr port connected indet =>
      have hij : i ≠ j := fun hij => hop hij.symm
      refine hidle _ _ _ ?_ ?_ rfl
      · simp only [exec, tTcpConnect]
        split <;> split <;> exact setPcb_pcb_of_ne _ hij _
      · simp only [exec, tTcpConnect, evsOf]
        split <;> split <;> simp [Ne.symm hij]
  | write j arg len copy =>
      by_cases hij : j = i
      · subst hij
        have hpcb : ((h.exec (.write j arg len copy)).2).pcb j =
            (tTcpWrite h.pools (h.pcb j) arg len copy).2.2 := setPcb_pcb_self h j _
        have hevs : evsOf j (h.exec (.write j arg len copy)).1 = [] := by
          simp only [evsOf, exec, ite_self]
        have hacc : acceptedBy j (.write j arg len copy, (h.exec (.write j arg len copy)).1) =
            if (tTcpWrite h.pools (h.pcb j) arg len copy).1 = errOk then arg.slice 0 len.toNat
            else [] := by
          by_cases hret : (tTcpWrite h.pools (h.pcb j) arg len copy).1 = errOk
          · rw [if_pos hret, acceptedBy, if_pos ⟨rfl, congrArg Fate.returns hret⟩]
          · rw [if_neg hret, acceptedBy, if_neg fun h' => hret (Fate.returns.inj h'.2)]
        rw [hpcb, hevs, hacc]
        exact .write h.pools arg len copy
      · exact hidle _ _ _ (setPcb_pcb_of_ne _ (Ne.symm hij) _) (by simp [evsOf, exec])
          (by simp [acceptedBy, hij])
  | output j indet =>
      by_cases hij : j = i
      · subst hij
        have hstep : PcbStep h.net j (h.pcb j) _ _ _ _ :=
          .output (h.outEnv indet) h.pools indet rfl
        simpa [exec, evsOf, acceptedBy] using hstep
      · exact hidle _ _ _ (setPcb_pcb_of_ne _ (Ne.symm hij) _) (by simp [evsOf, exec, hij]) rfl
  | input p cbRet indet =>
      have hexec : h.exec (.input p cbRet indet) =
          ((tTcpInput h indet cbRet p).1, (tTcpInput h indet cbRet p).2.2) := by simp only [exec]
      rw [hexec]
      obtain ⟨-, hevs, -, hh⟩ | ⟨j, prev, s, k, hhdr, -, hmatch, hout, hh⟩ :=
        tTcpInput_cases h indet cbRet p
      · exact hidle _ _ _ (by rw [hh]) (by simp only [evsOf, hevs]; split <;> rfl) rfl
      · simp only [hout, hh, evsOf]
        by_cases hij : j = i
        · subst hij
          have hstep : PcbStep h.net j (h.pcb j) _ _ _ _ :=
            .receive (h.outEnv indet) h.pools p cbRet indet s k rfl hhdr hmatch
          simpa [acceptedBy] using hstep
        · refine hidle _ _ _ ?_ (by simp [hij]) rfl
          rw [setPcb_pcb_of_ne _ (Ne.symm hij), moveToFront_pcb]
  | other pools tcpTicks => exact hidle _ _ _ rfl (by simp [evsOf, exec]) rfl

end TTcp
