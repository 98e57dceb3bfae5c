import TTcp.Tcp.Active
import TTcp.Tcp.Connect

/-!
# TTcp.Tcp.Sender

The state of a connected control block.

`Sender` ties the two queues, the sequence numbers, the send buffer and the
queue slots together; it speaks of the bytes already on the unacked queue,
`sent`, and of those still on the unsent one, `rest`.  A control block that
was connected once is in one of two phases: in `SynSent` its SYN waits alone
on the unacked queue, and nothing is sent; in `Established` the SYN is gone
and data moves from one queue to the other.  No call but a connect leaves the
two (`Connected.step`).
-/

namespace TTcp

/-! ## the invariant -/

/-- The queues of a control block that was connected once.  `first` is the
sequence number of its first data byte; `syn` is what is left of the
handshake on the unacked queue, and `data` follows it there. -/
structure Sender (first : UInt32) (pcb : TcpPcb) (syn data : List TcpSeg) (sent rest : List UInt8) :
    Prop where
  unacked : pcb.unacked = syn ++ data
  sent_queue : DataQueue TcpSeg.Sent first data pcb.sndNxt sent
  rest_queue : DataQueue TcpSeg.Unsent pcb.sndNxt pcb.unsent pcb.sndLbb rest
  mss : pcb.mss.toNat ≤ 1400
  buf : pcb.sndBuf.toNat + syn.length + sent.length + rest.length = 16800
  slots : syn.length + data.length + pcb.unsent.length ≤ pcb.sndQueuelen.toNat
  slots_le : pcb.sndQueuelen.toNat ≤ 40
  slots_nil : data = [] → pcb.unsent = [] → pcb.sndQueuelen.toNat = syn.length

/-- The SYN is sent and not yet acknowledged: the window is closed. -/
structure SynSent (first : UInt32) (pcb : TcpPcb) (syn : TcpSeg) (rest : List UInt8) : Prop where
  sender : Sender first pcb [syn] [] [] rest
  state : pcb.state = .synSent
  bare : syn.BareSyn
  seqno : syn.seqno = first - 1
  lastack : pcb.lastack = first - 1
  cwnd : pcb.cwnd = 1
  sndWnd : pcb.sndWnd = tTcpWnd.toUInt32
  flags : pcb.flags &&& tfAckNow = 0

/-- The handshake is over. -/
structure Established (first : UInt32) (pcb : TcpPcb) (data : List TcpSeg)
    (sent rest : List UInt8) : Prop where
  sender : Sender first pcb [] data sent rest
  state : pcb.state = .established
  lastack : pcb.lastack = first

/-- Connected once: in one of the two phases. -/
inductive Connected (first : UInt32) (pcb : TcpPcb) : List UInt8 → List UInt8 → Prop
  | synSent {syn : TcpSeg} {rest : List UInt8} (h : SynSent first pcb syn rest) :
      Connected first pcb [] rest
  | established {data : List TcpSeg} {sent rest : List UInt8}
      (h : Established first pcb data sent rest) : Connected first pcb sent rest

section
variable {first : UInt32} {pcb : TcpPcb} {sent rest : List UInt8}

theorem Sender.sndNxt_eq {syn data : List TcpSeg} (h : Sender first pcb syn data sent rest) :
    pcb.sndNxt = first + UInt32.ofNat sent.length := h.sent_queue.end_eq

/-! ## writing -/

/-- A write changes nothing and accepts nothing, or it extends the unsent
queue by what it accepts, in segments that keep to the `mss` of the moment. -/
theorem tTcpWrite_data {a : UInt32} {bytes : List UInt8}
    (hq : DataQueue TcpSeg.Unsent a pcb.unsent pcb.sndLbb bytes) (hmss : pcb.mss.toNat ≤ 1400)
    (pools : Pools) (arg : ByteMem) (len : UInt16) (copy : Bool) :
    let r := tTcpWrite pools pcb arg len copy
    (r.2.2 = pcb ∧ (if r.1 = errOk then arg.slice 0 len.toNat else []) = []) ∨
      ∃ unsent queuelen, r.1 = errOk ∧ r.2.2 = { pcb with
          unsent
          sndLbb := pcb.sndLbb + len.toUInt32
          sndBuf := pcb.sndBuf - len
          sndQueuelen := queuelen } ∧
        DataQueue TcpSeg.Unsent a unsent (pcb.sndLbb + len.toUInt32)
          (bytes ++ arg.slice 0 len.toNat) ∧
        len ≤ pcb.sndBuf ∧ unsent ≠ [] ∧
        unsent.length + pcb.sndQueuelen.toNat ≤ pcb.unsent.length + queuelen.toNat ∧
        queuelen.toNat ≤ 40 ∧ ∀ seg ∈ unsent, seg ∈ pcb.unsent ∨ seg.len.toNat ≤ pcb.mss.toNat := by
  unfold tTcpWrite
  split
  · split
    · next hlen =>
      rcases tTcpEnqueue_data pools arg copy hlen hq hmss with
        ⟨pools', he⟩ | ⟨pools', unsent, queuelen, he, h⟩
      · rw [he]
        exact Or.inl ⟨rfl, if_neg (by simp)⟩
      · rw [he]
        exact Or.inr ⟨unsent, queuelen, rfl, rfl, h⟩
    · next hlen =>
      have hzero : len.toNat = 0 := by
        rw [UInt16.lt_iff_toNat_lt] at hlen
        exact Nat.eq_zero_of_not_pos hlen
      refine Or.inl ⟨rfl, ?_⟩
      rw [hzero, ByteMem.slice_zero, ite_self]
  · exact Or.inl ⟨rfl, if_neg (by simp)⟩

/-- A write keeps a sender a sender. -/
theorem Sender.write {syn data : List TcpSeg} (h : Sender first pcb syn data sent rest)
    (pools : Pools) (arg : ByteMem) (len : UInt16) (copy : Bool) :
    let r := tTcpWrite pools pcb arg len copy
    Sender first r.2.2 syn data sent (rest ++ if r.1 = errOk then arg.slice 0 len.toNat else []) ∧
      (∃ unsent sndLbb sndBuf sndQueuelen,
        r.2.2 = { pcb with unsent, sndLbb, sndBuf, sndQueuelen }) ∧
      ∀ seg ∈ r.2.2.unsent, seg ∈ pcb.unsent ∨ seg.len.toNat ≤ pcb.mss.toNat := by
  intro r
  obtain ⟨hsame, hnil⟩ | ⟨unsent, queuelen, hret, hpcb, hq, hle, hne, hslots, h40, hsegs⟩ :=
    tTcpWrite_data h.rest_queue h.mss pools arg len copy
  · rw [hsame, hnil, List.append_nil]
    exact ⟨h, ⟨_, _, _, _, rfl⟩, fun seg hseg => Or.inl hseg⟩
  · have hle' := UInt16.le_iff_toNat_le.mp hle
    have hbuf := h.buf
    have hold := h.slots
    rw [hpcb, hret, if_pos rfl]
    refine ⟨⟨h.unacked, h.sent_queue, hq, h.mss, ?_, ?_, h40, fun _ hnil => absurd hnil hne⟩,
      ⟨_, _, _, _, rfl⟩, hsegs⟩
    · simp only [List.length_append, ByteMem.length_slice]
      rw [UInt16.toNat_sub_of_le _ _ hle]
      omega
    · simp only
      omega

/-! ## output -/

/-- What a call hands to IP when `new` goes out behind the bytes up to
`sndNxt`: nothing if there is no route, else packets that follow on one
another and carry `new`. -/
structure HandsOut (net : Net) (pcb pcb' : TcpPcb) (evs : List Event) (new : List UInt8) : Prop where
  route : pcb'.Unroutable net ↔ pcb.Unroutable net
  no_packets : pcb.Unroutable net → dataPackets evs = []
  packets : ¬ pcb.Unroutable net →
    PacketsFrom pcb.sndNxt (dataPackets evs) ∧ (dataPackets evs).flatMap tcpPacketData = new

theorem dataPackets_append_of_no_packets {evs evs' : List Event} (h : ipPackets evs = []) :
    dataPackets (evs ++ evs') = dataPackets evs' := by
  rw [dataPackets, ipPackets_append, h, List.nil_append, dataPackets]

theorem HandsOut.nothing {net : Net} {pcb' : TcpPcb} {evs : List Event}
    (hlocal : pcb'.localIp = pcb.localIp) (hremote : pcb'.remoteIp = pcb.remoteIp)
    (hevs : dataPackets evs = []) : HandsOut net pcb pcb' evs [] where
  route := by rw [TcpPcb.Unroutable, TcpPcb.Unroutable, hlocal, hremote]
  no_packets _ := hevs
  packets _ := by rw [hevs]; exact ⟨trivial, rfl⟩

/-- Behind an unacknowledged SYN, no data fits into a window of one. -/
theorem head_not_fits {b : UInt32} {bytes : List UInt8}
    (hq : DataQueue TcpSeg.Unsent (pcb.lastack + 1) pcb.unsent b bytes) (hwnd : pcb.wnd = 1) :
    ∀ seg ∈ pcb.unsent.head?, seg.fits pcb.lastack pcb.wnd = false := by
  intro seg hseg
  obtain ⟨q, hun⟩ : ∃ q, pcb.unsent = seg :: q := List.head?_eq_some_iff.mp hseg
  rw [hun] at hq
  obtain ⟨hseg, -, hseq, -⟩ := dataQueue_cons.mp hq
  have hpos := hseg.len_pos
  have hle := hseg.len_le
  have hdiff : seg.seqno - pcb.lastack = 1 := by
    rw [hseq, UInt32.add_comm, UInt32.add_sub_cancel]
  rw [TcpSeg.fits, hdiff, hwnd, decide_eq_false_iff_not, UInt32.le_iff_toNat_le, UInt32.toNat_add,
    UInt16.toNat_toUInt32, show (1 : UInt32).toNat = 1 from rfl]
  omega

theorem TcpPcb.wnd_of_closed (hcwnd : pcb.cwnd = 1) (hwnd : pcb.sndWnd = tTcpWnd.toUInt32) :
    pcb.wnd = 1 := by
  rw [TcpPcb.wnd, hcwnd, hwnd]
  rfl

section
variable (env : OutEnv) (pools : Pools)

/-- In SYN_SENT there is nothing to acknowledge, and no data fits into the
window. -/
theorem SynSent.output {syn : TcpSeg} (h : SynSent first pcb syn rest) :
    tTcpOutput env pools pcb = (0, pools, pcb, []) := by
  have hfirst : pcb.sndNxt = first := by simpa using h.sender.sndNxt_eq
  have hq := h.sender.rest_queue
  rw [show pcb.sndNxt = pcb.lastack + 1 by rw [hfirst, h.lastack, UInt32.sub_add_cancel]] at hq
  exact tTcpOutput_idle env pools h.flags
    (head_not_fits hq (TcpPcb.wnd_of_closed h.cwnd h.sndWnd))

/-- Once established, output moves the data that fits into the window to the
unacked queue. -/
theorem Established.output {data : List TcpSeg} (h : Established first pcb data sent rest) :
    let r := tTcpOutput env pools pcb
    pcb.SameConn r.2.2.1 ∧ ∃ gone left data' new rest', pcb.unsent = gone ++ left ∧
      (∀ seg ∈ gone, seg.fits pcb.lastack pcb.wnd) ∧ r.2.2.1.unsent = left ∧
      Established first r.2.2.1 data' (sent ++ new) rest' ∧ rest = new ++ rest' ∧
      HandsOut env.net pcb r.2.2.1 r.2.2.2 new ∧
      ∀ q ∈ dataPackets r.2.2.2, ∃ seg ∈ gone, tcpPacketData q = seg.payload := by
  have hs := h.sender
  obtain ⟨gone, left, new, c, bs, bs', hsplit, hrest, hfits, ht⟩ := tTcpOutput_data env pools
    (by rw [h.state]; decide) (by rw [hs.unacked]; exact hs.sent_queue) hs.rest_queue rfl
  refine ⟨ht.conn, gone, left, data ++ new, bs, bs', hsplit, hfits, ht.unsent, ⟨?_, ?_, ?_⟩, hrest,
    ⟨ht.route, ht.no_packets, ht.packets⟩, ht.data⟩
  · refine ⟨by rw [ht.unacked, hs.unacked]; rfl, ?_, ?_, by rw [ht.conn.mss]; exact hs.mss, ?_, ?_,
      by rw [ht.conn.sndQueuelen]; exact hs.slots_le, fun hd hu => ?_⟩
    · rw [ht.sndNxt]
      exact dataQueue_append.mpr ⟨_, _, _, hs.sent_queue, ht.sent_queue, rfl⟩
    · rw [ht.unsent, ht.sndNxt, ht.conn.sndLbb]
      exact ht.rest_queue
    · have hbuf := hs.buf
      rw [hrest, List.length_append] at hbuf
      rw [ht.conn.sndBuf, List.length_append]
      omega
    · have hslots := hs.slots
      rw [hsplit, List.length_append] at hslots
      rw [ht.conn.sndQueuelen, ht.unsent, List.length_append, ht.length]
      omega
    · obtain ⟨hdata, hnew⟩ := List.append_eq_nil_iff.mp hd
      have hgone : gone = [] := by
        rw [← List.length_eq_zero_iff, ← ht.length, hnew]
        rfl
      rw [ht.unsent] at hu
      rw [ht.conn.sndQueuelen]
      exact hs.slots_nil hdata (by rw [hsplit, hgone, hu]; rfl)
  · rw [ht.conn.state]
    exact h.state
  · rw [ht.conn.lastack]
    exact h.lastack

end

/-! ## the SYN|ACK -/

theorem Sender.touch {syn data : List TcpSeg} (h : Sender first pcb syn data sent rest)
    (tcpTicks : UInt32) : Sender first (pcb.touch tcpTicks) syn data sent rest :=
  ⟨h.unacked, h.sent_queue, h.rest_queue, h.mss, h.buf, h.slots, h.slots_le, h.slots_nil⟩

theorem Connected.touch (h : Connected first pcb sent rest) (tcpTicks : UInt32) :
    Connected first (pcb.touch tcpTicks) sent rest := by
  cases h with
  | synSent h =>
      exact .synSent ⟨h.sender.touch tcpTicks, h.state, h.bare, h.seqno, h.lastack, h.cwnd, h.sndWnd,
        h.flags⟩
  | established h => exact .established ⟨h.sender.touch tcpTicks, h.state, h.lastack⟩

theorem negotiatedMss_le {mss : UInt16} (h : mss.toNat ≤ 1400) (opt : Option UInt16) :
    (negotiatedMss mss opt).toNat ≤ 1400 := by
  cases opt with
  | none => exact h
  | some m =>
      simp only [negotiatedMss]
      split
      · decide
      · next hle =>
        rw [UInt16.not_lt, UInt16.le_iff_toNat_le] at hle
        exact hle

/-- Accepting the SYN|ACK gives back the byte and the slot of the SYN. -/
theorem SynSent.accept {syn : TcpSeg} (h : SynSent first pcb syn rest) {s : Incoming}
    (hack : s.ackno = syn.seqno + 1) (wnd : UInt16) (opt : Option UInt16) (flags : UInt8) :
    Established first { tcpAcceptPcb pcb s wnd [] with mss := negotiatedMss pcb.mss opt, flags }
      [] [] rest := by
  have hs := h.sender
  have hbuf := hs.buf
  have hslots := hs.slots
  have hslots_le := hs.slots_le
  have hslots_nil := hs.slots_nil
  simp only [List.length_cons, List.length_nil, Nat.zero_add, Nat.add_zero] at hbuf hslots hslots_nil
  have hql : (pcb.sndQueuelen - 1).toNat = pcb.sndQueuelen.toNat - 1 :=
    UInt8.toNat_sub_of_le _ _ (by rw [UInt8.le_iff_toNat_le]; exact Nat.le_of_add_right_le hslots)
  refine ⟨⟨rfl, hs.sent_queue, hs.rest_queue, negotiatedMss_le hs.mss opt, ?_, ?_, ?_,
    fun _ hun => ?_⟩, rfl, ?_⟩
  · simp only [tcpAcceptPcb, List.length_nil, UInt16.toNat_add, show (1 : UInt16).toNat = 1 from rfl]
    omega
  · simp only [tcpAcceptPcb, List.length_nil, hql]
    omega
  · simp only [tcpAcceptPcb, hql]
    omega
  · simp only [tcpAcceptPcb] at hun ⊢
    rw [hql, hslots_nil trivial hun]
    rfl
  · simp only [tcpAcceptPcb]
    rw [hack, h.seqno, UInt32.sub_add_cancel]

/-- Processing a segment sends nothing. -/
theorem Connected.process (h : Connected first pcb sent rest) (env : OutEnv) (cbRet : ErrT)
    (pools : Pools) (s : Incoming) :
    let r := tTcpProcess env cbRet pools pcb s
    Connected first r.2.2.1 sent rest ∧ r.2.2.1.localIp = pcb.localIp ∧
      r.2.2.1.remoteIp = pcb.remoteIp ∧ r.2.2.1.sndNxt = pcb.sndNxt ∧ ipPackets r.2.2.2.2 = [] := by
  obtain ⟨hno, ⟨htouch, -⟩ | ⟨hst, -, -, rseg, unacked, wnd, mss, flags, hcons, hack, -, hpcb, -⟩⟩ :=
    tTcpProcess_cases env cbRet pools pcb s
  · refine ⟨?_, ?_, ?_, ?_, hno⟩
    · rw [htouch]
      exact h.touch _
    all_goals rw [htouch]; rfl
  · cases h with
    | established h =>
        rw [h.state] at hst
        contradiction
    | @synSent syn rest h =>
        have hunacked := h.sender.unacked
        rw [hcons, List.cons_append, List.nil_append, List.cons.injEq] at hunacked
        obtain ⟨rfl, rfl⟩ := hunacked
        have ht : SynSent first (pcb.touch env.tcpTicks) rseg rest :=
          ⟨h.sender.touch _, h.state, h.bare, h.seqno, h.lastack, h.cwnd, h.sndWnd, h.flags⟩
        refine ⟨?_, ?_, ?_, ?_, hno⟩
        · rw [hpcb]
          exact .established (ht.accept hack wnd mss flags)
        all_goals rw [hpcb]; rfl

/-! ## one call -/

/-- What receiving a segment is: processing it and, perhaps, output. -/
theorem tTcpReceive_eq (pcb : TcpPcb) (env : OutEnv) (cbRet : ErrT) (pools : Pools) (s : Incoming) :
    let r := tTcpReceive env cbRet pools pcb s
    let r' := tTcpProcess env cbRet pools pcb s
    let o := tTcpOutput env r'.2.1 r'.2.2.1
    (r.2.2.1 = r'.2.2.1 ∧ r.2.2.2.2 = r'.2.2.2.2) ∨
      (r.2.2.1 = o.2.2.1 ∧ r.2.2.2.2 = r'.2.2.2.2 ++ o.2.2.2) := by
  unfold tTcpReceive
  simp only
  split
  · next hp =>
    rw [hp]
    split
    · exact Or.inr ⟨rfl, rfl⟩
    · exact Or.inl ⟨rfl, rfl⟩
  · exact Or.inl ⟨rfl, rfl⟩

/-- Nothing but a connect takes a control block out of the two phases, and
data is handed to IP in the order in which it was accepted. -/
theorem Connected.step (h : Connected first pcb sent rest) {net : Net} {i : TcpPcbId} {op : TcpOp}
    {pcb' : TcpPcb} {evs : List Event} {bytes : List UInt8} (hstep : PcbStep net i pcb op pcb' evs bytes) :
    ∃ new rest', Connected first pcb' (sent ++ new) rest' ∧ rest ++ bytes = new ++ rest' ∧
      HandsOut net pcb pcb' evs new := by
  have houtput : ∀ (pcb : TcpPcb) (env : OutEnv) (pools : Pools), env.net = net →
      Connected first pcb sent rest → ∃ new rest',
        Connected first (tTcpOutput env pools pcb).2.2.1 (sent ++ new) rest' ∧
          rest ++ [] = new ++ rest' ∧
          HandsOut net pcb (tTcpOutput env pools pcb).2.2.1 (tTcpOutput env pools pcb).2.2.2 new := by
    rintro pcb env pools rfl h
    rw [List.append_nil]
    cases h with
    | synSent h =>
        rw [h.output env pools]
        exact ⟨[], _, .synSent h, rfl, .nothing rfl rfl rfl⟩
    | established h =>
        obtain ⟨-, gone, left, data', new, rest', -, -, -, h', hrest, hout, -⟩ := h.output env pools
        exact ⟨new, rest', .established h', hrest, hout⟩
  cases hstep with
  | idle =>
      exact ⟨[], rest, by rwa [List.append_nil], List.append_nil _, .nothing rfl rfl rfl⟩
  | write pools arg len copy =>
      cases h with
      | synSent h =>
          obtain ⟨hs, ⟨unsent, sndLbb, sndBuf, sndQueuelen, hpcb⟩, -⟩ :=
            h.sender.write pools arg len copy
          refine ⟨[], _, .synSent ⟨hs, ?_, h.bare, h.seqno, ?_, ?_, ?_, ?_⟩, rfl,
            .nothing (by rw [hpcb]) (by rw [hpcb]) rfl⟩
          · rw [hpcb]; exact h.state
          · rw [hpcb]; exact h.lastack
          · rw [hpcb]; exact h.cwnd
          · rw [hpcb]; exact h.sndWnd
          · rw [hpcb]; exact h.flags
      | established h =>
          obtain ⟨hs, ⟨unsent, sndLbb, sndBuf, sndQueuelen, hpcb⟩, -⟩ :=
            h.sender.write pools arg len copy
          refine ⟨[], _, ?_, rfl, .nothing (by rw [hpcb]) (by rw [hpcb]) rfl⟩
          rw [List.append_nil]
          refine .established ⟨hs, ?_, ?_⟩
          · rw [hpcb]; exact h.state
          · rw [hpcb]; exact h.lastack
  | output env pools indet hnet => exact houtput pcb env pools hnet h
  | receive env pools p cbRet indet s k hnet hhdr hmatch =>
      obtain ⟨hproc, hlocal, hremote, hnxt, hno⟩ := h.process env cbRet pools s
      obtain ⟨hpcb, hevs⟩ | ⟨hpcb, hevs⟩ := tTcpReceive_eq pcb env cbRet pools s
      · rw [hpcb, hevs]
        refine ⟨[], rest, by rwa [List.append_nil], List.append_nil _,
          .nothing hlocal hremote ?_⟩
        rw [dataPackets, hno, List.filter_nil]
      · rw [hpcb, hevs]
        obtain ⟨new, rest', h', hrest, hroute, hnone, hpkts⟩ := houtput _ env
          (tTcpProcess env cbRet pools pcb s).2.1 hnet hproc
        have hroute' : (tTcpProcess env cbRet pools pcb s).2.2.1.Unroutable net ↔
            pcb.Unroutable net := by
          rw [TcpPcb.Unroutable, TcpPcb.Unroutable, hlocal, hremote]
        rw [hnxt] at hpkts
        refine ⟨new, rest', h', hrest, hroute.trans hroute', ?_, ?_⟩
        · rw [dataPackets_append_of_no_packets hno]
          exact fun hu => hnone (hroute'.mpr hu)
        · rw [dataPackets_append_of_no_packets hno]
          exact fun hu => hpkts fun hu' => hu (hroute'.mp hu')

/-! ## before the connect -/

/-- As `t_tcp_new` leaves a control block, its timers apart. -/
structure TcpPcb.Fresh (pcb : TcpPcb) : Prop where
  state : pcb.state = .closed
  flags : pcb.flags = 0
  sndBuf : pcb.sndBuf = tTcpSndBuf
  sndQueuelen : pcb.sndQueuelen = 0
  unsent : pcb.unsent = []
  unacked : pcb.unacked = []

theorem tcpPcbInit_fresh (iss ticks : UInt32) : (tcpPcbInit iss ticks).Fresh :=
  ⟨rfl, rfl, rfl, rfl, rfl, rfl⟩

theorem TcpPcb.Fresh.touch (h : pcb.Fresh) (tcpTicks : UInt32) : (pcb.touch tcpTicks).Fresh :=
  ⟨h.state, h.flags, h.sndBuf, h.sndQueuelen, h.unsent, h.unacked⟩

/-- Before it is connected, a control block takes no data and sends nothing. -/
theorem TcpPcb.Fresh.step (h : pcb.Fresh) {net : Net} {i : TcpPcbId} {op : TcpOp} {pcb' : TcpPcb}
    {evs : List Event} {bytes : List UInt8} (hstep : PcbStep net i pcb op pcb' evs bytes) :
    pcb'.Fresh ∧ ipPackets evs = [] ∧ bytes = [] := by
  have houtput : ∀ (pcb : TcpPcb) (env : OutEnv) (pools : Pools), pcb.Fresh →
      tTcpOutput env pools pcb = (0, pools, pcb, []) := fun pcb env pools h =>
    tTcpOutput_idle env pools (by rw [h.flags]; rfl) (by rw [h.unsent]; simp)
  cases hstep with
  | idle => exact ⟨h, rfl, rfl⟩
  | write pools arg len copy =>
      rw [tTcpWrite, if_neg (by simp [h.state])]
      exact ⟨h, rfl, if_neg (by simp)⟩
  | output env pools indet hnet =>
      rw [houtput pcb env pools h]
      exact ⟨h, rfl, rfl⟩
  | receive env pools p cbRet indet s k hnet hhdr hmatch =>
      obtain ⟨hno, ⟨htouch, -⟩ | ⟨hst, -⟩⟩ := tTcpProcess_cases env cbRet pools pcb s
      · obtain ⟨hpcb, hevs⟩ | ⟨hpcb, hevs⟩ := tTcpReceive_eq pcb env cbRet pools s
        · rw [hpcb, hevs, htouch]
          exact ⟨h.touch _, hno, rfl⟩
        · rw [hpcb, hevs, htouch, houtput _ env _ (h.touch _)]
          exact ⟨h.touch _, by rw [List.append_nil]; exact hno, rfl⟩
      · rw [h.state] at hst
        exact absurd hst (by decide)

/-- A control block is in the pool or, until it is connected, fresh. -/
theorem TcpHost.fresh_exec {h : TcpHost} {i : TcpPcbId} (hi : i ∈ h.tcpPcbPool ∨ (h.pcb i).Fresh)
    {op : TcpOp} (hop : ¬ op.Connects i) :
    i ∈ (h.exec op).2.tcpPcbPool ∨ ((h.exec op).2.pcb i).Fresh := by
  by_cases hpool : i ∈ h.tcpPcbPool
  · by_cases hnew : op = .new
    · subst hnew
      simp only [exec, tTcpNew]
      cases hp : h.tcpPcbPool with
      | nil => rw [hp] at hpool; contradiction
      | cons j rest =>
          by_cases hij : i = j
          · subst hij
            right
            simp only [setPcb_pcb_self]
            exact tcpPcbInit_fresh _ _
          · left
            rw [hp] at hpool
            exact (List.mem_cons.mp hpool).resolve_left hij
    · left
      rw [exec_tcpPcbPool]
      cases op with
      | new => exact absurd rfl hnew
      | _ => exact hpool
  · right
    exact ((hi.resolve_left hpool).step (h.exec_pcbStep op hpool hop)).1

/-! ## a run with one connect -/

/-- A run from initialisation in which `i` is connected once, by `c`, and with
success; `pre` comes before that call and `post` after it. -/
structure ConnectedOnce (h : TcpHost) (i : TcpPcbId) (pre : List TcpOp) (c : TcpOp)
    (post : List TcpOp) : Prop where
  boot : h.Boot
  legal : Run.Along TcpHost.step TcpHost.Legal h (pre ++ c :: post)
  not_before : ∀ op ∈ pre, ¬ op.Connects i
  connects : c.Connects i
  returns : ((Run.final TcpHost.step h pre).exec c).1.fate = .returns errOk
  not_after : ∀ op ∈ post, ¬ op.Connects i

/-- The state right after the connect. -/
def connectedHost (h : TcpHost) (pre : List TcpOp) (c : TcpOp) : TcpHost :=
  (Run.final TcpHost.step h pre).step c

/-- A successful connect of a fresh control block leads to `SynSent`, and the SYN
alone holds its pbuf. -/
theorem TcpPcb.Fresh.connect {h : TcpHost} {i : TcpPcbId} (hf : (h.pcb i).Fresh)
    (indet : Nat → Option Netif) (ipaddr : UInt32) (port : UInt16) (connected : Option Nat)
    (hret : (tTcpConnect h indet i ipaddr port connected).1.fate = .returns errOk) :
    let pcb := (tTcpConnect h indet i ipaddr port connected).2.pcb i
    ∃ syn, SynSent pcb.sndLbb pcb syn [] ∧ syn.p.ref = 1 := by
  obtain ⟨localPort, iss, pcb, hpcb, -, -, hfail, hok⟩ :=
    tTcpConnect_spec h indet i ipaddr port connected hf.unsent
  by_cases hroom : SynRoom h.pools (h.pcb i)
  · obtain ⟨-, -, syn, localIp, rtime, rttest, rtseq, sndMax, hbare, href, hseq, hpcb'⟩ :=
      hok hroom
    have hunsent : pcb.unsent = [] := by rw [hpcb]; exact hf.unsent
    have hflags : pcb.flags = 0 := by rw [hpcb]; exact hf.flags
    rw [hf.unacked, hf.sndBuf, hf.sndQueuelen] at hpcb'
    intro pcb'
    rw [show pcb' = _ from hpcb']
    refine ⟨syn, ⟨⟨rfl, dataQueue_nil _, ?_, ?_, rfl, by simp [hunsent], by simp, fun _ _ => rfl⟩,
      ?_, hbare, hseq, ?_, ?_, ?_, ?_⟩, href⟩
    · simp only [hunsent]
      exact dataQueue_nil _
    · have hmss : pcb.mss = tTcpMss := by rw [hpcb]; rfl
      simp only [hmss]
      decide
    · rw [hpcb]; rfl
    · rw [hpcb]; rfl
    · rw [hpcb]; rfl
    · rw [hpcb]; rfl
    · simp only [hflags]
      rfl
  · rw [(hfail hroom).1] at hret
    exact absurd (Fate.returns.inj hret) (by simp)

namespace ConnectedOnce

variable {h : TcpHost} {i : TcpPcbId} {pre post : List TcpOp} {c : TcpOp}

theorem legal_pre (r : ConnectedOnce h i pre c post) :
    Run.Along TcpHost.step (fun h op => h.Legal op ∧ ¬ op.Connects i) h pre :=
  ((Run.along_append TcpHost.step _ h pre (c :: post)).mp r.legal).1.and TcpHost.step
    (Run.along_of_forall TcpHost.step r.not_before)

theorem legal_connect (r : ConnectedOnce h i pre c post) : (Run.final TcpHost.step h pre).Legal c :=
  ((Run.along_append TcpHost.step _ h pre (c :: post)).mp r.legal).2.1

theorem legal_post (r : ConnectedOnce h i pre c post) :
    Run.Along TcpHost.step (fun h op => h.Legal op ∧ ¬ op.Connects i) (connectedHost h pre c) post :=
  ((Run.along_append TcpHost.step _ h pre (c :: post)).mp r.legal).2.2.and TcpHost.step
    (Run.along_of_forall TcpHost.step r.not_after)

/-- A run cut in two after the connect. -/
theorem split {later : List TcpOp} (r : ConnectedOnce h i pre c (post ++ later)) :
    ConnectedOnce h i pre c post ∧ Run.Along TcpHost.step (fun h op => h.Legal op ∧ ¬ op.Connects i)
      (Run.final TcpHost.step h (pre ++ c :: post)) later := by
  have hlegal := r.legal
  rw [← List.cons_append, ← List.append_assoc, Run.along_append] at hlegal
  exact ⟨⟨r.boot, hlegal.1, r.not_before, r.connects, r.returns,
    fun op hop => r.not_after op (List.mem_append_left _ hop)⟩, hlegal.2.and TcpHost.step
      (Run.along_of_forall TcpHost.step fun op hop => r.not_after op (List.mem_append_right _ hop))⟩

/-- The call that connects. -/
theorem exists_connect (r : ConnectedOnce h i pre c post) :
    ∃ ipaddr port connected indet, c = .connect i ipaddr port connected indet := by
  have hc := r.connects
  cases c with
  | connect j ipaddr port connected indet =>
      obtain rfl : j = i := hc
      exact ⟨_, _, _, _, rfl⟩
  | _ => exact hc.elim

/-- The connect finds the control block in use and fresh. -/
theorem fresh (r : ConnectedOnce h i pre c post) :
    i ∉ (Run.final TcpHost.step h pre).tcpPcbPool ∧
      ((Run.final TcpHost.step h pre).pcb i).Fresh := by
  have hpool : i ∉ (Run.final TcpHost.step h pre).tcpPcbPool := by
    obtain ⟨ipaddr, port, connected, indet, rfl⟩ := r.exists_connect
    exact r.legal_connect
  refine ⟨hpool, Or.resolve_left ?_ hpool⟩
  refine Run.final_of_along (P := fun h => i ∈ h.tcpPcbPool ∨ (h.pcb i).Fresh)
    (fun h op hP hop => h.fresh_exec hP hop.2) (Or.inl ?_) r.legal_pre
  rw [r.boot.pool]
  exact List.mem_finRange i

/-- It leads to `SynSent`. -/
theorem synSent_ref (r : ConnectedOnce h i pre c post) :
    i ∉ (connectedHost h pre c).tcpPcbPool ∧
      ∃ syn, SynSent ((connectedHost h pre c).pcb i).sndLbb ((connectedHost h pre c).pcb i) syn
        [] ∧ syn.p.ref = 1 := by
  obtain ⟨hpool, hfresh⟩ := r.fresh
  have hret := r.returns
  obtain ⟨ipaddr, port, connected, indet, rfl⟩ := r.exists_connect
  exact ⟨TcpHost.not_mem_tcpPcbPool_exec _ hpool,
    hfresh.connect indet ipaddr port connected hret⟩

theorem synSent (r : ConnectedOnce h i pre c post) :
    i ∉ (connectedHost h pre c).tcpPcbPool ∧
      ∃ syn, SynSent ((connectedHost h pre c).pcb i).sndLbb ((connectedHost h pre c).pcb i) syn
        [] := by
  obtain ⟨hpool, syn, hsyn, -⟩ := r.synSent_ref
  exact ⟨hpool, syn, hsyn⟩

end ConnectedOnce

/-- The call connects nothing, and writes and outputs only on `i`. -/
def TcpOp.OnlyUses (i : TcpPcbId) : TcpOp → Prop
  | .connect _ _ _ _ _ => False
  | .write j _ _ _ | .output j _ => j = i
  | _ => True

theorem along_of_onlyUses {h : TcpHost} {i : TcpPcbId} (hi : i ∉ h.tcpPcbPool) {ops : List TcpOp}
    (hops : ∀ op ∈ ops, op.OnlyUses i) :
    Run.Along TcpHost.step TcpHost.Legal h ops ∧ ∀ op ∈ ops, ¬ op.Connects i := by
  induction ops generalizing h with
  | nil => exact ⟨trivial, by simp⟩
  | cons op ops ih =>
      have hop := hops op List.mem_cons_self
      obtain ⟨hlegal, hnot⟩ := ih (h.not_mem_tcpPcbPool_exec hi)
        fun op' hop' => hops op' (List.mem_cons_of_mem op hop')
      have hhere : h.Legal op ∧ ¬ op.Connects i := by
        cases op with
        | connect j ipaddr port connected indet => exact hop.elim
        | write j arg len copy =>
            obtain rfl : j = i := hop
            exact ⟨hi, id⟩
        | output j indet =>
            obtain rfl : j = i := hop
            exact ⟨hi, id⟩
        | _ => exact ⟨trivial, id⟩
      exact ⟨⟨hhere.1, hlegal⟩, List.forall_mem_cons.mpr ⟨hhere.2, hnot⟩⟩

/-- On a host with a free segment block and a free pbuf, a new control block
can be connected. -/
theorem connectedOnce_new_connect {h : TcpHost} (hb : h.Boot) (hseg : h.pools.segPool ≠ [])
    (hpbuf : h.pools.pbufPool ≠ []) (ipaddr : UInt32) (port : UInt16) (connected : Option Nat)
    (indet : Nat → Option Netif) {post : List TcpOp} (hpost : ∀ op ∈ post, op.OnlyUses 0) :
    ConnectedOnce h 0 [.new] (.connect 0 ipaddr port connected indet) post := by
  have hnew : ((h.exec .new).2.pcb 0).Fresh ∧ (h.exec .new).2.pools = h.pools := by
    simp only [TcpHost.exec, tTcpNew, hb.pool]
    exact ⟨tcpPcbInit_fresh _ _, rfl⟩
  have hpool : (0 : TcpPcbId) ∉ (h.exec .new).2.tcpPcbPool := by
    rw [TcpHost.exec_tcpPcbPool, hb.pool]
    decide
  have hroom : SynRoom (h.exec .new).2.pools ((h.exec .new).2.pcb 0) := by
    rw [SynRoom, hnew.2, hnew.1.sndQueuelen]
    exact ⟨hseg, hpbuf, by decide⟩
  obtain ⟨localPort, iss, pcb, -, -, -, -, hok⟩ :=
    tTcpConnect_spec _ indet 0 ipaddr port connected hnew.1.unsent
  obtain ⟨hlegal, hnot⟩ := along_of_onlyUses (TcpHost.not_mem_tcpPcbPool_exec _ hpool) hpost
  exact ⟨hb, ⟨trivial, hpool, hlegal⟩, by simp [TcpOp.Connects], rfl, (hok hroom).1, hnot⟩

/-! ## a run -/

/-- One interface, 10.0.0.2. -/
def sampleNet : Net :=
  let netif : Netif := ⟨0x0200000a, 0, 0, #v[0, 0, 0, 0, 0, 1]⟩
  ⟨[netif], some netif⟩

/-- A host with that interface and all its pools. -/
def sampleHost : TcpHost := .initial (.init fun _ _ => 0) sampleNet

/-- Connect to 10.0.0.1:80. -/
def sampleConnect : TcpOp := .connect 0 0x0100000a 80 none fun _ => none

/-- The SYN|ACK for it, with an MSS option. -/
def sampleSynAck (mss : UInt8) : Pbuf where
  id := 29
  payload := 14
  totLen := 44
  len := 44
  ref := 1
  mem := ByteMem.copy (fun _ => 0) 14 (fun i => [0x45, 0, 0, 44, 0, 0, 0, 0, 64, 6, 0, 0, 10, 0, 0, 1,
    10, 0, 0, 2, 0, 80, 0x10, 0x01, 0, 0, 0, 7, 0, 0, 0, 0, 0x60, 0x12, 0xff, 0xff, 0, 0, 0, 0,
    2, 4, 0, mss].getD i 0) 44
  wrEnd := 0
  rdEnd := 0

theorem sampleRun {post : List TcpOp} (hpost : ∀ op ∈ post, op.OnlyUses 0) :
    ConnectedOnce sampleHost 0 [.new] sampleConnect post :=
  connectedOnce_new_connect (TcpHost.initial_boot _ _) (by decide) (by decide) _ _ _ _ hpost

end

end TTcp
