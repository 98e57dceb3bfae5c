import TTcp.Tcp.Sender

/-!
# TTcp.Tcp.Stream

The stream of bytes that a control block sends, over whole runs: what
`t_tcp_write` accepted is handed to `t_ip_output` in order, without a gap
(`ConnectedOnce.stream`), and the bookkeeping stays exact
(`ConnectedOnce.senderInvariant`).
-/

namespace TTcp

/-- The bytes that the writes of a run accepted for control block `i`. -/
def accepted (i : TcpPcbId) (hist : List (TcpOp × TcpOut)) : List UInt8 :=
  hist.flatMap (acceptedBy i)

/-- The data packets of control block `i` that a run handed to IP. -/
def handed (i : TcpPcbId) (hist : List (TcpOp × TcpOut)) : List Pbuf :=
  hist.flatMap fun e => dataPackets (evsOf i e.2)

theorem accepted_append (i : TcpPcbId) (hist hist' : List (TcpOp × TcpOut)) :
    accepted i (hist ++ hist') = accepted i hist ++ accepted i hist' := List.flatMap_append

theorem handed_append (i : TcpPcbId) (hist hist' : List (TcpOp × TcpOut)) :
    handed i (hist ++ hist') = handed i hist ++ handed i hist' := List.flatMap_append

theorem accepted_singleton (i : TcpPcbId) (e : TcpOp × TcpOut) :
    accepted i [e] = acceptedBy i e := List.flatMap_singleton ..

theorem handed_singleton (i : TcpPcbId) (op : TcpOp) (out : TcpOut) :
    handed i [(op, out)] = dataPackets (evsOf i out) := List.flatMap_singleton ..

/-! ## before the connect -/

/-- Nothing is accepted for a control block still in the pool, and it sends
nothing. -/
theorem TcpHost.exec_of_mem_pool {h : TcpHost} (hl : h.Linked) {op : TcpOp} (hop : h.Legal op)
    {i : TcpPcbId} (hi : i ∈ h.tcpPcbPool) (hc : ¬ op.Connects i) :
    acceptedBy i (op, (h.exec op).1) = [] ∧ evsOf i (h.exec op).1 = [] := by
  have hne : ∀ {j}, j ∉ h.tcpPcbPool → ¬ j = i := fun hj hji => hj (hji ▸ hi)
  cases op with
  | new => exact ⟨rfl, ite_self _⟩
  | connect j ipaddr port connected indet =>
      refine ⟨rfl, ?_⟩
      simp only [exec, tTcpConnect, evsOf]
      split <;> split <;> exact if_neg fun hj => hc (Option.some.inj hj)
  | write j arg len copy =>
      exact ⟨if_neg fun hj => hne hop hj.1, if_neg fun hj => hne hop (Option.some.inj hj)⟩
  | output j indet => exact ⟨rfl, if_neg fun hj => hne hop (Option.some.inj hj)⟩
  | input p cbRet indet =>
      refine ⟨rfl, ?_⟩
      simp only [exec]
      obtain ⟨hnone, -⟩ | ⟨j, prev, s, k, -, hd, -, hout, -⟩ := tTcpInput_cases h indet cbRet p
      · rw [evsOf, hnone]
        exact if_neg (Option.some_ne_none i).symm
      · rw [evsOf, hout]
        exact if_neg fun hj => hne (hl.demux hd).1 (Option.some.inj hj)
  | other pools tcpTicks => exact ⟨rfl, if_neg (Option.some_ne_none i).symm⟩

theorem TcpHost.exec_of_fresh {h : TcpHost} (hl : h.Linked) {op : TcpOp} (hop : h.Legal op)
    {i : TcpPcbId} (hi : i ∈ h.tcpPcbPool ∨ (h.pcb i).Fresh) (hc : ¬ op.Connects i) :
    acceptedBy i (op, (h.exec op).1) = [] ∧ dataPackets (evsOf i (h.exec op).1) = [] := by
  by_cases hpool : i ∈ h.tcpPcbPool
  · obtain ⟨hacc, hevs⟩ := exec_of_mem_pool hl hop hpool hc
    exact ⟨hacc, by rw [hevs]; rfl⟩
  · obtain ⟨-, hevs, hacc⟩ := (hi.resolve_left hpool).step (h.exec_pcbStep op hpool hc)
    exact ⟨hacc, by rw [dataPackets, hevs, List.filter_nil]⟩

/-! ## the whole run -/

/-- Of the bytes accepted, `sent` has left the unsent queue; those packets are
in order, and unless there is no route they were handed to IP. -/
structure Streamed (net : Net) (first : UInt32) (pcb : TcpPcb) (acc : List UInt8)
    (pkts : List Pbuf) (sent rest : List UInt8) : Prop where
  connected : Connected first pcb sent rest
  accepted : acc = sent ++ rest
  no_packets : pcb.Unroutable net → pkts = []
  packets : ¬ pcb.Unroutable net → PacketsFrom first pkts ∧ pkts.flatMap tcpPacketData = sent

theorem Connected.sndNxt_eq {first : UInt32} {pcb : TcpPcb} {sent rest : List UInt8}
    (h : Connected first pcb sent rest) : pcb.sndNxt = first + UInt32.ofNat sent.length := by
  cases h with
  | synSent h => exact h.sender.sndNxt_eq
  | established h => exact h.sender.sndNxt_eq

theorem Streamed.step {net : Net} {first : UInt32} {i : TcpPcbId} {op : TcpOp} {pcb pcb' : TcpPcb}
    {acc bytes : List UInt8} {pkts : List Pbuf} {evs : List Event} {sent rest : List UInt8}
    (h : Streamed net first pcb acc pkts sent rest) (hstep : PcbStep net i pcb op pcb' evs bytes) :
    ∃ sent' rest', Streamed net first pcb' (acc ++ bytes) (pkts ++ dataPackets evs) sent' rest' := by
  obtain ⟨new, rest', hconn, hrest, hout⟩ := h.connected.step hstep
  refine ⟨sent ++ new, rest', hconn, ?_, fun hu => ?_, fun hu => ?_⟩
  · rw [h.accepted, List.append_assoc, hrest, List.append_assoc]
  · have hu' := hout.route.mp hu
    rw [h.no_packets hu', hout.no_packets hu']
    rfl
  · have hu' := hu ∘ hout.route.mpr
    obtain ⟨hfrom, hbytes⟩ := h.packets hu'
    obtain ⟨hfrom', hbytes'⟩ := hout.packets hu'
    rw [h.connected.sndNxt_eq] at hfrom'
    refine ⟨packetsFrom_append.mpr ⟨hfrom, ?_⟩, ?_⟩
    · rw [hbytes]
      exact hfrom'
    · rw [List.flatMap_append, hbytes, hbytes']

namespace ConnectedOnce

variable {h : TcpHost} {i : TcpPcbId} {pre post : List TcpOp} {c : TcpOp}

/-- The sequence number of the first data byte. -/
def firstSeqno (h : TcpHost) (i : TcpPcbId) (pre : List TcpOp) (c : TcpOp) : UInt32 :=
  ((connectedHost h pre c).pcb i).sndLbb

/-- Up to and including the connect, nothing is accepted and no data sent. -/
theorem before (r : ConnectedOnce h i pre c post) :
    let hist := Run.history TcpHost.exec h pre ++ [(c, ((Run.final TcpHost.step h pre).exec c).1)]
    accepted i hist = [] ∧ handed i hist = [] := by
  obtain ⟨-, -, hacc, hhand⟩ := Run.history_of_along TcpHost.exec
    (P := fun hist h => h.Linked ∧ (i ∈ h.tcpPcbPool ∨ (h.pcb i).Fresh) ∧ accepted i hist = [] ∧
      handed i hist = [])
    (fun hist h op hs hop => by
      obtain ⟨hl, hfresh, hacc, hhand⟩ := hs
      obtain ⟨hacc', hhand'⟩ := h.exec_of_fresh hl hop.1 hfresh hop.2
      refine ⟨hl.exec hop.1, h.fresh_exec hfresh hop.2, ?_, ?_⟩
      · rw [accepted_append, hacc, accepted_singleton, hacc', List.append_nil]
      · rw [handed_append, hhand, handed_singleton, hhand', List.append_nil])
    [] ⟨r.boot.linked, Or.inl (by rw [r.boot.pool]; exact List.mem_finRange i), rfl, rfl⟩ r.legal_pre
  rw [List.nil_append] at hacc hhand
  have hc : acceptedBy i (c, ((Run.final TcpHost.step h pre).exec c).1) = [] ∧
      dataPackets (evsOf i ((Run.final TcpHost.step h pre).exec c).1) = [] := by
    obtain ⟨ipaddr, port, connected, indet, rfl⟩ := r.exists_connect
    refine ⟨rfl, ?_⟩
    obtain ⟨localPort, iss, pcb, -, hdata, -⟩ :=
      tTcpConnect_spec _ indet i ipaddr port connected r.fresh.2.unsent
    rw [evsOf]
    split
    · exact hdata
    · rfl
  refine ⟨?_, ?_⟩
  · rw [accepted_append, hacc, accepted_singleton, hc.1, List.append_nil]
  · rw [handed_append, hhand, handed_singleton, hc.2, List.append_nil]

theorem streamed (r : ConnectedOnce h i pre c post) :
    let hist := Run.history TcpHost.exec h (pre ++ c :: post)
    let h' := Run.final TcpHost.step h (pre ++ c :: post)
    ∃ sent rest, Streamed h'.net (firstSeqno h i pre c) (h'.pcb i) (accepted i hist) (handed i hist)
      sent rest := by
  obtain ⟨hpool, syn, hsyn⟩ := r.synSent
  obtain ⟨hacc, hhand⟩ := r.before
  have hstart : Streamed (connectedHost h pre c).net (firstSeqno h i pre c)
      ((connectedHost h pre c).pcb i) [] [] [] [] :=
    ⟨.synSent hsyn, rfl, fun _ => rfl, fun _ => ⟨trivial, rfl⟩⟩
  have hrun := Run.history_of_along TcpHost.exec
    (P := fun hist h' => i ∉ h'.tcpPcbPool ∧ ∃ sent rest, Streamed h'.net (firstSeqno h i pre c)
      (h'.pcb i) (accepted i hist) (handed i hist) sent rest)
    (fun hist h' op hs hop => by
      obtain ⟨hpool, sent, rest, hs⟩ := hs
      refine ⟨h'.not_mem_tcpPcbPool_exec hpool, ?_⟩
      rw [h'.exec_net, accepted_append, handed_append, accepted_singleton, handed_singleton]
      exact hs.step (h'.exec_pcbStep op hpool hop.2))
    _ (by rw [hacc, hhand]; exact ⟨hpool, _, _, hstart⟩) r.legal_post
  intro hist h'
  have hhist : hist = _ := Run.history_append TcpHost.exec h pre (c :: post)
  have hfinal : h' = _ := Run.final_append TcpHost.step h pre (c :: post)
  rw [hhist, hfinal, Run.history_cons, List.append_cons]
  exact hrun.2

end ConnectedOnce

/-! ## the stream -/

/-- Packets with data that follow on one another come in the order of their
distance from the first sequence number, as long as that does not wrap. -/
theorem PacketsFrom.pairwise_lt {a : UInt32} {o : Nat} {qs : List Pbuf}
    (h : PacketsFrom (a + UInt32.ofNat o) qs) (hne : ∀ q ∈ qs, tcpPacketData q ≠ [])
    (hlt : o + (qs.flatMap tcpPacketData).length < 2 ^ 32) :
    qs.Pairwise (fun q q' => (tcpPacketSeqno q - a).toNat < (tcpPacketSeqno q' - a).toNat) ∧
      ∀ q ∈ qs, o ≤ (tcpPacketSeqno q - a).toNat := by
  induction qs generalizing o with
  | nil => simp
  | cons q qs ih =>
      obtain ⟨hseq, hqs⟩ := h
      rw [List.flatMap_cons, List.length_append] at hlt
      rw [UInt32.add_assoc, ← UInt32.ofNat_add] at hqs
      obtain ⟨hpair, hle⟩ := ih hqs (fun q' hq' => hne q' (List.mem_cons_of_mem q hq')) (by omega)
      have hoff : (tcpPacketSeqno q - a).toNat = o := by
        rw [hseq, UInt32.add_comm, UInt32.add_sub_cancel, UInt32.toNat_ofNat_of_lt'
          (by rw [UInt32.size]; omega)]
      have hpos := List.length_pos_iff.mpr (hne q List.mem_cons_self)
      refine ⟨List.pairwise_cons.mpr ⟨fun q' hq' => ?_, hpair⟩, fun q' hq' => ?_⟩
      · have := hle q' hq'
        omega
      · rcases List.mem_cons.mp hq' with rfl | hq'
        · exact hoff.ge
        · have := hle q' hq'
          omega

theorem handed_ne_nil {i : TcpPcbId} {hist : List (TcpOp × TcpOut)} :
    ∀ q ∈ handed i hist, tcpPacketData q ≠ [] := by
  intro q hq
  obtain ⟨e, -, hq⟩ := List.mem_flatMap.mp hq
  have := (List.mem_filter.mp hq).2
  simpa using this

theorem Connected.length_le {first : UInt32} {pcb : TcpPcb} {sent rest : List UInt8}
    (h : Connected first pcb sent rest) : sent.length ≤ 16800 := by
  cases h with
  | synSent h => exact Nat.zero_le _
  | established h =>
      have := h.sender.buf
      omega

/-- What holds of the queues of a control block connected once. -/
structure SenderInvariant (pcb : TcpPcb) : Prop where
  /-- The queues run from `lastack` to `snd_lbb`. -/
  chain : Contiguous pcb.lastack (pcb.unacked ++ pcb.unsent) pcb.sndLbb
  /-- The unsent queue starts at `snd_nxt`. -/
  unsent_chain : Contiguous pcb.sndNxt pcb.unsent pcb.sndLbb
  buf : pcb.sndBuf.toNat + ((pcb.unacked ++ pcb.unsent).map TcpSeg.tcplen).sum = tTcpSndBuf.toNat
  slots : (pcb.unacked ++ pcb.unsent).length ≤ pcb.sndQueuelen.toNat
  slots_le : pcb.sndQueuelen ≤ tTcpSndQueuelen
  slots_eq_zero : pcb.sndQueuelen = 0 ↔ pcb.unacked ++ pcb.unsent = []

theorem Connected.invariant {first : UInt32} {pcb : TcpPcb} {sent rest : List UInt8}
    (h : Connected first pcb sent rest) : SenderInvariant pcb := by
  have hslots : ∀ {syn data : List TcpSeg}, Sender first pcb syn data sent rest →
      pcb.sndQueuelen ≤ tTcpSndQueuelen ∧
        (pcb.unacked ++ pcb.unsent).length ≤ pcb.sndQueuelen.toNat ∧
        (pcb.sndQueuelen = 0 ↔ pcb.unacked ++ pcb.unsent = []) := by
    intro syn data hs
    have hle := hs.slots
    have hlen : (pcb.unacked ++ pcb.unsent).length ≤ pcb.sndQueuelen.toNat := by
      rw [hs.unacked, List.length_append, List.length_append]
      exact hle
    refine ⟨UInt8.le_iff_toNat_le.mpr hs.slots_le, hlen, fun hzero => ?_, fun hnil => ?_⟩
    · rw [hzero] at hlen
      exact List.eq_nil_of_length_eq_zero (Nat.le_zero.mp hlen)
    · obtain ⟨hun, hunsent⟩ := List.append_eq_nil_iff.mp hnil
      rw [hs.unacked] at hun
      obtain ⟨rfl, hdata⟩ := List.append_eq_nil_iff.mp hun
      exact UInt8.toNat_inj.mp (hs.slots_nil hdata hunsent)
  cases h with
  | @synSent syn rest h =>
      obtain ⟨hle, hlen, hzero⟩ := hslots h.sender
      have hun : pcb.unacked = [syn] := h.sender.unacked
      have hnxt : pcb.sndNxt = first := by simpa using h.sender.sndNxt_eq
      have hq := h.sender.rest_queue
      refine ⟨?_, hq.contiguous, ?_, hlen, hle, hzero⟩
      · have hc := hq.contiguous
        rw [hnxt] at hc
        rw [hun, List.singleton_append, contiguous_cons, h.bare.tcplen, h.lastack]
        refine ⟨h.seqno, ?_⟩
        rw [show UInt32.ofNat 1 = 1 from rfl, UInt32.sub_add_cancel]
        exact hc
      · have hbuf := h.sender.buf
        simp only [List.length_cons, List.length_nil] at hbuf
        rw [hun, List.singleton_append, List.map_cons, List.sum_cons, h.bare.tcplen, hq.sum_tcplen,
          show tTcpSndBuf.toNat = 16800 from rfl]
        omega
  | @established data sent rest h =>
      obtain ⟨hle, hlen, hzero⟩ := hslots h.sender
      have hun : pcb.unacked = data := h.sender.unacked
      have hq := h.sender.sent_queue
      have hq' := h.sender.rest_queue
      refine ⟨?_, hq'.contiguous, ?_, hlen, hle, hzero⟩
      · rw [hun, h.lastack]
        exact contiguous_append.mpr ⟨_, hq.contiguous, hq'.contiguous⟩
      · have hbuf := h.sender.buf
        rw [hun, List.map_append, List.sum_append, hq.sum_tcplen, hq'.sum_tcplen,
          show tTcpSndBuf.toNat = 16800 from rfl]
        simp only [List.length_nil] at hbuf
        omega

namespace ConnectedOnce

variable {h : TcpHost} {i : TcpPcbId} {pre post : List TcpOp} {c : TcpOp}

/-- **Stream integrity**: the data packets of a control block connected once
leave in order of sequence number, each where the one before ended, and carry
a prefix of what its writes accepted. -/
theorem stream (r : ConnectedOnce h i pre c post) :
    let hist := Run.history TcpHost.exec h (pre ++ c :: post)
    let first := firstSeqno h i pre c
    PacketsFrom first (handed i hist) ∧
      (handed i hist).Pairwise (fun q q' =>
        (tcpPacketSeqno q - first).toNat < (tcpPacketSeqno q' - first).toNat) ∧
      (handed i hist).flatMap tcpPacketData <+: accepted i hist := by
  obtain ⟨sent, rest, hs⟩ := r.streamed
  intro hist first
  by_cases hu : ((Run.final TcpHost.step h (pre ++ c :: post)).pcb i).Unroutable
      (Run.final TcpHost.step h (pre ++ c :: post)).net
  · rw [hs.no_packets hu]
    exact ⟨trivial, .nil, List.nil_prefix⟩
  · obtain ⟨hfrom, hbytes⟩ := hs.packets hu
    have hpair := PacketsFrom.pairwise_lt (a := first) (o := 0) (by simpa using hfrom) handed_ne_nil
      (by have := hs.connected.length_le; rw [hbytes]; omega)
    refine ⟨hfrom, hpair.1, ?_⟩
    rw [hbytes, hs.accepted]
    exact List.prefix_append ..

/-- Three bytes are written before the handshake is over, and two after it. -/
def samplePost : List TcpOp :=
  [.write 0 (fun i => UInt8.ofNat i) 3 true, .input (sampleSynAck 100) 0 fun _ => none,
    .write 0 (fun i => UInt8.ofNat i) 2 false, .output 0 fun _ => none]

example :
    (handed 0 (Run.history TcpHost.exec sampleHost ([.new] ++ sampleConnect :: samplePost))).map
      tcpPacketData = [[0, 1, 2], [0, 1]] := by decide +kernel

theorem sampleRun_stream :
    let hist := Run.history TcpHost.exec sampleHost ([.new] ++ sampleConnect :: samplePost)
    let first := firstSeqno sampleHost 0 [.new] sampleConnect
    PacketsFrom first (handed 0 hist) ∧
      (handed 0 hist).Pairwise (fun q q' =>
        (tcpPacketSeqno q - first).toNat < (tcpPacketSeqno q' - first).toNat) ∧
      (handed 0 hist).flatMap tcpPacketData <+: accepted 0 hist :=
  ConnectedOnce.stream (sampleRun (by simp [samplePost, TcpOp.OnlyUses]))

/-- **Sender invariant**: the queues of a control block connected once, its
sequence numbers, its send buffer and its queue slots stay in step. -/
theorem senderInvariant (r : ConnectedOnce h i pre c post) :
    SenderInvariant ((Run.final TcpHost.step h (pre ++ c :: post)).pcb i) := by
  obtain ⟨sent, rest, hs⟩ := r.streamed
  exact hs.connected.invariant

theorem sampleRun_senderInvariant : SenderInvariant
    ((Run.final TcpHost.step sampleHost ([.new] ++ sampleConnect :: samplePost)).pcb 0) :=
  ConnectedOnce.senderInvariant (sampleRun (by simp [samplePost, TcpOp.OnlyUses]))

end ConnectedOnce

end TTcp
