import TTcp.Tcp.Mss

/-!
# TTcp.Tcp.Queue

What is on the unsent queue of a control block, in any state that calls can
bring about: SYNs and data segments, each with its headers at their place in
its buffer (`TcpPcb.Queues`).

Nothing is assumed of the calls: a control block may be connected again and
again, and connects and writes may fail.
-/

namespace TTcp

/-- A segment on the unsent queue. -/
structure TcpSeg.Queued (seg : TcpSeg) : Prop where
  totLen : seg.p.totLen = seg.p.len
  kind : seg.Unsent ∨ seg.Syn

namespace TcpSeg.Queued

variable {seg : TcpSeg} (h : seg.Queued)
include h

theorem tcphdr : seg.tcphdr = 34 := h.kind.elim TcpSeg.Unsent.tcphdr TcpSeg.Syn.tcphdr

theorem payload : seg.p.payload = 34 := h.kind.elim TcpSeg.Unsent.payload TcpSeg.Syn.payload

/-- The length of the header that the header word announces. -/
theorem hdrlen : 4 * (tTcphHdrlen seg.p.mem 34).toNat + seg.len.toNat = seg.p.len.toNat := by
  rcases h.kind with hu | hs
  · have hword : tTcphHdrlen seg.p.mem 34 = 5 := by
      rw [← hu.tcphdr, tTcphHdrlen]
      rcases hu.word with hw | hw <;> rw [TcpSeg.word] at hw <;> rw [hw] <;> rfl
    have hle := hu.len_le
    rw [hword, hu.plen, UInt16.toNat_add, show (20 : UInt16).toNat = 20 from rfl,
      show (5 : UInt16).toNat = 5 from rfl]
    omega
  · have hword : tTcphHdrlen seg.p.mem 34 = 6 := by
      have hw := hs.word
      rw [TcpSeg.word, hs.tcphdr] at hw
      rw [tTcphHdrlen, hw]
      rfl
    rw [hword, hs.plen, hs.len]
    rfl

theorem plen_le : 20 ≤ seg.p.len.toNat ∧ seg.p.len.toNat ≤ 1420 := by
  rcases h.kind with hu | hs
  · have hle := hu.len_le
    rw [hu.plen, UInt16.toNat_add, show (20 : UInt16).toNat = 20 from rfl]
    omega
  · rw [hs.plen]
    decide

end TcpSeg.Queued

theorem TcpSeg.Unsent.queued {seg : TcpSeg} (h : seg.Unsent) : seg.Queued :=
  ⟨h.ptotLen.trans h.plen.symm, Or.inl h⟩

/-- The unsent queue of a control block in use. -/
structure TcpPcb.Queues (pcb : TcpPcb) : Prop where
  mss : pcb.mss.toNat ≤ 1400
  unsent : ∀ seg ∈ pcb.unsent, seg.Queued

/-! ## queueing -/

theorem enqueueLink_queued {mss : UInt16} {unsent queue : List TcpSeg} (segPool : List SegId)
    (hmss : mss.toNat ≤ 1400) (hu : ∀ seg ∈ unsent, seg.Queued) (hq : ∀ seg ∈ queue, seg.Unsent)
    (hne : queue ≠ []) :
    ∃ init last, (enqueueLink mss 0 unsent queue segPool).1 = init ++ [last] ∧ last.Unsent ∧
      ∀ seg ∈ init, seg.Queued := by
  obtain ⟨qs, last, rfl⟩ := (List.eq_nil_or_concat' queue).resolve_left hne
  have hlast := hq last (by simp)
  have happend : ∃ init l, unsent ++ (qs ++ [last]) = init ++ [l] ∧ l.Unsent ∧
      ∀ seg ∈ init, seg.Queued := by
    refine ⟨unsent ++ qs, last, by simp, hlast, fun seg hs => ?_⟩
    rcases List.mem_append.mp hs with hs | hs
    · exact hu seg hs
    · exact (hq seg (by simp [hs])).queued
  rcases List.eq_nil_or_concat' unsent with rfl | ⟨us, useg, rfl⟩
  · simpa [enqueueLink] using happend
  · obtain ⟨seg, rest, hcons⟩ := List.exists_cons_of_ne_nil hne
    by_cases hch : chains mss 0 useg seg
    · -- only a data segment is chained into
      have hch' := hch
      simp only [chains, Bool.and_eq_true, decide_eq_true_eq, beq_iff_eq] at hch'
      have huseg : useg.Unsent := by
        rcases (hu useg (by simp)).kind with h | h
        · exact h
        · have hflags := hch'.1.1.2
          rw [TcpSeg.flags_eq, h.word] at hflags
          exact absurd hflags (by decide)
      have hseg := hq seg (by rw [hcons]; exact List.mem_cons_self)
      obtain ⟨hchain, -⟩ := huseg.chain hseg (by omega)
      have hlink : (enqueueLink mss 0 (us ++ [useg]) (qs ++ [last]) segPool).1 =
          us ++ useg.chain seg :: rest := by
        rw [hcons]
        simp [enqueueLink, hch]
      rw [hlink]
      rcases List.eq_nil_or_concat' rest with rfl | ⟨rs, l, rfl⟩
      · exact ⟨us, useg.chain seg, rfl, hchain, fun s hs => hu s (by simp [hs])⟩
      · refine ⟨us ++ useg.chain seg :: rs, l, by simp, hq l (by rw [hcons]; simp),
          fun s hs => ?_⟩
        rcases List.mem_append.mp hs with hs | hs
        · exact hu s (by simp [hs])
        · rcases List.mem_cons.mp hs with rfl | hs
          · exact hchain.queued
          · exact (hq s (by rw [hcons]; simp [hs])).queued
    · have hlink : (enqueueLink mss 0 (us ++ [useg]) (qs ++ [last]) segPool).1 =
          us ++ [useg] ++ (qs ++ [last]) := by
        rw [hcons]
        simp [enqueueLink, hch]
      rw [hlink]
      exact happend

/-- `t_tcp_write` queues data segments behind what is there. -/
theorem TcpPcb.Queues.write {pcb : TcpPcb} (h : pcb.Queues) (pools : Pools) (arg : ByteMem)
    (len : UInt16) (copy : Bool) : (tTcpWrite pools pcb arg len copy).2.2.Queues := by
  unfold tTcpWrite
  split
  · split
    · next hlen =>
      have hn : 0 < len.toNat := by rwa [UInt16.lt_iff_toNat_lt] at hlen
      unfold tTcpEnqueue
      by_cases hbuf : pcb.sndBuf < len
      · rw [if_pos hbuf]
        exact h
      rw [if_neg hbuf]
      by_cases hfull : tTcpSndQueuelen ≤ pcb.sndQueuelen
      · rw [if_pos hfull]
        exact h
      rw [if_neg hfull]
      rw [UInt8.le_iff_toNat_le] at hfull
      obtain ⟨st, hst⟩ : ∃ st : EnqueueState, st = {
          pbufPool := pools.pbufPool
          queue := []
          left := len.toNat
          seqno := pcb.sndLbb
          ptr := 0
          queuelen := pcb.sndQueuelen
          seglen := 0 } := ⟨_, rfl⟩
      have hi : WriteInv pcb arg len.toNat pcb.sndQueuelen.toNat st := by
        subst hst
        refine ⟨dataQueue_nil _, by simp, by simp, by simp, ?_⟩
        simp only [tTcpSndQueuelen, show (40 : UInt8).toNat = 40 from rfl] at hfull ⊢
        omega
      simp only [← hst]
      cases hloop : tTcpEnqueueLoop pcb ⟨some arg, 0, copy, none, 0⟩ st pools.segPool with
      | error pools' => exact h
      | ok r =>
          obtain ⟨segPool, st'⟩ := r
          obtain ⟨hi', hne, -⟩ := tTcpEnqueueLoop_data hn h.mss hi hloop
          obtain ⟨init, last, hlink, hlast, hinit⟩ :=
            enqueueLink_queued segPool h.mss h.unsent hi'.queue.ok hne
          refine ⟨h.mss, fun seg hs => ?_⟩
          simp only [hlink] at hs
          have hmem : ∀ l : TcpSeg, l.Unsent → seg ∈ init ++ [l] → seg.Queued := fun l hl hm => by
            rcases List.mem_append.mp hm with hm | hm
            · exact hinit seg hm
            · rw [List.mem_singleton.mp hm]
              exact hl.queued
          split at hs
          · rw [List.modifyLast_concat] at hs
            exact hmem _ hlast.setPsh hs
          · exact hmem _ hlast hs
    · exact h
  · exact h

/-- `t_tcp_connect` queues a SYN behind what is there. -/
theorem TcpPcb.Queues.enqueueSyn {pcb : TcpPcb} (h : pcb.Queues) (opt : ByteMem) (pools : Pools) :
    (tTcpEnqueue pools pcb none 0 tcpSyn.toUInt8 false (some opt) 4).2.2.Queues := by
  obtain ⟨hfail, hok⟩ := tTcpEnqueue_syn opt pools pcb
  by_cases hroom : SynRoom pools pcb
  · obtain ⟨-, syn, hsyn, htot, -, -, hpcb⟩ := hok hroom
    rw [hpcb]
    refine ⟨h.mss, fun seg hs => ?_⟩
    rcases List.mem_append.mp hs with hs | hs
    · exact h.unsent seg hs
    · rw [List.mem_singleton.mp hs]
      exact ⟨htot.trans hsyn.plen.symm, Or.inr hsyn⟩
  · rw [(hfail hroom).2]
    exact h

/-! ## sending -/

/-- The fields of a control block that `t_tcp_output` may change. -/
structure TcpPcb.Outputs (pcb pcb' : TcpPcb) : Prop where
  conn : pcb.SameConn pcb'
  rcvWnd : pcb'.rcvWnd = pcb.rcvWnd
  ttl : pcb'.ttl = pcb.ttl
  tos : pcb'.tos = pcb.tos
  localIp : pcb.localIp ≠ 0 → pcb'.localIp = pcb.localIp

namespace TcpPcb.Outputs

variable {pcb pcb' pcb'' : TcpPcb}

theorem refl (pcb : TcpPcb) : pcb.Outputs pcb := ⟨.refl pcb, rfl, rfl, rfl, fun _ => rfl⟩

theorem trans (h : pcb.Outputs pcb') (h' : pcb'.Outputs pcb'') : pcb.Outputs pcb'' where
  conn := h.conn.trans h'.conn
  rcvWnd := h'.rcvWnd.trans h.rcvWnd
  ttl := h'.ttl.trans h.ttl
  tos := h'.tos.trans h.tos
  localIp hne := by
    have hip := h.localIp hne
    rw [h'.localIp (by rw [hip]; exact hne), hip]

end TcpPcb.Outputs

section
variable (env : OutEnv) (pools : Pools)

theorem tTcpOutputSegment_outputs (indet : Option Netif) (seg : TcpSeg) (pcb : TcpPcb) :
    pcb.Outputs (tTcpOutputSegment env indet seg pcb).2.1 ∧
      (tTcpOutputSegment env indet seg pcb).2.1.unsent = pcb.unsent := by
  have hsend : ∀ netif seg (pcb : TcpPcb),
      pcb.Outputs (tTcpOutputSegmentSend env indet netif seg pcb).2.1 ∧
        (tTcpOutputSegmentSend env indet netif seg pcb).2.1.unsent = pcb.unsent := by
    intro netif seg pcb
    obtain ⟨rttest, rtseq, h⟩ := tTcpOutputSegmentSend_eq env indet netif seg pcb
    rw [h]
    exact ⟨⟨⟨rfl, rfl, rfl, rfl, rfl, rfl, rfl, rfl, rfl, rfl, rfl, rfl⟩, rfl, rfl, rfl,
      fun _ => rfl⟩, rfl⟩
  obtain ⟨-, h⟩ | ⟨n, ⟨hip, -⟩, h⟩ | ⟨-, h⟩ := tTcpOutputSegment_cases env indet seg pcb
  · rw [h]
    exact ⟨.refl _, rfl⟩
  · have hset : pcb.Outputs { pcb with localIp := n.ipAddr } :=
      ⟨⟨rfl, rfl, rfl, rfl, rfl, rfl, rfl, rfl, rfl, rfl, rfl, rfl⟩, rfl, rfl, rfl,
        fun hne => absurd hip hne⟩
    rw [h]
    exact ⟨hset.trans (hsend _ _ _).1, (hsend _ _ _).2⟩
  · rw [h]
    exact hsend _ _ _

theorem tTcpOutputRound_outputs (indet : Option Netif) (pcb : TcpPcb) (seg : TcpSeg) :
    pcb.Outputs (tTcpOutputRound env indet pools pcb seg).2.1 ∧
      (tTcpOutputRound env indet pools pcb seg).2.1.unsent = pcb.unsent := by
  obtain ⟨flags, hflags⟩ := pcb.outgoing_eq
  have hset : pcb.Outputs pcb.outgoing ∧ pcb.outgoing.unsent = pcb.unsent := by
    rw [hflags]
    exact ⟨⟨⟨rfl, rfl, rfl, rfl, rfl, rfl, rfl, rfl, rfl, rfl, rfl, rfl⟩, rfl, rfl, rfl,
      fun _ => rfl⟩, rfl⟩
  obtain ⟨r, hr⟩ : ∃ r, r = tTcpOutputSegment env indet (seg.outgoing pcb.state) pcb.outgoing :=
    ⟨_, rfl⟩
  obtain ⟨sndMax, hround⟩ := tTcpOutputRound_eq env pools hr
  obtain ⟨hout, hun⟩ := tTcpOutputSegment_outputs env indet (seg.outgoing pcb.state) pcb.outgoing
  rw [← hr] at hout hun
  rw [hround]
  split
  · exact ⟨(hset.1.trans hout).trans ⟨⟨rfl, rfl, rfl, rfl, rfl, rfl, rfl, rfl, rfl, rfl, rfl, rfl⟩,
      rfl, rfl, rfl, fun _ => rfl⟩, hun.trans hset.2⟩
  · exact ⟨(hset.1.trans hout).trans ⟨⟨rfl, rfl, rfl, rfl, rfl, rfl, rfl, rfl, rfl, rfl, rfl, rfl⟩,
      rfl, rfl, rfl, fun _ => rfl⟩, hun.trans hset.2⟩

theorem tTcpOutputLoop_outputs (wnd : UInt32) {pcb : TcpPcb} {unsent : List TcpSeg}
    (hun : pcb.unsent = unsent) : pcb.Outputs (tTcpOutputLoop env wnd pools pcb unsent).2.1 ∧
      (tTcpOutputLoop env wnd pools pcb unsent).2.1.unsent ⊆ unsent := by
  induction unsent generalizing pools pcb with
  | nil => exact ⟨.refl _, by rw [tTcpOutputLoop, hun]; exact List.Subset.refl _⟩
  | cons seg rest ih =>
      rw [tTcpOutputLoop]
      split
      · obtain ⟨hout, hrest⟩ := tTcpOutputRound_outputs env pools (env.indet rest.length)
          { pcb with unsent := rest } seg
        have hset : pcb.Outputs { pcb with unsent := rest } :=
          ⟨⟨rfl, rfl, rfl, rfl, rfl, rfl, rfl, rfl, rfl, rfl, rfl, rfl⟩, rfl, rfl, rfl,
            fun _ => rfl⟩
        obtain ⟨hout', hsub⟩ := ih (tTcpOutputRound env (env.indet rest.length) pools
          { pcb with unsent := rest } seg).1 hrest
        exact ⟨(hset.trans hout).trans hout', fun s hs => List.mem_cons_of_mem _ (hsub hs)⟩
      · exact ⟨.refl _, by rw [hun]; exact List.Subset.refl _⟩

/-- An acknowledgement is due, and nothing can be sent that would carry it. -/
def TcpPcb.AcksOnly (pcb : TcpPcb) : Prop :=
  pcb.flags &&& tfAckNow ≠ 0 ∧ ∀ seg ∈ pcb.unsent.head?, ¬ seg.fits pcb.lastack pcb.wnd

theorem tTcpOutput_of_acksOnly {pcb : TcpPcb} (h : pcb.AcksOnly) :
    tTcpOutput env pools pcb = tTcpOutputAck env pools pcb := by
  obtain ⟨hflags, hhead⟩ := h
  unfold tTcpOutput
  cases hun : pcb.unsent with
  | nil => exact if_pos ⟨hflags, rfl⟩
  | cons seg rest =>
      have hseg : seg.fits pcb.lastack pcb.wnd = false := by simpa using hhead seg (by simp [hun])
      exact if_pos ⟨hflags, by simp [hseg]⟩

theorem tTcpOutput_of_not_acksOnly {pcb : TcpPcb} (h : ¬ pcb.AcksOnly) :
    tTcpOutput env pools pcb = (errOk, tTcpOutputLoop env pcb.wnd pools pcb pcb.unsent) := by
  unfold tTcpOutput
  cases hun : pcb.unsent with
  | nil => exact if_neg fun hack => h ⟨hack.1, by simp [hun]⟩
  | cons seg rest =>
      refine if_neg fun hack => h ⟨hack.1, fun seg' hseg => ?_⟩
      obtain rfl : seg = seg' := by simpa [hun] using hseg
      simpa using hack.2

theorem tTcpOutput_outputs (pcb : TcpPcb) : pcb.Outputs (tTcpOutput env pools pcb).2.2.1 ∧
    (tTcpOutput env pools pcb).2.2.1.unsent ⊆ pcb.unsent := by
  rcases tTcpOutput_cases env pools pcb with h | h
  · obtain ⟨⟨flags, hpcb⟩, -⟩ := tTcpOutputAck_spec env pools pcb
    rw [h, hpcb]
    exact ⟨⟨⟨rfl, rfl, rfl, rfl, rfl, rfl, rfl, rfl, rfl, rfl, rfl, rfl⟩, rfl, rfl, rfl,
      fun _ => rfl⟩, List.Subset.refl _⟩
  · rw [h]
    exact tTcpOutputLoop_outputs env pools pcb.wnd rfl

theorem TcpPcb.Queues.output {pcb : TcpPcb} (h : pcb.Queues) :
    (tTcpOutput env pools pcb).2.2.1.Queues := by
  obtain ⟨hout, hsub⟩ := tTcpOutput_outputs env pools pcb
  exact ⟨by rw [hout.conn.mss]; exact h.mss, fun seg hs => h.unsent seg (hsub hs)⟩

end

/-! ## runs -/

/-- Processing a segment leaves the unsent queue alone. -/
theorem TcpPcb.Queues.process {pcb : TcpPcb} (h : pcb.Queues) (env : OutEnv) (cbRet : ErrT)
    (pools : Pools) (s : Incoming) : (tTcpProcess env cbRet pools pcb s).2.2.1.Queues := by
  obtain ⟨-, ⟨hpcb, -⟩ | ⟨-, -, -, rseg, unacked, wnd, mss, flags, -, -, -, hpcb, -⟩⟩ :=
    tTcpProcess_cases env cbRet pools pcb s
  · rw [hpcb]
    exact ⟨h.mss, h.unsent⟩
  · rw [hpcb]
    exact ⟨negotiatedMss_le h.mss mss, h.unsent⟩

theorem TcpPcb.Queues.step {pcb pcb' : TcpPcb} (h : pcb.Queues) {net : Net} {i : TcpPcbId}
    {op : TcpOp} {evs : List Event} {bytes : List UInt8}
    (hstep : PcbStep net i pcb op pcb' evs bytes) : pcb'.Queues := by
  cases hstep with
  | idle => exact h
  | write pools arg len copy => exact h.write pools arg len copy
  | output env pools indet hnet => exact h.output env pools
  | receive env pools p cbRet indet s k hnet hhdr hmatch =>
      have hproc := h.process env cbRet pools s
      obtain ⟨hpcb, -⟩ | ⟨hpcb, -⟩ := tTcpReceive_eq pcb env cbRet pools s
      · rw [hpcb]
        exact hproc
      · rw [hpcb]
        exact hproc.output env _

/-- What `t_tcp_connect` sets in the control block does not touch its queue. -/
theorem TcpPcb.Queues.connectPcb {pcb : TcpPcb} (h : pcb.Queues) (ipaddr : UInt32)
    (port localPort : UInt16) (iss : UInt32) (connected : Option Nat) :
    (tcpConnectPcb pcb ipaddr port localPort iss connected).Queues :=
  ⟨show tTcpMss.toNat ≤ 1400 by decide, h.unsent⟩

namespace TcpHost

variable {h : TcpHost}

/-- Every control block in use is `Queues`. -/
def AllQueues (h : TcpHost) : Prop := ∀ i, i ∉ h.tcpPcbPool → (h.pcb i).Queues

theorem Boot.allQueues (hb : h.Boot) : h.AllQueues := fun i hi =>
  absurd (by rw [hb.pool]; exact List.mem_finRange i) hi

/-- A control block leaves the pool as `t_tcp_new` sets it up. -/
theorem exec_pcb_of_mem_pool {op : TcpOp} {i : TcpPcbId} (hpool : i ∈ h.tcpPcbPool)
    (hi : i ∉ (h.exec op).2.tcpPcbPool) :
    ∃ iss ticks, (h.exec op).2.pcb i = tcpPcbInit iss ticks := by
  have hnew : op = .new := by
    by_contra hne
    rw [exec_tcpPcbPool] at hi
    cases op with
    | new => exact hne rfl
    | _ => exact hi hpool
  subst hnew
  simp only [TcpHost.exec, tTcpNew] at hi ⊢
  cases hp : h.tcpPcbPool with
  | nil => rw [hp] at hpool; contradiction
  | cons j rest =>
      rw [hp] at hi hpool
      obtain rfl := (List.mem_cons.mp hpool).resolve_right hi
      simp only [setPcb_pcb_self]
      exact ⟨_, _, rfl⟩

theorem AllQueues.exec (hq : h.AllQueues) {op : TcpOp} (hop : h.Legal op) :
    (h.exec op).2.AllQueues := by
  intro i hi
  by_cases hc : op.Connects i
  · cases op with
    | connect j ipaddr port connected indet =>
        obtain rfl : j = i := hc
        have henq := fun localPort iss => ((hq j hop).connectPcb ipaddr port localPort iss
          connected).enqueueSyn (mssOption tTcpMss)
        simp only [TcpHost.exec, tTcpConnect]
        split <;> split
        all_goals simp only [setPcb_pcb_self]
        · exact (henq _ _ _).output _ _
        · exact henq _ _ _
        · exact (henq _ _ _).output _ _
        · exact henq _ _ _
    | _ => exact hc.elim
  · by_cases hpool : i ∈ h.tcpPcbPool
    · obtain ⟨iss, ticks, hpcb⟩ := exec_pcb_of_mem_pool hpool hi
      rw [hpcb]
      exact ⟨show tTcpMss.toNat ≤ 1400 by decide, fun seg hs => absurd hs List.not_mem_nil⟩
    · exact (hq i hpool).step (h.exec_pcbStep op hpool hc)

theorem AllQueues.final (hq : h.AllQueues) {ops : List TcpOp}
    (hl : Run.Along TcpHost.step TcpHost.Legal h ops) : (Run.final TcpHost.step h ops).AllQueues :=
  Run.final_of_along (fun _ _ hs hop => hs.exec hop) hq hl

end TcpHost

end TTcp
