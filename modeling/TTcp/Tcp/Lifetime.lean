import TTcp.Tcp.Batch
import TTcp.Tcp.Handshake
import TTcp.Tcp.Stream
import TTcp.Tcp.Window

/-!
# TTcp.Tcp.Lifetime

How much a connection can ever send.

`t_tcp_process` knows no state but SYN_SENT, so nothing that comes in after the handshake moves
`lastack`, the windows or the send buffer.  All data of a connection therefore has to fit into
the window of its SYN|ACK and the one segment that `cwnd` then allows (`ConnectedOnce.lifetime`),
and once a segment does not fit, no call sends data again (`ConnectedOnce.stalled`).
`tcp_keepalive`, whose packet carries no data, is one of the calls `.other` here.
-/

namespace TTcp

/-! ## the window of a lifetime -/

/-- What was sent and is not acknowledged fits into the window, which is a segment at most. -/
structure TcpPcb.InWindow (pcb : TcpPcb) : Prop where
  sent_le : (pcb.sndNxt - pcb.lastack).toNat ≤ pcb.wnd.toNat
  cwnd_le : pcb.cwnd.toNat ≤ 1400

/-- The first unsent segment does not fit. -/
def TcpPcb.Stalled (pcb : TcpPcb) : Prop :=
  ∃ seg q, pcb.unsent = seg :: q ∧ pcb.wnd.toNat < seg.reach pcb.lastack

section
variable {first : UInt32} {pcb : TcpPcb} {sent rest : List UInt8}

/-- Segments that fit end within the window. -/
theorem DataQueue.end_le {ok : TcpSeg → Prop} {a b lastack wnd : UInt32} {q : List TcpSeg}
    {bytes : List UInt8} (h : DataQueue ok a q b bytes) (hfits : ∀ seg ∈ q, seg.fits lastack wnd)
    (ha : (a - lastack).toNat ≤ wnd.toNat) : (b - lastack).toNat ≤ wnd.toNat := by
  rcases q.eq_nil_or_concat' with rfl | ⟨init, last, rfl⟩
  · obtain rfl : a = b := h.contiguous
    exact ha
  · obtain ⟨c, bs, bs', -, hlast, -⟩ := dataQueue_append.mp h
    obtain ⟨-, -, hseq, bs'', hnil, -⟩ := dataQueue_cons.mp hlast
    obtain rfl : c + last.len.toUInt32 = b := hnil.contiguous
    have hfit := hfits last (by simp)
    rw [TcpSeg.fits, decide_eq_true_iff, UInt32.le_iff_toNat_le, hseq] at hfit
    rwa [UInt32.sub_eq_add_neg, UInt32.add_assoc, UInt32.add_comm _ (-lastack), ← UInt32.add_assoc,
      ← UInt32.sub_eq_add_neg]

theorem Established.stalled_iff {data : List TcpSeg} (h : Established first pcb data sent rest) :
    pcb.Stalled ↔ ∃ seg q, pcb.unsent = seg :: q ∧ ¬ seg.fits pcb.lastack pcb.wnd := by
  refine exists_congr fun seg => exists_congr fun q => and_congr_right fun hun => ?_
  rw [(Connected.established h).fits_iff (by rw [hun]; exact List.mem_cons_self), not_le]

/-! ## output -/

/-- Output fills the window, but not beyond. -/
theorem Established.output_inWindow {data : List TcpSeg} (h : Established first pcb data sent rest)
    (hw : pcb.InWindow) (env : OutEnv) (pools : Pools) :
    (tTcpOutput env pools pcb).2.2.1.InWindow := by
  have hs := h.sender
  obtain ⟨gone, left, new, c, bs, bs', hsplit, hrest, hfits, ht⟩ := tTcpOutput_data env pools
    (by rw [h.state]; decide) (by rw [hs.unacked]; exact hs.sent_queue) hs.rest_queue rfl
  have hwnd : (tTcpOutput env pools pcb).2.2.1.wnd = pcb.wnd := by
    rw [TcpPcb.wnd, TcpPcb.wnd, ht.conn.sndWnd, ht.conn.cwnd]
  refine ⟨?_, by rw [ht.conn.cwnd]; exact hw.cwnd_le⟩
  -- the sequence numbers of what went out end where those of what stays begin
  have hq := hs.rest_queue
  rw [hsplit, hrest] at hq
  obtain ⟨c', bs1, bs2, hgone, hleft, hbytes⟩ := dataQueue_append.mp hq
  have hend : c' = c := by
    have hlen : bs1.length = bs.length := by
      have hlen' := congrArg List.length hbytes
      have hleft' := ht.rest_queue.bytes.symm.trans hleft.bytes
      rw [List.length_append, List.length_append, hleft'] at hlen'
      omega
    rw [hgone.end_eq, hlen, ht.sent_queue.end_eq]
  rw [hwnd, ht.conn.lastack, ht.sndNxt, ← hend]
  exact hgone.end_le hfits hw.sent_le

/-- A segment that does not fit keeps everything behind it. -/
theorem Established.output_stalled {data : List TcpSeg} (h : Established first pcb data sent rest)
    (hst : pcb.Stalled) (env : OutEnv) (pools : Pools) :
    (tTcpOutput env pools pcb).2.2.1.Stalled ∧ dataPackets (tTcpOutput env pools pcb).2.2.2 = [] := by
  obtain ⟨hconn, gone, left, data', new, rest', hsplit, hfits, hleft, -, -, -, hdata⟩ :=
    h.output env pools
  obtain ⟨seg, q, hun, hno⟩ := h.stalled_iff.mp hst
  have hgone : gone = [] := by
    rcases gone with - | ⟨g, gone⟩
    · rfl
    · rw [hun, List.cons_append, List.cons.injEq] at hsplit
      exact absurd (hfits seg (by rw [hsplit.1]; exact List.mem_cons_self)) hno
  rw [hgone, List.nil_append] at hsplit
  constructor
  · obtain ⟨seg', q', hun', hlt⟩ := hst
    refine ⟨seg', q', by rw [hleft, ← hsplit, hun'], ?_⟩
    rwa [TcpPcb.wnd, hconn.sndWnd, hconn.cwnd, hconn.lastack, ← TcpPcb.wnd]
  · rw [List.eq_nil_iff_forall_not_mem]
    intro p hp
    obtain ⟨seg', hmem, -⟩ := hdata p hp
    rw [hgone] at hmem
    exact absurd hmem List.not_mem_nil

/-- What output leaves does not fit. -/
theorem Established.stalled_of_output {data : List TcpSeg}
    (h : Established first pcb data sent rest) (env : OutEnv) (pools : Pools)
    (hleft : (tTcpOutput env pools pcb).2.2.1.unsent ≠ []) :
    (tTcpOutput env pools pcb).2.2.1.Stalled := by
  have hconn := Connected.established h
  obtain ⟨hsame, gone, left, data', new, rest', -, -, -, h', -⟩ := h.output env pools
  obtain ⟨hunsent, -⟩ := tTcpOutput_window env pools pcb hconn.sendable.1 hconn.sendable.2
    hconn.not_seqLt
  obtain ⟨seg, q, hq⟩ := List.exists_cons_of_ne_nil hleft
  refine h'.stalled_iff.mpr ⟨seg, q, hq, ?_⟩
  have hhead := List.head?_dropWhile_not (fun seg : TcpSeg => seg.fits pcb.lastack pcb.wnd) pcb.unsent
  rw [← hunsent, hq] at hhead
  rw [hsame.lastack, TcpPcb.wnd, hsame.sndWnd, hsame.cwnd, ← TcpPcb.wnd]
  simpa using hhead

/-! ## writing -/

/-- Chaining and the PSH flag leave the first unsent segment as long as it was, or longer. -/
theorem enqueueLink_head_le {mss : UInt16} (hmss : mss.toNat ≤ 1400) (flags : UInt8)
    {unsent : List TcpSeg} (queue : List TcpSeg) (segPool : List SegId) {seg : TcpSeg}
    (hseg : unsent.head? = some seg) :
    ∃ seg', (enqueueLink mss flags unsent queue segPool).1.head? = some seg' ∧
      seg.len.toNat ≤ seg'.len.toNat := by
  have happend : ∀ q : List TcpSeg, ∃ seg', (unsent ++ q).head? = some seg' ∧
      seg.len.toNat ≤ seg'.len.toNat := fun q =>
    ⟨seg, by rw [List.head?_append, hseg]; rfl, le_rfl⟩
  unfold enqueueLink
  split
  · next useg new rest hlast =>
    split
    · next hch =>
      obtain ⟨init, rfl⟩ := List.getLast?_eq_some_iff.mp hlast
      rw [List.dropLast_concat]
      rcases init with - | ⟨first, init⟩
      · obtain rfl : useg = seg := by simpa using hseg
        refine ⟨_, rfl, ?_⟩
        simp only [chains, Bool.and_eq_true, decide_eq_true_eq] at hch
        rw [TcpSeg.chain_len, UInt16.toNat_add]
        omega
      · exact ⟨seg, by simpa using hseg, le_rfl⟩
    · exact happend _
  · exact happend _

theorem modifyLast_setFlag_head {q : List TcpSeg} {seg : TcpSeg} (h : q.head? = some seg)
    (f : UInt16) : ∃ seg', (q.modifyLast (TcpSeg.setFlag · f)).head? = some seg' ∧
      seg'.len = seg.len := by
  rcases q.eq_nil_or_concat' with rfl | ⟨init, last, rfl⟩
  · exact absurd h (by simp)
  · rw [List.modifyLast_concat]
    rcases init with - | ⟨first, init⟩
    · obtain rfl : last = seg := by simpa using h
      exact ⟨_, rfl, TcpSeg.setFlag_len _ _⟩
    · exact ⟨seg, by simpa using h, rfl⟩

/-- A write only makes the first unsent segment longer. -/
theorem tTcpWrite_head_le (hmss : pcb.mss.toNat ≤ 1400) (pools : Pools) (arg : ByteMem)
    (len : UInt16) (copy : Bool) {seg : TcpSeg} (hseg : pcb.unsent.head? = some seg) :
    ∃ seg', (tTcpWrite pools pcb arg len copy).2.2.unsent.head? = some seg' ∧
      seg.len.toNat ≤ seg'.len.toNat := by
  obtain ⟨a, ha⟩ : ∃ a : EnqueueArgs, a = ⟨some arg, 0, copy, none, 0⟩ := ⟨_, rfl⟩
  obtain ⟨r, hr⟩ : ∃ r, tTcpEnqueue pools pcb a.arg len a.flags a.copy a.optdata a.optlen = r :=
    ⟨_, rfl⟩
  unfold tTcpWrite
  split
  · split
    · rw [show tTcpEnqueue pools pcb (some arg) len 0 copy none 0 = r by rw [← hr, ha]]
      by_cases hret : r.1 = 0
      · obtain ⟨-, -, segPool, st, -, -, -, hpcb⟩ := tTcpEnqueue_of_eq_zero hr hret
        obtain ⟨seg1, hhead, hle⟩ :=
          enqueueLink_head_le hmss a.flags st.queue segPool hseg
        rw [hpcb]
        simp only
        split
        · obtain ⟨seg2, hhead2, hlen⟩ := modifyLast_setFlag_head hhead tcpPsh
          exact ⟨seg2, hhead2, hlen ▸ hle⟩
        · exact ⟨seg1, hhead, hle⟩
      · rw [(tTcpEnqueue_of_ne_zero hr hret).1]
        exact ⟨seg, hseg, le_rfl⟩
    · exact ⟨seg, hseg, le_rfl⟩
  · exact ⟨seg, hseg, le_rfl⟩

theorem Established.write_stalled {data : List TcpSeg} (h : Established first pcb data sent rest)
    (hst : pcb.Stalled) (pools : Pools) (arg : ByteMem) (len : UInt16) (copy : Bool) :
    (tTcpWrite pools pcb arg len copy).2.2.Stalled := by
  obtain ⟨seg, q, hun, hlt⟩ := hst
  obtain ⟨seg', hhead, hle⟩ := tTcpWrite_head_le h.sender.mss pools arg len copy
    (show pcb.unsent.head? = some seg by rw [hun]; rfl)
  obtain ⟨q', hun'⟩ := List.head?_eq_some_iff.mp hhead
  obtain ⟨hs, ⟨_, _, _, _, hpcb⟩, -⟩ := h.sender.write pools arg len copy
  -- both are the first behind `snd_nxt`
  have hseq := (dataQueue_cons.mp (hun ▸ h.sender.rest_queue)).2.2.1
  have hseq' := (dataQueue_cons.mp (hun' ▸ hs.rest_queue)).2.2.1
  refine ⟨seg', q', hun', ?_⟩
  rw [TcpSeg.reach, hseq] at hlt
  rw [TcpSeg.reach, hseq', hpcb]
  exact hlt.trans_le (Nat.add_le_add_left hle _)

/-! ## one call -/

theorem TcpPcb.InWindow.congr {pcb' : TcpPcb} (h : pcb.InWindow) (hnxt : pcb'.sndNxt = pcb.sndNxt)
    (hack : pcb'.lastack = pcb.lastack) (hsnd : pcb'.sndWnd = pcb.sndWnd)
    (hcwnd : pcb'.cwnd = pcb.cwnd) : pcb'.InWindow := by
  refine ⟨?_, hcwnd ▸ h.cwnd_le⟩
  rw [hnxt, hack, TcpPcb.wnd, hsnd, hcwnd, ← TcpPcb.wnd]
  exact h.sent_le

theorem TcpPcb.Stalled.congr {pcb' : TcpPcb} (h : pcb.Stalled) (hun : pcb'.unsent = pcb.unsent)
    (hack : pcb'.lastack = pcb.lastack) (hsnd : pcb'.sndWnd = pcb.sndWnd)
    (hcwnd : pcb'.cwnd = pcb.cwnd) : pcb'.Stalled := by
  obtain ⟨seg, q, hq, hlt⟩ := h
  refine ⟨seg, q, hun.trans hq, ?_⟩
  rwa [hack, TcpPcb.wnd, hsnd, hcwnd, ← TcpPcb.wnd]

/-- The window of a connection is that of its SYN|ACK, for good. -/
theorem Connected.process_inWindow (h : Connected first pcb sent rest)
    (hw : pcb.state = .established → pcb.InWindow) (env : OutEnv) (cbRet : ErrT) (pools : Pools)
    (s : Incoming) (hest : (tTcpProcess env cbRet pools pcb s).2.2.1.state = .established) :
    (tTcpProcess env cbRet pools pcb s).2.2.1.InWindow := by
  obtain ⟨-, ⟨htouch, -⟩ | ⟨hst, -, -, rseg, unacked, wnd, mss, flags, hcons, hack, -, hpcb, -⟩⟩ :=
    tTcpProcess_cases env cbRet pools pcb s
  · rw [htouch] at hest ⊢
    exact (hw hest).congr rfl rfl rfl rfl
  · cases h with
    | established h =>
        rw [h.state] at hst
        contradiction
    | @synSent syn rest h =>
        -- nothing but the SYN was sent
        have hunacked := h.sender.unacked
        rw [hcons, List.cons_append, List.cons.injEq] at hunacked
        have hzero : pcb.sndNxt - s.ackno = 0 := by
          rw [hack, hunacked.1, h.seqno, UInt32.sub_add_cancel, h.sender.sndNxt_eq]
          simp
        rw [hpcb]
        refine ⟨?_, h.sender.mss⟩
        simp only [tcpAcceptPcb, TcpPcb.touch, hzero]
        exact Nat.zero_le _

theorem Connected.step_inWindow (h : Connected first pcb sent rest) {net : Net} {i : TcpPcbId}
    {op : TcpOp} {pcb' : TcpPcb} {evs : List Event} {bytes : List UInt8}
    (hstep : PcbStep net i pcb op pcb' evs bytes) (hw : pcb.state = .established → pcb.InWindow) :
    pcb'.state = .established → pcb'.InWindow := by
  have houtput : ∀ (pcb : TcpPcb) (env : OutEnv) (pools : Pools), Connected first pcb sent rest →
      (pcb.state = .established → pcb.InWindow) →
      (tTcpOutput env pools pcb).2.2.1.state = .established →
        (tTcpOutput env pools pcb).2.2.1.InWindow := fun pcb env pools h hw hest => by
    rw [tTcpOutput_state] at hest
    cases h with
    | synSent h =>
        rw [h.state] at hest
        exact absurd hest (by decide)
    | established h => exact h.output_inWindow (hw hest) env pools
  cases hstep with
  | idle => exact hw
  | write pools arg len copy =>
      intro hest
      have hsent : ∃ unsent sndLbb sndBuf sndQueuelen, (tTcpWrite pools pcb arg len copy).2.2 =
          { pcb with unsent, sndLbb, sndBuf, sndQueuelen } := by
        cases h with
        | synSent h => exact (h.sender.write pools arg len copy).2.1
        | established h => exact (h.sender.write pools arg len copy).2.1
      obtain ⟨_, _, _, _, hpcb⟩ := hsent
      rw [hpcb] at hest ⊢
      exact (hw hest).congr rfl rfl rfl rfl
  | output env pools indet hnet => exact houtput pcb env pools h hw
  | receive env pools p cbRet indet s k hnet hhdr hmatch =>
      have hproc := h.process_inWindow hw env cbRet pools s
      obtain ⟨hpcb, -⟩ | ⟨hpcb, -⟩ := tTcpReceive_eq pcb env cbRet pools s
      · rw [hpcb]
        exact hproc
      · rw [hpcb]
        exact houtput _ env _ (h.process env cbRet pools s).1 hproc

theorem Established.step {data : List TcpSeg} (h : Established first pcb data sent rest) {net : Net}
    {i : TcpPcbId} {op : TcpOp} {pcb' : TcpPcb} {evs : List Event} {bytes : List UInt8}
    (hstep : PcbStep net i pcb op pcb' evs bytes) :
    ∃ data' sent' rest', Established first pcb' data' sent' rest' := by
  obtain ⟨new, rest', hconn, -⟩ := (Connected.established h).step hstep
  generalize sent ++ new = sent' at hconn
  cases hconn with
  | synSent h' =>
      have hst := h'.state
      rw [h.state_step hstep] at hst
      exact absurd hst (by decide)
  | established h' => exact ⟨_, _, _, h'⟩

/-- A stalled connection stays stalled, and sends no data. -/
theorem Established.step_stalled {data : List TcpSeg} (h : Established first pcb data sent rest)
    (hst : pcb.Stalled) {net : Net} {i : TcpPcbId} {op : TcpOp} {pcb' : TcpPcb} {evs : List Event}
    {bytes : List UInt8} (hstep : PcbStep net i pcb op pcb' evs bytes) :
    pcb'.Stalled ∧ dataPackets evs = [] := by
  cases hstep with
  | idle => exact ⟨hst, rfl⟩
  | write pools arg len copy => exact ⟨h.write_stalled hst pools arg len copy, rfl⟩
  | output env pools indet hnet => exact h.output_stalled hst env pools
  | receive env pools p cbRet indet s k hnet hhdr hmatch =>
      obtain ⟨hno, ⟨htouch, -⟩ | ⟨hsyn, -⟩⟩ := tTcpProcess_cases env cbRet pools pcb s
      swap
      · rw [h.state] at hsyn
        exact absurd hsyn (by decide)
      have hst' : (pcb.touch env.tcpTicks).Stalled := hst.congr rfl rfl rfl rfl
      have h' : Established first (pcb.touch env.tcpTicks) data sent rest :=
        ⟨h.sender.touch _, h.state, h.lastack⟩
      obtain ⟨hpcb, hevs⟩ | ⟨hpcb, hevs⟩ := tTcpReceive_eq pcb env cbRet pools s
      · rw [hpcb, hevs, htouch, dataPackets, hno]
        exact ⟨hst', rfl⟩
      · rw [hpcb, hevs, htouch, dataPackets_append_of_no_packets hno]
        exact h'.output_stalled hst' env _

theorem tTcpReceive_of_errOk {env : OutEnv} {cbRet : ErrT} {pools : Pools} {s : Incoming}
    (h : (tTcpProcess env cbRet pools pcb s).1 = .returns errOk) :
    (tTcpReceive env cbRet pools pcb s).2.2.1 = (tTcpOutput env
      (tTcpProcess env cbRet pools pcb s).2.1 (tTcpProcess env cbRet pools pcb s).2.2.1).2.2.1 := by
  unfold tTcpReceive
  split
  · next hproc =>
    rw [hproc] at h ⊢
    rw [if_pos (Fate.returns.inj h)]
  · next hno => exact (hno errOk _ _ _ _ (Prod.ext h rfl)).elim

/-- The call comes to `t_tcp_output` for control block `i`: by itself, or when `t_tcp_process` has
returned `ERR_OK`. -/
def TcpHost.CallsOutput (h : TcpHost) (i : TcpPcbId) : TcpOp → Prop
  | .output j _ => j = i
  | .input p cbRet indet => (tTcpInput h indet cbRet p).1.pcb = some i ∧
      (tTcpInputHeader p).2.map (fun a =>
        (tTcpProcess (h.outEnv indet) cbRet h.pools (h.pcb i) a.1).1) = some (.returns errOk)
  | _ => False

theorem TcpHost.CallsOutput.exists_output {h : TcpHost} {i : TcpPcbId} {op : TcpOp}
    (hcall : h.CallsOutput i op) (hconn : Connected first (h.pcb i) sent rest) :
    ∃ env pools pcb, Connected first pcb sent rest ∧
      (h.step op).pcb i = (tTcpOutput env pools pcb).2.2.1 := by
  cases op with
  | output j indet =>
      obtain rfl : j = i := hcall
      exact ⟨h.outEnv indet, h.pools, _, hconn, TcpHost.setPcb_pcb_self ..⟩
  | input p cbRet indet =>
      obtain ⟨hpcb, hproc⟩ := hcall
      have hcases := h.tTcpInput_cases indet cbRet p
      simp only [TcpHost.step, TcpHost.exec]
      generalize tTcpInput h indet cbRet p = r at hcases hpcb ⊢
      obtain ⟨hnone, -⟩ | ⟨j, prev, s, k, hhdr, -, -, hout, hh⟩ := hcases
      · rw [hnone] at hpcb
        exact absurd hpcb.symm (Option.some_ne_none i)
      · rw [hout, Option.some_inj] at hpcb
        subst hpcb
        rw [hhdr, Option.map_some, Option.some_inj] at hproc
        obtain ⟨hconn', -⟩ := hconn.process (h.outEnv indet) cbRet h.pools s
        refine ⟨h.outEnv indet, _, _, hconn', Eq.trans ?_ (tTcpReceive_of_errOk hproc)⟩
        rw [hh]
        exact TcpHost.setPcb_pcb_self _ j _
  | _ => exact hcall.elim

/-- What it leaves unsent of an established connection does not fit. -/
theorem TcpHost.CallsOutput.leaves_stalled {h : TcpHost} {i : TcpPcbId} {op : TcpOp}
    (hcall : h.CallsOutput i op) (hconn : Connected first (h.pcb i) sent rest)
    (hest : ((h.step op).pcb i).state = .established) (hleft : ((h.step op).pcb i).unsent ≠ []) :
    (∃ data sent rest, Established first ((h.step op).pcb i) data sent rest) ∧
      ((h.step op).pcb i).Stalled := by
  obtain ⟨env, pools, pcb, hconn', hout⟩ := hcall.exists_output hconn
  rw [hout] at hest hleft ⊢
  rw [tTcpOutput_state] at hest
  cases hconn' with
  | synSent h' =>
      rw [h'.state] at hest
      exact absurd hest (by decide)
  | established h' =>
      obtain ⟨-, -, -, data', new, rest', -, -, -, h'', -⟩ := h'.output env pools
      exact ⟨⟨_, _, _, h''⟩, h'.stalled_of_output env pools hleft⟩

end

/-! ## whole runs -/

namespace ConnectedOnce

variable {h : TcpHost} {i : TcpPcbId} {pre post : List TcpOp} {c : TcpOp}

theorem inWindow (r : ConnectedOnce h i pre c post) :
    let pcb := (Run.final TcpHost.step h (pre ++ c :: post)).pcb i
    pcb.state = .established → pcb.InWindow := by
  obtain ⟨hpool, syn, hsyn⟩ := r.synSent
  intro pcb
  have hpcb : pcb = _ := congrArg (fun h : TcpHost => h.pcb i)
    (Run.final_append TcpHost.step h pre (c :: post))
  rw [hpcb, Run.final_cons]
  refine (Run.final_of_along (P := fun h' => i ∉ h'.tcpPcbPool ∧
      (∃ sent rest, Connected ((connectedHost h pre c).pcb i).sndLbb (h'.pcb i) sent rest) ∧
        ((h'.pcb i).state = .established → (h'.pcb i).InWindow))
    (fun h' op hs hop => ?_) ⟨hpool, ⟨_, _, .synSent hsyn⟩, fun hest => ?_⟩ r.legal_post).2.2
  · obtain ⟨hpool, ⟨sent, rest, hconn⟩, hw⟩ := hs
    have hstep := h'.exec_pcbStep op hpool hop.2
    obtain ⟨new, rest', hconn', -⟩ := hconn.step hstep
    exact ⟨h'.not_mem_tcpPcbPool_exec hpool, ⟨_, _, hconn'⟩, hconn.step_inWindow hstep hw⟩
  · rw [hsyn.state] at hest
    exact absurd hest (by decide)

/-- **The lifetime of a connection**: whatever calls follow and whatever segments come in, a
control block connected once hands to IP no more data than one segment holds and than its peer's
SYN|ACK had room for, and the send buffer shrinks by what it takes and, until the SYN is
acknowledged, by the byte of the SYN. -/
theorem lifetime (r : ConnectedOnce h i pre c post) :
    let hist := Run.history TcpHost.exec h (pre ++ c :: post)
    let pcb := (Run.final TcpHost.step h (pre ++ c :: post)).pcb i
    let sent := ((handed i hist).flatMap tcpPacketData).length
    sent ≤ tTcpMss.toNat ∧ (pcb.state = .established → sent ≤ pcb.sndWnd.toNat) ∧
      (pcb.state = .synSent → sent = 0) ∧
      (accepted i hist).length + pcb.sndBuf.toNat + (if pcb.state = .synSent then 1 else 0) =
        tTcpSndBuf.toNat := by
  obtain ⟨sent, rest, hs⟩ := r.streamed
  intro hist pcb n
  have hn : n ≤ sent.length := by
    by_cases hu : pcb.Unroutable (Run.final TcpHost.step h (pre ++ c :: post)).net
    · have hnone : n = 0 := by
        rw [show n = _ from congrArg (fun qs => (qs.flatMap tcpPacketData).length) (hs.no_packets hu)]
        rfl
      omega
    · exact (congrArg List.length (hs.packets hu).2).le
  have hacc : (accepted i hist).length = sent.length + rest.length := by
    rw [← List.length_append, ← hs.accepted]
  have hw : pcb.state = .established → pcb.InWindow := r.inWindow
  rw [show tTcpMss.toNat = 1400 from rfl, show tTcpSndBuf.toNat = 16800 from rfl, hacc]
  cases hs.connected with
  | synSent h' =>
      have hst : pcb.state = .synSent := h'.state
      have hbuf : pcb.sndBuf.toNat + 1 + 0 + rest.length = 16800 := h'.sender.buf
      rw [List.length_nil] at hn ⊢
      rw [if_pos hst]
      refine ⟨by omega, fun hest => ?_, fun _ => by omega, by omega⟩
      rw [hst] at hest
      exact absurd hest (by decide)
  | established h' =>
      have hst : pcb.state = .established := h'.state
      obtain ⟨hle, hcwnd⟩ := hw hst
      have hbuf : pcb.sndBuf.toNat + 0 + sent.length + rest.length = 16800 := h'.sender.buf
      have hsum : (pcb.sndNxt - pcb.lastack).toNat = sent.length := by
        rw [h'.sender.sndNxt_eq, h'.lastack, UInt32.add_comm, UInt32.add_sub_cancel,
          UInt32.toNat_ofNat_of_lt' (by rw [UInt32.size]; omega)]
      rw [hsum, TcpPcb.toNat_wnd] at hle
      have hno : ¬ pcb.state = .synSent := by rw [hst]; decide
      rw [if_neg hno]
      exact ⟨by omega, fun _ => by omega, fun hst => absurd hst hno, by omega⟩

/-- Fifteen segments are written, one more than the window has room for. -/
def stallPost : List TcpOp :=
  [.input (sampleSynAck 100) 0 fun _ => none, .write 0 (fun _ => 0) 1500 true]

theorem sampleRun_lifetime :
    let hist := Run.history TcpHost.exec sampleHost ([.new] ++ sampleConnect :: stallPost)
    let pcb := (Run.final TcpHost.step sampleHost ([.new] ++ sampleConnect :: stallPost)).pcb 0
    let sent := ((handed 0 hist).flatMap tcpPacketData).length
    sent ≤ tTcpMss.toNat ∧ (pcb.state = .established → sent ≤ pcb.sndWnd.toNat) ∧
      (pcb.state = .synSent → sent = 0) ∧
      (accepted 0 hist).length + pcb.sndBuf.toNat + (if pcb.state = .synSent then 1 else 0) =
        tTcpSndBuf.toNat :=
  ConnectedOnce.lifetime (sampleRun (by simp [stallPost, TcpOp.OnlyUses]))

/-- **A segment that does not fit never will**: what `t_tcp_output`, called by itself or by
`t_tcp_input`, leaves in the unsent queue of an established connection stays there, and no later
call hands data to IP. -/
theorem stalled {op : TcpOp} {later : List TcpOp}
    (r : ConnectedOnce h i pre c (post ++ op :: later))
    (hcall : (Run.final TcpHost.step h (pre ++ c :: post)).CallsOutput i op)
    (hest : ((Run.final TcpHost.step h (pre ++ c :: post ++ [op])).pcb i).state = .established)
    (hleft : ((Run.final TcpHost.step h (pre ++ c :: post ++ [op])).pcb i).unsent ≠ []) :
    handed i (Run.history TcpHost.exec h (pre ++ c :: post ++ op :: later)) =
      handed i (Run.history TcpHost.exec h (pre ++ c :: post ++ [op])) := by
  obtain ⟨r', hop, hlater⟩ := r.split
  obtain ⟨hpool, sent, rest, hconn⟩ := r'.connected
  obtain ⟨s, hs⟩ : ∃ s, s = Run.final TcpHost.step h (pre ++ c :: post) := ⟨_, rfl⟩
  rw [← hs] at hcall hpool hconn hop hlater
  rw [Run.final_append, ← hs, Run.final_cons, Run.final_nil] at hest hleft
  obtain ⟨⟨data, sent, rest, hdata⟩, hstalled⟩ := hcall.leaves_stalled hconn hest hleft
  have hrun := Run.history_of_along TcpHost.exec
    (P := fun hist h' => i ∉ h'.tcpPcbPool ∧ (∃ data sent rest,
      Established ((connectedHost h pre c).pcb i).sndLbb (h'.pcb i) data sent rest) ∧
        (h'.pcb i).Stalled ∧ handed i hist =
          handed i (Run.history TcpHost.exec h (pre ++ c :: post ++ [op])))
    (fun hist h' op hP hop => ?_) (Run.history TcpHost.exec h (pre ++ c :: post ++ [op]))
    ⟨s.not_mem_tcpPcbPool_exec hpool, ⟨_, _, _, hdata⟩, hstalled, rfl⟩ hlater
  · have hcut := Run.history_append TcpHost.exec h (pre ++ c :: post ++ [op]) later
    have hfinal : Run.final (fun s op => (TcpHost.exec s op).2) h
        (pre ++ c :: post ++ [op]) = s.step op := by
      rw [Run.final_append, Run.final_cons, Run.final_nil, hs]
      rfl
    rw [List.append_cons, hcut, hfinal]
    exact hrun.2.2.2
  · obtain ⟨hpool', ⟨data', sent', rest', hest'⟩, hst', hhist⟩ := hP
    have hstep := h'.exec_pcbStep op hpool' hop.2
    obtain ⟨hst'', hevs⟩ := hest'.step_stalled hst' hstep
    refine ⟨h'.not_mem_tcpPcbPool_exec hpool', hest'.step hstep, hst'', ?_⟩
    rw [handed_append, handed_singleton, hevs, List.append_nil, hhist]

theorem sampleRun_stalled :
    handed 0 (Run.history TcpHost.exec sampleHost ([.new] ++ sampleConnect ::
        [.write 0 (fun _ => 0) 1500 true] ++ .input (sampleSynAck 100) 0 (fun _ => none) ::
          [.write 0 (fun _ => 0) 7 true, .output 0 fun _ => none])) =
      handed 0 (Run.history TcpHost.exec sampleHost ([.new] ++ sampleConnect ::
        [.write 0 (fun _ => 0) 1500 true] ++ [.input (sampleSynAck 100) 0 fun _ => none])) :=
  ConnectedOnce.stalled (sampleRun (by simp [TcpOp.OnlyUses]))
    ⟨by decide +kernel, by decide +kernel⟩ (by decide +kernel) (by decide +kernel)

end ConnectedOnce

end TTcp
