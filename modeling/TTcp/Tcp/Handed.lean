import TTcp.Tcp.Route

/-!
# TTcp.Tcp.Handed

What `t_tcp_output` marks as sent, and what it hands to `t_ip_output`.

`t_tcp_output_segment` returns early when it needs a route and finds none, and
its caller does not hear of it: the segment is taken off the unsent queue, the
sequence numbers advance, and nobody sends it again.  So what is marked as sent
is handed on exactly when there is a local address or a route to find one by,
or no segment fits the window anyway; and with no route the queue stays as it is
only if no segment fits (`output_handed_iff`).
-/

namespace TTcp

/-- `q` is the segment's own packet, from its TCP header on: all of it but the
acknowledgement number, the flags, the window and the checksum, which are
filled in on the way out. -/
structure TcpSeg.HandedAs (seg : TcpSeg) (q : Pbuf) : Prop where
  id : q.id = seg.p.id
  payload : q.payload = seg.tcphdr
  totLen : q.totLen = seg.p.totLen - UInt16.ofInt ((seg.tcphdr : Int) - seg.p.payload)
  mem : ∀ i, seg.tcphdr ≤ i → (i < seg.tcphdr + 8 ∨ seg.tcphdr + 18 ≤ i) → q.mem i = seg.p.mem i

/-- The sequence number is among it. -/
theorem TcpSeg.HandedAs.seqno {seg : TcpSeg} {q : Pbuf} (h : seg.HandedAs q) :
    tcpPacketSeqno q = seg.seqno := by
  rw [tcpPacketSeqno, h.payload, tcphSeqno, ByteMem.get32_congr fun i hi =>
    h.mem (seg.tcphdr + 4 + i) (by omega) (by omega), TcpSeg.seqno, tcphSeqno]

/-- `q` acknowledges all that was received. -/
structure TcpPcb.AckedBy (pcb : TcpPcb) (q : Pbuf) : Prop where
  flag : tTcphFlags q.mem q.payload &&& tcpAck ≠ 0
  ackno : ntohl (q.mem.get32 (q.payload + 8)) = pcb.rcvNxt

/-- `t_tcp_output` passes on none of the unsent segments. -/
def TcpPcb.PassesNone (pcb : TcpPcb) : Prop :=
  ∀ seg ∈ pcb.unsent.head?, ¬ seg.fits pcb.lastack pcb.wnd

/-- What `t_tcp_output` marks as sent, it has handed to `t_ip_output`: the
segments gone from the unsent queue, by which alone the unacked queue grows and
`snd_nxt` advances, and whatever carries the acknowledgement that is no longer
due. -/
structure MarksHanded (env : OutEnv) (pools : Pools) (pcb : TcpPcb) : Prop where
  segments : ∃ gone, pcb.unsent = gone ++ (tTcpOutput env pools pcb).2.2.1.unsent ∧
    (∀ seg ∈ gone, ∃ q ∈ ipPackets (tTcpOutput env pools pcb).2.2.2, seg.HandedAs q) ∧
    (∀ seg ∈ (tTcpOutput env pools pcb).2.2.1.unacked,
      seg ∈ pcb.unacked ∨ ∃ seg' ∈ gone, seg.id = seg'.id) ∧
    (gone = [] → (tTcpOutput env pools pcb).2.2.1.sndNxt = pcb.sndNxt)
  flags : (tTcpOutput env pools pcb).2.2.1.flags ≠ pcb.flags →
    ipPackets (tTcpOutput env pools pcb).2.2.2 ≠ []

/-- Without a route, a segment whose turn it is stays where it is. -/
def KeepsUnrouted (env : OutEnv) (pools : Pools) (pcb : TcpPcb) : Prop :=
  tIpRoute env.net pcb.remoteIp = none → ¬ pcb.PassesNone →
    (tTcpOutput env pools pcb).2.2.1.unsent = pcb.unsent ∧
    (tTcpOutput env pools pcb).2.2.1.sndNxt = pcb.sndNxt ∧
    (tTcpOutput env pools pcb).2.2.1.flags = pcb.flags

/-! ## one segment -/

section
variable (env : OutEnv) (pools : Pools)

theorem segPacket_handedAs (seg : TcpSeg) (pcb : TcpPcb) : seg.HandedAs (segPacket seg pcb) := by
  refine ⟨rfl, rfl, rfl, fun i hi ho => ?_⟩
  simp only [segPacket, Pbuf.set16_mem]
  rw [ByteMem.set16_apply_of_disjoint _ _ (by omega),
    ByteMem.set16_apply_of_disjoint _ _ (by omega)]

/-- Filling in the header first makes no difference. -/
theorem TcpSeg.HandedAs.of_fill {seg : TcpSeg} {q p : Pbuf} (hp : seg.p.WritesOnly p
    (seg.tcphdr + 8) (seg.tcphdr + 18)) (h : { seg with p }.HandedAs q) : seg.HandedAs q := by
  obtain ⟨hid, hpay, htot, hmem⟩ := h
  refine ⟨hid.trans hp.id, hpay, ?_, fun i hi ho => (hmem i hi ho).trans (hp.mem i (by omega))⟩
  rw [htot, hp.totLen, hp.payload]

/-- A segment is handed to IP unless it needs a route and there is none. -/
theorem tTcpOutputSegment_handed (indet : Option Netif) (seg : TcpSeg) (pcb : TcpPcb) :
    let r := tTcpOutputSegment env indet seg pcb
    r.1.id = seg.id ∧ r.2.1.unacked = pcb.unacked ∧ r.2.1.flags = pcb.flags ∧
      (pcb.Unroutable env.net → ipPackets r.2.2 = []) ∧
      (¬ pcb.Unroutable env.net → ∃ q, ipPackets r.2.2 = [q] ∧ seg.HandedAs q ∧
        (seg.flags &&& tcpAck ≠ 0 → pcb.AckedBy q)) := by
  obtain ⟨seg1, hseg1⟩ : ∃ seg1, seg1 = seg.completed pcb := ⟨_, rfl⟩
  have hhdr : seg1.tcphdr = seg.tcphdr := by rw [hseg1]; rfl
  have hid : seg1.id = seg.id := by rw [hseg1]; rfl
  have hof : ∀ q, seg1.HandedAs q → seg.HandedAs q := fun q hq => by
    rw [hseg1] at hq
    exact .of_fill (((Pbuf.WritesOnly.set32 ..).mono le_rfl (by omega)).trans
      ((Pbuf.WritesOnly.set16 ..).mono (by omega) (by omega))) hq
  have hacks : ∀ pcb', seg.flags &&& tcpAck ≠ 0 → pcb.AckedBy (segPacket seg1 pcb') := by
    intro pcb' hflag
    have hpay : (segPacket seg1 pcb').payload = seg.tcphdr := hhdr
    have hword : (segPacket seg1 pcb').mem.get16 (seg.tcphdr + 12) =
        seg.p.mem.get16 (seg.tcphdr + 12) := by
      rw [segPacket, hhdr, hseg1, TcpSeg.completed]
      simp (disch := omega) only [Pbuf.set16_mem, Pbuf.set32_mem,
        ByteMem.get16_set16_of_disjoint, ByteMem.get16_set32_of_disjoint]
    have hackno : (segPacket seg1 pcb').mem.get32 (seg.tcphdr + 8) = htonl pcb.rcvNxt := by
      rw [segPacket, hhdr, hseg1, TcpSeg.completed]
      simp (disch := omega) only [Pbuf.set16_mem, Pbuf.set32_mem,
        ByteMem.get32_set16_of_disjoint, ByteMem.get32_set32_self]
    refine ⟨?_, ?_⟩
    · rw [hpay, tTcphFlags, tTcphWord, hword]
      exact hflag
    · rw [hpay, hackno]
      exact htonl_htonl _
  have hsend : ∀ netif (pcb' : TcpPcb), pcb'.unacked = pcb.unacked → pcb'.flags = pcb.flags →
      let r := tTcpOutputSegmentSend env indet netif seg1 pcb'
      r.1.id = seg.id ∧ r.2.1.unacked = pcb.unacked ∧ r.2.1.flags = pcb.flags ∧
        ∃ q, ipPackets r.2.2 = [q] ∧ seg.HandedAs q ∧
          (seg.flags &&& tcpAck ≠ 0 → pcb.AckedBy q) := by
    intro netif pcb' hun hflags
    obtain ⟨rttest, rtseq, h⟩ := tTcpOutputSegmentSend_eq env indet netif seg1 pcb'
    rw [h]
    exact ⟨hid, hun, hflags, _, by rw [ipPackets]; exact tIpOutput_ipPackets ..,
      hof _ (segPacket_handedAs _ _), hacks _⟩
  obtain ⟨hu, hr⟩ | ⟨n, ⟨hip, hroute⟩, hr⟩ | ⟨hip, hr⟩ :=
    tTcpOutputSegment_cases env indet seg pcb
  · rw [← hseg1] at hr
    rw [hr]
    exact ⟨hid, rfl, rfl, fun _ => rfl, fun hn => absurd hu hn⟩
  · obtain ⟨hid, hun, hflags, hq⟩ := hsend (.value (some n)) { pcb with localIp := n.ipAddr }
      rfl rfl
    rw [← hseg1] at hr
    rw [hr]
    exact ⟨hid, hun, hflags, fun hu => absurd (hu.2.symm.trans hroute) (by simp), fun _ => hq⟩
  · obtain ⟨hid, hun, hflags, hq⟩ := hsend .unassigned pcb rfl rfl
    rw [← hseg1] at hr
    rw [hr]
    exact ⟨hid, hun, hflags, fun hu => absurd hu.1 hip, fun _ => hq⟩

theorem or_tcpAck_ne_zero (w : UInt16) : (w ||| tcpAck) &&& tcpFlags &&& tcpAck ≠ 0 := by
  rw [or_and_mask, or_and_mask]
  exact fun h => absurd (UInt16.or_eq_zero_iff.mp h).2 (by decide)

theorem mem_unackedInsert {unacked : List TcpSeg} {seg s : TcpSeg}
    (h : s ∈ unackedInsert unacked seg) : s ∈ unacked ∨ s = seg := by
  unfold unackedInsert at h
  split at h
  · exact .inr (List.mem_singleton.mp h)
  · split at h
    · exact (List.mem_cons.mp h).symm
    · exact (List.mem_append.mp h).imp_right List.mem_singleton.mp

/-- One round does so with its segment, and keeps at most that one. -/
theorem tTcpOutputRound_handed (indet : Option Netif) (pcb : TcpPcb) (seg : TcpSeg) :
    let r := tTcpOutputRound env indet pools pcb seg
    (∀ s ∈ r.2.1.unacked, s ∈ pcb.unacked ∨ s.id = seg.id) ∧
      (pcb.Unroutable env.net → ipPackets r.2.2 = []) ∧
      (¬ pcb.Unroutable env.net → ∃ q, ipPackets r.2.2 = [q] ∧ seg.HandedAs q ∧
        (pcb.state ≠ .synSent → pcb.AckedBy q)) := by
  obtain ⟨flags, hflags⟩ := pcb.outgoing_eq
  obtain ⟨r, hr⟩ : ∃ r, r = tTcpOutputSegment env indet (seg.outgoing pcb.state) pcb.outgoing :=
    ⟨_, rfl⟩
  obtain ⟨sndMax, hround⟩ := tTcpOutputRound_eq env pools hr
  obtain ⟨hid, hun, -, hno, hyes⟩ := tTcpOutputSegment_handed env indet (seg.outgoing pcb.state)
    pcb.outgoing
  rw [← hr] at hid hun hno hyes
  rw [hflags] at hun hno hyes
  rw [TcpSeg.outgoing_id] at hid
  have hout : ∀ q, (seg.outgoing pcb.state).HandedAs q → seg.HandedAs q := by
    intro q hq
    rcases seg.outgoing_cases pcb.state with ho | ho
    · rw [ho] at hq
      exact .of_fill ((tTcphSetFlag_writesOnly ..).mono (by omega) (by omega)) hq
    · rwa [ho] at hq
  have hpackets : (pcb.Unroutable env.net → ipPackets r.2.2 = []) ∧
      (¬ pcb.Unroutable env.net → ∃ q, ipPackets r.2.2 = [q] ∧ seg.HandedAs q ∧
        (pcb.state ≠ .synSent → pcb.AckedBy q)) := by
    refine ⟨hno, fun hu => ?_⟩
    obtain ⟨q, hq, hqs, hack⟩ := hyes hu
    refine ⟨q, hq, hout q hqs, fun hst => ?_⟩
    obtain ⟨hflag, hackno⟩ := hack (by
      rw [TcpSeg.outgoing, if_pos hst, TcpSeg.flags_eq, TcpSeg.setFlag_word]
      exact or_tcpAck_ne_zero _)
    exact ⟨hflag, hackno⟩
  rw [hround]
  split
  · refine ⟨fun s hs => ?_, hpackets⟩
    rcases mem_unackedInsert hs with hs | rfl
    · exact .inl (hun ▸ hs)
    · exact .inr hid
  · exact ⟨fun s hs => .inl (hun ▸ hs), hpackets⟩

/-- Sending does not change whether there is a route. -/
theorem tTcpOutputRound_unroutable (indet : Option Netif) (pcb : TcpPcb) (seg : TcpSeg) :
    (tTcpOutputRound env indet pools pcb seg).2.1.Unroutable env.net ↔
      pcb.Unroutable env.net := by
  obtain ⟨hout, -⟩ := tTcpOutputRound_outputs env pools indet pcb seg
  obtain ⟨-, hlocal⟩ := tTcpOutputRound_routed env pools indet pcb seg
  rw [TcpPcb.Unroutable, TcpPcb.Unroutable, hout.conn.remoteIp]
  refine and_congr_left fun hroute => ?_
  rw [hroute] at hlocal
  by_cases hip : pcb.localIp = 0
  · exact iff_of_true (hlocal hip) hip
  · exact iff_of_false (by rw [hout.localIp hip]; exact hip) hip

/-! ## the queue -/

/-- The loop takes segments off the front of the queue, unless the first does
not fit, and hands on all of them or none. -/
theorem tTcpOutputLoop_handed (wnd : UInt32) {pcb : TcpPcb} {unsent : List TcpSeg}
    (hun : pcb.unsent = unsent) :
    let r := tTcpOutputLoop env wnd pools pcb unsent
    ∃ gone, unsent = gone ++ r.2.1.unsent ∧
      (gone = [] ↔ ∀ seg ∈ unsent.head?, ¬ seg.fits pcb.lastack wnd) ∧
      (gone = [] → r = (pools, pcb, [])) ∧
      (∀ s ∈ r.2.1.unacked, s ∈ pcb.unacked ∨ ∃ seg ∈ gone, s.id = seg.id) ∧
      (pcb.Unroutable env.net → ipPackets r.2.2 = []) ∧
      (¬ pcb.Unroutable env.net → ∀ seg ∈ gone, ∃ q ∈ ipPackets r.2.2, seg.HandedAs q) := by
  induction unsent generalizing pools pcb with
  | nil =>
      refine ⟨[], ?_, by simp, fun _ => rfl, fun s hs => .inl hs, fun _ => rfl, by simp⟩
      rw [tTcpOutputLoop, hun]
      rfl
  | cons seg rest ih =>
      by_cases hfit : seg.fits pcb.lastack wnd
      · obtain ⟨r, hr⟩ : ∃ r, r = tTcpOutputRound env (env.indet rest.length) pools
            { pcb with unsent := rest } seg := ⟨_, rfl⟩
        obtain ⟨-, hun'⟩ := tTcpOutputRound_outputs env pools (env.indet rest.length)
          { pcb with unsent := rest } seg
        obtain ⟨hunacked, hno, hyes⟩ := tTcpOutputRound_handed env pools (env.indet rest.length)
          { pcb with unsent := rest } seg
        have hroute := tTcpOutputRound_unroutable env pools (env.indet rest.length)
          { pcb with unsent := rest } seg
        rw [← hr] at hun' hunacked hno hyes hroute
        have hroute' : r.2.1.Unroutable env.net ↔ pcb.Unroutable env.net := hroute
        obtain ⟨gone, hsplit, -, -, hunacked', hno', hyes'⟩ := ih r.1 hun'
        have hloop : tTcpOutputLoop env wnd pools pcb (seg :: rest) =
            ((tTcpOutputLoop env wnd r.1 r.2.1 rest).1,
              (tTcpOutputLoop env wnd r.1 r.2.1 rest).2.1,
              r.2.2 ++ (tTcpOutputLoop env wnd r.1 r.2.1 rest).2.2) := by
          rw [tTcpOutputLoop, if_pos hfit]
          simp only [← hr]
        simp only [hloop, ipPackets_append]
        refine ⟨seg :: gone, by rw [List.cons_append, ← hsplit],
          iff_of_false (by simp) (by simpa using hfit), by simp, fun s hs => ?_, fun hu => ?_,
          fun hu => ?_⟩
        · rcases hunacked' s hs with hs | ⟨seg', hseg', hid⟩
          · exact (hunacked s hs).imp_right fun hid => ⟨seg, List.mem_cons_self, hid⟩
          · exact .inr ⟨seg', List.mem_cons_of_mem _ hseg', hid⟩
        · rw [hno hu, hno' (hroute'.mpr hu)]
          rfl
        · obtain ⟨q, hq, hqs, -⟩ := hyes hu
          refine List.forall_mem_cons.mpr ⟨⟨q, by rw [hq]; simp, hqs⟩, fun seg' hseg' => ?_⟩
          obtain ⟨q', hq', hqs'⟩ := hyes' (fun hu' => hu (hroute'.mp hu')) seg' hseg'
          exact ⟨q', List.mem_append_right _ hq', hqs'⟩
      · rw [tTcpOutputLoop, if_neg hfit]
        exact ⟨[], by rw [hun]; rfl, iff_of_true rfl (by simpa using hfit), fun _ => rfl,
          fun s hs => .inl hs, fun _ => rfl, by simp⟩

/-- An empty acknowledgement is handed to IP, or remains due. -/
theorem tTcpOutputAck_handed (pcb : TcpPcb) :
    let r := tTcpOutputAck env pools pcb
    (∃ flags, r.2.2.1 = { pcb with flags }) ∧
      (r.2.2.1.flags ≠ pcb.flags → ipPackets r.2.2.2 ≠ []) := by
  refine ⟨(tTcpOutputAck_spec env pools pcb).1, ?_⟩
  unfold tTcpOutputAck
  simp only
  split
  · exact fun h => absurd rfl h
  · intro _
    rw [ipPackets]
    simp only [tIpOutput_ipPackets]
    simp

/-! ## one call -/

variable {env pools} {pcb : TcpPcb}

/-- Everything but a segment without a route is handed on. -/
theorem marksHanded_iff : MarksHanded env pools pcb ↔
    ¬ pcb.Unroutable env.net ∨ pcb.PassesNone := by
  by_cases hack : pcb.AcksOnly
  · refine iff_of_true ?_ (.inr hack.2)
    obtain ⟨⟨flags, hpcb⟩, hflags⟩ := tTcpOutputAck_handed env pools pcb
    refine ⟨⟨[], ?_, by simp, fun s hs => .inl ?_, fun _ => ?_⟩, ?_⟩
    · rw [tTcpOutput_of_acksOnly env pools hack, hpcb]
      rfl
    · rw [tTcpOutput_of_acksOnly env pools hack, hpcb] at hs
      exact hs
    · rw [tTcpOutput_of_acksOnly env pools hack, hpcb]
    · rw [tTcpOutput_of_acksOnly env pools hack]
      exact hflags
  · have hout := tTcpOutput_of_not_acksOnly env pools hack
    obtain ⟨gone, hsplit, hgone, hidle, hunacked, hno, hyes⟩ :=
      tTcpOutputLoop_handed env pools pcb.wnd (rfl : pcb.unsent = _)
    constructor
    · rintro ⟨⟨gone', hsplit', hhanded, -, -⟩, -⟩
      by_contra! hneither
      obtain ⟨hu, hpass⟩ := hneither
      simp only [hout] at hsplit' hhanded
      obtain rfl : gone' = gone := List.append_cancel_right (hsplit'.symm.trans hsplit)
      obtain ⟨seg, hseg⟩ := List.exists_mem_of_ne_nil gone' fun hnil => hpass (hgone.mp hnil)
      obtain ⟨q, hq, -⟩ := hhanded seg hseg
      rw [hno hu] at hq
      exact absurd hq List.not_mem_nil
    · intro hcond
      have hall : ∀ seg ∈ gone, ∃ q ∈ ipPackets (tTcpOutputLoop env pcb.wnd pools pcb
          pcb.unsent).2.2, seg.HandedAs q := by
        rcases hcond with hu | hpass
        · exact hyes hu
        · rw [hgone.mpr hpass]
          simp
      refine ⟨⟨gone, ?_, ?_, ?_, fun hnil => ?_⟩, fun hflags => ?_⟩
      · rw [hout]
        exact hsplit
      · rw [hout]
        exact hall
      · rw [hout]
        exact hunacked
      · rw [hout, hidle hnil]
      · rw [hout] at hflags ⊢
        have hne : gone ≠ [] := fun hnil => hflags (by rw [hidle hnil])
        obtain ⟨seg, hseg⟩ := List.exists_mem_of_ne_nil gone hne
        obtain ⟨q, hq, -⟩ := hall seg hseg
        exact List.ne_nil_of_mem hq

/-- A segment whose turn it is does not stay on the queue. -/
theorem unsent_ne_of_passes (hpass : ¬ pcb.PassesNone) :
    (tTcpOutput env pools pcb).2.2.1.unsent ≠ pcb.unsent := by
  have hack : ¬ pcb.AcksOnly := fun hack => hpass hack.2
  obtain ⟨gone, hsplit, hgone, -⟩ := tTcpOutputLoop_handed env pools pcb.wnd (rfl : pcb.unsent = _)
  rw [tTcpOutput_of_not_acksOnly env pools hack]
  intro hsame
  have hnil : gone = [] := List.self_eq_append_left.mp (hsplit.trans (congrArg (gone ++ ·) hsame))
  exact hpass (hgone.mp hnil)

/-- **What is marked as sent**: it has been handed to `t_ip_output`, and what has
no route stays, exactly when there is a route or nothing fits the window. -/
theorem output_handed_iff : MarksHanded env pools pcb ∧ KeepsUnrouted env pools pcb ↔
    tIpRoute env.net pcb.remoteIp ≠ none ∨ pcb.PassesNone := by
  rw [marksHanded_iff]
  constructor
  · rintro ⟨-, hkeep⟩
    by_contra! hneither
    obtain ⟨hroute, hpass⟩ := hneither
    exact unsent_ne_of_passes hpass (hkeep hroute hpass).1
  · rintro (hroute | hpass)
    · exact ⟨.inl fun hu => hroute hu.2, fun hno => absurd hno hroute⟩
    · exact ⟨.inr hpass, fun _ hnot => absurd hpass hnot⟩

end

theorem exists_mem_of_any {α : Type*} {o : Option α} {p : α → Bool} (h : o.any p = true) :
    ∃ a ∈ o, p a = true := by
  cases o with
  | none => cases h
  | some a => exact ⟨a, rfl, h⟩

/-- A control block just connected, its SYN unsent, on a host without
interfaces. -/
def unroutedPcb : TcpPcb :=
  (tTcpConnectEnqueue ((TcpHost.initial (.init fun _ _ => 0) ⟨[], none⟩).step .new) 0 0x0100000a 80
    none).1.2.2

/-- The SYN counts as sent, and no packet leaves `t_tcp_output_segment`. -/
theorem not_output_handed : ¬ ∀ (env : OutEnv) (pools : Pools) (pcb : TcpPcb),
    MarksHanded env pools pcb ∧ KeepsUnrouted env pools pcb := by
  intro hall
  have hpass : ¬ unroutedPcb.PassesNone := by
    obtain ⟨seg, hseg, hfit⟩ := exists_mem_of_any (o := unroutedPcb.unsent.head?)
      (p := fun seg => seg.fits unroutedPcb.lastack unroutedPcb.wnd) (by decide +kernel)
    exact fun hnone => hnone seg hseg hfit
  obtain ⟨-, hkeep⟩ := hall ⟨⟨[], none⟩, 0, fun _ => none⟩ ⟨[], []⟩ unroutedPcb
  exact unsent_ne_of_passes hpass (hkeep rfl hpass).1

end TTcp
