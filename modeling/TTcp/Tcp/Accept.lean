import TTcp.Tcp.Agreement

/-!
# TTcp.Tcp.Accept

What `t_tcp_process` does with a segment, case by case: a SYN|ACK for the SYN is
accepted, one that comes when nothing is unacknowledged goes through a null
pointer, and everything else is ignored.

Of an accepted segment the sequence number, the acknowledgement number, the
window and the options matter, and nothing else (`tTcpReceive_alike`).
-/

namespace TTcp

/-- The segment is a SYN|ACK that a control block in SYN_SENT accepts. -/
def TcpPcb.Accepts (pcb : TcpPcb) (s : Incoming) : Prop :=
  pcb.state = .synSent ∧ s.flags &&& tcpAck ≠ 0 ∧ s.flags &&& tcpSyn ≠ 0 ∧
    ∃ rseg ∈ pcb.unacked.head?, s.ackno = rseg.seqno + 1

/-- The segment is a SYN|ACK for a control block in SYN_SENT that has nothing
unacknowledged. -/
def TcpPcb.NullUnacked (pcb : TcpPcb) (s : Incoming) : Prop :=
  pcb.state = .synSent ∧ s.flags &&& tcpAck ≠ 0 ∧ s.flags &&& tcpSyn ≠ 0 ∧ pcb.unacked = []

/-- What the walk over the options of a segment gives: `none` if it does not
end. -/
def Incoming.options (s : Incoming) : Option (Option UInt16) :=
  (tTcpParseopt (s.p.see (s.tcphdr + 16)) s.tcphdr).map Prod.fst

/-! ## the cases -/

section
variable (env : OutEnv) (cbRet : ErrT) (pools : Pools) {pcb : TcpPcb} {s : Incoming}

theorem tTcpProcess_of_nullUnacked (h : pcb.NullUnacked s) : tTcpProcess env cbRet pools pcb s =
    (.crashes, pools, pcb.touch env.tcpTicks, s.p, [.nullUnacked]) := by
  obtain ⟨hstate, hack, hsyn, hnil⟩ := h
  unfold tTcpProcess
  simp only [hnil]
  rw [if_pos ⟨hstate, hack, hsyn⟩, TcpPcb.touch, hnil]

theorem tTcpProcess_of_ignored (hnull : ¬ pcb.NullUnacked s) (hacc : ¬ pcb.Accepts s) :
    tTcpProcess env cbRet pools pcb s =
      (.returns 0, pools, pcb.touch env.tcpTicks, s.p, []) := by
  unfold tTcpProcess
  simp only
  by_cases hsyn : pcb.state = .synSent ∧ s.flags &&& tcpAck ≠ 0 ∧ s.flags &&& tcpSyn ≠ 0
  · rw [if_pos hsyn]
    cases hun : pcb.unacked with
    | nil => exact absurd ⟨hsyn.1, hsyn.2.1, hsyn.2.2, hun⟩ hnull
    | cons rseg unacked =>
        have hno : s.ackno ≠ rseg.seqno + 1 := fun hack =>
          hacc ⟨hsyn.1, hsyn.2.1, hsyn.2.2, rseg, by rw [hun]; rfl, hack⟩
        simp only [if_neg hno]
        rw [TcpPcb.touch, hun]
  · rw [if_neg hsyn, TcpPcb.touch]

/-- An accepted segment takes the SYN out of the unacked queue. -/
theorem tTcpProcess_of_accepts (h : pcb.Accepts s) :
    ∃ rseg unacked p, pcb.unacked = rseg :: unacked ∧ s.ackno = rseg.seqno + 1 ∧
      let r := tTcpProcess env cbRet pools pcb s
      let taken := tcpAcceptPcb (pcb.touch env.tcpTicks) s s.wnd unacked
      let freed := (tTcpSegFree pools rseg.block).2
      (s.options = none → r = (.hangs, freed, taken, p, [])) ∧
      ∀ mss, s.options = some mss → r =
        (.returns (if pcb.connected = none then 0 else cbRet), freed,
          { taken with mss := negotiatedMss pcb.mss mss, flags := pcb.flags ||| tfAckNow }, p,
          pcb.connected.toList.map fun fn => .tcpConnected fn errOk) := by
  obtain ⟨hstate, hack, hsyn, rseg, hrseg, hackno⟩ := h
  cases hun : pcb.unacked with
  | nil => rw [hun] at hrseg; cases hrseg
  | cons rseg' unacked =>
      rw [hun] at hrseg
      obtain rfl : rseg' = rseg := Option.some.inj hrseg
      unfold tTcpProcess
      simp only [hun, if_pos (And.intro hstate (And.intro hack hsyn)), if_pos hackno,
        Pbuf.rd16_fst, Pbuf.rd16_snd]
      rw [Incoming.options]
      cases hparse : tTcpParseopt (s.p.see (s.tcphdr + 14 + 2)) s.tcphdr with
      | none => exact ⟨rseg', unacked, _, rfl, hackno, fun _ => rfl, fun mss hmss => by cases hmss⟩
      | some r =>
          obtain ⟨mss, p⟩ := r
          refine ⟨rseg', unacked, p, rfl, hackno, fun hno => (by cases hno), fun mss' hmss => ?_⟩
          obtain rfl : mss = mss' := Option.some.inj hmss
          simp only [tcpAcceptPcb, TcpPcb.touch]
          cases pcb.connected with
          | none => rfl
          | some fn => rfl

end

/-- The host with this control block and no other. -/
def TcpHost.only (pcb : TcpPcb) : TcpHost :=
  { TcpHost.initial ⟨[], []⟩ ⟨[], none⟩ with
    tcpTicks := 1, pcb := fun _ => pcb, tcpActivePcbs := some 0 }

@[simp] theorem TcpHost.only_pcb (pcb : TcpPcb) (i : TcpPcbId) : (TcpHost.only pcb).pcb i = pcb :=
  rfl

/-- It gets what matches it. -/
theorem demux_only {pcb : TcpPcb} {k : TcpKey} (h : pcb.matches k = true) :
    demux (.only pcb) k = some (some (0, none)) := by
  have hround : demuxRound (.only pcb) k (some 0, none) = .done (some (0, none)) := by
    rw [demuxRound, TcpHost.only_pcb, if_pos h]
  rw [demux, show (tMempNumTcpPcb + 1) * (tMempNumTcpPcb + 1) = 8 + 1 from rfl, Loop.run,
    show (TcpHost.only pcb).tcpActivePcbs = some 0 from rfl, hround]

/-! ## two segments for one control block -/

/-- The control block takes both segments for the same: it accepts both or
neither, with the same numbers, window and `mss`. -/
structure TcpPcb.SeesAlike (pcb : TcpPcb) (s s' : Incoming) : Prop where
  nullUnacked : pcb.NullUnacked s ↔ pcb.NullUnacked s'
  accepts : pcb.Accepts s ↔ pcb.Accepts s'
  seqno : pcb.Accepts s → s.seqno = s'.seqno
  wnd : pcb.Accepts s → s.wnd = s'.wnd
  mss : pcb.Accepts s →
    s.options.map (negotiatedMss pcb.mss) = s'.options.map (negotiatedMss pcb.mss)

section
variable (env : OutEnv) (cbRet : ErrT) (pools : Pools) {pcb : TcpPcb} {s s' : Incoming}
  (h : pcb.SeesAlike s s')
include h

/-- Then it does the same with both. -/
theorem tTcpProcess_alike :
    let r := tTcpProcess env cbRet pools pcb s
    let r' := tTcpProcess env cbRet pools pcb s'
    r.1 = r'.1 ∧ r.2.1 = r'.2.1 ∧ r.2.2.1 = r'.2.2.1 ∧ r.2.2.2.2 = r'.2.2.2.2 := by
  by_cases hnull : pcb.NullUnacked s
  · rw [tTcpProcess_of_nullUnacked _ _ _ hnull,
      tTcpProcess_of_nullUnacked _ _ _ (h.nullUnacked.mp hnull)]
    exact ⟨rfl, rfl, rfl, rfl⟩
  by_cases hacc : pcb.Accepts s
  · obtain ⟨rseg, unacked, p, hun, hack, hhangs, hreturns⟩ :=
      tTcpProcess_of_accepts env cbRet pools hacc
    obtain ⟨rseg', unacked', p', hun', hack', hhangs', hreturns'⟩ :=
      tTcpProcess_of_accepts env cbRet pools (h.accepts.mp hacc)
    obtain ⟨rfl, rfl⟩ : rseg = rseg' ∧ unacked = unacked' := by
      rw [hun] at hun'
      exact List.cons.inj hun'
    have htaken : tcpAcceptPcb (pcb.touch env.tcpTicks) s s.wnd unacked =
        tcpAcceptPcb (pcb.touch env.tcpTicks) s' s'.wnd unacked := by
      rw [tcpAcceptPcb, tcpAcceptPcb, h.seqno hacc, h.wnd hacc, hack, hack']
    have hmss := h.mss hacc
    cases hopt : s.options with
    | none =>
        rw [hopt, Option.map_none, eq_comm, Option.map_eq_none_iff] at hmss
        rw [hhangs hopt, hhangs' hmss, htaken]
        exact ⟨rfl, rfl, rfl, rfl⟩
    | some m =>
        rw [hopt, Option.map_some, eq_comm, Option.map_eq_some_iff] at hmss
        obtain ⟨m', hopt', hneg⟩ := hmss
        rw [hreturns m hopt, hreturns' m' hopt', htaken, hneg]
        exact ⟨rfl, rfl, rfl, rfl⟩
  · rw [tTcpProcess_of_ignored _ _ _ hnull hacc,
      tTcpProcess_of_ignored _ _ _ (fun hn => hnull (h.nullUnacked.mpr hn))
        fun ha => hacc (h.accepts.mpr ha)]
    exact ⟨rfl, rfl, rfl, rfl⟩

theorem tTcpReceive_alike :
    let r := tTcpReceive env cbRet pools pcb s
    let r' := tTcpReceive env cbRet pools pcb s'
    r.1 = r'.1 ∧ r.2.1 = r'.2.1 ∧ r.2.2.1 = r'.2.2.1 ∧ r.2.2.2.2 = r'.2.2.2.2 := by
  obtain ⟨hfate, hpools, hpcb, hevs⟩ := tTcpProcess_alike env cbRet pools h
  unfold tTcpReceive
  generalize tTcpProcess env cbRet pools pcb s = r, tTcpProcess env cbRet pools pcb s' = r' at *
  obtain ⟨fate, pools1, pcb1, p1, evs1⟩ := r
  obtain ⟨fate', pools1', pcb1', p1', evs1'⟩ := r'
  simp only at hfate hpools hpcb hevs
  subst hfate hpools hpcb hevs
  cases fate with
  | returns err =>
      by_cases herr : err = errOk
      · simp only [if_pos herr]
        exact ⟨trivial, trivial, trivial, trivial⟩
      · simp only [if_neg herr]
        exact ⟨trivial, trivial, trivial, trivial⟩
  | hangs => exact ⟨rfl, rfl, rfl, rfl⟩
  | crashes => exact ⟨rfl, rfl, rfl, rfl⟩

end

/-! ## the segment in a packet -/

/-- The segment at `o` in a packet, as it stands there. -/
def segmentAt (p : Pbuf) (o : Nat) : Incoming :=
  ⟨p, o, tcphSeqno p.mem o, ntohl (p.mem.get32 (o + 8)), tTcphFlags p.mem o⟩

/-- The ports of the segment at `o`, and the addresses of the packet. -/
def keyAt (p : Pbuf) (o : Nat) : TcpKey :=
  ⟨ntohs (p.mem.get16 o), ntohs (p.mem.get16 (o + 2)), p.mem.get32 26, p.mem.get32 30⟩

/-- `s` is `t` with the window in host byte order. -/
structure Incoming.Reads (s t : Incoming) : Prop where
  seqno : s.seqno = t.seqno
  ackno : s.ackno = t.ackno
  flags : s.flags = t.flags
  wnd : s.wnd = ntohs t.wnd
  options : s.options = t.options

namespace Incoming.Reads

variable {pcb : TcpPcb} {s s' t t' : Incoming} (h : s.Reads t)
include h

theorem nullUnacked : pcb.NullUnacked s ↔ pcb.NullUnacked t := by
  rw [TcpPcb.NullUnacked, TcpPcb.NullUnacked, h.flags]

theorem accepts : pcb.Accepts s ↔ pcb.Accepts t := by
  rw [TcpPcb.Accepts, TcpPcb.Accepts, h.flags, h.ackno]

/-- Taking two segments for the same depends on nothing else. -/
theorem seesAlike_iff (h' : s'.Reads t') : pcb.SeesAlike s s' ↔ pcb.SeesAlike t t' := by
  have hwnd : s.wnd = s'.wnd ↔ t.wnd = t'.wnd := by
    rw [h.wnd, h'.wnd]
    exact ⟨fun heq => by simpa using congrArg ntohs heq, congrArg ntohs⟩
  constructor
  · rintro ⟨hnull, hacc, hseq, hw, hmss⟩
    rw [h.nullUnacked, h'.nullUnacked] at hnull
    rw [h.accepts] at hacc hseq hw hmss
    rw [h'.accepts] at hacc
    rw [h.seqno, h'.seqno] at hseq
    rw [hwnd] at hw
    rw [h.options, h'.options] at hmss
    exact ⟨hnull, hacc, hseq, hw, hmss⟩
  · rintro ⟨hnull, hacc, hseq, hw, hmss⟩
    rw [← h.nullUnacked, ← h'.nullUnacked] at hnull
    rw [← h.accepts] at hacc hseq hw hmss
    rw [← h'.accepts] at hacc
    rw [← h.seqno, ← h'.seqno] at hseq
    rw [← hwnd] at hw
    rw [← h.options, ← h'.options] at hmss
    exact ⟨hnull, hacc, hseq, hw, hmss⟩

end Incoming.Reads

/-- What `t_tcp_input` takes out of a packet is the segment in it. -/
theorem tTcpInputHeader_reads {r p : Pbuf} (hpay : r.payload = 14) {hl : Nat}
    (hhl : (tIphHl r.mem 14).toNat * 4 = hl) (h20 : 20 ≤ hl) (htot : hl + 20 ≤ r.totLen.toNat)
    (hp : r.mem = p.mem) :
    ∃ s, (tTcpInputHeader r).2 = some (s, keyAt p (14 + hl)) ∧ s.Reads (segmentAt p (14 + hl)) := by
  obtain ⟨s, k, hhdr, h⟩ := tTcpInputHeader_some hpay hhl htot rfl
  have hword := h.word
  have hk : k = keyAt p (14 + hl) := by
    rw [keyAt, ← hp, ← h.src, ← h.dest, ← (h.addrs h20).1, ← (h.addrs h20).2]
  rw [hk] at hhdr
  rw [hp] at hword
  refine ⟨s, congrArg Prod.snd hhdr, ?_, ?_, ?_, ?_, ?_⟩
  · rw [h.seqno, hp]
    rfl
  · rw [h.ackno, hp]
    rfl
  · rw [h.flags, hp]
    rfl
  · rw [h.wnd, hp]
    rfl
  · rw [Incoming.options, Incoming.options, h.tcphdr]
    exact tTcpParseopt_congr hword fun i hi => (h.rest i (by omega)).trans (by rw [hp]; rfl)

end TTcp
