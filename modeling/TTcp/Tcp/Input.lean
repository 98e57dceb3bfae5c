import TTcp.Lib.Loop
import TTcp.Tcp.Output

/-!
# TTcp.Tcp.Input

What an incoming segment does to the control block it belongs to:
`t_tcp_parseopt` and `t_tcp_process` (`core/t_tcp_in.c`).

Every read of the segment is recorded in its pbuf.  The options are walked
with an 8-bit cursor that the length bytes may throw back, so the walk need
not end; there are 256 places for the cursor, so a walk that has not ended
after 256 rounds never will (`tTcpParseopt_eq_none_iff`).
-/

namespace TTcp

/-! ## options -/

/-- One round of the loop of `t_tcp_parseopt`, with the cursor at `c`.  It
ends with the value of the MSS option or without one. -/
def parseoptRound (tcphdr : Nat) : UInt8 × Pbuf →
    Loop.Step (UInt8 × Pbuf) (Option UInt16 × Pbuf)
  | (c, p) =>
      let (word, p) := p.rd16 (tcphdr + 12)
      if ((ntohs word >>> 12).toNat - 5) * 4 ≤ c.toNat then .done (none, p)
      else
        let opts := tcphdr + tTcpHlen
        let (opt, p) := p.rd8 (opts + c.toNat)
        if opt = 0x00 then .done (none, p)
        else if opt = 0x01 then .next (c + 1, p)
        else
          let (len, p) := p.rd8 (opts + (c.toNat + 1))
          if opt = 0x02 ∧ len = 0x04 then
            let (hi, p) := p.rd8 (opts + (c.toNat + 2))
            let (lo, p) := p.rd8 (opts + (c.toNat + 3))
            .done (some ((hi.toUInt16 <<< 8) ||| lo.toUInt16), p)
          else if len = 0 then .done (none, p)
          else .next (c + len, p)

/-- The walk over the options: `none` when it does not end. -/
def tTcpParseopt (p : Pbuf) (tcphdr : Nat) : Option (Option UInt16 × Pbuf) :=
  let (word, p) := p.rd16 (tcphdr + 12)
  if ntohs word >>> 12 > 5 then Loop.run (parseoptRound tcphdr) 256 (0, p)
  else some (none, p)

/-- The segment after a walk that does not end: by the time the cursor has
been everywhere it gets to, everything has been read. -/
def parseoptHung (p : Pbuf) (tcphdr : Nat) : Pbuf :=
  match Loop.iter (parseoptRound tcphdr) 256 (0, p) with
  | some (_, p) => p
  | none => p

/-! ## the handshake -/

/-- How a call ends: it returns, it goes round a loop for ever, or it goes
through a null pointer. -/
inductive Fate where
  | returns (ret : Int)
  | hangs
  | crashes
deriving DecidableEq, Repr

/-- The fields of an incoming segment that `t_tcp_input` takes out of it. -/
structure Incoming where
  p : Pbuf
  tcphdr : Nat
  seqno : UInt32
  ackno : UInt32
  flags : UInt16

/-- The fields that `t_tcp_process` sets when it accepts a SYN|ACK. -/
def tcpAcceptPcb (pcb : TcpPcb) (s : Incoming) (wnd : UInt16) (unacked : List TcpSeg) : TcpPcb :=
  { pcb with
    sndBuf := pcb.sndBuf + 1
    rcvNxt := s.seqno + 1
    lastack := s.ackno
    sndWnd := wnd.toUInt32
    sndWl1 := s.seqno - 1
    state := .established
    cwnd := pcb.mss
    sndQueuelen := pcb.sndQueuelen - 1
    unacked }

/-- The `mss` after parsing options: an MSS option found is capped. -/
def negotiatedMss (mss : UInt16) : Option UInt16 → UInt16
  | some mss => if tTcpMss < mss then tTcpMss else mss
  | none => mss

/-- `t_tcp_process`.  `cbRet` is what the `connected` callback returns. -/
def tTcpProcess (env : OutEnv) (cbRet : ErrT) (pools : Pools) (pcb : TcpPcb) (s : Incoming) :
    Fate × Pools × TcpPcb × Pbuf × List Event :=
  let pcb := { pcb with tmr := env.tcpTicks, keepCnt := 0 }
  if pcb.state = .synSent ∧ s.flags &&& tcpAck ≠ 0 ∧ s.flags &&& tcpSyn ≠ 0 then
    match pcb.unacked with
    | [] => (.crashes, pools, pcb, s.p, [.nullUnacked])
    | rseg :: unacked =>
        if s.ackno = rseg.seqno + 1 then
          let (wnd, p) := s.p.rd16 (s.tcphdr + 14)
          let pcb := tcpAcceptPcb pcb s wnd unacked
          let pools := (tTcpSegFree pools rseg.block).2
          match tTcpParseopt p s.tcphdr with
          | none => (.hangs, pools, pcb, parseoptHung p s.tcphdr, [])
          | some (mss, p) =>
              let pcb := { pcb with mss := negotiatedMss pcb.mss mss }
              let (err, evs) := match pcb.connected with
                | some fn => (cbRet, [Event.tcpConnected fn errOk])
                | none => (0, [])
              (.returns err, pools, { pcb with flags := pcb.flags ||| tfAckNow }, p, evs)
        else (.returns 0, pools, pcb, s.p, [])
  else (.returns 0, pools, pcb, s.p, [])

/-- What `t_tcp_input` does with the control block it found: process the
segment, and output if that went well. -/
def tTcpReceive (env : OutEnv) (cbRet : ErrT) (pools : Pools) (pcb : TcpPcb) (s : Incoming) :
    Fate × Pools × TcpPcb × Pbuf × List Event :=
  match tTcpProcess env cbRet pools pcb s with
  | (.returns err, pools, pcb, p, evs) =>
      if err = errOk then
        let (_, pools, pcb, evs') := tTcpOutput env pools pcb
        (.returns 0, pools, pcb, p, evs ++ evs')
      else (.returns 0, pools, pcb, p, evs)
  | r => r

/-! ## what processing does -/

/-- Nothing happens to the control block but its timers being reset. -/
def TcpPcb.touch (pcb : TcpPcb) (tcpTicks : UInt32) : TcpPcb :=
  { pcb with tmr := tcpTicks, keepCnt := 0 }

/-- The only thing that ever happens is that a SYN|ACK for the head of the
unacked queue is accepted in SYN_SENT. -/
theorem tTcpProcess_cases (env : OutEnv) (cbRet : ErrT) (pools : Pools) (pcb : TcpPcb)
    (s : Incoming) :
    let r := tTcpProcess env cbRet pools pcb s
    ipPackets r.2.2.2.2 = [] ∧
      (r.2.2.1 = pcb.touch env.tcpTicks ∧
          (r.1 = .crashes → pcb.state = .synSent ∧ pcb.unacked = []) ∧ r.1 ≠ .hangs ∨
        pcb.state = .synSent ∧ s.flags &&& tcpAck ≠ 0 ∧ s.flags &&& tcpSyn ≠ 0 ∧
          ∃ rseg unacked wnd mss flags, pcb.unacked = rseg :: unacked ∧
            s.ackno = rseg.seqno + 1 ∧ wnd = s.p.mem.get16 (s.tcphdr + 14) ∧
            r.2.2.1 = { tcpAcceptPcb (pcb.touch env.tcpTicks) s wnd unacked with
              mss := negotiatedMss pcb.mss mss
              flags } ∧
            (∀ p, tTcpParseopt (s.p.see (s.tcphdr + 16)) s.tcphdr = some p → mss = p.1) ∧
            r.1 ≠ .crashes) := by
  unfold tTcpProcess
  simp only
  split
  · next hsyn =>
    split
    · next hnil => exact ⟨rfl, Or.inl ⟨rfl, fun _ => ⟨hsyn.1, hnil⟩, by simp⟩⟩
    · next rseg unacked hcons =>
      split
      · next hack =>
        split
        · next hparse =>
          refine ⟨rfl, Or.inr ⟨hsyn.1, hsyn.2.1, hsyn.2.2, rseg, unacked, _, none, _, hcons, hack,
            rfl, rfl, fun p hp => ?_, by simp⟩⟩
          simp only [Pbuf.rd16_snd] at hparse
          rw [hparse] at hp
          contradiction
        · next mss p hparse =>
          refine ⟨?_, Or.inr ⟨hsyn.1, hsyn.2.1, hsyn.2.2, rseg, unacked, _, mss, _, hcons, hack,
            rfl, rfl, fun p' hp => ?_, by simp⟩⟩
          · cases pcb.connected <;> rfl
          · simp only [Pbuf.rd16_snd] at hparse
            rw [hparse] at hp
            rw [← Option.some.inj hp]
      · exact ⟨rfl, Or.inl ⟨rfl, by simp, by simp⟩⟩
  · exact ⟨rfl, Or.inl ⟨rfl, by simp, by simp⟩⟩

/-! ## the walk over the options ends within 256 rounds or never -/

/-- The walk without the record of what it read. -/
def parseoptCursor (m : ByteMem) (tcphdr : Nat) (c : UInt8) : Loop.Step UInt8 Unit :=
  let opts := tcphdr + tTcpHlen
  if ((ntohs (m.get16 (tcphdr + 12)) >>> 12).toNat - 5) * 4 ≤ c.toNat then .done ()
  else if m (opts + c.toNat) = 0x00 then .done ()
  else if m (opts + c.toNat) = 0x01 then .next (c + 1)
  else if m (opts + c.toNat) = 0x02 ∧ m (opts + (c.toNat + 1)) = 0x04 then .done ()
  else if m (opts + (c.toNat + 1)) = 0 then .done ()
  else .next (c + m (opts + (c.toNat + 1)))

/-- `q` is `p` after more of it was read. -/
def Pbuf.ReadMore (p q : Pbuf) : Prop := ∃ e, p.rdEnd ≤ e ∧ q = { p with rdEnd := e }

namespace Pbuf.ReadMore

variable {p q r : Pbuf}

theorem refl (p : Pbuf) : p.ReadMore p := ⟨p.rdEnd, le_rfl, rfl⟩

theorem see (h : p.ReadMore q) (o : Nat) : p.ReadMore (q.see o) := by
  obtain ⟨e, he, rfl⟩ := h
  exact ⟨max e o, by omega, rfl⟩

theorem trans (h : p.ReadMore q) (h' : q.ReadMore r) : p.ReadMore r := by
  obtain ⟨e, he, rfl⟩ := h
  obtain ⟨e', he', rfl⟩ := h'
  exact ⟨e', he.trans he', rfl⟩

theorem mem (h : p.ReadMore q) : q.mem = p.mem := by
  obtain ⟨e, -, rfl⟩ := h
  rfl

theorem rdEnd (h : p.ReadMore q) : p.rdEnd ≤ q.rdEnd := by
  obtain ⟨e, he, rfl⟩ := h
  exact he

end Pbuf.ReadMore

/-- Where a round of the walk goes, and that it only reads. -/
theorem parseoptRound_next {tcphdr : Nat} {p : Pbuf} {s s' : UInt8 × Pbuf} (hp : p.ReadMore s.2)
    (h : parseoptRound tcphdr s = .next s') :
    p.ReadMore s'.2 ∧ parseoptCursor p.mem tcphdr s.1 = .next s'.1 := by
  obtain ⟨c, q⟩ := s
  have hm := hp.mem
  simp only at hp hm
  simp only [parseoptRound, Pbuf.rd16_fst, Pbuf.rd16_snd, Pbuf.rd8_fst, Pbuf.rd8_snd,
    Pbuf.see_mem, hm] at h
  unfold parseoptCursor
  split at h
  · contradiction
  · next hend =>
    rw [if_neg hend]
    split at h
    · contradiction
    · next h0 =>
      rw [if_neg h0]
      split at h
      · next h1 =>
        rw [if_pos h1]
        obtain rfl := Loop.Step.next.inj h
        exact ⟨(hp.see _).see _, rfl⟩
      · next h1 =>
        rw [if_neg h1]
        split at h
        · contradiction
        · next h2 =>
          rw [if_neg h2]
          split at h
          · contradiction
          · next h3 =>
            rw [if_neg h3]
            obtain rfl := Loop.Step.next.inj h
            exact ⟨((hp.see _).see _).see _, rfl⟩

theorem parseoptRound_done {tcphdr : Nat} {p : Pbuf} {s : UInt8 × Pbuf}
    {r : Option UInt16 × Pbuf} (hp : p.ReadMore s.2) (h : parseoptRound tcphdr s = .done r) :
    p.ReadMore r.2 ∧ parseoptCursor p.mem tcphdr s.1 = .done () := by
  obtain ⟨c, q⟩ := s
  have hm := hp.mem
  simp only at hp hm
  simp only [parseoptRound, Pbuf.rd16_fst, Pbuf.rd16_snd, Pbuf.rd8_fst, Pbuf.rd8_snd,
    Pbuf.see_mem, hm] at h
  unfold parseoptCursor
  split at h
  · next hend =>
    rw [if_pos hend]
    obtain rfl := Loop.Step.done.inj h
    exact ⟨hp.see _, rfl⟩
  · next hend =>
    rw [if_neg hend]
    split at h
    · next h0 =>
      rw [if_pos h0]
      obtain rfl := Loop.Step.done.inj h
      exact ⟨(hp.see _).see _, rfl⟩
    · next h0 =>
      rw [if_neg h0]
      split at h
      · contradiction
      · next h1 =>
        rw [if_neg h1]
        split at h
        · next h2 =>
          rw [if_pos h2]
          obtain rfl := Loop.Step.done.inj h
          exact ⟨((((hp.see _).see _).see _).see _).see _, rfl⟩
        · next h2 =>
          rw [if_neg h2]
          split at h
          · next h3 =>
            rw [if_pos h3]
            obtain rfl := Loop.Step.done.inj h
            exact ⟨((hp.see _).see _).see _, rfl⟩
          · contradiction

theorem tTcpParseopt_eq (p : Pbuf) (tcphdr : Nat) : tTcpParseopt p tcphdr =
    if tTcphHdrlen p.mem tcphdr > 5 then
      Loop.run (parseoptRound tcphdr) 256 (0, p.see (tcphdr + 12 + 2))
    else some (none, p.see (tcphdr + 12 + 2)) := rfl

/-- A walk that has not ended after 256 rounds never ends. -/
theorem tTcpParseopt_eq_none_iff (p : Pbuf) (tcphdr : Nat) : tTcpParseopt p tcphdr = none ↔
    tTcphHdrlen p.mem tcphdr > 5 ∧ ¬ Loop.Ends (parseoptCursor p.mem tcphdr) 0 := by
  have hinj : Function.Injective (fun c : UInt8 => (⟨c.toNat, c.toNat_lt⟩ : Fin 256)) :=
    fun a b h => UInt8.toNat_inj.1 (Fin.mk.inj h)
  rw [← Loop.run_eq_none_iff _ _ hinj]
  have hrun := Loop.run_eq_none_map (parseoptRound tcphdr) (P := fun s => p.ReadMore s.2) Prod.fst
    (fun s s' hs h => parseoptRound_next hs h)
    (fun s r hs h => ⟨(), (parseoptRound_done hs h).2⟩) 256
    (s := (0, p.see (tcphdr + 12 + 2))) ((Pbuf.ReadMore.refl p).see _)
  rw [hrun, tTcpParseopt_eq]
  by_cases h : tTcphHdrlen p.mem tcphdr > 5
  · rw [if_pos h, iff_and_self]
    exact fun _ => h
  · rw [if_neg h]
    exact iff_of_false (fun h' => nomatch h') fun h' => h h'.1

/-- Parsing options only reads. -/
theorem tTcpParseopt_readMore {p : Pbuf} {tcphdr : Nat} {r : Option UInt16 × Pbuf}
    (h : tTcpParseopt p tcphdr = some r) : p.ReadMore r.2 := by
  rw [tTcpParseopt_eq] at h
  have hp := (Pbuf.ReadMore.refl p).see (tcphdr + 12 + 2)
  by_cases h5 : tTcphHdrlen p.mem tcphdr > 5
  · rw [if_pos h5] at h
    exact Loop.run_of_invariant (parseoptRound tcphdr) (P := fun s => p.ReadMore s.2)
      (fun s s' hs h => (parseoptRound_next hs h).1) (fun s r hs h => (parseoptRound_done hs h).1)
      hp h
  · rw [if_neg h5] at h
    obtain rfl := Option.some.inj h
    exact hp

theorem parseoptHung_readMore (p : Pbuf) (tcphdr : Nat) : p.ReadMore (parseoptHung p tcphdr) := by
  unfold parseoptHung
  split
  · next c q h =>
    exact Loop.iter_of_invariant (parseoptRound tcphdr) (P := fun s => p.ReadMore s.2)
      (fun s s' hs h => (parseoptRound_next hs h).1) (Pbuf.ReadMore.refl p) h
  · exact .refl p

/-- Of the segment, processing only reads more. -/
theorem tTcpProcess_readMore (env : OutEnv) (cbRet : ErrT) (pools : Pools) (pcb : TcpPcb)
    (s : Incoming) : s.p.ReadMore (tTcpProcess env cbRet pools pcb s).2.2.2.1 := by
  have hsee := (Pbuf.ReadMore.refl s.p).see (s.tcphdr + 14 + 2)
  unfold tTcpProcess
  simp only
  split
  · split
    · exact .refl _
    · split
      · split
        · exact hsee.trans (parseoptHung_readMore _ _)
        · next hparse => exact hsee.trans (tTcpParseopt_readMore hparse)
      · exact .refl _
  · exact .refl _

/-- Output does nothing to it. -/
@[simp] theorem tTcpReceive_pbuf (env : OutEnv) (cbRet : ErrT) (pools : Pools) (pcb : TcpPcb)
    (s : Incoming) : (tTcpReceive env cbRet pools pcb s).2.2.2.1 =
      (tTcpProcess env cbRet pools pcb s).2.2.2.1 := by
  unfold tTcpReceive
  split
  · next heq =>
    rw [heq]
    split <;> rfl
  · rfl

/-- What is taken from the options depends on the header length and the bytes
behind the header. -/
theorem tTcpParseopt_congr {p p' : Pbuf} {tcphdr : Nat}
    (hword : p.mem.get16 (tcphdr + 12) = p'.mem.get16 (tcphdr + 12))
    (hopts : ∀ i, tcphdr + 20 ≤ i → p.mem i = p'.mem i) :
    (tTcpParseopt p tcphdr).map Prod.fst = (tTcpParseopt p' tcphdr).map Prod.fst := by
  have hbyte : ∀ k, p.mem (tcphdr + tTcpHlen + k) = p'.mem (tcphdr + tTcpHlen + k) := fun k =>
    hopts _ (by simp only [tTcpHlen]; omega)
  have hlen : tTcphHdrlen p.mem tcphdr = tTcphHdrlen p'.mem tcphdr := by
    rw [tTcphHdrlen, tTcphHdrlen, tTcphWord, tTcphWord, hword]
  rw [tTcpParseopt_eq, tTcpParseopt_eq, hlen]
  split
  · have hrel := Loop.run_related (parseoptRound tcphdr) (parseoptRound tcphdr)
      (R := fun s s' => s.1 = s'.1 ∧ s.2.mem = p.mem ∧ s'.2.mem = p'.mem)
      (Q := fun r r' => r.1 = r'.1) (fun s s' h => ?_) 256
      (s := (0, p.see (tcphdr + 12 + 2))) (t := (0, p'.see (tcphdr + 12 + 2))) ⟨rfl, rfl, rfl⟩
    · generalize Loop.run (parseoptRound tcphdr) 256 (0, p.see (tcphdr + 12 + 2)) = x,
        Loop.run (parseoptRound tcphdr) 256 (0, p'.see (tcphdr + 12 + 2)) = y at hrel
      cases hrel with
      | none => rfl
      | some h => exact congrArg some h
    · obtain ⟨c, q⟩ := s
      obtain ⟨c', q'⟩ := s'
      obtain ⟨rfl, hq, hq'⟩ := h
      simp only at hq hq'
      simp only [parseoptRound, Pbuf.rd16_fst, Pbuf.rd16_snd, Pbuf.rd8_fst, Pbuf.rd8_snd,
        Pbuf.see_mem, hq, hq', hword, hbyte]
      split
      · exact Or.inr ⟨_, _, rfl, rfl, rfl⟩
      · split
        · exact Or.inr ⟨_, _, rfl, rfl, rfl⟩
        · split
          · exact Or.inl ⟨_, _, rfl, rfl, rfl, hq, hq'⟩
          · split
            · exact Or.inr ⟨_, _, rfl, rfl, rfl⟩
            · split
              · exact Or.inr ⟨_, _, rfl, rfl, rfl⟩
              · exact Or.inl ⟨_, _, rfl, rfl, rfl, hq, hq'⟩
  · rfl

end TTcp
