import TTcp.Tcp.Accept

/-!
# TTcp.Tcp.Lengths

The lengths of a segment in `t_tcp_input`.

Two headers are taken off a 16-bit length, and `t_pbuf_header` does not compare
it with what it takes off.  The one test there is, for twenty bytes after the
IP header, comes after that length has been reduced, so an IP header longer
than the packet passes it; and nothing is tested after the TCP header.  What is
left is the length of the data exactly when neither subtraction wraps
(`tcp_lengths_iff`).
-/

namespace TTcp

/-- The length that the IP header announces for itself. -/
def ipHdrBytes (r : Pbuf) : Nat := (tIphHl r.mem r.payload).toNat * 4

/-- The length that the TCP header behind it announces for itself. -/
def tcpHdrBytes (r : Pbuf) : Nat := (tTcphHdrlen r.mem (r.payload + ipHdrBytes r)).toNat * 4

/-- The headers do not fit into the packet, or the TCP header is announced
shorter than it is. -/
def HeadersMisfit (r : Pbuf) : Prop :=
  r.totLen.toNat < ipHdrBytes r + tTcpHlen ∨ r.totLen.toNat < ipHdrBytes r + tcpHdrBytes r ∨
    tcpHdrBytes r < tTcpHlen

/-- Whatever control blocks there are, `t_tcp_input` returns and leaves them as
they are. -/
def LeavesPcbs (r : Pbuf) : Prop := ∀ (h : TcpHost) (indet : Nat → Option Netif) (cbRet : ErrT),
  (∃ ret, (tTcpInput h indet cbRet r).1.fate = .returns ret) ∧
    (tTcpInput h indet cbRet r).2.2.pcb = h.pcb

/-- The length that `inseg.len` and `tcplen` are computed from is that of the
data. -/
def PayloadExact (r : Pbuf) : Prop := ∃ s k, (tTcpInputHeader r).2 = some (s, k) ∧
  s.p.totLen.toNat + ipHdrBytes r + tcpHdrBytes r = r.totLen.toNat

/-! ## what the two subtractions leave -/

/-- A packet is dropped exactly when what the first subtraction leaves is less
than a TCP header. -/
theorem tTcpInputHeader_length {r : Pbuf} (hpay : r.payload = 14) :
    if (r.totLen - UInt16.ofNat (ipHdrBytes r)).toNat < 20 then (tTcpInputHeader r).2 = none
    else ∃ s k, (tTcpInputHeader r).2 = some (s, k) ∧ s.p.totLen =
      r.totLen - UInt16.ofNat (ipHdrBytes r) - UInt16.ofNat (tcpHdrBytes r) := by
  have hhl : (tIphHl r.mem 14).toNat * 4 = ipHdrBytes r := by rw [ipHdrBytes, hpay]
  have hcases := tTcpInputHeader_cases hpay hhl rfl
  split at hcases
  · next hshort =>
    obtain ⟨q, hq, -⟩ := hcases
    rw [if_pos hshort, hq]
  · next hlong =>
    obtain ⟨s, k, hhdr, h⟩ := hcases
    rw [if_neg hlong]
    refine ⟨s, k, congrArg Prod.snd hhdr, ?_⟩
    rw [h.totLen, tcpHdrBytes, hpay]

/-- A dropped packet changes nothing. -/
theorem leavesPcbs_of_none {r : Pbuf} (hr : (tTcpInputHeader r).2 = none) : LeavesPcbs r := by
  intro h indet cbRet
  unfold tTcpInput
  generalize tTcpInputHeader r = x at hr
  obtain ⟨p, o⟩ := x
  obtain rfl : o = none := hr
  exact ⟨⟨_, rfl⟩, rfl⟩

/-- Any other packet resets the timer of a control block that it is for. -/
theorem not_leavesPcbs_of_some {r : Pbuf} {s : Incoming} {k : TcpKey}
    (hr : (tTcpInputHeader r).2 = some (s, k)) : ¬ LeavesPcbs r := by
  intro hleaves
  obtain ⟨pcb, hpcb⟩ : ∃ pcb, pcb = { TcpPcb.zero with
      localPort := k.dest, localIp := k.ipDst, remotePort := k.src, remoteIp := k.ipSrc } :=
    ⟨_, rfl⟩
  obtain ⟨h, hh⟩ : ∃ h, h = TcpHost.only pcb := ⟨_, rfl⟩
  have hmatch : pcb.matches k = true := by simp [hpcb, TcpPcb.matches, tIpAddrCmp]
  have hdemux : demux h k = some (some (0, none)) := by rw [hh, demux_only hmatch]
  have hclosed : pcb.state ≠ .synSent := by
    rw [hpcb]
    exact show TcpState.closed ≠ .synSent by decide
  have hflags : pcb.flags = 0 := by rw [hpcb]; rfl
  have hunsent : pcb.unsent = [] := by rw [hpcb]; rfl
  have htmr : pcb.tmr = 0 := by rw [hpcb]; rfl
  have hproc := tTcpProcess_of_ignored (h.outEnv fun _ => none) 0 h.pools
    (show ¬ pcb.NullUnacked s from fun hn => hclosed hn.1) (fun ha => hclosed ha.1)
  have hidle := tTcpOutput_idle (h.outEnv fun _ => none) h.pools
    (show (pcb.touch h.tcpTicks).flags &&& tfAckNow = 0 by rw [TcpPcb.touch, hflags]; rfl)
    (by rw [TcpPcb.touch, hunsent]; simp)
  have hrecv : (tTcpReceive (h.outEnv fun _ => none) 0 h.pools pcb s).2.2.1 =
      pcb.touch h.tcpTicks := by
    rw [tTcpReceive, hproc]
    simp only [errOk, ↓reduceIte]
    rw [show (h.outEnv fun _ => none).tcpTicks = h.tcpTicks from rfl, hidle]
  have hin : (tTcpInput h (fun _ => none) 0 r).2.2.pcb 0 =
      (tTcpReceive (h.outEnv fun _ => none) 0 h.pools pcb s).2.2.1 := by
    have hpcb0 : h.pcb 0 = pcb := by rw [hh, TcpHost.only_pcb]
    unfold tTcpInput
    generalize tTcpInputHeader r = x at hr
    obtain ⟨p, o⟩ := x
    obtain rfl : o = some (s, k) := hr
    simp only [hdemux, moveToFront, TcpHost.setPcb_pcb_self, hpcb0]
  obtain ⟨-, hsame⟩ := hleaves h (fun _ => none) 0
  have htick : (1 : UInt32) = 0 := by
    calc (1 : UInt32) = h.tcpTicks := by rw [hh, TcpHost.only]
      _ = ((tTcpInput h (fun _ => none) 0 r).2.2.pcb 0).tmr := by rw [hin, hrecv, TcpPcb.touch]
      _ = 0 := by rw [hsame, hh]; exact htmr
  exact absurd htick (by decide)

/-! ## the lengths -/

/-- The lengths are right: a packet whose headers do not fit is dropped, and of
any other the length of the data is exact. -/
def LengthsRight (r : Pbuf) : Prop := HeadersMisfit r ∧ LeavesPcbs r ∨ PayloadExact r

/-- **When the lengths are right**: of a packet as `t_ip_input` hands it on,
exactly when the IP header is not longer than the packet, and the TCP header not
longer than what is left, unless that is less than twenty bytes. -/
theorem tcp_lengths_iff {r : Pbuf} (hpay : r.payload = 14) : LengthsRight r ↔
    ipHdrBytes r ≤ r.totLen.toNat ∧ (r.totLen.toNat < ipHdrBytes r + tTcpHlen ∨
      ipHdrBytes r + tcpHdrBytes r ≤ r.totLen.toNat) := by
  have hlen := tTcpInputHeader_length hpay
  have hlt := r.totLen.toNat_lt
  have hle : ipHdrBytes r ≤ 60 := by
    have := tIphHl_lt r.mem r.payload
    unfold ipHdrBytes
    omega
  have hle' : tcpHdrBytes r ≤ 60 := by
    have := tTcphHdrlen_lt r.mem (r.payload + ipHdrBytes r)
    unfold tcpHdrBytes
    omega
  have hsub : (r.totLen - UInt16.ofNat (ipHdrBytes r)).toNat =
      (r.totLen.toNat + 65536 - ipHdrBytes r) % 65536 := by
    rw [UInt16.toNat_sub, UInt16.toNat_ofNat']
    omega
  have hsub' : (r.totLen - UInt16.ofNat (ipHdrBytes r) - UInt16.ofNat (tcpHdrBytes r)).toNat =
      (r.totLen.toNat + 131072 - ipHdrBytes r - tcpHdrBytes r) % 65536 := by
    rw [UInt16.toNat_sub, hsub, UInt16.toNat_ofNat']
    omega
  unfold LengthsRight HeadersMisfit PayloadExact
  rw [tTcpHlen]
  rw [hsub] at hlen
  split at hlen
  · refine iff_of_true (.inl ⟨.inl ?_, leavesPcbs_of_none hlen⟩) ?_ <;> omega
  · obtain ⟨s, k, hhdr, htot⟩ := hlen
    constructor
    · rintro (⟨-, hleaves⟩ | ⟨s', k', hhdr', hexact⟩)
      · exact absurd hleaves (not_leavesPcbs_of_some hhdr)
      · obtain ⟨rfl, -⟩ : s = s' ∧ k = k' := by
          rw [hhdr] at hhdr'
          simpa using hhdr'
        rw [htot, hsub'] at hexact
        omega
    · intro hfits
      refine .inr ⟨s, k, hhdr, ?_⟩
      rw [htot, hsub']
      omega

/-- The packet of `n` bytes with a TCP header said to be `off` words long. -/
def lengthSample (n : UInt16) (off : UInt8) : Pbuf where
  id := 0
  payload := 14
  totLen := n
  len := n
  ref := 1
  mem i := if i = 14 then 0x45 else if i = 46 then off * 16 else 0
  wrEnd := 0
  rdEnd := 0

theorem tcp_lengths_plain : LengthsRight (lengthSample 50 5) :=
  (tcp_lengths_iff rfl).mpr (by decide +kernel)

/-- A packet without data whose TCP header claims sixty bytes gets 65496 bytes
of data. -/
theorem not_tcp_lengths : ¬ ∀ r : Pbuf, r.payload = 14 → LengthsRight r := by
  intro hall
  obtain ⟨r, hr⟩ : ∃ r, r = lengthSample 40 15 := ⟨_, rfl⟩
  have hpay : r.payload = 14 := by rw [hr]; rfl
  have hsome : (tTcpInputHeader r).2.isSome := by rw [hr]; decide +kernel
  obtain ⟨⟨s, k⟩, hhdr⟩ := Option.isSome_iff_exists.mp hsome
  rcases hall r hpay with ⟨-, hleaves⟩ | ⟨s', k', hhdr', hexact⟩
  · exact not_leavesPcbs_of_some hhdr hleaves
  · have hlarge : (((tTcpInputHeader r).2.map fun x => x.1.p.totLen)) = some 65496 := by
      rw [hr]; decide +kernel
    rw [hhdr'] at hlarge
    have htot : s'.p.totLen = 65496 := Option.some.inj hlarge
    rw [htot, hr] at hexact
    revert hexact
    decide +kernel

end TTcp
