import TTcp.SMain
import TTcp.Tcp.Accept
import TTcp.Udp.Length

/-!
# TTcp.Routed

Null pointers, where every address has a route.

`t_ip_output` and `t_udp_send` go through the interface that `t_ip_route` returns without looking
at it.  With a default interface it is never null, and then the only null pointer that the handlers
may use is the head of an empty unacked queue.
-/

namespace TTcp

/-- There is a route to every address. -/
def Net.Total (net : Net) : Prop := ∀ dest, tIpRoute net dest ≠ none

/-- None of the events uses a null pointer. -/
def Sound (evs : List Event) : Prop := evs.any Event.UsesNull = false

theorem sound_nil : Sound [] := rfl

theorem Sound.append {evs evs' : List Event} (h : Sound evs) (h' : Sound evs') :
    Sound (evs ++ evs') := by
  rw [Sound, List.any_append, h, h', Bool.or_false]

theorem Sound.unlessNull {evs : List Event} (h : Sound evs) (next : MainAt) :
    next.unlessNull evs = next := by
  rw [MainAt.unlessNull, h, if_neg Bool.false_ne_true]

section
variable {net : Net} (hnet : net.Total)
include hnet

theorem tIpOutput_sound (indet : Option Netif) (arg : NetifArg) (p : Pbuf) (src : Option UInt32)
    (dst : AddrPtr) (ttl tos proto : UInt8) :
    Sound (tIpOutput net indet arg p src dst ttl tos proto).2.2 := by
  unfold tIpOutput
  cases hres : arg.resolve indet with
  | some netif =>
      cases src <;> simp only [Option.map_some] <;> split <;> rfl
  | none =>
      obtain ⟨netif, hroute⟩ := Option.ne_none_iff_exists'.mp (hnet (dst.read p))
      cases src <;> simp only [hroute, Option.map_some] <;> split <;> rfl

theorem tUdpSend_sound (pool : List Pbuf) (pcb : UdpPcb) (p : Pbuf) :
    Sound (tUdpSend net pool pcb p).2.2 := by
  unfold tUdpSend
  simp only
  split
  · exact sound_nil
  · split
    · next hnone => exact absurd hnone (hnet _)
    · exact tIpOutput_sound hnet ..

theorem tcpKeepalive_sound (pools : Pools) (pcb : TcpPcb) :
    Sound (tcpKeepalive net pools pcb).2 := by
  unfold tcpKeepalive
  split
  · exact sound_nil
  · exact tIpOutput_sound hnet ..

theorem tIcmpInput_sound (netif : Netif) (p : Pbuf) : Sound (tIcmpInput net netif p).2.2 := by
  unfold tIcmpInput
  simp only
  split
  · split
    · simp only [tIpOutput_sound hnet]
    · exact sound_nil
  · exact sound_nil

end

/-! ## TCP -/

section
variable {env : OutEnv} (hnet : env.net.Total) (pools : Pools)
include hnet

theorem tTcpOutputSegment_sound (indet : Option Netif) (seg : TcpSeg) (pcb : TcpPcb) :
    Sound (tTcpOutputSegment env indet seg pcb).2.2 := by
  have hsend : ∀ netif seg pcb, Sound (tTcpOutputSegmentSend env indet netif seg pcb).2.2 := by
    intro netif seg pcb
    obtain ⟨rttest, rtseq, h⟩ := tTcpOutputSegmentSend_eq env indet netif seg pcb
    rw [h]
    exact tIpOutput_sound hnet ..
  obtain ⟨-, h⟩ | ⟨n, -, h⟩ | ⟨-, h⟩ := tTcpOutputSegment_cases env indet seg pcb
  · rw [h]
    exact sound_nil
  · rw [h]
    exact hsend ..
  · rw [h]
    exact hsend ..

theorem tTcpOutputLoop_sound (wnd : UInt32) (pcb : TcpPcb) (unsent : List TcpSeg) :
    Sound (tTcpOutputLoop env wnd pools pcb unsent).2.2 := by
  have hround : ∀ indet pools pcb seg, Sound (tTcpOutputRound env indet pools pcb seg).2.2 := by
    intro indet pools pcb seg
    obtain ⟨sndMax, h⟩ := @tTcpOutputRound_eq env pools indet pcb seg _ rfl
    rw [h]
    split
    · exact tTcpOutputSegment_sound hnet ..
    · exact tTcpOutputSegment_sound hnet ..
  induction unsent generalizing pools pcb with
  | nil => exact sound_nil
  | cons seg rest ih =>
      rw [tTcpOutputLoop]
      split
      · exact (hround ..).append (ih ..)
      · exact sound_nil

theorem tTcpOutput_sound (pcb : TcpPcb) : Sound (tTcpOutput env pools pcb).2.2.2 := by
  obtain h | h := tTcpOutput_cases env pools pcb
  · rw [h]
    unfold tTcpOutputAck
    split
    · exact sound_nil
    · exact tIpOutput_sound hnet ..
  · rw [h]
    exact tTcpOutputLoop_sound hnet pools pcb.wnd pcb pcb.unsent

/-- A segment that finds the SYN that it is for does no harm. -/
theorem tTcpReceive_sound (cbRet : ErrT) {pcb : TcpPcb} {s : Incoming} (hs : ¬ pcb.NullUnacked s) :
    Sound (tTcpReceive env cbRet pools pcb s).2.2.2.2 := by
  have hproc : Sound (tTcpProcess env cbRet pools pcb s).2.2.2.2 := by
    by_cases hacc : pcb.Accepts s
    · obtain ⟨rseg, unacked, p, -, -, hhang, hdone⟩ :=
        tTcpProcess_of_accepts env cbRet pools hacc
      cases hopt : s.options with
      | none =>
          rw [hhang hopt]
          exact sound_nil
      | some mss =>
          rw [hdone mss hopt]
          cases pcb.connected with
          | none => rfl
          | some fn => rfl
    · rw [tTcpProcess_of_ignored env cbRet pools hs hacc]
      exact sound_nil
  obtain ⟨-, hevs⟩ | ⟨-, hevs⟩ := tTcpReceive_eq pcb env cbRet pools s
  · rw [hevs]
    exact hproc
  · rw [hevs]
    exact hproc.append (tTcpOutput_sound hnet ..)

end

theorem tTcpConnect_sound {h : TcpHost} (hnet : h.net.Total) (indet : Nat → Option Netif)
    (i : TcpPcbId) (ipaddr : UInt32) (port : UInt16) (connected : Option Nat) :
    Sound (tTcpConnect h indet i ipaddr port connected).1.evs := by
  have hkept : ∀ (h' : TcpHost) pools pcb, h'.net = h.net →
      Sound (tTcpOutput (h'.outEnv indet) pools pcb).2.2.2 := fun h' pools pcb heq =>
    tTcpOutput_sound (show h'.net.Total by rw [heq]; exact hnet) pools pcb
  unfold tTcpConnect
  simp only
  split <;> split
  · exact hkept _ _ _ rfl
  · exact sound_nil
  · exact hkept _ _ _ rfl
  · exact sound_nil

theorem tUdpInput_sound {u : Udp} {p : Pbuf} {r : Int × Pbuf × List Event}
    (hr : tUdpInput u p = some r) : Sound r.2.2 := by
  unfold tUdpInput at hr
  simp only at hr
  split at hr
  · obtain rfl := Option.some.inj hr
    rfl
  · split at hr
    · obtain rfl := Option.some.inj hr
      rfl
    · split at hr
      · contradiction
      · obtain rfl := Option.some.inj hr
        rfl
      · split at hr
        · obtain rfl := Option.some.inj hr
          rfl
        · obtain rfl := Option.some.inj hr
          rfl

theorem tTcpInput_sound {h : TcpHost} (hnet : h.net.Total) (indet : Nat → Option Netif)
    (cbRet : ErrT) (p : Pbuf) (hs : ∀ i prev s k, demux h k = some (some (i, prev)) →
      ¬ (h.pcb i).NullUnacked s) :
    Sound (tTcpInput h indet cbRet p).1.evs := by
  obtain ⟨-, hevs, -⟩ | ⟨i, prev, s, k, -, hd, -, hout, -⟩ := h.tTcpInput_cases indet cbRet p
  · rw [hevs]
    exact sound_nil
  · rw [hout]
    exact @tTcpReceive_sound (h.outEnv indet) hnet h.pools cbRet _ s (hs i prev s k hd)

/-- The handlers use no null pointer, if no SYN_SENT control block has an empty queue. -/
theorem tRawInput_sound {h : Host} (hnet : h.tcp.net.Total) (indet : Nat → Option Netif)
    (cbRet : ErrT) (netif : Netif) (p : Pbuf) (hs : ∀ i prev s k,
      demux h.tcp k = some (some (i, prev)) → ¬ (h.tcp.pcb i).NullUnacked s) :
    Sound (tRawInput h indet cbRet netif p).2.2.2 := by
  rw [tRawInput_evs]
  obtain ⟨d, q, hdemux⟩ : ∃ d q, rawDemux p = (d, q) := ⟨_, _, rfl⟩
  rw [hdemux]
  cases d with
  | arp =>
      simp only [handle, tArpInput]
      repeat' split <;> try rfl
  | icmp => exact tIcmpInput_sound hnet netif q
  | udp =>
      cases hudp : tUdpInput h.udp q with
      | none =>
          simp only [handle, hudp]
          exact sound_nil
      | some r =>
          simp only [handle, hudp]
          exact tUdpInput_sound hudp
  | tcp =>
      have hsound := tTcpInput_sound hnet indet cbRet q hs
      rw [handle_tcp_eq]
      generalize tTcpInput h.tcp indet cbRet q = r at hsound ⊢
      exact hsound
  | drop ret => exact sound_nil

end TTcp
