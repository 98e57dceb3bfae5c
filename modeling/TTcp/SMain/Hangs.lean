import TTcp.SMain.Runs

/-!
# TTcp.SMain.Hangs

What stops the receive task?

The lists that `t_udp_input` and `t_tcp_input` walk over end in every state of the program: a UDP
test takes its control block off again, and no control block of TCP is connected twice.  What is
left is the walk over the options of a segment, and only a SYN|ACK that a connection accepts gets as
far as that (`Host.StopsOn`).
-/

namespace TTcp

/-! ## one frame -/

section
variable {h : TcpHost} (hends : ∀ k, demux h k ≠ none)
include hends

end

/-- The control blocks that `main` has connected are on a list, and it is not about to connect one
of them. -/
structure ConnectsOnce (main : MainAt) (h : TcpHost) : Prop where
  linked : h.Linked
  active : ∃ registered, ActiveList h registered ∧
    ∀ i, main = .tcpConnect (some i) → i ∉ registered

namespace ConnectsOnce

variable {main main' : MainAt} {h h' : TcpHost}

/-- Where `main` goes does not matter, unless it goes to connect. -/
theorem leave (hc : ConnectsOnce main h) (hmain : ∀ i, main' ≠ .tcpConnect (some i)) :
    ConnectsOnce main' h := by
  obtain ⟨registered, hactive, -⟩ := hc.active
  exact ⟨hc.linked, registered, hactive, fun i hi => absurd hi (hmain i)⟩

/-- A call of TCP.  `main` connects what it is about to connect, and then only what was free. -/
theorem exec (hc : ConnectsOnce main h) {op : TcpOp} (hop : h.Legal op)
    (hconn : ∀ i ∈ op.connects?, main = .tcpConnect (some i))
    (hmain : ∀ i, main' = .tcpConnect (some i) →
      i ∈ h.tcpPcbPool ∨ main = main' ∧ op.connects? = none) : ConnectsOnce main' (h.step op) := by
  obtain ⟨registered, hactive, hnot⟩ := hc.active
  have hnext : ActiveList (regStep (h, registered) op).1 (regStep (h, registered) op).2 :=
    (activeList_regStep_iff hc.linked hop hactive).mpr fun i hi => hnot i (hconn i hi)
  refine ⟨hc.linked.exec hop, _, hnext, fun i hi hmem => ?_⟩
  obtain hmem | hmem := List.mem_append.mp hmem
  · -- the one that is connected by this call is in use
    have hconnects : i ∈ op.connects? := Option.mem_toList.mp hmem
    obtain hfree | ⟨-, hnone⟩ := hmain i hi
    · cases op with
      | connect j ipaddr port connected indet =>
          obtain rfl : j = i := Option.some.inj hconnects
          exact hop hfree
      | _ => cases hconnects
    · rw [hnone] at hconnects
      cases hconnects
  · obtain hfree | ⟨rfl, -⟩ := hmain i hi
    · obtain ⟨l, hl, -, hreg⟩ := hactive.isList
      exact hc.linked.reaches (hl.reaches_iff.mpr ((hreg i).mpr hmem)) hfree
    · exact hnot i hi hmem

/-- The pools have nothing to do with the list. -/
theorem setPools (hc : ConnectsOnce main h) (pools : Pools) :
    ConnectsOnce main { h with pools } := by
  have hother : ConnectsOnce main (h.step (.other pools h.tcpTicks)) :=
    hc.exec trivial (fun i hi => by cases hi) fun i _ => .inr ⟨rfl, rfl⟩
  exact hother

end ConnectsOnce

namespace SMain

variable {n : Nat} {s : SMain}

theorem Fetches.unique {p p' : Pbuf} (h : s.Fetches p) (h' : s.Fetches p') : p = p' := by
  obtain ⟨msg, netif, hmsg, hbody⟩ := h
  obtain ⟨msg', netif', hmsg', hbody'⟩ := h'
  rw [hmsg] at hmsg'
  obtain rfl := Option.some.inj hmsg'
  exact (TcpipMsgBody.input.inj (hbody.symm.trans hbody')).1

end SMain

end TTcp
