import TTcp.Raw

/-!
# TTcp.Calls

The calls into the stack of a host, from above and from below.

A frame that comes in is copied into a fresh pbuf and given to `t_raw_input`; what the stack
sends, by any of the calls, is a list of frames.
-/

namespace TTcp

/-- A call into the stack, other than `tcp_keepalive`, or a frame that comes in by the interface
`netif`. -/
inductive HostOp where
  | tcp (op : TcpOp)
  | udp (op : UdpOp)
  | udpSend (i : UdpPcbId) (p : Pbuf)
  | arpRequest (netif : Netif) (ip : UInt32)
  | receive (frame : List UInt8) (netif : Netif) (indet : Nat → Option Netif) (cbRet : ErrT)

namespace Host

/-- A frame comes in. -/
def receive (h : Host) (frame : List UInt8) (netif : Netif) (indet : Nat → Option Netif)
    (cbRet : ErrT) : Host × List Event :=
  match ether0RecvData h.pbufPool frame with
  | (none, pbufPool) => (h.setPbufPool pbufPool, [])
  | (some p, pbufPool) =>
      let (_, _, h, evs) := tRawInput (h.setPbufPool pbufPool) indet cbRet netif p
      (h, evs)

/-- One call: the state after it, and what it does to the world. -/
def exec (h : Host) : HostOp → Host × List Event
  | .tcp op =>
      let (out, tcp) := h.tcp.exec op
      ({ h with tcp }, out.evs)
  | .udp op => ({ h with udp := h.udp.step op }, [])
  | .udpSend i p =>
      let (_, pbufPool, evs) := tUdpSend h.tcp.net h.pbufPool (h.udp.pcb i) p
      (h.setPbufPool pbufPool, evs)
  | .arpRequest netif ip =>
      let (_, pbufPool, evs) := tArpRequest h.pbufPool netif ip
      (h.setPbufPool pbufPool, evs)
  | .receive frame netif indet cbRet => h.receive frame netif indet cbRet

end Host

/-- The frame that a call takes in. -/
def HostOp.frame? : HostOp → Option (List UInt8)
  | .receive frame _ _ _ => some frame
  | _ => none

end TTcp
