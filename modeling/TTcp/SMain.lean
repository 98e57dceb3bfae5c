import TTcp.PbufPool
import TTcp.Tcp.Keepalive
import TTcp.Tcpip

/-!
# TTcp.SMain

The program of `user/s_main.c`.

`main` reads keys: key 1 sends a datagram and waits for what comes back, key 2 opens a TCP
connection and sends two keepalives, and a space ends the program.  Meanwhile the driver takes
frames in and `t_tcpip_task` hands them to the stack.  The three threads interleave call by call:
while `main` sleeps, or between any two calls of it, the others may make any number of steps.

`udp_recv_data` prints as many bytes as the header of the datagram says, less 8, in 16 bits.  A
length below 8 so makes it read 65528 bytes or more, behind the end of `pbuf_pool_memory`.  What
is there C does not say: the read may do nothing, or end the program.
-/

namespace TTcp

/-! ## what the program is built with -/

/-- The interface of `ether_init`.  `t_netif_set_mac` copies its address byte by byte. -/
def netif0 : Netif where
  ipAddr := 0x7001a8c0
  netmask := 0x00ffffff
  gw := 0x0101a8c0
  hwaddr := Vector.ofFn fun i => frameMem [0xb0, 0x6e, 0xbf, 0x37, 0x50, 0xb0] i

/-- The host that the tests talk to. -/
def testHost : UInt32 := 0x6501a8c0

def testPort : UInt16 := 8837

/-- "1234567890". -/
def testData : List UInt8 := [0x31, 0x32, 0x33, 0x34, 0x35, 0x36, 0x37, 0x38, 0x39, 0x30]

/-- `udp_recv_data`. -/
def udpRecvData : UdpRecvFn := .app 0

/-- What `udp_recv_data` hands to `print_hex`: where in the buffer the data is, and its length.  What
`t_pbuf_header` changes, `t_pbuf_alloc` sets again: the packet is freed next. -/
def udpRecvDataPrints (p : Pbuf) : Nat × UInt16 :=
  let udphdr := p.payload
  let (_, p) := tPbufHeader p tUdpHlen
  let buf := p.payload
  let len := htons (p.mem.get16 (udphdr + 4)) - UInt16.ofNat tUdpHlen
  (buf, len)

/-- `print_hex` reads a byte that is not in `pbuf_pool_memory`. -/
def printHexStrays (p : Pbuf) (data : Nat) (size : UInt16) : Bool :=
  size ≠ 0 && tPbufPoolSize * PbufPool.slot < p.id * PbufPool.slot + sizeofTPbuf + data + size.toNat

/-- The callback reads behind the pool. -/
def Event.Strays : Event → Bool
  | .udpRecv _ recv _ p _ _ =>
      recv = udpRecvData && printHexStrays p (udpRecvDataPrints p).1 (udpRecvDataPrints p).2
  | _ => false

/-- `tcp_connected`. -/
def tcpConnected : Nat := 0

/-! ## the threads -/

/-- What `main` does next: it waits for a key, or it makes the next call of a test, on the control
block and the pbuf that it was given. -/
inductive MainAt where
  | getchar
  | udpBind (udp : UdpPcbId)
  | udpConnect (udp : UdpPcbId)
  | setUdpRecv (udp : UdpPcbId)
  | pbufAlloc (udp : UdpPcbId)
  | udpSend (udp : UdpPcbId) (p : Pbuf)
  | udpRemove (udp : UdpPcbId)
  | tcpConnect (tcp : Option TcpPcbId)
  | keepalive (tcp : TcpPcbId) (again : Bool)
  | exited
  | hung
  | crashed

namespace MainAt

/-- `main` waits for a key. -/
def atKey : MainAt → Bool
  | getchar => true
  | _ => false

/-- The process has ended. -/
def ended : MainAt → Bool
  | exited | crashed => true
  | _ => false

end MainAt

/-- A null pointer is used. -/
def Event.UsesNull : Event → Bool
  | .nullNetif | .nullUnacked => true
  | _ => false

/-- Using a null pointer ends the program. -/
def MainAt.unlessNull (next : MainAt) (evs : List Event) : MainAt :=
  if evs.any Event.UsesNull then .crashed else next

/-- The receive pipeline, the `times` of `main` and where it is, and how the last iteration of
`t_tcpip_task` ended.  When that crashes the process has ended, as it has when `main` does. -/
structure SMain where
  tcpip : Tcpip
  times : UInt32
  main : MainAt
  task : Fate

namespace SMain

def host (s : SMain) : Host := s.tcpip.host

def setHost (s : SMain) (host : Host) : SMain := { s with tcpip.host := host }

/-- `getchar` returns `c`, up to the first call that takes a control block. -/
def key (s : SMain) (c : UInt8) : SMain :=
  if c = 32 then { s with main := .exited }
  else if c = 0x31 then
    let s := { s with times := s.times + 1 }
    let (udp, u) := tUdpNew s.host.udp
    let s := s.setHost { s.host with udp := u }
    match udp with
    | some udp => { s with main := .udpBind udp }
    | none => s
  else if c = 0x32 then
    let (tcp, h) := tTcpNew s.host.tcp
    { s.setHost { s.host with tcp := h } with main := .tcpConnect tcp }
  else s

/-- The next call of `main`.  It does not look at what the calls return, and `memcpy` and
`t_tcp_connect` are given null pointers as they are others. -/
def call (s : SMain) (indet : Nat → Option Netif) : SMain × List Event :=
  let h := s.host
  match s.main with
  | .udpBind udp =>
      match tUdpBind h.udp udp (some netif0.ipAddr) (3307 + s.times).toUInt16 with
      | some (_, u) => ({ s.setHost { h with udp := u } with main := .udpConnect udp }, [])
      | none => ({ s with main := .hung }, [])
  | .udpConnect udp =>
      match tUdpConnect h.udp udp (some testHost) testPort with
      | some (_, u) => ({ s.setHost { h with udp := u } with main := .setUdpRecv udp }, [])
      | none => ({ s with main := .hung }, [])
  | .setUdpRecv udp =>
      let u := tSetUdpRecv h.udp udp (some udpRecvData) 0
      ({ s.setHost { h with udp := u } with main := .pbufAlloc udp }, [])
  | .pbufAlloc udp =>
      match tPbufAlloc h.pbufPool 42 10 tPbufFlagPool with
      | (none, pool) => ({ s.setHost (h.setPbufPool pool) with main := .crashed }, [])
      | (some p, pool) =>
          let p := p.memcpy p.payload (frameMem testData) 10
          ({ s.setHost (h.setPbufPool pool) with main := .udpSend udp p }, [])
  | .udpSend udp p =>
      let (_, pool, evs) := tUdpSend h.tcp.net h.pbufPool (h.udp.pcb udp) p
      ({ s.setHost (h.setPbufPool pool) with main := (MainAt.udpRemove udp).unlessNull evs }, evs)
  | .udpRemove udp =>
      match tUdpRemove h.udp udp with
      | some u => ({ s.setHost { h with udp := u } with main := .getchar }, [])
      | none => ({ s with main := .hung }, [])
  | .tcpConnect none => ({ s with main := .crashed }, [])
  | .tcpConnect (some tcp) =>
      let (out, t) := tTcpConnect h.tcp indet tcp testHost testPort (some tcpConnected)
      ({ s.setHost { h with tcp := t } with
        main := (MainAt.keepalive tcp true).unlessNull out.evs }, out.evs)
  | .keepalive tcp again =>
      let (pools, evs) := tcpKeepalive h.tcp.net h.tcp.pools (h.tcp.pcb tcp)
      let next := if again then MainAt.keepalive tcp false else .getchar
      ({ s.setHost { h with tcp := { h.tcp with pools } } with main := next.unlessNull evs }, evs)
  | .getchar | .exited | .hung | .crashed => (s, [])

/-- What an iteration of `t_tcpip_task` does to the world. -/
def taskEvents (s : Tcpip) (fetched : Bool) (indet : Nat → Option Netif) : List Event :=
  match s.mbox with
  | ⟨_, .input p netif⟩ :: _ =>
      if fetched then (tRawInput s.host indet 0 netif p).2.2.2 else []
  | _ => []

end SMain

/-- A key, or a step of one of the threads.  `mapped` is whether what is behind the pool can be
read. -/
inductive SMainOp where
  | key (c : UInt8)
  | call (indet : Nat → Option Netif)
  | recv (frame : List UInt8) (posted : Bool)
  | task (fetched : Bool) (indet : Nat → Option Netif) (mapped : Bool)

namespace SMain

def exec (s : SMain) : SMainOp → SMain × List Event
  | .key c => (s.key c, [])
  | .call indet => s.call indet
  | .recv frame posted => ({ s with tcpip := ether0Recv s.tcpip frame netif0 posted }, [])
  | .task fetched indet mapped =>
      let evs := taskEvents s.tcpip fetched indet
      -- the callback is called before the packet and the message are freed
      if !mapped && evs.any Event.Strays then
        ({ s with tcpip.mbox := s.tcpip.mbox.tail, task := .crashes }, evs)
      else
        let (fate, tcpip) := tTcpipTask s.tcpip fetched indet 0
        ({ s with tcpip, task := fate, main := s.main.unlessNull evs }, evs)

def step (s : SMain) (op : SMainOp) : SMain := (s.exec op).1

/-- The process has ended. -/
def ended (s : SMain) : Prop := s.main.ended ∨ s.task = .crashes

instance (s : SMain) : Decidable s.ended := inferInstanceAs (Decidable (_ ∨ _))

/-- The thread of the step gets to make it: a key is read when `main` waits for one, and an
iteration of the task that has not come to its end is not followed by another. -/
def Enabled (s : SMain) : SMainOp → Prop
  | .key _ => ¬ s.ended ∧ s.main.atKey
  | .call _ => ¬ s.ended ∧ ¬ s.main.atKey
  | .recv _ _ => ¬ s.ended
  | .task _ _ _ => ¬ s.ended ∧ s.task ≠ .hangs

instance (s : SMain) : (op : SMainOp) → Decidable (s.Enabled op)
  | .key _ => inferInstanceAs (Decidable (_ ∧ _))
  | .call _ => inferInstanceAs (Decidable (_ ∧ _))
  | .recv _ _ => inferInstanceAs (Decidable (¬ _))
  | .task _ _ _ => inferInstanceAs (Decidable (_ ∧ _))

/-- After the calls to the `init` functions. -/
def start (mem : PbufId → ByteMem) : SMain where
  tcpip := .initial mem ⟨[netif0], some netif0⟩ .initial
  times := 0
  main := .getchar
  task := .returns 0

end SMain

end TTcp
