import TTcp.Arp
import TTcp.Lib.Run

/-!
# TTcp.Arp.Exchange

Any number of hosts that send each other ARP requests and replies, over a
network that delivers frames to anyone, in any order, any number of times or
not at all.

Only replies reach a table, and a reply in flight names the host that sent it
(`SentFrame`): whatever the request was, the reply built over it has the
sender's own two addresses.  So a table never holds anything but pairs of
real hosts (`arp_exchange_safe`).
-/

namespace TTcp

section
variable {ι : Type*} (netif : ι → Netif)

/-- The addresses of the hosts: all different, and none that a table would
not take. -/
structure ArpHosts : Prop where
  ip_injective : Function.Injective fun i => (netif i).ipAddr
  mac_injective : Function.Injective fun i => (netif i).hwaddr
  ip_ne_any : ∀ i, (netif i).ipAddr ≠ 0
  ip_ne_broadcast : ∀ i, (netif i).ipAddr ≠ 0xffffffff

/-- What a table should say of a host. -/
def hostEntry (i : ι) : ArpEntry := ⟨(netif i).ipAddr, (netif i).hwaddr⟩

end

/-! ## the network -/

/-- The tables of the hosts, and every frame sent so far with its sender. -/
structure ArpNet (ι : Type*) where
  table : ι → ArpTable
  sent : List (ι × List UInt8)

/-- A host asks for an address, with the pbufs it has free, or is given a
packet. -/
inductive ArpOp (ι : Type*) where
  | request (i : ι) (ip : UInt32) (pool : List Pbuf)
  | deliver (i : ι) (p : Pbuf)

namespace ArpNet

variable {ι : Type*}

/-- Nothing is known and nothing is under way. -/
def initial : ArpNet ι := ⟨fun _ => [], []⟩

/-- A packet in a host's buffer is a copy of a frame that was sent. -/
def Legal (s : ArpNet ι) : ArpOp ι → Prop
  | .request _ _ _ => True
  | .deliver _ p => ∃ j, (j, p.bytes) ∈ s.sent

variable [DecidableEq ι] (netif : ι → Netif)

/-- A call to `t_arp_request` or `t_arp_input` on one of the hosts. -/
def step (s : ArpNet ι) : ArpOp ι → ArpNet ι
  | .request i ip pool =>
      let (_, _, evs) := tArpRequest pool (netif i) ip
      { s with sent := s.sent ++ (frames evs).map fun f => (i, f.2) }
  | .deliver i p =>
      let (_, _, table, evs) := tArpInput (s.table i) (netif i) p
      { table := Function.update s.table i table
        sent := s.sent ++ (frames evs).map fun f => (i, f.2) }

end ArpNet

/-! ## frames under way -/

section
variable {ι : Type*} {netif : ι → Netif}

variable (netif) in
/-- A frame sent by a host is one ARP packet long, and if it is a reply, it
says so of the host. -/
structure SentFrame (i : ι) (frame : List UInt8) : Prop where
  length : frame.length = 42
  reply : htons ((frameMem frame).get16 20) = tArpReplyOp →
    (frameMem frame).get32 28 = (netif i).ipAddr ∧ macAt (frameMem frame) 22 = (netif i).hwaddr

/-- A packet that is a copy of a frame under way. -/
theorem SentFrame.packet {i : ι} {p : Pbuf} (h : SentFrame netif i p.bytes) :
    p.totLen.toNat = 42 ∧ (htons (p.mem.get16 (p.payload + 20)) = tArpReplyOp →
      p.mem.get32 (p.payload + 28) = (netif i).ipAddr ∧
        macAt p.mem (p.payload + 22) = (netif i).hwaddr) := by
  have hlen : p.totLen.toNat = 42 := by rw [← p.length_bytes, h.length]
  have hreply := h.reply
  rw [frameMem_get16 _ (by omega), frameMem_get32 _ (by omega), frameMem_macAt _ (by omega)]
    at hreply
  exact ⟨hlen, hreply⟩

theorem sentFrame_of_packet {i : ι} {p : Pbuf} (hlen : p.totLen.toNat = 42)
    (h : htons (p.mem.get16 (p.payload + 20)) = tArpReplyOp →
      p.mem.get32 (p.payload + 28) = (netif i).ipAddr ∧
        macAt p.mem (p.payload + 22) = (netif i).hwaddr) : SentFrame netif i p.bytes := by
  refine ⟨by rw [p.length_bytes, hlen], ?_⟩
  rw [frameMem_get16 _ (by omega), frameMem_get32 _ (by omega), frameMem_macAt _ (by omega)]
  exact h

/-- What `t_arp_request` sends is no reply. -/
theorem tArpRequest_sent (i : ι) (pool : List Pbuf) (ip : UInt32) :
    ∀ f ∈ frames (tArpRequest pool (netif i) ip).2.2, SentFrame netif i f.2 := by
  intro f hf
  unfold tArpRequest at hf
  cases halloc : tPbufAlloc pool 0 (UInt16.ofNat sizeofEtharpHdr) tPbufFlagPool with
  | mk p pool' =>
      rw [halloc] at hf
      cases p with
      | none => simp at hf
      | some p =>
          obtain ⟨-, -, q, -, hp⟩ := tPbufAlloc_eq_some halloc
          have hsame := arpRequestWrite_same p p.payload (netif i) ip
          obtain rfl := List.mem_singleton.mp hf
          refine sentFrame_of_packet ?_ fun hop => ?_
          · rw [hsame.totLen, hp]
            rfl
          · rw [hsame.payload, arpRequestWrite_opcode, htons_htons] at hop
            exact absurd hop (by decide)

/-! ## tables -/

variable (netif) in
/-- The entries are hosts, no host is there twice, and they fit the array. -/
structure TableOk (table : ArpTable) : Prop where
  host : ∀ e ∈ table, ∃ k, e = hostEntry netif k
  nodup : table.Nodup
  bounded : table.length ≤ tArpTableSize

/-- In a table of hosts, only the entry of a host has its hardware address, so
overwriting its address changes nothing. -/
theorem arpOverwrite_host (hh : ArpHosts netif) {table : ArpTable}
    (ht : ∀ e ∈ table, ∃ k, e = hostEntry netif k) (k : ι) :
    arpOverwrite (netif k).ipAddr (netif k).hwaddr table =
      if hostEntry netif k ∈ table then some table else none := by
  induction table with
  | nil => rfl
  | cons e table ih =>
      obtain ⟨j, rfl⟩ := ht e List.mem_cons_self
      rw [arpOverwrite, ih fun e he => ht e (List.mem_cons_of_mem _ he)]
      by_cases hjk : (netif k).hwaddr = (hostEntry netif j).mac
      · obtain rfl := hh.mac_injective hjk
        rw [if_pos hjk, if_pos List.mem_cons_self]
        rfl
      · have hne : hostEntry netif k ≠ hostEntry netif j := fun h => hjk (congrArg ArpEntry.mac h)
        rw [if_neg hjk]
        simp only [List.mem_cons, hne, false_or]
        split <;> rfl

/-- The table after it learned of a host. -/
theorem tUpdateArpEntry_host (hh : ArpHosts netif) {table : ArpTable} (ht : TableOk netif table)
    (k : ι) : TableOk netif (tUpdateArpEntry table (netif k).ipAddr (netif k).hwaddr) ∧
      (table.length < tArpTableSize →
        hostEntry netif k ∈ tUpdateArpEntry table (netif k).ipAddr (netif k).hwaddr) := by
  rw [tUpdateArpEntry, if_pos ⟨hh.ip_ne_any k, hh.ip_ne_broadcast k⟩,
    arpOverwrite_host hh ht.host]
  by_cases hmem : hostEntry netif k ∈ table
  · rw [if_pos hmem]
    exact ⟨ht, fun _ => hmem⟩
  · rw [if_neg hmem]
    by_cases hlen : table.length < tArpTableSize
    · simp only [if_pos hlen]
      refine ⟨⟨fun e he => ?_, ?_, ?_⟩, fun _ => by simp [hostEntry]⟩
      · rcases List.mem_append.mp he with he | he
        · exact ht.host e he
        · exact ⟨k, List.mem_singleton.mp he⟩
      · exact List.nodup_append.mpr ⟨ht.nodup, List.nodup_singleton _, fun a ha b hb hab => by
          rw [List.mem_singleton.mp hb] at hab
          rw [hab] at ha
          exact hmem ha⟩
      · rw [List.length_append]
        exact hlen
    · simp only [if_neg hlen]
      exact ⟨ht, fun h => absurd h hlen⟩

/-! ## one packet -/

/-- `t_arp_input` on a copy of a frame under way: what it sends is a reply
that says the truth of its host, and its table learns at most of the sender
of the frame. -/
theorem tArpInput_host (hh : ArpHosts netif) {table : ArpTable} (ht : TableOk netif table) (i : ι)
    {j : ι} {p : Pbuf} (hp : SentFrame netif j p.bytes) :
    let r := tArpInput table (netif i) p
    (∀ f ∈ frames r.2.2.2, SentFrame netif i f.2) ∧ TableOk netif r.2.2.1 ∧
      (htons (p.mem.get16 (p.payload + 20)) = tArpReplyOp →
        p.mem.get32 (p.payload + 38) = (netif i).ipAddr → table.length < tArpTableSize →
        hostEntry netif j ∈ r.2.2.1) := by
  obtain ⟨hlen, hreply⟩ := hp.packet
  have hle : sizeofEtharpHdr ≤ p.totLen.toNat := by rw [hlen]; exact le_refl 42
  by_cases hus : p.mem.get32 (p.payload + 38) = (netif i).ipAddr
  · by_cases hreq : htons (p.mem.get16 (p.payload + 20)) = tArpRequestOp
    · obtain ⟨q, hq, -, heq⟩ := tArpInput_of_request table hle hus hreq
      have hsame := hq.trans (arpReplyWrite_same q p.payload (netif i))
      obtain ⟨-, hip, hmac, -⟩ := arpReplyWrite_sender q p.payload (netif i)
      rw [heq]
      refine ⟨fun f hf => ?_, ht, fun hop => ?_⟩
      · obtain rfl := List.mem_singleton.mp hf
        refine sentFrame_of_packet ?_ fun _ => ?_
        · rw [hsame.totLen, hlen]
        · rw [hsame.payload]
          exact ⟨hip, hmac⟩
      · rw [hreq] at hop
        exact absurd hop (by decide)
    · by_cases hop : htons (p.mem.get16 (p.payload + 20)) = tArpReplyOp
      · obtain ⟨hip, hmac⟩ := hreply hop
        obtain ⟨hok, hlearn⟩ := tUpdateArpEntry_host hh ht j
        simp only [tArpInput_of_reply table hle hus hop, hip, hmac]
        exact ⟨by simp, hok, fun _ _ => hlearn⟩
      · simp only [tArpInput_of_other table hle hus hreq hop]
        exact ⟨by simp, ht, fun h => absurd h hop⟩
  · rw [tArpInput_of_ne table hle hus]
    exact ⟨by simp, ht, fun _ h => absurd h hus⟩

/-! ## runs -/

variable (netif) in
/-- What holds of the network at any time. -/
structure ArpInv (s : ArpNet ι) : Prop where
  sent : ∀ e ∈ s.sent, SentFrame netif e.1 e.2
  table : ∀ i, TableOk netif (s.table i)

theorem ArpInv.step [DecidableEq ι] (hh : ArpHosts netif) {s : ArpNet ι} (h : ArpInv netif s)
    {op : ArpOp ι} (hop : s.Legal op) : ArpInv netif (s.step netif op) := by
  cases op with
  | request i ip pool =>
      refine ⟨fun e he => ?_, h.table⟩
      rcases List.mem_append.mp he with he | he
      · exact h.sent e he
      · obtain ⟨f, hf, rfl⟩ := List.mem_map.mp he
        exact tArpRequest_sent i pool ip f hf
  | deliver i p =>
      obtain ⟨j, hj⟩ := hop
      obtain ⟨hsent, htable, -⟩ := tArpInput_host hh (h.table i) i (h.sent _ hj)
      refine ⟨fun e he => ?_, fun k => ?_⟩
      · rcases List.mem_append.mp he with he | he
        · exact h.sent e he
        · obtain ⟨f, hf, rfl⟩ := List.mem_map.mp he
          exact hsent f hf
      · by_cases hk : k = i
        · subst hk
          simp only [ArpNet.step, Function.update_self]
          exact htable
        · simp only [ArpNet.step, Function.update_of_ne hk]
          exact h.table k

variable (netif) in
/-- What is right of a host in the network: its table has only hosts in it,
none twice, and no more than fit, and a reply for it teaches it of the sender
while there is room. -/
structure ArpSafe (s : ArpNet ι) (i : ι) : Prop where
  host : ∀ e ∈ s.table i, ∃ k, e = hostEntry netif k
  nodup : (s.table i).Nodup
  bounded : (s.table i).length ≤ tArpTableSize
  learns : ∀ j p, (j, p.bytes) ∈ s.sent → htons (p.mem.get16 (p.payload + 20)) = tArpReplyOp →
    p.mem.get32 (p.payload + 38) = (netif i).ipAddr → (s.table i).length < tArpTableSize →
      hostEntry netif j ∈ (tArpInput (s.table i) (netif i) p).2.2.1

/-- **ARP is safe**: whatever is asked, lost, repeated or delivered to the
wrong host, no table ever holds anything but hosts. -/
theorem arp_exchange_safe [DecidableEq ι] (hh : ArpHosts netif) {ops : List (ArpOp ι)}
    (hl : Run.Along (ArpNet.step netif) ArpNet.Legal .initial ops) (i : ι) :
    ArpSafe netif (Run.final (ArpNet.step netif) .initial ops) i := by
  have hinit : ArpInv netif (.initial : ArpNet ι) :=
    ⟨fun e he => absurd he List.not_mem_nil, fun _ => ⟨by simp [ArpNet.initial], List.nodup_nil,
      Nat.zero_le _⟩⟩
  have h := Run.final_of_along (fun _ _ hs hop => hs.step hh hop) hinit hl
  refine ⟨(h.table i).host, (h.table i).nodup, (h.table i).bounded, fun j p hj hop hip hlen => ?_⟩
  exact (tArpInput_host hh (h.table i) i (h.sent _ hj)).2.2 hop hip hlen

end

/-! ## two hosts -/

/-- The first host asks for the second. -/
def arpAsk : ArpOp Bool := .request false 0x0201a8c0 [arpPacket []]

/-- It asks, the second host is given the request, and the first the reply. -/
def arpAskAnswer : List (ArpOp Bool) :=
  let frameOf (s : ArpNet Bool) := (s.sent.getLast?.map Prod.snd).getD []
  let s := Run.final (ArpNet.step arpPair) .initial [arpAsk]
  let request := ArpOp.deliver true (arpPacket (frameOf s))
  let s := s.step arpPair request
  [arpAsk, request, .deliver false (arpPacket (frameOf s))]

theorem arpPair_hosts : ArpHosts arpPair :=
  ⟨by decide, by decide, by decide, by decide⟩

theorem arpAskAnswer_legal :
    Run.Along (ArpNet.step arpPair) ArpNet.Legal .initial arpAskAnswer :=
  ⟨trivial, ⟨false, by decide +kernel⟩, ⟨true, by decide +kernel⟩, trivial⟩

theorem arp_exchange_safe_sample :
    ArpSafe arpPair (Run.final (ArpNet.step arpPair) .initial arpAskAnswer) false ∧
      (Run.final (ArpNet.step arpPair) .initial arpAskAnswer).table false =
        [hostEntry arpPair true] :=
  ⟨arp_exchange_safe arpPair_hosts arpAskAnswer_legal false, by decide +kernel⟩

end TTcp
