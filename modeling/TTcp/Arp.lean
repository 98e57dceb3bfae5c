import TTcp.Ip

/-!
# TTcp.Arp

ARP (`core/t_arp.c`): requests, the replies built in place over them, and the
table of what the replies said.
-/

namespace TTcp

@[simp] def tArpRequestOp : UInt16 := 1
@[simp] def tArpReplyOp : UInt16 := 2
@[simp] def tArpFrameType : UInt16 := 0x0806
@[simp] def tIpv4FrameType : UInt16 := 0x0800

/-- `sizeof(struct t_etharp_hdr)`. -/
@[simp] def sizeofEtharpHdr : Nat := 42

/-- The hardware address at `o`. -/
def macAt (m : ByteMem) (o : Nat) : Vector UInt8 6 := Vector.ofFn fun i : Fin 6 => m (o + i)

theorem macAt_congr {m m' : ByteMem} {o o' : Nat} (h : ∀ i < 6, m (o + i) = m' (o' + i)) :
    macAt m o = macAt m' o' := by
  unfold macAt
  congr 1
  funext i
  exact h i i.isLt

theorem frameMem_macAt (p : Pbuf) {i : Nat} (h : i + 6 ≤ p.totLen.toNat) :
    macAt (frameMem p.bytes) i = macAt p.mem (p.payload + i) :=
  macAt_congr fun j _ => by rw [frameMem_apply _ (by omega), Nat.add_assoc]

/-! ## the table -/

/-- `struct t_arp_entry`, less its unused `status`. -/
structure ArpEntry where
  ip : UInt32
  mac : Vector UInt8 6
deriving DecidableEq

/-- The entries of `t_arp_table` below `table_count`. -/
abbrev ArpTable := List ArpEntry

/-- The loop of `t_update_arp_entry`: overwrite the address of the first entry
with this hardware address; `none` if there is none. -/
def arpOverwrite (ip : UInt32) (mac : Vector UInt8 6) : ArpTable → Option ArpTable
  | [] => none
  | e :: table =>
      if mac = e.mac then some ({ e with ip } :: table)
      else (arpOverwrite ip mac table).map (e :: ·)

/-- `t_update_arp_entry`. -/
def tUpdateArpEntry (table : ArpTable) (ip : UInt32) (mac : Vector UInt8 6) : ArpTable :=
  if ip ≠ 0 ∧ ip ≠ 0xffffffff then
    match arpOverwrite ip mac table with
    | some table => table
    | none => if table.length < tArpTableSize then table ++ [⟨ip, mac⟩] else table
  else table

/-! ## requests -/

/-- The request that `t_arp_request` builds at `h`. -/
def arpRequestWrite (p : Pbuf) (h : Nat) (netif : Netif) (ip : UInt32) : Pbuf :=
  let p := p.set16 (h + 14) (htons 1)
  let p := p.set16 (h + 16) (htons tIpv4FrameType)
  let p := p.set16 (h + 18) (htons 0x0604)
  let p := p.set16 (h + 20) (htons tArpRequestOp)
  let p := p.memcpy (h + 22) (macMem netif.hwaddr) 6
  let p := p.set32 (h + 28) netif.ipAddr
  let p := p.memcpy (h + 32) (fun _ => 0xff) 6
  let p := p.set32 (h + 38) ip
  let p := p.memcpy h (fun _ => 0xff) 6
  let p := p.memcpy (h + 6) (macMem netif.hwaddr) 6
  p.set16 (h + 12) (htons tArpFrameType)

/-- `t_arp_request`. -/
def tArpRequest (pool : List Pbuf) (netif : Netif) (ip : UInt32) : Int × List Pbuf × List Event :=
  match tPbufAlloc pool 0 (UInt16.ofNat sizeofEtharpHdr) tPbufFlagPool with
  | (none, pool) => (-1, pool, [])
  | (some p, pool) =>
      let p := arpRequestWrite p p.payload netif ip
      (0, (tPbufFree pool [p]).2, [.frame netif p.bytes])

/-! ## input -/

/-- Round `i` of the loop that exchanges the hardware addresses. -/
def arpSwapByte (netif : Netif) (h : Nat) (p : Pbuf) (i : Nat) : Pbuf :=
  let (b, p) := p.rd8 (h + 6 + i)
  let p := p.set8 (h + i) b
  let (b, p) := p.rd8 (h + 6 + i)
  let p := p.set8 (h + 32 + i) b
  let p := p.set8 (h + 6 + i) (macMem netif.hwaddr i)
  p.set8 (h + 22 + i) (macMem netif.hwaddr i)

/-- The opcode and the addresses of the reply. -/
def arpReplyAddrs (p : Pbuf) (h : Nat) (netif : Netif) : Pbuf :=
  let p := p.set16 (h + 20) (htons tArpReplyOp)
  let (senderIp, p) := p.rd32 (h + 28)
  let p := p.set32 (h + 38) senderIp
  p.set32 (h + 28) netif.ipAddr

/-- The reply that `t_arp_input` makes of the request at `h`. -/
def arpReplyWrite (p : Pbuf) (h : Nat) (netif : Netif) : Pbuf :=
  (List.range 6).foldl (arpSwapByte netif h) (arpReplyAddrs p h netif)

/-- `t_arp_input`, for the interface `netif`. -/
def tArpInput (table : ArpTable) (netif : Netif) (p : Pbuf) : Int × Pbuf × ArpTable × List Event :=
  if sizeofEtharpHdr ≤ p.totLen.toNat then
    let h := p.payload
    let (targetIp, p) := p.rd32 (h + 38)
    if !tIpAddrCmp targetIp netif.ipAddr then
      let (opcode, p) := p.rd16 (h + 20)
      if htons opcode = tArpRequestOp then
        let p := arpReplyWrite p h netif
        (0, p, table, [.frame netif p.bytes])
      else if htons opcode = tArpReplyOp then
        let (senderIp, p) := p.rd32 (h + 28)
        -- the hardware address is looked at only for an address worth keeping
        let p := if senderIp ≠ 0 ∧ senderIp ≠ 0xffffffff then p.see (h + 28) else p
        (0, p, tUpdateArpEntry table senderIp (macAt p.mem (h + 22)), [])
      else (0, p, table, [])
    else (0, p, table, [])
  else (0, p, table, [])

/-! ## what requests and replies say -/

theorem arpRequestWrite_opcode (p : Pbuf) (h : Nat) (netif : Netif) (ip : UInt32) :
    (arpRequestWrite p h netif ip).mem.get16 (h + 20) = htons tArpRequestOp := by
  simp only [arpRequestWrite, Pbuf.set16_mem, Pbuf.memcpy_mem, Pbuf.set32_mem]
  simp (disch := omega) only [ByteMem.get16_set16_of_disjoint, ByteMem.get16_copy_of_disjoint,
    ByteMem.get16_set32_of_disjoint, ByteMem.get16_set16_self]

/-- One round writes four bytes. -/
theorem arpSwapByte_apply (netif : Netif) (h : Nat) (p : Pbuf) {i : Nat} (_ : i < 6) (j : Nat) :
    (arpSwapByte netif h p i).mem j =
      if j = h + 22 + i ∨ j = h + 6 + i then macMem netif.hwaddr i
      else if j = h + 32 + i ∨ j = h + i then p.mem (h + 6 + i)
      else p.mem j := by
  simp only [arpSwapByte, Pbuf.rd8, Pbuf.set8, Pbuf.see, Function.update_apply]
  rw [if_neg (by omega : ¬ h + 6 + i = h + i)]
  grind

/-- After `n` rounds, the first `n` bytes of the four hardware addresses are
exchanged. -/
theorem arpSwapBytes_apply (netif : Netif) (h : Nat) (p : Pbuf) {n : Nat} (hn : n ≤ 6) (j : Nat) :
    ((List.range n).foldl (arpSwapByte netif h) p).mem j =
      if h + 22 ≤ j ∧ j < h + 22 + n then macMem netif.hwaddr (j - (h + 22))
      else if h + 6 ≤ j ∧ j < h + 6 + n then macMem netif.hwaddr (j - (h + 6))
      else if h + 32 ≤ j ∧ j < h + 32 + n then p.mem (j - 26)
      else if h ≤ j ∧ j < h + n then p.mem (j + 6)
      else p.mem j := by
  induction n generalizing j with
  | zero =>
      rw [if_neg (by omega), if_neg (by omega), if_neg (by omega), if_neg (by omega)]
      rfl
  | succ n ih =>
      rw [List.range_succ, List.foldl_append, List.foldl_cons, List.foldl_nil,
        arpSwapByte_apply _ _ _ (by omega)]
      have hsrc := ih (by omega) (h + 6 + n)
      rw [if_neg (by omega), if_neg (by omega), if_neg (by omega), if_neg (by omega)] at hsrc
      rw [hsrc, ih (by omega)]
      split_ifs <;> first | rfl | omega | (congr 1; omega)

/-- `q` is `p` with other bytes. -/
structure SamePbuf (p q : Pbuf) : Prop where
  id : q.id = p.id
  payload : q.payload = p.payload
  totLen : q.totLen = p.totLen
  len : q.len = p.len
  ref : q.ref = p.ref

theorem SamePbuf.trans {p q r : Pbuf} (h : SamePbuf p q) (h' : SamePbuf q r) : SamePbuf p r :=
  ⟨h'.id.trans h.id, h'.payload.trans h.payload, h'.totLen.trans h.totLen, h'.len.trans h.len,
    h'.ref.trans h.ref⟩

theorem arpSwapByte_same (netif : Netif) (h : Nat) (p : Pbuf) (i : Nat) :
    SamePbuf p (arpSwapByte netif h p i) := by
  constructor <;> simp only [arpSwapByte, Pbuf.rd8_snd, Pbuf.set8_id, Pbuf.set8_payload,
    Pbuf.set8_totLen, Pbuf.set8_len, Pbuf.set8_ref, Pbuf.see_id, Pbuf.see_payload,
    Pbuf.see_totLen, Pbuf.see_len, Pbuf.see_ref]

theorem arpSwapBytes_same (netif : Netif) (h : Nat) (p : Pbuf) (n : Nat) :
    SamePbuf p ((List.range n).foldl (arpSwapByte netif h) p) := by
  induction n with
  | zero => exact ⟨rfl, rfl, rfl, rfl, rfl⟩
  | succ n ih =>
      rw [List.range_succ, List.foldl_append, List.foldl_cons, List.foldl_nil]
      exact ih.trans (arpSwapByte_same ..)

theorem arpRequestWrite_same (p : Pbuf) (h : Nat) (netif : Netif) (ip : UInt32) :
    SamePbuf p (arpRequestWrite p h netif ip) := by
  constructor <;> simp only [arpRequestWrite, Pbuf.set16_id, Pbuf.set16_payload, Pbuf.set16_totLen,
    Pbuf.set16_len, Pbuf.set16_ref, Pbuf.set32_id, Pbuf.set32_payload, Pbuf.set32_totLen,
    Pbuf.set32_len, Pbuf.set32_ref, Pbuf.memcpy_id, Pbuf.memcpy_payload, Pbuf.memcpy_totLen,
    Pbuf.memcpy_len, Pbuf.memcpy_ref]

theorem arpReplyWrite_same (p : Pbuf) (h : Nat) (netif : Netif) :
    SamePbuf p (arpReplyWrite p h netif) := by
  have haddrs : SamePbuf p (arpReplyAddrs p h netif) := by constructor <;> simp [arpReplyAddrs]
  exact haddrs.trans (arpSwapBytes_same netif h _ 6)

/-- The reply comes from the host itself: its address, its hardware address,
and the request's sender as target. -/
theorem arpReplyWrite_sender (p : Pbuf) (h : Nat) (netif : Netif) :
    let m := (arpReplyWrite p h netif).mem
    m.get16 (h + 20) = htons tArpReplyOp ∧ m.get32 (h + 28) = netif.ipAddr ∧
      macAt m (h + 22) = netif.hwaddr ∧ m.get32 (h + 38) = p.mem.get32 (h + 28) ∧
      macAt m (h + 32) = macAt p.mem (h + 6) := by
  obtain ⟨q, hq⟩ : ∃ q, q = arpReplyAddrs p h netif := ⟨_, rfl⟩
  have hreply : arpReplyWrite p h netif = (List.range 6).foldl (arpSwapByte netif h) q := by
    rw [hq, arpReplyWrite]
  have hswap := fun j => arpSwapBytes_apply netif h q (le_refl 6) j
  -- outside the hardware addresses
  have hkeep : ∀ j, (h + 12 ≤ j ∧ j < h + 22) ∨ (h + 28 ≤ j ∧ j < h + 32) ∨ h + 38 ≤ j →
      (arpReplyWrite p h netif).mem j = q.mem j := fun j hj => by
    rw [hreply, hswap, if_neg (by omega), if_neg (by omega), if_neg (by omega), if_neg (by omega)]
  refine ⟨?_, ?_, ?_, ?_, ?_⟩
  · rw [ByteMem.get16_congr fun i hi => hkeep (h + 20 + i) (by omega), hq]
    simp (disch := omega) [arpReplyAddrs]
  · rw [ByteMem.get32_congr fun i hi => hkeep (h + 28 + i) (by omega), hq]
    simp (disch := omega) [arpReplyAddrs]
  · apply Vector.ext
    intro i hi
    rw [macAt, Vector.getElem_ofFn, hreply, hswap, if_pos (by simp; omega)]
    simp [macMem, hi]
  · rw [ByteMem.get32_congr fun i hi => hkeep (h + 38 + i) (by omega), hq]
    simp (disch := omega) [arpReplyAddrs]
  · refine macAt_congr fun i _ => ?_
    rw [hreply, hswap, if_neg (by omega), if_neg (by omega), if_pos (by omega)]
    have hidx : h + 32 + i - 26 = h + 6 + i := by omega
    rw [hidx, hq]
    simp only [arpReplyAddrs, Pbuf.rd32_fst, Pbuf.rd32_snd, Pbuf.set32_mem, Pbuf.see_mem, Pbuf.set16_mem]
    rw [ByteMem.set32_apply_of_disjoint _ _ (by omega),
      ByteMem.set32_apply_of_disjoint _ _ (by omega),
      ByteMem.set16_apply_of_disjoint _ _ (by omega)]

/-! ## what `t_arp_input` does -/

theorem tArpInput_of_short (table : ArpTable) (netif : Netif) {p : Pbuf}
    (h : p.totLen.toNat < sizeofEtharpHdr) : tArpInput table netif p = (0, p, table, []) := by
  rw [tArpInput, if_neg (not_le.mpr h)]

section
variable {netif : Netif} {p : Pbuf} (table : ArpTable) (h : sizeofEtharpHdr ≤ p.totLen.toNat)
include h

/-- A packet for another host changes nothing. -/
theorem tArpInput_of_ne (hip : p.mem.get32 (p.payload + 38) ≠ netif.ipAddr) :
    tArpInput table netif p = (0, p.see (p.payload + 42), table, []) := by
  unfold tArpInput
  rw [if_pos h]
  simp [tIpAddrCmp, hip]

variable (hip : p.mem.get32 (p.payload + 38) = netif.ipAddr)
include hip

/-- A request for this host is answered in place. -/
theorem tArpInput_of_request (hop : htons (p.mem.get16 (p.payload + 20)) = tArpRequestOp) :
    ∃ q, SamePbuf p q ∧ q.mem = p.mem ∧ tArpInput table netif p =
      (0, arpReplyWrite q p.payload netif, table,
        [.frame netif (arpReplyWrite q p.payload netif).bytes]) := by
  refine ⟨(p.see (p.payload + 38 + 4)).see (p.payload + 20 + 2), ⟨rfl, rfl, rfl, rfl, rfl⟩, rfl, ?_⟩
  unfold tArpInput
  rw [if_pos h]
  simp only [Pbuf.rd32_fst, Pbuf.rd32_snd, Pbuf.rd16_fst, Pbuf.rd16_snd, Pbuf.see_mem, tIpAddrCmp,
    beq_iff_eq.mpr hip, Bool.not_true, Bool.not_false, hop, ↓reduceIte]

/-- A reply to this host goes to the table. -/
theorem tArpInput_of_reply (hop : htons (p.mem.get16 (p.payload + 20)) = tArpReplyOp) :
    (tArpInput table netif p).2.2 =
      (tUpdateArpEntry table (p.mem.get32 (p.payload + 28)) (macAt p.mem (p.payload + 22)), []) := by
  have hmem : ∀ c : Prop, ∀ _ : Decidable c, ∀ q : Pbuf, ∀ o,
      (if c then q.see o else q).mem = q.mem := fun c _ q o => by split <;> rfl
  unfold tArpInput
  rw [if_pos h]
  simp only [Pbuf.rd32_fst, Pbuf.rd32_snd, Pbuf.rd16_fst, Pbuf.rd16_snd, Pbuf.see_mem, tIpAddrCmp,
    beq_iff_eq.mpr hip, Bool.not_true, Bool.not_false, hop, ↓reduceIte]
  exact congrArg (fun m => (tUpdateArpEntry table _ (macAt m _), [])) (hmem ..)

/-- Any other operation is ignored. -/
theorem tArpInput_of_other (hreq : htons (p.mem.get16 (p.payload + 20)) ≠ tArpRequestOp)
    (hop : htons (p.mem.get16 (p.payload + 20)) ≠ tArpReplyOp) :
    (tArpInput table netif p).2.2 = (table, []) := by
  unfold tArpInput
  rw [if_pos h]
  simp only [Pbuf.rd32_fst, Pbuf.rd32_snd, Pbuf.rd16_fst, Pbuf.see_mem, tIpAddrCmp,
    beq_iff_eq.mpr hip, Bool.not_true, Bool.not_false, hreq, hop, ↓reduceIte]

end

/-! ## two hosts -/

/-- The host 192.168.1.1, and the host 192.168.1.2. -/
def arpPair : Bool → Netif
  | false => ⟨0x0101a8c0, 0x00ffffff, 0x0101a8c0, #v[2, 0, 0, 0, 0, 1]⟩
  | true => ⟨0x0201a8c0, 0x00ffffff, 0x0101a8c0, #v[2, 0, 0, 0, 0, 2]⟩

/-- A frame in a buffer. -/
def arpPacket (frame : List UInt8) : Pbuf where
  id := 0
  payload := 0
  totLen := UInt16.ofNat frame.length
  len := UInt16.ofNat frame.length
  ref := 1
  mem := frameMem frame
  wrEnd := 0
  rdEnd := 0

/-- A frame from the hardware address `src` with an ARP packet for
192.168.1.1, in which the sender is `mac` and 192.168.1.`host`. -/
def arpFrame (src : Vector UInt8 6) (op : UInt8) (mac : Vector UInt8 6) (host : UInt8) :
    List UInt8 :=
  [2, 0, 0, 0, 0, 1] ++ src.toList ++ [8, 6, 0, 1, 8, 0, 6, 4, 0, op] ++ mac.toList ++
    [192, 168, 1, host] ++ [0, 0, 0, 0, 0, 0] ++ [192, 168, 1, 1]

end TTcp
