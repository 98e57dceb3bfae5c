import TTcp.Ip.Report

/-!
# TTcp.Ip.Ident

What the frame of a packet holds of what the buffer held before.

`t_ip_output` fills in every field of its header but the identification: `T_IPH_ID_SET` is never
used.  Two buffers with the same packet give the same frame exactly when the two bytes agree where
the field will be (`tIpOutput_frames_iff`).
-/

namespace TTcp

/-- The two bytes that `t_ip_output` takes for the identification of a packet. -/
def Pbuf.ident (p : Pbuf) : UInt16 := p.mem.get16 ((tPbufHeader p (-20)).2.payload + 4)

section
variable (p : Pbuf) (h : Nat) (src : UInt32) (dst : AddrPtr) (ttl tos proto : UInt8)

/-- Nothing writes the identification. -/
theorem ipHdrWrite_ident :
    (ipHdrWrite p h src dst ttl tos proto).mem.get16 (h + 4) = p.mem.get16 (h + 4) := by
  simp (disch := omega) [ipHdrWrite, tIphChksumSet, tIphLenSet, tIphVhltosSet, ipHdrDstSet,
    tIphProtoSet, tIphTtlSet]

theorem ipHdrWrite_flags :
    (ipHdrWrite p h src dst ttl tos proto).mem.get16 (h + 6) = htons 0x4000 := by
  simp (disch := omega) [ipHdrWrite, tIphChksumSet]

/-- The checksum is that of the other fields. -/
theorem ipHdrWrite_chksum : (ipHdrWrite p h src dst ttl tos proto).mem.get16 (h + 10) =
    tInetChksum (((ipHdrWrite p h src dst ttl tos proto).mem.set16 (h + 10) 0).slice h 20) := by
  obtain ⟨q, hq⟩ : ∃ q, ipHdrWrite p h src dst ttl tos proto = tIphChksumSet q h := ⟨_, rfl⟩
  rw [hq, tIphChksumSet]
  simp only [Pbuf.set16_mem, ByteMem.get16_set16_self]
  refine congrArg tInetChksum (ByteMem.slice_congr fun i _ => ?_)
  unfold ByteMem.set16
  split
  · rfl
  · split <;> rfl

end

namespace Pbuf.AgreeOn

variable {S : Nat → Prop} {p p' : Pbuf} (h : Pbuf.AgreeOn S p p')
include h

/-- With the same identification, the whole header is the same. -/
theorem ipHdrWrite_of_ident {o : Nat} (hid : p.mem.get16 (o + 4) = p'.mem.get16 (o + 4))
    (src dst : UInt32) (ttl tos proto : UInt8) :
    Pbuf.AgreeOn (fun i => S i ∨ (o ≤ i ∧ i < o + 20))
      (TTcp.ipHdrWrite p o src (.val dst) ttl tos proto)
      (TTcp.ipHdrWrite p' o src (.val dst) ttl tos proto) := by
  have hw := ipHdrWrite_writesOnly p o src (.val dst) ttl tos proto
  have hw' := ipHdrWrite_writesOnly p' o src (.val dst) ttl tos proto
  obtain ⟨r, hr⟩ : ∃ r, r = TTcp.ipHdrWrite p o src (.val dst) ttl tos proto := ⟨_, rfl⟩
  obtain ⟨r', hr'⟩ : ∃ r', r' = TTcp.ipHdrWrite p' o src (.val dst) ttl tos proto := ⟨_, rfl⟩
  -- the fields, one by one
  have hfields : ByteMem.AgreeOn (fun i => o ≤ i ∧ i < o + 20 ∧ (i < o + 10 ∨ o + 12 ≤ i))
      r.mem r'.mem := by
    have hvhl : r.mem.get16 o = r'.mem.get16 o := by
      rw [hr, hr', ipHdrWrite_vhltos, ipHdrWrite_vhltos]
    have hlen : r.mem.get16 (o + 2) = r'.mem.get16 (o + 2) := by
      rw [hr, hr', ipHdrWrite_len, ipHdrWrite_len, h.totLen]
    have hident : r.mem.get16 (o + 4) = r'.mem.get16 (o + 4) := by
      rw [hr, hr', ipHdrWrite_ident, ipHdrWrite_ident, hid]
    have hflags : r.mem.get16 (o + 6) = r'.mem.get16 (o + 6) := by
      rw [hr, hr', ipHdrWrite_flags, ipHdrWrite_flags]
    have hproto : r.mem.get16 (o + 8) = r'.mem.get16 (o + 8) := by
      rw [hr, hr', ipHdrWrite_ttlProto, ipHdrWrite_ttlProto]
    have hsrc : r.mem.get32 (o + 12) = r'.mem.get32 (o + 12) := by
      rw [hr, hr', ipHdrWrite_src, ipHdrWrite_src]
    have hdst : r.mem.get32 (o + 16) = r'.mem.get32 (o + 16) := by
      rw [hr, hr', ipHdrWrite_dst, ipHdrWrite_dst]
    rintro i ⟨hlo, hhi, hout⟩
    obtain hi | hi | hi | hi | hi | hi | hi : i < o + 2 ∨ (o + 2 ≤ i ∧ i < o + 4) ∨
      (o + 4 ≤ i ∧ i < o + 6) ∨ (o + 6 ≤ i ∧ i < o + 8) ∨ (o + 8 ≤ i ∧ i < o + 10) ∨
        (o + 12 ≤ i ∧ i < o + 16) ∨ o + 16 ≤ i := by omega
    · exact ByteMem.agreeOn_of_get16 hvhl i ⟨hlo, hi⟩
    · exact ByteMem.agreeOn_of_get16 hlen i ⟨hi.1, by omega⟩
    · exact ByteMem.agreeOn_of_get16 hident i ⟨hi.1, by omega⟩
    · exact ByteMem.agreeOn_of_get16 hflags i ⟨hi.1, by omega⟩
    · exact ByteMem.agreeOn_of_get16 hproto i ⟨hi.1, by omega⟩
    · exact ByteMem.agreeOn_of_get32 hsrc i ⟨hi.1, by omega⟩
    · exact ByteMem.agreeOn_of_get32 hdst i ⟨hi, by omega⟩
  have hchksum : r.mem.get16 (o + 10) = r'.mem.get16 (o + 10) := by
    rw [hr, hr', ipHdrWrite_chksum, ipHdrWrite_chksum, ← hr, ← hr']
    exact congrArg tInetChksum ((hfields.set16 (T := fun i => o ≤ i ∧ i < o + 20) 0
      fun i hi => by omega).slice fun i hlo hhi => ⟨hlo, hhi⟩)
  rw [← hr] at hw ⊢
  rw [← hr'] at hw' ⊢
  refine ⟨by rw [hw.payload, hw'.payload, h.payload], by rw [hw.totLen, hw'.totLen, h.totLen],
    by rw [hw.len, hw'.len, h.len], fun i hi => ?_⟩
  by_cases hin : o ≤ i ∧ i < o + 20
  · by_cases hc : o + 10 ≤ i ∧ i < o + 12
    · exact ByteMem.agreeOn_of_get16 hchksum i ⟨hc.1, by omega⟩
    · exact hfields i ⟨hin.1, hin.2, by omega⟩
  · rw [hw.mem i (by omega), hw'.mem i (by omega)]
    exact h.mem i (hi.resolve_right hin)

/-- The Ethernet header is the same in both. -/
theorem ethHdrWrite_all (o : Nat) (dstMac srcMac : Vector UInt8 6) :
    Pbuf.AgreeOn (fun i => S i ∨ (o ≤ i ∧ i < o + 14)) (TTcp.ethHdrWrite p o dstMac srcMac)
      (TTcp.ethHdrWrite p' o dstMac srcMac) := by
  refine ⟨h.payload, h.totLen, h.len, ?_⟩
  have hgrow : ∀ k n i, S i ∨ (o ≤ i ∧ i < o + (k + n)) →
      (S i ∨ (o ≤ i ∧ i < o + k)) ∨ (o + k ≤ i ∧ i < o + k + n) := fun k n i hi => by
    obtain hs | hi := hi
    · exact .inl (.inl hs)
    · omega
  have hmac : ∀ mac : Vector UInt8 6, ∀ i < 6, macMem mac i = macMem mac i := fun _ _ _ => rfl
  have h1 := h.mem.copy (T := fun i => S i ∨ (o ≤ i ∧ i < o + 6)) (hmac dstMac) fun i hi => hi
  have h2 := h1.copy (T := fun i => S i ∨ (o ≤ i ∧ i < o + 12)) (o := o + 6) (hmac srcMac) (hgrow 6 6)
  exact h2.set16 (htons 0x800) (hgrow 12 2)

end Pbuf.AgreeOn

section
variable (net : Net) (indet : Option Netif) (arg : NetifArg) (src dst : UInt32)
  (ttl tos proto : UInt8)

/-- Where the second push succeeds, the frame is what both pushes make. -/
theorem tIpOutput_frames_of_headroom {p : Pbuf} (hroom : IpHeadroom p.payload) :
    frames (tIpOutput net indet arg p (some src) (.val dst) ttl tos proto).2.2 =
      match ipNetif net indet arg dst with
      | some netif => [(netif, (ipFrame p netif src (.val dst) ttl tos proto).bytes)]
      | none => [] := by
  have hpush : (tPbufHeader (ipHdrWrite (tPbufHeader p (-20)).2 (tPbufHeader p (-20)).2.payload src
      (.val dst) ttl tos proto) (-14)).1 = 0 := by
    rw [show (-14 : Int) = -((14 : Nat) : Int) from rfl, tPbufHeader_fst_iff,
      (ipHdrWrite_writesOnly ..).payload, tPbufHeader_ip]
    rw [IpHeadroom] at hroom
    split <;> omega
  simp only [tIpOutput, hpush, ne_eq, not_true_eq_false, ↓reduceIte]
  unfold ipNetif
  cases arg.resolve indet with
  | some netif => rfl
  | none =>
      simp only [AddrPtr.read]
      cases tIpRoute net dst <;> rfl

/-- A buffer in which the bytes of the packet are written, and no fewer than eight. -/
def Pbuf.Written (S : Nat → Prop) (p : Pbuf) : Prop :=
  p.totLen.toNat ≤ 1514 ∧ ∀ i, p.payload ≤ i → i < p.payload + max 8 p.totLen.toNat → S i

variable {S : Nat → Prop} {p p' : Pbuf} (h : Pbuf.AgreeOn S p p') (hfill : p.Written S)
include h hfill

/-- With the same identification, the frame is the same. -/
theorem ipFrame_bytes_of_ident (hroom : IpHeadroom p.payload) (hid : p.ident = p'.ident)
    (netif : Netif) : (ipFrame p netif src (.val dst) ttl tos proto).bytes =
      (ipFrame p' netif src (.val dst) ttl tos proto).bytes := by
  obtain ⟨htot, hS⟩ := hfill
  have hip := tPbufHeader_ip p
  have hq := h.header (-20)
  have hqtot : (tPbufHeader p (-20)).2.totLen =
      if 20 ≤ p.payload ∧ p.payload < 1501 then p.totLen + 20 else p.totLen := by
    by_cases hpush : 20 ≤ p.payload ∧ p.payload < 1501
    · rw [if_pos hpush, show (-20 : Int) = -((20 : Nat) : Int) from rfl,
        tPbufHeader_push p hpush.1 (by omega)]
      rfl
    · rw [if_neg hpush, tPbufHeader_eq, if_neg (by omega)]
  rw [Pbuf.ident, Pbuf.ident, ← hq.payload] at hid
  rw [← tPbufHeader_mem p (-20), ← tPbufHeader_mem p' (-20)] at hid
  rw [ipFrame, ipFrame]
  simp only [← hq.payload]
  generalize (tPbufHeader p (-20)).2 = q at *
  generalize (tPbufHeader p' (-20)).2 = q' at *
  have hr := hq.ipHdrWrite_of_ident hid src dst ttl tos proto
  have hrpay := (ipHdrWrite_writesOnly q q.payload src (.val dst) ttl tos proto).payload
  have hrtot := (ipHdrWrite_writesOnly q q.payload src (.val dst) ttl tos proto).totLen
  generalize ipHdrWrite q q.payload src (.val dst) ttl tos proto = r at *
  generalize ipHdrWrite q' q.payload src (.val dst) ttl tos proto = r' at *
  have hs := hr.header (-14)
  have hspay : 14 ≤ q.payload ∧ (tPbufHeader r (-14)).2.payload = q.payload - 14 ∧
      (tPbufHeader r (-14)).2.totLen = q.totLen + 14 := by
    rw [IpHeadroom] at hroom
    have h14 : 14 ≤ r.payload ∧ r.payload - 14 < 1481 := by
      rw [hrpay, hip]
      split <;> omega
    rw [show (-14 : Int) = -((14 : Nat) : Int) from rfl, tPbufHeader_push r h14.1 h14.2, ← hrpay,
      ← hrtot]
    exact ⟨h14.1, rfl, rfl⟩
  simp only [← hs.payload]
  generalize (tPbufHeader r (-14)).2 = t at *
  generalize (tPbufHeader r' (-14)).2 = t' at *
  obtain ⟨h14, htpay, httot⟩ := hspay
  have he := hs.ethHdrWrite_all t.payload (getMacFromIp dst) netif.hwaddr
  have hepay := (ethHdrWrite_writesOnly t t.payload (getMacFromIp dst) netif.hwaddr).payload
  have hetot := (ethHdrWrite_writesOnly t t.payload (getMacFromIp dst) netif.hwaddr).totLen
  simp only [AddrPtr.read]
  rw [Pbuf.bytes, Pbuf.bytes, ← he.payload, ← he.totLen, hepay, hetot]
  refine he.mem.slice fun i hlo hhi => ?_
  have hend : i < p.payload + p.totLen.toNat ∧ (q.payload + 20 ≤ i → p.payload ≤ i) := by
    rw [htpay, httot, UInt16.toNat_add, show (14 : UInt16).toNat = 14 from rfl] at hhi
    by_cases hpush : 20 ≤ p.payload ∧ p.payload < 1501
    · rw [if_pos hpush] at hip hqtot
      rw [hqtot, UInt16.toNat_add, show (20 : UInt16).toNat = 20 from rfl] at hhi
      omega
    · rw [if_neg hpush] at hip hqtot
      rw [hqtot] at hhi
      omega
  by_cases heth : i < q.payload
  · exact .inr ⟨hlo, by omega⟩
  · by_cases hhdr : i < q.payload + 20
    · exact .inl (.inr ⟨by omega, hhdr⟩)
    · exact .inl (.inl (hS i (hend.2 (by omega)) (by omega)))

/-- The frame says what the identification is, unless the header is over the packet. -/
theorem ident_of_ipFrame_bytes (hroom : IpHeadroom p.payload) (netif : Netif)
    (hbytes : (ipFrame p netif src (.val dst) ttl tos proto).bytes =
      (ipFrame p' netif src (.val dst) ttl tos proto).bytes) : p.ident = p'.ident := by
  obtain ⟨htot, hS⟩ := hfill
  rw [Pbuf.ident, Pbuf.ident, tPbufHeader_ip, tPbufHeader_ip, ← h.payload]
  by_cases hover : p.payload < 20
  · -- the field is in the packet
    rw [if_neg (by omega)]
    exact h.mem.get16 fun i hlo hhi => hS i (by omega) (by omega)
  rw [IpHeadroom] at hroom
  have hfield : ∀ q : Pbuf, q.payload = p.payload → q.totLen = p.totLen →
      (frameMem (ipFrame q netif src (.val dst) ttl tos proto).bytes).get16 18 =
        q.mem.get16 (p.payload - 20 + 4) := fun q hqpay hqtot => by
    obtain ⟨r, hrmem, -, -, hpay, hlen, -, -, -, hip⟩ := ipFrame_spec q netif src (.val dst) ttl tos
      proto (h := p.payload - 34) (by omega) (by omega)
    have h34 : (34 : UInt16).toNat = 34 := rfl
    rw [frameMem_get16 _ (by rw [hlen, hqtot, UInt16.toNat_add, h34]; omega),
      hpay, ByteMem.get16_congr fun i _ => hip _ (by omega),
      show p.payload - 34 + 18 = p.payload - 34 + 14 + 4 by omega, ipHdrWrite_ident, hrmem,
      show p.payload - 34 + 14 + 4 = p.payload - 20 + 4 by omega]
  rw [if_pos (by omega), ← hfield p rfl rfl, ← hfield p' h.payload.symm h.totLen.symm, hbytes]

/-- **What a frame holds of the buffer**: two buffers with one packet are sent alike exactly when
no frame goes out, or the two bytes are the same that the identification is made of. -/
theorem tIpOutput_frames_iff :
    (frames (tIpOutput net indet arg p (some src) (.val dst) ttl tos proto).2.2).length =
        (frames (tIpOutput net indet arg p' (some src) (.val dst) ttl tos proto).2.2).length ∧
      (frames (tIpOutput net indet arg p (some src) (.val dst) ttl tos proto).2.2 =
        frames (tIpOutput net indet arg p' (some src) (.val dst) ttl tos proto).2.2 ↔
        (IpHeadroom p.payload ∧ ipNetif net indet arg dst ≠ none → p.ident = p'.ident)) := by
  by_cases hsent : IpHeadroom p.payload ∧ ipNetif net indet arg dst ≠ none
  · obtain ⟨hroom, hnetif⟩ := hsent
    obtain ⟨netif, hsome⟩ := Option.ne_none_iff_exists'.mp hnetif
    rw [tIpOutput_frames_of_headroom net indet arg src dst ttl tos proto hroom,
      tIpOutput_frames_of_headroom net indet arg src dst ttl tos proto (h.payload ▸ hroom), hsome]
    refine ⟨by simp only [List.length_cons], fun hbytes _ => ?_, fun hid => ?_⟩
    · refine ident_of_ipFrame_bytes src dst ttl tos proto h hfill hroom netif ?_
      exact (Prod.mk.inj (List.cons.inj hbytes).1).2
    · simp only
      rw [ipFrame_bytes_of_ident src dst ttl tos proto h hfill hroom
        (hid ⟨hroom, by simp⟩) netif]
  · have hnone : ∀ q : Pbuf, q.payload = p.payload →
        frames (tIpOutput net indet arg q (some src) (.val dst) ttl tos proto).2.2 = [] := fun q hq =>
      (tIpOutput_frames_cases net indet arg q (some src) (.val dst) ttl tos proto).resolve_right
        fun hone => hsent (by
          have := (tIpOutput_sent_iff net indet arg q (some src) (.val dst) ttl tos proto).mp hone
          rwa [hq] at this)
    rw [hnone p rfl, hnone p' h.payload.symm]
    exact ⟨rfl, iff_of_true rfl fun hs => absurd hs hsent⟩

end

end TTcp
