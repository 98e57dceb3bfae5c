import TTcp.Tcp.Accept
import TTcp.Tcp.Options

/-!
# TTcp.Reads

How far do the handlers of a received packet read?

A pbuf records the end of the furthest byte read of it, `rdEnd`.  For every handler there is a
bound on that record (`ReadsTo`), or its value.
-/

namespace TTcp

/-- `q` is `p` after more was read, and no byte from `n` on. -/
def ReadsTo (n : Nat) (p q : Pbuf) : Prop := p.rdEnd ≤ q.rdEnd ∧ q.rdEnd ≤ max p.rdEnd n

namespace ReadsTo

variable {n m o : Nat} {p q r : Pbuf}

theorem refl (n : Nat) (p : Pbuf) : ReadsTo n p p := ⟨le_rfl, le_max_left _ _⟩

theorem trans (h : ReadsTo n p q) (h' : ReadsTo n q r) : ReadsTo n p r :=
  ⟨h.1.trans h'.1, h'.2.trans (max_le h.2 (le_max_right _ _))⟩

theorem mono (h : ReadsTo n p q) (hnm : n ≤ m) : ReadsTo m p q :=
  ⟨h.1, h.2.trans (max_le_max le_rfl hnm)⟩

theorem of_eq (h : q.rdEnd = p.rdEnd) : ReadsTo n p q := ⟨h.ge, h.le.trans (le_max_left _ _)⟩

theorem see (ho : o ≤ n) (h : ReadsTo n p q) : ReadsTo n p (q.see o) :=
  h.trans ⟨le_max_left _ _, max_le_max le_rfl ho⟩

end ReadsTo

/-! ## IP output -/

section
variable (net : Net) (indet : Option Netif) (arg : NetifArg) (p : Pbuf) (src : Option UInt32)
  (dst : AddrPtr) (ttl tos proto : UInt8)

end

/-! ## ARP -/

/-- Where a round of the walk over the options stops reading, at the option at `o`. -/
def optEnd (m : ByteMem) (o : Nat) : Nat :=
  if m o = 0 ∨ m o = 1 then o + 1 else if m o = 2 ∧ m (o + 1) = 4 then o + 4 else o + 2

/-- Wherever the walk over the options comes to, it reads no byte from `n` on. -/
def OptionsInside (m : ByteMem) (tcphdr n : Nat) : Prop :=
  ∀ c, Loop.Reaches (parseoptCursor m tcphdr) 0 c → c.toNat < optArea m tcphdr →
    optEnd m (tcphdr + 20 + c.toNat) ≤ n

theorem optSize_optEnd_congr {m m' : ByteMem} {o : Nat} (h : m o = m' o)
    (h' : o + 2 ≤ optEnd m o → m (o + 1) = m' (o + 1)) :
    optSize m o = optSize m' o ∧ optEnd m o = optEnd m' o := by
  unfold optSize optEnd at *
  by_cases h0 : m o = 0
  · simp [← h, h0]
  by_cases h1 : m o = 1
  · simp [← h, h1]
  have hlen : m (o + 1) = m' (o + 1) := by
    refine h' ?_
    rw [if_neg (not_or.mpr ⟨h0, h1⟩)]
    split <;> omega
  rw [← h, ← hlen]
  exact ⟨rfl, rfl⟩

/-- A walk that does not read beyond `n` reads nothing but the header length and the options
before `n`. -/
theorem OptionsInside.congr {m m' : ByteMem} {tcphdr n : Nat}
    (hagree : ∀ i, tcphdr + 12 ≤ i ∧ i < tcphdr + 14 ∨ tcphdr + 20 ≤ i ∧ i < n → m i = m' i)
    (hroom : tcphdr + 20 + optArea m tcphdr ≤ n) (h : OptionsInside m tcphdr n) :
    OptionsInside m' tcphdr n := by
  have harea : optArea m tcphdr = optArea m' tcphdr := by
    rw [optArea, optArea, tTcphHdrlen, tTcphHdrlen, tTcphWord, tTcphWord,
      ByteMem.get16_congr fun i hi => hagree (tcphdr + 12 + i) (by omega)]
  have hopt : ∀ c, Loop.Reaches (parseoptCursor m tcphdr) 0 c → c.toNat < optArea m tcphdr →
      optSize m (tcphdr + 20 + c.toNat) = optSize m' (tcphdr + 20 + c.toNat) ∧
        optEnd m (tcphdr + 20 + c.toNat) = optEnd m' (tcphdr + 20 + c.toNat) := fun c hreach hc => by
    have hend := h c hreach hc
    exact optSize_optEnd_congr (hagree _ (by omega)) fun hlen => hagree _ (by omega)
  have hreaches : ∀ c, Loop.Reaches (parseoptCursor m' tcphdr) 0 c →
      Loop.Reaches (parseoptCursor m tcphdr) 0 c := fun c hreach => by
    induction hreach with
    | refl => exact .refl
    | tail _ hnext ih =>
        obtain ⟨hc, l, hsize, rfl⟩ := next_parseoptCursor_iff.mp hnext
        rw [← harea] at hc
        exact ih.tail (next_parseoptCursor_iff.mpr ⟨hc, l, (hopt _ ih hc).1.trans hsize, rfl⟩)
  intro c hreach hc
  rw [← harea] at hc
  have hreach' := hreaches c hreach
  rw [← (hopt c hreach' hc).2]
  exact h c hreach' hc

section
variable (env : OutEnv) (cbRet : ErrT) (pools : Pools) {pcb : TcpPcb} {s : Incoming}

end

namespace HeaderTaken

variable {r : Pbuf} {hl n : Nat} {s : Incoming} {k : TcpKey} (h : HeaderTaken r hl n s k)
include h

theorem hdrlen : tTcphHdrlen s.p.mem s.tcphdr = tTcphHdrlen r.mem (14 + hl) := by
  rw [h.tcphdr, tTcphHdrlen, tTcphHdrlen, tTcphWord, tTcphWord, h.word]

end HeaderTaken

section
variable (h : TcpHost) (indet : Nat → Option Netif) (cbRet : ErrT) {r : Pbuf}
  (hpay : r.payload = 14) {hl : Nat} (hhl : (tIphHl r.mem 14).toNat * 4 = hl)
include hpay hhl

end

end TTcp
