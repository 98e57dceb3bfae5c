import TTcp.Pbuf

/-!
# TTcp.Tcp.Header

The TCP header in a buffer and the `T_TCPH` macros of `t_tcp.h`.

The macros pack header length and flags into one 16-bit word.  What they do to
that word is said once, by the `tTcphWord` lemmas; everything else about a
header is read off its word.
-/

namespace TTcp

/-! ## constants -/

@[simp] def tTcpHlen : Nat := 20

@[simp] def tcpFin : UInt16 := 0x01
@[simp] def tcpSyn : UInt16 := 0x02
@[simp] def tcpRst : UInt16 := 0x04
@[simp] def tcpPsh : UInt16 := 0x08
@[simp] def tcpAck : UInt16 := 0x10
@[simp] def tcpUrg : UInt16 := 0x20
@[simp] def tcpFlags : UInt16 := 0x3f

/-- `T_TCP_SEQ_LT`: the difference as a signed 32-bit number is negative. -/
def tTcpSeqLt (a b : UInt32) : Bool := 2147483648 ≤ (a - b).toNat

/-- Masking a word put together of two. -/
theorem or_and_mask (a b m : UInt16) : (a ||| b) &&& m = (a &&& m) ||| (b &&& m) :=
  UInt16.toBitVec_inj.1 BitVec.and_or_distrib_right

/-- Neither flag of two is set. -/
theorem and_eq_zero_of_or {x f g : UInt16} (h : x &&& (f ||| g) = 0) : x &&& f = 0 ∧ x &&& g = 0 := by
  rw [UInt16.and_comm, or_and_mask, UInt16.or_eq_zero_iff] at h
  rwa [UInt16.and_comm x f, UInt16.and_comm x g]

/-! ## fields -/

/-- `ntohs(phdr->_hdrlen_rsvd_flags)` of the header at `h`. -/
def tTcphWord (m : ByteMem) (h : Nat) : UInt16 := ntohs (m.get16 (h + 12))

/-- `T_TCPH_HDRLEN`. -/
def tTcphHdrlen (m : ByteMem) (h : Nat) : UInt16 := tTcphWord m h >>> 12

/-- `T_TCPH_FLAGS`. -/
def tTcphFlags (m : ByteMem) (h : Nat) : UInt16 := tTcphWord m h &&& tcpFlags

/-- `ntohl(phdr->seqno)`. -/
def tcphSeqno (m : ByteMem) (h : Nat) : UInt32 := ntohl (m.get32 (h + 4))

/-- `T_TCPH_FLAGS_SET`. -/
def tTcphFlagsSet (p : Pbuf) (h : Nat) (flags : UInt16) : Pbuf :=
  p.set16 (h + 12) (htons ((tTcphWord p.mem h &&& ~~~tcpFlags) ||| flags))

/-- `T_TCPH_HDRLEN_SET`. -/
def tTcphHdrlenSet (p : Pbuf) (h : Nat) (len : UInt16) : Pbuf :=
  p.set16 (h + 12) (htons ((len <<< 12) ||| tTcphFlags p.mem h))

/-- `T_TCPH_SET_FLAG`. -/
def tTcphSetFlag (p : Pbuf) (h : Nat) (flags : UInt16) : Pbuf :=
  p.set16 (h + 12) (htons (tTcphWord p.mem h ||| flags))

section
variable (p : Pbuf) (h : Nat) (f : UInt16)

theorem tTcphFlagsSet_writesOnly : p.WritesOnly (tTcphFlagsSet p h f) (h + 12) (h + 14) := .set16 ..

theorem tTcphHdrlenSet_writesOnly : p.WritesOnly (tTcphHdrlenSet p h f) (h + 12) (h + 14) :=
  .set16 ..

theorem tTcphSetFlag_writesOnly : p.WritesOnly (tTcphSetFlag p h f) (h + 12) (h + 14) := .set16 ..

@[simp] theorem tTcphWord_flagsSet : tTcphWord (tTcphFlagsSet p h f).mem h =
    (tTcphWord p.mem h &&& ~~~tcpFlags) ||| f := by
  simp [tTcphWord, tTcphFlagsSet]

@[simp] theorem tTcphWord_hdrlenSet : tTcphWord (tTcphHdrlenSet p h f).mem h =
    (f <<< 12) ||| tTcphFlags p.mem h := by
  simp [tTcphWord, tTcphHdrlenSet]

@[simp] theorem tTcphWord_setFlag :
    tTcphWord (tTcphSetFlag p h f).mem h = tTcphWord p.mem h ||| f := by
  simp [tTcphWord, tTcphSetFlag]

/-- After setting flags and header length nothing is left of what was in the
word before. -/
theorem tTcphWord_flagsSet_hdrlenSet (len : UInt16) :
    tTcphWord (tTcphHdrlenSet (tTcphFlagsSet p h f) h len).mem h =
      (len <<< 12) ||| (f &&& tcpFlags) := by
  have hmask : ((tTcphWord p.mem h &&& ~~~tcpFlags) ||| f) &&& tcpFlags = f &&& tcpFlags := by
    apply UInt16.toBitVec_inj.1
    ext i hi
    simp only [UInt16.toBitVec_and, UInt16.toBitVec_or, UInt16.toBitVec_not, BitVec.getElem_and,
      BitVec.getElem_or, BitVec.getElem_not]
    cases tcpFlags.toBitVec[i] <;> simp
  rw [tTcphWord_hdrlenSet, tTcphFlags, tTcphWord_flagsSet, hmask]

end

/-! ## the header of an outgoing segment -/

/-- The fields that `t_tcp_enqueue` fills in: ports, sequence number, urgent
pointer and flags.  Acknowledgement number and window come later, on output. -/
def tcphBuild (p : Pbuf) (h : Nat) (src dest : UInt16) (seqno : UInt32) (flags : UInt16) : Pbuf :=
  let p := p.set16 h (htons src)
  let p := p.set16 (h + 2) (htons dest)
  let p := p.set32 (h + 4) (htonl seqno)
  let p := p.set16 (h + 18) 0
  tTcphFlagsSet p h flags

section
variable (p : Pbuf) (h : Nat) (src dest : UInt16) (seqno : UInt32) (flags : UInt16)

theorem tcphBuild_writesOnly : p.WritesOnly (tcphBuild p h src dest seqno flags) h (h + 20) := by
  have e1 := (Pbuf.WritesOnly.set16 p h (htons src)).mono le_rfl (show h + 2 ≤ h + 20 by omega)
  have e2 := e1.trans ((Pbuf.WritesOnly.set16 _ (h + 2) (htons dest)).mono (by omega) (by omega))
  have e3 := e2.trans ((Pbuf.WritesOnly.set32 _ (h + 4) (htonl seqno)).mono (by omega) (by omega))
  have e4 := e3.trans ((Pbuf.WritesOnly.set16 _ (h + 18) 0).mono (by omega) (by omega))
  exact e4.trans ((tTcphFlagsSet_writesOnly ..).mono (by omega) (by omega))

@[simp] theorem tcphSeqno_build : tcphSeqno (tcphBuild p h src dest seqno flags).mem h = seqno := by
  rw [tcphSeqno, tcphBuild, (tTcphFlagsSet_writesOnly ..).get32 (by omega)]
  simp (disch := omega)

@[simp] theorem tTcphWord_build_hdrlenSet (len : UInt16) :
    tTcphWord (tTcphHdrlenSet (tcphBuild p h src dest seqno flags) h len).mem h =
      (len <<< 12) ||| (flags &&& tcpFlags) :=
  tTcphWord_flagsSet_hdrlenSet ..

end

/-! ## a header keeps its fields under writes elsewhere -/

section
variable {p q : Pbuf} {h lo hi : Nat}

theorem Pbuf.WritesOnly.tcphSeqno_eq (hw : p.WritesOnly q lo hi) (ho : h + 8 ≤ lo ∨ hi ≤ h + 4) :
    tcphSeqno q.mem h = tcphSeqno p.mem h := by
  rw [tcphSeqno, hw.get32 (by omega), tcphSeqno]

theorem Pbuf.WritesOnly.tTcphWord_eq (hw : p.WritesOnly q lo hi)
    (ho : h + 14 ≤ lo ∨ hi ≤ h + 12) : tTcphWord q.mem h = tTcphWord p.mem h := by
  rw [tTcphWord, hw.get16 (by omega), tTcphWord]

end

end TTcp
