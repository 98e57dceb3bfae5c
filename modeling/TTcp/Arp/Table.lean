import TTcp.Arp.Reply
import TTcp.Lib.Run

/-!
# TTcp.Arp.Table

The ARP table over any sequence of replies.

`t_update_arp_entry` looks for the hardware address of a reply, not for its IP
address.  So no hardware address is ever in the table twice, but a host that
comes back with another hardware address gets a second entry, and the first
one stays: the table is a map from addresses to hardware addresses exactly as
long as that does not happen (`arpTable_maps_iff`).
-/

namespace TTcp

/-- An address that the table takes. -/
def ArpSpecific (ip : UInt32) : Prop := ip ≠ 0 ∧ ip ≠ 0xffffffff

instance (ip : UInt32) : Decidable (ArpSpecific ip) := inferInstanceAs (Decidable (_ ∧ _))

/-- The table takes what a reply says: its address is one to keep, and its
hardware address is there already or there is room. -/
def ArpTakes (table : ArpTable) (ip : UInt32) (mac : Vector UInt8 6) : Prop :=
  ArpSpecific ip ∧ ((∃ e ∈ table, e.mac = mac) ∨ table.length < tArpTableSize)

instance (table : ArpTable) (ip : UInt32) (mac : Vector UInt8 6) :
    Decidable (ArpTakes table ip mac) := inferInstanceAs (Decidable (_ ∧ _))

/-- What a table should be: it fits its array, has only addresses to keep, and
each of them once. -/
structure ArpTableOk (table : ArpTable) : Prop where
  bounded : table.length ≤ tArpTableSize
  specific : ∀ e ∈ table, ArpSpecific e.ip
  unique : (table.map ArpEntry.ip).Nodup

/-- The entry for `ip` holds `mac`. -/
def ArpHolds (table : ArpTable) (ip : UInt32) (mac : Vector UInt8 6) : Prop :=
  (∃ e ∈ table, e.ip = ip) ∧ ∀ e ∈ table, e.ip = ip → e.mac = mac

/-- What a table always is. -/
structure ArpTableInv (table : ArpTable) : Prop where
  bounded : table.length ≤ tArpTableSize
  specific : ∀ e ∈ table, ArpSpecific e.ip
  macs : (table.map ArpEntry.mac).Nodup

/-! ## one update -/

theorem arpOverwrite_eq_none {ip : UInt32} {mac : Vector UInt8 6} {table : ArpTable}
    (h : ∀ e ∈ table, e.mac ≠ mac) : arpOverwrite ip mac table = none := by
  induction table with
  | nil => rfl
  | cons e table ih =>
      rw [arpOverwrite, if_neg (h e List.mem_cons_self).symm,
        ih fun e' he => h e' (List.mem_cons_of_mem e he)]
      rfl

theorem arpOverwrite_append {ip : UInt32} {mac : Vector UInt8 6} {pre : ArpTable}
    (h : ∀ e ∈ pre, e.mac ≠ mac) {e : ArpEntry} (he : e.mac = mac) (post : ArpTable) :
    arpOverwrite ip mac (pre ++ e :: post) = some (pre ++ ⟨ip, mac⟩ :: post) := by
  induction pre with
  | nil => rw [List.nil_append, arpOverwrite, if_pos he.symm, ← he]; rfl
  | cons e' pre ih =>
      rw [List.cons_append, arpOverwrite, if_neg (h e' List.mem_cons_self).symm,
        ih fun x hx => h x (List.mem_cons_of_mem e' hx)]
      rfl

section
variable {table : ArpTable} {ip : UInt32} {mac : Vector UInt8 6}

/-- What is not taken changes nothing. -/
theorem tUpdateArpEntry_of_not_takes (h : ¬ ArpTakes table ip mac) :
    tUpdateArpEntry table ip mac = table := by
  unfold tUpdateArpEntry
  by_cases hip : ip ≠ 0 ∧ ip ≠ 0xffffffff
  · have hno : ∀ e ∈ table, e.mac ≠ mac := fun e he hmac => h ⟨hip, .inl ⟨e, he, hmac⟩⟩
    have hfull : ¬ table.length < tArpTableSize := fun hlt => h ⟨hip, .inr hlt⟩
    simp only [if_pos hip, arpOverwrite_eq_none hno, if_neg hfull]
  · rw [if_neg hip]

/-- What is taken replaces the entry with its hardware address, if there is
one. -/
theorem tUpdateArpEntry_of_takes (hmacs : (table.map ArpEntry.mac).Nodup)
    (h : ArpTakes table ip mac) : ∃ pre old post, table = pre ++ (old ++ post) ∧
      tUpdateArpEntry table ip mac = pre ++ ⟨ip, mac⟩ :: post ∧ (∀ e ∈ old, e.mac = mac) ∧
      (∀ e ∈ pre ++ post, e.mac ≠ mac) ∧ (old = [] → table.length < tArpTableSize) := by
  obtain ⟨hip, hroom⟩ := h
  have hkeep : ip ≠ 0 ∧ ip ≠ 0xffffffff := hip
  unfold tUpdateArpEntry
  rw [if_pos hkeep]
  by_cases hmem : ∃ e ∈ table, e.mac = mac
  · obtain ⟨e, he, rfl⟩ := hmem
    obtain ⟨pre, post, rfl⟩ := List.append_of_mem he
    rw [List.map_append, List.map_cons, List.nodup_append, List.nodup_cons] at hmacs
    obtain ⟨-, ⟨hpost, -⟩, hpre⟩ := hmacs
    have hpre' : ∀ x ∈ pre, x.mac ≠ e.mac := fun x hx =>
      hpre _ (List.mem_map_of_mem hx) _ List.mem_cons_self
    refine ⟨pre, [e], post, rfl, ?_, by simp, fun x hx => ?_, by simp⟩
    · simp only [arpOverwrite_append hpre' rfl]
    · rcases List.mem_append.mp hx with hx | hx
      · exact hpre' x hx
      · exact fun hmac => hpost (hmac ▸ List.mem_map_of_mem hx)
  · have hno : ∀ e ∈ table, e.mac ≠ mac := fun e he hmac => hmem ⟨e, he, hmac⟩
    have hlt : table.length < tArpTableSize := hroom.resolve_left hmem
    refine ⟨table, [], [], by simp, ?_, by simp, by simpa using hno, fun _ => hlt⟩
    simp only [arpOverwrite_eq_none hno, if_pos hlt]

theorem ArpTableInv.update (h : ArpTableInv table) (ip : UInt32) (mac : Vector UInt8 6) :
    ArpTableInv (tUpdateArpEntry table ip mac) := by
  by_cases htakes : ArpTakes table ip mac
  · obtain ⟨pre, old, post, rfl, heq, hold, hrest, hroom⟩ := tUpdateArpEntry_of_takes h.macs htakes
    have hspec := h.specific
    have hmacs := h.macs
    have hlen := h.bounded
    simp only [List.map_append, List.nodup_append, List.length_append, List.mem_append] at *
    rw [heq]
    refine ⟨?_, ?_, ?_⟩
    · have hold' : 0 < old.length ∨ pre.length + (old.length + post.length) < tArpTableSize := by
        cases old with
        | nil => exact .inr (hroom rfl)
        | cons e old => exact .inl (by simp)
      simp only [List.length_append, List.length_cons]
      omega
    · intro e he
      rcases List.mem_append.mp he with he | he
      · exact hspec e (.inl he)
      · rcases List.mem_cons.mp he with rfl | he
        · exact htakes.1
        · exact hspec e (.inr (.inr he))
    · simp only [List.map_append, List.map_cons, List.nodup_append, List.nodup_cons]
      refine ⟨hmacs.1, ⟨?_, hmacs.2.1.2.1⟩, fun a ha b hb => ?_⟩
      · rintro hmem
        obtain ⟨e, he, hmac⟩ := List.mem_map.mp hmem
        exact hrest e (.inr he) hmac
      · rcases List.mem_cons.mp hb with rfl | hb
        · obtain ⟨e, he, rfl⟩ := List.mem_map.mp ha
          exact hrest e (.inl he)
        · exact hmacs.2.2 a ha b (.inr hb)
  · rw [tUpdateArpEntry_of_not_takes htakes]
    exact h

/-- The addresses stay different exactly when no entry with another hardware
address has the one that is taken. -/
theorem tUpdateArpEntry_unique_iff (h : ArpTableInv table)
    (hip : (table.map ArpEntry.ip).Nodup) :
    ((tUpdateArpEntry table ip mac).map ArpEntry.ip).Nodup ↔
      (ArpTakes table ip mac → ∀ e ∈ table, e.ip = ip → e.mac = mac) := by
  by_cases htakes : ArpTakes table ip mac
  · obtain ⟨pre, old, post, rfl, heq, hold, hrest, -⟩ := tUpdateArpEntry_of_takes h.macs htakes
    have hkeep : ((pre ++ post).map ArpEntry.ip).Nodup :=
      hip.sublist (((List.Sublist.refl pre).append (List.sublist_append_right old post)).map _)
    have hperm : (pre ++ ⟨ip, mac⟩ :: post).Perm (⟨ip, mac⟩ :: (pre ++ post)) := List.perm_middle
    rw [heq, (hperm.map ArpEntry.ip).nodup_iff, List.map_cons, List.nodup_cons,
      and_iff_left hkeep]
    constructor
    · intro hnot _ e he heip
      by_contra hmac
      refine hnot (List.mem_map.mpr ⟨e, ?_, heip⟩)
      rcases List.mem_append.mp he with he | he
      · exact List.mem_append_left _ he
      · rcases List.mem_append.mp he with he | he
        · exact absurd (hold e he) hmac
        · exact List.mem_append_right _ he
    · intro hfresh hmem
      obtain ⟨e, he, heip⟩ := List.mem_map.mp hmem
      refine hrest e he (hfresh htakes e ?_ heip)
      rcases List.mem_append.mp he with he | he
      · exact List.mem_append_left _ he
      · exact List.mem_append_right _ (List.mem_append_right _ he)
  · rw [tUpdateArpEntry_of_not_takes htakes]
    exact iff_of_true hip fun h => absurd h htakes

/-- What is taken without a second entry is held. -/
theorem tUpdateArpEntry_holds (h : ArpTableInv table) (htakes : ArpTakes table ip mac)
    (hfresh : ∀ e ∈ table, e.ip = ip → e.mac = mac) :
    ArpHolds (tUpdateArpEntry table ip mac) ip mac := by
  obtain ⟨pre, old, post, rfl, heq, -, hrest, -⟩ := tUpdateArpEntry_of_takes h.macs htakes
  rw [heq]
  refine ⟨⟨⟨ip, mac⟩, by simp, rfl⟩, fun e he heip => ?_⟩
  rcases List.mem_append.mp he with he | he
  · exact hfresh e (List.mem_append_left _ he) heip
  · rcases List.mem_cons.mp he with rfl | he
    · rfl
    · exact hfresh e (List.mem_append_right _ (List.mem_append_right _ he)) heip

end

/-! ## runs -/

/-- A reply to the interface. -/
structure ArpReplyFor (netif : Netif) (p : Pbuf) : Prop where
  length : 42 ≤ p.totLen.toNat
  target : (arpAt p.mem p.payload).targetIp = netif.ipAddr
  opcode : htons (arpAt p.mem p.payload).opcode = tArpReplyOp

/-- The table after a packet. -/
def arpLearn (netif : Netif) (table : ArpTable) (p : Pbuf) : ArpTable :=
  (tArpInput table netif p).2.2.1

theorem arpLearn_eq {netif : Netif} {p : Pbuf} (h : ArpReplyFor netif p) (table : ArpTable) :
    arpLearn netif table p = tUpdateArpEntry table (arpAt p.mem p.payload).senderIp
      (arpAt p.mem p.payload).senderMac :=
  congrArg Prod.fst (tArpInput_of_reply table h.length h.target h.opcode)

/-- After a reply that arrives while there is room, the entry for its sender
holds the sender's hardware address. -/
def ArpLearns (netif : Netif) (table : ArpTable) (p : Pbuf) : Prop :=
  let pkt := arpAt p.mem p.payload
  ArpSpecific pkt.senderIp → table.length < tArpTableSize →
    ArpHolds (arpLearn netif table p) pkt.senderIp pkt.senderMac

/-- No entry with another hardware address has the address of a reply, if the
table takes it. -/
def ArpFresh (table : ArpTable) (p : Pbuf) : Prop :=
  let pkt := arpAt p.mem p.payload
  ArpTakes table pkt.senderIp pkt.senderMac →
    ∀ e ∈ table, e.ip = pkt.senderIp → e.mac = pkt.senderMac

instance (table : ArpTable) (p : Pbuf) : Decidable (ArpFresh table p) :=
  inferInstanceAs (Decidable (_ → _))

theorem ArpTableInv.learn {netif : Netif} (table : ArpTable) (p : Pbuf) (h : ArpTableInv table)
    (hp : ArpReplyFor netif p) : ArpTableInv (arpLearn netif table p) := by
  rw [arpLearn_eq hp]
  exact h.update ..

/-- **The table as a map**: over any replies, the table maps addresses to
their latest hardware addresses exactly when no reply gives an address in the
table another hardware address. -/
theorem arpTable_maps_iff (netif : Netif) {ps : List Pbuf} (hps : ∀ p ∈ ps, ArpReplyFor netif p) :
    Run.Throughout (arpLearn netif) ArpTableOk [] ps ∧
        Run.Along (arpLearn netif) (ArpLearns netif) [] ps ↔
      Run.Along (arpLearn netif) ArpFresh [] ps := by
  have hl : Run.Along (arpLearn netif) (fun _ => ArpReplyFor netif) [] ps :=
    Run.along_of_forall _ hps
  have hinv : ArpTableInv ([] : ArpTable) := ⟨Nat.zero_le _, by simp, by simp⟩
  have hok : ArpTableOk ([] : ArpTable) := ⟨Nat.zero_le _, by simp, by simp⟩
  have hstep : ∀ table p, ArpTableInv table → ArpReplyFor netif p → ArpTableOk table →
      (ArpTableOk (arpLearn netif table p) ↔ ArpFresh table p) := by
    intro table p hi hp ht
    have hi' := hi.learn table p hp
    have hiff := @tUpdateArpEntry_unique_iff _ (arpAt p.mem p.payload).senderIp
      (arpAt p.mem p.payload).senderMac hi ht.unique
    rw [← arpLearn_eq hp] at hiff
    exact ⟨fun h => hiff.mp h.unique, fun h => ⟨hi'.bounded, hi'.specific, hiff.mpr h⟩⟩
  have hmap := Run.throughout_iff_along_of_invariant (fun t p => ArpTableInv.learn t p) hstep hinv
    hok hl
  refine ⟨fun h => hmap.mp h.1, fun h => ⟨hmap.mpr h, ?_⟩⟩
  have hlearn : ∀ table p, ArpTableInv table → ArpReplyFor netif p ∧ ArpFresh table p →
      ArpLearns netif table p := by
    intro table p hi ⟨hp, hf⟩ hip hlt
    rw [arpLearn_eq hp]
    exact tUpdateArpEntry_holds hi ⟨hip, .inr hlt⟩ (hf ⟨hip, .inr hlt⟩)
  exact Run.along_of_invariant (fun t p hi hp => ArpTableInv.learn t p hi hp.1) hlearn hinv
    (hl.and _ h)

/-- The reply of the host with the hardware address 02:00:00:00:00:`mac` that it
has the address 192.168.1.`ip`. -/
def arpReplyOf (mac ip : UInt8) : Pbuf :=
  arpPacket (arpFrame #v[2, 0, 0, 0, 0, mac] 2 #v[2, 0, 0, 0, 0, mac] ip)

/-- A host, then another host, then the first again. -/
def arpReplies : List Pbuf := [arpReplyOf 2 2, arpReplyOf 3 3, arpReplyOf 2 2]

theorem arpTable_maps_replies :
    Run.Throughout (arpLearn (arpPair false)) ArpTableOk [] arpReplies ∧
      Run.Along (arpLearn (arpPair false)) (ArpLearns (arpPair false)) [] arpReplies :=
  (arpTable_maps_iff (arpPair false) fun p hp => by
    simp only [arpReplies, List.mem_cons, List.not_mem_nil, or_false] at hp
    rcases hp with rfl | rfl | rfl <;> exact ⟨by decide, by decide, by decide⟩).mpr
    ⟨by decide +kernel, by decide +kernel, by decide +kernel, trivial⟩

/-- 192.168.1.2 comes back with another hardware address. -/
def arpMoved : List Pbuf := [arpReplyOf 2 2, arpReplyOf 3 2]

/-- It is in the table twice then. -/
theorem not_arpTable_maps : ¬ ∀ (netif : Netif) (ps : List Pbuf),
    (∀ p ∈ ps, ArpReplyFor netif p) →
      Run.Throughout (arpLearn netif) ArpTableOk [] ps ∧
        Run.Along (arpLearn netif) (ArpLearns netif) [] ps := by
  intro h
  have hps : ∀ p ∈ arpMoved, ArpReplyFor (arpPair false) p := fun p hp => by
    simp only [arpMoved, List.mem_cons, List.not_mem_nil, or_false] at hp
    rcases hp with rfl | rfl <;> exact ⟨by decide, by decide, by decide⟩
  have hunique := (h (arpPair false) arpMoved hps).1.final.unique
  revert hunique
  decide +kernel

end TTcp
