import CMTestbed.SeqIds
import CMTestbed.Proofs.Generate
import CMTestbed.Proofs.Volumes

/-!
# Which packets share a counter

A packet's sequence number is one more than the number of earlier calls with its key, mod 2^31: at
2^31 the counter reads as negative and starts again.  The key is the packet's source address and
what else the local `flow_t` holds.
-/

namespace CMTestbed

/-- The calls with this key. -/
def countKey (calls : List PacketCall) (key : FlowS) : ℕ :=
  calls.countP fun c => c.flow.rank = key.rank

/-- The number that the call after `n` others with its key gives. -/
def seqidAfter (n : ℕ) : UInt32 := UInt32.ofNat (n % 2 ^ 31 + 1)

theorem toNat_seqidAfter (n : ℕ) : (seqidAfter n).toNat = n % 2 ^ 31 + 1 := by
  rw [seqidAfter, UInt32.toNat_ofNat']
  omega

theorem seqidAfter_lt {m n : ℕ} : seqidAfter m < seqidAfter n ↔ m % 2 ^ 31 < n % 2 ^ 31 := by
  rw [UInt32.lt_iff_toNat_lt, toNat_seqidAfter, toNat_seqidAfter]
  omega

section Counter

variable {hashtable : HtKf} {flow : FlowS} {n : ℕ}

theorem get_htKfSet (value : UInt32) (key : FlowS) : (htKfSet hashtable flow value).get key
    = if key.rank = flow.rank then some value else hashtable.get key :=
  Lib.Table.get_set hashtable flow key value

theorem htKfGet_htKfSet (value : UInt32) :
    htKfGet (htKfSet hashtable flow value) flow = toInt value := by
  rw [htKfGet, get_htKfSet, if_pos rfl]

/-- The number, from the counter that the key has. -/
theorem seqid_getSeqidOfFlow (h : hashtable.get flow = if n = 0 then none
    else some (seqidAfter (n - 1))) : (getSeqidOfFlow hashtable flow).2 = seqidAfter n := by
  have hget : htKfGet hashtable flow = if n = 0 then -1 else toInt (seqidAfter (n - 1)) := by
    rw [htKfGet, h]
    split_ifs <;> rfl
  have hlast := toNat_seqidAfter (n - 1)
  rw [← UInt32.toNat_inj, toNat_seqidAfter]
  unfold getSeqidOfFlow
  dsimp only
  by_cases hneg : htKfGet hashtable flow < 0
  · -- There is no counter yet, or it has come to 2^31.
    have hn : n % 2 ^ 31 = 0 := by
      rw [hget] at hneg
      split_ifs at hneg with h₀
      · omega
      · by_contra hn
        rw [toInt_eq_toNat (by omega)] at hneg
        omega
    rw [if_pos hneg, htKfGet_htKfSet, hn]
    rfl
  · have hn : n ≠ 0 ∧ (seqidAfter (n - 1)).toNat < 2 ^ 31 := by
      rw [hget] at hneg
      split_ifs at hneg with h₀
      · omega
      · by_contra hn
        rw [not_and, not_lt] at hn
        exact hneg (toInt_lt_zero (hn h₀))
    have hnat : ((toUInt ((seqidAfter (n - 1)).toNat + 1)).toNat : ℤ)
        = (seqidAfter (n - 1)).toNat + 1 := toNat_toUInt (by omega) (by omega)
    rw [if_neg hneg, hget, if_neg hn.1, toInt_eq_toNat hn.2]
    omega

/-- Every other key keeps its counter. -/
theorem get_getSeqidOfFlow (key : FlowS) : (getSeqidOfFlow hashtable flow).1.get key
    = if key.rank = flow.rank then some (getSeqidOfFlow hashtable flow).2
      else hashtable.get key := by
  unfold getSeqidOfFlow
  dsimp only
  rw [get_htKfSet]
  by_cases hkey : key.rank = flow.rank
  · rw [if_pos hkey, if_pos hkey]
  · rw [if_neg hkey, if_neg hkey]
    split_ifs
    · rw [get_htKfSet, if_neg hkey]
    · rfl

end Counter

theorem countKey_append (calls : List PacketCall) (c : PacketCall) (key : FlowS) :
    countKey (calls ++ [c]) key
      = countKey calls key + if key.rank = c.flow.rank then 1 else 0 := by
  rw [countKey, List.countP_append, List.countP_singleton]
  simp [countKey, eq_comm]

theorem generatePackets_append (calls : List PacketCall) (c : PacketCall) :
    generatePackets (calls ++ [c])
      = ((getSeqidOfFlow (generatePackets calls).1 c.flow).1, (generatePackets calls).2
        ++ [generateOnePacket c.pPacket (getSeqidOfFlow (generatePackets calls).1 c.flow).2]) := by
  rw [generatePackets, List.foldl_append]
  rfl

theorem countKey_congr {calls : List PacketCall} {key key' : FlowS} (h : key.rank = key'.rank) :
    countKey calls key = countKey calls key' := by rw [countKey, countKey, h]

/-- The counters after the calls. -/
theorem get_generatePackets (calls : List PacketCall) (key : FlowS) :
    (generatePackets calls).1.get key
      = if countKey calls key = 0 then none else some (seqidAfter (countKey calls key - 1)) := by
  induction calls using List.reverseRecOn generalizing key with
  | nil => exact Lib.Table.get_create key
  | append_singleton calls c ih =>
    rw [generatePackets_append, get_getSeqidOfFlow, countKey_append]
    by_cases hkey : key.rank = c.flow.rank
    · rw [if_pos hkey, if_pos hkey, if_neg (Nat.succ_ne_zero _), seqid_getSeqidOfFlow (ih c.flow),
        countKey_congr hkey, Nat.add_sub_cancel]
    · rw [if_neg hkey, if_neg hkey, add_zero]
      exact ih key

theorem length_generatePackets (calls : List PacketCall) :
    (generatePackets calls).2.length = calls.length := by
  induction calls using List.reverseRecOn with
  | nil => rfl
  | append_singleton calls c ih => simp [generatePackets_append, ih]

/-- The packets that the calls write. -/
theorem getElem?_generatePackets (calls : List PacketCall) (i : ℕ) :
    (generatePackets calls).2[i]? = calls[i]?.map fun c =>
      generateOnePacket c.pPacket (seqidAfter (countKey (calls.take i) c.flow)) := by
  induction calls using List.reverseRecOn with
  | nil => rfl
  | append_singleton calls c ih =>
    have hlen := length_generatePackets calls
    rw [generatePackets_append]
    dsimp only
    obtain hi | rfl | hi := lt_trichotomy i calls.length
    · rw [List.getElem?_append_left (hlen.symm ▸ hi), List.getElem?_append_left hi,
        List.take_append_of_le_length hi.le, ih]
    · rw [← hlen, List.getElem?_concat_length, hlen, List.getElem?_concat_length,
        List.take_left', seqid_getSeqidOfFlow (get_generatePackets calls c.flow)]
      · rfl
      · rfl
    · rw [List.getElem?_eq_none (by simp; omega), List.getElem?_eq_none (by simp; omega)]
      rfl

theorem seqid_generateOnePacket (pPacket : PacketS) (seqid : UInt32) :
    (generateOnePacket pPacket seqid).seqid = some seqid :=
  (Frame.headersAt_eq_some.1 (headersAt_generateOnePacket pPacket seqid)).2.2.2.2.2

/-- The sequence numbers of a flow increase if and only if, of any two of its packets, the later one
has more calls with its key before it, mod 2^31. -/
theorem seqids_increase_iff (calls : List PacketCall) :
    (∀ (i j : ℕ) (c d : PacketCall) (a b : Frame), i < j → calls[i]? = some c → calls[j]? = some d →
        c.pPacket.SameFlow d.pPacket → (generatePackets calls).2[i]? = some a →
        (generatePackets calls).2[j]? = some b →
        ∃ s s', a.seqid = some s ∧ b.seqid = some s' ∧ s < s')
      ↔ ∀ (i j : ℕ) (c d : PacketCall), i < j → calls[i]? = some c → calls[j]? = some d →
        c.pPacket.SameFlow d.pPacket →
        countKey (calls.take i) c.flow % 2 ^ 31 < countKey (calls.take j) d.flow % 2 ^ 31 := by
  have hframe : ∀ i c, calls[i]? = some c → (generatePackets calls).2[i]?
      = some (generateOnePacket c.pPacket (seqidAfter (countKey (calls.take i) c.flow))) :=
    fun i c hc => by rw [getElem?_generatePackets, hc, Option.map_some]
  refine forall₄_congr fun i j c d => ?_
  constructor
  · intro h hij hc hd hflow
    obtain ⟨s, s', hs, hs', hlt⟩ := h _ _ hij hc hd hflow (hframe i c hc) (hframe j d hd)
    rw [seqid_generateOnePacket, Option.some.injEq] at hs hs'
    subst hs hs'
    exact seqidAfter_lt.1 hlt
  · intro h a b hij hc hd hflow ha hb
    rw [hframe i c hc, Option.some.injEq] at ha
    rw [hframe j d hd, Option.some.injEq] at hb
    subst ha hb
    exact ⟨_, _, seqid_generateOnePacket _ _, seqid_generateOnePacket _ _,
      seqidAfter_lt.2 (h hij hc hd hflow)⟩

/-- As long as the stack holds the same at every call, and no source has sent 2^31 packets, the
later packet of a source has more calls with its key before it. -/
theorem countKey_lt_of_sameStack {calls : List PacketCall} {stack : FlowS}
    (hstack : ∀ c ∈ calls, c.stack = stack)
    (hcount : ∀ srcip, (calls.countP fun c => c.pPacket.srcip = srcip) ≤ 2 ^ 31)
    {i j : ℕ} {c d : PacketCall} (hij : i < j) (hc : calls[i]? = some c)
    (hd : calls[j]? = some d) (hsrc : c.pPacket.srcip = d.pPacket.srcip) :
    countKey (calls.take i) c.flow % 2 ^ 31 < countKey (calls.take j) d.flow % 2 ^ 31 := by
  have hflow : c.flow = d.flow := by
    rw [PacketCall.flow, PacketCall.flow, hstack c (List.mem_of_getElem? hc),
      hstack d (List.mem_of_getElem? hd), hsrc]
  have hlt : ∀ {k e}, calls[k]? = some e → countKey (calls.take k) e.flow
      < countKey (calls.take (k + 1)) e.flow := fun {k e} he => by
    rw [List.take_add_one, he, Option.toList_some, countKey_append, if_pos rfl]
    exact Nat.lt_succ_self _
  have hmono : ∀ {k l}, k ≤ l → countKey (calls.take k) d.flow
      ≤ countKey (calls.take l) d.flow := fun hkl =>
    (List.take_sublist_take_left hkl).countP_le
  have hall : countKey calls d.flow ≤ 2 ^ 31 := by
    refine le_trans (List.countP_mono_left fun e he h => ?_) (hcount d.pPacket.srcip)
    exact decide_eq_true (FlowS.rank_inj.1 (of_decide_eq_true h)).1
  have hi := hlt hc
  have hj := hlt hd
  have hle := hmono (show i + 1 ≤ j by omega)
  have hend := (List.take_sublist (j + 1) calls).countP_le (p := fun e =>
    decide (e.flow.rank = d.flow.rank))
  rw [hflow] at hi ⊢
  change countKey (calls.take (j + 1)) d.flow ≤ countKey calls d.flow at hend
  rw [Nat.mod_eq_of_lt (by omega), Nat.mod_eq_of_lt (by omega)]
  omega

/-- Two packets of one flow; the stack holds different ports. -/
theorem seqid_repeated :
    let packet : PacketS := ⟨0x0A000001, 0x0B000002, 80, 8080, 6, 10⟩
    (generatePackets [⟨packet, ⟨0, 0, 0, 0, 0⟩⟩, ⟨packet, ⟨0, 0, 1, 0, 0⟩⟩]).2.map Frame.seqid
      = [some 1, some 1] := by
  decide +kernel

end CMTestbed
