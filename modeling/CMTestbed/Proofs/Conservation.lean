import CMTestbed.Ledger
import Mathlib.Algebra.BigOperators.Group.List.Basic
import Mathlib.Algebra.Order.Group.Multiset
import Mathlib.Data.List.Induction
import Mathlib.Data.UInt

/-!
# Ledger conservation

A report splits its flow's queue into what it counts as lost, what it counts as received and what
it leaves, in this order, whatever the seqids.  So over any calls the packets recorded of a flow
are those taken off, each counted once, followed by the queue.
-/

namespace CMTestbed

/-- A call on the ledger. -/
inductive HtVlCall where
  | set (key : FlowS) (seqid volume : UInt32)
  | getReceLostVolume (key : FlowS) (seqid : UInt32)

/-- The packets that a report of `seqid` finds received. -/
def receivedPkts (queue : List PktVolume) (seqid : UInt32) : List PktVolume :=
  match queue.dropWhile fun pkt => decide (pkt.seqid < seqid) with
  | pkt :: _ => if pkt.seqid = seqid then [pkt] else []
  | [] => []

/-- What a report answers that counts these packets, each once. -/
def tally (lost received : List PktVolume) : ReceVLostV where
  receivedVolume := (received.map PktVolume.volume).sum
  lostVolume := (lost.map PktVolume.volume).sum
  lostPktNum := UInt32.ofNat lost.length

namespace HtVlCall

def key : HtVlCall → FlowS
  | set key _ _ | getReceLostVolume key _ => key

/-- The packet that the call records of `f`. -/
def recorded (f : FlowS) : HtVlCall → List PktVolume
  | set key seqid volume => if f.rank = key.rank then [⟨seqid, volume⟩] else []
  | getReceLostVolume _ _ => []

/-- The packets of `f` that the call counts as lost. -/
def lost (f : FlowS) (hashtable : HtVl) : HtVlCall → List PktVolume
  | set _ _ _ => []
  | getReceLostVolume key seqid =>
    if f.rank = key.rank then lostPkts (hashtable.queue f) seqid else []

/-- The packets of `f` that the call counts as received. -/
def received (f : FlowS) (hashtable : HtVl) : HtVlCall → List PktVolume
  | set _ _ _ => []
  | getReceLostVolume key seqid =>
    if f.rank = key.rank then receivedPkts (hashtable.queue f) seqid else []

end HtVlCall

namespace HtVl

def apply (hashtable : HtVl) : HtVlCall → HtVl
  | .set key seqid volume => htVlSet hashtable key seqid volume
  | .getReceLostVolume key seqid => (htVlGetReceLostVolume hashtable key seqid).1

def run (hashtable : HtVl) (calls : List HtVlCall) : HtVl := calls.foldl apply hashtable

/-- All that the calls count as lost of `f`. -/
def countedLost (f : FlowS) : HtVl → List HtVlCall → List PktVolume
  | _, [] => []
  | hashtable, c :: cs => c.lost f hashtable ++ countedLost f (hashtable.apply c) cs

/-- All that the calls count as received of `f`. -/
def countedReceived (f : FlowS) : HtVl → List HtVlCall → List PktVolume
  | _, [] => []
  | hashtable, c :: cs => c.received f hashtable ++ countedReceived f (hashtable.apply c) cs

end HtVl

/-- The ledger conserves the packets of `f`: what `calls` recorded of it is still queued, in its
order, or was counted once, and the end pointers are those of the queue.  And what a further call
does. -/
structure Conserved (calls : List HtVlCall) (f : FlowS) : Prop where
  packets : (calls.flatMap (HtVlCall.recorded f) : Multiset PktVolume)
    = (htVlCreate.run calls).queue f + htVlCreate.countedLost f calls
      + htVlCreate.countedReceived f calls
  ordered : (htVlCreate.run calls).queue f <:+ calls.flatMap (HtVlCall.recorded f)
  ends : ∀ p, (htVlCreate.run calls).raw.entries.get f = some p →
    (p.oldestPkt = none ↔ p.newestPkt = none) ∧ ∀ a, p.newestPkt = some a →
      ∃ l pkt, (htVlCreate.run calls).raw.pkts.Seg p.oldestPkt (l ++ [(a, pkt)]) none
  answers : ∀ seqid, (htVlGetReceLostVolume (htVlCreate.run calls) f seqid).2
    = tally (lostPkts ((htVlCreate.run calls).queue f) seqid)
      (receivedPkts ((htVlCreate.run calls).queue f) seqid)
  others : ∀ c : HtVlCall, f.rank ≠ c.key.rank →
    ((htVlCreate.run calls).apply c).queue f = (htVlCreate.run calls).queue f
  nothing : ∀ seqid, (∀ pkt, ((htVlCreate.run calls).queue f).head? = some pkt →
      seqid < pkt.seqid) →
    htVlGetReceLostVolume (htVlCreate.run calls) f seqid = (htVlCreate.run calls, .zero)

/-! ## One report -/

theorem queue_parts (queue : List PktVolume) (seqid : UInt32) :
    queue = lostPkts queue seqid ++ receivedPkts queue seqid ++ leftPkts queue seqid := by
  have hsplit := List.takeWhile_append_dropWhile (p := fun pkt => decide (pkt.seqid < seqid))
    (l := queue)
  rcases hdrop : queue.dropWhile fun pkt => decide (pkt.seqid < seqid) with _ | ⟨pkt, rest⟩
  · simp only [lostPkts, receivedPkts, leftPkts, hdrop]
    rw [hdrop] at hsplit
    simpa using hsplit.symm
  · simp only [lostPkts, receivedPkts, leftPkts, hdrop]
    rw [hdrop] at hsplit
    split_ifs <;> simpa using hsplit.symm

theorem foldl_lose_eq (l : List PktVolume) (ans : ReceVLostV) : l.foldl .lose ans
    = { ans with
        lostVolume := ans.lostVolume + (l.map PktVolume.volume).sum
        lostPktNum := ans.lostPktNum + UInt32.ofNat l.length } := by
  induction l generalizing ans with
  | nil => simp
  | cons pkt l ih =>
    rw [List.foldl_cons, ih]
    simp only [ReceVLostV.lose, List.map_cons, List.sum_cons, List.length_cons, UInt32.ofNat_add,
      UInt32.add_assoc]
    rw [UInt32.add_comm (UInt32.ofNat l.length)]
    rfl

theorem receLost_eq_tally (queue : List PktVolume) (seqid : UInt32) :
    receLost queue seqid = tally (lostPkts queue seqid) (receivedPkts queue seqid) := by
  rcases hdrop : queue.dropWhile fun pkt => decide (pkt.seqid < seqid) with _ | ⟨pkt, rest⟩
  · simp only [receLost, tally, receivedPkts, hdrop, foldl_lose_eq]
    simp [ReceVLostV.zero]
  · simp only [receLost, tally, receivedPkts, hdrop, foldl_lose_eq]
    split_ifs <;> simp [ReceVLostV.zero, ReceVLostV.receive]

/-- A report of a seqid below all that is queued finds nothing and changes nothing. -/
theorem HtVlRaw.getReceLostVolume_eq_self {t : HtVlRaw} (ht : t.WF) {f : FlowS} {seqid : UInt32}
    (h : ∀ e, (t.cells f).head? = some e → seqid < e.2.seqid) :
    t.getReceLostVolume f seqid = (t, .zero) := by
  rcases hp : t.entries.get f with _ | p
  · simp only [getReceLostVolume, hp]
  have hseg := ht.rep.seg f p hp
  have hnewest := ht.rep.newest f p hp
  have hset : t.entries.set f p = t.entries := Lib.Table.set_eq_self hp
  rcases hcells : t.cells f with _ | ⟨⟨a, pkt⟩, l⟩
  · -- the flow is known, its queue empty
    rw [hcells] at hseg hnewest
    have hold : p.oldestPkt = none := hseg
    have hloop : lostLoop seqid t.pkts.brk t.pkts none .zero = (t.pkts, none, .zero) := by
      cases t.pkts.brk <;> rfl
    have hp' : p = ⟨none, none⟩ := by
      obtain ⟨oldestPkt, newestPkt⟩ := p
      simp_all
    simp only [getReceLostVolume, hp, hold, hloop, receivePkt, if_pos]
    rw [← hp', hset]
  · rw [hcells] at hseg
    obtain ⟨hold, n, hc, -⟩ := hseg
    have hlt : seqid < pkt.seqid := h (a, pkt) (by rw [hcells]; rfl)
    have hnot : ¬ pkt.seqid < seqid := fun hlt' => absurd (UInt32.lt_trans hlt hlt')
      (UInt32.lt_irrefl _)
    have hne : ¬ pkt.seqid = seqid := fun he => absurd (he ▸ hlt) (UInt32.lt_irrefl _)
    have hloop : lostLoop seqid t.pkts.brk t.pkts (some a) .zero = (t.pkts, some a, .zero) := by
      cases t.pkts.brk <;> simp only [lostLoop, hc, if_neg hnot]
    simp only [getReceLostVolume, hp, hold, hloop, receivePkt, hc, if_neg hne, reduceCtorEq,
      if_false]
    rw [← hold, hset]

/-! ## Runs -/

namespace HtVl

theorem run_concat (hashtable : HtVl) (calls : List HtVlCall) (c : HtVlCall) :
    hashtable.run (calls ++ [c]) = (hashtable.run calls).apply c := by
  rw [run, List.foldl_append, List.foldl_cons, List.foldl_nil, run]

theorem countedLost_concat (f : FlowS) (calls : List HtVlCall) (c : HtVlCall) :
    ∀ hashtable : HtVl, hashtable.countedLost f (calls ++ [c])
      = hashtable.countedLost f calls ++ c.lost f (hashtable.run calls) := by
  induction calls with
  | nil => intro hashtable; simp [countedLost, run]
  | cons c' calls ih =>
    intro hashtable
    rw [List.cons_append, countedLost, ih, countedLost, List.append_assoc]
    rfl

theorem countedReceived_concat (f : FlowS) (calls : List HtVlCall) (c : HtVlCall) :
    ∀ hashtable : HtVl, hashtable.countedReceived f (calls ++ [c])
      = hashtable.countedReceived f calls ++ c.received f (hashtable.run calls) := by
  induction calls with
  | nil => intro hashtable; simp [countedReceived, run]
  | cons c' calls ih =>
    intro hashtable
    rw [List.cons_append, countedReceived, ih, countedReceived, List.append_assoc]
    rfl

/-- One call: the queue and what is recorded are what is taken off and the new queue. -/
theorem queue_apply (hashtable : HtVl) (f : FlowS) (c : HtVlCall) :
    hashtable.queue f ++ c.recorded f
      = c.lost f hashtable ++ c.received f hashtable ++ (hashtable.apply c).queue f := by
  cases c with
  | set key seqid volume =>
    simp only [HtVlCall.recorded, HtVlCall.lost, HtVlCall.received, apply, queue_set]
    split_ifs with hf
    · rw [hashtable.queue_congr hf]
      rfl
    · simp
  | getReceLostVolume key seqid =>
    simp only [HtVlCall.recorded, HtVlCall.lost, HtVlCall.received, apply,
      queue_getReceLostVolume, List.append_nil]
    split_ifs with hf
    · rw [hashtable.queue_congr hf]
      exact queue_parts _ _
    · simp

/-- Over a run, what was taken off comes first and then the queue. -/
theorem recorded_run (calls : List HtVlCall) (f : FlowS) : ∃ taken : List PktVolume,
    calls.flatMap (HtVlCall.recorded f) = taken ++ (htVlCreate.run calls).queue f
      ∧ (taken : Multiset PktVolume)
        = htVlCreate.countedLost f calls + htVlCreate.countedReceived f calls := by
  induction calls using List.reverseRecOn with
  | nil => exact ⟨[], by simp [run], rfl⟩
  | append_singleton calls c ih =>
    obtain ⟨taken, hrecorded, htaken⟩ := ih
    have hstep := (htVlCreate.run calls).queue_apply f c
    refine ⟨taken ++ (c.lost f (htVlCreate.run calls) ++ c.received f (htVlCreate.run calls)),
      ?_, ?_⟩
    · rw [List.flatMap_append, hrecorded, List.append_assoc, List.flatMap_singleton, hstep,
        run_concat]
      simp only [List.append_assoc]
    · rw [countedLost_concat, countedReceived_concat]
      simp only [← Multiset.coe_add, htaken]
      exact add_add_add_comm _ _ _ _

theorem queue_apply_of_ne (hashtable : HtVl) {f : FlowS} {c : HtVlCall} (h : f.rank ≠ c.key.rank) :
    (hashtable.apply c).queue f = hashtable.queue f := by
  cases c with
  | set key seqid volume => exact (queue_set ..).trans (if_neg h)
  | getReceLostVolume key seqid => exact (queue_getReceLostVolume ..).trans (if_neg h)

theorem ends_of_wf (hashtable : HtVl) {f : FlowS} {p : PktList}
    (hp : hashtable.raw.entries.get f = some p) :
    (p.oldestPkt = none ↔ p.newestPkt = none) ∧ ∀ a, p.newestPkt = some a →
      ∃ l pkt, hashtable.raw.pkts.Seg p.oldestPkt (l ++ [(a, pkt)]) none := by
  have hseg := hashtable.wf.rep.seg f p hp
  have hnewest := hashtable.wf.rep.newest f p hp
  rcases List.eq_nil_or_concat' (hashtable.raw.cells f) with hnil | ⟨l, ⟨a, pkt⟩, hl⟩
  · rw [hnil] at hseg hnewest
    have hold : p.oldestPkt = none := hseg
    refine ⟨by simp [hold, hnewest], fun a ha => ?_⟩
    rw [hnewest] at ha
    cases ha
  · rw [hl] at hseg hnewest
    have hnew : p.newestPkt = some a := by simpa using hnewest
    refine ⟨⟨fun hold => ?_, fun h => ?_⟩, fun a' ha' => ?_⟩
    · have hnil : l ++ [(a, pkt)] = [] :=
        hseg.det (show hashtable.raw.pkts.Seg p.oldestPkt [] none from hold)
      simp at hnil
    · rw [hnew] at h
      cases h
    · rw [hnew] at ha'
      cases ha'
      exact ⟨l, pkt, hseg⟩

theorem getReceLostVolume_eq_self (hashtable : HtVl) {f : FlowS} {seqid : UInt32}
    (h : ∀ pkt, (hashtable.queue f).head? = some pkt → seqid < pkt.seqid) :
    htVlGetReceLostVolume hashtable f seqid = (hashtable, .zero) := by
  have hraw := HtVlRaw.getReceLostVolume_eq_self hashtable.wf (f := f) fun e he => by
    refine h e.2 ?_
    rw [queue, List.head?_map, he]
    rfl
  unfold htVlGetReceLostVolume
  simp only [hraw]

end HtVl

/-- Ledger conservation: whatever is called on the ledger, with whatever seqids, no packet is lost
from it or counted twice. -/
theorem ledger_conservation (calls : List HtVlCall) (f : FlowS) : Conserved calls f := by
  obtain ⟨taken, hrecorded, htaken⟩ := HtVl.recorded_run calls f
  refine ⟨?_, ?_, fun p => HtVl.ends_of_wf _, fun seqid => ?_, fun c => HtVl.queue_apply_of_ne _,
    fun seqid => HtVl.getReceLostVolume_eq_self _⟩
  · rw [hrecorded, ← Multiset.coe_add, htaken, add_comm, add_assoc]
  · rw [hrecorded]
    exact List.suffix_append _ _
  · rw [HtVl.getReceLostVolume_snd, receLost_eq_tally]

end CMTestbed
