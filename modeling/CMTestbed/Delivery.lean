import CMTestbed.Ledger
import CMTestbed.Lib.System

/-!
# Packets and reports in flight

The sender records a packet in the ledger and then sends it.  The network drops what it likes, and
delivers the rest of one flow in order.  A delivered packet's seqid is reported back in order, and
handling the report looks it up in the ledger.

What is kept of a flow beside the ledger is indexed by `FlowS.rank`, so that 5-tuples which
`flow_compare` finds equal are one flow here too.
-/

namespace CMTestbed

/-- The total volume of some packets. -/
def totalVolume (pkts : List PktVolume) : ℕ := (pkts.map fun pkt => pkt.volume.toNat).sum

/-- What is kept of one flow. -/
structure Traffic where
  /-- Recorded and not yet sent. -/
  outbox : List PktVolume
  /-- Sent, and not yet dropped or delivered. -/
  net : List PktVolume
  /-- Delivered, the report not yet handled. -/
  reports : List PktVolume
  /-- All that was ever recorded, delivered or reported, and what the ledger took off as lost. -/
  recorded : List PktVolume
  delivered : List PktVolume
  reported : List PktVolume
  countedLost : List PktVolume
  /-- The sums of what `ht_vl_get_rece_lost_volume` has returned. -/
  receivedVolume : ℕ
  lostVolume : ℕ
  lostPktNum : ℕ

namespace Traffic

def init : Traffic := ⟨[], [], [], [], [], [], [], 0, 0, 0⟩

/-- The seqids of a flow increase, and its totals fit in 32 bits. -/
def CanRecord (d : Traffic) (pkt : PktVolume) : Prop :=
  (∀ p ∈ d.recorded, p.seqid < pkt.seqid)
    ∧ totalVolume d.recorded + pkt.volume.toNat < 2 ^ 32 ∧ d.recorded.length + 1 < 2 ^ 32

instance (d : Traffic) (pkt : PktVolume) : Decidable (d.CanRecord pkt) :=
  inferInstanceAs (Decidable (_ ∧ _ ∧ _))

/-- The packets that were not delivered and come before the last reported one. -/
def undelivered (d : Traffic) : List PktVolume :=
  d.recorded.filter fun pkt => decide (pkt ∉ d.delivered)
    && d.reported.getLast?.any fun last => decide (pkt.seqid < last.seqid)

end Traffic

structure Delivery where
  ledger : HtVl
  flows : ℕ → Traffic

namespace Delivery

def init : Delivery := ⟨htVlCreate, fun _ => .init⟩

inductive Event where
  | record (flow : FlowS) (seqid volume : UInt32)
  | send (flow : FlowS)
  | drop (flow : FlowS) (i : ℕ)
  | deliver (flow : FlowS)
  | report (flow : FlowS)

/-- The flow of an event. -/
def Event.flow : Event → FlowS
  | record flow _ _ | send flow | drop flow _ | deliver flow | report flow => flow

def setFlow (s : Delivery) (flow : FlowS) (d : Traffic) : Delivery :=
  { s with flows := Function.update s.flows flow.rank d }

/-- Handles the report of `pkt`. -/
def handle (s : Delivery) (flow : FlowS) (pkt : PktVolume) (rest : List PktVolume) : Delivery :=
  let d := s.flows flow.rank
  let (ledger, ans) := htVlGetReceLostVolume s.ledger flow pkt.seqid
  Delivery.setFlow { s with ledger := ledger } flow { d with
    reports := rest
    reported := d.reported ++ [pkt]
    countedLost := d.countedLost ++ lostPkts (s.ledger.queue flow) pkt.seqid
    receivedVolume := d.receivedVolume + ans.receivedVolume.toNat
    lostVolume := d.lostVolume + ans.lostVolume.toNat
    lostPktNum := d.lostPktNum + ans.lostPktNum.toNat }

def step (s : Delivery) : Event → Option Delivery
  | .record flow seqid volume =>
    let d := s.flows flow.rank
    if d.CanRecord ⟨seqid, volume⟩ then
      some (Delivery.setFlow { s with ledger := htVlSet s.ledger flow seqid volume } flow { d with
        outbox := d.outbox ++ [⟨seqid, volume⟩], recorded := d.recorded ++ [⟨seqid, volume⟩] })
    else none
  | .send flow =>
    let d := s.flows flow.rank
    match d.outbox with
    | pkt :: rest => some (s.setFlow flow { d with outbox := rest, net := d.net ++ [pkt] })
    | [] => none
  | .drop flow i =>
    let d := s.flows flow.rank
    some (s.setFlow flow { d with net := d.net.eraseIdx i })
  | .deliver flow =>
    let d := s.flows flow.rank
    match d.net with
    | pkt :: rest => some (s.setFlow flow { d with
        net := rest, reports := d.reports ++ [pkt], delivered := d.delivered ++ [pkt] })
    | [] => none
  | .report flow =>
    match (s.flows flow.rank).reports with
    | pkt :: rest => some (s.handle flow pkt rest)
    | [] => none

def system : Lib.System Delivery Event := ⟨step⟩

end Delivery

end CMTestbed
