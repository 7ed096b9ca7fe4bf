import CMTestbed.Delivery
import Mathlib.Data.List.Sublists

/-!
# Loss detection is exact

What was recorded of a flow is what reports have taken off its queue, followed by the queue.  The
packets still on their way, and their reports, are a sublist of the queue, and the part taken off
ends with the last reported packet.
-/

namespace CMTestbed

/-! ## A report and its queue -/

theorem totalVolume_append (l l' : List PktVolume) :
    totalVolume (l ++ l') = totalVolume l + totalVolume l' := by
  simp [totalVolume]

@[simp] theorem totalVolume_cons (pkt : PktVolume) (l : List PktVolume) :
    totalVolume (pkt :: l) = pkt.volume.toNat + totalVolume l := by
  simp [totalVolume]

@[simp] theorem totalVolume_nil : totalVolume [] = 0 := rfl

/-- The loop's sums do not overflow if the totals fit. -/
theorem foldl_lose : ∀ (l : List PktVolume) (ans : ReceVLostV),
    ans.lostVolume.toNat + totalVolume l < 2 ^ 32 → ans.lostPktNum.toNat + l.length < 2 ^ 32 →
      (l.foldl .lose ans).lostVolume.toNat = ans.lostVolume.toNat + totalVolume l
        ∧ (l.foldl .lose ans).lostPktNum.toNat = ans.lostPktNum.toNat + l.length
        ∧ (l.foldl .lose ans).receivedVolume = ans.receivedVolume
  | [], ans, _, _ => ⟨rfl, rfl, rfl⟩
  | pkt :: l, ans, hv, hn => by
    rw [totalVolume_cons] at hv
    rw [List.length_cons] at hn
    have hvol : (ans.lose pkt).lostVolume.toNat = ans.lostVolume.toNat + pkt.volume.toNat := by
      rw [ReceVLostV.lose, UInt32.toNat_add, Nat.mod_eq_of_lt (by omega)]
    have hnum : (ans.lose pkt).lostPktNum.toNat = ans.lostPktNum.toNat + 1 := by
      rw [ReceVLostV.lose, UInt32.toNat_add, UInt32.toNat_one, Nat.mod_eq_of_lt (by omega)]
    obtain ⟨h₁, h₂, h₃⟩ := foldl_lose l (ans.lose pkt) (by omega) (by omega)
    rw [List.foldl_cons, totalVolume_cons, List.length_cons]
    exact ⟨by omega, by omega, h₃⟩

/-- A report of a packet in the queue splits the queue at that packet. -/
theorem queue_split {q rest : List PktVolume} {pkt : PktVolume}
    (hq : q.Pairwise fun p p' => p.seqid < p'.seqid) (hsub : (pkt :: rest).Sublist q) :
    q = lostPkts q pkt.seqid ++ pkt :: leftPkts q pkt.seqid
      ∧ rest.Sublist (leftPkts q pkt.seqid)
      ∧ receLost q pkt.seqid
        = ReceVLostV.receive ((lostPkts q pkt.seqid).foldl .lose .zero) pkt := by
  obtain ⟨r₁, r₂, rfl, hmem, hrest⟩ := List.cons_sublist_iff.1 hsub
  obtain ⟨l₁, l₂, rfl⟩ := List.append_of_mem hmem
  rw [List.append_assoc, List.cons_append] at hq ⊢
  have hbefore : ∀ p ∈ l₁, decide (p.seqid < pkt.seqid) = true := fun p hp =>
    decide_eq_true ((List.pairwise_append.1 hq).2.2 p hp pkt List.mem_cons_self)
  have hlost : lostPkts (l₁ ++ pkt :: (l₂ ++ r₂)) pkt.seqid = l₁ := by
    rw [lostPkts, List.takeWhile_append_of_pos hbefore, List.takeWhile_cons_of_neg (by simp),
      List.append_nil]
  have hdrop : (l₁ ++ pkt :: (l₂ ++ r₂)).dropWhile (fun p => decide (p.seqid < pkt.seqid))
      = pkt :: (l₂ ++ r₂) := by
    rw [List.dropWhile_append_of_pos hbefore, List.dropWhile_cons_of_neg (by simp)]
  have hleft : leftPkts (l₁ ++ pkt :: (l₂ ++ r₂)) pkt.seqid = l₂ ++ r₂ := by
    simp only [leftPkts, hdrop, if_pos]
  refine ⟨by rw [hlost, hleft], ?_, ?_⟩
  · rw [hleft]
    exact hrest.trans (List.sublist_append_right _ _)
  · simp only [receLost, hdrop, if_pos]

/-! ## The invariant -/

/-- `handled` is what reports have taken off the flow's queue. -/
structure Traffic.Handled (d : Traffic) (queue handled : List PktVolume) : Prop where
  recorded : d.recorded = handled ++ queue
  increasing : d.recorded.Pairwise fun p p' => p.seqid < p'.seqid
  volume : totalVolume d.recorded < 2 ^ 32
  number : d.recorded.length < 2 ^ 32
  pending : (d.reports ++ d.net ++ d.outbox).Sublist queue
  delivered : d.delivered = d.reported ++ d.reports
  reported : ∀ pkt ∈ d.reported, pkt ∈ handled
  lost : d.countedLost = handled.filter fun pkt => decide (pkt ∉ d.delivered)
  last : handled.getLast? = d.reported.getLast?
  lostVolume : d.lostVolume = totalVolume d.countedLost
  lostPktNum : d.lostPktNum = d.countedLost.length
  receivedVolume : d.receivedVolume = totalVolume d.reported

namespace Traffic.Handled

variable {d : Traffic} {queue handled : List PktVolume}

theorem init : Traffic.init.Handled [] [] := by
  refine ⟨?_, ?_, ?_, ?_, ?_, ?_, ?_, ?_, ?_, ?_, ?_, ?_⟩ <;> simp [Traffic.init]

theorem queue_increasing (h : d.Handled queue handled) :
    queue.Pairwise fun p p' => p.seqid < p'.seqid := by
  have := h.increasing
  rw [h.recorded] at this
  exact (List.pairwise_append.1 this).2.1

/-- No packet is both in the queue and taken off it. -/
theorem notMem_handled (h : d.Handled queue handled) {pkt : PktVolume} (hq : pkt ∈ queue) :
    pkt ∉ handled := fun hh => by
  have := h.increasing
  rw [h.recorded] at this
  have hlt := (List.pairwise_append.1 this).2.2 pkt hh pkt hq
  simp at hlt

theorem record (h : d.Handled queue handled) {pkt : PktVolume} (hrec : d.CanRecord pkt) :
    Traffic.Handled { d with outbox := d.outbox ++ [pkt], recorded := d.recorded ++ [pkt] }
      (queue ++ [pkt]) handled where
  recorded := by rw [h.recorded, List.append_assoc]
  increasing := List.pairwise_append.2
    ⟨h.increasing, List.pairwise_singleton _ _, fun p hp p' hp' =>
    List.mem_singleton.1 hp' ▸ hrec.1 p hp⟩
  volume := by
    rw [totalVolume_append, totalVolume_cons, totalVolume_nil]
    exact hrec.2.1
  number := by
    rw [List.length_append, List.length_singleton]
    exact hrec.2.2
  pending := by
    rw [← List.append_assoc]
    exact h.pending.append (List.Sublist.refl _)
  delivered := h.delivered
  reported := h.reported
  lost := h.lost
  last := h.last
  lostVolume := h.lostVolume
  lostPktNum := h.lostPktNum
  receivedVolume := h.receivedVolume

/-- A step that only moves or drops packets on their way. -/
theorem move (h : d.Handled queue handled) {net outbox : List PktVolume}
    (hsub : (net ++ outbox).Sublist (d.net ++ d.outbox)) :
    Traffic.Handled { d with outbox := outbox, net := net } queue handled where
  recorded := h.recorded
  increasing := h.increasing
  volume := h.volume
  number := h.number
  pending := by
    have hp := h.pending
    rw [List.append_assoc] at hp ⊢
    exact ((List.Sublist.refl _).append hsub).trans hp
  delivered := h.delivered
  reported := h.reported
  lost := h.lost
  last := h.last
  lostVolume := h.lostVolume
  lostPktNum := h.lostPktNum
  receivedVolume := h.receivedVolume

theorem deliver (h : d.Handled queue handled) {pkt : PktVolume} {rest : List PktVolume}
    (hnet : d.net = pkt :: rest) : Traffic.Handled { d with
      net := rest, reports := d.reports ++ [pkt], delivered := d.delivered ++ [pkt] }
      queue handled where
  recorded := h.recorded
  increasing := h.increasing
  volume := h.volume
  number := h.number
  pending := by
    have hp := h.pending
    rw [hnet] at hp
    simpa using hp
  delivered := by rw [h.delivered, List.append_assoc]
  reported := h.reported
  lost := by
    -- the packet is still in the queue, so none of those taken off
    have hq : pkt ∈ queue := h.pending.subset (by simp [hnet])
    rw [h.lost]
    refine List.filter_congr fun p hp => ?_
    have hne : p ≠ pkt := fun he => h.notMem_handled hq (he ▸ hp)
    simp [hne]
  last := h.last
  lostVolume := h.lostVolume
  lostPktNum := h.lostPktNum
  receivedVolume := h.receivedVolume

/-- What the report of `pkt` takes off is found lost, up to the packet itself. -/
theorem report (h : d.Handled queue handled) {pkt : PktVolume} {rest : List PktVolume}
    (hrep : d.reports = pkt :: rest) : Traffic.Handled { d with
      reports := rest
      reported := d.reported ++ [pkt]
      countedLost := d.countedLost ++ lostPkts queue pkt.seqid
      receivedVolume := d.receivedVolume + (receLost queue pkt.seqid).receivedVolume.toNat
      lostVolume := d.lostVolume + (receLost queue pkt.seqid).lostVolume.toNat
      lostPktNum := d.lostPktNum + (receLost queue pkt.seqid).lostPktNum.toNat }
      (leftPkts queue pkt.seqid) (handled ++ lostPkts queue pkt.seqid ++ [pkt]) := by
  have hpend := h.pending
  rw [hrep, List.cons_append, List.cons_append] at hpend
  obtain ⟨hsplit, hsub, hans⟩ := queue_split h.queue_increasing hpend
  have hrec : d.recorded
      = (handled ++ lostPkts queue pkt.seqid ++ [pkt]) ++ leftPkts queue pkt.seqid := by
    rw [h.recorded]
    nth_rewrite 1 [hsplit]
    simp
  have hinc := h.increasing
  have hvol := h.volume
  have hnum := h.number
  rw [hrec] at hinc hvol hnum
  simp only [totalVolume_append, totalVolume_cons, totalVolume_nil, List.length_append,
    List.length_singleton] at hvol hnum
  have hzero : (0 : UInt32).toNat = 0 := rfl
  obtain ⟨hlv, hln, hrv⟩ := foldl_lose (lostPkts queue pkt.seqid) .zero
    (by simp only [ReceVLostV.zero, hzero]; omega) (by simp only [ReceVLostV.zero, hzero]; omega)
  simp only [ReceVLostV.zero, hzero, Nat.zero_add] at hlv hln hrv
  refine ⟨hrec, h.increasing, h.volume, h.number, hsub, ?_, ?_, ?_, ?_, ?_, ?_, ?_⟩
  · rw [h.delivered, hrep]
    simp
  · intro p hp
    rcases List.mem_append.1 hp with hp | hp
    · simp [h.reported p hp]
    · simp [List.mem_singleton.1 hp]
  · -- none of the packets before the reported one was delivered
    have hdel : ∀ p ∈ lostPkts queue pkt.seqid, p ∉ d.delivered := by
      intro p hp hpd
      simp only [List.append_assoc, List.pairwise_append, List.singleton_append,
        List.pairwise_cons] at hinc
      have hlt := hinc.2.1.2.2 p hp
      rw [h.delivered, hrep, List.mem_append, List.mem_cons] at hpd
      rcases hpd with hpd | rfl | hpd
      · exact h.notMem_handled (by rw [hsplit]; exact List.mem_append_left _ hp) (h.reported p hpd)
      · simpa using hlt p List.mem_cons_self
      · have hin := hsub.subset (List.mem_append_left _ (List.mem_append_left _ hpd))
        simpa using hlt p (List.mem_cons_of_mem _ hin)
    have hpkt : pkt ∈ d.delivered := by rw [h.delivered, hrep]; simp
    rw [List.filter_append, List.filter_append, h.lost,
      List.filter_eq_self.2 fun p hp => decide_eq_true (hdel p hp)]
    simp [hpkt]
  · simp
  · rw [h.lostVolume, hans, totalVolume_append]
    exact congrArg _ hlv
  · rw [h.lostPktNum, hans, List.length_append]
    exact congrArg _ hln
  · rw [h.receivedVolume, hans, totalVolume_append, totalVolume_cons, totalVolume_nil,
      ReceVLostV.receive, ReceVLostV.zero, hrv, UInt32.zero_add, Nat.add_zero]

/-- What was counted as lost is what was not delivered before the last reported packet. -/
theorem countedLost_eq (h : d.Handled queue handled) : d.countedLost = d.undelivered := by
  rw [h.lost, Traffic.undelivered, h.recorded, List.filter_append]
  rcases hlast : d.reported.getLast? with _ | last
  · have hnil : handled = [] := by
      have := h.last
      rwa [hlast, List.getLast?_eq_none_iff] at this
    simp [hnil]
  · have hhl := h.last
    rw [hlast, List.getLast?_eq_some_iff] at hhl
    obtain ⟨l, rfl⟩ := hhl
    have hinc := h.increasing
    rw [h.recorded, List.append_assoc, List.pairwise_append, List.pairwise_append] at hinc
    have hdel : last ∈ d.delivered := by
      rw [h.delivered]
      exact List.mem_append_left _ (List.mem_of_getLast? hlast)
    have hqueue : queue.filter (fun pkt => decide (pkt ∉ d.delivered)
        && (some last).any fun last => decide (pkt.seqid < last.seqid)) = [] := by
      refine List.filter_eq_nil_iff.2 fun p hp => ?_
      have hlt := hinc.2.1.2.2 last (List.mem_singleton_self _) p hp
      simp only [Option.any_some, Bool.and_eq_true, decide_eq_true_eq, not_and, UInt32.not_lt]
      exact fun _ => UInt32.le_of_lt hlt
    rw [hqueue, List.append_nil]
    refine List.filter_congr fun p hp => ?_
    by_cases hpd : p ∈ d.delivered
    · simp [hpd]
    · have hpl : p ∈ l := by
        rcases List.mem_append.1 hp with hp | hp
        · exact hp
        · exact absurd (List.mem_singleton.1 hp ▸ hdel) hpd
      have hlt := hinc.2.2 p hpl last (by simp)
      simp [hpd, hlt]

end Traffic.Handled

namespace Delivery

def Inv (s : Delivery) : Prop :=
  ∀ f, ∃ handled, (s.flows f.rank).Handled (s.ledger.queue f) handled

theorem inv_init : init.Inv := fun f => ⟨[], by rw [init, HtVl.queue_create]; exact .init⟩

/-- A step changes one flow's traffic and queue. -/
theorem Inv.setFlow {s s' : Delivery} (h : s.Inv) {flow : FlowS} {d : Traffic}
    {queue : List PktVolume} (hflows : s'.flows = Function.update s.flows flow.rank d)
    (hqueue : ∀ f, s'.ledger.queue f = if f.rank = flow.rank then queue else s.ledger.queue f)
    (hd : ∃ handled, d.Handled queue handled) : s'.Inv := by
  intro f
  rw [hflows, hqueue]
  split_ifs with hf
  · rwa [hf, Function.update_self]
  · rw [Function.update_of_ne hf]
    exact h f

/-- The queues after a step that leaves the ledger alone. -/
theorem queue_same {s : Delivery} (flow f : FlowS) : s.ledger.queue f
    = if f.rank = flow.rank then s.ledger.queue flow else s.ledger.queue f := by
  split_ifs with hf
  · exact s.ledger.queue_congr hf
  · rfl

theorem inv_step (s : Delivery) (e : Event) (s' : Delivery) (h : s.Inv)
    (hs : system.step s e = some s') : s'.Inv := by
  obtain ⟨handled, hd⟩ := h e.flow
  cases e with
  | record flow seqid volume =>
    simp only [system, step] at hs
    split_ifs at hs with hrec
    cases hs
    exact h.setFlow rfl (fun f => s.ledger.queue_set flow f seqid volume)
      ⟨handled, hd.record hrec⟩
  | send flow =>
    simp only [system, step] at hs
    split at hs
    · next pkt rest hout =>
      cases hs
      refine h.setFlow rfl (queue_same flow) ⟨handled, hd.move ?_⟩
      simp only [Event.flow] at hd ⊢
      rw [hout, List.append_assoc, List.singleton_append]
    · cases hs
  | drop flow i =>
    cases hs
    exact h.setFlow rfl (queue_same flow) ⟨handled, hd.move
      ((List.eraseIdx_sublist _ i).append (List.Sublist.refl _))⟩
  | deliver flow =>
    simp only [system, step] at hs
    split at hs
    · next pkt rest hnet =>
      cases hs
      exact h.setFlow rfl (queue_same flow) ⟨handled, hd.deliver hnet⟩
    · cases hs
  | report flow =>
    simp only [system, step] at hs
    split at hs
    · next pkt rest hrep =>
      cases hs
      have hd' := hd.report hrep
      simp only [Event.flow, ← HtVl.getReceLostVolume_snd] at hd'
      exact h.setFlow rfl (fun f => s.ledger.queue_getReceLostVolume flow f pkt.seqid) ⟨_, hd'⟩
    · cases hs

/-- Loss detection is exact: in every reachable state and for every flow, the losses returned so far
are those of the undelivered packets before the last reported one, the volumes received those of
the reported packets, and nothing delivered is counted as lost. -/
theorem loss_detection_exact (es : List Event) (s : Delivery)
    (hrun : system.run init es = some s) (f : FlowS) :
    (s.flows f.rank).lostVolume = totalVolume (s.flows f.rank).undelivered
      ∧ (s.flows f.rank).lostPktNum = (s.flows f.rank).undelivered.length
      ∧ (s.flows f.rank).receivedVolume = totalVolume (s.flows f.rank).reported
      ∧ ∀ pkt ∈ (s.flows f.rank).delivered, pkt ∉ (s.flows f.rank).countedLost := by
  obtain ⟨handled, h⟩ := Lib.System.run_inv inv_step inv_init hrun f
  refine ⟨?_, ?_, h.receivedVolume, fun pkt hdel hlost => ?_⟩
  · rw [h.lostVolume, h.countedLost_eq]
  · rw [h.lostPktNum, h.countedLost_eq]
  · rw [h.lost] at hlost
    simp [hdel] at hlost

/-- Two flows; of the first, the second of three packets is dropped and the others are reported. -/
def exampleRun : List Event :=
  let f : FlowS := ⟨1, 2, 3, 4, 6⟩
  let g : FlowS := ⟨1, 2, 3, 5, 6⟩
  [.record f 10 100, .record g 7 40, .send f, .record f 11 60, .send g, .deliver f, .send f,
    .drop f 0, .record f 20 80, .send f, .report f, .deliver f, .report f]

theorem loss_detection_example : ∃ s, system.run init exampleRun = some s
    ∧ (s.flows (FlowS.rank ⟨1, 2, 3, 4, 6⟩)).lostVolume = 60 := by
  obtain ⟨s, hs⟩ : ∃ s, system.run init exampleRun = some s :=
    Option.isSome_iff_exists.1 (by decide +kernel)
  refine ⟨s, hs, ?_⟩
  rw [(loss_detection_exact exampleRun s hs ⟨1, 2, 3, 4, 6⟩).1]
  have hlost : (system.run init exampleRun).map (fun s =>
      totalVolume (s.flows (FlowS.rank ⟨1, 2, 3, 4, 6⟩)).undelivered) = some 60 := by
    decide +kernel
  rw [hs] at hlost
  simpa using hlost

end Delivery

end CMTestbed
