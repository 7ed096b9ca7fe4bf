import CMTestbed.Tables

/-!
# The ledger of sent packets

`HtVlRaw` is `hashtable_vl_t`: a chained table of 5-tuples, each with pointers to the oldest and
the newest cell of a linked queue of its packets.  A packet is appended when it is sent.  A report
of a received packet takes the packets before it off the queue as lost, and then the packet itself.

`HtVl` is a ledger whose queues are well formed.  To its users it is one queue of packets per flow
(`HtVl.queue`), where flows that `flow_compare` finds equal share theirs.
-/

namespace CMTestbed

open Lib (Heap)

/-- `pkt_volume_t`, its link left out. -/
structure PktVolume where
  seqid : UInt32
  volume : UInt32
  deriving DecidableEq, Repr

/-- What an `entry_vl_t` holds beside its key. -/
structure PktList where
  oldestPkt : Option ℕ
  newestPkt : Option ℕ

structure ReceVLostV where
  receivedVolume : UInt32
  lostVolume : UInt32
  lostPktNum : UInt32
  deriving DecidableEq, Repr

namespace ReceVLostV

def zero : ReceVLostV := ⟨0, 0, 0⟩

/-- A packet before the reported one. -/
def lose (ans : ReceVLostV) (pkt : PktVolume) : ReceVLostV :=
  { ans with lostVolume := ans.lostVolume + pkt.volume, lostPktNum := ans.lostPktNum + 1 }

/-- The reported packet. -/
def receive (ans : ReceVLostV) (pkt : PktVolume) : ReceVLostV :=
  { ans with receivedVolume := ans.receivedVolume + pkt.volume }

@[simp] theorem lostVolume_receive (ans : ReceVLostV) (pkt : PktVolume) :
    (ans.receive pkt).lostVolume = ans.lostVolume := rfl

end ReceVLostV

structure HtVlRaw where
  entries : Lib.Table flowKeying PktList
  pkts : Heap PktVolume

namespace HtVlRaw

def create : HtVlRaw := ⟨Lib.Table.create, Heap.empty⟩

def set (hashtable : HtVlRaw) (key : FlowS) (seqid volume : UInt32) : HtVlRaw :=
  let pktVolume := some hashtable.pkts.brk
  let pkts := hashtable.pkts.alloc ⟨⟨seqid, volume⟩, none⟩
  match hashtable.entries.get key with
  | some next =>
    if next.oldestPkt = none then
      { entries := hashtable.entries.set key ⟨pktVolume, pktVolume⟩, pkts := pkts }
    else
      { entries := hashtable.entries.set key { next with newestPkt := pktVolume }
        pkts := pkts.setNext next.newestPkt pktVolume }
  | none => { entries := hashtable.entries.set key ⟨pktVolume, pktVolume⟩, pkts := pkts }

/-- The loop over the packets before `seqid`. -/
def lostLoop (seqid : UInt32) :
    ℕ → Heap PktVolume → Option ℕ → ReceVLostV → Heap PktVolume × Option ℕ × ReceVLostV
  | 0, pkts, iterator, ans => (pkts, iterator, ans)
  | _ + 1, pkts, none, ans => (pkts, none, ans)
  | fuel + 1, pkts, some temp, ans =>
    match pkts.cell temp with
    | some pkt =>
      if pkt.data.seqid < seqid then
        lostLoop seqid fuel (pkts.free temp) pkt.next (ans.lose pkt.data)
      else (pkts, some temp, ans)
    | none => (pkts, some temp, ans)

/-- Takes the reported packet off, if it is the next one. -/
def receivePkt (seqid : UInt32) (pkts : Heap PktVolume) (iterator : Option ℕ) (ans : ReceVLostV) :
    Heap PktVolume × Option ℕ × ReceVLostV :=
  match iterator with
  | none => (pkts, none, ans)
  | some temp =>
    match pkts.cell temp with
    | some pkt =>
      if pkt.data.seqid = seqid then (pkts.free temp, pkt.next, ans.receive pkt.data)
      else (pkts, some temp, ans)
    | none => (pkts, some temp, ans)

def getReceLostVolume (hashtable : HtVlRaw) (key : FlowS) (seqid : UInt32) :
    HtVlRaw × ReceVLostV :=
  match hashtable.entries.get key with
  | none => (hashtable, .zero)
  | some pair =>
    let (pkts, iterator, ans) :=
      lostLoop seqid hashtable.pkts.brk hashtable.pkts pair.oldestPkt .zero
    let (pkts, iterator, ans) := receivePkt seqid pkts iterator ans
    ({ entries := hashtable.entries.set key
        ⟨iterator, if iterator = none then none else pair.newestPkt⟩
       pkts := pkts }, ans)

/-- The cells of a flow's queue. -/
def cells (hashtable : HtVlRaw) (f : FlowS) : List (ℕ × PktVolume) :=
  match hashtable.entries.get f with
  | some pair => hashtable.pkts.follow hashtable.pkts.brk pair.oldestPkt
  | none => []

end HtVlRaw

/-! ## Queues -/

/-- The packets that a report of `seqid` finds lost. -/
def lostPkts (queue : List PktVolume) (seqid : UInt32) : List PktVolume :=
  queue.takeWhile fun pkt => decide (pkt.seqid < seqid)

/-- What a report of `seqid` leaves of a queue. -/
def leftPkts (queue : List PktVolume) (seqid : UInt32) : List PktVolume :=
  match queue.dropWhile fun pkt => decide (pkt.seqid < seqid) with
  | pkt :: rest => if pkt.seqid = seqid then rest else pkt :: rest
  | [] => []

/-- What a report of `seqid` finds in a queue. -/
def receLost (queue : List PktVolume) (seqid : UInt32) : ReceVLostV :=
  let ans := (lostPkts queue seqid).foldl .lose .zero
  match queue.dropWhile fun pkt => decide (pkt.seqid < seqid) with
  | pkt :: _ => if pkt.seqid = seqid then ans.receive pkt else ans
  | [] => ans

/-- The queues of `t` are the lists `Q`: each entry points to the first and the last cell of its
flow's queue, and no cell is in the queues of two flows. -/
structure LedgerRep (t : HtVlRaw) (Q : FlowS → List (ℕ × PktVolume)) : Prop where
  seg : ∀ f p, t.entries.get f = some p → t.pkts.Seg p.oldestPkt (Q f) none
  newest : ∀ f p, t.entries.get f = some p → p.newestPkt = (Q f).getLast?.map Prod.fst
  absent : ∀ f, t.entries.get f = none → Q f = []
  apart : ∀ f g, ∀ e ∈ Q f, ∀ e' ∈ Q g, e.1 = e'.1 → f.rank = g.rank

namespace LedgerRep

variable {t : HtVlRaw} {Q : FlowS → List (ℕ × PktVolume)}

theorem create : LedgerRep HtVlRaw.create fun _ => [] where
  seg := fun f p h => by
    rw [HtVlRaw.create, Lib.Table.get_create] at h
    cases h
  newest := fun f p h => by
    rw [HtVlRaw.create, Lib.Table.get_create] at h
    cases h
  absent := fun _ _ => rfl
  apart := fun _ _ _ he => absurd he List.not_mem_nil

theorem cells_eq (hr : LedgerRep t Q) (f : FlowS) : t.cells f = Q f := by
  unfold HtVlRaw.cells
  split
  · next p hp => exact (hr.seg f p hp).follow (hr.seg f p hp).length_le
  · next hp => exact (hr.absent f hp).symm

theorem lt_brk (hr : LedgerRep t Q) {f : FlowS} {e : ℕ × PktVolume} (he : e ∈ Q f) :
    e.1 < t.pkts.brk := by
  rcases hp : t.entries.get f with _ | p
  · rw [hr.absent f hp] at he
    cases he
  · exact (hr.seg f p hp).lt_brk he

/-- A change of one flow's entry and queue that leaves the cells of the other flows alone. -/
theorem update (hr : LedgerRep t Q) {t' : HtVlRaw} {key : FlowS} {p' : PktList}
    {l' : List (ℕ × PktVolume)} (hentries : t'.entries = t.entries.set key p')
    (hcell : ∀ f, f.rank ≠ key.rank → ∀ e ∈ Q f, t'.pkts.cell e.1 = t.pkts.cell e.1)
    (hseg : t'.pkts.Seg p'.oldestPkt l' none) (hnewest : p'.newestPkt = l'.getLast?.map Prod.fst)
    (hapart : ∀ f, f.rank ≠ key.rank → ∀ e ∈ Q f, ∀ e' ∈ l', e.1 ≠ e'.1) :
    LedgerRep t' fun f => if f.rank = key.rank then l' else Q f := by
  have hget : ∀ f, t'.entries.get f = if f.rank = key.rank then some p' else t.entries.get f :=
    fun f => by
      rw [hentries]
      exact t.entries.get_set key f p'
  refine ⟨fun f p h => ?_, fun f p h => ?_, fun f h => ?_, fun f g e he e' he' h => ?_⟩
  · rw [hget] at h
    split_ifs at h ⊢ with hf
    · cases h
      exact hseg
    · exact (hr.seg f p h).frame (hcell f hf)
  · rw [hget] at h
    split_ifs at h ⊢ with hf
    · cases h
      exact hnewest
    · exact hr.newest f p h
  · rw [hget] at h
    split_ifs at h ⊢ with hf
    exact hr.absent f h
  · split_ifs at he he' with hf hg hg
    · exact hf.trans hg.symm
    · exact absurd h.symm (hapart g hg e' he' e he)
    · exact absurd h (hapart f hf e he e' he')
    · exact hr.apart f g e he e' he' h

/-- Recording a packet appends it to its flow's queue, whether the flow is new, known with an empty
queue, or has packets. -/
theorem set (hr : LedgerRep t Q) (key : FlowS) (seqid volume : UInt32) :
    LedgerRep (t.set key seqid volume) fun f => if f.rank = key.rank then
      Q key ++ [(t.pkts.brk, ⟨seqid, volume⟩)] else Q f := by
  have hfresh : ∀ f, ∀ e ∈ Q f, e.1 ≠ t.pkts.brk := fun f e he => (hr.lt_brk he).ne
  have halloc : ∀ f, ∀ e ∈ Q f, (t.pkts.alloc ⟨⟨seqid, volume⟩, none⟩).cell e.1
      = t.pkts.cell e.1 := fun f e he => t.pkts.cell_alloc_of_lt _ (hr.lt_brk he)
  have hone : (t.pkts.alloc ⟨⟨seqid, volume⟩, none⟩).Seg (some t.pkts.brk)
      [(t.pkts.brk, ⟨seqid, volume⟩)] none := Heap.Seg.cons (t.pkts.cell_alloc_self _) rfl
  have happart : ∀ f, f.rank ≠ key.rank → ∀ e ∈ Q f,
      ∀ e' ∈ Q key ++ [(t.pkts.brk, ⟨seqid, volume⟩)], e.1 ≠ e'.1 := by
    intro f hf e he e' he' h
    rcases List.mem_append.1 he' with he' | he'
    · exact hf (hr.apart f key e he e' he' h)
    · rw [List.mem_singleton] at he'
      subst he'
      exact hfresh f e he h
  unfold HtVlRaw.set
  dsimp only
  split
  · next p hp =>
    have hseg := hr.seg key p hp
    have hnewest := hr.newest key p hp
    split_ifs with hold
    · -- the queue is empty
      have hnil : Q key = [] := hseg.det hold
      rw [hnil, List.nil_append] at happart ⊢
      exact hr.update rfl (fun f _ => halloc f) hone rfl happart
    · rcases List.eq_nil_or_concat' (Q key) with hnil | ⟨l, ⟨c, y⟩, hl⟩
      · rw [hnil] at hseg
        exact absurd hseg hold
      rw [hl] at hseg
      have hnew : p.newestPkt = some c := by rw [hnewest, hl]; simp
      have hc : (c, y) ∈ Q key := by rw [hl]; simp
      refine hr.update rfl (fun f hf e he => ?_) ?_ (by simp) happart
      · rw [hnew, Heap.cell_setNext_of_ne, halloc f e he]
        exact fun h => hf (hr.apart f key e he (c, y) hc (Option.some.inj h))
      · rw [hnew, hl]
        exact Heap.Seg.link_last hseg _
  · next hp =>
    rw [hr.absent key hp, List.nil_append] at happart ⊢
    exact hr.update rfl (fun f _ => halloc f) hone rfl happart

end LedgerRep

/-! ## Taking packets off -/

/-- The loop takes the packets before `seqid` off the queue and frees nothing else. -/
theorem lostLoop_spec {seqid : UInt32} : ∀ {l₁ l₂ : List (ℕ × PktVolume)} {fuel : ℕ}
    {pkts : Heap PktVolume} {p : Option ℕ}, pkts.Seg p (l₁ ++ l₂) none →
      (∀ e ∈ l₁, e.2.seqid < seqid) → (∀ e, l₂.head? = some e → ¬ e.2.seqid < seqid) →
      l₁.length ≤ fuel → ∀ ans, ∃ pkts', HtVlRaw.lostLoop seqid fuel pkts p ans
          = (pkts', l₂.head?.map Prod.fst, (l₁.map Prod.snd).foldl .lose ans)
        ∧ pkts'.Seg (l₂.head?.map Prod.fst) l₂ none
        ∧ ∀ b, b ∉ l₁.map Prod.fst → pkts'.cell b = pkts.cell b
  | [], l₂, fuel, pkts, p, hs, _, h₂, _, ans => by
    have hp : p = l₂.head?.map Prod.fst := by simpa using hs.head
    refine ⟨pkts, ?_, hp ▸ hs, fun _ _ => rfl⟩
    rcases fuel with _ | fuel
    · rw [HtVlRaw.lostLoop, hp, List.map_nil, List.foldl_nil]
    rcases l₂ with _ | ⟨⟨a, x⟩, l₂⟩
    · subst hp
      rfl
    · obtain ⟨rfl, n, hc, -⟩ := hs
      simp only [HtVlRaw.lostLoop, hc, if_neg (h₂ (a, x) rfl)]
      rfl
  | (a, x) :: l₁, l₂, 0, pkts, p, _, _, _, hf, _ => by simp at hf
  | (a, x) :: l₁, l₂, fuel + 1, pkts, p, hs, h₁, h₂, hf, ans => by
    have hnd := hs.nodup
    obtain ⟨rfl, n, hc, hs⟩ := hs
    rw [List.cons_append, List.map_cons, List.nodup_cons] at hnd
    have hf' : l₁.length ≤ fuel := by simpa using hf
    obtain ⟨pkts', hl, hs', hcell⟩ := lostLoop_spec (hs.free hnd.1)
      (fun e he => h₁ e (List.mem_cons_of_mem _ he)) h₂ hf' (ans.lose x)
    refine ⟨pkts', ?_, hs', fun b hb => ?_⟩
    · simp only [HtVlRaw.lostLoop, hc, if_pos (h₁ (a, x) List.mem_cons_self), hl]
      rfl
    · rw [List.map_cons, List.mem_cons, not_or] at hb
      rw [hcell b hb.2, Heap.cell_free_of_ne _ hb.1]

/-- Then the packet `seqid` itself, if it is there. -/
theorem receivePkt_spec (seqid : UInt32) {l : List (ℕ × PktVolume)} {pkts : Heap PktVolume}
    {p : Option ℕ} (hs : pkts.Seg p l none) (ans : ReceVLostV) :
    ∃ pkts' l' ans', HtVlRaw.receivePkt seqid pkts p ans = (pkts', l'.head?.map Prod.fst, ans')
      ∧ pkts'.Seg (l'.head?.map Prod.fst) l' none ∧ l' <:+ l
      ∧ (∀ b, b ∉ l.map Prod.fst → pkts'.cell b = pkts.cell b)
      ∧ l'.map Prod.snd = (match l.map Prod.snd with
          | pkt :: rest => if pkt.seqid = seqid then rest else pkt :: rest
          | [] => [])
      ∧ ans' = match l.map Prod.snd with
          | pkt :: _ => if pkt.seqid = seqid then ans.receive pkt else ans
          | [] => ans := by
  rcases l with _ | ⟨⟨a, x⟩, l⟩
  · cases hs
    exact ⟨pkts, [], ans, rfl, rfl, List.suffix_refl _, fun _ _ => rfl, rfl, rfl⟩
  have hnd := hs.nodup
  have hs₀ := hs
  obtain ⟨rfl, n, hc, hs⟩ := hs
  rw [List.map_cons, List.nodup_cons] at hnd
  have hn : n = l.head?.map Prod.fst := by simpa using hs.head
  unfold HtVlRaw.receivePkt
  simp only [hc, List.map_cons]
  split_ifs with hx
  · refine ⟨_, l, _, by rw [hn], hn ▸ hs.free hnd.1, List.suffix_cons _ _, fun b hb => ?_, rfl, rfl⟩
    rw [List.mem_cons, not_or] at hb
    exact Heap.cell_free_of_ne _ hb.1
  · exact ⟨pkts, (a, x) :: l, ans, rfl, hs₀, List.suffix_refl _, fun _ _ => rfl, rfl, rfl⟩

namespace LedgerRep

variable {t : HtVlRaw} {Q : FlowS → List (ℕ × PktVolume)}

theorem congr (hr : LedgerRep t Q) {f g : FlowS} (h : f.rank = g.rank) : Q f = Q g := by
  have hget : t.entries.get f = t.entries.get g := Lib.Table.get_congr h
  rcases hp : t.entries.get g with _ | p
  · rw [hr.absent f (hget.trans hp), hr.absent g hp]
  · exact (hr.seg f p (hget.trans hp)).det (hr.seg g p hp)

/-- A report takes the lost packets and the received one off its flow's queue. -/
theorem getReceLostVolume (hr : LedgerRep t Q) (key : FlowS) (seqid : UInt32) : ∃ l',
    LedgerRep (t.getReceLostVolume key seqid).1 (fun f => if f.rank = key.rank then l' else Q f)
      ∧ l'.map Prod.snd = leftPkts ((Q key).map Prod.snd) seqid
      ∧ (t.getReceLostVolume key seqid).2 = receLost ((Q key).map Prod.snd) seqid := by
  rcases hp : t.entries.get key with _ | p
  · -- an unknown flow
    have hnil := hr.absent key hp
    have hget : t.getReceLostVolume key seqid = (t, .zero) := by
      simp only [HtVlRaw.getReceLostVolume, hp]
    refine ⟨[], ?_, by rw [hnil]; rfl, by rw [hget, hnil]; rfl⟩
    have hQ : (fun f => if f.rank = key.rank then [] else Q f) = Q := by
      funext f
      split_ifs with hf
      · rw [hr.congr hf, hnil]
      · rfl
    rw [hget, hQ]
    exact hr
  set before := fun e : ℕ × PktVolume => decide (e.2.seqid < seqid)
  have hseg := hr.seg key p hp
  have hnd := hseg.nodup
  have hlen := hseg.length_le
  have hnewest := hr.newest key p hp
  obtain ⟨l₁, l₂, hl₁, hl₂⟩ : ∃ l₁ l₂, l₁ = (Q key).takeWhile before
      ∧ l₂ = (Q key).dropWhile before := ⟨_, _, rfl, rfl⟩
  have hsplit : Q key = l₁ ++ l₂ := by rw [hl₁, hl₂, List.takeWhile_append_dropWhile]
  have hlost : lostPkts ((Q key).map Prod.snd) seqid = l₁.map Prod.snd := by
    rw [lostPkts, List.takeWhile_map, hl₁]
    rfl
  have hleft : ((Q key).map Prod.snd).dropWhile (fun pkt => decide (pkt.seqid < seqid))
      = l₂.map Prod.snd := by
    rw [List.dropWhile_map, hl₂]
    rfl
  have h₁ : ∀ e ∈ l₁, e.2.seqid < seqid := fun e he => by
    rw [hl₁] at he
    exact of_decide_eq_true (List.mem_takeWhile_imp (p := before) he)
  have h₂ : ∀ e, l₂.head? = some e → ¬ e.2.seqid < seqid := fun e he => by
    have := List.head?_dropWhile_not before (Q key)
    rw [← hl₂, he] at this
    simpa [before] using this
  rw [hsplit, List.map_append, List.nodup_append] at hnd
  rw [hsplit] at hseg hlen
  rw [List.length_append] at hlen
  have hfuel : l₁.length ≤ t.pkts.brk := by omega
  obtain ⟨pkts, hloop, hs, hcell⟩ := lostLoop_spec hseg h₁ h₂ hfuel .zero
  obtain ⟨pkts', l', ans', hrec, hs', hsuf, hcell', hl', hans'⟩ :=
    receivePkt_spec seqid hs ((l₁.map Prod.snd).foldl .lose .zero)
  have hget : t.getReceLostVolume key seqid = (⟨t.entries.set key ⟨l'.head?.map Prod.fst,
      if l'.head?.map Prod.fst = none then none else p.newestPkt⟩, pkts'⟩, ans') := by
    simp only [HtVlRaw.getReceLostVolume, hp, hloop, hrec]
  have hmem : ∀ e ∈ l', e ∈ Q key := fun e he => by
    rw [hsplit]
    exact List.mem_append_right _ (hsuf.subset he)
  refine ⟨l', ?_, ?_, ?_⟩
  · rw [hget]
    refine hr.update rfl (fun f hf e he => ?_) hs' ?_ fun f hf e he e' he' h =>
      hf (hr.apart f key e he e' (hmem e' he') h)
    · have hnot : e.1 ∉ (Q key).map Prod.fst := fun h => by
        obtain ⟨e', he', hee'⟩ := List.mem_map.1 h
        exact hf (hr.apart f key e he e' he' hee'.symm)
      rw [hsplit, List.map_append, List.mem_append, not_or] at hnot
      rw [hcell' _ hnot.2, hcell _ hnot.1]
    · -- the last cell stays the last one
      rcases l' with _ | ⟨e, l'⟩
      · rfl
      · obtain ⟨r, hr'⟩ := hsuf
        rw [hnewest, hsplit, ← hr', ← List.append_assoc,
          List.getLast?_append_of_ne_nil _ (List.cons_ne_nil e l')]
        rfl
  · rw [hl', leftPkts, hleft]
  · rw [hget, hans', receLost, hleft, hlost]

end LedgerRep

/-! ## The ledger as queues -/

structure HtVlRaw.WF (t : HtVlRaw) : Prop where
  rep : LedgerRep t t.cells

theorem LedgerRep.wf {t : HtVlRaw} {Q : FlowS → List (ℕ × PktVolume)} (hr : LedgerRep t Q) :
    t.WF :=
  ⟨by rwa [show t.cells = Q from funext hr.cells_eq]⟩

/-- A well-formed ledger. -/
structure HtVl where
  raw : HtVlRaw
  wf : raw.WF

def htVlCreate : HtVl := ⟨.create, LedgerRep.create.wf⟩

def htVlSet (hashtable : HtVl) (key : FlowS) (seqid volume : UInt32) : HtVl :=
  ⟨hashtable.raw.set key seqid volume, (hashtable.wf.rep.set key seqid volume).wf⟩

theorem HtVlRaw.wf_getReceLostVolume {t : HtVlRaw} (ht : t.WF) (key : FlowS) (seqid : UInt32) :
    (t.getReceLostVolume key seqid).1.WF := by
  obtain ⟨_, hr, -⟩ := ht.rep.getReceLostVolume key seqid
  exact hr.wf

def htVlGetReceLostVolume (hashtable : HtVl) (key : FlowS) (seqid : UInt32) : HtVl × ReceVLostV :=
  (⟨(hashtable.raw.getReceLostVolume key seqid).1,
      HtVlRaw.wf_getReceLostVolume hashtable.wf key seqid⟩,
    (hashtable.raw.getReceLostVolume key seqid).2)

/-- The packets of a flow that no report has taken off yet. -/
def HtVl.queue (hashtable : HtVl) (f : FlowS) : List PktVolume :=
  (hashtable.raw.cells f).map Prod.snd

namespace HtVl

variable (hashtable : HtVl) (key f : FlowS)

theorem queue_congr {f g : FlowS} (h : f.rank = g.rank) :
    hashtable.queue f = hashtable.queue g := by
  rw [queue, queue, hashtable.wf.rep.congr h]

@[simp] theorem queue_create : htVlCreate.queue f = [] := by
  rw [queue, htVlCreate, LedgerRep.create.cells_eq, List.map_nil]

theorem queue_set (seqid volume : UInt32) : (htVlSet hashtable key seqid volume).queue f
    = if f.rank = key.rank then hashtable.queue key ++ [⟨seqid, volume⟩]
      else hashtable.queue f := by
  rw [queue, htVlSet, (hashtable.wf.rep.set key seqid volume).cells_eq]
  split_ifs
  · rw [List.map_append, List.map_singleton, queue]
  · rw [queue]

theorem queue_getReceLostVolume (seqid : UInt32) :
    (htVlGetReceLostVolume hashtable key seqid).1.queue f
      = if f.rank = key.rank then leftPkts (hashtable.queue key) seqid
        else hashtable.queue f := by
  obtain ⟨l', hr, hl', -⟩ := hashtable.wf.rep.getReceLostVolume key seqid
  rw [queue, htVlGetReceLostVolume, hr.cells_eq]
  split_ifs
  · rw [hl', queue]
  · rw [queue]

theorem getReceLostVolume_snd (seqid : UInt32) :
    (htVlGetReceLostVolume hashtable key seqid).2 = receLost (hashtable.queue key) seqid := by
  obtain ⟨-, -, -, hans⟩ := hashtable.wf.rep.getReceLostVolume key seqid
  exact hans

end HtVl

end CMTestbed
