import CMTestbed.Lib.FirstPath

/-!
# How many shortest paths there are

The nodes one hop nearer to a destination are the second nodes of the shortest paths to it.  So
there is exactly one path where a node has one such neighbour and that one has exactly one path
(`existsUnique_iff_of_single`), and where a node has several they cut its paths (`cuts_nearer`).
-/

namespace CMTestbed.Lib.Links

variable {V : Type*} {L : Links V} {d u m m' n : V} {p q : List V}

namespace ShortestPath

/-- A path starts with any neighbour one hop nearer. -/
theorem cons (h : L.ShortestPath m d p) (hm : L.Farther d m u) : L.ShortestPath u d (u :: p) := by
  have hlen := h.length
  have hhops := hm.2
  rw [hops_comm d u, hops_comm d m] at hhops
  cases p with
  | nil => cases h.head
  | cons a p =>
    cases h.head
    refine ⟨List.isChain_cons_cons.2 ⟨L.symm hm.1, h.chain⟩, rfl, ?_, ?_⟩
    · rw [List.getLast?_cons_cons]
      exact h.last
    · rw [List.length_cons, hlen, hhops]

/-- A path goes on at a neighbour one hop nearer. -/
theorem uncons (h : L.ShortestPath u d p) (hne : u ≠ d) :
    ∃ m q, p = u :: q ∧ L.Farther d m u ∧ L.ShortestPath m d q := by
  cases p with
  | nil => cases h.head
  | cons a q =>
    cases h.head
    cases q with
    | nil =>
      have hlast := h.last
      cases hlast
      exact absurd rfl hne
    | cons m q =>
      have hchain := List.isChain_cons_cons.1 h.chain
      have hlast : (m :: q).getLast? = some d := by
        rw [← h.last, List.getLast?_cons_cons]
      have hlen := h.length
      rw [List.length_cons] at hlen
      obtain ⟨hreach, hlt⟩ := hops_lt_length hchain.2 rfl hlast
      have hle := hops_le_of_mem hreach.symm (L.symm hchain.1)
      rw [hops_comm d u, hops_comm d m] at hle
      refine ⟨m, m :: q, rfl, ⟨L.symm hchain.1, ?_⟩, hchain.2, rfl, hlast, by omega⟩
      rw [hops_comm d u, hops_comm d m]
      omega

/-- A path with a second node does not start at its end. -/
theorem ne_of_mem_tail (h : L.ShortestPath u d (u :: q)) (hn : n ∈ q) : u ≠ d := by
  rintro rfl
  have hlen := h.length
  rw [hops_self, List.length_cons] at hlen
  rw [List.length_eq_zero_iff.1 (Nat.succ.inj hlen)] at hn
  cases hn

theorem exists_of_reachable (h : L.graph.Reachable d u) : ∃ p, L.ShortestPath u d p := by
  refine hops_induction (P := fun u => ∃ p, L.ShortestPath u d p) ⟨_, root d⟩ ?_ h
  rintro m u - ⟨p, hp⟩ hm
  exact ⟨u :: p, hp.cons hm⟩

/-- The nodes behind the first are nearer. -/
theorem hops_lt_of_mem (h : L.ShortestPath u d (u :: q)) (hn : n ∈ q) :
    L.hops n d < L.hops u d := by
  induction q generalizing u with
  | nil => cases hn
  | cons a q ih =>
    obtain ⟨m, q', heq, hm, hq⟩ := h.uncons (h.ne_of_mem_tail List.mem_cons_self)
    cases heq
    cases hq.head
    have hhops := hm.2
    rw [hops_comm d u, hops_comm d a] at hhops
    rcases List.mem_cons.1 hn with rfl | hn
    · omega
    · have := ih hq hn
      omega

/-- A path has no two nodes at one distance. -/
theorem eq_of_hops_eq (h : L.ShortestPath u d p) (hm : m ∈ p) (hn : n ∈ p)
    (heq : L.hops m d = L.hops n d) : m = n := by
  induction p generalizing u with
  | nil => cases hm
  | cons a q ih =>
    cases h.head
    obtain hmu | hmq := List.mem_cons.1 hm
    · obtain hnu | hnq := List.mem_cons.1 hn
      · rw [hmu, hnu]
      · have hlt := h.hops_lt_of_mem hnq
        rw [← heq, hmu] at hlt
        exact absurd hlt (lt_irrefl _)
    · obtain hnu | hnq := List.mem_cons.1 hn
      · have hlt := h.hops_lt_of_mem hmq
        rw [heq, hnu] at hlt
        exact absurd hlt (lt_irrefl _)
      · obtain ⟨_, q', he, -, hq⟩ := h.uncons (h.ne_of_mem_tail hmq)
        cases he
        exact ih hq hmq hnq

theorem nodup (h : L.ShortestPath u d p) : p.Nodup := by
  induction p generalizing u with
  | nil => exact List.nodup_nil
  | cons a q ih =>
    cases h.head
    rw [List.nodup_cons]
    refine ⟨fun ha => lt_irrefl _ (h.hops_lt_of_mem ha), ?_⟩
    cases q with
    | nil => exact List.nodup_nil
    | cons b q =>
      obtain ⟨_, q', he, -, hq⟩ := h.uncons (h.ne_of_mem_tail List.mem_cons_self)
      cases he
      exact ih hq

/-- Every node of a path is in reach of its end. -/
theorem reachable_of_mem (h : L.ShortestPath u d p) (hn : n ∈ p) : L.graph.Reachable d n := by
  induction p generalizing u with
  | nil => cases hn
  | cons a q ih =>
    cases h.head
    obtain rfl | hnq := List.mem_cons.1 hn
    · exact h.reachable.symm
    · obtain ⟨_, q', he, -, hq⟩ := h.uncons (h.ne_of_mem_tail hnq)
      cases he
      exact ih hq hnq

end ShortestPath

/-! ## One node nearer -/

section Single

/-- The only neighbour of `u` one hop nearer. -/
def OnlyNearer (L : Links V) (d u m : V) : Prop := ∀ n, L.Farther d n u ↔ n = m

theorem OnlyNearer.shortestPath_iff (h : L.OnlyNearer d u m) (hne : u ≠ d) :
    L.ShortestPath u d p ↔ ∃ q, p = u :: q ∧ L.ShortestPath m d q := by
  constructor
  · intro hp
    obtain ⟨n, q, rfl, hn, hq⟩ := hp.uncons hne
    rw [(h n).1 hn] at hq
    exact ⟨q, rfl, hq⟩
  · rintro ⟨q, rfl, hq⟩
    exact hq.cons ((h m).2 rfl)

theorem existsUnique_iff_of_single (h : L.OnlyNearer d u m) (hne : u ≠ d) :
    (∃! p, L.ShortestPath u d p) ↔ ∃! q, L.ShortestPath m d q := by
  constructor
  · rintro ⟨p, hp, huniq⟩
    obtain ⟨q, rfl, hq⟩ := (h.shortestPath_iff hne).1 hp
    refine ⟨q, hq, fun q' hq' => ?_⟩
    exact (List.cons.inj (huniq _ ((h.shortestPath_iff hne).2 ⟨q', rfl, hq'⟩))).2
  · rintro ⟨q, hq, huniq⟩
    refine ⟨u :: q, (h.shortestPath_iff hne).2 ⟨q, rfl, hq⟩, fun p hp => ?_⟩
    obtain ⟨q', rfl, hq'⟩ := (h.shortestPath_iff hne).1 hp
    rw [huniq q' hq']

theorem existsUnique_root (d : V) : ∃! p, L.ShortestPath d d p := by
  refine ⟨[d], .root d, fun p hp => ?_⟩
  have hlen := hp.length
  rw [hops_self] at hlen
  obtain ⟨a, rfl⟩ := List.length_eq_one_iff.1 hlen
  cases hp.head
  rfl

end Single

/-! ## Several nodes nearer -/

theorem not_existsUnique_of_ne (hm : L.Farther d m u) (hm' : L.Farther d m' u) (hne : m ≠ m')
    (hreach : L.graph.Reachable d u) : ¬ ∃! p, L.ShortestPath u d p := by
  rintro ⟨p, -, huniq⟩
  obtain ⟨q, hq⟩ := ShortestPath.exists_of_reachable
    (hreach.trans (SimpleGraph.Adj.reachable (G := L.graph) (L.symm hm.1)))
  obtain ⟨q', hq'⟩ := ShortestPath.exists_of_reachable
    (hreach.trans (SimpleGraph.Adj.reachable (G := L.graph) (L.symm hm'.1)))
  have heq : u :: q = u :: q' := (huniq _ (hq.cons hm)).trans (huniq _ (hq'.cons hm')).symm
  cases heq
  have hhead := hq.head.symm.trans hq'.head
  exact hne (Option.some.inj hhead)

/-- Each shortest path from `u` to `d` goes through exactly one of the nodes, and each of these is
on one. -/
structure Cuts (L : Links V) (u d : V) (M : List V) : Prop where
  exactly_one : ∀ p, L.ShortestPath u d p → ∃! m, m ∈ M ∧ m ∈ p
  on_path : ∀ m ∈ M, ∃ p, L.ShortestPath u d p ∧ m ∈ p

theorem cuts_nearer {M : List V} (hM : ∀ m, m ∈ M ↔ L.Farther d m u) (hne : u ≠ d)
    (hreach : L.graph.Reachable d u) : L.Cuts u d M := by
  constructor
  · intro p hp
    obtain ⟨m, q, rfl, hm, hq⟩ := hp.uncons hne
    have hmq : m ∈ u :: q := List.mem_cons_of_mem _ (List.mem_of_mem_head? hq.head)
    refine ⟨m, ⟨(hM m).2 hm, hmq⟩, fun n hn => hp.eq_of_hops_eq hn.2 hmq ?_⟩
    have h₁ := hm.2
    have h₂ := ((hM n).1 hn.1).2
    rw [hops_comm n, hops_comm m]
    omega
  · intro m hm
    have hfar := (hM m).1 hm
    obtain ⟨q, hq⟩ := ShortestPath.exists_of_reachable
      (hreach.trans (SimpleGraph.Adj.reachable (G := L.graph) (L.symm hfar.1)))
    exact ⟨u :: q, hq.cons hfar, List.mem_cons_of_mem _ (List.mem_of_mem_head? hq.head)⟩

/-- What cuts the paths from the only node nearer cuts those from `u`. -/
theorem Cuts.of_single {M : List V} (h : L.Cuts m d M) (hsingle : L.OnlyNearer d u m)
    (hne : u ≠ d) : L.Cuts u d M := by
  have hnot : u ∉ M := by
    intro hu
    obtain ⟨q, hq, huq⟩ := h.on_path u hu
    have hlt := (hq.cons ((hsingle m).2 rfl)).hops_lt_of_mem huq
    exact lt_irrefl _ hlt
  constructor
  · intro p hp
    obtain ⟨q, rfl, hq⟩ := (hsingle.shortestPath_iff hne).1 hp
    obtain ⟨n, ⟨hnM, hnq⟩, huniq⟩ := h.exactly_one q hq
    refine ⟨n, ⟨hnM, List.mem_cons_of_mem _ hnq⟩, ?_⟩
    rintro n' ⟨hn'M, hn'⟩
    rcases List.mem_cons.1 hn' with rfl | hn'q
    · exact absurd hn'M hnot
    · exact huniq n' ⟨hn'M, hn'q⟩
  · intro n hn
    obtain ⟨q, hq, hnq⟩ := h.on_path n hn
    exact ⟨u :: q, hq.cons ((hsingle m).2 rfl), List.mem_cons_of_mem _ hnq⟩

end CMTestbed.Lib.Links
