import Mathlib.Combinatorics.SimpleGraph.Metric

/-!
# Hop distances of links in order

The links of every node are a list, and a link is seen from both its ends.  `Layers` is what a
breadth-first list of names keeps: it is sorted by the distance to its root, and it holds every node
that is no farther from the root than the next name.
-/

namespace CMTestbed.Lib

/-- Undirected links without loops or repetitions, each node's in an order. -/
structure Links (V : Type*) where
  adj : V → List V
  symm : ∀ {u v}, v ∈ adj u → u ∈ adj v
  irrefl : ∀ u, u ∉ adj u
  nodup : ∀ u, (adj u).Nodup

namespace Links

variable {V : Type*} (L : Links V)

def graph : SimpleGraph V where
  Adj u v := v ∈ L.adj u
  symm := ⟨fun _ _ => L.symm⟩
  loopless := ⟨L.irrefl⟩

noncomputable def hops (r v : V) : ℕ := L.graph.dist r v

/-- `v` is linked to `u` and one hop farther from `r`. -/
def Farther (r u v : V) : Prop := v ∈ L.adj u ∧ L.hops r v = L.hops r u + 1

variable {L} {r u v : V}

@[simp] theorem hops_self : L.hops r r = 0 := SimpleGraph.dist_self

theorem hops_comm (u v : V) : L.hops u v = L.hops v u := SimpleGraph.dist_comm

theorem hops_eq_zero (h : L.graph.Reachable r v) : L.hops r v = 0 ↔ r = v := h.dist_eq_zero_iff

theorem reachable_of_mem (h : L.graph.Reachable r u) (hv : v ∈ L.adj u) : L.graph.Reachable r v :=
  h.trans (SimpleGraph.Adj.reachable (G := L.graph) hv)

theorem hops_le_of_mem (h : L.graph.Reachable r u) (hv : v ∈ L.adj u) :
    L.hops r v ≤ L.hops r u + 1 := by
  obtain ⟨p, hp⟩ := h.exists_walk_length_eq_dist
  have hadj : L.graph.Adj u v := hv
  calc L.hops r v ≤ (p.concat hadj).length := SimpleGraph.dist_le _
    _ = L.hops r u + 1 := by rw [SimpleGraph.Walk.length_concat, hp]; rfl

/-- A node other than the root has a neighbour one hop nearer. -/
theorem exists_nearer (h : L.graph.Reachable r v) (hne : r ≠ v) :
    ∃ u, L.graph.Reachable r u ∧ L.Farther r u v := by
  obtain ⟨p, hp⟩ := h.symm.exists_walk_length_eq_dist
  cases p with
  | nil => exact absurd rfl hne
  | @cons _ u _ hadj p =>
    have hu : L.graph.Reachable r u := p.reachable.symm
    have hle : L.hops u r ≤ p.length := SimpleGraph.dist_le p
    have hv : u ∈ L.adj v := hadj
    have hlen : L.hops v r = p.length + 1 := hp.symm
    have hsucc := hops_le_of_mem hu (L.symm hv)
    refine ⟨u, hu, L.symm hv, ?_⟩
    rw [hops_comm] at hle hlen
    omega

theorem Farther.reachable (h : L.Farther r u v) (hu : L.graph.Reachable r u) :
    L.graph.Reachable r v :=
  reachable_of_mem hu h.1

theorem Farther.ne_root (h : L.Farther r u v) : v ≠ r := by
  rintro rfl
  have := h.2
  rw [hops_self] at this
  omega

/-- What holds at the root and is handed on to the nodes one hop farther holds of every node in
reach. -/
theorem hops_induction {P : V → Prop} (h₀ : P r)
    (hstep : ∀ u v, L.graph.Reachable r u → P u → L.Farther r u v → P v)
    (h : L.graph.Reachable r v) : P v := by
  induction hk : L.hops r v generalizing v with
  | zero => exact (hops_eq_zero h).1 hk ▸ h₀
  | succ k ih =>
    have hne : r ≠ v := by
      rintro rfl
      simp at hk
    obtain ⟨u, hu, hfar⟩ := exists_nearer h hne
    have := hfar.2
    exact hstep u v hu (ih hu (by omega)) hfar

variable (L) in
/-- `n` is on a shortest path from `src` to `dst`. -/
def OnShortestPath (src dst n : V) : Prop :=
  ∃ p : L.graph.Walk src dst, p.length = L.hops src dst ∧ n ∈ p.support

theorem onShortestPath_iff {src dst n : V} (hdst : L.graph.Reachable src dst) :
    L.OnShortestPath src dst n
      ↔ L.graph.Reachable src n ∧ L.hops src n + L.hops n dst = L.hops src dst := by
  classical
  constructor
  · rintro ⟨p, hp, hn⟩
    have hr : L.graph.Reachable src n := ⟨p.takeUntil n hn⟩
    refine ⟨hr, le_antisymm ?_ (hr.dist_triangle_left _)⟩
    calc L.hops src n + L.hops n dst
        ≤ (p.takeUntil n hn).length + (p.dropUntil n hn).length :=
          Nat.add_le_add (SimpleGraph.dist_le _) (SimpleGraph.dist_le _)
      _ = p.length := by rw [← SimpleGraph.Walk.length_append, p.take_spec hn]
      _ = L.hops src dst := hp
  · rintro ⟨hn, hsum⟩
    obtain ⟨p, hp⟩ := hn.exists_walk_length_eq_dist
    obtain ⟨q, hq⟩ := (hn.symm.trans hdst).exists_walk_length_eq_dist
    refine ⟨p.append q, ?_, ?_⟩
    · rw [SimpleGraph.Walk.length_append, hp, hq]
      exact hsum
    · rw [SimpleGraph.Walk.mem_support_append_iff]
      exact .inl p.end_mem_support

/-! ## A breadth-first list -/

variable (L) in
/-- The names on a breadth-first list from `r`; the first ones are done. -/
structure Layers (r : V) (done names : List V) : Prop where
  nodup : names.Nodup
  root : r ∈ names
  reach : ∀ v ∈ names, L.graph.Reachable r v
  sorted : names.Pairwise fun u v => L.hops r u ≤ L.hops r v
  band : ∀ u ∈ names, ∀ v ∈ names, v ∉ done → L.hops r u ≤ L.hops r v + 1
  closed : ∀ u ∈ done, ∀ v ∈ L.adj u, v ∈ names

theorem layers_root (r : V) : L.Layers r [] [r] where
  nodup := List.nodup_singleton r
  root := List.mem_singleton_self r
  reach := by
    rintro v hv
    rw [List.mem_singleton] at hv
    exact hv ▸ .refl _
  sorted := List.pairwise_singleton _ _
  band := by simp
  closed := by simp

namespace Layers

variable {done names : List V} {now : V}

theorem now_mem (hpre : done ++ [now] <+: names) : now ∈ names := hpre.subset (by simp)

theorem now_not_done (h : L.Layers r done names) (hpre : done ++ [now] <+: names) :
    now ∉ done := by
  have hnd : (done ++ [now]).Nodup := h.nodup.sublist hpre.sublist
  rw [List.nodup_append] at hnd
  exact fun hd => hnd.2.2 now hd now (by simp) rfl

/-- A name that is not done is no nearer than the next one. -/
theorem now_le (h : L.Layers r done names) (hpre : done ++ [now] <+: names) (hu : u ∈ names)
    (hd : u ∉ done) : L.hops r now ≤ L.hops r u := by
  obtain ⟨rest, rfl⟩ := hpre
  have hsorted := h.sorted
  rw [List.append_assoc, List.singleton_append] at hsorted hu
  rcases List.mem_append.1 hu with hu | hu
  · exact absurd hu hd
  · rcases List.mem_cons.1 hu with rfl | hu
    · exact le_rfl
    · exact (List.pairwise_cons.1 (List.pairwise_append.1 hsorted).2.1).1 u hu

theorem mem_of_hops_le (h : L.Layers r done names) (hpre : done ++ [now] <+: names)
    (hv : L.graph.Reachable r v) (hle : L.hops r v ≤ L.hops r now) : v ∈ names := by
  induction hk : L.hops r v generalizing v with
  | zero => exact (hops_eq_zero hv).1 hk ▸ h.root
  | succ k ih =>
    have hne : r ≠ v := by
      rintro rfl
      simp at hk
    obtain ⟨u, hu, hfar⟩ := exists_nearer hv hne
    have hlt := hfar.2
    have hmem : u ∈ names := ih hu (by omega) (by omega)
    have hdone : u ∈ done := by
      by_contra hd
      have := h.now_le hpre hmem hd
      omega
    exact h.closed u hdone v hfar.1

/-- A neighbour that is not on the list is one hop farther. -/
theorem farther_of_new (h : L.Layers r done names) (hpre : done ++ [now] <+: names)
    (hv : v ∈ L.adj now) (hnew : v ∉ names) : L.Farther r now v := by
  have hnow := h.reach now (now_mem hpre)
  refine ⟨hv, le_antisymm (hops_le_of_mem hnow hv) ?_⟩
  by_contra hlt
  exact hnew (h.mem_of_hops_le hpre (reachable_of_mem hnow hv) (by omega))

theorem step [DecidableEq V] (h : L.Layers r done names) (hpre : done ++ [now] <+: names) :
    L.Layers r (done ++ [now]) (names ++ (L.adj now).filter (· ∉ names)) := by
  have hnow := h.reach now (now_mem hpre)
  have hnew : ∀ v ∈ (L.adj now).filter (· ∉ names), v ∉ names ∧ L.Farther r now v := by
    intro v hv
    rw [List.mem_filter, decide_eq_true_iff] at hv
    exact ⟨hv.2, h.farther_of_new hpre hv.1 hv.2⟩
  have hband : ∀ u ∈ names, L.hops r u ≤ L.hops r now + 1 := fun u hu =>
    h.band u hu now (now_mem hpre) (h.now_not_done hpre)
  have hle : ∀ u ∈ names ++ (L.adj now).filter (· ∉ names), L.hops r u ≤ L.hops r now + 1 := by
    intro u hu
    rcases List.mem_append.1 hu with hu | hu
    · exact hband u hu
    · exact (hnew u hu).2.2.le
  constructor
  · refine List.nodup_append.2 ⟨h.nodup, (L.nodup now).filter _, ?_⟩
    rintro u hu v hv rfl
    exact (hnew u hv).1 hu
  · exact List.mem_append_left _ h.root
  · intro v hv
    rcases List.mem_append.1 hv with hv | hv
    · exact h.reach v hv
    · exact (hnew v hv).2.reachable hnow
  · refine List.pairwise_append.2 ⟨h.sorted, ?_, ?_⟩
    · refine List.pairwise_of_forall_mem_list fun u hu v hv => ?_
      rw [(hnew u hu).2.2, (hnew v hv).2.2]
    · intro u hu v hv
      rw [(hnew v hv).2.2]
      exact hband u hu
  · intro u hu v hv hd
    rw [List.mem_append, not_or] at hd
    have hv' : L.hops r now ≤ L.hops r v := by
      rcases List.mem_append.1 hv with hv | hv
      · exact h.now_le hpre hv hd.1
      · have := (hnew v hv).2.2
        omega
    have := hle u hu
    omega
  · intro u hu v hv
    rcases List.mem_append.1 hu with hu | hu
    · exact List.mem_append_left _ (h.closed u hu v hv)
    · rw [List.mem_singleton] at hu
      subst hu
      by_cases hmem : v ∈ names
      · exact List.mem_append_left _ hmem
      · exact List.mem_append_right _ (List.mem_filter.2 ⟨hv, decide_eq_true hmem⟩)

/-- When every name is done, the list holds every node in reach. -/
theorem mem_iff (h : L.Layers r names names) : v ∈ names ↔ L.graph.Reachable r v := by
  refine ⟨h.reach v, fun hv => ?_⟩
  exact hops_induction (P := (· ∈ names)) h.root (fun u v _ hu hfar => h.closed u hu v hfar.1) hv

end Layers

end Links

end CMTestbed.Lib
