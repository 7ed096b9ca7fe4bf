import CMTestbed.Lib.Hops
import Mathlib.Data.List.Lex

/-!
# First shortest paths

The shortest paths from a root to a node are compared link by link, by the order in which the links
are listed; the first of them is unique (`FirstPath.unique`).  A breadth-first list meets the nodes
of one distance in the order of their first paths, and the name that adds a node to the list is the
last but one on its first path (`FirstLayers`).
-/

namespace CMTestbed.Lib

/-- Lists of one length are compared at their ends last. -/
theorem append_lt_append_iff {l l' : List ℕ} (h : l.length = l'.length) {i j : ℕ} :
    l ++ [i] < l' ++ [j] ↔ l < l' ∨ l = l' ∧ i < j := by
  induction l generalizing l' with
  | nil =>
    obtain rfl := List.length_eq_zero_iff.1 h.symm
    simp [List.cons_lt_cons_iff]
  | cons a l ih =>
    cases l' with
    | nil => simp at h
    | cons b l' =>
      rw [List.cons_append, List.cons_append, List.cons_lt_cons_iff, List.cons_lt_cons_iff,
        ih (by simpa using h)]
      constructor
      · rintro (hlt | ⟨rfl, hlt | ⟨rfl, hlt⟩⟩)
        · exact .inl (.inl hlt)
        · exact .inl (.inr ⟨rfl, hlt⟩)
        · exact .inr ⟨rfl, hlt⟩
      · rintro ((hlt | ⟨rfl, hlt⟩) | ⟨heq, hlt⟩)
        · exact .inl hlt
        · exact .inr ⟨rfl, .inl hlt⟩
        · cases heq
          exact .inr ⟨rfl, .inr ⟨rfl, hlt⟩⟩

namespace Links

variable {V : Type*} (L : Links V) {r u v w : V} {p q : List V}

/-- The names of a shortest path from `r` to `v`. -/
structure ShortestPath (r v : V) (p : List V) : Prop where
  chain : p.IsChain fun u v => v ∈ L.adj u
  head : p.head? = some r
  last : p.getLast? = some v
  length : p.length = L.hops r v + 1

variable {L}

/-- A chain of links reaches its last node in no fewer hops than it is away. -/
theorem hops_lt_length : ∀ {p : List V} {r v : V}, p.IsChain (fun u v => v ∈ L.adj u) →
    p.head? = some r → p.getLast? = some v → L.graph.Reachable r v ∧ L.hops r v < p.length := by
  intro p
  induction p with
  | nil => simp
  | cons a p ih =>
    intro r v hchain hhead hlast
    cases hhead
    cases p with
    | nil =>
      cases hlast
      exact ⟨.refl _, by simp⟩
    | cons b p =>
      rw [List.isChain_cons_cons] at hchain
      have hadj : L.graph.Adj a b := hchain.1
      obtain ⟨hreach, hlt⟩ := ih hchain.2 rfl (by rw [← hlast, List.getLast?_cons_cons])
      refine ⟨hadj.reachable.trans hreach, ?_⟩
      obtain ⟨p', hp'⟩ := hreach.exists_walk_length_eq_dist
      have hle : L.hops a v ≤ (SimpleGraph.Walk.cons hadj p').length := SimpleGraph.dist_le _
      have hlen : p'.length = L.hops b v := hp'
      rw [SimpleGraph.Walk.length_cons] at hle
      rw [List.length_cons]
      omega

namespace ShortestPath

theorem root (r : V) : L.ShortestPath r r [r] := ⟨List.isChain_singleton r, rfl, rfl, by simp⟩

theorem reachable (h : L.ShortestPath r v p) : L.graph.Reachable r v :=
  (hops_lt_length h.chain h.head h.last).1

theorem concat (h : L.ShortestPath r u (p ++ [u])) (hfar : L.Farther r u v) :
    L.ShortestPath r v (p ++ [u, v]) := by
  have hlen := h.length
  have hfar' := hfar.2
  rw [List.length_append, List.length_singleton] at hlen
  refine ⟨List.isChain_append_cons_cons.2 ⟨h.chain, hfar.1, List.isChain_singleton v⟩, ?_, by simp,
    by simp; omega⟩
  have hhead := h.head
  cases p with
  | nil => exact hhead
  | cons a p => exact hhead

/-- A shortest path to a node but its root comes from a node one hop nearer. -/
theorem split (h : L.ShortestPath r v p) (hne : r ≠ v) :
    ∃ q u, p = q ++ [u, v] ∧ L.ShortestPath r u (q ++ [u]) ∧ L.Farther r u v := by
  obtain ⟨p', rfl⟩ := List.getLast?_eq_some_iff.1 h.last
  cases p' using List.reverseRecOn with
  | nil =>
    have hhead := h.head
    cases hhead
    exact absurd rfl hne
  | append_singleton q u =>
    have hchain := h.chain
    have hhead := h.head
    have hlen := h.length
    rw [List.append_assoc, List.singleton_append] at hchain hhead
    rw [List.isChain_append_cons_cons] at hchain
    have hhead' : (q ++ [u]).head? = some r := by
      cases q with
      | nil => exact hhead
      | cons a q => exact hhead
    have hlast : (q ++ [u]).getLast? = some u := by simp
    obtain ⟨hreach, hlt⟩ := hops_lt_length hchain.1 hhead' hlast
    have hle := hops_le_of_mem hreach hchain.2.1
    simp only [List.length_append, List.length_singleton] at hlen hlt
    have hlen' : (q ++ [u]).length = L.hops r u + 1 := by
      rw [List.length_append, List.length_singleton]
      omega
    exact ⟨q, u, by simp, ⟨hchain.1, hhead', hlast, hlen'⟩, hchain.2.1, by omega⟩

end ShortestPath

section Code

variable [DecidableEq V]

variable (L) in
/-- The positions of a path's links, each among the links of its node. -/
def code : List V → List ℕ
  | u :: v :: p => (L.adj u).idxOf v :: code (v :: p)
  | _ => []

variable (L) in
/-- The first of the shortest paths. -/
structure FirstPath (r v : V) (p : List V) : Prop extends ShortestPath L r v p where
  first : ∀ q, L.ShortestPath r v q → L.code p ≤ L.code q

variable (L) in
/-- `u` is the last but one on the first path from `r` to `v`. -/
def Parent (r u v : V) : Prop := ∃ p, L.FirstPath r v (p ++ [u, v])

theorem code_append (p : List V) :
    L.code (p ++ [u, v]) = L.code (p ++ [u]) ++ [(L.adj u).idxOf v] := by
  induction p with
  | nil => rfl
  | cons a p ih =>
    cases p with
    | nil => rfl
    | cons b p =>
      simp only [List.cons_append, code] at ih ⊢
      rw [ih]

theorem length_code (p : List V) : (L.code p).length = p.length - 1 := by
  induction p with
  | nil => rfl
  | cons a p ih =>
    cases p with
    | nil => rfl
    | cons b p => simp [code, ih]

theorem ShortestPath.length_code_eq (h : L.ShortestPath r u p) (h' : L.ShortestPath r v q)
    (heq : L.hops r u = L.hops r v) : (L.code p).length = (L.code q).length := by
  rw [length_code, length_code, h.length, h'.length, heq]

/-- Paths from one node with one code are the same. -/
theorem eq_of_code_eq : ∀ {p q : List V}, p.IsChain (fun u v => v ∈ L.adj u) → p.head? = q.head? →
    p.length = q.length → L.code p = L.code q → p = q := by
  intro p
  induction p with
  | nil =>
    intro q _ _ hlen _
    exact (List.length_eq_zero_iff.1 hlen.symm).symm
  | cons a p ih =>
    intro q hchain hhead hlen hcode
    cases q with
    | nil => simp at hlen
    | cons a' q =>
      cases hhead
      cases p with
      | nil =>
        cases q with
        | nil => rfl
        | cons b' q => simp at hlen
      | cons b p =>
        cases q with
        | nil => simp at hlen
        | cons b' q =>
          rw [List.isChain_cons_cons] at hchain
          rw [code, code, List.cons.injEq] at hcode
          obtain rfl := (List.idxOf_inj hchain.1).1 hcode.1
          rw [ih (q := b :: q) hchain.2 rfl (Nat.succ.inj hlen) hcode.2]

namespace FirstPath

theorem unique (h : L.FirstPath r v p) (h' : L.FirstPath r v q) : p = q := by
  refine eq_of_code_eq h.chain (h.head.trans h'.head.symm) (h.length.trans h'.length.symm) ?_
  exact le_antisymm (h.first q h'.toShortestPath) (h'.first p h.toShortestPath)

theorem root (r : V) : L.FirstPath r r [r] := by
  refine ⟨.root r, fun q hq => ?_⟩
  have hlen := hq.length
  rw [hops_self] at hlen
  obtain ⟨a, rfl⟩ := List.length_eq_one_iff.1 hlen
  exact le_refl (a := ([] : List ℕ))

end FirstPath

namespace Parent

theorem unique (h : L.Parent r u v) (h' : L.Parent r w v) : u = w := by
  obtain ⟨p, hp⟩ := h
  obtain ⟨q, hq⟩ := h'
  exact (List.cons.inj (List.append_inj_right' (hp.unique hq) rfl)).1

theorem ne_root (h : L.Parent r u v) : r ≠ v := by
  rintro rfl
  obtain ⟨p, hp⟩ := h
  have hlen := hp.length
  rw [hops_self] at hlen
  simp at hlen

theorem farther (h : L.Parent r u v) : L.graph.Reachable r u ∧ L.Farther r u v := by
  have hne := h.ne_root
  obtain ⟨p, hp⟩ := h
  obtain ⟨q, u', heq, hq, hfar⟩ := hp.toShortestPath.split hne
  obtain rfl := (List.cons.inj (List.append_inj_right' heq rfl)).1
  exact ⟨hq.reachable, hfar⟩

/-- A first path goes over the first path to the last but one. -/
theorem firstPath (h : L.FirstPath r v (p ++ [u, v])) : L.FirstPath r u (p ++ [u]) := by
  obtain ⟨q, u', heq, hq, hfar⟩ := h.toShortestPath.split (ne_root ⟨p, h⟩)
  obtain ⟨rfl, hcons⟩ := List.append_inj' heq rfl
  obtain rfl := (List.cons.inj hcons).1
  refine ⟨hq, fun q' hq' => ?_⟩
  by_contra hlt
  obtain ⟨q₀, rfl⟩ := List.getLast?_eq_some_iff.1 hq'.last
  have hle := h.first _ (hq'.concat hfar)
  rw [code_append, code_append] at hle
  refine hle.not_gt ((append_lt_append_iff ?_).2 (.inl (lt_of_not_ge hlt)))
  exact hq'.length_code_eq hq rfl

end Parent

/-! ## A breadth-first list -/

variable (L) in
/-- `u` is nearer to `r` than `v`, or as near and its first path comes before that of `v`. -/
def Before (r u v : V) : Prop :=
  L.hops r u < L.hops r v ∨ L.hops r u = L.hops r v ∧
    ∀ p q, L.FirstPath r u p → L.FirstPath r v q → L.code p < L.code q

variable (L) in
/-- A breadth-first list whose names are in the order of their first paths, each after its parent,
which is done. -/
structure FirstLayers (r : V) (done names : List V) : Prop extends Layers L r done names where
  first : ∀ v ∈ names, ∃ p, L.FirstPath r v p
  tree : ∀ v ∈ names, v ≠ r → ∃ u ∈ done, L.Parent r u v
  order : names.Pairwise (L.Before r)

theorem firstLayers_root (r : V) : L.FirstLayers r [] [r] where
  toLayers := layers_root r
  first := by
    intro v hv
    rw [List.mem_singleton] at hv
    subst hv
    exact ⟨[v], .root v⟩
  tree := fun v hv hne => absurd (List.mem_singleton.1 hv) hne
  order := List.pairwise_singleton _ _

namespace FirstLayers

variable {done names : List V} {now : V}

/-- Of the names that are not done the next one is the first. -/
theorem before_now (h : L.FirstLayers r done names) (hpre : done ++ [now] <+: names)
    (hu : u ∈ names) (hd : u ∉ done) (hne : u ≠ now) : L.Before r now u := by
  obtain ⟨rest, rfl⟩ := hpre
  have horder := h.order
  rw [List.append_assoc, List.singleton_append] at horder hu
  rcases List.mem_append.1 hu with hu | hu
  · exact absurd hu hd
  · rcases List.mem_cons.1 hu with rfl | hu
    · exact absurd rfl hne
    · exact (List.pairwise_cons.1 (List.pairwise_append.1 horder).2.1).1 u hu

theorem done_before (h : L.FirstLayers r done names) (hpre : done ++ [now] <+: names)
    (hu : u ∈ done) : L.Before r u now := by
  obtain ⟨rest, rfl⟩ := hpre
  have horder := h.order
  rw [List.append_assoc, List.singleton_append] at horder
  exact (List.pairwise_append.1 horder).2.2 u hu now List.mem_cons_self

/-- The first path to a new neighbour goes over the next name. -/
theorem firstPath_new (h : L.FirstLayers r done names) (hpre : done ++ [now] <+: names)
    (hv : v ∈ L.adj now) (hnew : v ∉ names) (hp : L.FirstPath r now (p ++ [now])) :
    L.FirstPath r v (p ++ [now, v]) := by
  have hfar := h.farther_of_new hpre hv hnew
  refine ⟨hp.toShortestPath.concat hfar, fun q hq => ?_⟩
  have hne : r ≠ v := fun heq => hnew (heq ▸ h.root)
  obtain ⟨q, u, rfl, hq', hfar'⟩ := hq.split hne
  have hhops : L.hops r now = L.hops r u := by
    have h₁ := hfar.2
    have h₂ := hfar'.2
    omega
  have hu : u ∈ names := h.mem_of_hops_le hpre hq'.reachable hhops.ge
  have hud : u ∉ done := fun hd => hnew (h.closed u hd v hfar'.1)
  have hlen := hp.toShortestPath.length_code_eq hq' hhops
  rw [code_append, code_append]
  by_cases heq : u = now
  · subst heq
    rcases (hp.first _ hq').lt_or_eq with hlt | hcode
    · exact ((append_lt_append_iff hlen).2 (.inl hlt)).le
    · rw [hcode]
  · obtain ⟨pu, hpu⟩ := h.first u hu
    rcases h.before_now hpre hu hud heq with hlt | ⟨-, hlt⟩
    · omega
    · have hlt' := (hlt _ _ hp hpu).trans_le (hpu.first _ hq')
      exact ((append_lt_append_iff hlen).2 (.inl hlt')).le

theorem now_split (h : L.FirstLayers r done names) (hpre : done ++ [now] <+: names) :
    ∃ p, L.FirstPath r now (p ++ [now]) := by
  obtain ⟨p, hp⟩ := h.first now (Layers.now_mem hpre)
  obtain ⟨p', rfl⟩ := List.getLast?_eq_some_iff.1 hp.last
  exact ⟨p', hp⟩

/-- Exactly the neighbours that are new have the next name for their parent. -/
theorem parent_now_iff (h : L.FirstLayers r done names) (hpre : done ++ [now] <+: names) :
    L.Parent r now v ↔ v ∈ L.adj now ∧ v ∉ names := by
  constructor
  · intro hpar
    refine ⟨hpar.farther.2.1, fun hv => ?_⟩
    obtain ⟨u, hu, hpar'⟩ := h.tree v hv hpar.ne_root.symm
    exact h.now_not_done hpre (hpar'.unique hpar ▸ hu)
  · rintro ⟨hv, hnew⟩
    obtain ⟨p, hp⟩ := h.now_split hpre
    exact ⟨p, h.firstPath_new hpre hv hnew hp⟩

/-- What comes one hop after a name that is done is before what comes after the next name. -/
theorem before_of_parents {d : V} (hd : L.Before r d now)
    (hu : L.Parent r d u) (hv : L.Parent r now v) : L.Before r u v := by
  have hfu := hu.farther.2.2
  have hfv := hv.farther.2.2
  rcases hd with hlt | ⟨heq, hlt⟩
  · exact .inl (by omega)
  · refine .inr ⟨by omega, fun p q hp hq => ?_⟩
    obtain ⟨pd, hpd⟩ := hu
    obtain ⟨pn, hpn⟩ := hv
    have hpd' := Parent.firstPath hpd
    have hpn' := Parent.firstPath hpn
    rw [hp.unique hpd, hq.unique hpn, code_append, code_append]
    exact (append_lt_append_iff (hpd'.toShortestPath.length_code_eq hpn'.toShortestPath heq)).2
      (.inl (hlt _ _ hpd' hpn'))

/-- Children of one node are in the order of its links. -/
theorem before_of_pos (hu : L.Parent r now u) (hv : L.Parent r now v)
    (hlt : (L.adj now).idxOf u < (L.adj now).idxOf v) : L.Before r u v := by
  refine .inr ⟨by rw [hu.farther.2.2, hv.farther.2.2], fun p q hp hq => ?_⟩
  obtain ⟨pu, hpu⟩ := hu
  obtain ⟨pv, hpv⟩ := hv
  have heq := (Parent.firstPath hpu).unique (Parent.firstPath hpv)
  rw [hp.unique hpu, hq.unique hpv, code_append, code_append, heq]
  exact (append_lt_append_iff rfl).2 (.inr ⟨rfl, hlt⟩)

theorem step (h : L.FirstLayers r done names) (hpre : done ++ [now] <+: names) :
    L.FirstLayers r (done ++ [now]) (names ++ (L.adj now).filter (· ∉ names)) := by
  have hnew : ∀ v ∈ (L.adj now).filter (· ∉ names), L.Parent r now v := by
    intro v hv
    rw [List.mem_filter, decide_eq_true_iff] at hv
    exact (h.parent_now_iff hpre).2 hv
  have hpos : ((L.adj now).filter (· ∉ names)).Pairwise (L.Before r) := by
    refine (List.pairwise_iff_getElem.2 fun i j hi hj hij => ?_ :
      (L.adj now).Pairwise fun u v => (L.adj now).idxOf u < (L.adj now).idxOf v)
        |>.filter _ |>.imp_of_mem fun hu hv hlt => before_of_pos (hnew _ hu) (hnew _ hv) hlt
    rwa [(L.nodup now).idxOf_getElem i hi, (L.nodup now).idxOf_getElem j hj]
  refine ⟨h.toLayers.step hpre, ?_, ?_, List.pairwise_append.2 ⟨h.order, hpos, ?_⟩⟩
  · intro v hv
    rcases List.mem_append.1 hv with hv | hv
    · exact h.first v hv
    · obtain ⟨p, hp⟩ := hnew v hv
      exact ⟨_, hp⟩
  · intro v hv hne
    rcases List.mem_append.1 hv with hv | hv
    · obtain ⟨u, hu, hpar⟩ := h.tree v hv hne
      exact ⟨u, List.mem_append_left _ hu, hpar⟩
    · exact ⟨now, by simp, hnew v hv⟩
  · intro u hu v hv
    by_cases hur : u = r
    · subst hur
      have := (hnew v hv).farther.2.2
      exact .inl (by rw [hops_self]; omega)
    · obtain ⟨d, hd, hpar⟩ := h.tree u hu hur
      exact before_of_parents (h.done_before hpre hd) hpar (hnew v hv)

end FirstLayers

end Code

end Links

end CMTestbed.Lib
