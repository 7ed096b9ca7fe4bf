import CMTestbed.Lib.Hops
import CMTestbed.Topology

/-!
# The searches of the rule generators

In a connected topology a search labels what it visits with its hop distance from the root; one
that stops early has visited everything nearer than its destination (`visitedFrom_spec`).  The walk
that collects predecessors lists, for every node, the names it is linked to, once each
(`collectFrom_spec`).
-/

namespace CMTestbed

open Lib

namespace GenerateRulesIntoTables

/-- The neighbours of a node, in the order of its links. -/
def neighNames (t : GenerateRulesIntoTables) (u : Name) : List Name :=
  ((t.graph.lookup u).getD []).map (·.neighName)

/-- A simple graph: a link is seen from both ends, none is a loop and none is repeated. -/
structure Simple (t : GenerateRulesIntoTables) : Prop where
  symm : ∀ {u v}, v ∈ t.neighNames u → u ∈ t.neighNames v
  irrefl : ∀ u, u ∉ t.neighNames u
  nodup : ∀ u, (t.neighNames u).Nodup

def Simple.links {t : GenerateRulesIntoTables} (h : t.Simple) : Links Name :=
  ⟨t.neighNames, h.symm, h.irrefl, h.nodup⟩

/-- A connected simple topology with its hosts. -/
structure Connected (t : GenerateRulesIntoTables) : Prop extends Simple t where
  connected : ∀ u ∈ t.graph, ∀ v ∈ t.graph, toSimple.links.graph.Reachable u v
  hosts_mem : ∀ u ∈ t.hosts, u ∈ t.graph

/-- A connected simple topology in which each host has exactly one link; the hosts have prefixes of
their own, and the links of a switch are at ports of their own. -/
structure WellFormed (t : GenerateRulesIntoTables) : Prop extends Simple t where
  connected : ∀ u ∈ t.graph, ∀ v ∈ t.graph, toSimple.links.graph.Reachable u v
  hosts_nodup : t.hosts.Nodup
  mem_hosts : ∀ u, u ∈ t.hosts ↔ u ∈ t.graph ∧ isHost u = true
  mem_switches : ∀ u, u ∈ t.switches ↔ u ∈ t.graph ∧ isHost u = false
  host_link : ∀ u ∈ t.hosts, (t.neighNames u).length = 1
  ports_nodup : ∀ u ∈ t.switches, (((t.graph.lookup u).getD []).map (·.ethid)).Nodup
  has_prefix : ∀ u ∈ t.hosts, u ∈ t.hostIpprefixMap
  prefix_inj : ∀ u ∈ t.hosts, ∀ v ∈ t.hosts,
    t.hostIpprefixMap.lookup u = t.hostIpprefixMap.lookup v → u = v

variable {t : GenerateRulesIntoTables}

theorem mem_graph_of_neighNames {u v : Name} (h : v ∈ t.neighNames u) : u ∈ t.graph := by
  rw [← AList.lookup_isSome]
  cases hl : t.graph.lookup u with
  | none => simp [neighNames, hl] at h
  | some _ => rfl

/-- `graph[now_name]` is read, and lists the neighbours. -/
theorem getItem_graph {u : Name} (h : u ∈ t.graph) :
    ∃ neighbors, t.graph.getItem u = .ok neighbors ∧ t.graph.lookup u = some neighbors ∧
      neighbors.map (·.neighName) = t.neighNames u := by
  obtain ⟨neighbors, hl⟩ := Option.isSome_iff_exists.1 (AList.lookup_isSome.2 h)
  exact ⟨neighbors, Dict.getItem_eq_ok.2 hl, hl, by simp [neighNames, hl]⟩

theorem WellFormed.toConnected (h : t.WellFormed) : t.Connected :=
  ⟨h.toSimple, h.connected, fun u hu => ((h.mem_hosts u).1 hu).1⟩

namespace Simple

variable (h : t.Simple)
include h

theorem mem_of_adj {u v : Name} (hv : v ∈ t.neighNames u) : v ∈ t.graph :=
  mem_graph_of_neighNames (h.symm hv)

theorem mem_of_reachable {u v : Name} (hu : u ∈ t.graph) (hr : h.links.graph.Reachable u v) :
    v ∈ t.graph :=
  Links.hops_induction (P := (· ∈ t.graph)) hu (fun _ _ _ _ hfar => h.mem_of_adj hfar.1) hr

end Simple

/-- Behind a host there is nothing: its only link leads back. -/
theorem WellFormed.host_eq_root (h : t.WellFormed) {r m v : Name} (hr : r ∈ t.graph)
    (hm : m ∈ t.hosts) (hfar : h.links.Farther r m v) : m = r := by
  by_contra hne
  obtain ⟨u, -, hu⟩ := Links.exists_nearer (h.connected r hr m ((h.mem_hosts m).1 hm).1)
    (Ne.symm hne)
  obtain ⟨w, hw⟩ := List.length_eq_one_iff.1 (h.host_link m hm)
  have hum : u ∈ t.neighNames m := h.symm hu.1
  have hvm : v ∈ t.neighNames m := hfar.1
  rw [hw, List.mem_singleton] at hum hvm
  subst hum hvm
  have h₁ := hu.2
  have h₂ := hfar.2
  omega

/-- A list of distinct nodes is no longer than the number of turns. -/
theorem length_le_turns {names : List Name} (hnd : names.Nodup) (hmem : ∀ v ∈ names, v ∈ t.graph) :
    names.length ≤ t.turns := by
  have hsub : names ⊆ t.graph.keys := fun v hv => AList.mem_keys.1 (hmem v hv)
  exact Nat.le_succ_of_le (hnd.subperm hsub).length_le

/-! ## The graph of a topology file -/

/-- The other ends of the connections at `u`, in the order of the file. -/
def otherEnds (links : List (Name × Name)) (u : Name) : List Name :=
  links.flatMap fun l => (if l.1 = u then [l.2] else []) ++ if l.2 = u then [l.1] else []

theorem lookup_addNeighbor (graph : Dict Name (List NeighborNode)) (entity u : Name)
    (neigh : NeighborNode) :
    (((addNeighbor graph entity neigh).lookup u).getD []).map (·.neighName)
      = ((graph.lookup u).getD []).map (·.neighName)
        ++ if entity = u then [neigh.neighName] else [] := by
  rw [addNeighbor, Dict.lookup_insert_if]
  by_cases hu : u = entity
  · subst hu
    simp
  · simp [hu, Ne.symm hu]

theorem connect_neighNames {ids : Dict Name ℕ} {l : Name × Name}
    {s s' : Dict Name ℕ × Dict Name (List NeighborNode)} (h : connect ids s l = .ok s') (u : Name) :
    ((s'.2.lookup u).getD []).map (·.neighName)
      = ((s.2.lookup u).getD []).map (·.neighName) ++ otherEnds [l] u := by
  obtain ⟨_, -, h⟩ := bind_eq_ok.1 h
  obtain ⟨_, -, h⟩ := bind_eq_ok.1 h
  cases h
  rw [lookup_addNeighbor, lookup_addNeighbor, List.append_assoc, otherEnds, List.flatMap_cons,
    List.flatMap_nil, List.append_nil]

/-- The graph that is read lists, at every node, the other ends of its connections. -/
theorem foldlM_connect_neighNames {ids : Dict Name ℕ} : ∀ {links : List (Name × Name)}
    {s s' : Dict Name ℕ × Dict Name (List NeighborNode)},
    links.foldlM (connect ids) s = .ok s' → ∀ u, ((s'.2.lookup u).getD []).map (·.neighName)
      = ((s.2.lookup u).getD []).map (·.neighName) ++ otherEnds links u := by
  intro links
  induction links with
  | nil =>
    intro s s' h u
    cases h
    simp [otherEnds]
  | cons l links ih =>
    intro s s' h u
    rw [List.foldlM_cons] at h
    obtain ⟨s₁, hs₁, h⟩ := bind_eq_ok.1 h
    rw [ih h u, connect_neighNames hs₁ u, List.append_assoc]
    congr 1
    simp [otherEnds]

theorem readTopo_links {ids : Dict Name ℕ} {lines : List (List UInt8)}
    (h : readTopo ids lines = .ok t) : ∃ links, ∀ u, t.neighNames u = otherEnds links u := by
  obtain ⟨_, -, h⟩ := bind_eq_ok.1 h
  obtain ⟨_, -, h⟩ := bind_eq_ok.1 h
  obtain ⟨_, -, h⟩ := bind_eq_ok.1 h
  obtain ⟨_, -, h⟩ := bind_eq_ok.1 h
  obtain ⟨_, -, h⟩ := bind_eq_ok.1 h
  obtain ⟨_, -, h⟩ := bind_eq_ok.1 h
  obtain ⟨links, -, h⟩ := bind_eq_ok.1 h
  obtain ⟨s, hs, h⟩ := bind_eq_ok.1 h
  cases h
  refine ⟨links, fun u => ?_⟩
  rw [neighNames, foldlM_connect_neighNames hs u, AList.lookup_empty]
  rfl

/-- What is read is symmetric: a connection is entered at both its ends. -/
theorem readTopo_symm {ids : Dict Name ℕ} {lines : List (List UInt8)}
    (h : readTopo ids lines = .ok t) {u v : Name} (hv : v ∈ t.neighNames u) :
    u ∈ t.neighNames v := by
  obtain ⟨links, hlinks⟩ := readTopo_links h
  have hmem : ∀ u v, v ∈ otherEnds links u ↔ (u, v) ∈ links ∨ (v, u) ∈ links := by
    intro u v
    rw [otherEnds, List.mem_flatMap]
    constructor
    · rintro ⟨⟨a, b⟩, hl, hm⟩
      rcases List.mem_append.1 hm with hm | hm
      · split at hm
        · next heq =>
          rw [List.mem_singleton] at hm
          exact .inl (hm ▸ heq ▸ hl)
        · cases hm
      · split at hm
        · next heq =>
          rw [List.mem_singleton] at hm
          exact .inr (hm ▸ heq ▸ hl)
        · cases hm
    · rintro (hl | hl)
      · exact ⟨_, hl, List.mem_append_left _ (by simp)⟩
      · exact ⟨_, hl, List.mem_append_right _ (by simp)⟩
  rw [hlinks, hmem] at hv ⊢
  exact hv.symm

/-! ## Checking a topology -/

/-- Each name is linked to one that comes before it. -/
def grows (t : GenerateRulesIntoTables) : List Name → List Name → Bool
  | _, [] => true
  | seen, u :: rest => (seen.any fun v => u ∈ t.neighNames v) && grows t (u :: seen) rest

/-- A check that a topology is well-formed; the nodes are named in an order in which they grow
together. -/
def checks (t : GenerateRulesIntoTables) (root : Name) (rest : List Name) : Bool :=
  t.grows [root] rest
    && decide (∀ u ∈ t.graph.keys, u ∈ root :: rest)
    && decide (∀ u ∈ t.graph.keys, (t.neighNames u).Nodup
      ∧ ∀ v ∈ t.neighNames u, v ≠ u ∧ u ∈ t.neighNames v)
    && decide (∀ u ∈ t.graph.keys, if isHost u then u ∈ t.hosts else u ∈ t.switches)
    && decide t.hosts.Nodup
    && decide (∀ u ∈ t.hosts, u ∈ t.graph.keys ∧ isHost u ∧ (t.neighNames u).length = 1
      ∧ u ∈ t.hostIpprefixMap
      ∧ ∀ v ∈ t.hosts, t.hostIpprefixMap.lookup u = t.hostIpprefixMap.lookup v → u = v)
    && decide (∀ u ∈ t.switches, u ∈ t.graph.keys ∧ isHost u = false
      ∧ (((t.graph.lookup u).getD []).map (·.ethid)).Nodup)

theorem reachable_of_grows (h : t.Simple) {root : Name} : ∀ {rest seen : List Name},
    (∀ v ∈ seen, h.links.graph.Reachable root v) → t.grows seen rest = true →
    ∀ v ∈ rest, h.links.graph.Reachable root v := by
  intro rest
  induction rest with
  | nil => simp
  | cons u rest ih =>
    intro seen hseen hgrows
    rw [grows, Bool.and_eq_true, List.any_eq_true] at hgrows
    obtain ⟨⟨w, hw, hu⟩, hrest⟩ := hgrows
    have hreach : h.links.graph.Reachable root u :=
      Links.reachable_of_mem (hseen w hw) (of_decide_eq_true hu)
    have hseen' : ∀ v ∈ u :: seen, h.links.graph.Reachable root v :=
      List.forall_mem_cons.2 ⟨hreach, hseen⟩
    exact List.forall_mem_cons.2 ⟨hreach, ih hseen' hrest⟩

theorem wellFormed_of_checks {root : Name} {rest : List Name} (h : t.checks root rest = true) :
    t.WellFormed := by
  simp only [checks, Bool.and_eq_true, decide_eq_true_eq] at h
  obtain ⟨⟨⟨⟨⟨⟨hgrows, hall⟩, hlinks⟩, hkind⟩, hnodup⟩, hhosts⟩, hswitches⟩ := h
  have hkey : ∀ {u v}, v ∈ t.neighNames u → u ∈ t.graph.keys := fun hv =>
    AList.mem_keys.1 (mem_graph_of_neighNames hv)
  have hsimple : t.Simple := by
    refine ⟨fun hv => ((hlinks _ (hkey hv)).2 _ hv).2, fun u hu => ?_, fun u => ?_⟩
    · exact ((hlinks u (hkey hu)).2 u hu).1 rfl
    · by_cases hu : u ∈ t.graph.keys
      · exact (hlinks u hu).1
      · have hnil : t.neighNames u = [] :=
          List.eq_nil_iff_forall_not_mem.2 fun v hv => hu (hkey hv)
        exact hnil ▸ List.nodup_nil
  have hreach : ∀ u ∈ t.graph, hsimple.links.graph.Reachable root u := by
    intro u hu
    have hroot : ∀ v ∈ [root], hsimple.links.graph.Reachable root v := by
      intro v hv
      rw [List.mem_singleton] at hv
      exact hv ▸ .refl _
    rcases List.mem_cons.1 (hall u (AList.mem_keys.1 hu)) with rfl | hu
    · exact .refl _
    · exact reachable_of_grows hsimple hroot hgrows u hu
  refine ⟨hsimple, fun u hu v hv => (hreach u hu).symm.trans (hreach v hv), hnodup, fun u => ?_,
    fun u => ?_, fun u hu => (hhosts u hu).2.2.1, fun u hu => (hswitches u hu).2.2,
    fun u hu => (hhosts u hu).2.2.2.1, fun u hu => (hhosts u hu).2.2.2.2⟩
  · constructor
    · exact fun hu => ⟨AList.mem_keys.2 (hhosts u hu).1, (hhosts u hu).2.1⟩
    · rintro ⟨hu, hhost⟩
      simpa [hhost] using hkind u (AList.mem_keys.1 hu)
  · constructor
    · exact fun hu => ⟨AList.mem_keys.2 (hswitches u hu).1, (hswitches u hu).2.1⟩
    · rintro ⟨hu, hhost⟩
      simpa [hhost] using hkind u (AList.mem_keys.1 hu)

/-- The topology of the file, with a port for each of the interfaces in turn. -/
def ofFile (interfaces lines : List String) : GenerateRulesIntoTables :=
  let ids := (interfaces.zipIdx 1).foldl (fun d e => AList.insert (chars e.1) e.2 d) ∅
  ((readTopo ids (lines.map chars)).toOption).getD ⟨[], [], ids, ∅, ∅⟩

/-- Two hosts with two paths between them. -/
def square : GenerateRulesIntoTables :=
  ofFile ["s1-eth1", "s1-eth2", "s1-eth3", "s4-eth1", "s4-eth2", "s4-eth3", "s2-eth1", "s2-eth2",
      "s3-eth1", "s3-eth2"]
    ["#hosts", "h1 h2", "#switches", "s1 s2 s3 s4", "#prefixes", "h1 10.0.0.0/8",
      "h2 11.0.0.0/8", "#connections", "s1 h1", "s4 h2", "s1 s2", "s1 s3", "s2 s4", "s3 s4"]

theorem square_wellFormed : square.WellFormed := by
  have hchecks : square.checks (chars "h1") (["s1", "s2", "s3", "s4", "h2"].map chars) = true := by
    decide +kernel
  exact wellFormed_of_checks hchecks

theorem hosts_square : square.hosts = ["h1", "h2"].map chars := by
  decide +kernel

/-! ## The distances -/

/-- Exactly the names on the list are visited, each with its label. -/
def Labelled (label : Name → ℕ) (s : Search) : Prop :=
  ∀ v, s.visitedNameIdMap.lookup v = if v ∈ s.expandNameList then some (label v) else none

theorem Labelled.mem_iff {label : Name → ℕ} {s : Search} (h : Labelled label s) (v : Name) :
    v ∈ s.visitedNameIdMap ↔ v ∈ s.expandNameList := by
  rw [← AList.lookup_isSome, h v]
  split <;> simp_all

theorem Labelled.insert {label : Name → ℕ} {s : Search} (h : Labelled label s) {u : Name} {n : ℕ}
    (hu : label u = n) :
    Labelled label ⟨s.visitedNameIdMap.insert u n, s.expandNameList ++ [u]⟩ := by
  intro v
  rw [Dict.lookup_insert_if, h v]
  by_cases hv : v = u
  · subst hv
    simp [hu]
  · simp [hv]

section Visit

variable {label : Name → ℕ} {dst : Option Name} {nowId : ℕ}

theorem visit_labelled (dst : Option Name) :
    ∀ {l : List NeighborNode} {s : Search}, Labelled label s →
    (∀ v ∈ l.map (·.neighName), v ∉ s.expandNameList → label v = nowId + 1) →
    Labelled label (visit dst nowId l s).1 := by
  intro l
  induction l with
  | nil => exact fun hs _ => hs
  | cons neigh l ih =>
    intro s hs hl
    rw [List.map_cons, List.forall_mem_cons] at hl
    rw [visit]
    split
    · exact ih hs hl.2
    · next hnew =>
      rw [hs.mem_iff] at hnew
      have hs' := hs.insert (hl.1 hnew)
      split
      · exact hs'
      · refine ih hs' fun v hv hmem => hl.2 v hv fun hm => hmem ?_
        exact List.mem_append_left _ hm

/-- A search that is not stopped appends the neighbours that are new. -/
theorem visit_go : ∀ {l : List NeighborNode} {s : Search}, Labelled label s →
    (l.map (·.neighName)).Nodup →
    (∀ v ∈ l.map (·.neighName), v ∉ s.expandNameList → label v = nowId + 1) →
    (visit dst nowId l s).2 = false →
    (visit dst nowId l s).1.expandNameList
      = s.expandNameList ++ (l.map (·.neighName)).filter (· ∉ s.expandNameList) ∧
      ∀ d, dst = some d → d ∉ s.expandNameList → d ∉ l.map (·.neighName) := by
  intro l
  induction l with
  | nil => simp [visit]
  | cons neigh l ih =>
    intro s hs hnd hl hgo
    rw [List.map_cons, List.nodup_cons] at hnd
    rw [List.map_cons, List.forall_mem_cons] at hl
    rw [visit] at hgo ⊢
    split at hgo
    · next hold =>
      obtain ⟨hnames, hdst⟩ := ih hs hnd.2 hl.2 hgo
      have hmem := (hs.mem_iff _).1 hold
      rw [if_pos hold]
      refine ⟨?_, ?_⟩
      · rw [hnames, List.map_cons, List.filter_cons_of_neg (by simpa using hmem)]
      · intro d hd hdmem
        rw [List.map_cons, List.mem_cons, not_or]
        exact ⟨fun heq => hdmem (heq ▸ hmem), hdst d hd hdmem⟩
    · next hnew =>
      split at hgo
      · simp at hgo
      · next hstop =>
        rw [if_neg hnew, if_neg hstop]
        rw [hs.mem_iff] at hnew
        have hs' := hs.insert (hl.1 hnew)
        have hl' : ∀ v ∈ l.map (·.neighName), v ∉ s.expandNameList ++ [neigh.neighName] →
            label v = nowId + 1 := fun v hv hmem =>
          hl.2 v hv fun hm => hmem (List.mem_append_left _ hm)
        obtain ⟨hnames, hdst⟩ := ih hs' hnd.2 hl' hgo
        refine ⟨?_, ?_⟩
        · rw [hnames, List.map_cons, List.filter_cons_of_pos (by simpa using hnew),
            List.append_assoc, List.singleton_append]
          congr 2
          refine List.filter_congr fun v hv => ?_
          have hne : v ≠ neigh.neighName := fun heq => hnd.1 (heq ▸ hv)
          simp [hne]
        · intro d hd hdmem
          have hne : d ≠ neigh.neighName := by
            rintro rfl
            exact hstop hd.symm
          rw [List.map_cons, List.mem_cons, not_or]
          exact ⟨hne, hdst d hd (by simp [hdmem, hne])⟩

/-- A search that is stopped has just visited its destination. -/
theorem visit_stop : ∀ {l : List NeighborNode} {s : Search}, Labelled label s →
    (∀ v ∈ l.map (·.neighName), v ∉ s.expandNameList → label v = nowId + 1) →
    (visit dst nowId l s).2 = true →
    s.expandNameList ⊆ (visit dst nowId l s).1.expandNameList ∧
      (∀ v ∈ (visit dst nowId l s).1.expandNameList,
        v ∈ s.expandNameList ∨ v ∈ l.map (·.neighName)) ∧
      ∃ d, dst = some d ∧ d ∉ s.expandNameList ∧
        d ∈ (visit dst nowId l s).1.expandNameList := by
  intro l
  induction l with
  | nil => simp [visit]
  | cons neigh l ih =>
    intro s hs hl hstop
    rw [List.map_cons, List.forall_mem_cons] at hl
    rw [visit] at hstop ⊢
    split at hstop
    · next hold =>
      obtain ⟨hsub, hmem, hd⟩ := ih hs hl.2 hstop
      rw [if_pos hold]
      exact ⟨hsub, fun v hv => (hmem v hv).imp_right (List.mem_cons_of_mem _), hd⟩
    · next hnew =>
      rw [if_neg hnew]
      rw [hs.mem_iff] at hnew
      split at hstop
      · next heq =>
        rw [if_pos heq]
        refine ⟨List.subset_append_left _ _, ?_, neigh.neighName, heq.symm, hnew, by simp⟩
        intro v hv
        rcases List.mem_append.1 hv with hv | hv
        · exact .inl hv
        · exact .inr (List.mem_cons.2 (.inl (List.mem_singleton.1 hv)))
      · next hne =>
        rw [if_neg hne]
        have hl' : ∀ v ∈ l.map (·.neighName), v ∉ s.expandNameList ++ [neigh.neighName] →
            label v = nowId + 1 := fun v hv hmem =>
          hl.2 v hv fun hm => hmem (List.mem_append_left _ hm)
        obtain ⟨hsub, hmem, d, hd, hdnew, hdmem⟩ := ih (hs.insert (hl.1 hnew)) hl' hstop
        refine ⟨fun v hv => hsub (List.mem_append_left _ hv), ?_, d, hd, ?_, hdmem⟩
        · intro v hv
          rcases hmem v hv with hv | hv
          · rcases List.mem_append.1 hv with hv | hv
            · exact .inl hv
            · exact .inr (List.mem_cons.2 (.inl (List.mem_singleton.1 hv)))
          · exact .inr (List.mem_cons_of_mem _ hv)
        · exact fun hm => hdnew (List.mem_append_left _ hm)

end Visit

/-- What one run of the search loop keeps: a breadth-first list, labelled, without `dst`. -/
structure Searched (h : t.Simple) (root : Name) (dst : Option Name) (done : List Name)
    (s : Search) : Prop where
  layers : h.links.Layers root done s.expandNameList
  labelled : Labelled (h.links.hops root) s
  unseen : ∀ d, dst = some d → d ∉ s.expandNameList

/-- What holds of a search that has just visited `dst`. -/
structure Stopped (h : t.Simple) (root : Name) (dst : Option Name) (s : Search) : Prop where
  labelled : Labelled (h.links.hops root) s
  reach : ∀ v ∈ s.expandNameList, h.links.graph.Reachable root v
  nearer : ∀ d, dst = some d → d ∈ s.expandNameList ∧ ∀ v, h.links.graph.Reachable root v →
    h.links.hops root v < h.links.hops root d → v ∈ s.expandNameList
  isSome : dst.isSome

theorem expandNow_spec (h : t.Simple) {root : Name} (hroot : root ∈ t.graph)
    {dst : Option Name} {done : List Name} {now : Name} {s : Search}
    (hs : Searched h root dst done s) (hpre : done ++ [now] <+: s.expandNameList) :
    ∃ s' stop, t.expandNow dst now s = .ok (s', stop) ∧
      Turn Search.expandNameList (Searched h root dst) (Stopped h root dst)
        done now s' stop := by
  have hmem := Links.Layers.now_mem hpre
  have hreach := hs.layers.reach now hmem
  obtain ⟨neighbors, hget, -, hnames⟩ := getItem_graph (h.mem_of_reachable hroot hreach)
  have hid : s.visitedNameIdMap.getItem now = .ok (h.links.hops root now) := by
    rw [Dict.getItem_eq_ok, hs.labelled now, if_pos hmem]
  have hnew : ∀ v ∈ neighbors.map (·.neighName), v ∉ s.expandNameList →
      h.links.hops root v = h.links.hops root now + 1 := by
    intro v hv hv'
    rw [hnames] at hv
    exact (hs.layers.farther_of_new hpre hv hv').2
  have hlab := visit_labelled dst hs.labelled hnew
  refine ⟨_, _, by rw [expandNow, hget, hid]; rfl, ?_, ?_, ?_⟩
  · intro hstop
    obtain ⟨hsub, hmem', d, hd, hdnew, hdmem⟩ := visit_stop hs.labelled hnew hstop
    have hadj : ∀ v ∈ (visit dst (h.links.hops root now) neighbors s).1.expandNameList,
        v ∈ s.expandNameList ∨ v ∈ h.links.adj now := by
      intro v hv
      have := hmem' v hv
      rwa [hnames] at this
    refine ⟨hlab, ?_, ?_, by rw [hd]; rfl⟩
    · intro v hv
      rcases hadj v hv with hv | hv
      · exact hs.layers.reach v hv
      · exact Links.reachable_of_mem hreach hv
    · intro d' hd'
      rw [hd] at hd'
      cases hd'
      refine ⟨hdmem, fun v hv hlt => hsub (hs.layers.mem_of_hops_le hpre hv ?_)⟩
      have hdadj := (hadj d hdmem).resolve_left hdnew
      have := Links.hops_le_of_mem hreach hdadj
      omega
  · intro hgo
    rw [(visit_go hs.labelled (hnames ▸ h.nodup now) hnew hgo).1]
    exact hpre.trans (List.prefix_append _ _)
  · intro hgo
    obtain ⟨hlist, hdst⟩ := visit_go hs.labelled (hnames ▸ h.nodup now) hnew hgo
    have hlist' : (visit dst (h.links.hops root now) neighbors s).1.expandNameList
        = s.expandNameList ++ (h.links.adj now).filter (· ∉ s.expandNameList) := by
      rw [hlist, hnames]
      rfl
    refine ⟨?_, hlab, ?_⟩
    · rw [hlist']
      convert hs.layers.step hpre
    · intro d hd hmem'
      rw [hlist', List.mem_append] at hmem'
      rcases hmem' with hm | hm
      · exact hs.unseen d hd hm
      · exact hdst d hd (hs.unseen d hd) (hnames ▸ (List.mem_filter.1 hm).1)

/-- A search labels with the distance from its root, and visits every node that is nearer than
`dst`; without a `dst`, every node. -/
theorem visitedFrom_spec (h : t.Connected) {root : Name} (hroot : root ∈ t.graph)
    (dst : Option Name) (hdst : ∀ d, dst = some d → d ∈ t.graph ∧ d ≠ root) :
    ∃ ids, t.visitedFrom root dst = .ok ids ∧
      (∀ v n, ids.lookup v = some n → v ∈ t.graph ∧ n = h.links.hops root v) ∧
      ∀ v ∈ t.graph, (∀ d, dst = some d → v = d ∨ h.links.hops root v < h.links.hops root d) →
        ids.lookup v = some (h.links.hops root v) := by
  have h₀ : Searched h.toSimple root dst [] ⟨AList.insert root 0 ∅, [root]⟩ := by
    refine ⟨Links.layers_root root, ?_, ?_⟩
    · intro v
      rw [Dict.lookup_insert_if]
      by_cases hv : v = root
      · subst hv
        simp
      · simp [hv]
    · intro d hd
      simpa using (hdst d hd).2
  have hlen : ∀ done s, Searched h.toSimple root dst done s →
      s.expandNameList.length ≤ t.turns := fun done s hs =>
    length_le_turns hs.layers.nodup fun v hv =>
      h.mem_of_reachable hroot (hs.layers.reach v hv)
  obtain ⟨s, hs, hend⟩ := worklist_spec hlen
    (fun done now s hs hpre => expandNow_spec h.toSimple hroot hs hpre) h₀
  refine ⟨s.visitedNameIdMap, by rw [visitedFrom, hs]; rfl, ?_⟩
  have key : ∀ (hlab : Labelled (h.links.hops root) s)
      (hreach : ∀ v ∈ s.expandNameList, h.links.graph.Reachable root v) v n,
      s.visitedNameIdMap.lookup v = some n → v ∈ t.graph ∧ n = h.links.hops root v := by
    intro hlab hreach v n hv
    rw [hlab v] at hv
    split at hv
    · next hm =>
      cases hv
      exact ⟨h.mem_of_reachable hroot (hreach v hm), rfl⟩
    · simp at hv
  rcases hend with hstop | hall
  · refine ⟨key hstop.labelled hstop.reach, fun v hv hnear => ?_⟩
    obtain ⟨d, hd⟩ := Option.isSome_iff_exists.1 hstop.isSome
    have hvreach := h.connected root hroot v hv
    rw [hstop.labelled v, if_pos]
    rcases hnear d hd with rfl | hlt
    · exact (hstop.nearer v hd).1
    · exact (hstop.nearer d hd).2 v hvreach hlt
  · refine ⟨key hall.labelled hall.layers.reach, fun v hv _ => ?_⟩
    rw [hall.labelled v, if_pos (hall.layers.mem_iff.2 (h.connected root hroot v hv))]

/-! ## The predecessors -/

section Collect

variable (t) (R : Name → Name → Prop) [DecidableRel R]

/-- The names of the list from which a link of `R` leads to `n`. -/
def linkedTo (names : List Name) (n : Name) : List Name :=
  names.filter fun m => n ∈ t.neighNames m ∧ R m n

/-- What the collecting loop keeps: the list is closed under the links of the names that are done,
and the path has these links' predecessors. -/
structure Collected (good : Name → Prop) (root : Name) (done : List Name) (s : PreWalk) : Prop where
  nodup : s.expandNameList.Nodup
  root : root ∈ s.expandNameList
  good : ∀ v ∈ s.expandNameList, good v
  closed : ∀ m ∈ done, ∀ n ∈ t.neighNames m, R m n → n ∈ s.expandNameList
  path : ∀ n, (s.path.lookup n).getD [] = linkedTo t R done n
  nonempty : ∀ n, s.path.lookup n ≠ some []

/-- The same in the midst of a turn for `now`, after the neighbours `pre`. -/
structure Collecting (good : Name → Prop) (done : List Name) (now : Name) (s : PreWalk)
    (pre : List NeighborNode) (s' : PreWalk) : Prop where
  grown : s.expandNameList <+: s'.expandNameList
  nodup : s'.expandNameList.Nodup
  good : ∀ v ∈ s'.expandNameList, good v
  linked : ∀ n ∈ pre.map (·.neighName), R now n → n ∈ s'.expandNameList
  path : ∀ n, (s'.path.lookup n).getD [] = linkedTo t R done n
    ++ if n ∈ pre.map (·.neighName) ∧ R now n then [now] else []
  nonempty : ∀ n, s'.path.lookup n ≠ some []

variable {t R} {good : Name → Prop} {root now : Name} {done : List Name} {s s' : PreWalk}

theorem Collecting.skip {pre : List NeighborNode} {neigh : NeighborNode}
    (hc : Collecting t R good done now s pre s') (hno : ¬ R now neigh.neighName) :
    Collecting t R good done now s (pre ++ [neigh]) s' := by
  have hiff : ∀ n, (n ∈ (pre ++ [neigh]).map (·.neighName) ∧ R now n)
      ↔ (n ∈ pre.map (·.neighName) ∧ R now n) := by
    intro n
    rw [List.map_append, List.mem_append]
    constructor
    · rintro ⟨hn | hn, hR⟩
      · exact ⟨hn, hR⟩
      · rw [List.map_cons, List.map_nil, List.mem_singleton] at hn
        exact absurd (hn ▸ hR) hno
    · exact fun hn => ⟨.inl hn.1, hn.2⟩
  refine ⟨hc.grown, hc.nodup, hc.good, ?_, fun n => ?_, hc.nonempty⟩
  · exact fun n hn hR => hc.linked n ((hiff n).1 ⟨hn, hR⟩).1 hR
  · rw [hc.path n, if_congr (hiff n) rfl rfl]

theorem Collecting.add {pre : List NeighborNode} {neigh : NeighborNode}
    (hc : Collecting t R good done now s pre s') (hnew : neigh.neighName ∉ pre.map (·.neighName))
    (hR : R now neigh.neighName) (hgood : good neigh.neighName) :
    Collecting t R good done now s (pre ++ [neigh]) (addPreNode now neigh.neighName s') := by
  have hmem : ∀ n, n ∈ (pre ++ [neigh]).map (·.neighName)
      ↔ n ∈ pre.map (·.neighName) ∨ n = neigh.neighName := by
    intro n
    simp
  have hsub : s'.expandNameList <+: (addPreNode now neigh.neighName s').expandNameList := by
    rw [addPreNode]
    dsimp only
    split
    · exact List.prefix_rfl
    · exact List.prefix_append _ _
  have hmem' : ∀ v, v ∈ (addPreNode now neigh.neighName s').expandNameList
      ↔ v ∈ s'.expandNameList ∨ v = neigh.neighName := by
    intro v
    rw [addPreNode]
    dsimp only
    split <;> simp_all
  constructor
  · exact hc.grown.trans hsub
  · rw [addPreNode]
    dsimp only
    split
    · exact hc.nodup
    · next hv =>
      refine List.nodup_append.2 ⟨hc.nodup, List.nodup_singleton _, ?_⟩
      intro a ha b hb
      rw [List.mem_singleton] at hb
      rintro rfl
      exact hv (hb ▸ ha)
  · intro v hv
    rcases (hmem' v).1 hv with hv | rfl
    · exact hc.good v hv
    · exact hgood
  · intro n hn hRn
    rw [hmem']
    exact ((hmem n).1 hn).imp_left fun hn => hc.linked n hn hRn
  · intro n
    rw [addPreNode, Dict.lookup_insert_if]
    by_cases hn : n = neigh.neighName
    · subst hn
      rw [if_pos rfl, Option.getD_some, hc.path, if_neg fun h => hnew h.1,
        if_pos ⟨(hmem _).2 (.inr rfl), hR⟩, List.append_nil]
    · rw [if_neg hn, hc.path n]
      congr 1
      exact if_congr (by rw [hmem n, or_iff_left hn]) rfl rfl
  · intro n
    rw [addPreNode, Dict.lookup_insert_if]
    split
    · simp
    · exact hc.nonempty n

theorem collectNow_spec (h : t.Simple) {isLink : ℕ → Name → Except PyError Bool}
    {ids : Dict Name ℕ} (hgraph : ∀ m, good m → m ∈ t.graph)
    (hids : ∀ m, good m → ∃ i, ids.getItem m = .ok i ∧
      ∀ n ∈ t.neighNames m, isLink i n = .ok (decide (R m n)))
    (hgood : ∀ m n, good m → n ∈ t.neighNames m → R m n → good n)
    (hs : Collected t R good root done s) (hpre : done ++ [now] <+: s.expandNameList) :
    ∃ s' stop, t.collectNow isLink ids now s = .ok (s', stop) ∧
      Turn PreWalk.expandNameList (Collected t R good root) (fun _ => False) done now s' stop := by
  have hnow := hs.good now (Links.Layers.now_mem hpre)
  obtain ⟨neighbors, hget, -, hnames⟩ := getItem_graph (hgraph now hnow)
  obtain ⟨nowId, hid, hlink⟩ := hids now hnow
  have h₀ : Collecting t R good done now s [] s :=
    ⟨List.prefix_rfl, hs.nodup, hs.good, by simp, by simpa using hs.path, hs.nonempty⟩
  obtain ⟨s', hs', hc⟩ := foldlM_spec (l := neighbors)
    (fun pre s' => Collecting t R good done now s pre s')
    (f := fun s neigh => do
      return if ← isLink nowId neigh.neighName then addPreNode now neigh.neighName s else s)
      (fun pre neigh s₁ hle hc => by
      have hnd : ((pre ++ [neigh]).map (·.neighName)).Nodup :=
        (hnames ▸ h.nodup now : (neighbors.map (·.neighName)).Nodup).sublist
          (hle.sublist.map _)
      have hadj : neigh.neighName ∈ t.neighNames now :=
        hnames ▸ List.mem_map_of_mem (hle.subset (by simp))
      rw [hlink _ hadj]
      by_cases hR : R now neigh.neighName
      · refine ⟨addPreNode now neigh.neighName s₁, by simp [hR], hc.add ?_ hR ?_⟩
        · rw [List.map_append, List.nodup_append] at hnd
          intro hm
          exact hnd.2.2 _ hm neigh.neighName (by simp) rfl
        · exact hgood now _ hnow hadj hR
      · exact ⟨s₁, by simp [hR], hc.skip hR⟩) h₀
  refine ⟨s', false, ?_, by simp, fun _ => hpre.trans hc.grown, fun _ => ?_⟩
  · rw [collectNow, hget, hid]
    dsimp only [bind, Except.bind] at hs' ⊢
    rw [hs']
    rfl
  · refine ⟨hc.nodup, hc.grown.subset hs.root, hc.good, ?_, ?_, hc.nonempty⟩
    · intro m hm n hn hR
      rcases List.mem_append.1 hm with hm | hm
      · exact hc.grown.subset (hs.closed m hm n hn hR)
      · rw [List.mem_singleton] at hm
        subst hm
        exact hc.linked n (hnames ▸ hn) hR
    · intro n
      rw [hc.path n, hnames, linkedTo, linkedTo, List.filter_append]
      congr 1
      by_cases hn : n ∈ t.neighNames now ∧ R now n <;> simp [hn]

theorem Collected.lookup_eq (hs : Collected t R good root done s) (n : Name) :
    s.path.lookup n
      = if linkedTo t R done n = [] then none else some (linkedTo t R done n) := by
  rw [← hs.path n]
  cases hl : s.path.lookup n with
  | none => rfl
  | some next =>
    have hne : next ≠ [] := by
      rintro rfl
      exact hs.nonempty n hl
    rw [Option.getD_some, if_neg hne]

/-- The walk collects, over a list that is closed under the links from its root, the predecessors
of every node. -/
theorem collectFrom_spec (h : t.Simple) (good : Name → Prop)
    (isLink : ℕ → Name → Except PyError Bool) (ids : Dict Name ℕ)
    (hgraph : ∀ m, good m → m ∈ t.graph)
    (hids : ∀ m, good m → ∃ i, ids.getItem m = .ok i ∧
      ∀ n ∈ t.neighNames m, isLink i n = .ok (decide (R m n)))
    (hgood : ∀ m n, good m → n ∈ t.neighNames m → R m n → good n) (hroot : good root) :
    ∃ path s, t.collectFrom isLink ids root = .ok path ∧ s.path = path ∧
      Collected t R good root s.expandNameList s := by
  have h₀ : Collected t R good root [] ⟨∅, [root]⟩ := by
    refine ⟨List.nodup_singleton root, List.mem_singleton_self root, ?_, by simp, ?_, ?_⟩
    · intro v hv
      exact List.mem_singleton.1 hv ▸ hroot
    · intro n
      rw [AList.lookup_empty]
      rfl
    · intro n
      rw [AList.lookup_empty]
      simp
  have hlen : ∀ done s, Collected t R good root done s → s.expandNameList.length ≤ t.turns :=
    fun done s hs => length_le_turns hs.nodup fun v hv => hgraph v (hs.good v hv)
  obtain ⟨s, hs, hend⟩ := worklist_spec hlen
    (fun done now s hs hpre => collectNow_spec h hgraph hids hgood hs hpre) h₀
  exact ⟨s.path, s, by rw [collectFrom, hs]; rfl, rfl, hend.resolve_left id⟩

end Collect

end GenerateRulesIntoTables

end CMTestbed
