import CMTestbed.Proofs.Searches
import CMTestbed.Rules

/-!
# Routes to a host

Towards a host every other node has the neighbours one hop nearer as its next nodes
(`getReversePreNodes_spec`), so every port of a normal rule leads one hop nearer, and a packet
arrives after as many hops as its switch is away (`normalRules_arrive`).
-/

namespace CMTestbed

open Lib

namespace GenerateRulesIntoTables

variable {t : GenerateRulesIntoTables}

/-! ## The next nodes -/

theorem getReversePreNodes_spec (h : t.Connected) {d : Name} (hd : d ∈ t.graph) :
    ∃ path, t.getReversePreNodes d = .ok path ∧ (∀ n, n ∈ path ↔ n ∈ t.graph ∧ n ≠ d) ∧
      ∀ n next, path.lookup n = some next → next.Nodup ∧
        ∀ m, m ∈ next ↔ m ∈ t.neighNames n ∧ h.links.hops m d + 1 = h.links.hops n d := by
  obtain ⟨ids, hids, -, hlookup⟩ := visitedFrom_spec h hd none (by simp)
  replace hlookup : ∀ v ∈ t.graph, ids.getItem v = .ok (h.links.hops d v) := fun v hv =>
    Dict.getItem_eq_ok.2 (hlookup v hv (by simp))
  obtain ⟨path, s, hpath, rfl, hs⟩ := collectFrom_spec (t := t)
    (R := fun m n => h.links.hops d n = h.links.hops d m + 1) h.toSimple (· ∈ t.graph)
    (isFarther ids) ids (fun _ hm => hm)
    (fun m hm => ⟨_, hlookup m hm, fun n hn => by
      rw [isFarther, hlookup n (h.mem_of_adj hn)]
      rfl⟩)
    (fun m n _ hn _ => h.mem_of_adj hn) hd
  have hall : ∀ v ∈ t.graph, v ∈ s.expandNameList := fun v hv =>
    Links.hops_induction (P := (· ∈ s.expandNameList)) hs.root
      (fun m n _ hm hfar => hs.closed m hm n hfar.1 hfar.2) (h.connected d hd v hv)
  have hmem : ∀ m n, m ∈ linkedTo t (fun m n => h.links.hops d n = h.links.hops d m + 1)
      s.expandNameList n ↔ m ∈ t.neighNames n ∧ h.links.hops m d + 1 = h.links.hops n d := by
    intro m n
    rw [linkedTo, List.mem_filter, decide_eq_true_iff, Links.hops_comm d m, Links.hops_comm d n]
    constructor
    · exact fun hm => ⟨h.symm hm.2.1, hm.2.2.symm⟩
    · exact fun hm => ⟨hall m (h.mem_of_adj hm.1), h.symm hm.1, hm.2.symm⟩
  refine ⟨s.path, by rw [getReversePreNodes, hids]; exact hpath, fun n => ?_, ?_⟩
  · rw [← AList.lookup_isSome, hs.lookup_eq n]
    constructor
    · split
      · simp
      · next hne =>
        obtain ⟨m, hm⟩ := List.exists_mem_of_ne_nil _ hne
        obtain ⟨hadj, hfar⟩ := (hmem m n).1 hm
        refine fun _ => ⟨mem_graph_of_neighNames hadj, ?_⟩
        rintro rfl
        rw [Links.hops_self] at hfar
        omega
    · rintro ⟨hn, hne⟩
      obtain ⟨m, hm, hfar⟩ := Links.exists_nearer (h.connected d hd n hn) hne.symm
      rw [if_neg (List.ne_nil_of_mem (a := m) ?_), Option.isSome_some]
      rw [hmem, Links.hops_comm m d, Links.hops_comm n d]
      exact ⟨h.symm hfar.1, hfar.2.symm⟩
  · intro n next hnext
    rw [hs.lookup_eq n] at hnext
    split at hnext
    · simp at hnext
    · cases hnext
      exact ⟨hs.nodup.filter _, fun m => hmem m n⟩

section Pair

variable (h : t.Connected)

/-- On a shortest path: what the search from `src` to `dst` has labelled, and the walk back
reaches. -/
def Between (src dst n : Name) : Prop :=
  n ∈ t.graph ∧ h.links.hops src n + h.links.hops n dst = h.links.hops src dst

/-- The walk back from `m` goes to `n`. -/
abbrev NearerSrc (src m n : Name) : Prop := h.links.hops src n + 1 = h.links.hops src m

variable {src dst m n : Name}

theorem onShortestPath_iff_between (hs : src ∈ t.graph) (hd : dst ∈ t.graph) :
    h.links.OnShortestPath src dst n ↔ Between h src dst n := by
  rw [Links.onShortestPath_iff (h.connected src hs dst hd)]
  exact and_congr_left fun _ => ⟨h.mem_of_reachable hs, fun hn => h.connected src hs n hn⟩

theorem mem_graph_of_onShortestPath (hs : src ∈ t.graph) (hd : dst ∈ t.graph)
    (hn : h.links.OnShortestPath src dst n) : n ∈ t.graph :=
  ((onShortestPath_iff_between h hs hd).1 hn).1

variable {h}

theorem between_dst (hd : dst ∈ t.graph) : Between h src dst dst :=
  ⟨hd, by rw [Links.hops_self, Nat.add_zero]⟩

theorem hops_triangle (hs : src ∈ t.graph) (hn : n ∈ t.graph) (dst : Name) :
    h.links.hops src dst ≤ h.links.hops src n + h.links.hops n dst :=
  (h.connected src hs n hn).dist_triangle_left dst

/-- A neighbour is at most one hop farther from `dst`. -/
theorem hops_dst_le (hd : dst ∈ t.graph) (hm : m ∈ t.graph) (hn : n ∈ t.neighNames m) :
    h.links.hops n dst ≤ h.links.hops m dst + 1 := by
  rw [Links.hops_comm n, Links.hops_comm m]
  exact Links.hops_le_of_mem (h.connected dst hd m hm) hn

theorem hops_src_le (hs : src ∈ t.graph) (hm : m ∈ t.graph) (hn : n ∈ t.neighNames m) :
    h.links.hops src n ≤ h.links.hops src m + 1 :=
  Links.hops_le_of_mem (h.connected src hs m hm) hn

/-- The walk back stays on shortest paths. -/
theorem Between.back (hm : Between h src dst m) (hs : src ∈ t.graph) (hd : dst ∈ t.graph)
    (hn : n ∈ t.neighNames m) (hnear : NearerSrc h src m n) : Between h src dst n := by
  have hn' := h.mem_of_adj hn
  have htri := hops_triangle (h := h) hs hn' dst
  have hle := hops_dst_le (h := h) hd hm.1 hn
  have hsum := hm.2
  unfold NearerSrc at hnear
  exact ⟨hn', by omega⟩

/-- A step towards `dst` stays on shortest paths, and the walk back takes it the other way. -/
theorem Between.forth (hn : Between h src dst n) (hs : src ∈ t.graph) (hm : m ∈ t.neighNames n)
    (hnear : h.links.hops m dst + 1 = h.links.hops n dst) :
    Between h src dst m ∧ NearerSrc h src m n := by
  have hm' := h.mem_of_adj hm
  have htri := hops_triangle (h := h) hs hm' dst
  have hle := hops_src_le (h := h) hs hn.1 hm
  have hsum := hn.2
  exact ⟨⟨hm', by omega⟩, by unfold NearerSrc; omega⟩

/-- What the search has labelled tells the walk back where to go. -/
theorem isNearer_eq {ids : Dict Name ℕ} (hd : dst ∈ t.graph)
    (hval : ∀ v k, ids.lookup v = some k → v ∈ t.graph ∧ k = h.links.hops src v)
    (hlookup : ∀ v ∈ t.graph, (∀ d, some dst = some d →
      v = d ∨ h.links.hops src v < h.links.hops src d) →
      ids.lookup v = some (h.links.hops src v))
    (hm : Between h src dst m) :
    ids.getItem m = .ok (h.links.hops src m) ∧ ∀ n ∈ t.neighNames m,
      isNearer ids (h.links.hops src m) n = .ok (decide (NearerSrc h src m n)) := by
  have hsum := hm.2
  refine ⟨Dict.getItem_eq_ok.2 (hlookup m hm.1 ?_), fun n hn => ?_⟩
  · rintro d ⟨⟩
    by_cases hz : h.links.hops m dst = 0
    · exact .inl ((Links.hops_eq_zero (h.connected m hm.1 dst hd)).1 hz)
    · exact .inr (by omega)
  · rw [isNearer]
    cases hl : ids.lookup n with
    | some k =>
      rw [(hval n k hl).2]
      rfl
    | none =>
      -- a neighbour that is nearer has been labelled
      have hnot : ¬ NearerSrc h src m n := by
        intro hnear
        unfold NearerSrc at hnear
        rw [hlookup n (h.mem_of_adj hn) (by
          rintro d ⟨⟩
          exact .inr (by omega))] at hl
        cases hl
      simp [hnot]

variable {s : PreWalk}
  (hs' : Collected t (NearerSrc h src) (Between h src dst) dst s.expandNameList s)
include hs'

theorem mem_expandNameList (hs : src ∈ t.graph) (hd : dst ∈ t.graph) (hn : Between h src dst n) :
    n ∈ s.expandNameList := by
  refine Links.hops_induction (L := h.links) (r := dst)
    (P := fun n => Between h src dst n → n ∈ s.expandNameList) (fun _ => hs'.root) ?_
    (h.connected dst hd n hn.1) hn
  intro m n hm ih hfar hn
  have hnear : h.links.hops m dst + 1 = h.links.hops n dst := by
    rw [Links.hops_comm m, Links.hops_comm n]
    exact hfar.2.symm
  obtain ⟨hm', hback⟩ := hn.forth hs (h.symm hfar.1) hnear
  exact hs'.closed m (ih hm') n hfar.1 hback

/-- The names collected for a node are its neighbours one hop nearer `dst`. -/
theorem mem_linkedTo_iff (hs : src ∈ t.graph) (hd : dst ∈ t.graph) (hn : Between h src dst n) :
    m ∈ linkedTo t (NearerSrc h src) s.expandNameList n
      ↔ m ∈ t.neighNames n ∧ h.links.hops m dst + 1 = h.links.hops n dst := by
  rw [linkedTo, List.mem_filter, decide_eq_true_iff]
  constructor
  · rintro ⟨hm, hadj, hnear⟩
    have hsum := hn.2
    have hsum' := (hs'.good m hm).2
    unfold NearerSrc at hnear
    exact ⟨h.symm hadj, by omega⟩
  · rintro ⟨hadj, hnear⟩
    obtain ⟨hm, hback⟩ := hn.forth hs hadj hnear
    exact ⟨mem_expandNameList hs' hs hd hm, h.symm hadj, hback⟩

theorem linkedTo_ne_nil_iff (hs : src ∈ t.graph) (hd : dst ∈ t.graph) :
    linkedTo t (NearerSrc h src) s.expandNameList n ≠ [] ↔ n ≠ dst ∧ Between h src dst n := by
  constructor
  · intro hne
    obtain ⟨m, hm⟩ := List.exists_mem_of_ne_nil _ hne
    have hm' := hm
    rw [linkedTo, List.mem_filter, decide_eq_true_iff] at hm'
    have hn := (hs'.good m hm'.1).back hs hd hm'.2.1 hm'.2.2
    refine ⟨?_, hn⟩
    rintro rfl
    have hnear := ((mem_linkedTo_iff hs' hs hd hn).1 hm).2
    rw [Links.hops_self] at hnear
    omega
  · rintro ⟨hne, hn⟩
    obtain ⟨m, -, hfar⟩ := Links.exists_nearer (h.connected dst hd n hn.1) hne.symm
    refine List.ne_nil_of_mem ((mem_linkedTo_iff hs' hs hd hn).2 ⟨h.symm hfar.1, ?_⟩)
    rw [Links.hops_comm m, Links.hops_comm n]
    exact hfar.2.symm

end Pair

theorem getShortestPathsFromSrcToDst_spec (h : t.Connected) {src dst : Name}
    (hs : src ∈ t.graph) (hd : dst ∈ t.graph) (hne : src ≠ dst) :
    ∃ path, t.getShortestPathsFromSrcToDst src dst = .ok path ∧
      (∀ n, n ∈ path ↔ n ≠ dst ∧ h.links.OnShortestPath src dst n) ∧
      ∀ n next, path.lookup n = some next → next.Nodup ∧
        ∀ m, m ∈ next ↔ m ∈ t.neighNames n ∧ h.links.hops m dst + 1 = h.links.hops n dst := by
  obtain ⟨ids, hids, hval, hlookup⟩ := visitedFrom_spec h hs (some dst) (by
    rintro d ⟨⟩
    exact ⟨hd, hne.symm⟩)
  obtain ⟨path, s, hpath, rfl, hs'⟩ := collectFrom_spec (R := NearerSrc h src) h.toSimple
    (Between h src dst) (isNearer ids) ids (fun _ hm => hm.1)
    (fun m hm => ⟨_, isNearer_eq hd hval hlookup hm⟩)
    (fun m n hm hn hnear => hm.back hs hd hn hnear) (between_dst hd)
  refine ⟨s.path, by rw [getShortestPathsFromSrcToDst, hids]; exact hpath, fun n => ?_, ?_⟩
  · rw [onShortestPath_iff_between h hs hd, ← linkedTo_ne_nil_iff hs' hs hd, ← AList.lookup_isSome,
      hs'.lookup_eq n]
    split <;> simp_all
  · intro n next hnext
    rw [hs'.lookup_eq n] at hnext
    split at hnext
    · simp at hnext
    · next hnil =>
      cases hnext
      exact ⟨hs'.nodup.filter _, fun m =>
        mem_linkedTo_iff hs' hs hd ((linkedTo_ne_nil_iff hs' hs hd).1 hnil).2⟩

/-! ## The ports of a rule -/

/-- Every port leads to one of the next nodes. -/
def Leads (t : GenerateRulesIntoTables) (entity : Name) (next : List Name) (ports : List ℕ) :
    Prop :=
  ports ≠ [] ∧ ∀ port ∈ ports, ∃ m ∈ next, t.behind entity [port] = [m]

theorem filter_ethid_eq {neighbors : List NeighborNode} {neigh : NeighborNode}
    (hnd : (neighbors.map (·.ethid)).Nodup) (hmem : neigh ∈ neighbors) :
    neighbors.filter (·.ethid == neigh.ethid) = [neigh] := by
  induction neighbors with
  | nil => simp at hmem
  | cons nb neighbors ih =>
    rw [List.map_cons, List.nodup_cons] at hnd
    rcases List.mem_cons.1 hmem with rfl | hmem
    · have hnone : neighbors.filter (·.ethid == neigh.ethid) = [] :=
        List.filter_eq_nil_iff.2 fun b hb heq =>
          hnd.1 (beq_iff_eq.1 heq ▸ List.mem_map_of_mem hb)
      rw [List.filter_cons_of_pos (by simp), hnone]
    · have hne : nb.ethid ≠ neigh.ethid := fun heq => hnd.1 (heq ▸ List.mem_map_of_mem hmem)
      rw [List.filter_cons_of_neg (by simpa using hne), ih hnd.2 hmem]

theorem behind_ethid (h : t.WellFormed) {s : Name} (hs : s ∈ t.switches)
    {neighbors : List NeighborNode} (hl : t.graph.lookup s = some neighbors)
    {neigh : NeighborNode} (hmem : neigh ∈ neighbors) :
    t.behind s [neigh.ethid] = [neigh.neighName] := by
  have hnd := h.ports_nodup s hs
  rw [hl, Option.getD_some] at hnd
  rw [behind, List.flatMap_cons, List.flatMap_nil, hl, Option.getD_some,
    filter_ethid_eq hnd hmem]
  rfl

theorem find_neighName {neighbors : List NeighborNode} {m : Name}
    (hm : m ∈ neighbors.map (·.neighName)) :
    ∃ neigh ∈ neighbors, neighbors.find? (fun nb => m == nb.neighName) = some neigh ∧
      neigh.neighName = m := by
  obtain ⟨nb, hnb, rfl⟩ := List.mem_map.1 hm
  have hsome : (neighbors.find? fun b => nb.neighName == b.neighName).isSome := by
    rw [List.find?_isSome]
    exact ⟨nb, hnb, by simp⟩
  obtain ⟨neigh, hneigh⟩ := Option.isSome_iff_exists.1 hsome
  refine ⟨neigh, List.mem_of_find?_eq_some hneigh, hneigh, ?_⟩
  have hname := List.find?_some hneigh
  exact (beq_iff_eq.1 hname).symm

/-- The ports of next nodes lead to them, in their order. -/
theorem behind_portsOf (h : t.WellFormed) {s : Name} (hs : s ∈ t.switches)
    {neighbors : List NeighborNode} (hl : t.graph.lookup s = some neighbors) :
    ∀ {next : List Name}, next ⊆ neighbors.map (·.neighName) →
      t.behind s (portsOf neighbors next) = next := by
  intro next
  induction next with
  | nil => exact fun _ => rfl
  | cons m next ih =>
    intro hsub
    rw [List.cons_subset] at hsub
    obtain ⟨neigh, hmem, hfind, hname⟩ := find_neighName hsub.1
    have hports : portsOf neighbors (m :: next) = neigh.ethid :: portsOf neighbors next := by
      rw [portsOf, List.flatMap_cons, hfind]
      rfl
    have hone := behind_ethid h hs hl hmem
    rw [behind, List.flatMap_cons, List.flatMap_nil, List.append_nil] at hone
    rw [hports, behind, List.flatMap_cons, hone, hname]
    exact congrArg (m :: ·) (ih hsub.2)

theorem leads_portsOf (h : t.WellFormed) {s : Name} (hs : s ∈ t.switches)
    {neighbors : List NeighborNode} (hl : t.graph.lookup s = some neighbors) {next : List Name}
    (hsub : next ⊆ neighbors.map (·.neighName)) (hne : next ≠ []) :
    Leads t s next (portsOf neighbors next) := by
  constructor
  · intro hnil
    have := behind_portsOf h hs hl hsub
    rw [hnil] at this
    exact hne this.symm
  · intro port hport
    obtain ⟨m, hm, hport⟩ := List.mem_flatMap.1 hport
    obtain ⟨neigh, hmem, hfind, rfl⟩ := find_neighName (hsub hm)
    rw [hfind, Option.map_some, Option.mem_toList, Option.some.injEq] at hport
    subst hport
    exact ⟨_, hm, behind_ethid h hs hl hmem⟩

theorem joinable_eq {ports : List ℕ} (h : ports ≠ []) : joinable ports = .ok ports := if_neg h

/-- The port of the first next node is that of one of the neighbours of its name. -/
theorem portidOf_spec {neighbors : List NeighborNode} {m : Name} (next : List Name)
    (hm : m ∈ neighbors.map (·.neighName)) :
    ∃ neigh ∈ neighbors, neigh.neighName = m ∧
      portidOf neighbors (m :: next) = .ok neigh.ethid := by
  have hstep : ∀ (pre : List NeighborNode) (nb : NeighborNode) (portid : ℕ),
      pre ++ [nb] <+: neighbors →
      (m ∈ pre.map (·.neighName) → ∃ neigh ∈ pre, neigh.neighName = m ∧ portid = neigh.ethid) →
      ∃ portid', (Except.ok (if nb.neighName = m then nb.ethid else portid) : Except PyError ℕ)
        = .ok portid' ∧ (m ∈ (pre ++ [nb]).map (·.neighName) →
          ∃ neigh ∈ pre ++ [nb], neigh.neighName = m ∧ portid' = neigh.ethid) := by
    intro pre nb portid _ hinv
    refine ⟨_, rfl, fun hmem => ?_⟩
    by_cases heq : nb.neighName = m
    · exact ⟨nb, by simp, heq, if_pos heq⟩
    · rw [List.map_append, List.mem_append] at hmem
      have hpre := hmem.resolve_right fun hn => heq (by
        rw [List.map_cons, List.map_nil, List.mem_singleton] at hn
        exact hn.symm)
      obtain ⟨neigh, hneigh, hname, hval⟩ := hinv hpre
      exact ⟨neigh, List.mem_append_left _ hneigh, hname, by rw [if_neg heq, hval]⟩
  obtain ⟨portid, hport, hinv⟩ := foldlM_spec _ hstep (s := 1) (by simp)
  obtain ⟨neigh, hneigh, hname, rfl⟩ := hinv hm
  exact ⟨neigh, hneigh, hname, hport⟩

/-- The rules along a path: those of one entity are the ones written for it. -/
theorem rulesAlong_spec {rulesAt : Name → List Name → Except PyError (List FlowRule)}
    {path : Dict Name (List Name)}
    (hok : ∀ n next, path.lookup n = some next → ∃ rs, rulesAt n next = .ok rs)
    (htag : ∀ n next rs, rulesAt n next = .ok rs → ∀ r ∈ rs, r.entity = n) :
    ∃ rules, rulesAlong rulesAt path = .ok rules ∧
      (∀ n next rs, path.lookup n = some next → rulesAt n next = .ok rs →
        rules.filter (·.entity = n) = rs) ∧
      ∀ r ∈ rules, ∃ next, path.lookup r.entity = some next ∧
        ∃ rs, rulesAt r.entity next = .ok rs ∧ r ∈ rs := by
  have hkeys : ∀ e ∈ path.items, ∀ e' ∈ path.items, e.1 = e'.1 → e = e' := by
    rintro ⟨n, next⟩ he ⟨n', next'⟩ he' rfl
    rw [Dict.mem_items] at he he'
    rw [he, Option.some.injEq] at he'
    rw [he']
  obtain ⟨rss, hrss, hfilter⟩ := mapM_tagged (l := path.items)
    (f := fun e => rulesAt e.1 e.2) (fun (r : FlowRule) e => r.entity = e.1)
    (List.Nodup.of_map _ path.items_keys_nodup) (fun e he => hok e.1 e.2 (Dict.mem_items.1 he))
    (fun e he rs hrs r hr e' he' => by
      rw [htag e.1 e.2 rs hrs r hr]
      exact ⟨fun heq => (hkeys e he e' he' heq).symm, fun heq => heq ▸ rfl⟩)
  refine ⟨rss.flatten, by rw [rulesAlong, hrss]; rfl, ?_, ?_⟩
  · exact fun n next rs hl hrs => hfilter (n, next) (Dict.mem_items.2 hl) rs hrs
  · intro r hr
    obtain ⟨rs, hrs, hr⟩ := List.mem_flatten.1 hr
    obtain ⟨e, he, hrs'⟩ := mapM_mem hrss rs hrs
    have htag' := htag e.1 e.2 rs hrs' r hr
    refine ⟨e.2, ?_, rs, ?_, hr⟩
    · rw [htag']
      exact Dict.mem_items.1 he
    · rw [htag']
      exact hrs'

/-- The rules of all hosts, which name the prefix of their host in one field of the match: those
with the prefix of a host are its own. -/
theorem hostRules_spec (h : t.WellFormed) (field : FlowRule → Option (List UInt8))
    {f : Name → Except PyError (List FlowRule)}
    (hf : ∀ d ∈ t.hosts, ∃ rules, f d = .ok rules ∧
      ∀ r ∈ rules, field r = t.hostIpprefixMap.lookup d) :
    ∃ rss, t.hosts.mapM f = .ok rss ∧ ∀ d ∈ t.hosts, ∀ rules, f d = .ok rules →
      rss.flatten.filter (fun r => field r = t.hostIpprefixMap.lookup d) = rules := by
  refine mapM_tagged (fun r d => field r = t.hostIpprefixMap.lookup d) h.hosts_nodup
    (fun d hd => (hf d hd).imp fun _ hr => hr.1) fun d hd rs hrs r hr d' hd' => ?_
  obtain ⟨rules, hrules, hfield⟩ := hf d hd
  rw [hrules, Except.ok.injEq] at hrs
  subst hrs
  rw [hfield r hr]
  exact ⟨fun heq => (h.prefix_inj d hd d' hd' heq).symm, fun heq => heq ▸ rfl⟩

/-- The rules at a switch come from what its neighbours give and from the prefix of a host. -/
theorem rules_of_prefix {α β : Type} {x : Except PyError α} {y : α → Except PyError β}
    {host : Name} {rules : β → List UInt8 → List FlowRule} {rs : List FlowRule}
    (hrs : (do
      let neighbors ← x
      let ports ← y neighbors
      let ipPrefix ← t.hostIpprefixMap.getItem host
      return rules ports ipPrefix) = .ok rs) :
    ∃ ports ipPrefix, t.hostIpprefixMap.lookup host = some ipPrefix
      ∧ rules ports ipPrefix = rs := by
  obtain ⟨neighbors, -, hrs⟩ := bind_eq_ok.1 hrs
  obtain ⟨ports, -, hrs⟩ := bind_eq_ok.1 hrs
  obtain ⟨ipPrefix, hp, hrs⟩ := bind_eq_ok.1 hrs
  exact ⟨ports, ipPrefix, Dict.getItem_eq_ok.1 hp, Except.ok.inj hrs⟩

/-! ## Normal packets -/

theorem normalRulesAt_tag {installRuleType : ℕ} {host n : Name} {next : List Name}
    {rs : List FlowRule} (hrs : t.normalRulesAt installRuleType host n next = .ok rs) :
    ∀ r ∈ rs, r.entity = n ∧ r.nwDst = t.hostIpprefixMap.lookup host := by
  rw [normalRulesAt] at hrs
  split at hrs
  · cases hrs
    simp
  split at hrs
  · obtain ⟨_, _, hp, rfl⟩ := rules_of_prefix hrs
    simp [hp]
  split at hrs
  · obtain ⟨_, _, hp, rfl⟩ := rules_of_prefix hrs
    simp [hp]
  · cases hrs
    simp

/-- Where single-path rules are installed, a switch has one IP rule and one ARP rule of the same
action, whose ports lead to the next nodes. -/
theorem normalRulesAt_switch (h : t.WellFormed) {installRuleType : ℕ}
    (htype : installRuleType ≠ ONLY_ECMP_PATH_RULE) {host s : Name} (hs : s ∈ t.switches)
    {ipPrefix : List UInt8} (hp : t.hostIpprefixMap.lookup host = some ipPrefix)
    {next : List Name} (hsub : next ⊆ t.neighNames s) (hne : next ≠ []) :
    ∃ action, Leads t s next action.ports ∧ t.normalRulesAt installRuleType host s next
      = .ok [⟨s, 0x0800, none, none, some ipPrefix, some LOW_PRIORITY, action⟩,
        ⟨s, 0x0806, none, none, some ipPrefix, none, action⟩] := by
  obtain ⟨hgraph, hswitch⟩ := (h.mem_switches s).1 hs
  obtain ⟨neighbors, hget, hl, hnames⟩ := getItem_graph hgraph
  rw [← hnames] at hsub
  have hget' : t.hostIpprefixMap.getItem host = .ok ipPrefix := Dict.getItem_eq_ok.2 hp
  rw [normalRulesAt, if_neg (by simp [hswitch])]
  split
  · have hleads := leads_portsOf h hs hl hsub hne
    refine ⟨.bundle (portsOf neighbors next), hleads, ?_⟩
    rw [hget, hget']
    simp only [bind, Except.bind, joinable_eq hleads.1]
    rfl
  · cases next with
    | nil => exact absurd rfl hne
    | cons m next =>
      obtain ⟨neigh, hmem, rfl, hport⟩ := portidOf_spec next
        (hsub List.mem_cons_self)
      refine ⟨.output [neigh.ethid], ⟨by simp [Action.ports], fun port hmem' => ?_⟩, ?_⟩
      · rw [Action.ports, List.mem_singleton] at hmem'
        subst hmem'
        exact ⟨_, List.mem_cons_self, behind_ethid h hs hl hmem⟩
      · rw [hget, hget']
        simp only [bind, Except.bind, hport]
        rfl

/-- Towards a host every switch has next nodes. -/
theorem next_ne_nil (h : t.Connected) {d n : Name} (hd : d ∈ t.graph) (hn : n ∈ t.graph)
    (hne : n ≠ d) {next : List Name}
    (hnext : ∀ m, m ∈ next ↔ m ∈ t.neighNames n ∧ h.links.hops m d + 1 = h.links.hops n d) :
    next ≠ [] := by
  obtain ⟨m, -, hfar⟩ := Links.exists_nearer (h.connected d hd n hn) hne.symm
  refine List.ne_nil_of_mem ((hnext m).2 ⟨h.symm hfar.1, ?_⟩)
  rw [Links.hops_comm m, Links.hops_comm n]
  exact hfar.2.symm

/-- The rules towards one host. -/
theorem normalRules_host (h : t.WellFormed) {installRuleType : ℕ}
    (htype : installRuleType ≠ ONLY_ECMP_PATH_RULE) {d : Name} (hd : d ∈ t.hosts)
    {ipPrefix : List UInt8} (hp : t.hostIpprefixMap.lookup d = some ipPrefix)
    {path : Dict Name (List Name)} (hpath : t.getReversePreNodes d = .ok path) :
    ∃ rules, rulesAlong (t.normalRulesAt installRuleType d) path = .ok rules ∧
      (∀ r ∈ rules, r.nwDst = some ipPrefix) ∧
      ∀ s ∈ t.switches, ∃ next action, path.lookup s = some next ∧ Leads t s next action.ports ∧
        rules.filter (·.entity = s)
          = [⟨s, 0x0800, none, none, some ipPrefix, some LOW_PRIORITY, action⟩,
            ⟨s, 0x0806, none, none, some ipPrefix, none, action⟩] := by
  obtain ⟨hdg, hdh⟩ := (h.mem_hosts d).1 hd
  obtain ⟨path', hpath', hkeys, hnext⟩ := getReversePreNodes_spec h.toConnected hdg
  rw [hpath', Except.ok.injEq] at hpath
  subst hpath
  have hswitch : ∀ s ∈ t.switches, ∀ next, path'.lookup s = some next → ∃ action,
      Leads t s next action.ports ∧ t.normalRulesAt installRuleType d s next
        = .ok [⟨s, 0x0800, none, none, some ipPrefix, some LOW_PRIORITY, action⟩,
          ⟨s, 0x0806, none, none, some ipPrefix, none, action⟩] := by
    intro s hs next hl
    obtain ⟨hsg, hne⟩ := (hkeys s).1 (AList.lookup_isSome.1 (by rw [hl]; rfl))
    have hmem := (hnext s next hl).2
    exact normalRulesAt_switch h htype hs hp (fun m hm => ((hmem m).1 hm).1)
      (next_ne_nil h.toConnected hdg hsg hne hmem)
  have hok : ∀ n next, path'.lookup n = some next →
      ∃ rs, t.normalRulesAt installRuleType d n next = .ok rs := by
    intro n next hl
    have hng := ((hkeys n).1 (AList.lookup_isSome.1 (by rw [hl]; rfl))).1
    cases hn : isHost n with
    | true => exact ⟨[], by rw [normalRulesAt, if_pos hn]; rfl⟩
    | false =>
      obtain ⟨_, -, hrs⟩ := hswitch n ((h.mem_switches n).2 ⟨hng, hn⟩) next hl
      exact ⟨_, hrs⟩
  obtain ⟨rules, hrules, hfilter, hmem⟩ := rulesAlong_spec hok
    fun n next rs hrs r hr => (normalRulesAt_tag hrs r hr).1
  refine ⟨rules, hrules, fun r hr => ?_, fun s hs => ?_⟩
  · obtain ⟨next, -, rs, hrs, hr⟩ := hmem r hr
    rw [(normalRulesAt_tag hrs r hr).2, hp]
  · obtain ⟨hsg, hsh⟩ := (h.mem_switches s).1 hs
    have hne : s ≠ d := by
      rintro rfl
      rw [hdh] at hsh
      cases hsh
    obtain ⟨next, hl⟩ := Option.isSome_iff_exists.1 (AList.lookup_isSome.2 ((hkeys s).2 ⟨hsg, hne⟩))
    obtain ⟨action, hleads, hrs⟩ := hswitch s hs next hl
    exact ⟨next, action, hl, hleads, hfilter s next _ hl hrs⟩

/-- Every switch has one IP rule for the prefix of each host. -/
theorem normalRules_ipRules (h : t.WellFormed) {installRuleType : ℕ}
    (htype : installRuleType ≠ ONLY_ECMP_PATH_RULE) :
    ∃ rules, t.generateRulesForNormalPackets installRuleType = .ok rules ∧
      ∀ d ∈ t.hosts, ∃ ipPrefix path, t.hostIpprefixMap.lookup d = some ipPrefix ∧
        t.getReversePreNodes d = .ok path ∧
        ∀ s ∈ t.switches, ∃ next action, path.lookup s = some next ∧
          Leads t s next action.ports ∧ ipRules rules ipPrefix s
            = [⟨s, 0x0800, none, none, some ipPrefix, some LOW_PRIORITY, action⟩] := by
  have hhost : ∀ d ∈ t.hosts, ∃ ipPrefix path rules, t.hostIpprefixMap.lookup d = some ipPrefix ∧
      t.getReversePreNodes d = .ok path ∧
      rulesAlong (t.normalRulesAt installRuleType d) path = .ok rules ∧
      (∀ r ∈ rules, r.nwDst = some ipPrefix) ∧
      ∀ s ∈ t.switches, ∃ next action, path.lookup s = some next ∧
        Leads t s next action.ports ∧ rules.filter (·.entity = s)
          = [⟨s, 0x0800, none, none, some ipPrefix, some LOW_PRIORITY, action⟩,
            ⟨s, 0x0806, none, none, some ipPrefix, none, action⟩] := by
    intro d hd
    obtain ⟨ipPrefix, hp⟩ := Option.isSome_iff_exists.1 (AList.lookup_isSome.2 (h.has_prefix d hd))
    obtain ⟨path, hpath, -⟩ := getReversePreNodes_spec h.toConnected ((h.mem_hosts d).1 hd).1
    obtain ⟨rules, hrules, hdst, hsw⟩ := normalRules_host h htype hd hp hpath
    exact ⟨ipPrefix, path, rules, hp, hpath, hrules, hdst, hsw⟩
  let f : Name → Except PyError (List FlowRule) := fun host => do
    rulesAlong (t.normalRulesAt installRuleType host) (← t.getReversePreNodes host)
  have hf : ∀ d path rules, t.getReversePreNodes d = .ok path →
      rulesAlong (t.normalRulesAt installRuleType d) path = .ok rules → f d = .ok rules :=
    fun d path rules hpath hrules => bind_eq_ok.2 ⟨path, hpath, hrules⟩
  obtain ⟨rss, hrss, hfilter⟩ := hostRules_spec h FlowRule.nwDst (f := f)
    (fun d hd => by
      obtain ⟨ipPrefix, path, rules, hp, hpath, hrules, hdst, -⟩ := hhost d hd
      exact ⟨rules, hf d path rules hpath hrules, fun r hr => (hdst r hr).trans hp.symm⟩)
  refine ⟨rss.flatten, by rw [generateRulesForNormalPackets, hrss]; rfl, fun d hd => ?_⟩
  obtain ⟨ipPrefix, path, rules, hp, hpath, hrules, -, hsw⟩ := hhost d hd
  refine ⟨ipPrefix, path, hp, hpath, fun s hs => ?_⟩
  obtain ⟨next, action, hl, hleads, hrs⟩ := hsw s hs
  refine ⟨next, action, hl, hleads, ?_⟩
  have hd' := hfilter d hd rules (hf d path rules hpath hrules)
  rw [hp] at hd'
  have hsplit : ipRules rss.flatten ipPrefix s
      = ((rss.flatten.filter (·.nwDst = some ipPrefix)).filter (·.entity = s)).filter
        (·.dlType = 0x0800) := by
    rw [ipRules, List.filter_filter, List.filter_filter]
    refine List.filter_congr fun r _ => ?_
    by_cases h₁ : r.entity = s <;> by_cases h₂ : r.dlType = 0x0800 <;> simp [h₁, h₂]
  rw [hsplit, hd', hrs]
  rfl

/-- From any switch a packet is at the host after exactly its hop distance. -/
theorem normalRules_arrive (h : t.WellFormed) {rules : List FlowRule} {d : Name}
    (hd : d ∈ t.hosts) {ipPrefix : List UInt8} {path : Dict Name (List Name)}
    (hpath : t.getReversePreNodes d = .ok path)
    (hrules : ∀ s ∈ t.switches, ∃ next action, path.lookup s = some next ∧
      Leads t s next action.ports ∧ ipRules rules ipPrefix s
        = [⟨s, 0x0800, none, none, some ipPrefix, some LOW_PRIORITY, action⟩]) :
    ∀ s ∈ t.switches, t.Arrives rules ipPrefix d (h.links.hops s d) s := by
  obtain ⟨hdg, hdh⟩ := (h.mem_hosts d).1 hd
  obtain ⟨path', hpath', -, hnext⟩ := getReversePreNodes_spec h.toConnected hdg
  rw [hpath', Except.ok.injEq] at hpath
  subst hpath
  intro s hs
  induction hk : h.links.hops s d generalizing s with
  | zero =>
    have := (Links.hops_eq_zero (h.connected s ((h.mem_switches s).1 hs).1 d hdg)).1 hk
    exact this
  | succ k ih =>
    obtain ⟨next, action, hl, hleads, hone⟩ := hrules s hs
    refine ⟨⟨_, by rw [hone]; exact List.mem_singleton_self _, hleads.1⟩, ?_⟩
    intro r hr port hport
    rw [hone, List.mem_singleton] at hr
    subst hr
    obtain ⟨m, hm, hbehind⟩ := hleads.2 port hport
    obtain ⟨hadj, hfar⟩ := ((hnext s next hl).2 m).1 hm
    refine ⟨m, hbehind, ?_⟩
    have hmg := h.mem_of_adj hadj
    cases hmh : isHost m with
    | false => exact ih m ((h.mem_switches m).2 ⟨hmg, hmh⟩) (by omega)
    | true =>
      have hmd : m = d := by
        refine h.host_eq_root hdg ((h.mem_hosts m).2 ⟨hmg, hmh⟩) (v := s) ⟨h.symm hadj, ?_⟩
        rw [Links.hops_comm d, Links.hops_comm d]
        exact hfar.symm
      subst hmd
      have hk₀ : k = 0 := by
        rw [Links.hops_self] at hfar
        omega
      subst hk₀
      rfl

/-- Normal forwarding is loop-free shortest-path routing. -/
theorem normalForwarding_shortest (h : t.WellFormed) {d : Name} (hd : d ∈ t.hosts) :
    (∃ path, t.getReversePreNodes d = .ok path ∧ (∀ n, n ∈ path ↔ n ∈ t.graph ∧ n ≠ d) ∧
      ∀ n next, path.lookup n = some next → next.Nodup ∧
        ∀ m, m ∈ next ↔ m ∈ t.neighNames n ∧ h.links.hops m d + 1 = h.links.hops n d) ∧
    ∀ installRuleType, installRuleType = ONLY_SINGLE_PATH_RULE ∨
        installRuleType = BOTH_SINGLE_AND_ECMP_PATH_RULE →
      ∃ rules ipPrefix, t.generateRulesForNormalPackets installRuleType = .ok rules ∧
        t.hostIpprefixMap.lookup d = some ipPrefix ∧
        ∀ s ∈ t.switches, (ipRules rules ipPrefix s).length = 1 ∧
          t.Arrives rules ipPrefix d (h.links.hops s d) s := by
  refine ⟨getReversePreNodes_spec h.toConnected ((h.mem_hosts d).1 hd).1,
    fun installRuleType htype => ?_⟩
  have hne : installRuleType ≠ ONLY_ECMP_PATH_RULE := by
    rcases htype with rfl | rfl <;> decide
  obtain ⟨rules, hrules, hall⟩ := normalRules_ipRules h hne
  obtain ⟨ipPrefix, path, hp, hpath, hsw⟩ := hall d hd
  refine ⟨rules, ipPrefix, hrules, hp, fun s hs => ⟨?_, normalRules_arrive h hd hpath hsw s hs⟩⟩
  obtain ⟨_, _, -, -, hone⟩ := hsw s hs
  rw [hone, List.length_singleton]

theorem normalForwarding_square : ∃ rules ipPrefix,
    square.generateRulesForNormalPackets BOTH_SINGLE_AND_ECMP_PATH_RULE = .ok rules ∧
    square.hostIpprefixMap.lookup (chars "h2") = some ipPrefix ∧
    ∀ s ∈ square.switches, (ipRules rules ipPrefix s).length = 1 ∧
      square.Arrives rules ipPrefix (chars "h2") (square_wellFormed.links.hops s (chars "h2")) s :=
  (normalForwarding_shortest square_wellFormed (d := chars "h2") (by decide +kernel)).2 _ (.inr rfl)

/-! ## Two sources -/

theorem pairRulesAt_tag {d n : Name} {next : List Name} {rs : List FlowRule}
    (hrs : t.pairRulesAt d n next = .ok rs) : ∀ r ∈ rs, r.entity = n := by
  rw [pairRulesAt] at hrs
  split at hrs
  · cases hrs
    simp
  split at hrs <;>
  · obtain ⟨_, _, -, rfl⟩ := rules_of_prefix hrs
    simp

section Switch

variable {d s : Name} {neighbors : List NeighborNode} {ipPrefix : List UInt8} {next : List Name}

theorem pairRulesAt_many (hs : isHost s = false) (hget : t.graph.getItem s = .ok neighbors)
    (hp : t.hostIpprefixMap.getItem d = .ok ipPrefix) (hlong : 1 < next.length)
    (hports : portsOf neighbors next ≠ []) :
    t.pairRulesAt d s next
      = .ok [⟨s, 0x0800, some 17, none, some ipPrefix, some HIGH_PRIORITY,
          .output (portsOf neighbors next)⟩,
        ⟨s, 0x0800, none, none, some ipPrefix, some LOW_PRIORITY,
          .bundle (portsOf neighbors next)⟩,
        ⟨s, 0x0806, none, none, some ipPrefix, none, .bundle (portsOf neighbors next)⟩] := by
  rw [pairRulesAt, if_neg (by simp [hs]), if_pos hlong, hget, hp]
  simp only [bind, Except.bind, joinable_eq hports]
  rfl

theorem pairRulesAt_one (hs : isHost s = false) (hget : t.graph.getItem s = .ok neighbors)
    (hp : t.hostIpprefixMap.getItem d = .ok ipPrefix) (hshort : ¬ 1 < next.length) {portid : ℕ}
    (hport : portidOf neighbors next = .ok portid) :
    t.pairRulesAt d s next
      = .ok [⟨s, 0x0800, none, none, some ipPrefix, none, .output [portid]⟩,
        ⟨s, 0x0806, none, none, some ipPrefix, none, .output [portid]⟩] := by
  rw [pairRulesAt, if_neg (by simp [hs]), if_neg hshort, hget, hp]
  simp only [bind, Except.bind, hport]
  rfl

end Switch

/-- The ports of next nodes that are neighbours. -/
theorem portsOf_ne_nil {neighbors : List NeighborNode} {next : List Name}
    (hsub : next ⊆ neighbors.map (·.neighName)) (hne : next ≠ []) :
    portsOf neighbors next ≠ [] := by
  obtain ⟨m, hm⟩ := List.exists_mem_of_ne_nil _ hne
  obtain ⟨neigh, -, hfind, -⟩ := find_neighName (hsub hm)
  refine List.ne_nil_of_mem (a := neigh.ethid) (List.mem_flatMap.2 ⟨m, hm, ?_⟩)
  simp [hfind]

theorem pairRulesAt_agree {d s : Name} (hd : d ∈ t.hostIpprefixMap) (hs : s ∈ t.graph)
    (hswitch : isHost s = false) {next next' : List Name} (hsub : next ⊆ t.neighNames s)
    (hne : next ≠ []) (hperm : next.Perm next') :
    ∃ rs rs', t.pairRulesAt d s next = .ok rs ∧ t.pairRulesAt d s next' = .ok rs' ∧
      List.Forall₂ FlowRule.Agree rs rs' := by
  obtain ⟨neighbors, hget, -, hnames⟩ := getItem_graph hs
  obtain ⟨ipPrefix, hp⟩ := Option.isSome_iff_exists.1 (AList.lookup_isSome.2 hd)
  replace hp := Dict.getItem_eq_ok.2 hp
  rw [← hnames] at hsub
  by_cases hlong : 1 < next.length
  · have hports : (portsOf neighbors next).Perm (portsOf neighbors next') := hperm.flatMap_right _
    have hnil := portsOf_ne_nil hsub hne
    have hnil' : portsOf neighbors next' ≠ [] := fun h => hnil (List.Perm.eq_nil (h ▸ hports))
    exact ⟨_, _, pairRulesAt_many hswitch hget hp hlong hnil,
      pairRulesAt_many hswitch hget hp (hperm.length_eq ▸ hlong) hnil',
      .cons ⟨rfl, hports⟩ (.cons ⟨rfl, hports⟩ (.cons ⟨rfl, hports⟩ .nil))⟩
  · obtain ⟨m, rfl⟩ : ∃ m, next = [m] := by
      match next, hne with
      | [m], _ => exact ⟨m, rfl⟩
      | _ :: _ :: _, _ => simp at hlong
    obtain rfl := List.singleton_perm.1 hperm
    obtain ⟨neigh, -, -, hport⟩ := portidOf_spec [] (hsub List.mem_cons_self)
    have hrs := pairRulesAt_one hswitch hget hp hlong hport
    exact ⟨_, _, hrs, hrs, .cons ⟨rfl, .refl _⟩ (.cons ⟨rfl, .refl _⟩ .nil)⟩

/-- The rules from one node to another, entity by entity. -/
theorem pairRules_spec (h : t.Connected) {src dst : Name} (hs : src ∈ t.graph)
    (hd : dst ∈ t.graph) (hp : dst ∈ t.hostIpprefixMap) (hne : src ≠ dst)
    {path : Dict Name (List Name)} (hpath : t.getShortestPathsFromSrcToDst src dst = .ok path) :
    ∃ rules, t.pairRules src dst = .ok rules ∧
      (∀ n next rs, path.lookup n = some next → t.pairRulesAt dst n next = .ok rs →
        rules.filter (·.entity = n) = rs) ∧
      ∀ r ∈ rules, isHost r.entity = false ∧ r.entity ∈ path := by
  obtain ⟨path', hpath', hkeys, hnext⟩ := getShortestPathsFromSrcToDst_spec h hs hd hne
  rw [hpath', Except.ok.injEq] at hpath
  subst hpath
  have hok : ∀ n next, path'.lookup n = some next → ∃ rs, t.pairRulesAt dst n next = .ok rs := by
    intro n next hl
    cases hn : isHost n with
    | true => exact ⟨[], by rw [pairRulesAt, if_pos hn]; rfl⟩
    | false =>
      obtain ⟨hnd, hon⟩ := (hkeys n).1 (AList.lookup_isSome.1 (by rw [hl]; rfl))
      have hng := mem_graph_of_onShortestPath h hs hd hon
      have hmem := (hnext n next hl).2
      obtain ⟨rs, -, hrs, -⟩ := pairRulesAt_agree hp hng hn (fun m hm => ((hmem m).1 hm).1)
        (next_ne_nil h hd hng hnd hmem) (.refl next)
      exact ⟨rs, hrs⟩
  obtain ⟨rules, hrules, hfilter, hmem⟩ := rulesAlong_spec hok
    fun n next rs hrs => pairRulesAt_tag hrs
  refine ⟨rules, by rw [pairRules, hpath']; exact hrules, hfilter, fun r hr => ?_⟩
  obtain ⟨next, hl, rs, hrs, hr'⟩ := hmem r hr
  refine ⟨?_, AList.lookup_isSome.1 (by rw [hl]; rfl)⟩
  cases hn : isHost r.entity with
  | false => rfl
  | true =>
    rw [pairRulesAt, if_pos hn] at hrs
    cases hrs
    simp at hr'

/-- At every node on its paths, a pair of nodes has the next nodes that its destination has. -/
theorem pairPaths_eq (h : t.Connected) {src dst : Name} (hs : src ∈ t.graph) (hd : dst ∈ t.graph)
    (hne : src ≠ dst) :
    ∃ path pre, t.getShortestPathsFromSrcToDst src dst = .ok path ∧
      t.getReversePreNodes dst = .ok pre ∧
      (∀ n, n ∈ path ↔ n ≠ dst ∧ h.links.OnShortestPath src dst n) ∧
      ∀ n next, path.lookup n = some next → ∃ next', pre.lookup n = some next' ∧
        next.Perm next' ∧ next ⊆ t.neighNames n ∧ next ≠ [] := by
  obtain ⟨path, hpath, hkeys, hnext⟩ := getShortestPathsFromSrcToDst_spec h hs hd hne
  obtain ⟨pre, hpre, hkeys', hnext'⟩ := getReversePreNodes_spec h hd
  refine ⟨path, pre, hpath, hpre, hkeys, fun n next hl => ?_⟩
  obtain ⟨hnd, hon⟩ := (hkeys n).1 (AList.lookup_isSome.1 (by rw [hl]; rfl))
  have hng := mem_graph_of_onShortestPath h hs hd hon
  obtain ⟨next', hl'⟩ :=
    Option.isSome_iff_exists.1 (AList.lookup_isSome.2 ((hkeys' n).2 ⟨hng, hnd⟩))
  obtain ⟨hndp, hmem⟩ := hnext n next hl
  obtain ⟨hndp', hmem'⟩ := hnext' n next' hl'
  refine ⟨next', hl', ?_, fun m hm => ((hmem m).1 hm).1, next_ne_nil h hd hng hnd hmem⟩
  exact (List.perm_ext_iff_of_nodup hndp hndp').2 fun m => (hmem m).trans (hmem' m).symm

/-- Routing per pair and per destination agree on every connected simple topology, and so do the
rules of two sources, where the destination has the prefix that they name. -/
theorem pairRouting_agrees (h : t.Connected) {src dst : Name} (hs : src ∈ t.hosts)
    (hd : dst ∈ t.hosts) (hne : src ≠ dst) :
    (∃ path pre, t.getShortestPathsFromSrcToDst src dst = .ok path ∧
      t.getReversePreNodes dst = .ok pre ∧
      (∀ n, n ∈ path ↔ n ≠ dst ∧ h.links.OnShortestPath src dst n) ∧
      ∀ n next, path.lookup n = some next → ∃ next', pre.lookup n = some next' ∧
        ∀ m, m ∈ next ↔ m ∈ next') ∧
    (dst ∈ t.hostIpprefixMap → ∀ src' ∈ t.hosts, src' ≠ dst →
      ∃ rules rules', t.pairRules src dst = .ok rules ∧
        t.pairRules src' dst = .ok rules' ∧ ∀ s, rules.filter (·.entity = s) ≠ [] →
          rules'.filter (·.entity = s) ≠ [] →
          List.Forall₂ FlowRule.Agree (rules.filter (·.entity = s))
            (rules'.filter (·.entity = s))) := by
  have hsg := h.hosts_mem src hs
  have hdg := h.hosts_mem dst hd
  obtain ⟨path, pre, hpath, hpre, hkeys, hnext⟩ := pairPaths_eq h hsg hdg hne
  refine ⟨⟨path, pre, hpath, hpre, hkeys, fun n next hl => ?_⟩, fun hp src' hs' hne' => ?_⟩
  · obtain ⟨next', hl', hperm, -⟩ := hnext n next hl
    exact ⟨next', hl', fun m => hperm.mem_iff⟩
  · have hsg' := h.hosts_mem src' hs'
    obtain ⟨path', pre', hpath', hpre', hkeys', hnext'⟩ := pairPaths_eq h hsg' hdg hne'
    rw [hpre, Except.ok.injEq] at hpre'
    subst hpre'
    obtain ⟨rules, hrules, hfilter, hmem⟩ := pairRules_spec h hsg hdg hp hne hpath
    obtain ⟨rules', hrules', hfilter', hmem'⟩ := pairRules_spec h hsg' hdg hp hne' hpath'
    refine ⟨rules, rules', hrules, hrules', fun s h₁ h₂ => ?_⟩
    obtain ⟨r, hr⟩ := List.exists_mem_of_ne_nil _ h₁
    obtain ⟨r', hr'⟩ := List.exists_mem_of_ne_nil _ h₂
    rw [List.mem_filter, decide_eq_true_iff] at hr hr'
    obtain ⟨hr, rfl⟩ := hr
    obtain ⟨hr', heq⟩ := hr'
    obtain ⟨hhost, hin⟩ := hmem r hr
    have hin' := (hmem' r' hr').2
    rw [heq] at hin'
    obtain ⟨next, hl⟩ := Option.isSome_iff_exists.1 (AList.lookup_isSome.2 hin)
    obtain ⟨next', hl'⟩ := Option.isSome_iff_exists.1 (AList.lookup_isSome.2 hin')
    obtain ⟨next₀, hl₀, hperm, hsub, hnil⟩ := hnext _ next hl
    obtain ⟨next₁, hl₁, hperm', -⟩ := hnext' _ next' hl'
    rw [hl₀, Option.some.injEq] at hl₁
    subst hl₁
    have hng := mem_graph_of_onShortestPath h hsg hdg ((hkeys _).1 hin).2
    obtain ⟨rs, rs', hrs, hrs', hagree⟩ := pairRulesAt_agree hp hng hhost hsub hnil
      (hperm.trans hperm'.symm)
    rw [hfilter _ next rs hl hrs, hfilter' _ next' rs' hl' hrs']
    exact hagree

theorem pairRouting_square : ∃ path pre,
    square.getShortestPathsFromSrcToDst (chars "h1") (chars "h2") = .ok path ∧
    square.getReversePreNodes (chars "h2") = .ok pre ∧
    ∀ n next, path.lookup n = some next → ∃ next', pre.lookup n = some next' ∧
      ∀ m, m ∈ next ↔ m ∈ next' := by
  obtain ⟨⟨path, pre, hpath, hpre, -, hnext⟩, -⟩ := pairRouting_agrees
    square_wellFormed.toConnected
    (by simp [hosts_square] : chars "h1" ∈ square.hosts)
    (by simp [hosts_square] : chars "h2" ∈ square.hosts) (by decide +kernel)
  exact ⟨path, pre, hpath, hpre, hnext⟩

end GenerateRulesIntoTables

end CMTestbed
