import CMTestbed.Lib.FirstPath
import CMTestbed.Proofs.Routing

/-!
# Flooding condition packets

The next nodes of the condition packets of a host form a tree: a node is in the next list of the
last but one on the first of the shortest paths to it (`getForwardNextNodes_spec`).  A switch that
is on no first path but as its end has no next node, and the rules are not written.
-/

namespace CMTestbed

open Lib

namespace GenerateRulesIntoTables

variable {t : GenerateRulesIntoTables}

/-! ## The tree -/

section Forward

variable {h : t.Simple} {src now : Name} {done : List Name} {s s' : ForwardWalk}

/-- What the forward loop keeps: a breadth-first list, and of each name that is done the nodes whose
parent it is. -/
structure Forwarded (h : t.Simple) (src : Name) (done : List Name) (s : ForwardWalk) : Prop where
  layers : h.links.FirstLayers src done s.expandNameList
  included : ∀ v, v ∈ s.nodeIncluded ↔ v ∈ s.expandNameList ∧ v ≠ src
  path : ∀ u ∈ done, ∃ next, s.path.lookup u = some next ∧ next.Nodup ∧
    ∀ v, v ∈ next ↔ h.links.Parent src u v
  keys : ∀ u, u ∉ done → s.path.lookup u = none

/-- The same in the midst of a turn for `now`, after the neighbours `pre`. -/
structure Forwarding (src now : Name) (s : ForwardWalk) (pre : List NeighborNode)
    (s' : ForwardWalk) : Prop where
  names : s'.expandNameList
    = s.expandNameList ++ (pre.map (·.neighName)).filter (· ∉ s.expandNameList)
  included : ∀ v, v ∈ s'.nodeIncluded ↔ v ∈ s'.expandNameList ∧ v ≠ src
  next : s'.path.lookup now = some ((pre.map (·.neighName)).filter (· ∉ s.expandNameList))
  frame : ∀ u, u ≠ now → s'.path.lookup u = s.path.lookup u

theorem Forwarding.old {pre : List NeighborNode} {neigh : NeighborNode}
    (hf : Forwarding src now s pre s') (hold : neigh.neighName ∈ s.expandNameList) :
    Forwarding src now s (pre ++ [neigh]) s' := by
  have hfilter : ((pre ++ [neigh]).map (·.neighName)).filter (· ∉ s.expandNameList)
      = (pre.map (·.neighName)).filter (· ∉ s.expandNameList) := by
    rw [List.map_append, List.filter_append]
    simp [hold]
  exact ⟨hfilter ▸ hf.names, hf.included, hfilter ▸ hf.next, hf.frame⟩

theorem Forwarding.new {pre : List NeighborNode} {neigh : NeighborNode}
    (hf : Forwarding src now s pre s') (hnew : neigh.neighName ∉ s.expandNameList)
    (hpre : neigh.neighName ∉ pre.map (·.neighName)) (hsrc : neigh.neighName ≠ src) :
    ∃ s'', addNextNode now neigh.neighName s' = .ok s'' ∧
      Forwarding src now s (pre ++ [neigh]) s'' := by
  have hfilter : ((pre ++ [neigh]).map (·.neighName)).filter (· ∉ s.expandNameList)
      = (pre.map (·.neighName)).filter (· ∉ s.expandNameList) ++ [neigh.neighName] := by
    rw [List.map_append, List.filter_append]
    simp [hnew]
  have hnames : neigh.neighName ∉ s'.expandNameList := by
    rw [hf.names, List.mem_append, List.mem_filter]
    exact fun hm => hm.elim hnew fun hm => hpre hm.1
  have hincl : neigh.neighName ∉ s'.nodeIncluded := fun hm =>
    hnames ((hf.included _).1 hm).1
  refine ⟨_, by
    rw [addNextNode, if_neg hincl, Dict.getItem_eq_ok.2 hf.next]
    simp only [bind, Except.bind, pure, Except.pure, if_neg hnames]
    rfl, ?_, ?_, ?_, ?_⟩
  · rw [hfilter, ← List.append_assoc, ← hf.names]
  · intro v
    rw [AList.mem_insert, hf.included v, List.mem_append, List.mem_singleton]
    constructor
    · rintro (rfl | hv)
      · exact ⟨.inr rfl, hsrc⟩
      · exact ⟨.inl hv.1, hv.2⟩
    · rintro ⟨hv | hv, hne⟩
      · exact .inr ⟨hv, hne⟩
      · exact .inl hv
  · rw [AList.lookup_insert, hfilter]
  · intro u hu
    rw [AList.lookup_insert_ne hu, hf.frame u hu]

/-- A neighbour on the list is not taken again. -/
theorem addNextNode_old {v : Name} (hincl : v ∈ s'.nodeIncluded) (hnames : v ∈ s'.expandNameList) :
    addNextNode now v s' = .ok s' := by
  rw [addNextNode, if_pos hincl]
  simp only [bind, Except.bind, pure, Except.pure, if_pos hnames]

theorem forwardNow_spec (h : t.WellFormed) (hsrc : src ∈ t.graph) {ids : Dict Name ℕ}
    (hids : ∀ v ∈ t.graph, ids.getItem v = .ok (h.links.hops src v))
    (hs : Forwarded h.toSimple src done s) (hpre : done ++ [now] <+: s.expandNameList) :
    ∃ s' stop, t.forwardNow ids now s = .ok (s', stop) ∧
      Turn ForwardWalk.expandNameList (Forwarded h.toSimple src) (fun _ => False) done now s'
        stop := by
  have hnow := Links.Layers.now_mem hpre
  have hnowg := h.mem_of_reachable hsrc (hs.layers.reach now hnow)
  obtain ⟨neighbors, hget, -, hnames⟩ := getItem_graph hnowg
  have hadj : h.links.adj now = neighbors.map (·.neighName) := hnames.symm
  let s₀ : ForwardWalk := { s with path := s.path.insert now [] }
  have h₀ : Forwarding src now s [] s₀ :=
    ⟨by simp [s₀], hs.included, by simp [s₀], fun u hu => AList.lookup_insert_ne hu⟩
  obtain ⟨s', hs', hf⟩ := foldlM_spec (l := neighbors)
    (fun pre s' => Forwarding src now s pre s')
    (f := fun s neigh => do
      let neighId ← ids.getItem neigh.neighName
      if neighId = h.links.hops src now + 1 then addNextNode now neigh.neighName s else return s)
      (fun pre neigh s₁ hle hf => by
      have hmem : neigh.neighName ∈ neighbors.map (·.neighName) :=
        List.mem_map_of_mem (hle.subset (by simp))
      have hid := hids _ (h.mem_of_adj (hnames ▸ hmem))
      simp only [hid, bind, Except.bind]
      by_cases hold : neigh.neighName ∈ s.expandNameList
      · refine ⟨s₁, ?_, hf.old hold⟩
        split
        · next hfar =>
          have hne : neigh.neighName ≠ src := by
            intro heq
            rw [heq, Links.hops_self] at hfar
            omega
          have hin : neigh.neighName ∈ s₁.expandNameList := by
            rw [hf.names]
            exact List.mem_append_left _ hold
          exact addNextNode_old ((hf.included _).2 ⟨hin, hne⟩) hin
        · rfl
      · have hfar := (hs.layers.farther_of_new hpre (hadj ▸ hmem) hold).2
        rw [if_pos hfar]
        refine hf.new hold ?_ fun heq => hold (heq ▸ hs.layers.root)
        have hnd : ((pre ++ [neigh]).map (·.neighName)).Nodup :=
          (hnames ▸ h.nodup now : (neighbors.map (·.neighName)).Nodup).sublist
            (hle.sublist.map _)
        rw [List.map_append, List.nodup_append] at hnd
        exact fun hm => hnd.2.2 _ hm neigh.neighName (by simp) rfl) h₀
  refine ⟨s', false, ?_, by simp, fun _ => ?_, fun _ => ?_⟩
  · rw [forwardNow, hids now hnowg, hget]
    dsimp only [bind, Except.bind] at hs' ⊢
    rw [hs']
    rfl
  · rw [hf.names]
    exact hpre.trans (List.prefix_append _ _)
  · have hnew : (neighbors.map (·.neighName)).filter (· ∉ s.expandNameList)
        = (h.links.adj now).filter (· ∉ s.expandNameList) := by rw [hadj]
    constructor
    · rw [hf.names, hnew]
      convert hs.layers.step hpre
    · exact hf.included
    · intro u hu
      by_cases heq : u = now
      · subst heq
        refine ⟨_, hf.next, ?_, fun v => ?_⟩
        · exact (hnames ▸ h.nodup u).filter _
        · rw [hs.layers.parent_now_iff hpre, hadj, List.mem_filter, decide_eq_true_iff]
      · rw [List.mem_append, List.mem_singleton, or_iff_left heq] at hu
        rw [hf.frame u heq]
        exact hs.path u hu
    · intro u hu
      rw [List.mem_append, List.mem_singleton, not_or] at hu
      rw [hf.frame u hu.2]
      exact hs.keys u hu.1

/-- The forward search yields a spanning tree: every node is in the next list of its parent. -/
theorem getForwardNextNodes_spec (h : t.WellFormed) (hsrc : src ∈ t.graph) :
    ∃ path, t.getForwardNextNodes src = .ok path ∧ (∀ n, n ∈ path ↔ n ∈ t.graph) ∧
      (∀ u next, path.lookup u = some next → next.Nodup ∧
        ∀ v, v ∈ next ↔ h.links.Parent src u v) ∧
      ∀ v ∈ t.graph, v ≠ src → ∃ u ∈ t.graph, h.links.Parent src u v := by
  obtain ⟨ids, hids, -, hlookup⟩ := visitedFrom_spec h.toConnected hsrc none (by simp)
  replace hlookup : ∀ v ∈ t.graph, ids.getItem v = .ok (h.links.hops src v) := fun v hv =>
    Dict.getItem_eq_ok.2 (hlookup v hv (by simp))
  have h₀ : Forwarded h.toSimple src [] ⟨∅, ∅, [src]⟩ := by
    refine ⟨Links.firstLayers_root src, fun v => ?_, by simp, fun u _ => AList.lookup_empty u⟩
    simp
  have hlen : ∀ done s, Forwarded h.toSimple src done s → s.expandNameList.length ≤ t.turns :=
    fun done s hs => length_le_turns hs.layers.nodup fun v hv =>
      h.mem_of_reachable hsrc (hs.layers.reach v hv)
  obtain ⟨s, hs, hend⟩ := worklist_spec hlen
    (fun done now s hs hpre => forwardNow_spec h hsrc hlookup hs hpre) h₀
  have hend := hend.resolve_left id
  have hmem : ∀ v, v ∈ s.expandNameList ↔ v ∈ t.graph := fun v =>
    hend.layers.mem_iff.trans ⟨h.mem_of_reachable hsrc, fun hv => h.connected src hsrc v hv⟩
  have hkeys : ∀ n, n ∈ s.path ↔ n ∈ t.graph := by
    intro n
    rw [← hmem, ← AList.lookup_isSome]
    by_cases hn : n ∈ s.expandNameList
    · obtain ⟨next, hl, -⟩ := hend.path n hn
      simp [hl, hn]
    · simp [hend.keys n hn, hn]
  refine ⟨s.path, ?_, hkeys, fun u next hl => ?_, fun v hv hne => ?_⟩
  · rw [getForwardNextNodes, hids]
    dsimp only [bind, Except.bind]
    rw [hs]
    rfl
  · have hu : u ∈ s.expandNameList := by
      by_contra hn
      rw [hend.keys u hn] at hl
      cases hl
    obtain ⟨next', hl', hnext⟩ := hend.path u hu
    rw [hl', Option.some.injEq] at hl
    exact hl ▸ hnext
  · obtain ⟨u, hu, hpar⟩ := hend.layers.tree v ((hmem v).2 hv) hne
    exact ⟨u, (hmem u).1 hu, hpar⟩

end Forward

/-! ## The rules -/

theorem conditionRulesAt_tag {host n : Name} {next : List Name} {rs : List FlowRule}
    (hrs : t.conditionRulesAt host n next = .ok rs) :
    ∀ r ∈ rs, r.entity = n ∧ r.nwSrc = t.hostIpprefixMap.lookup host := by
  rw [conditionRulesAt] at hrs
  dsimp only at hrs
  split at hrs
  · cases hrs
    simp
  split at hrs
  · obtain ⟨_, _, hp, rfl⟩ := rules_of_prefix hrs
    simp [hp]
  · obtain ⟨_, _, hp, rfl⟩ := rules_of_prefix hrs
    simp [hp]

/-- A switch with next nodes sends a condition packet to each of them. -/
theorem conditionRulesAt_switch (h : t.WellFormed) {host s : Name} (hs : s ∈ t.switches)
    {ipPrefix : List UInt8} (hp : t.hostIpprefixMap.lookup host = some ipPrefix)
    {next : List Name} (hsub : next ⊆ t.neighNames s) (hne : next ≠ []) :
    ∃ action, t.behind s action.ports = next ∧ t.conditionRulesAt host s next
      = .ok [⟨s, 0x0800, some 17, some ipPrefix, none, some HIGH_PRIORITY, action⟩] := by
  obtain ⟨hgraph, hswitch⟩ := (h.mem_switches s).1 hs
  obtain ⟨neighbors, hget, hl, hnames⟩ := getItem_graph hgraph
  rw [← hnames] at hsub
  have hget' : t.hostIpprefixMap.getItem host = .ok ipPrefix := Dict.getItem_eq_ok.2 hp
  rw [conditionRulesAt, if_neg (by simp [hswitch])]
  by_cases hlong : 1 < next.length
  · have hleads := leads_portsOf h hs hl hsub hne
    refine ⟨.output (portsOf neighbors next), behind_portsOf h hs hl hsub, ?_⟩
    rw [if_pos hlong, hget, hget']
    simp only [bind, Except.bind, joinable_eq hleads.1]
    rfl
  · obtain ⟨m, rfl⟩ : ∃ m, next = [m] := by
      match next, hne with
      | [m], _ => exact ⟨m, rfl⟩
      | _ :: _ :: _, _ => simp at hlong
    obtain ⟨neigh, hmem, rfl, hport⟩ := portidOf_spec [] (hsub List.mem_cons_self)
    refine ⟨.output [neigh.ethid], behind_ethid h hs hl hmem, ?_⟩
    rw [if_neg hlong, hget, hget']
    simp only [bind, Except.bind, hport]
    rfl

/-- Without a next node the first one is read all the same. -/
theorem conditionRulesAt_nil {host s m : Name} (hs : isHost s = false) (hm : m ∈ t.neighNames s)
    {rs : List FlowRule} : t.conditionRulesAt host s [] ≠ .ok rs := by
  obtain ⟨neighbors, hget, -, hnames⟩ := getItem_graph (mem_graph_of_neighNames hm)
  rw [← hnames] at hm
  cases neighbors with
  | nil => simp at hm
  | cons neigh neighbors =>
    have hport : portidOf (neigh :: neighbors) [] = .error .indexError := rfl
    rw [conditionRulesAt, if_neg (by simp [hs]), if_neg (by simp), hget]
    simp [bind, Except.bind, hport]

/-- The rules for the condition packets of one host, when every switch has a next node. -/
theorem conditionRules_host (h : t.WellFormed) {src : Name} (hsrc : src ∈ t.hosts)
    (hinner : ∀ s ∈ t.switches, ∃ v, h.links.Parent src s v) {ipPrefix : List UInt8}
    (hp : t.hostIpprefixMap.lookup src = some ipPrefix) {path : Dict Name (List Name)}
    (hpath : t.getForwardNextNodes src = .ok path) :
    ∃ rules, rulesAlong (t.conditionRulesAt src) path = .ok rules ∧
      (∀ r ∈ rules, r.nwSrc = some ipPrefix ∧ r.entity ∈ t.switches) ∧
      ∀ s ∈ t.switches, ∃ next action, path.lookup s = some next ∧
        t.behind s action.ports = next ∧ rules.filter (·.entity = s)
          = [⟨s, 0x0800, some 17, some ipPrefix, none, some HIGH_PRIORITY, action⟩] := by
  have hsg := ((h.mem_hosts src).1 hsrc).1
  obtain ⟨path', hpath', hkeys, hnext, -⟩ := getForwardNextNodes_spec h hsg
  rw [hpath', Except.ok.injEq] at hpath
  subst hpath
  have hswitch : ∀ s ∈ t.switches, ∀ next, path'.lookup s = some next → ∃ action,
      t.behind s action.ports = next ∧ t.conditionRulesAt src s next
        = .ok [⟨s, 0x0800, some 17, some ipPrefix, none, some HIGH_PRIORITY, action⟩] := by
    intro s hs next hl
    have hmem := (hnext s next hl).2
    obtain ⟨v, hv⟩ := hinner s hs
    exact conditionRulesAt_switch h hs hp (fun m hm => ((hmem m).1 hm).farther.2.1)
      (List.ne_nil_of_mem ((hmem v).2 hv))
  have hkind : ∀ n next, path'.lookup n = some next → isHost n = true ∨ n ∈ t.switches := by
    intro n next hl
    have hng := (hkeys n).1 (AList.lookup_isSome.1 (by rw [hl]; rfl))
    cases hn : isHost n with
    | true => exact .inl rfl
    | false => exact .inr ((h.mem_switches n).2 ⟨hng, hn⟩)
  have hok : ∀ n next, path'.lookup n = some next →
      ∃ rs, t.conditionRulesAt src n next = .ok rs := by
    intro n next hl
    rcases hkind n next hl with hn | hn
    · exact ⟨[], by rw [conditionRulesAt, if_pos hn]; rfl⟩
    · obtain ⟨_, -, hrs⟩ := hswitch n hn next hl
      exact ⟨_, hrs⟩
  obtain ⟨rules, hrules, hfilter, hmem⟩ := rulesAlong_spec hok
    fun n next rs hrs r hr => (conditionRulesAt_tag hrs r hr).1
  refine ⟨rules, hrules, fun r hr => ?_, fun s hs => ?_⟩
  · obtain ⟨next, hl, rs, hrs, hr⟩ := hmem r hr
    refine ⟨by rw [(conditionRulesAt_tag hrs r hr).2, hp], (hkind _ next hl).resolve_left ?_⟩
    intro hn
    rw [conditionRulesAt, if_pos hn] at hrs
    cases hrs
    simp at hr
  · have hsg' := ((h.mem_switches s).1 hs).1
    obtain ⟨next, hl⟩ := Option.isSome_iff_exists.1 (AList.lookup_isSome.2 ((hkeys s).2 hsg'))
    obtain ⟨action, hbehind, hrs⟩ := hswitch s hs next hl
    exact ⟨next, action, hl, hbehind, hfilter s next _ hl hrs⟩

/-- A node that only one neighbour is nearer than is in the next list of that one. -/
theorem parent_of_forall (h : t.WellFormed) (hsrc : src ∈ t.graph) {s v : Name} (hv : v ∈ t.graph)
    (hne : v ≠ src) (hone : ∀ u, h.links.Farther src u v → u = s) : h.links.Parent src s v := by
  obtain ⟨_, -, -, -, hparent⟩ := getForwardNextNodes_spec h hsrc
  obtain ⟨u, -, hpar⟩ := hparent v hv hne
  rwa [hone u hpar.farther.2] at hpar

/-- A switch with a host of its own and a link to another switch has a next node for every host. -/
theorem exists_parent (h : t.WellFormed) (hsrc : src ∈ t.hosts) {s v w : Name} (hv : v ∈ t.hosts)
    (hsv : v ∈ t.neighNames s) (hw : w ∈ t.switches) (hsw : w ∈ t.neighNames s) :
    ∃ x, h.links.Parent src s x := by
  have hsrcg := ((h.mem_hosts src).1 hsrc).1
  obtain ⟨hvg, hvh⟩ := (h.mem_hosts v).1 hv
  obtain ⟨hwg, hwh⟩ := (h.mem_switches w).1 hw
  have honly : ∀ u, v ∈ t.neighNames u → u = s := by
    intro u huv
    obtain ⟨x, hx⟩ := List.length_eq_one_iff.1 (h.host_link v hv)
    have hu := h.symm huv
    have hs := h.symm hsv
    rw [hx, List.mem_singleton] at hu hs
    exact hu.trans hs.symm
  by_cases hne : v = src
  swap
  · exact ⟨v, parent_of_forall h hsrcg hvg hne fun u hfar => honly u hfar.1⟩
  subst hne
  have hwv : w ≠ v := by
    rintro rfl
    rw [hvh] at hwh
    cases hwh
  refine ⟨w, parent_of_forall h hsrcg hwg hwv fun u hfar => ?_⟩
  -- `w` is at most two hops away, so `u` is at most one
  have hs : h.links.hops v s ≤ h.links.hops v v + 1 := Links.hops_le_of_mem (.refl v) (h.symm hsv)
  have hw : h.links.hops v w ≤ h.links.hops v s + 1 :=
    Links.hops_le_of_mem (Links.reachable_of_mem (.refl v) (h.symm hsv)) hsw
  have hfar' := hfar.2
  rw [Links.hops_self] at hs
  by_cases huv : u = v
  · subst huv
    obtain rfl : w = s := honly w (h.symm hfar.1)
    exact absurd hsw (h.irrefl w)
  · obtain ⟨m, hm, hmu⟩ := Links.exists_nearer
      (h.connected v hvg u (mem_graph_of_neighNames hfar.1)) (Ne.symm huv)
    have hmu' := hmu.2
    obtain rfl : v = m := (Links.hops_eq_zero hm).1 (by omega)
    exact honly u (h.symm hmu.1)

/-- When every switch has a next node for each host, it sends the condition packets of each host to
its next nodes. -/
theorem conditionRules_spec (h : t.WellFormed)
    (hinner : ∀ src ∈ t.hosts, ∀ s ∈ t.switches, ∃ v, h.links.Parent src s v) :
    ∃ rules, t.generateRulesForConditionPackets = .ok rules ∧
      ∀ src ∈ t.hosts, ∃ ipPrefix path, t.hostIpprefixMap.lookup src = some ipPrefix ∧
        t.getForwardNextNodes src = .ok path ∧
        (∀ s ∈ t.switches, path.lookup s = some (t.forwards rules ipPrefix s)) ∧
        ∀ n, n ∉ t.switches → t.forwards rules ipPrefix n = [] := by
  have hhost : ∀ src ∈ t.hosts, ∃ ipPrefix path rules,
      t.hostIpprefixMap.lookup src = some ipPrefix ∧ t.getForwardNextNodes src = .ok path ∧
      rulesAlong (t.conditionRulesAt src) path = .ok rules ∧
      (∀ r ∈ rules, r.nwSrc = some ipPrefix ∧ r.entity ∈ t.switches) ∧
      ∀ s ∈ t.switches, ∃ next action, path.lookup s = some next ∧
        t.behind s action.ports = next ∧ rules.filter (·.entity = s)
          = [⟨s, 0x0800, some 17, some ipPrefix, none, some HIGH_PRIORITY, action⟩] := by
    intro src hsrc
    obtain ⟨ipPrefix, hp⟩ :=
      Option.isSome_iff_exists.1 (AList.lookup_isSome.2 (h.has_prefix src hsrc))
    obtain ⟨path, hpath, -⟩ := getForwardNextNodes_spec h ((h.mem_hosts src).1 hsrc).1
    obtain ⟨rules, hrules, hmem, hsw⟩ := conditionRules_host h hsrc (hinner src hsrc) hp hpath
    exact ⟨ipPrefix, path, rules, hp, hpath, hrules, hmem, hsw⟩
  let f : Name → Except PyError (List FlowRule) := fun host => do
    rulesAlong (t.conditionRulesAt host) (← t.getForwardNextNodes host)
  have hf : ∀ src path rules, t.getForwardNextNodes src = .ok path →
      rulesAlong (t.conditionRulesAt src) path = .ok rules → f src = .ok rules :=
    fun src path rules hpath hrules => bind_eq_ok.2 ⟨path, hpath, hrules⟩
  obtain ⟨rss, hrss, hfilter⟩ := hostRules_spec h FlowRule.nwSrc (f := f)
    (fun src hsrc => by
      obtain ⟨ipPrefix, path, rules, hp, hpath, hrules, hmem, -⟩ := hhost src hsrc
      exact ⟨rules, hf src path rules hpath hrules, fun r hr => (hmem r hr).1.trans hp.symm⟩)
  refine ⟨rss.flatten, by rw [generateRulesForConditionPackets, hrss]; rfl, fun src hsrc => ?_⟩
  obtain ⟨ipPrefix, path, rules, hp, hpath, hrules, hmem, hsw⟩ := hhost src hsrc
  have hsrc' := hfilter src hsrc rules (hf src path rules hpath hrules)
  rw [hp] at hsrc'
  have hsplit : ∀ n, conditionRules rss.flatten ipPrefix n
      = (rules.filter (·.entity = n)).filter fun r => r.dlType = 0x0800 ∧ r.nwProto = some 17 := by
    intro n
    rw [conditionRules, ← hsrc', List.filter_filter, List.filter_filter]
    refine List.filter_congr fun r _ => ?_
    by_cases h₁ : r.entity = n <;> by_cases h₂ : r.nwSrc = some ipPrefix <;> simp [h₁, h₂]
  refine ⟨ipPrefix, path, hp, hpath, fun s hs => ?_, fun n hn => ?_⟩
  · obtain ⟨next, action, hl, hbehind, hone⟩ := hsw s hs
    rw [forwards, hsplit, hone, hl, ← hbehind]
    simp
  · have hnone : rules.filter (·.entity = n) = [] :=
      List.filter_eq_nil_iff.2 fun r hr heq =>
        hn (of_decide_eq_true heq ▸ (hmem r hr).2)
    rw [forwards, hsplit, hnone]
    rfl

/-- The condition packets of a source flood a tree. -/
theorem forwards_tree (h : t.WellFormed) {src w : Name} (hsrc : src ∈ t.hosts)
    (hw : t.neighNames src = [w]) {rules : List FlowRule} {ipPrefix : List UInt8}
    (hswitch : ∀ s ∈ t.switches, ∀ v, v ∈ t.forwards rules ipPrefix s ↔ h.links.Parent src s v)
    (hnodup : ∀ s ∈ t.switches, (t.forwards rules ipPrefix s).Nodup)
    (hnone : ∀ n, n ∉ t.switches → t.forwards rules ipPrefix n = []) :
    Tree (t.forwards rules ipPrefix) w (fun v => v ∈ t.graph ∧ v ≠ src)
      fun v => h.links.hops src v - 1 := by
  obtain ⟨hsg, hsh⟩ := (h.mem_hosts src).1 hsrc
  obtain ⟨path, -, -, -, hparent⟩ := getForwardNextNodes_spec h hsg
  have hchild : ∀ u v, v ∈ t.forwards rules ipPrefix u →
      u ∈ t.switches ∧ h.links.Parent src u v := by
    intro u v hv
    by_cases hu : u ∈ t.switches
    · exact ⟨hu, (hswitch u hu v).1 hv⟩
    · rw [hnone u hu] at hv
      cases hv
  have hne : ∀ u ∈ t.switches, u ≠ src := by
    rintro u hu rfl
    rw [((h.mem_switches u).1 hu).2] at hsh
    cases hsh
  have hreach : ∀ u ∈ t.graph, u ≠ src → 0 < h.links.hops src u := by
    intro u hu hus
    exact Nat.pos_of_ne_zero fun hz =>
      hus ((Links.hops_eq_zero (h.connected src hsg u hu)).1 hz).symm
  have hlink : ∀ u v, h.links.Parent src u v → (u = src ↔ v = w) := by
    intro u v hpar
    obtain ⟨hr, hadj, hfar⟩ := hpar.farther
    constructor
    · rintro rfl
      exact List.mem_singleton.1 (hw ▸ hadj : v ∈ [w])
    · rintro rfl
      have hle : h.links.hops src v ≤ h.links.hops src src + 1 :=
        Links.hops_le_of_mem (.refl src) (hw ▸ List.mem_singleton_self v : v ∈ t.neighNames src)
      rw [Links.hops_self] at hle
      exact ((Links.hops_eq_zero hr).1 (by omega)).symm
  constructor
  · intro u
    by_cases hu : u ∈ t.switches
    · exact hnodup u hu
    · rw [hnone u hu]
      exact List.nodup_nil
  · exact fun u u' v hv hv' => (hchild u v hv).2.unique (hchild u' v hv').2
  · intro u hu
    obtain ⟨hus, hpar⟩ := hchild u w hu
    exact hne u hus ((hlink u w hpar).2 rfl)
  · intro u v hv
    obtain ⟨hus, hpar⟩ := hchild u v hv
    have h₁ := hpar.farther.2.2
    have h₂ := hreach u ((h.mem_switches u).1 hus).1 (hne u hus)
    omega
  · rintro v ⟨hv, hvs⟩ hvw
    obtain ⟨u, hu, hpar⟩ := hparent v hv hvs
    have hus : u ≠ src := fun heq => hvw ((hlink u v hpar).1 heq)
    have hswu : u ∈ t.switches := by
      refine (h.mem_switches u).2 ⟨hu, Bool.eq_false_iff.2 fun hhost => hus ?_⟩
      exact h.host_eq_root hsg ((h.mem_hosts u).2 ⟨hu, hhost⟩) hpar.farther.2
    exact ⟨u, ⟨hu, hus⟩, (hswitch u hswu v).2 hpar⟩

/-- A condition packet of a source is received once by every other node, in as many hops as it is
away, and not again. -/
theorem count_receivers (h : t.WellFormed) {src : Name} (hsrc : src ∈ t.hosts)
    {rules : List FlowRule} {ipPrefix : List UInt8}
    (hswitch : ∀ s ∈ t.switches, ∀ v, v ∈ t.forwards rules ipPrefix s ↔ h.links.Parent src s v)
    (hnodup : ∀ s ∈ t.switches, (t.forwards rules ipPrefix s).Nodup)
    (hnone : ∀ n, n ∉ t.switches → t.forwards rules ipPrefix n = []) {v : Name}
    (hv : v ∈ t.graph) (hne : v ≠ src) {n : ℕ} (hn : h.links.hops src v ≤ n) :
    (t.receivers rules ipPrefix src n).count v = 1 := by
  have hsg := ((h.mem_hosts src).1 hsrc).1
  obtain ⟨w, hw⟩ := List.length_eq_one_iff.1 (h.host_link src hsrc)
  have htree := forwards_tree h hsrc hw hswitch hnodup hnone
  have hpos : 0 < h.links.hops src v := Nat.pos_of_ne_zero fun hz =>
    hne ((Links.hops_eq_zero (h.connected src hsg v hv)).1 hz).symm
  have hlink : ((t.graph.lookup src).getD []).map (·.neighName) = [w] := hw
  have hdepth : h.links.hops src v - 1 < n := by omega
  rw [receivers, hlink, List.flatMap_cons, List.flatMap_nil, List.append_nil]
  convert count_flood htree ⟨hv, hne⟩ hdepth

/-- Condition packets are flooded as they should be exactly when, for every host, every switch is
the last but one node on the first shortest path to some node. -/
theorem conditionFlooding_iff (h : t.WellFormed) :
    (∀ src ∈ t.hosts,
      (∃ path, t.getForwardNextNodes src = .ok path ∧
        (∀ u next, path.lookup u = some next → src ∉ next) ∧
        ∀ v ∈ t.graph, v ≠ src → ∃ u next, path.lookup u = some next ∧ next.count v = 1 ∧
          v ∈ t.neighNames u ∧ h.links.hops src u + 1 = h.links.hops src v ∧
          ∀ u' next', path.lookup u' = some next' → v ∈ next' → u' = u) ∧
      ∃ rules ipPrefix, t.generateRulesForConditionPackets = .ok rules ∧
        t.hostIpprefixMap.lookup src = some ipPrefix ∧
        ∀ v ∈ t.graph, v ≠ src → ∀ n, h.links.hops src v ≤ n →
          (t.receivers rules ipPrefix src n).count v = 1) ↔
    ∀ src ∈ t.hosts, ∀ s ∈ t.switches, ∃ v, h.links.Parent src s v := by
  constructor
  · intro hall src hsrc s hs
    obtain ⟨hsg, hsh⟩ := (h.mem_switches s).1 hs
    obtain ⟨hsrcg, hsrch⟩ := (h.mem_hosts src).1 hsrc
    obtain ⟨-, rules, -, hrules, -⟩ := hall src hsrc
    obtain ⟨path, hpath, hkeys, hnext, -⟩ := getForwardNextNodes_spec h hsrcg
    obtain ⟨next, hl⟩ := Option.isSome_iff_exists.1 (AList.lookup_isSome.2 ((hkeys s).2 hsg))
    rw [generateRulesForConditionPackets] at hrules
    obtain ⟨rss, hrss, -⟩ := bind_eq_ok.1 hrules
    obtain ⟨rs, hrs⟩ := mapM_ok_iff.1 ⟨rss, hrss⟩ src hsrc
    obtain ⟨path', hpath', hrs⟩ := bind_eq_ok.1 hrs
    rw [hpath, Except.ok.injEq] at hpath'
    subst hpath'
    obtain ⟨rss', hrss', -⟩ := bind_eq_ok.1 hrs
    obtain ⟨rs', hrs'⟩ := mapM_ok_iff.1 ⟨rss', hrss'⟩ (s, next) (Dict.mem_items.2 hl)
    cases next with
    | nil =>
      have hne : src ≠ s := by
        rintro rfl
        rw [hsrch] at hsh
        cases hsh
      obtain ⟨m, -, hfar⟩ := Links.exists_nearer (h.connected src hsrcg s hsg) hne
      exact absurd hrs' (conditionRulesAt_nil hsh (h.symm hfar.1))
    | cons v next => exact ⟨v, ((hnext s _ hl).2 v).1 List.mem_cons_self⟩
  · intro hinner src hsrc
    have hsrcg := ((h.mem_hosts src).1 hsrc).1
    obtain ⟨path, hpath, hkeys, hnext, hparent⟩ := getForwardNextNodes_spec h hsrcg
    refine ⟨⟨path, hpath, fun u next hl hm => ?_, fun v hv hne => ?_⟩, ?_⟩
    · exact (((hnext u next hl).2 src).1 hm).ne_root rfl
    · obtain ⟨u, hu, hpar⟩ := hparent v hv hne
      obtain ⟨next, hl⟩ := Option.isSome_iff_exists.1 (AList.lookup_isSome.2 ((hkeys u).2 hu))
      obtain ⟨hnd, hmem⟩ := hnext u next hl
      refine ⟨u, next, hl, List.count_eq_one_of_mem hnd ((hmem v).2 hpar), hpar.farther.2.1,
        hpar.farther.2.2.symm, fun u' next' hl' hm => ?_⟩
      exact (((hnext u' next' hl').2 v).1 hm).unique hpar
    · obtain ⟨rules, hrules, hsrcs⟩ := conditionRules_spec h hinner
      obtain ⟨ipPrefix, path', hp, hpath', hsw, hnone⟩ := hsrcs src hsrc
      rw [hpath, Except.ok.injEq] at hpath'
      subst hpath'
      exact ⟨rules, ipPrefix, hrules, hp, fun v hv hne n hn => count_receivers h hsrc
        (fun s hs => (hnext s _ (hsw s hs)).2) (fun s hs => (hnext s _ (hsw s hs)).1) hnone hv hne
        hn⟩

/-- `s3` of the square has no next node for `h1`: `s4` is in the next list of `s2`. -/
theorem square_conditionRules : square.WellFormed ∧ chars "h1" ∈ square.hosts ∧
    square.generateRulesForConditionPackets = .error .indexError := by
  refine ⟨square_wellFormed, by simp [hosts_square], ?_⟩
  decide +kernel

/-- Two hosts with one path between them. -/
def line : GenerateRulesIntoTables :=
  ofFile ["s1-eth1", "s2-eth1", "s1-eth2", "s2-eth2"]
    ["#hosts", "h1 h2", "#switches", "s1 s2", "#prefixes", "h1 10.0.0.0/8", "h2 11.0.0.0/8",
      "#connections", "s1 h1", "s2 h2", "s1 s2"]

theorem line_wellFormed : line.WellFormed := by
  have hchecks : line.checks (chars "h1") (["s1", "s2", "h2"].map chars) = true := by
    decide +kernel
  exact wellFormed_of_checks hchecks

theorem line_inner : ∀ src ∈ line.hosts, ∀ s ∈ line.switches,
    ∃ v, line_wellFormed.links.Parent src s v := by
  have hlinks : ∀ s ∈ line.switches, (∃ v ∈ line.neighNames s, v ∈ line.hosts)
      ∧ ∃ w ∈ line.neighNames s, w ∈ line.switches := by
    decide +kernel
  intro src hsrc s hs
  obtain ⟨⟨v, hsv, hv⟩, w, hsw, hw⟩ := hlinks s hs
  exact exists_parent line_wellFormed hsrc hv hsv hw hsw

theorem conditionFlooding_line : ∃ rules ipPrefix,
    line.generateRulesForConditionPackets = .ok rules ∧
    line.hostIpprefixMap.lookup (chars "h1") = some ipPrefix ∧
    ∀ v ∈ line.graph, v ≠ chars "h1" → ∀ n, line_wellFormed.links.hops (chars "h1") v ≤ n →
      (line.receivers rules ipPrefix (chars "h1") n).count v = 1 :=
  ((conditionFlooding_iff line_wellFormed).2 line_inner (chars "h1") (by decide +kernel)).2

end GenerateRulesIntoTables

end CMTestbed
