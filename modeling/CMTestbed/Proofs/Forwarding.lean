import CMTestbed.Lib.UniquePath
import CMTestbed.Proofs.FlowTables

/-!
# The way of a packet

With the rules of the script installed, a packet to a host goes over one shortest path to it,
whichever slaves the bundles pick (`sent_normal`), and a condition packet comes to every other node
once (`sent_condition`).  Neither is ever sent back: the port that a copy came in by leads to the
node that it came from.
-/

namespace CMTestbed

open Lib

namespace GenerateRulesIntoTables

variable {t : GenerateRulesIntoTables}

/-! ## Ports -/

/-- What `entity` is linked to. -/
def neighborsOf (t : GenerateRulesIntoTables) (entity : Name) : List NeighborNode :=
  (t.graph.lookup entity).getD []

/-- The two ends of a link have each other's port. -/
def Paired (t : GenerateRulesIntoTables) : Prop := ∀ u, ∀ neigh ∈ t.neighborsOf u,
  ⟨neigh.neighEthid, u, neigh.ethid⟩ ∈ t.neighborsOf neigh.neighName

theorem mem_addNeighbor {graph : Dict Name (List NeighborNode)} {entity u : Name}
    {neigh neigh' : NeighborNode} :
    neigh' ∈ ((addNeighbor graph entity neigh).lookup u).getD [] ↔
      neigh' ∈ (graph.lookup u).getD [] ∨ u = entity ∧ neigh' = neigh := by
  rw [addNeighbor, Dict.lookup_insert_if]
  by_cases hu : u = entity
  · subst hu
    simp
  · simp [hu]

/-- A connection adds both its ends. -/
theorem connect_paired {ids : Dict Name ℕ} {link : Name × Name}
    {s s' : Dict Name ℕ × Dict Name (List NeighborNode)} (h : connect ids s link = .ok s')
    (hs : ∀ u, ∀ neigh ∈ (s.2.lookup u).getD [],
      ⟨neigh.neighEthid, u, neigh.ethid⟩ ∈ (s.2.lookup neigh.neighName).getD []) :
    ∀ u, ∀ neigh ∈ (s'.2.lookup u).getD [],
      ⟨neigh.neighEthid, u, neigh.ethid⟩ ∈ (s'.2.lookup neigh.neighName).getD [] := by
  obtain ⟨_, -, h⟩ := bind_eq_ok.1 h
  obtain ⟨_, -, h⟩ := bind_eq_ok.1 h
  cases h
  intro u neigh hneigh
  rw [mem_addNeighbor, mem_addNeighbor] at hneigh ⊢
  rcases hneigh with (hneigh | ⟨rfl, rfl⟩) | ⟨rfl, rfl⟩
  · exact .inl (.inl (hs u neigh hneigh))
  · exact .inr ⟨rfl, rfl⟩
  · exact .inl (.inr ⟨rfl, rfl⟩)

theorem readTopo_paired {ids : Dict Name ℕ} {lines : List (List UInt8)}
    (h : readTopo ids lines = .ok t) : t.Paired := by
  obtain ⟨_, -, h⟩ := bind_eq_ok.1 h
  obtain ⟨_, -, h⟩ := bind_eq_ok.1 h
  obtain ⟨_, -, h⟩ := bind_eq_ok.1 h
  obtain ⟨_, -, h⟩ := bind_eq_ok.1 h
  obtain ⟨_, -, h⟩ := bind_eq_ok.1 h
  obtain ⟨_, -, h⟩ := bind_eq_ok.1 h
  obtain ⟨links, -, h⟩ := bind_eq_ok.1 h
  obtain ⟨s, hs, h⟩ := bind_eq_ok.1 h
  cases h
  have hinv := foldlM_inv (f := connect ids)
    (P := fun s => ∀ u, ∀ neigh ∈ (s.2.lookup u).getD [],
      ⟨neigh.neighEthid, u, neigh.ethid⟩ ∈ (s.2.lookup neigh.neighName).getD [])
    (fun _ _ _ _ hP hstep => connect_paired hstep hP) (by simp) hs
  exact hinv

/-- The port that a copy came in by leads back to `u` only. -/
def Back (t : GenerateRulesIntoTables) (l : Located) (u : Name) : Prop :=
  ∀ neigh ∈ t.neighborsOf l.entity, neigh.ethid = l.inPort → neigh.neighName = u

theorem back_of_neighbor (h : t.WellFormed) (hpair : t.Paired) {u : Name} {neigh : NeighborNode}
    (hneigh : neigh ∈ t.neighborsOf u) (hs : neigh.neighName ∈ t.switches) :
    t.Back neigh.located u := by
  intro neigh' hneigh' hport
  have hmem := hpair u neigh hneigh
  have heq := List.inj_on_of_nodup_map (h.ports_nodup _ hs) hneigh' hmem hport
  rw [heq]

theorem mem_neighNames {u : Name} {neigh : NeighborNode} (hneigh : neigh ∈ t.neighborsOf u) :
    neigh.neighName ∈ t.neighNames u := List.mem_map_of_mem hneigh

theorem map_sendTo {l : Located} {port : ℕ} (hne : port ≠ l.inPort) :
    (t.sendTo l port).map Located.entity = t.behind l.entity [port] := by
  rw [sendTo, if_neg hne, List.map_map, behind, List.flatMap_cons, List.flatMap_nil,
    List.append_nil]
  rfl

theorem mem_sendTo {l l' : Located} {port : ℕ} (hl' : l' ∈ t.sendTo l port) :
    ∃ neigh ∈ t.neighborsOf l.entity, l' = neigh.located := by
  rw [sendTo] at hl'
  split at hl'
  · cases hl'
  · obtain ⟨neigh, hneigh, rfl⟩ := List.mem_map.1 hl'
    exact ⟨neigh, (List.mem_filter.1 hneigh).1, rfl⟩

/-- Behind the port that a copy came in by there is at most the node that it came from. -/
theorem behind_inPort {l : Located} {u : Name} (hback : t.Back l u) :
    ∀ v ∈ t.behind l.entity [l.inPort], v = u := by
  intro v hv
  rw [behind, List.flatMap_cons, List.flatMap_nil, List.append_nil] at hv
  obtain ⟨neigh, hneigh, rfl⟩ := List.mem_map.1 hv
  obtain ⟨hneigh, hport⟩ := List.mem_filter.1 hneigh
  exact hback neigh hneigh (beq_iff_eq.1 hport)

theorem behind_flatMap (entity : Name) (ports : List ℕ) :
    t.behind entity ports = ports.flatMap fun port => t.behind entity [port] := by
  simp [behind]

/-! ## Normal packets -/

section Normal

variable {installRuleType : ℕ} {table : List FlowRule} {p : Header} {d : Name} {l : Located}

/-- What the results about normal packets share. -/
structure NormalPacket (t : GenerateRulesIntoTables) (p : Header) (d : Name) : Prop where
  host : d ∈ t.hosts
  nwDst : t.ownsIp d p.nwDst = true
  dlType : p.dlType = 0x0800 ∨ p.dlType = 0x0806
  not_condition : ∀ src ∈ t.hosts, ¬ t.isConditionOf p src

/-- A copy at the destination, or at a switch that it did not come to from a nearer node. -/
def OnItsWay (h : t.WellFormed) (d : Name) (l : Located) : Prop :=
  l.entity = d ∨
    l.entity ∈ t.switches ∧ ∃ u, t.Back l u ∧ h.links.hops d l.entity < h.links.hops d u

/-- One hop nearer a copy is still on its way. -/
theorem onItsWay_of_neighbor (h : t.WellFormed) (hpair : t.Paired) (hd : d ∈ t.hosts) {u : Name}
    {neigh : NeighborNode} (hneigh : neigh ∈ t.neighborsOf u)
    (hfar : h.links.Farther d neigh.neighName u) : OnItsWay h d neigh.located := by
  have hmg := h.mem_of_adj (mem_neighNames hneigh)
  cases hmh : isHost neigh.neighName with
  | true => exact .inl (h.host_eq_root ((h.mem_hosts d).1 hd).1 ((h.mem_hosts _).2 ⟨hmg, hmh⟩) hfar)
  | false =>
    have hsw := (h.mem_switches _).2 ⟨hmg, hmh⟩
    have hlt : h.links.hops d neigh.neighName < h.links.hops d u := by
      have := hfar.2
      omega
    exact .inr ⟨hsw, u, back_of_neighbor h hpair hneigh hsw, hlt⟩

/-- A switch sends on exactly one copy, one hop nearer. -/
theorem handled_normal (h : t.WellFormed) (hapart : t.Apart)
    (htype : installRuleType ≠ ONLY_ECMP_PATH_RULE)
    (ht : t.installForwardingRule installRuleType = .ok table) (hp : NormalPacket t p d)
    (hs : l.entity ∈ t.switches) {u : Name} (hback : t.Back l u)
    (hlt : h.links.hops d l.entity < h.links.hops d u) :
    (∃ ls, t.Handled table p l ls) ∧ ∀ ls, t.Handled table p l ls →
      ∃ neigh ∈ t.neighborsOf l.entity, ls = [neigh.located] ∧
        h.links.Farther d neigh.neighName l.entity := by
  obtain ⟨r, hr, hne, hsingle, hports⟩ :=
    handlers_normal h hapart htype ht hp.host hs hp.nwDst hp.dlType hp.not_condition
  constructor
  · obtain ⟨port, hport⟩ := List.exists_mem_of_ne_nil _ hne
    exact ⟨_, .inr ⟨r, hr ▸ List.mem_singleton_self r, [port], (hsingle _).2 ⟨port, hport, rfl⟩,
      rfl⟩⟩
  · rintro ls (⟨hnil, -⟩ | ⟨r', hr', ports, hports', rfl⟩)
    · rw [hr] at hnil
      cases hnil
    · rw [hr, List.mem_singleton] at hr'
      subst hr'
      obtain ⟨port, hport, rfl⟩ := (hsingle ports).1 hports'
      obtain ⟨m, hfar, hbehind⟩ := hports port hport
      have hin : port ≠ l.inPort := by
        rintro rfl
        have hmu := behind_inPort hback m (by rw [hbehind]; exact List.mem_singleton_self m)
        have := hfar.2
        rw [hmu] at this
        omega
      have hmap := map_sendTo (t := t) hin
      rw [hbehind] at hmap
      obtain ⟨l', hl', hm⟩ := List.map_eq_singleton_iff.1 hmap
      obtain ⟨neigh, hneigh, rfl⟩ := mem_sendTo (hl' ▸ List.mem_singleton_self l')
      refine ⟨neigh, hneigh, ?_, ?_⟩
      · rw [List.flatMap_cons, List.flatMap_nil, List.append_nil, hl']
      · rw [show neigh.neighName = m from hm]
        exact hfar

/-- From a copy on its way the nodes of one shortest path get one copy each. -/
theorem carried_normal (h : t.WellFormed) (hpair : t.Paired) (hapart : t.Apart)
    (htype : installRuleType ≠ ONLY_ECMP_PATH_RULE)
    (ht : t.installForwardingRule installRuleType = .ok table) (hp : NormalPacket t p d) :
    ∀ {n : ℕ} {l : Located}, OnItsWay h d l → h.links.hops d l.entity < n →
      (∃ rs, t.Carried table p n l rs) ∧ ∀ rs, t.Carried table p n l rs →
        h.links.ShortestPath l.entity d (rs.map Located.entity) := by
  have hdh := ((h.mem_hosts d).1 hp.host).2
  intro n
  induction n with
  | zero => exact fun _ hn => absurd hn (Nat.not_lt_zero _)
  | succ n ih =>
    intro l hl hn
    rcases hl with hl | ⟨hs, u, hback, hlt⟩
    · -- the destination keeps the packet
      have hnone := handlers_host (p := p) ht (hl ▸ hdh : isHost l.entity = true)
      constructor
      · exact ⟨_, [], .inl ⟨hnone, rfl⟩, [], .nil, rfl⟩
      · rintro rs ⟨ls, hls, rss, hrss, rfl⟩
        rcases hls with ⟨-, rfl⟩ | ⟨r, hr, -⟩
        · cases hrss
          rw [hl, List.flatten_nil, List.map_singleton, hl]
          exact .root d
        · rw [hnone] at hr
          cases hr
    · obtain ⟨⟨ls, hls⟩, hall⟩ := handled_normal h hapart htype ht hp hs hback hlt
      have hnext : ∀ neigh ∈ t.neighborsOf l.entity, h.links.Farther d neigh.neighName l.entity →
          (∃ rs, t.Carried table p n neigh.located rs) ∧
            ∀ rs, t.Carried table p n neigh.located rs →
              h.links.ShortestPath neigh.neighName d (rs.map Located.entity) := by
        intro neigh hneigh hfar
        refine ih (onItsWay_of_neighbor h hpair hp.host hneigh hfar) ?_
        have := hfar.2
        show h.links.hops d neigh.neighName < n
        omega
      constructor
      · obtain ⟨neigh, hneigh, rfl, hfar⟩ := hall ls hls
        obtain ⟨⟨rs, hrs⟩, -⟩ := hnext neigh hneigh hfar
        exact ⟨_, _, hls, [rs], .cons hrs .nil, rfl⟩
      · rintro rs ⟨ls', hls', rss, hrss, rfl⟩
        obtain ⟨neigh, hneigh, rfl, hfar⟩ := hall ls' hls'
        obtain ⟨rs, rss', hrs, hnil, rfl⟩ := List.forall₂_cons_left_iff.1 hrss
        obtain rfl := List.forall₂_nil_left_iff.1 hnil
        have hpath := ((hnext neigh hneigh hfar).2 rs hrs).cons hfar
        rwa [List.flatten_cons, List.flatten_nil, List.append_nil, List.map_cons]

/-- The link of a host. -/
theorem exists_link (h : t.WellFormed) {src : Name} (hsrc : src ∈ t.hosts) :
    ∃ neigh ∈ t.neighborsOf src, t.neighborsOf src = [neigh] := by
  have hlen := h.host_link src hsrc
  rw [neighNames, List.length_map] at hlen
  obtain ⟨neigh, hone⟩ := List.length_eq_one_iff.1 hlen
  exact ⟨neigh, by rw [neighborsOf, hone]; exact List.mem_singleton_self neigh, hone⟩

/-- What a host sends is what comes of the copy that it puts on its link. -/
theorem sent_iff {src : Name} {neigh : NeighborNode} (hone : t.neighborsOf src = [neigh]) {n : ℕ}
    {rs : List Located} : t.Sent table p src n rs ↔ t.Carried table p n neigh.located rs := by
  have hlinks : (t.graph.lookup src).getD [] = [neigh] := hone
  rw [Sent, hlinks]
  constructor
  · rintro ⟨rss, hrss, rfl⟩
    obtain ⟨rs, rss', hrs, hnil, rfl⟩ := List.forall₂_cons_left_iff.1 hrss
    obtain rfl := List.forall₂_nil_left_iff.1 hnil
    rwa [List.flatten_cons, List.flatten_nil, List.append_nil]
  · exact fun hrs => ⟨[rs], .cons hrs .nil, by simp⟩

/-- A packet from a host to another goes over one shortest path between them, and to no other
node. -/
theorem sent_normal (h : t.WellFormed) (hpair : t.Paired) (hapart : t.Apart)
    (htype : installRuleType ≠ ONLY_ECMP_PATH_RULE)
    (ht : t.installForwardingRule installRuleType = .ok table) (hp : NormalPacket t p d)
    {src : Name} (hsrc : src ∈ t.hosts) (hne : src ≠ d) {n : ℕ} (hn : h.links.hops src d ≤ n) :
    (∃ rs, t.Sent table p src n rs) ∧ ∀ rs, t.Sent table p src n rs →
      h.links.ShortestPath src d (src :: rs.map Located.entity) := by
  have hdg := ((h.mem_hosts d).1 hp.host).1
  have hsg := ((h.mem_hosts src).1 hsrc).1
  obtain ⟨neigh, hneigh, hone⟩ := exists_link h hsrc
  obtain ⟨m, -, hfar⟩ := Links.exists_nearer (h.connected d hdg src hsg) (Ne.symm hne)
  have hm : m = neigh.neighName := by
    have hadj : m ∈ t.neighNames src := h.symm hfar.1
    rw [neighNames, show (t.graph.lookup src).getD [] = [neigh] from hone] at hadj
    exact List.mem_singleton.1 hadj
  subst hm
  have hway := onItsWay_of_neighbor h hpair hp.host hneigh hfar
  have hlt : h.links.hops d neigh.located.entity < n := by
    have := hfar.2
    rw [Links.hops_comm] at hn
    show h.links.hops d neigh.neighName < n
    omega
  obtain ⟨⟨rs, hrs⟩, hall⟩ := carried_normal h hpair hapart htype ht hp hway hlt
  exact ⟨⟨rs, (sent_iff hone).2 hrs⟩, fun rs hrs => (hall rs ((sent_iff hone).1 hrs)).cons hfar⟩

end Normal

/-! ## Condition packets -/

section Condition

variable {installRuleType : ℕ} {rules rules' : List FlowRule} {p : Header} {src : Name}
  {ipPrefix : List UInt8} {l : Located}

/-- A copy that came from a node which is no child of the one that it is at. -/
def CameDown (t : GenerateRulesIntoTables) (children : Name → List Name) (l : Located) : Prop :=
  l.entity ∈ t.graph ∧
    (l.entity ∈ t.switches → ∃ u, t.Back l u ∧ u ∉ children l.entity)

/-- The copies that a node sends on are at its children. -/
theorem handled_condition (h : t.WellFormed) (hapart : t.Apart)
    (hrules : t.generateRulesForNormalPackets installRuleType = .ok rules)
    (hrules' : t.generateRulesForConditionPackets = .ok rules') (hsrc : src ∈ t.hosts)
    (hl : t.hostIpprefixMap.lookup src = some ipPrefix) (hp : t.isConditionOf p src)
    (hdown : CameDown t (t.forwards rules' ipPrefix) l) :
    (∃ ls, t.Handled (flowTables.install (rules ++ rules')) p l ls) ∧
      ∀ ls, t.Handled (flowTables.install (rules ++ rules')) p l ls →
        ls.map Located.entity = t.forwards rules' ipPrefix l.entity ∧
          ∀ l' ∈ ls, ∃ neigh ∈ t.neighborsOf l.entity, l' = neigh.located := by
  have ht : t.installForwardingRule installRuleType
      = .ok (flowTables.install (rules ++ rules')) :=
    bind_eq_ok.2 ⟨rules, hrules, bind_eq_ok.2 ⟨rules', hrules', rfl⟩⟩
  obtain ⟨hswitch, -, hnone⟩ := forwards_spec h hrules' hsrc hl
  by_cases hs : l.entity ∈ t.switches
  · obtain ⟨u, hback, hu⟩ := hdown.2 hs
    obtain ⟨r, hr, hports, hbehind⟩ :=
      handlers_condition h hapart hrules hrules' hsrc hs hl hp
    constructor
    · exact ⟨_, .inr ⟨r, hr ▸ List.mem_singleton_self r, _, hports ▸ List.mem_singleton_self _,
        rfl⟩⟩
    · rintro ls (⟨hnil, -⟩ | ⟨r', hr', ports, hports', rfl⟩)
      · rw [hr] at hnil
        cases hnil
      · rw [hr, List.mem_singleton] at hr'
        subst hr'
        rw [hports, List.mem_singleton] at hports'
        subst hports'
        constructor
        · rw [← hbehind, behind_flatMap, List.map_flatMap]
          refine List.flatMap_congr fun port hport => ?_
          by_cases hin : port = l.inPort
          · -- the node behind this port would be a child
            have hempty : t.behind l.entity [port] = [] := by
              refine List.eq_nil_iff_forall_not_mem.2 fun v hv => hu ?_
              rw [← hbehind, behind_flatMap, ← behind_inPort hback v (hin ▸ hv)]
              exact List.mem_flatMap.2 ⟨port, hport, hv⟩
            rw [hempty, sendTo, if_pos hin, List.map_nil]
          · exact map_sendTo hin
        · intro l' hl'
          obtain ⟨port, -, hl'⟩ := List.mem_flatMap.1 hl'
          exact mem_sendTo hl'
  · have hhost : isHost l.entity = true := by
      by_contra hn
      exact hs ((h.mem_switches _).2 ⟨hdown.1, Bool.eq_false_iff.2 hn⟩)
    have hempty := handlers_host (p := p) ht hhost
    constructor
    · exact ⟨[], .inl ⟨hempty, rfl⟩⟩
    · rintro ls (⟨-, rfl⟩ | ⟨r, hr, -⟩)
      · exact ⟨(hnone _ hs).symm, nofun⟩
      · rw [hempty] at hr
        cases hr

/-- The copies that come of one are where a flood of the tree comes to. -/
theorem carried_condition (h : t.WellFormed) (hpair : t.Paired) (hapart : t.Apart)
    (hrules : t.generateRulesForNormalPackets installRuleType = .ok rules)
    (hrules' : t.generateRulesForConditionPackets = .ok rules') (hsrc : src ∈ t.hosts)
    (hl : t.hostIpprefixMap.lookup src = some ipPrefix) (hp : t.isConditionOf p src) :
    ∀ {n : ℕ} {l : Located}, CameDown t (t.forwards rules' ipPrefix) l →
      (∃ rs, t.Carried (flowTables.install (rules ++ rules')) p n l rs) ∧
        ∀ rs, t.Carried (flowTables.install (rules ++ rules')) p n l rs →
          rs.map Located.entity = flood (t.forwards rules' ipPrefix) n l.entity := by
  obtain ⟨hswitch, -, -⟩ := forwards_spec h hrules' hsrc hl
  intro n
  induction n with
  | zero => exact fun _ => ⟨⟨[], rfl⟩, by rintro rs rfl; rfl⟩
  | succ n ih =>
    intro l hdown
    obtain ⟨⟨ls, hls⟩, hall⟩ := handled_condition h hapart hrules hrules' hsrc hl hp hdown
    have hnext : ∀ ls, t.Handled (flowTables.install (rules ++ rules')) p l ls →
        ∀ l' ∈ ls, CameDown t (t.forwards rules' ipPrefix) l' := by
      intro ls hls l' hl'
      obtain ⟨hmap, hlocated⟩ := hall ls hls
      obtain ⟨neigh, hneigh, rfl⟩ := hlocated l' hl'
      refine ⟨h.mem_of_adj (mem_neighNames hneigh), fun hs' =>
        ⟨l.entity, back_of_neighbor h hpair hneigh hs', fun hchild => ?_⟩⟩
      have hdown' : neigh.neighName ∈ t.forwards rules' ipPrefix l.entity :=
        hmap ▸ List.mem_map_of_mem hl'
      have hs : l.entity ∈ t.switches := by
        by_contra hs
        obtain ⟨-, -, hnone⟩ := forwards_spec h hrules' hsrc hl
        rw [hnone _ hs] at hdown'
        cases hdown'
      have h₁ : h.links.hops src neigh.neighName = h.links.hops src l.entity + 1 :=
        ((hswitch _ hs _).1 hdown').farther.2.2
      have h₂ : h.links.hops src l.entity = h.links.hops src neigh.neighName + 1 :=
        ((hswitch _ hs' _).1 hchild).farther.2.2
      omega
    constructor
    · have hrs : ∀ l' ∈ ls, ∃ rs, t.Carried (flowTables.install (rules ++ rules')) p n l' rs :=
        fun l' hl' => (ih (hnext ls hls l' hl')).1
      choose! f hf using hrs
      exact ⟨_, ls, hls, ls.map f, List.forall₂_map_right_iff.2 (List.forall₂_same.2 hf), rfl⟩
    · rintro rs ⟨ls, hls, rss, hrss, rfl⟩
      have hmap := (hall ls hls).1
      have hflat : rss.flatten.map Located.entity
          = (ls.map Located.entity).flatMap (flood (t.forwards rules' ipPrefix) n) := by
        have hdowns := hnext ls hls
        clear hls hmap
        induction hrss with
        | nil => rfl
        | @cons l' rs' ls rss hrs hrss ih' =>
          rw [List.flatten_cons, List.map_append, List.map_cons, List.flatMap_cons,
            (ih (hdowns l' List.mem_cons_self)).2 rs' hrs,
            ih' fun l'' hl'' => hdowns l'' (List.mem_cons_of_mem _ hl'')]
      rw [List.map_cons, hflat, hmap, flood]

/-- A condition packet of a host comes to every other node exactly once, and never back to the
host. -/
theorem sent_condition (h : t.WellFormed) (hpair : t.Paired) (hapart : t.Apart)
    {table : List FlowRule}
    (ht : t.installForwardingRule installRuleType = .ok table) (hsrc : src ∈ t.hosts)
    (hp : t.isConditionOf p src) (n : ℕ) : (∃ rs, t.Sent table p src n rs) ∧
      ∀ rs, t.Sent table p src n rs → src ∉ rs.map Located.entity ∧
        ∀ v ∈ t.graph, v ≠ src → h.links.hops src v ≤ n →
          (rs.map Located.entity).count v = 1 := by
  obtain ⟨rules, rules', hrules, hrules', rfl⟩ := installForwardingRule_eq_ok ht
  obtain ⟨ipPrefix, hl⟩ :=
    Option.isSome_iff_exists.1 (AList.lookup_isSome.2 (h.has_prefix src hsrc))
  obtain ⟨hswitch, hnodup, hnone⟩ := forwards_spec h hrules' hsrc hl
  obtain ⟨neigh, hneigh, hone⟩ := exists_link h hsrc
  have hnever : ∀ u, src ∉ t.forwards rules' ipPrefix u := by
    intro u hu
    by_cases hs : u ∈ t.switches
    · exact ((hswitch u hs src).1 hu).ne_root rfl
    · rw [hnone u hs] at hu
      cases hu
  have hdown : CameDown t (t.forwards rules' ipPrefix) neigh.located :=
    ⟨h.mem_of_adj (mem_neighNames hneigh), fun hs =>
      ⟨src, back_of_neighbor h hpair hneigh hs, hnever _⟩⟩
  obtain ⟨⟨rs, hrs⟩, hall⟩ := carried_condition (n := n) h hpair hapart hrules hrules' hsrc
    hl hp hdown
  refine ⟨⟨rs, (sent_iff hone).2 hrs⟩, fun rs hrs => ?_⟩
  have hflood := hall rs ((sent_iff hone).1 hrs)
  constructor
  · rw [hflood]
    refine not_mem_flood hnever fun heq => ?_
    have hadj : neigh.neighName ∈ t.neighNames src := mem_neighNames hneigh
    rw [show neigh.neighName = src from heq] at hadj
    exact h.irrefl src hadj
  · intro v hv hvs hn
    have hreceivers := count_receivers h hsrc hswitch hnodup hnone hv hvs hn
    have hlink : ((t.graph.lookup src).getD []).map (·.neighName) = [neigh.neighName] := by
      rw [show (t.graph.lookup src).getD [] = [neigh] from hone]
      rfl
    rw [receivers, hlink, List.flatMap_cons, List.flatMap_nil, List.append_nil] at hreceivers
    rw [hflood]
    exact hreceivers

end Condition

end GenerateRulesIntoTables

end CMTestbed
