import CMTestbed.Forwarding
import CMTestbed.Proofs.Flooding

/-!
# Which rule handles a packet

With the prefixes of the hosts apart, at most two installed rules of a switch match a packet: one
for the host that it goes to, and one, which outranks it, for the host that a condition packet comes
from.
-/

namespace CMTestbed

open Lib

namespace GenerateRulesIntoTables

variable {t : GenerateRulesIntoTables}

/-- No address is one of two hosts. -/
def Apart (t : GenerateRulesIntoTables) : Prop := ∀ d ∈ t.hosts, ∀ d' ∈ t.hosts, ∀ ip,
  t.ownsIp d ip = true → t.ownsIp d' ip = true → d = d'

theorem ownsIp_of_lookup {d : Name} {ipPrefix : List UInt8}
    (hp : t.hostIpprefixMap.lookup d = some ipPrefix) (ip : UInt32) :
    t.ownsIp d ip = inPrefix ipPrefix ip := by
  rw [ownsIp, hp, Option.any_some]

/-! ## The rules that are written -/

/-- A rule for the packets to a host, which sends them out at one port. -/
structure IsNormalRule (t : GenerateRulesIntoTables) (d : Name) (r : FlowRule) : Prop where
  entity : isHost r.entity = false
  nwProto : r.nwProto = none
  nwSrc : r.nwSrc = none
  nwDst : ∃ ipPrefix, t.hostIpprefixMap.lookup d = some ipPrefix ∧ r.nwDst = some ipPrefix
  prio : r.prio = LOW_PRIORITY
  single : ∀ ports, ports ∈ r.action.portLists ↔ ∃ port ∈ r.action.ports, ports = [port]

/-- A rule for the condition packets from a host, which sends them out at all its ports. -/
structure IsConditionRule (t : GenerateRulesIntoTables) (src : Name) (r : FlowRule) : Prop where
  entity : isHost r.entity = false
  dlType : r.dlType = 0x0800
  nwProto : r.nwProto = some 17
  nwSrc : ∃ ipPrefix, t.hostIpprefixMap.lookup src = some ipPrefix ∧ r.nwSrc = some ipPrefix
  nwDst : r.nwDst = none
  prio : r.prio = HIGH_PRIORITY
  all : r.action.portLists = [r.action.ports]

theorem isNormalRule_of_mem {installRuleType : ℕ} {d n : Name} {next : List Name}
    {rs : List FlowRule} (hrs : t.normalRulesAt installRuleType d n next = .ok rs) {r : FlowRule}
    (hr : r ∈ rs) : IsNormalRule t d r := by
  have hbundle : ∀ (ports ports' : List ℕ), ports' ∈ (Action.bundle ports).portLists
      ↔ ∃ port ∈ (Action.bundle ports).ports, ports' = [port] := by
    intro ports ports'
    simp [Action.portLists, Action.ports, eq_comm]
  have houtput : ∀ (port : ℕ) (ports' : List ℕ), ports' ∈ (Action.output [port]).portLists
      ↔ ∃ port' ∈ (Action.output [port]).ports, ports' = [port'] := by
    intro port ports'
    simp [Action.portLists, Action.ports]
  rw [normalRulesAt] at hrs
  split at hrs
  · cases hrs
    cases hr
  next hn =>
  rw [Bool.not_eq_true] at hn
  split at hrs
  · obtain ⟨ports, ipPrefix, hp, rfl⟩ := rules_of_prefix hrs
    rcases List.mem_pair.1 hr with rfl | rfl <;>
      exact ⟨hn, rfl, rfl, ⟨ipPrefix, hp, rfl⟩, rfl, hbundle ports⟩
  split at hrs
  · obtain ⟨port, ipPrefix, hp, rfl⟩ := rules_of_prefix hrs
    rcases List.mem_pair.1 hr with rfl | rfl <;>
      exact ⟨hn, rfl, rfl, ⟨ipPrefix, hp, rfl⟩, rfl, houtput port⟩
  · cases hrs
    cases hr

theorem isConditionRule_of_mem {src n : Name} {next : List Name} {rs : List FlowRule}
    (hrs : t.conditionRulesAt src n next = .ok rs) {r : FlowRule} (hr : r ∈ rs) :
    IsConditionRule t src r := by
  rw [conditionRulesAt] at hrs
  dsimp only at hrs
  split at hrs
  · cases hrs
    cases hr
  next hn =>
  rw [Bool.not_eq_true] at hn
  split at hrs <;>
  · obtain ⟨_, ipPrefix, hp, rfl⟩ := rules_of_prefix hrs
    obtain rfl := List.mem_singleton.1 hr
    exact ⟨hn, rfl, rfl, ⟨ipPrefix, hp, rfl⟩, rfl, rfl, rfl⟩

/-- What holds of the rules of each host at each entity holds of all rules. -/
theorem forall_of_hosts {rulesAt : Name → Name → List Name → Except PyError (List FlowRule)}
    {search : Name → Except PyError (Dict Name (List Name))} {rules : List FlowRule}
    (hrules : (do
      let rules ← t.hosts.mapM fun host => do rulesAlong (rulesAt host) (← search host)
      return rules.flatten) = Except.ok rules)
    {P : Name → FlowRule → Prop}
    (hP : ∀ host n next rs, rulesAt host n next = .ok rs → ∀ r ∈ rs, P host r) :
    ∀ r ∈ rules, ∃ host ∈ t.hosts, P host r := by
  obtain ⟨rss, hrss, hrules⟩ := bind_eq_ok.1 hrules
  cases hrules
  intro r hr
  obtain ⟨rs, hrs, hr⟩ := List.mem_flatten.1 hr
  obtain ⟨host, hhost, hrs⟩ := mapM_mem hrss rs hrs
  obtain ⟨path, -, hrs⟩ := bind_eq_ok.1 hrs
  obtain ⟨rss', hrss', hrs⟩ := bind_eq_ok.1 hrs
  cases hrs
  obtain ⟨rs', hrs', hr⟩ := List.mem_flatten.1 hr
  obtain ⟨e, -, he⟩ := mapM_mem hrss' rs' hrs'
  exact ⟨host, hhost, hP host e.1 e.2 rs' he r hr⟩

theorem mem_normalRules {installRuleType : ℕ} {rules : List FlowRule}
    (hrules : t.generateRulesForNormalPackets installRuleType = .ok rules) :
    ∀ r ∈ rules, ∃ d ∈ t.hosts, IsNormalRule t d r :=
  forall_of_hosts hrules fun _ _ _ _ hrs _ hr => isNormalRule_of_mem hrs hr

theorem mem_conditionRules {rules : List FlowRule}
    (hrules : t.generateRulesForConditionPackets = .ok rules) :
    ∀ r ∈ rules, ∃ src ∈ t.hosts, IsConditionRule t src r :=
  forall_of_hosts hrules fun _ _ _ _ hrs _ hr => isConditionRule_of_mem hrs hr

/-! ## The rules of one switch for one host -/

section Normal

variable {installRuleType : ℕ} {rules : List FlowRule} {d s : Name}

theorem normalRules_at (h : t.WellFormed) (htype : installRuleType ≠ ONLY_ECMP_PATH_RULE)
    (hrules : t.generateRulesForNormalPackets installRuleType = .ok rules) (hd : d ∈ t.hosts)
    (hs : s ∈ t.switches) : ∃ ipPrefix next action, t.hostIpprefixMap.lookup d = some ipPrefix ∧
      Leads t s next action.ports ∧ (∀ m ∈ next, h.links.Farther d m s) ∧
      (rules.filter (·.nwDst = t.hostIpprefixMap.lookup d)).filter (·.entity = s)
        = [⟨s, 0x0800, none, none, some ipPrefix, some LOW_PRIORITY, action⟩,
          ⟨s, 0x0806, none, none, some ipPrefix, none, action⟩] := by
  let f : Name → Except PyError (List FlowRule) := fun host => do
    rulesAlong (t.normalRulesAt installRuleType host) (← t.getReversePreNodes host)
  have hhost : ∀ d ∈ t.hosts, ∃ ipPrefix path rs, t.hostIpprefixMap.lookup d = some ipPrefix ∧
      t.getReversePreNodes d = .ok path ∧ f d = .ok rs ∧ (∀ r ∈ rs, r.nwDst = some ipPrefix) ∧
      ∀ s ∈ t.switches, ∃ next action, path.lookup s = some next ∧
        Leads t s next action.ports ∧ rs.filter (·.entity = s)
          = [⟨s, 0x0800, none, none, some ipPrefix, some LOW_PRIORITY, action⟩,
            ⟨s, 0x0806, none, none, some ipPrefix, none, action⟩] := by
    intro d hd
    obtain ⟨ipPrefix, hp⟩ := Option.isSome_iff_exists.1 (AList.lookup_isSome.2 (h.has_prefix d hd))
    obtain ⟨path, hpath, -⟩ := getReversePreNodes_spec h.toConnected ((h.mem_hosts d).1 hd).1
    obtain ⟨rs, hrs, hdst, hsw⟩ := normalRules_host h htype hd hp hpath
    exact ⟨ipPrefix, path, rs, hp, hpath, bind_eq_ok.2 ⟨path, hpath, hrs⟩, hdst, hsw⟩
  obtain ⟨rss, hrss, hfilter⟩ := hostRules_spec h FlowRule.nwDst (f := f) fun d hd => by
    obtain ⟨ipPrefix, -, rs, hp, -, hrs, hdst, -⟩ := hhost d hd
    exact ⟨rs, hrs, fun r hr => (hdst r hr).trans hp.symm⟩
  obtain ⟨rss', hrss', hrules⟩ := bind_eq_ok.1 hrules
  cases hrules
  obtain rfl : rss = rss' := Except.ok.inj (hrss.symm.trans hrss')
  obtain ⟨ipPrefix, path, rs, hp, hpath, hrs, -, hsw⟩ := hhost d hd
  obtain ⟨next, action, hl, hleads, hone⟩ := hsw s hs
  refine ⟨ipPrefix, next, action, hp, hleads, fun m hm => ?_, by rw [hfilter d hd rs hrs, hone]⟩
  obtain ⟨path', hpath', -, hnext⟩ :=
    getReversePreNodes_spec h.toConnected ((h.mem_hosts d).1 hd).1
  obtain rfl : path = path' := Except.ok.inj (hpath.symm.trans hpath')
  obtain ⟨hadj, hfar⟩ := ((hnext s next hl).2 m).1 hm
  refine ⟨h.symm hadj, ?_⟩
  rw [Links.hops_comm d, Links.hops_comm d, hfar]

/-- One rule of a switch matches a packet to a host, and leads one hop nearer. -/
theorem normalRules_hits (h : t.WellFormed) (hapart : t.Apart)
    (htype : installRuleType ≠ ONLY_ECMP_PATH_RULE)
    (hrules : t.generateRulesForNormalPackets installRuleType = .ok rules) (hd : d ∈ t.hosts)
    (hs : s ∈ t.switches) {p : Header} (hp : t.ownsIp d p.nwDst = true)
    (hdl : p.dlType = 0x0800 ∨ p.dlType = 0x0806) :
    ∃ r, rules.filter (flowTables.hits · (s, p)) = [r] ∧ r ∈ rules ∧ r.action.ports ≠ [] ∧
      ∀ port ∈ r.action.ports, ∃ m, h.links.Farther d m s ∧ t.behind s [port] = [m] := by
  obtain ⟨ipPrefix, next, action, hl, hleads, hnext, htwo⟩ := normalRules_at h htype hrules hd hs
  have hsplit : rules.filter (flowTables.hits · (s, p))
      = ((rules.filter (·.nwDst = t.hostIpprefixMap.lookup d)).filter (·.entity = s)).filter
        (·.dlType = p.dlType) := by
    rw [List.filter_filter, List.filter_filter]
    refine List.filter_congr fun r hr => ?_
    obtain ⟨d', hd', hrule⟩ := mem_normalRules hrules r hr
    obtain ⟨ipPrefix', hl', hdst⟩ := hrule.nwDst
    have hiff : inPrefix ipPrefix' p.nwDst = decide (r.nwDst = t.hostIpprefixMap.lookup d) := by
      rw [Bool.eq_iff_iff, decide_eq_true_iff, hdst, ← hl']
      constructor
      · intro hin
        rw [hapart d' hd' d hd p.nwDst (by rw [ownsIp_of_lookup hl', hin]) hp]
      · intro heq
        rw [h.prefix_inj d' hd' d hd heq, hl] at hl'
        rw [← ownsIp_of_lookup (hl.trans hl'), hp]
    show FlowRule.hits r (s, p) = _
    rw [FlowRule.hits, hrule.nwProto, hrule.nwSrc, hdst, Option.all_some, hiff, hdst]
    by_cases h₁ : r.entity = s <;> by_cases h₂ : r.dlType = p.dlType <;> simp [h₁, h₂]
  have hports : ∀ port ∈ action.ports, ∃ m, h.links.Farther d m s ∧ t.behind s [port] = [m] := by
    intro port hport
    obtain ⟨m, hm, hbehind⟩ := hleads.2 port hport
    exact ⟨m, hnext m hm, hbehind⟩
  obtain ⟨r, hr, haction⟩ : ∃ r, rules.filter (flowTables.hits · (s, p)) = [r] ∧
      r.action = action := by
    rw [hsplit, htwo]
    rcases hdl with hdl | hdl <;> simp [hdl]
  have hmem : r ∈ rules.filter (flowTables.hits · (s, p)) := hr ▸ List.mem_singleton_self r
  exact ⟨r, hr, (List.mem_filter.1 hmem).1, haction ▸ hleads.1, haction ▸ hports⟩

end Normal

section Condition

variable {rules : List FlowRule} {src s : Name}

/-- The rules for condition packets are written only if every switch has a next node. -/
theorem inner_of_conditionRules (h : t.WellFormed)
    (hrules : t.generateRulesForConditionPackets = .ok rules) :
    ∀ src ∈ t.hosts, ∀ s ∈ t.switches, ∃ v, h.links.Parent src s v := by
  intro src hsrc s hs
  obtain ⟨hsg, hsh⟩ := (h.mem_switches s).1 hs
  obtain ⟨hsrcg, hsrch⟩ := (h.mem_hosts src).1 hsrc
  obtain ⟨path, hpath, hkeys, hnext, -⟩ := getForwardNextNodes_spec h hsrcg
  obtain ⟨next, hl⟩ := Option.isSome_iff_exists.1 (AList.lookup_isSome.2 ((hkeys s).2 hsg))
  obtain ⟨rss, hrss, -⟩ := bind_eq_ok.1 hrules
  obtain ⟨rs, hrs⟩ := mapM_ok_iff.1 ⟨rss, hrss⟩ src hsrc
  obtain ⟨path', hpath', hrs⟩ := bind_eq_ok.1 hrs
  obtain rfl : path = path' := Except.ok.inj (hpath.symm.trans hpath')
  obtain ⟨rss', hrss', -⟩ := bind_eq_ok.1 hrs
  obtain ⟨rs', hrs'⟩ := mapM_ok_iff.1 ⟨rss', hrss'⟩ (s, next) (Dict.mem_items.2 hl)
  cases next with
  | nil =>
    have hne : src ≠ s := by
      rintro rfl
      rw [hsrch] at hsh
      cases hsh
    obtain ⟨m, -, hfar⟩ := Links.exists_nearer (h.connected src hsrcg s hsg) hne
    exact absurd hrs' (conditionRulesAt_nil hsh (h.symm hfar.1))
  | cons v next => exact ⟨v, ((hnext s _ hl).2 v).1 List.mem_cons_self⟩

theorem conditionRules_at (h : t.WellFormed)
    (hrules : t.generateRulesForConditionPackets = .ok rules) (hsrc : src ∈ t.hosts)
    (hs : s ∈ t.switches) {ipPrefix : List UInt8}
    (hp : t.hostIpprefixMap.lookup src = some ipPrefix) : ∃ action,
      t.behind s action.ports = t.forwards rules ipPrefix s ∧
      (rules.filter (·.nwSrc = some ipPrefix)).filter (·.entity = s)
        = [⟨s, 0x0800, some 17, some ipPrefix, none, some HIGH_PRIORITY, action⟩] := by
  have hinner := inner_of_conditionRules h hrules
  let f : Name → Except PyError (List FlowRule) := fun host => do
    rulesAlong (t.conditionRulesAt host) (← t.getForwardNextNodes host)
  have hhost : ∀ src ∈ t.hosts, ∀ ipPrefix, t.hostIpprefixMap.lookup src = some ipPrefix →
      ∃ rs, f src = .ok rs ∧ (∀ r ∈ rs, r.nwSrc = some ipPrefix) ∧
      ∀ s ∈ t.switches, ∃ action, rs.filter (·.entity = s)
        = [⟨s, 0x0800, some 17, some ipPrefix, none, some HIGH_PRIORITY, action⟩] := by
    intro src hsrc ipPrefix hp
    obtain ⟨path, hpath, -⟩ := getForwardNextNodes_spec h ((h.mem_hosts src).1 hsrc).1
    obtain ⟨rs, hrs, hmem, hsw⟩ := conditionRules_host h hsrc (hinner src hsrc) hp hpath
    refine ⟨rs, bind_eq_ok.2 ⟨path, hpath, hrs⟩, fun r hr => (hmem r hr).1, fun s hs => ?_⟩
    obtain ⟨-, action, -, -, hone⟩ := hsw s hs
    exact ⟨action, hone⟩
  obtain ⟨rss, hrss, hfilter⟩ := hostRules_spec h FlowRule.nwSrc (f := f) fun src hsrc => by
    obtain ⟨ipPrefix, hp⟩ :=
      Option.isSome_iff_exists.1 (AList.lookup_isSome.2 (h.has_prefix src hsrc))
    obtain ⟨rs, hrs, hmem, -⟩ := hhost src hsrc ipPrefix hp
    exact ⟨rs, hrs, fun r hr => (hmem r hr).trans hp.symm⟩
  obtain ⟨rss', hrss', hrules⟩ := bind_eq_ok.1 hrules
  cases hrules
  obtain rfl : rss = rss' := Except.ok.inj (hrss.symm.trans hrss')
  obtain ⟨rs, hrs, -, hsw⟩ := hhost src hsrc ipPrefix hp
  obtain ⟨action, hone⟩ := hsw s hs
  have hall := hfilter src hsrc rs hrs
  rw [hp] at hall
  refine ⟨action, ?_, by rw [hall, hone]⟩
  have hsplit : conditionRules rss.flatten ipPrefix s
      = ((rss.flatten.filter (·.nwSrc = some ipPrefix)).filter (·.entity = s)).filter
        fun r => r.dlType = 0x0800 ∧ r.nwProto = some 17 := by
    rw [conditionRules, List.filter_filter, List.filter_filter]
    refine List.filter_congr fun r _ => ?_
    by_cases h₁ : r.entity = s <;> by_cases h₂ : r.nwSrc = some ipPrefix <;> simp [h₁, h₂]
  rw [forwards, hsplit, hall, hone]
  simp

/-- One rule of a switch matches the condition packets of a host, and leads to its children. -/
theorem conditionRules_hits (h : t.WellFormed) (hapart : t.Apart)
    (hrules : t.generateRulesForConditionPackets = .ok rules) (hsrc : src ∈ t.hosts)
    (hs : s ∈ t.switches) {ipPrefix : List UInt8}
    (hl : t.hostIpprefixMap.lookup src = some ipPrefix) {p : Header} (hp : t.isConditionOf p src) :
    ∃ r, rules.filter (flowTables.hits · (s, p)) = [r] ∧ r ∈ rules ∧
      t.behind s r.action.ports = t.forwards rules ipPrefix s := by
  obtain ⟨action, hbehind, hone⟩ := conditionRules_at h hrules hsrc hs hl
  obtain ⟨hdl, hproto, hin⟩ := hp
  have hsplit : rules.filter (flowTables.hits · (s, p))
      = (rules.filter (·.nwSrc = some ipPrefix)).filter (·.entity = s) := by
    rw [List.filter_filter]
    refine List.filter_congr fun r hr => ?_
    obtain ⟨src', hsrc', hrule⟩ := mem_conditionRules hrules r hr
    obtain ⟨ipPrefix', hl', hnw⟩ := hrule.nwSrc
    have hiff : inPrefix ipPrefix' p.nwSrc = decide (r.nwSrc = some ipPrefix) := by
      rw [Bool.eq_iff_iff, decide_eq_true_iff, hnw, ← hl', ← hl]
      constructor
      · intro hin'
        rw [hapart src' hsrc' src hsrc p.nwSrc (by rw [ownsIp_of_lookup hl', hin']) hin]
      · intro heq
        rw [h.prefix_inj src' hsrc' src hsrc heq, hl] at hl'
        rw [← ownsIp_of_lookup (hl.trans hl'), hin]
    show FlowRule.hits r (s, p) = _
    rw [FlowRule.hits, hrule.dlType, hrule.nwProto, hrule.nwDst, hnw, Option.all_some,
      Option.all_some, hiff, hnw, hdl, hproto]
    by_cases h₁ : r.entity = s <;> simp [h₁]
  rw [hone] at hsplit
  have hmem := hsplit ▸ List.mem_singleton_self _
  exact ⟨_, hsplit, (List.mem_filter.1 hmem).1, hbehind⟩

/-- The children of a switch, as the rules have them. -/
theorem forwards_spec (h : t.WellFormed)
    (hrules : t.generateRulesForConditionPackets = .ok rules) (hsrc : src ∈ t.hosts)
    {ipPrefix : List UInt8} (hl : t.hostIpprefixMap.lookup src = some ipPrefix) :
    (∀ s ∈ t.switches, ∀ v, v ∈ t.forwards rules ipPrefix s ↔ h.links.Parent src s v) ∧
      (∀ s ∈ t.switches, (t.forwards rules ipPrefix s).Nodup) ∧
      ∀ n, n ∉ t.switches → t.forwards rules ipPrefix n = [] := by
  obtain ⟨rules', hrules', hsrcs⟩ := conditionRules_spec h (inner_of_conditionRules h hrules)
  obtain rfl : rules = rules' := Except.ok.inj (hrules.symm.trans hrules')
  obtain ⟨ipPrefix', path, hl', hpath, hsw, hnone⟩ := hsrcs src hsrc
  obtain rfl : ipPrefix = ipPrefix' := Option.some.inj (hl.symm.trans hl')
  obtain ⟨path', hpath', -, hnext, -⟩ := getForwardNextNodes_spec h ((h.mem_hosts src).1 hsrc).1
  obtain rfl : path = path' := Except.ok.inj (hpath.symm.trans hpath')
  exact ⟨fun s hs => (hnext s _ (hsw s hs)).2, fun s hs => (hnext s _ (hsw s hs)).1, hnone⟩

theorem conditionRules_miss (hrules : t.generateRulesForConditionPackets = .ok rules) {p : Header}
    (hp : ∀ src ∈ t.hosts, ¬ t.isConditionOf p src) (n : Name) :
    rules.filter (flowTables.hits · (n, p)) = [] := by
  refine List.filter_eq_nil_iff.2 fun r hr hhit => ?_
  obtain ⟨src, hsrc, hrule⟩ := mem_conditionRules hrules r hr
  obtain ⟨ipPrefix, hl, hnw⟩ := hrule.nwSrc
  have hhits : FlowRule.hits r (n, p) = true := hhit
  rw [FlowRule.hits, hrule.dlType, hrule.nwProto, hnw] at hhits
  simp only [Bool.and_eq_true, beq_iff_eq, Option.all_some] at hhits
  obtain ⟨⟨⟨⟨-, hdl⟩, hproto⟩, hin⟩, -⟩ := hhits
  exact hp src hsrc ⟨hdl.symm, hproto.symm, by rw [ownsIp_of_lookup hl, hin]⟩

end Condition

/-! ## The rule that handles a packet -/

section Installed

variable {installRuleType : ℕ} {table : List FlowRule} {p : Header} {d src s n : Name}

theorem installForwardingRule_eq_ok (ht : t.installForwardingRule installRuleType = .ok table) :
    ∃ rules rules', t.generateRulesForNormalPackets installRuleType = .ok rules ∧
      t.generateRulesForConditionPackets = .ok rules' ∧
      table = flowTables.install (rules ++ rules') := by
  obtain ⟨rules, hrules, ht⟩ := bind_eq_ok.1 ht
  obtain ⟨rules', hrules', ht⟩ := bind_eq_ok.1 ht
  exact ⟨rules, rules', hrules, hrules', (Except.ok.inj ht).symm⟩

/-- When every switch has a host of its own and a link to another switch, the rules are made. -/
theorem exists_installForwardingRule (h : t.WellFormed)
    (htype : installRuleType ≠ ONLY_ECMP_PATH_RULE)
    (hlinks : ∀ s ∈ t.switches, (∃ v ∈ t.neighNames s, v ∈ t.hosts)
      ∧ ∃ w ∈ t.neighNames s, w ∈ t.switches) :
    ∃ table, t.installForwardingRule installRuleType = .ok table := by
  obtain ⟨rules, hrules, -⟩ := normalRules_ipRules h htype
  obtain ⟨rules', hrules', -⟩ := conditionRules_spec h fun src hsrc s hs => by
    obtain ⟨⟨v, hsv, hv⟩, w, hsw, hw⟩ := hlinks s hs
    exact exists_parent h hsrc hv hsv hw hsw
  exact ⟨_, bind_eq_ok.2 ⟨rules, hrules, bind_eq_ok.2 ⟨rules', hrules', rfl⟩⟩⟩

/-- A switch sends a normal packet out at one port, and that leads one hop nearer. -/
theorem handlers_normal (h : t.WellFormed) (hapart : t.Apart)
    (htype : installRuleType ≠ ONLY_ECMP_PATH_RULE)
    (ht : t.installForwardingRule installRuleType = .ok table) (hd : d ∈ t.hosts)
    (hs : s ∈ t.switches) (hp : t.ownsIp d p.nwDst = true)
    (hdl : p.dlType = 0x0800 ∨ p.dlType = 0x0806) (hno : ∀ src ∈ t.hosts, ¬ t.isConditionOf p src) :
    ∃ r, flowTables.handlers table (s, p) = [r] ∧ r.action.ports ≠ [] ∧
      (∀ ports, ports ∈ r.action.portLists ↔ ∃ port ∈ r.action.ports, ports = [port]) ∧
      ∀ port ∈ r.action.ports, ∃ m, h.links.Farther d m s ∧ t.behind s [port] = [m] := by
  obtain ⟨rules, rules', hrules, hrules', rfl⟩ := installForwardingRule_eq_ok ht
  obtain ⟨r, hone, hr, hne, hports⟩ := normalRules_hits h hapart htype hrules hd hs hp hdl
  obtain ⟨_, -, hrule⟩ := mem_normalRules hrules r hr
  refine ⟨r, FlowTable.handlers_install_of_single ?_, hne, hrule.single, hports⟩
  rw [List.filter_append, hone, conditionRules_miss hrules' hno s, List.append_nil]

/-- A switch sends a condition packet to each of its children, whatever address it goes to. -/
theorem handlers_condition (h : t.WellFormed) (hapart : t.Apart) {rules rules' : List FlowRule}
    (hrules : t.generateRulesForNormalPackets installRuleType = .ok rules)
    (hrules' : t.generateRulesForConditionPackets = .ok rules') (hsrc : src ∈ t.hosts)
    (hs : s ∈ t.switches) {ipPrefix : List UInt8}
    (hl : t.hostIpprefixMap.lookup src = some ipPrefix) (hp : t.isConditionOf p src) :
    ∃ r, flowTables.handlers (flowTables.install (rules ++ rules')) (s, p) = [r] ∧
      r.action.portLists = [r.action.ports] ∧
      t.behind s r.action.ports = t.forwards rules' ipPrefix s := by
  obtain ⟨r, hone, hr, hbehind⟩ := conditionRules_hits h hapart hrules' hsrc hs hl hp
  obtain ⟨_, -, hrule⟩ := mem_conditionRules hrules' r hr
  have hlast : (rules ++ rules').filter (flowTables.hits · (s, p))
      = rules.filter (flowTables.hits · (s, p)) ++ [r] := by
    rw [List.filter_append, hone]
  refine ⟨r, FlowTable.handlers_install_of_outranks hlast fun r' hr' => ?_, hrule.all, hbehind⟩
  -- the normal rules that match too are outranked
  obtain ⟨_, -, hrule'⟩ := mem_normalRules hrules r' (List.mem_filter.1 hr').1
  show r'.prio < r.prio
  rw [hrule'.prio, hrule.prio]
  decide

/-- No rule is for a host. -/
theorem handlers_host (ht : t.installForwardingRule installRuleType = .ok table)
    (hn : isHost n = true) : flowTables.handlers table (n, p) = [] := by
  obtain ⟨rules, rules', hrules, hrules', rfl⟩ := installForwardingRule_eq_ok ht
  refine FlowTable.handlers_install_of_none (List.filter_eq_nil_iff.2 fun r hr hhit => ?_)
  have hentity : isHost r.entity = false := by
    rcases List.mem_append.1 hr with hr | hr
    · obtain ⟨_, -, hrule⟩ := mem_normalRules hrules r hr
      exact hrule.entity
    · obtain ⟨_, -, hrule⟩ := mem_conditionRules hrules' r hr
      exact hrule.entity
  have hhits : FlowRule.hits r (n, p) = true := hhit
  simp only [FlowRule.hits, Bool.and_eq_true, beq_iff_eq] at hhits
  obtain ⟨⟨⟨⟨rfl, -⟩, -⟩, -⟩, -⟩ := hhits
  rw [hn] at hentity
  cases hentity

end Installed

end GenerateRulesIntoTables

end CMTestbed
