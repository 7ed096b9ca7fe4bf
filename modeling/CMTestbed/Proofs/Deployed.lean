import CMTestbed.Proofs.TasksInfo
import Mathlib.Data.Nat.Digits.Lemmas

/-!
# The testbed

In the testbed the host `hN` has the addresses of one /8, and the switches are `s1` to `s12`
(`Deployed`).  There the tasks of the generator fit in the lines and in the arrays (`Generated`), so
a sender finds the task of a packet, which is that of the two hosts the packet is between.
-/

namespace CMTestbed

open Lib

/-! ## The prefix of a host -/

theorem parseOctet_formatNat {k : ℕ} (hk : k < 256) : parseOctet (formatNat k) = some k := by
  have hzero : (formatNat k).head? = some 48 → (formatNat k).length = 1 := by
    by_cases h10 : k < 10
    · rw [formatNat_of_lt h10]
      exact fun _ => rfl
    · -- the first digit of a longer number is not 0
      intro hhead
      have h₀ : k ≠ 0 := by omega
      rw [formatNat, if_neg h₀, List.head?_map, List.head?_reverse,
        List.getLast?_eq_some_getLast (Nat.digits_ne_nil_iff_ne_zero.2 h₀), Option.map_some,
        Option.some.injEq, ← UInt8.toNat_inj, toNat_digit (Nat.digits_lt_base (by decide)
          (List.getLast_mem _))] at hhead
      exact absurd (Nat.add_left_cancel (k := 0) hhead) (Nat.getLast_digit_ne_zero 10 h₀)
  rw [parseOctet, digits_formatNat, if_pos]
  exact ⟨formatNat_ne_nil k, List.all_eq_true.2 (isdigit_formatNat k), hzero, hk⟩

theorem parse_slash8 {k : ℕ} (hk : k < 256) : Cidr.parse (formatNat k ++ chars ".0.0.0/8")
    = some ⟨UInt32.ofNat (k * 2 ^ 24), 8, by decide⟩ := by
  have hdot : (46 : UInt8) ∉ formatNat k := not_mem_formatNat (by decide) k
  have hip : (formatNat k ++ [46, 48, 46, 48, 46, 48]).splitOn 46
      = [formatNat k, [48], [48], [48]] := by
    rw [splitOn_append_cons, splitOn_of_free hdot]
    rfl
  have hslash : (formatNat k ++ chars ".0.0.0/8").splitOn 47
      = [formatNat k ++ [46, 48, 46, 48, 46, 48], [56]] := by
    have hchars : chars ".0.0.0/8" = [46, 48, 46, 48, 46, 48] ++ 47 :: [56] := by decide +kernel
    rw [hchars, ← List.append_assoc, splitOn_append_cons, splitOn_of_free, splitOn_of_free]
    · rfl
    · decide
    · simpa using not_mem_formatNat (by decide) k
  have hread : parseIp (formatNat k ++ [46, 48, 46, 48, 46, 48])
      = some (UInt32.ofNat (k * 2 ^ 24)) := by
    have hzero : parseOctet [48] = some 0 := by decide
    have hoctets : [formatNat k, [48], [48], [48]].mapM parseOctet = some [k, 0, 0, 0] := by
      simp [parseOctet_formatNat hk, hzero]
    have hsum : ((k * 256 + 0) * 256 + 0) * 256 + 0 = k * 2 ^ 24 := by omega
    rw [parseIp, hip, hoctets]
    exact congrArg (fun n => some (UInt32.ofNat n)) hsum
  have hbits : digits [56] = 8 := by decide
  rw [Cidr.parse, hslash]
  simp only [hread, hbits, Option.map_some]
  rw [dif_pos (by decide), if_pos (by decide)]

theorem inPrefix_slash8 {k : ℕ} (hk : k < 256) (ip : UInt32) :
    inPrefix (formatNat k ++ chars ".0.0.0/8") ip = decide (ip.toNat / 2 ^ 24 = k) := by
  have haddr : (UInt32.ofNat (k * 2 ^ 24)).toNat / 2 ^ 24 = k := by
    rw [UInt32.toNat_ofNat']
    omega
  rw [inPrefix, parse_slash8 hk, Option.any_some, Cidr.covers]
  refine decide_eq_decide.2 ?_
  show ip.toNat / 2 ^ 24 = (UInt32.ofNat (k * 2 ^ 24)).toNat / 2 ^ 24 ↔ _
  rw [haddr]

/-! ## The testbed -/

@[simp] theorem numberOf_hostName (n : ℕ) : numberOf (hostName n) = n := digits_formatNat n

@[simp] theorem numberOf_switchName (n : ℕ) : numberOf (switchName n) = n := digits_formatNat n

namespace GenerateRulesIntoTables

/-- A topology of the testbed: the hosts below 118 and the switches from 1 to 12, by their numbers,
and a /8 for each host.  Addresses above that are no `int`s. -/
structure Deployed (t : GenerateRulesIntoTables) : Prop extends WellFormed t where
  paired : t.Paired
  has_switch : t.switches ≠ []
  host : ∀ u ∈ t.hosts, ∃ n, 1 ≤ n ∧ n < 118 ∧ u = hostName n
    ∧ t.hostIpprefixMap.lookup u = some (formatNat (n + 9) ++ chars ".0.0.0/8")
  switch : ∀ s ∈ t.switches, ∃ n, 1 ≤ n ∧ n ≤ 12 ∧ s = switchName n

namespace Deployed

variable {t : GenerateRulesIntoTables} {u v : Name} {ip : UInt32}

theorem host_number (h : t.Deployed) (hu : u ∈ t.hosts) :
    1 ≤ numberOf u ∧ numberOf u < 118 ∧ u = hostName (numberOf u) := by
  obtain ⟨n, h₁, hn, rfl, -⟩ := h.host u hu
  rw [numberOf_hostName]
  exact ⟨h₁, hn, rfl⟩

theorem switch_number (h : t.Deployed) (hu : u ∈ t.switches) :
    1 ≤ numberOf u ∧ numberOf u ≤ 12 ∧ u = switchName (numberOf u) := by
  obtain ⟨n, h₁, hn, rfl⟩ := h.switch u hu
  rw [numberOf_switchName]
  exact ⟨h₁, hn, rfl⟩

theorem host_inj (h : t.Deployed) (hu : u ∈ t.hosts) (hv : v ∈ t.hosts)
    (heq : numberOf u = numberOf v) : u = v := by
  rw [(h.host_number hu).2.2, heq, ← (h.host_number hv).2.2]

theorem ownsIp_iff (h : t.Deployed) (hu : u ∈ t.hosts) :
    t.ownsIp u ip = true ↔ InRangeOf (numberOf u) ip := by
  obtain ⟨n, h₁, hn, rfl, hl⟩ := h.host u hu
  rw [ownsIp_of_lookup hl, inPrefix_slash8 (by omega), decide_eq_true_iff, numberOf_hostName,
    InRangeOf]

theorem apart (h : t.Deployed) : t.Apart := by
  intro u hu v hv ip huip hvip
  exact h.host_inj hu hv (((h.ownsIp_iff hu).1 huip).unique ((h.ownsIp_iff hv).1 hvip))

end Deployed

/-- A file with hosts has been read. -/
theorem ofFile_read {interfaces lines : List String}
    (hhosts : (ofFile interfaces lines).hosts ≠ []) :
    ∃ ids lines', readTopo ids lines' = .ok (ofFile interfaces lines) := by
  rw [ofFile] at hhosts ⊢
  cases hread : readTopo ((interfaces.zipIdx 1).foldl (fun d e => AList.insert (chars e.1) e.2 d) ∅)
      (lines.map chars) with
  | error e =>
    rw [hread] at hhosts
    exact absurd rfl hhosts
  | ok t => exact ⟨_, _, hread⟩

/-- A check that a topology is one that is deployed, with a host at each switch. -/
def deploys (t : GenerateRulesIntoTables) (root : Name) (rest : List Name) : Bool :=
  t.checks root rest && decide (t.hosts ≠ [] ∧ t.switches ≠ [])
    && decide (∀ u ∈ t.hosts, (1 ≤ numberOf u ∧ numberOf u ≤ 12) ∧ u = hostName (numberOf u)
      ∧ t.hostIpprefixMap.lookup u = some (formatNat (numberOf u + 9) ++ chars ".0.0.0/8"))
    && decide (∀ s ∈ t.switches, (1 ≤ numberOf s ∧ numberOf s ≤ 12 ∧ s = switchName (numberOf s))
      ∧ (∃ v ∈ t.neighNames s, v ∈ t.hosts) ∧ ∃ w ∈ t.neighNames s, w ∈ t.switches)

/-- The rules of such a topology are made, whatever their type. -/
theorem ofFile_deployed {interfaces lines : List String} {root : Name} {rest : List Name}
    (h : (ofFile interfaces lines).deploys root rest = true) :
    (ofFile interfaces lines).Deployed ∧ (∀ u ∈ (ofFile interfaces lines).hosts, numberOf u ≤ 12)
      ∧ ∀ installRuleType ≠ ONLY_ECMP_PATH_RULE, ∃ table,
        (ofFile interfaces lines).installForwardingRule installRuleType = .ok table := by
  simp only [deploys, Bool.and_eq_true, decide_eq_true_eq] at h
  obtain ⟨⟨⟨hchecks, hhosts, hswitches⟩, hhost⟩, hswitch⟩ := h
  have hwf := wellFormed_of_checks hchecks
  obtain ⟨_, _, hread⟩ := ofFile_read hhosts
  refine ⟨⟨hwf, readTopo_paired hread, hswitches, fun u hu => ?_, fun s hs => ?_⟩,
    fun u hu => (hhost u hu).1.2, fun installRuleType htype => ?_⟩
  · obtain ⟨⟨h₁, h12⟩, hname, hlookup⟩ := hhost u hu
    exact ⟨_, h₁, by omega, hname, hlookup⟩
  · exact ⟨_, (hswitch s hs).1⟩
  · exact exists_installForwardingRule hwf htype fun s hs => (hswitch s hs).2

/-- Four switches with a host each, and two ways from `h1` to `h2`. -/
def diamond : GenerateRulesIntoTables :=
  ofFile ["s1-eth1", "s1-eth2", "s1-eth3", "s2-eth1", "s2-eth2", "s2-eth3", "s4-eth1", "s4-eth2",
      "s4-eth3", "s6-eth1", "s6-eth2", "s6-eth3"]
    ["#hosts", "h1 h2 h4 h6", "#switches", "s1 s2 s4 s6", "#prefixes", "h1 10.0.0.0/8",
      "h2 11.0.0.0/8", "h4 13.0.0.0/8", "h6 15.0.0.0/8", "#connections", "s1 h1", "s2 h2", "s4 h4",
      "s6 h6", "s1 s4", "s1 s6", "s2 s4", "s2 s6"]

theorem diamond_checked : diamond.deploys (chars "h1")
      (["s1", "s4", "s6", "s2", "h4", "h6", "h2"].map chars) = true
    ∧ diamond.hosts = ["h1", "h2", "h4", "h6"].map chars
    ∧ (chars "h1" ≠ chars "h2" ∧ chars "h1" ≠ chars "h4")
    ∧ diamond.ownsIp (chars "h1") 0x0a000001 = true
    ∧ diamond.ownsIp (chars "h2") 0x0b000001 = true
    ∧ diamond.ownsIp (chars "h4") 0x0d000001 = true := by
  decide +kernel

theorem diamond_deployed : diamond.Deployed := (ofFile_deployed diamond_checked.1).1

theorem diamond_numbers : ∀ u ∈ diamond.hosts, numberOf u ≤ 12 :=
  (ofFile_deployed diamond_checked.1).2.1

theorem diamond_installed : ∃ table,
    diamond.installForwardingRule BOTH_SINGLE_AND_ECMP_PATH_RULE = .ok table :=
  (ofFile_deployed diamond_checked.1).2.2 _ (by decide)

theorem hosts_diamond : diamond.hosts = ["h1", "h2", "h4", "h6"].map chars := diamond_checked.2.1

theorem diamond_names : chars "h1" ≠ chars "h2" ∧ chars "h1" ≠ chars "h4" := diamond_checked.2.2.1

theorem diamond_owns : diamond.ownsIp (chars "h1") 0x0a000001 = true
    ∧ diamond.ownsIp (chars "h2") 0x0b000001 = true
    ∧ diamond.ownsIp (chars "h4") 0x0d000001 = true :=
  diamond_checked.2.2.2

theorem diamond_read : ∃ ids lines, readTopo ids lines = .ok diamond :=
  ofFile_read (show diamond.hosts ≠ [] by simp [hosts_diamond])

theorem diamond_tasks : ∃ tasks₁ tasks₃, diamond.generateTasksForQuery1 = .ok tasks₁
    ∧ diamond.generateTasksForQuery3 = .ok tasks₃
    ∧ ⟨1, chars "h1", chars "h4", ["s1", "s4"].map chars⟩ ∈ tasks₁
    ∧ ⟨1, chars "h1", chars "h2", ["s4", "s6"].map chars⟩ ∈ tasks₃ := by
  have h₁ : ⟨1, chars "h1", chars "h4", ["s1", "s4"].map chars⟩
      ∈ diamond.generateTasksForQuery1.toOption.getD [] := by
    decide +kernel
  have h₃ : ⟨1, chars "h1", chars "h2", ["s4", "s6"].map chars⟩
      ∈ diamond.generateTasksForQuery3.toOption.getD [] := by
    decide +kernel
  cases htasks₁ : diamond.generateTasksForQuery1 with
  | error e =>
    rw [htasks₁] at h₁
    cases h₁
  | ok tasks₁ =>
    cases htasks₃ : diamond.generateTasksForQuery3 with
    | error e =>
      rw [htasks₃] at h₃
      cases h₃
    | ok tasks₃ =>
      rw [htasks₁] at h₁
      rw [htasks₃] at h₃
      exact ⟨tasks₁, tasks₃, rfl, rfl, h₁, h₃⟩

/-! ## The tasks that are generated -/

section Tasks

variable {t : GenerateRulesIntoTables} {tasks : List MonitorTask}

/-- Between the ends of a shortest path to a host there are switches. -/
theorem WellFormed.switch_of_mem_path (h : t.WellFormed) {u d : Name} (hd : d ∈ t.hosts)
    {p : List Name} (hp : h.links.ShortestPath u d (u :: p)) :
    ∀ n ∈ p, n ≠ d → n ∈ t.switches := by
  have hdg := ((h.mem_hosts d).1 hd).1
  induction p generalizing u with
  | nil => exact fun n hn => absurd hn List.not_mem_nil
  | cons a p ih =>
    intro n hn hnd
    obtain ⟨m, q, heq, hfar, hq⟩ := hp.uncons (hp.ne_of_mem_tail List.mem_cons_self)
    cases heq
    cases hq.head
    rcases List.mem_cons.1 hn with rfl | hn
    · have hg := h.toConnected.mem_of_reachable hdg hq.reachable.symm
      cases hnh : isHost n with
      | true => exact absurd (h.host_eq_root hdg ((h.mem_hosts n).2 ⟨hg, hnh⟩) hfar) hnd
      | false => exact (h.mem_switches n).2 ⟨hg, hnh⟩
    · exact ih hq n hn hnd

/-- Two hosts that are linked to each other are the whole topology. -/
theorem Deployed.not_adj (h : t.Deployed) {u v : Name} (hu : u ∈ t.hosts) (hv : v ∈ t.hosts) :
    v ∉ t.neighNames u := by
  intro hadj
  have hug := ((h.mem_hosts u).1 hu).1
  have honly : ∀ {a b : Name}, a ∈ t.hosts → b ∈ t.neighNames a → ∀ c ∈ t.neighNames a, c = b := by
    intro a b ha hb c hc
    obtain ⟨x, hx⟩ := List.length_eq_one_iff.1 (h.host_link a ha)
    rw [hx, List.mem_singleton] at hb hc
    rw [hb, hc]
  obtain ⟨s, hs⟩ := List.exists_mem_of_ne_nil _ h.has_switch
  obtain ⟨hsg, hsh⟩ := (h.mem_switches s).1 hs
  have hpair : s = u ∨ s = v := by
    refine Links.hops_induction (L := h.links) (P := fun n => n = u ∨ n = v) (.inl rfl) ?_
      (h.connected u hug s hsg)
    rintro a b - (rfl | rfl) hfar
    · exact .inr (honly hu hadj b hfar.1)
    · exact .inl (honly hv (h.symm hadj) b hfar.1)
  have hhost : s ∈ t.hosts := by
    rcases hpair with rfl | rfl
    · exact hu
    · exact hv
  rw [((h.mem_hosts s).1 hhost).2] at hsh
  cases hsh

/-- Names with numbers of their own, from 1 on. -/
theorem length_le_of_numberOf {names : List Name} {n : ℕ} (hnodup : names.Nodup)
    (hinj : ∀ u ∈ names, ∀ v ∈ names, numberOf u = numberOf v → u = v)
    (hnum : ∀ u ∈ names, 1 ≤ numberOf u ∧ numberOf u ≤ n) : names.length ≤ n := by
  have hsub : (names.map numberOf).toFinset ⊆ Finset.Icc 1 n := by
    intro k hk
    obtain ⟨u, hu, rfl⟩ := List.mem_map.1 (List.mem_toFinset.1 hk)
    exact Finset.mem_Icc.2 (hnum u hu)
  have hcard := Finset.card_le_card hsub
  rwa [List.toFinset_card_of_nodup (hnodup.map_on hinj), List.length_map, Nat.card_Icc,
    Nat.add_sub_cancel] at hcard

/-- Switches that fit in the array of a task. -/
structure Monitors (t : GenerateRulesIntoTables) (monitors : List Name) : Prop where
  mem_switches : ∀ node ∈ monitors, node ∈ t.switches
  ne_nil : monitors ≠ []
  length_le : monitors.length ≤ maxMonitors

theorem SinglePath.monitors (h : t.Deployed) {pair : Name × Name} {monitors : List Name}
    (hs : pair.1 ∈ t.hosts) (hd : pair.2 ∈ t.hosts)
    (hm : SinglePath h.toConnected pair monitors) : Monitors t monitors := by
  obtain ⟨hpath, -⟩ := hm
  have hnodup := hpath.nodup
  rw [List.cons_append, List.nodup_cons, List.nodup_append] at hnodup
  obtain ⟨-, hnodup, -, hdst⟩ := hnodup
  have hsw : ∀ node ∈ monitors, node ∈ t.switches := fun node hnode =>
    h.switch_of_mem_path hd hpath node (List.mem_append_left _ hnode)
      (hdst node hnode pair.2 (List.mem_singleton_self _))
  refine ⟨hsw, ?_, length_le_of_numberOf hnodup (fun u hu v hv heq => ?_) fun u hu => ?_⟩
  · rintro rfl
    exact h.not_adj hs hd (List.isChain_cons_cons.1 hpath.chain).1
  · rw [(h.switch_number (hsw u hu)).2.2, heq, ← (h.switch_number (hsw v hv)).2.2]
  · obtain ⟨h₁, h₁₂, -⟩ := h.switch_number (hsw u hu)
    exact ⟨h₁, h₁₂⟩

theorem SmallCut.monitors (h : t.Deployed) {pair : Name × Name} {monitors : List Name}
    (hs : pair.1 ∈ t.hosts) (hd : pair.2 ∈ t.hosts) (hm : SmallCut h.toConnected pair monitors) :
    Monitors t monitors := by
  have hsg := ((h.mem_hosts _).1 hs).1
  have hdg := ((h.mem_hosts _).1 hd).1
  have hswitch : ∀ node ∈ ecmpNodeSet, isHost node = false := by decide +kernel
  constructor
  · intro node hnode
    obtain ⟨p, hp, hmem⟩ := hm.cuts.on_path node hnode
    exact (h.mem_switches node).2 ⟨h.toConnected.mem_of_reachable hdg (hp.reachable_of_mem hmem),
      hswitch node (hm.mem_set node hnode)⟩
  · rintro rfl
    obtain ⟨p, hp⟩ := Links.ShortestPath.exists_of_reachable (h.connected _ hdg _ hsg)
    obtain ⟨m, ⟨hmem, -⟩, -⟩ := hm.cuts.exactly_one p hp
    cases hmem
  · exact hm.length_le.trans (by decide)

/-- What the generator guarantees of the tasks. -/
structure Generated (t : GenerateRulesIntoTables) (tasks : List MonitorTask) : Prop where
  pairs : (tasks.map MonitorTask.pair).Sublist (t.hosts ×ˢ t.hosts)
  numbered : Numbered tasks
  monitors : ∀ task ∈ tasks, Monitors t task.monitors

namespace Generated

variable {task : MonitorTask}

theorem mem_hosts (hg : Generated t tasks) (htask : task ∈ tasks) :
    task.src ∈ t.hosts ∧ task.dst ∈ t.hosts :=
  List.mem_product.1 (hg.pairs.subset (List.mem_map_of_mem htask))

theorem pairs_nodup (h : t.Deployed) (hg : Generated t tasks) :
    (tasks.map MonitorTask.pair).Nodup :=
  hg.pairs.nodup (h.hosts_nodup.product h.hosts_nodup)

theorem length_hosts (h : t.Deployed) : t.hosts.length ≤ 117 := by
  refine length_le_of_numberOf h.hosts_nodup (fun u hu v hv => h.host_inj hu hv) fun u hu => ?_
  obtain ⟨h₁, hn, -⟩ := h.host_number hu
  exact ⟨h₁, Nat.le_of_lt_succ hn⟩

theorem betweenHosts (h : t.Deployed) (hg : Generated t tasks) (htask : task ∈ tasks) :
    BetweenHosts task := by
  obtain ⟨hs, hd⟩ := hg.mem_hosts htask
  obtain ⟨hs₁, hs₂, -⟩ := h.host_number hs
  obtain ⟨hd₁, hd₂, -⟩ := h.host_number hd
  exact ⟨⟨hs₁, hs₂⟩, hd₁, hd₂⟩

theorem taskid_lt (h : t.Deployed) (hg : Generated t tasks) (htask : task ∈ tasks) :
    task.taskid < 2 ^ 31 := by
  have hid : task.taskid ∈ List.range' 1 tasks.length := by
    rw [← hg.numbered]
    exact List.mem_map_of_mem htask
  have hlen := hg.pairs.length_le
  have hhosts := length_hosts h
  have hsq : t.hosts.length * t.hosts.length ≤ 117 * 117 := Nat.mul_le_mul hhosts hhosts
  rw [List.length_map, List.length_product] at hlen
  rw [List.mem_range'_1] at hid
  omega

theorem writable (h : t.Deployed) (hg : Generated t tasks) (htask : task ∈ tasks) :
    Writable task := by
  obtain ⟨hs, hd⟩ := hg.mem_hosts htask
  have hmon := hg.monitors task htask
  have hhost : ∀ {u : Name}, u ∈ t.hosts → ∃ n < 2 ^ 31, u.drop 1 = formatNat n := by
    intro u hu
    obtain ⟨-, hn, heq⟩ := h.host_number hu
    refine ⟨numberOf u, by omega, ?_⟩
    rw [heq, numberOf_hostName]
    rfl
  refine ⟨hg.taskid_lt h htask, hhost hs, hhost hd, fun node hnode => ?_, hmon.ne_nil,
    hmon.length_le⟩
  obtain ⟨-, hn, heq⟩ := h.switch_number (hmon.mem_switches node hnode)
  refine ⟨numberOf node, by omega, ?_⟩
  rw [heq, numberOf_switchName]
  rfl

/-- A sender has at most one task for each receiver. -/
theorem length_filter_le (h : t.Deployed) (hg : Generated t tasks) (i : ℕ) :
    (tasks.filter (numberOf ·.src = i)).length ≤ maxTaskNum := by
  have hnodup : (tasks.filter (numberOf ·.src = i)).Nodup :=
    ((hg.pairs_nodup h).of_map _).filter _
  have hinj : ∀ task ∈ tasks.filter (numberOf ·.src = i),
      ∀ task' ∈ tasks.filter (numberOf ·.src = i), task.dst = task'.dst → task = task' := by
    intro task htask task' htask' heq
    obtain ⟨htask, hi⟩ := List.mem_filter.1 htask
    obtain ⟨htask', hi'⟩ := List.mem_filter.1 htask'
    rw [decide_eq_true_iff] at hi hi'
    have hsrc := h.host_inj (hg.mem_hosts htask).1 (hg.mem_hosts htask').1 (hi.trans hi'.symm)
    exact List.inj_on_of_nodup_map (hg.pairs_nodup h) htask htask' (Prod.ext hsrc heq)
  have hsub : (tasks.filter (numberOf ·.src = i)).map MonitorTask.dst ⊆ t.hosts := by
    intro v hv
    obtain ⟨task, htask, rfl⟩ := List.mem_map.1 hv
    exact (hg.mem_hosts (List.mem_filter.1 htask).1).2
  have hlen := ((hnodup.map_on hinj).subperm hsub).length_le
  have hmax : 117 ≤ maxTaskNum := by decide
  rw [List.length_map] at hlen
  have := length_hosts h
  omega

/-- A sender stores its own tasks. -/
theorem initTasksInfo_eq (h : t.Deployed) (hg : Generated t tasks) {u : Name} (hu : u ∈ t.hosts) :
    initTasksInfo (taskFile tasks) u = .ok ((tasks.filter (numberOf ·.src = numberOf u)).map
      fun task => task.stored.withPrefixes) := by
  obtain ⟨-, hnum, hname⟩ := h.host_number hu
  have hread := initTasksInfo_taskFile (fun task htask => hg.writable h htask)
    (show numberOf u < 2 ^ 31 by omega) (hg.length_filter_le h _)
  rwa [← hname] at hread

/-- A sender finds the task of the two hosts that a flow is between. -/
theorem getTaskOfTraffic (h : t.Deployed) (hg : Generated t tasks) {u v : Name} (hu : u ∈ t.hosts)
    (hv : v ∈ t.hosts) {stored : List Task}
    (hstored : initTasksInfo (taskFile tasks) u = .ok stored) (flow : FlowSrc)
    (hsrc : t.ownsIp u flow.srcip = true) (hdst : t.ownsIp v flow.dstip = true) :
    CMTestbed.getTaskOfTraffic stored flow
      = (tasks.find? (·.pair = (u, v))).map fun task => task.stored.withPrefixes := by
  rw [hg.initTasksInfo_eq h hu, Except.ok.injEq] at hstored
  subst hstored
  rw [getTaskOfTraffic_eq fun task htask => hg.betweenHosts h (List.mem_filter.1 htask).1,
    List.find?_filter]
  congr 1
  refine List.find?_congr fun task htask => ?_
  obtain ⟨hs, hd⟩ := hg.mem_hosts htask
  have hsrc' : InRangeOf (numberOf task.src) flow.srcip ↔ task.src = u := by
    rw [← h.ownsIp_iff hs]
    exact ⟨fun hown => h.apart _ hs _ hu _ hown hsrc, fun heq => heq ▸ hsrc⟩
  have hdst' : InRangeOf (numberOf task.dst) flow.dstip ↔ task.dst = v := by
    rw [← h.ownsIp_iff hd]
    exact ⟨fun hown => h.apart _ hd _ hv _ hown hdst, fun heq => heq ▸ hdst⟩
  rw [Bool.eq_iff_iff]
  simp only [decide_eq_true_eq]
  rw [hsrc', hdst', MonitorTask.pair, Prod.mk.injEq]
  constructor
  · exact And.right
  · rintro ⟨rfl, rfl⟩
    exact ⟨rfl, rfl, rfl⟩

end Generated

theorem query1Tasks_generated (h : t.Deployed) (htasks : t.generateTasksForQuery1 = .ok tasks) :
    Generated t tasks := by
  obtain ⟨hof, hnum⟩ := query1Tasks_spec h.toConnected htasks
  refine ⟨hof.sublist, hnum, fun task htask => ?_⟩
  exact (hof.good task htask).2.monitors h (hof.mem_hosts htask).1 (hof.mem_hosts htask).2

theorem query3Tasks_generated (h : t.Deployed) (htasks : t.generateTasksForQuery3 = .ok tasks) :
    Generated t tasks := by
  obtain ⟨hof, hnum⟩ := query3Tasks_spec h.toConnected htasks
  refine ⟨hof.sublist, hnum, fun task htask => ?_⟩
  exact (hof.good task htask).2.monitors h (hof.mem_hosts htask).1 (hof.mem_hosts htask).2

/-- Whichever query the file is of, a sender reads its own tasks from it, in their order, with their
monitors and the ranges of their hosts. -/
theorem tasks_read_back (h : t.Deployed) {u : Name} (hu : u ∈ t.hosts)
    (htasks : t.generateTasksForQuery1 = .ok tasks ∨ t.generateTasksForQuery3 = .ok tasks) :
    initTasksInfo (taskFile tasks) u = .ok ((tasks.filter (·.src = u)).map fun task =>
      ⟨task.monitors.map fun node => (numberOf node : ℤ),
        ithSenderStartIp (toUInt ((numberOf u : ℤ) - 1)),
        ithSenderStartIp (toUInt ((numberOf task.dst : ℤ) - 1))⟩) := by
  have hg : Generated t tasks := by
    rcases htasks with htasks | htasks
    · exact query1Tasks_generated h htasks
    · exact query3Tasks_generated h htasks
  have hfilter : tasks.filter (numberOf ·.src = numberOf u) = tasks.filter (·.src = u) := by
    refine List.filter_congr fun task htask => decide_eq_decide.2 ?_
    exact ⟨h.host_inj (hg.mem_hosts htask).1 hu, congrArg numberOf⟩
  rw [hg.initTasksInfo_eq h hu, hfilter]
  refine congrArg Except.ok (List.map_congr_left fun task htask => ?_)
  have hsrc : task.src = u := by simpa using (List.mem_filter.1 htask).2
  rw [← hsrc]
  rfl

theorem tasks_read_back_diamond : ∃ tasks, diamond.generateTasksForQuery3 = .ok tasks
    ∧ ∃ stored, initTasksInfo (taskFile tasks) (chars "h1") = .ok stored
      ∧ ⟨[4, 6], 0x0a000000, 0x0b000000⟩ ∈ stored := by
  obtain ⟨-, tasks, -, htasks, -, htask⟩ := diamond_tasks
  have hread := tasks_read_back diamond_deployed
    (by simp [hosts_diamond] : chars "h1" ∈ diamond.hosts) (.inr htasks)
  refine ⟨tasks, htasks, _, hread, List.mem_map.2 ⟨_, List.mem_filter.2 ⟨htask, ?_⟩, ?_⟩⟩
  · decide +kernel
  · rw [Task.mk.injEq]
    decide +kernel

end Tasks

end GenerateRulesIntoTables

end CMTestbed
