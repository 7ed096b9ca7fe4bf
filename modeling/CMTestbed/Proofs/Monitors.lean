import CMTestbed.Lib.UniquePath
import CMTestbed.Monitors
import CMTestbed.Proofs.Routing

/-!
# The monitors and the shortest paths

The walk towards a host follows the only next node as long as there is one.  It arrives exactly if
there is one shortest path, and has then gone over its inner nodes (`singlePath_iff`); where it
stops, the next nodes cut all shortest paths (`ecmpPaths_cut`).

The first query counts a monitor after it has tested its number, and so gives a node one task more
than it says; the third counts first (`monitor_load_iff`).
-/

namespace CMTestbed

open Lib

namespace GenerateRulesIntoTables

variable {t : GenerateRulesIntoTables}

/-! ## The walks -/

/-- The map has, for every other node, the neighbours one hop nearer. -/
def NextHops (h : t.Simple) (d : Name) (nextHopsMap : Dict Name (List Name)) : Prop :=
  ∀ n ∈ t.graph, n ≠ d → ∃ next, nextHopsMap.getItem n = .ok next ∧ next.Nodup ∧ next ≠ []
    ∧ ∀ m, m ∈ next ↔ h.links.Farther d m n

theorem exists_nextHops (h : t.Connected) {d : Name} (hd : d ∈ t.graph) :
    ∃ nextHopsMap, t.getReversePreNodes d = .ok nextHopsMap
      ∧ NextHops h.toSimple d nextHopsMap := by
  obtain ⟨path, hpath, hkeys, hnext⟩ := getReversePreNodes_spec h hd
  refine ⟨path, hpath, fun n hn hne => ?_⟩
  obtain ⟨next, hlookup⟩ := Option.isSome_iff_exists.1
    (AList.lookup_isSome.2 ((hkeys n).2 ⟨hn, hne⟩))
  obtain ⟨hnodup, hmem⟩ := hnext n next hlookup
  refine ⟨next, Dict.getItem_eq_ok.2 hlookup, hnodup, next_ne_nil h hd hn hne hmem, fun m => ?_⟩
  rw [hmem, Links.Farther, Links.hops_comm d, Links.hops_comm d]
  exact ⟨fun hm => ⟨h.symm hm.1, hm.2.symm⟩, fun hm => ⟨h.symm hm.1, hm.2.symm⟩⟩

section Walks

variable {h : t.Connected} {d n : Name} {nextHopsMap : Dict Name (List Name)} {fuel : ℕ}

/-- A node with one next node or with several. -/
theorem nextHops_cases (hmap : NextHops h.toSimple d nextHopsMap) (hn : n ∈ t.graph)
    (hne : n ≠ d) :
    (∃ m, nextHopsMap.getItem n = .ok [m] ∧ h.links.OnlyNearer d n m ∧ m ∈ t.graph)
      ∨ ∃ m m' next, nextHopsMap.getItem n = .ok (m :: m' :: next) ∧ m ≠ m'
        ∧ ∀ k, k ∈ m :: m' :: next ↔ h.links.Farther d k n := by
  obtain ⟨next, hget, hnodup, hnil, hmem⟩ := hmap n hn hne
  match next, hnil with
  | [m], _ =>
    refine .inl ⟨m, hget, fun k => ?_, ?_⟩
    · rw [← hmem, List.mem_singleton]
    · exact mem_graph_of_neighNames ((hmem m).1 List.mem_cons_self).1
  | m :: m' :: next, _ =>
    rw [List.nodup_cons] at hnodup
    exact .inr ⟨m, m', next, hget, fun heq => hnodup.1 (heq ▸ List.mem_cons_self), hmem⟩

/-- The walk has gone over the inner nodes of the only path, or there are several. -/
theorem walkSinglePath_spec (hd : d ∈ t.graph) (hmap : NextHops h.toSimple d nextHopsMap)
    (hn : n ∈ t.graph) (hne : n ≠ d) (hfuel : h.links.hops n d ≤ fuel) (walked : List Name) :
    (∃ inner, walkSinglePath nextHopsMap d fuel n walked = .ok (true, walked ++ inner)
        ∧ h.links.ShortestPath n d (n :: inner ++ [d]) ∧ ∃! p, h.links.ShortestPath n d p)
      ∨ walkSinglePath nextHopsMap d fuel n walked = .ok (false, [])
        ∧ ¬ ∃! p, h.links.ShortestPath n d p := by
  have hreach := h.connected d hd n hn
  induction fuel generalizing n walked with
  | zero =>
    have hzero := (Links.hops_eq_zero hreach.symm).1 (Nat.le_zero.1 hfuel)
    exact absurd hzero hne
  | succ fuel ih =>
    rw [walkSinglePath]
    obtain ⟨m, hget, hsingle, hm⟩ | ⟨m, m', next, hget, hmm', hmem⟩ :=
      nextHops_cases (h := h) hmap hn hne
    · have hfar := (hsingle m).2 rfl
      have huniq := Links.existsUnique_iff_of_single hsingle hne
      rw [hget]
      by_cases hmd : m = d
      · subst hmd
        refine .inl ⟨[], ?_, (Links.ShortestPath.root m).cons hfar,
          huniq.2 (Links.existsUnique_root m)⟩
        rw [List.append_nil]
        exact if_pos rfl
      · have hhops := hfar.2
        rw [Links.hops_comm d n, Links.hops_comm d m] at hhops
        have hwalk : (if m = d then (pure (true, walked) : Except PyError (Bool × List Name))
            else walkSinglePath nextHopsMap d fuel m (walked ++ [m]))
              = walkSinglePath nextHopsMap d fuel m (walked ++ [m]) := if_neg hmd
        obtain ⟨inner, hok, hpath, hex⟩ | ⟨hok, hno⟩ :=
          ih hm hmd (by omega) (walked ++ [m]) (h.connected d hd m hm)
        · refine .inl ⟨m :: inner, ?_, hpath.cons hfar, huniq.2 hex⟩
          rw [List.append_assoc] at hok
          exact hwalk.trans hok
        · exact .inr ⟨hwalk.trans hok, fun hex => hno (huniq.1 hex)⟩
    · have h₁ := (hmem m).1 List.mem_cons_self
      have h₂ := (hmem m').1 (List.mem_cons_of_mem _ List.mem_cons_self)
      rw [hget]
      exact .inr ⟨rfl, Links.not_existsUnique_of_ne h₁ h₂ hmm' hreach⟩

/-- The only path has no node with several next nodes; otherwise those of the first such node cut
the paths. -/
theorem walkEcmpPaths_spec (hd : d ∈ t.graph) (hmap : NextHops h.toSimple d nextHopsMap)
    (hn : n ∈ t.graph) (hne : n ≠ d) (hfuel : h.links.hops n d ≤ fuel) :
    walkEcmpPaths nextHopsMap d fuel [n] = .ok (false, []) ∧ (∃! p, h.links.ShortestPath n d p)
      ∨ ∃ M, walkEcmpPaths nextHopsMap d fuel [n] = .ok (true, M) ∧ h.links.Cuts n d M
        ∧ ¬ ∃! p, h.links.ShortestPath n d p := by
  have hreach := h.connected d hd n hn
  induction fuel generalizing n with
  | zero =>
    have hzero := (Links.hops_eq_zero hreach.symm).1 (Nat.le_zero.1 hfuel)
    exact absurd hzero hne
  | succ fuel ih =>
    rw [walkEcmpPaths]
    obtain ⟨m, hget, hsingle, hm⟩ | ⟨m, m', next, hget, hmm', hmem⟩ :=
      nextHops_cases (h := h) hmap hn hne
    · have hfar := (hsingle m).2 rfl
      have huniq := Links.existsUnique_iff_of_single hsingle hne
      rw [hget]
      by_cases hmd : m = d
      · subst hmd
        refine .inl ⟨?_, huniq.2 (Links.existsUnique_root m)⟩
        have hqueue : (if m ≠ m then [] ++ [m] else []) = [] := if_neg (not_not.2 rfl)
        calc walkEcmpPaths nextHopsMap m fuel (if m ≠ m then [] ++ [m] else [])
            = walkEcmpPaths nextHopsMap m fuel [] := by rw [hqueue]
          _ = .ok (false, []) := by rw [walkEcmpPaths]
      · have hhops := hfar.2
        rw [Links.hops_comm d n, Links.hops_comm d m] at hhops
        have hqueue : (if m ≠ d then [] ++ [m] else []) = [m] := if_pos hmd
        have hwalk : walkEcmpPaths nextHopsMap d fuel (if m ≠ d then [] ++ [m] else [])
            = walkEcmpPaths nextHopsMap d fuel [m] := by rw [hqueue]
        obtain ⟨hok, hex⟩ | ⟨M, hok, hcuts, hno⟩ := ih hm hmd (by omega) (h.connected d hd m hm)
        · exact .inl ⟨hwalk.trans hok, huniq.2 hex⟩
        · exact .inr ⟨M, hwalk.trans hok, hcuts.of_single hsingle hne,
            fun hex => hno (huniq.1 hex)⟩
    · have h₁ := (hmem m).1 List.mem_cons_self
      have h₂ := (hmem m').1 (List.mem_cons_of_mem _ List.mem_cons_self)
      rw [hget]
      exact .inr ⟨_, rfl, Links.cuts_nearer hmem hne hreach,
        Links.not_existsUnique_of_ne h₁ h₂ hmm' hreach⟩

end Walks

/-- A host is not farther away than there are turns. -/
theorem hops_le_turns (h : t.Connected) {src dst : Name} (hs : src ∈ t.graph)
    (hd : dst ∈ t.graph) : h.links.hops src dst ≤ t.turns := by
  obtain ⟨p, hp⟩ := Links.ShortestPath.exists_of_reachable (h.connected dst hd src hs)
  have hmem : ∀ v ∈ p, v ∈ t.graph := fun v hv =>
    h.mem_of_reachable hd (hp.reachable_of_mem hv)
  have hlen := hp.length
  have hturns := length_le_turns hp.nodup hmem
  omega

theorem getSinglePathBetweenNodes_spec (h : t.Connected) {src dst : Name} (hs : src ∈ t.hosts)
    (hd : dst ∈ t.hosts) (hne : src ≠ dst) :
    (∃ nodes, t.getSinglePathBetweenNodes src dst = .ok (true, nodes)
        ∧ h.links.ShortestPath src dst (src :: nodes ++ [dst])
        ∧ ∃! p, h.links.ShortestPath src dst p)
      ∨ t.getSinglePathBetweenNodes src dst = .ok (false, [])
        ∧ ¬ ∃! p, h.links.ShortestPath src dst p := by
  have hsg := h.hosts_mem src hs
  have hdg := h.hosts_mem dst hd
  obtain ⟨nextHopsMap, hmap, hnext⟩ := exists_nextHops h hdg
  have hrun : t.getSinglePathBetweenNodes src dst
      = walkSinglePath nextHopsMap dst t.turns src [] := by
    rw [getSinglePathBetweenNodes, hmap]
    rfl
  obtain ⟨inner, hok, hpath, hex⟩ | ⟨hok, hno⟩ :=
    walkSinglePath_spec (h := h) hdg hnext hsg hne (hops_le_turns h hsg hdg) []
  · exact .inl ⟨inner, hrun.trans hok, hpath, hex⟩
  · exact .inr ⟨hrun.trans hok, hno⟩

theorem getEcmpPathsBetweenNodes_spec (h : t.Connected) {src dst : Name} (hs : src ∈ t.hosts)
    (hd : dst ∈ t.hosts) (hne : src ≠ dst) :
    t.getEcmpPathsBetweenNodes src dst = .ok (false, [])
        ∧ (∃! p, h.links.ShortestPath src dst p)
      ∨ ∃ M, t.getEcmpPathsBetweenNodes src dst = .ok (true, M) ∧ h.links.Cuts src dst M
        ∧ ¬ ∃! p, h.links.ShortestPath src dst p := by
  have hsg := h.hosts_mem src hs
  have hdg := h.hosts_mem dst hd
  obtain ⟨nextHopsMap, hmap, hnext⟩ := exists_nextHops h hdg
  have hrun : t.getEcmpPathsBetweenNodes src dst
      = walkEcmpPaths nextHopsMap dst t.turns [src] := by
    rw [getEcmpPathsBetweenNodes, hmap]
    rfl
  rw [hrun]
  exact walkEcmpPaths_spec (h := h) hdg hnext hsg hne (hops_le_turns h hsg hdg)

/-- The single path goes over the inner nodes of the only shortest path, if there is only one. -/
theorem singlePath_iff (h : t.Connected) {src dst : Name} (hs : src ∈ t.hosts)
    (hd : dst ∈ t.hosts) (hne : src ≠ dst) :
    ∃ single nodes, t.getSinglePathBetweenNodes src dst = .ok (single, nodes)
      ∧ (single = true ↔ ∃! p, h.links.ShortestPath src dst p)
      ∧ (single = true → h.links.ShortestPath src dst (src :: nodes ++ [dst]))
      ∧ (single = false → nodes = []) := by
  obtain ⟨nodes, hok, hpath, hex⟩ | ⟨hok, hno⟩ := getSinglePathBetweenNodes_spec h hs hd hne
  · exact ⟨true, nodes, hok, iff_of_true rfl hex, fun _ => hpath, nofun⟩
  · exact ⟨false, [], hok, iff_of_false nofun hno, nofun, fun _ => rfl⟩

/-- Where there are several shortest paths, the monitors cut each of them once. -/
theorem ecmpPaths_cut (h : t.Connected) {src dst : Name} (hs : src ∈ t.hosts)
    (hd : dst ∈ t.hosts) (hne : src ≠ dst) :
    ∃ result, t.getEcmpPathsBetweenNodes src dst = .ok result
      ∧ (result = (false, []) ↔ ∃! p, h.links.ShortestPath src dst p)
      ∧ (result ≠ (false, []) → ∃ M, result = (true, M)
        ∧ (∀ p, h.links.ShortestPath src dst p → ∃! m, m ∈ M ∧ m ∈ p)
        ∧ ∀ m ∈ M, ∃ p, h.links.ShortestPath src dst p ∧ m ∈ p) := by
  obtain ⟨hok, hex⟩ | ⟨M, hok, hcuts, hno⟩ := getEcmpPathsBetweenNodes_spec h hs hd hne
  · exact ⟨_, hok, iff_of_true rfl hex, fun hne => absurd rfl hne⟩
  · exact ⟨_, hok, iff_of_false nofun hno,
      fun _ => ⟨M, rfl, hcuts.exactly_one, hcuts.on_path⟩⟩

/-- Five hosts around one switch. -/
def star : GenerateRulesIntoTables :=
  ofFile ["s1-eth1", "s1-eth2", "s1-eth3", "s1-eth4", "s1-eth5"]
    ["#hosts", "h1 h2 h3 h4 h5", "#switches", "s1", "#prefixes", "h1 10.0.0.0/8",
      "h2 11.0.0.0/8", "h3 12.0.0.0/8", "h4 13.0.0.0/8", "h5 14.0.0.0/8", "#connections", "s1 h1",
      "s1 h2", "s1 h3", "s1 h4", "s1 h5"]

theorem star_wellFormed : star.WellFormed := by
  have hchecks : star.checks (chars "s1") (["h1", "h2", "h3", "h4", "h5"].map chars) = true := by
    decide +kernel
  exact wellFormed_of_checks hchecks

theorem hosts_star : star.hosts = ["h1", "h2", "h3", "h4", "h5"].map chars := by
  decide +kernel

theorem singlePath_star : star.getSinglePathBetweenNodes (chars "h1") (chars "h2")
      = .ok (true, [chars "s1"])
    ∧ ∃! p, star_wellFormed.links.ShortestPath (chars "h1") (chars "h2") p := by
  obtain ⟨single, nodes, hok, hiff, -⟩ := singlePath_iff star_wellFormed.toConnected
    (by simp [hosts_star] : chars "h1" ∈ star.hosts)
    (by simp [hosts_star] : chars "h2" ∈ star.hosts) (by decide +kernel)
  have hrun : star.getSinglePathBetweenNodes (chars "h1") (chars "h2")
      = .ok (true, [chars "s1"]) := by
    decide +kernel
  rw [hrun] at hok
  cases hok
  exact ⟨hrun, hiff.1 rfl⟩

theorem ecmpPaths_square : square.getEcmpPathsBetweenNodes (chars "h1") (chars "h2")
      = .ok (true, ["s2", "s3"].map chars)
    ∧ ∀ p, square_wellFormed.links.ShortestPath (chars "h1") (chars "h2") p →
      ∃! m, m ∈ ["s2", "s3"].map chars ∧ m ∈ p := by
  obtain ⟨result, hok, -, hcut⟩ := ecmpPaths_cut square_wellFormed.toConnected
    (by simp [hosts_square] : chars "h1" ∈ square.hosts)
    (by simp [hosts_square] : chars "h2" ∈ square.hosts) (by decide +kernel)
  have hrun : square.getEcmpPathsBetweenNodes (chars "h1") (chars "h2")
      = .ok (true, ["s2", "s3"].map chars) := by
    decide +kernel
  rw [hrun] at hok
  cases hok
  obtain ⟨M, heq, hM, -⟩ := hcut nofun
  cases heq
  exact ⟨hrun, hM⟩

/-! ## The tasks of a node -/

/-- How often a node is counted. -/
def timesOf (times : Dict Name ℕ) (node : Name) : ℕ := (times.lookup node).getD 0

/-- How many tasks have the node as a monitor. -/
def load (tasks : List MonitorTask) (node : Name) : ℕ :=
  tasks.countP fun task => node ∈ task.monitors

/-- How many tasks have the number among the monitors in their line of the file.  A node is written
there without its first letter. -/
def timesWritten (tasks : List MonitorTask) (number : List UInt8) : ℕ :=
  tasks.countP fun task => number ∈ task.monitors.map (·.drop 1)

/-- No switch is a monitor of more tasks, as the file has it. -/
def WithinLimit (t : GenerateRulesIntoTables) (maxTimes : ℕ) (tasks : List MonitorTask) : Prop :=
  ∀ switch ∈ t.switches, timesWritten tasks (switch.drop 1) ≤ maxTimes

/-- The task ids are 1, 2, 3, ... -/
def Numbered (tasks : List MonitorTask) : Prop :=
  tasks.map (·.taskid) = List.range' 1 tasks.length

theorem load_append (tasks : List MonitorTask) (task : MonitorTask) (node : Name) :
    load (tasks ++ [task]) node = load tasks node + if node ∈ task.monitors then 1 else 0 := by
  rw [load, List.countP_append, List.countP_singleton]
  simp only [load, decide_eq_true_eq]

/-- A node's own tasks have its number. -/
theorem load_le_timesWritten (tasks : List MonitorTask) (node : Name) :
    load tasks node ≤ timesWritten tasks (node.drop 1) := by
  refine List.countP_mono_left fun task _ hmem => ?_
  rw [decide_eq_true_eq] at hmem ⊢
  exact List.mem_map_of_mem hmem

theorem Numbered.write {s : Generating} (h : Numbered s.tasks) (hnum : s.numTasks = s.tasks.length)
    (times : Dict Name ℕ) (src dst : Name) (monitors : List Name) :
    Numbered (s.write times src dst monitors).tasks
      ∧ (s.write times src dst monitors).numTasks
        = (s.write times src dst monitors).tasks.length := by
  have hids : s.tasks.map (·.taskid) = List.range' 1 s.tasks.length := h
  constructor
  · rw [Numbered, Generating.write, List.map_append, hids, hnum, List.length_append,
      List.length_singleton, List.range'_concat, Nat.one_mul, Nat.add_comm 1]
    rfl
  · rw [Generating.write, hnum, List.length_append, List.length_singleton]

/-- The lines of the file begin with 1, 2, 3 and so on. -/
theorem Numbered.line {tasks : List MonitorTask} (h : Numbered tasks) {i : ℕ}
    (hi : i < tasks.length) : chars (toString (i + 1)) ++ [32] <+: tasks[i].line := by
  have hid : tasks[i].taskid = i + 1 := by
    have hget := congrArg (fun ids : List ℕ => ids[i]?) h
    simp only [List.getElem?_map, List.getElem?_eq_getElem hi, List.getElem?_range' hi,
      Option.map_some, Option.some.injEq] at hget
    omega
  rw [MonitorTask.line, hid]
  simp only [List.append_assoc]
  exact ⟨_, List.append_assoc _ _ _⟩

section Counting

variable {times : Dict Name ℕ} {node : Name}

theorem timesOf_insert (n : ℕ) (m : Name) :
    timesOf (times.insert node n) m = if m = node then n else timesOf times m := by
  rw [timesOf, Dict.lookup_insert_if]
  split <;> rfl

theorem timesOf_enter (m : Name) : timesOf (enter times node) m = timesOf times m := by
  rw [enter]
  split
  · rfl
  · next hnot =>
    rw [timesOf_insert]
    split
    · next heq =>
      rw [heq, timesOf, AList.lookup_eq_none.2 hnot]
      rfl
    · rfl

theorem mem_enter {m : Name} : m ∈ enter times node ↔ m = node ∨ m ∈ times := by
  rw [enter]
  split
  · next hmem => exact ⟨.inr, fun hm => hm.elim (fun heq => heq ▸ hmem) id⟩
  · exact AList.mem_insert _

theorem getItem_of_mem (h : node ∈ times) : times.getItem node = .ok (timesOf times node) := by
  obtain ⟨n, hn⟩ := Option.isSome_iff_exists.1 (AList.lookup_isSome.2 h)
  rw [Dict.getItem_eq_ok, timesOf, hn]
  rfl

theorem countNode_spec (h : node ∈ times) : ∃ times', countNode times node = .ok times'
    ∧ (∀ m, m ∈ times → m ∈ times')
    ∧ ∀ m, timesOf times' m = timesOf times m + if m = node then 1 else 0 := by
  refine ⟨times.insert node (timesOf times node + 1), ?_, ?_, fun m => ?_⟩
  · rw [countNode, getItem_of_mem h]
    rfl
  · exact fun m hm => (AList.mem_insert _).2 (.inr hm)
  · rw [timesOf_insert]
    split
    · next heq => rw [heq]
    · rfl

/-- The first query counts each monitor of the task. -/
theorem foldlM_countNode_spec : ∀ {nodes : List Name} {times : Dict Name ℕ},
    (∀ node ∈ nodes, node ∈ times) → ∃ times', nodes.foldlM countNode times = .ok times'
      ∧ ∀ m, timesOf times' m = timesOf times m + nodes.count m := by
  intro nodes
  induction nodes with
  | nil => exact fun _ => ⟨_, rfl, fun _ => rfl⟩
  | cons node nodes ih =>
    intro times hmem
    rw [List.forall_mem_cons] at hmem
    obtain ⟨times₁, hcount, hkeep, htimes₁⟩ := countNode_spec hmem.1
    obtain ⟨times', hfold, htimes'⟩ := ih fun m hm => hkeep m (hmem.2 m hm)
    refine ⟨times', ?_, fun m => ?_⟩
    · rw [List.foldlM_cons, hcount]
      exact hfold
    · rw [htimes', htimes₁, List.count_cons]
      simp only [beq_iff_eq, eq_comm (a := m)]
      omega

/-- Its test leaves the counts as they are, and every monitor of a task that passes is entered. -/
theorem anyExceeds_spec : ∀ (nodes : List Name) (times : Dict Name ℕ),
    ∃ times' exceeds, anyExceeds nodes times = .ok (times', exceeds)
      ∧ (∀ m, timesOf times' m = timesOf times m) ∧ (∀ m, m ∈ times → m ∈ times')
      ∧ (exceeds = true → ∃ node ∈ nodes, maxTimesQuery1 < timesOf times node)
      ∧ (exceeds = false →
        ∀ node ∈ nodes, node ∈ times' ∧ timesOf times node ≤ maxTimesQuery1) := by
  intro nodes
  induction nodes with
  | nil => exact fun times => ⟨times, false, rfl, fun _ => rfl, fun _ h => h, nofun, fun _ => nofun⟩
  | cons node nodes ih =>
    intro times
    have hnode : node ∈ enter times node := mem_enter.2 (.inl rfl)
    have hget : (enter times node).getItem node = .ok (timesOf times node) := by
      rw [getItem_of_mem hnode, timesOf_enter]
    rw [anyExceeds, hget]
    by_cases hexc : timesOf times node > maxTimesQuery1
    · refine ⟨enter times node, true, if_pos hexc, timesOf_enter,
        fun m hm => mem_enter.2 (.inr hm), fun _ => ⟨node, List.mem_cons_self, hexc⟩, nofun⟩
    · obtain ⟨times', exceeds, hok, htimes, hkeep, hover, hfits⟩ := ih (enter times node)
      refine ⟨times', exceeds, (if_neg hexc).trans hok, fun m => ?_, fun m hm => ?_, fun hb => ?_,
        fun hb => ?_⟩
      · rw [htimes, timesOf_enter]
      · exact hkeep m (mem_enter.2 (.inr hm))
      · obtain ⟨m, hm, hlt⟩ := hover hb
        rw [timesOf_enter] at hlt
        exact ⟨m, List.mem_cons_of_mem _ hm, hlt⟩
      · refine List.forall_mem_cons.2 ⟨⟨hkeep node hnode, Nat.not_lt.1 hexc⟩, fun m hm => ?_⟩
        have hm := hfits hb m hm
        rwa [timesOf_enter] at hm

/-- The third query counts the monitors also where the pair gets no task. -/
theorem foldlM_countAndTest_spec : ∀ (nodes : List Name) (r : Dict Name ℕ × Bool),
    ∃ times' exceeds, nodes.foldlM countAndTest r = .ok (times', exceeds)
      ∧ (∀ m, timesOf times' m = timesOf r.1 m + nodes.count m)
      ∧ (exceeds = false → r.2 = false ∧ ∀ node ∈ nodes, timesOf times' node ≤ maxTimesQuery3) := by
  intro nodes
  induction nodes with
  | nil => exact fun r => ⟨r.1, r.2, rfl, fun _ => rfl, fun hb => ⟨hb, nofun⟩⟩
  | cons node nodes ih =>
    intro r
    have hnode : node ∈ enter r.1 node := mem_enter.2 (.inl rfl)
    obtain ⟨times₁, hcount, hkeep, htimes₁⟩ := countNode_spec hnode
    obtain ⟨times', exceeds, hok, htimes, hfits⟩ :=
      ih (times₁, r.2 || decide (timesOf times₁ node > maxTimesQuery3))
    refine ⟨times', exceeds, ?_, fun m => ?_, fun hb => ?_⟩
    · have hstep : countAndTest r node
          = .ok (times₁, r.2 || decide (timesOf times₁ node > maxTimesQuery3)) := by
        rw [countAndTest, hcount]
        show (times₁.getItem node >>= _) = _
        rw [getItem_of_mem (hkeep node hnode)]
        rfl
      rw [List.foldlM_cons, hstep]
      exact hok
    · rw [htimes, htimes₁, timesOf_enter, List.count_cons]
      simp only [beq_iff_eq, eq_comm (a := m)]
      omega
    · obtain ⟨hor, hrest⟩ := hfits hb
      rw [Bool.or_eq_false_iff, decide_eq_false_iff_not, Nat.not_lt] at hor
      refine ⟨hor.1, List.forall_mem_cons.2 ⟨?_, hrest⟩⟩
      by_cases hmem : node ∈ nodes
      · exact hrest node hmem
      · rw [htimes, List.count_eq_zero_of_not_mem hmem]
        exact hor.2

end Counting

/-! ## The first query -/

/-- There is only one shortest path between the pair, and the node is between its ends. -/
def OnSinglePath (h : t.Connected) (node : Name) (pair : Name × Name) : Prop :=
  pair.1 ≠ pair.2 ∧ (∃! p, h.links.ShortestPath pair.1 pair.2 p)
    ∧ ∃ inner, h.links.ShortestPath pair.1 pair.2 (pair.1 :: inner ++ [pair.2]) ∧ node ∈ inner

/-- The pair of hosts that a task is for. -/
def MonitorTask.pair (task : MonitorTask) : Name × Name := (task.src, task.dst)

/-- There is only one shortest path between the pair. -/
def HasSinglePath (h : t.Connected) (pair : Name × Name) : Prop :=
  pair.1 ≠ pair.2 ∧ ∃! p, h.links.ShortestPath pair.1 pair.2 p

open Classical in
/-- How many of the pairs have the node between them. -/
noncomputable def pathsOver (h : t.Connected) (pairs : List (Name × Name)) (node : Name) : ℕ :=
  pairs.countP fun pair => OnSinglePath h node pair

open Classical in
/-- How many of the pairs have a node with this number between them. -/
noncomputable def pathsOverNumber (h : t.Connected) (pairs : List (Name × Name))
    (number : List UInt8) : ℕ :=
  pairs.countP fun pair => ∃ node, OnSinglePath h node pair ∧ node.drop 1 = number

open Classical in
/-- The pairs with a single shortest path, but for those that have a node between them which is no
switch and is between more than 12 of the pairs before. -/
noncomputable def pairsKept (h : t.Connected) (pairs : List (Name × Name)) : List (Name × Name) :=
  pairs.foldl (fun kept pair =>
    if HasSinglePath h pair ∧ ∀ node, OnSinglePath h node pair → node ∉ t.switches →
      pathsOver h kept node ≤ maxTimesQuery1 then kept ++ [pair] else kept) []

section FirstQuery

variable {h : t.Connected} {done : List (Name × Name)} {pair : Name × Name}

theorem pathsOver_append_le (pairs pairs' : List (Name × Name)) (node : Name) :
    pathsOver h pairs node ≤ pathsOver h (pairs ++ pairs') node := by
  rw [pathsOver, pathsOver, List.countP_append]
  exact Nat.le_add_right _ _

open Classical in
theorem pathsOver_le_number (pairs : List (Name × Name)) (node : Name) :
    pathsOver h pairs node ≤ pathsOverNumber h pairs (node.drop 1) := by
  refine List.countP_mono_left fun pair _ hon => ?_
  simp only [decide_eq_true_eq] at hon ⊢
  exact ⟨node, hon, rfl⟩

open Classical in
theorem pairsKept_append : pairsKept h (done ++ [pair])
    = if HasSinglePath h pair ∧ ∀ node, OnSinglePath h node pair → node ∉ t.switches →
        pathsOver h (pairsKept h done) node ≤ maxTimesQuery1 then pairsKept h done ++ [pair]
      else pairsKept h done := by
  rw [pairsKept, List.foldl_append]
  rfl

theorem pathsOver_pairsKept_le (node : Name) : pathsOver h (pairsKept h done) node
    ≤ pathsOver h (pairsKept h (done ++ [pair])) node := by
  rw [pairsKept_append]
  split_ifs
  · exact pathsOver_append_le _ _ node
  · exact le_rfl

open Classical in
/-- Where only switches are between hosts, these are all pairs with a single shortest path. -/
theorem pairsKept_eq_filter {pairs : List (Name × Name)}
    (hswitch : ∀ pair ∈ pairs, ∀ node, OnSinglePath h node pair → node ∈ t.switches) :
    pairsKept h pairs = pairs.filter fun pair => HasSinglePath h pair := by
  induction pairs using List.reverseRecOn with
  | nil => rfl
  | append_singleton done pair ih =>
    rw [List.forall_mem_append, List.forall_mem_singleton] at hswitch
    rw [pairsKept_append, ih hswitch.1, List.filter_append]
    by_cases hpath : HasSinglePath h pair
    · rw [if_pos ⟨hpath, fun node hon hnot => absurd (hswitch.2 node hon) hnot⟩]
      simp [hpath]
    · rw [if_neg fun hkeep => hpath hkeep.1]
      simp [hpath]

/-- The inner nodes of the only path are those it is over. -/
theorem onSinglePath_iff_mem {src dst node : Name} {nodes : List Name} (hne : src ≠ dst)
    (hex : ∃! p, h.links.ShortestPath src dst p)
    (hpath : h.links.ShortestPath src dst (src :: nodes ++ [dst])) :
    OnSinglePath h node (src, dst) ↔ node ∈ nodes := by
  constructor
  · rintro ⟨-, -, inner, hinner, hmem⟩
    have heq : src :: inner ++ [dst] = src :: nodes ++ [dst] := hex.unique hinner hpath
    rw [List.append_cancel_right heq |> List.tail_eq_of_cons_eq] at hmem
    exact hmem
  · exact fun hmem => ⟨hne, hex, nodes, hpath, hmem⟩

/-- The counts are those of the tasks, and a task's monitors are the nodes on its only path.  The
tasks are those of the kept pairs, unless a switch has too many. -/
structure Query1Inv (h : t.Connected) (done : List (Name × Name)) (s : Generating) : Prop where
  times : ∀ node, timesOf s.nodeAppearTimes node = load s.tasks node
  num : s.numTasks = s.tasks.length
  numbered : Numbered s.tasks
  monitors : ∀ task ∈ s.tasks, ∀ node, OnSinglePath h node task.pair ↔ node ∈ task.monitors
  pairs : s.tasks.map (·.pair) = pairsKept h done ∨ ∃ switch ∈ t.switches,
    maxTimesQuery1 < load s.tasks switch
      ∧ maxTimesQuery1 < pathsOver h (pairsKept h done) switch

theorem query1Inv_init : Query1Inv h [] Generating.init :=
  ⟨fun _ => rfl, rfl, rfl, fun _ hmem => absurd hmem List.not_mem_nil, .inl rfl⟩

namespace Query1Inv

variable {s : Generating}

/-- The tasks of a node are those of the pairs that have it between them. -/
theorem load_eq (hinv : Query1Inv h done s) (node : Name) :
    load s.tasks node = pathsOver h (s.tasks.map (·.pair)) node := by
  rw [load, pathsOver, List.countP_map]
  refine List.countP_congr fun task htask => ?_
  simp only [decide_eq_true_eq, Function.comp_apply]
  exact (hinv.monitors task htask node).symm

theorem timesWritten_eq (hinv : Query1Inv h done s) (number : List UInt8) :
    timesWritten s.tasks number = pathsOverNumber h (s.tasks.map (·.pair)) number := by
  rw [timesWritten, pathsOverNumber, List.countP_map]
  refine List.countP_congr fun task htask => ?_
  simp only [decide_eq_true_eq, Function.comp_apply, List.mem_map,
    ← hinv.monitors task htask]

/-- A pair without a single path gets no task. -/
theorem skip (hinv : Query1Inv h done s) (hno : ¬ HasSinglePath h pair) :
    Query1Inv h (done ++ [pair]) s := by
  have hkept : pairsKept h (done ++ [pair]) = pairsKept h done := by
    rw [pairsKept_append, if_neg fun hpath => hno hpath.1]
  refine ⟨hinv.times, hinv.num, hinv.numbered, hinv.monitors, ?_⟩
  rw [hkept]
  exact hinv.pairs

/-- A pair is left out because of a node that has too many tasks. -/
theorem reject (hinv : Query1Inv h done s) {times : Dict Name ℕ}
    (htimes : ∀ m, timesOf times m = timesOf s.nodeAppearTimes m)
    (hover : ∃ node, OnSinglePath h node pair ∧ maxTimesQuery1 < timesOf s.nodeAppearTimes node) :
    Query1Inv h (done ++ [pair]) { s with nodeAppearTimes := times } := by
  refine ⟨fun node => (htimes node).trans (hinv.times node), hinv.num, hinv.numbered,
    hinv.monitors, ?_⟩
  obtain hpairs | ⟨switch, hswitch, hload, hpaths⟩ := hinv.pairs
  · obtain ⟨node, hon, hlt⟩ := hover
    have hload : maxTimesQuery1 < load s.tasks node := by rwa [← hinv.times]
    have hpaths : maxTimesQuery1 < pathsOver h (pairsKept h done) node := by
      rwa [← hpairs, ← hinv.load_eq]
    by_cases hswitch : node ∈ t.switches
    · exact .inr ⟨node, hswitch, hload, hpaths.trans_le (pathsOver_pairsKept_le node)⟩
    · left
      rw [pairsKept_append, if_neg fun hkeep =>
        absurd (hkeep.2 node hon hswitch) (Nat.not_le.2 hpaths)]
      exact hpairs
  · exact .inr ⟨switch, hswitch, hload, hpaths.trans_le (pathsOver_pairsKept_le switch)⟩

/-- A pair gets its task when none of the monitors has too many before it. -/
theorem write (hinv : Query1Inv h done s) {src dst : Name} {nodes : List Name}
    {times : Dict Name ℕ} (hpath : HasSinglePath h (src, dst)) (hnodup : nodes.Nodup)
    (hmem : ∀ node, OnSinglePath h node (src, dst) ↔ node ∈ nodes)
    (htimes : ∀ m, timesOf times m = timesOf s.nodeAppearTimes m + nodes.count m)
    (hfits : ∀ node ∈ nodes, timesOf s.nodeAppearTimes node ≤ maxTimesQuery1) :
    Query1Inv h (done ++ [(src, dst)]) (s.write times src dst nodes) := by
  have hload : ∀ node, load (s.write times src dst nodes).tasks node
      = load s.tasks node + if node ∈ nodes then 1 else 0 := load_append _ _
  obtain ⟨hids, hnum⟩ := hinv.numbered.write hinv.num times src dst nodes
  refine ⟨fun node => ?_, hnum, hids, ?_, ?_⟩
  · rw [hload, ← hinv.times, ← List.Nodup.count hnodup]
    exact htimes node
  · exact List.forall_mem_append.2 ⟨hinv.monitors, List.forall_mem_singleton.2 hmem⟩
  obtain hpairs | ⟨switch, hswitch, hlt, hpaths⟩ := hinv.pairs
  · left
    rw [pairsKept_append, if_pos, ← hpairs, Generating.write, List.map_append]
    · rfl
    · refine ⟨hpath, fun node hon _ => ?_⟩
      have hle := hfits node ((hmem node).1 hon)
      rwa [hinv.times, hinv.load_eq, hpairs] at hle
  · refine .inr ⟨switch, hswitch, ?_, hpaths.trans_le (pathsOver_pairsKept_le switch)⟩
    rw [hload]
    exact Nat.lt_add_right _ hlt

theorem step (hinv : Query1Inv h done s) (hs : pair.1 ∈ t.hosts) (hd : pair.2 ∈ t.hosts) :
    ∃ s', t.query1Pair s pair = .ok s' ∧ Query1Inv h (done ++ [pair]) s' := by
  obtain ⟨src, dst⟩ := pair
  by_cases hne : src = dst
  · exact ⟨s, if_pos hne, hinv.skip fun hpath => hpath.1 hne⟩
  obtain ⟨nodes, hok, hpath, hex⟩ | ⟨hok, hno⟩ := getSinglePathBetweenNodes_spec h hs hd hne
  · obtain ⟨times, exceeds, hany, htimes, -, hover, hfits⟩ :=
      anyExceeds_spec nodes s.nodeAppearTimes
    have hrun : t.query1Pair s (src, dst)
        = if exceeds then pure { s with nodeAppearTimes := times }
          else nodes.foldlM countNode times >>= fun times =>
            pure (s.write times src dst nodes) := by
      rw [query1Pair]
      simp only [if_neg hne, hok]
      show (anyExceeds nodes s.nodeAppearTimes >>= _) = _
      rw [hany]
      rfl
    have hmem : ∀ node, OnSinglePath h node (src, dst) ↔ node ∈ nodes := fun node =>
      onSinglePath_iff_mem hne hex hpath
    cases exceeds with
    | true =>
      obtain ⟨node, hnode, hlt⟩ := hover rfl
      exact ⟨_, hrun, hinv.reject htimes ⟨node, (hmem node).2 hnode, hlt⟩⟩
    | false =>
      obtain ⟨times', hfold, htimes'⟩ :=
        foldlM_countNode_spec fun node hnode => (hfits rfl node hnode).1
      rw [hfold] at hrun
      have hnodup : nodes.Nodup :=
        (List.nodup_append.1 (List.nodup_cons.1 hpath.nodup).2).1
      refine ⟨_, hrun, hinv.write ⟨hne, hex⟩ hnodup hmem (fun m => ?_)
        fun node hnode => (hfits rfl node hnode).2⟩
      rw [htimes', htimes]
  · have hrun : t.query1Pair s (src, dst) = .ok s := by
      rw [query1Pair]
      simp only [if_neg hne, hok]
      rfl
    exact ⟨s, hrun, hinv.skip fun hpath => hno hpath.2⟩

end Query1Inv

theorem generateTasksForQuery1_inv (h : t.Connected) :
    ∃ s, t.generateTasksForQuery1 = .ok s.tasks ∧ Query1Inv h (t.hosts ×ˢ t.hosts) s := by
  obtain ⟨s, hs, hinv⟩ := foldlM_spec (Query1Inv h) (f := t.query1Pair) (l := t.hosts ×ˢ t.hosts)
    (fun pre pair s hpre hinv => by
      have hmem : pair ∈ t.hosts ×ˢ t.hosts := hpre.subset (by simp)
      rw [List.mem_product] at hmem
      exact hinv.step hmem.1 hmem.2) query1Inv_init
  refine ⟨s, ?_, hinv⟩
  rw [generateTasksForQuery1, hs]
  rfl

end FirstQuery

/-! ## The third query -/

/-- A node is counted at least as often as it is a monitor, and no task is written past the
limit. -/
structure Query3Inv (s : Generating) : Prop where
  times : ∀ node, load s.tasks node ≤ timesOf s.nodeAppearTimes node
  num : s.numTasks = s.tasks.length
  numbered : Numbered s.tasks
  at_most : ∀ node, load s.tasks node ≤ maxTimesQuery3
  monitors : ∀ task ∈ s.tasks, ∀ node ∈ task.monitors, node ∈ ecmpNodeSet

theorem query3Inv_init : Query3Inv Generating.init :=
  ⟨fun _ => Nat.zero_le _, rfl, rfl, fun _ => Nat.zero_le _,
    fun _ hmem => absurd hmem List.not_mem_nil⟩

namespace Query3Inv

variable {s : Generating} {times : Dict Name ℕ} {nodes : List Name}

theorem reject (hinv : Query3Inv s)
    (htimes : ∀ m, timesOf times m = timesOf s.nodeAppearTimes m + nodes.count m) :
    Query3Inv { s with nodeAppearTimes := times } := by
  refine ⟨fun node => (hinv.times node).trans ?_, hinv.num, hinv.numbered, hinv.at_most,
    hinv.monitors⟩
  exact (Nat.le_add_right _ _).trans (htimes node).ge

theorem write (hinv : Query3Inv s) (src dst : Name)
    (htimes : ∀ m, timesOf times m = timesOf s.nodeAppearTimes m + nodes.count m)
    (hfits : ∀ node ∈ nodes, timesOf times node ≤ maxTimesQuery3)
    (hset : ∀ node ∈ nodes, node ∈ ecmpNodeSet) : Query3Inv (s.write times src dst nodes) := by
  have hload : ∀ node, load (s.write times src dst nodes).tasks node
      = load s.tasks node + if node ∈ nodes then 1 else 0 := load_append _ _
  have hcount : ∀ node, load (s.write times src dst nodes).tasks node ≤ timesOf times node := by
    intro node
    rw [hload, htimes]
    refine Nat.add_le_add (hinv.times node) ?_
    split
    · next hnode => exact List.count_pos_iff.2 hnode
    · exact Nat.zero_le _
  obtain ⟨hids, hnum⟩ := hinv.numbered.write hinv.num times src dst nodes
  refine ⟨hcount, hnum, hids, fun node => ?_,
    List.forall_mem_append.2 ⟨hinv.monitors, List.forall_mem_singleton.2 hset⟩⟩
  by_cases hnode : node ∈ nodes
  · exact (hcount node).trans (hfits node hnode)
  · rw [hload, if_neg hnode]
    exact hinv.at_most node

theorem step (hinv : Query3Inv s) (h : t.Connected) {pair : Name × Name} (hs : pair.1 ∈ t.hosts)
    (hd : pair.2 ∈ t.hosts) : ∃ s', t.query3Pair s pair = .ok s' ∧ Query3Inv s' := by
  obtain ⟨src, dst⟩ := pair
  by_cases hne : src = dst
  · exact ⟨s, if_pos hne, hinv⟩
  obtain ⟨⟨multi, nodes⟩, hok⟩ : ∃ result, t.getEcmpPathsBetweenNodes src dst = .ok result := by
    rcases getEcmpPathsBetweenNodes_spec h hs hd hne with ⟨hok, -⟩ | ⟨M, hok, -⟩
    · exact ⟨_, hok⟩
    · exact ⟨_, hok⟩
  rw [query3Pair]
  simp only [if_neg hne, hok]
  show ∃ s', (if nodes.length > 2 then _ else _) = _ ∧ _
  split
  · exact ⟨s, rfl, hinv⟩
  split
  · exact ⟨s, rfl, hinv⟩
  split
  · exact ⟨s, rfl, hinv⟩
  rename_i hset
  obtain ⟨times, exceeds, hfold, htimes, hfits⟩ :=
    foldlM_countAndTest_spec nodes (s.nodeAppearTimes, false)
  rw [hfold]
  cases exceeds with
  | true => exact ⟨_, rfl, hinv.reject htimes⟩
  | false => exact ⟨_, rfl, hinv.write src dst htimes (hfits rfl).2 (by simpa using hset)⟩

/-- The nodes in question have different numbers. -/
theorem timesWritten_le (hinv : Query3Inv s) (number : List UInt8) :
    timesWritten s.tasks number ≤ maxTimesQuery3 := by
  have hinj : ∀ m ∈ ecmpNodeSet, ∀ n ∈ ecmpNodeSet, m.drop 1 = n.drop 1 → m = n := by
    decide +kernel
  by_cases hnode : ∃ node ∈ ecmpNodeSet, node.drop 1 = number
  · obtain ⟨node, hmem, rfl⟩ := hnode
    refine le_trans (List.countP_mono_left fun task htask hwritten => ?_) (hinv.at_most node)
    rw [decide_eq_true_eq] at hwritten ⊢
    obtain ⟨m, hm, heq⟩ := List.mem_map.1 hwritten
    exact hinj m (hinv.monitors task htask m hm) node hmem heq ▸ hm
  · have hzero : timesWritten s.tasks number = 0 := by
      refine List.countP_eq_zero.2 fun task htask hwritten => hnode ?_
      rw [decide_eq_true_eq] at hwritten
      obtain ⟨m, hm, heq⟩ := List.mem_map.1 hwritten
      exact ⟨m, hinv.monitors task htask m hm, heq⟩
    rw [hzero]
    exact Nat.zero_le _

end Query3Inv

theorem generateTasksForQuery3_inv (h : t.Connected) :
    ∃ s, t.generateTasksForQuery3 = .ok s.tasks ∧ Query3Inv s := by
  obtain ⟨s, hs, hinv⟩ := foldlM_spec (fun _ => Query3Inv) (f := t.query3Pair)
    (l := t.hosts ×ˢ t.hosts)
    (fun pre pair s hpre hinv => by
      have hmem : pair ∈ t.hosts ×ˢ t.hosts := hpre.subset (by simp)
      rw [List.mem_product] at hmem
      exact hinv.step h hmem.1 hmem.2) query3Inv_init
  refine ⟨s, ?_, hinv⟩
  rw [generateTasksForQuery3, hs]
  rfl

/-! ## The limits -/

/-- The limits hold in both files, and the ids are in order, exactly if no switch's number stands
between more than 12 of the kept pairs. -/
theorem monitor_load_iff (h : t.Connected) : ∃ tasks₁ tasks₃,
    t.generateTasksForQuery1 = .ok tasks₁ ∧ t.generateTasksForQuery3 = .ok tasks₃
      ∧ ((t.WithinLimit maxTimesQuery1 tasks₁ ∧ Numbered tasks₁
            ∧ t.WithinLimit maxTimesQuery3 tasks₃ ∧ Numbered tasks₃)
          ↔ ∀ switch ∈ t.switches,
            pathsOverNumber h (pairsKept h (t.hosts ×ˢ t.hosts)) (switch.drop 1)
              ≤ maxTimesQuery1) := by
  obtain ⟨s₁, hok₁, hinv₁⟩ := generateTasksForQuery1_inv h
  obtain ⟨s₃, hok₃, hinv₃⟩ := generateTasksForQuery3_inv h
  refine ⟨s₁.tasks, s₃.tasks, hok₁, hok₃, ?_⟩
  constructor
  · rintro ⟨hlimit, -⟩ switch hswitch
    obtain hpairs | ⟨crowded, hcrowded, hlt, -⟩ := hinv₁.pairs
    · rw [← hpairs, ← hinv₁.timesWritten_eq]
      exact hlimit switch hswitch
    · exact absurd ((load_le_timesWritten _ crowded).trans (hlimit crowded hcrowded))
        (Nat.not_le.2 hlt)
  · refine fun hpaths => ⟨fun switch hswitch => ?_, hinv₁.numbered,
      fun switch _ => hinv₃.timesWritten_le _, hinv₃.numbered⟩
    obtain hpairs | ⟨crowded, hcrowded, -, hlt⟩ := hinv₁.pairs
    · rw [hinv₁.timesWritten_eq, hpairs]
      exact hpaths switch hswitch
    · exact absurd ((pathsOver_le_number _ crowded).trans (hpaths crowded hcrowded))
        (Nat.not_le.2 hlt)

theorem length_pairsKept_le (h : t.Connected) (pairs : List (Name × Name)) :
    (pairsKept h pairs).length ≤ pairs.length := by
  induction pairs using List.reverseRecOn with
  | nil => exact le_rfl
  | append_singleton done pair ih =>
    rw [pairsKept_append, List.length_append]
    split_ifs
    · rw [List.length_append]
      exact Nat.add_le_add_right ih _
    · exact ih.trans (Nat.le_add_right _ _)

theorem monitor_load_square : ∃ tasks₁ tasks₃,
    square.generateTasksForQuery1 = .ok tasks₁ ∧ square.generateTasksForQuery3 = .ok tasks₃
      ∧ square.WithinLimit maxTimesQuery1 tasks₁ ∧ square.WithinLimit maxTimesQuery3 tasks₃ := by
  obtain ⟨tasks₁, tasks₃, hok₁, hok₃, hiff⟩ := monitor_load_iff square_wellFormed.toConnected
  have hpairs : (square.hosts ×ˢ square.hosts).length ≤ maxTimesQuery1 := by
    rw [List.length_product, hosts_square]
    decide
  obtain ⟨hlimit₁, -, hlimit₃, -⟩ := hiff.2 fun switch _ =>
    List.countP_le_length.trans ((length_pairsKept_le _ _).trans hpairs)
  exact ⟨tasks₁, tasks₃, hok₁, hok₃, hlimit₁, hlimit₃⟩

/-- The switch of the star gets a thirteenth task. -/
theorem monitor_load_star : star.Connected ∧ ∃ tasks, star.generateTasksForQuery1 = .ok tasks
    ∧ ¬ star.WithinLimit maxTimesQuery1 tasks := by
  obtain ⟨s, hok, -⟩ := generateTasksForQuery1_inv star_wellFormed.toConnected
  have hwritten : (star.generateTasksForQuery1.toOption.getD []).countP
      (fun task => chars "1" ∈ task.monitors.map (·.drop 1)) = 13 := by
    decide +kernel
  rw [hok] at hwritten
  refine ⟨star_wellFormed.toConnected, s.tasks, hok, fun hlimit => ?_⟩
  have hswitch : chars "s1" ∈ star.switches := by decide +kernel
  have hle := hlimit _ hswitch
  rw [show (chars "s1").drop 1 = chars "1" by decide +kernel] at hle
  exact absurd (hwritten.symm.trans_le hle) (by decide)

end GenerateRulesIntoTables

end CMTestbed
