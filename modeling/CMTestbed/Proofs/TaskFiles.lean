import CMTestbed.TaskFiles
import CMTestbed.Proofs.Splitting

/-!
# What the two readers of the task file have in common

Both give a line's numbers to the fields of a task in the same way.  They differ in how they split
a line, and in what they do with two lines of one id.
-/

namespace CMTestbed

theorem TaskInfo.ext {a b : TaskInfo} (hid : a.id = b.id) (hsender : a.sender = b.sender)
    (hreceiver : a.receiver = b.receiver) (hmonitors : a.monitors = b.monitors) : a = b := by
  cases a
  cases b
  simp_all

/-- The task that the numbers of a line make. -/
def infoOf (numbers : List ℤ) : TaskInfo :=
  ⟨numbers.getD 0 0, numbers.getD 1 0, numbers.getD 2 0, {s | s ∈ numbers.drop 3}⟩

theorem infoOf_eq_iff {ns ms : List ℤ} (hns : 3 ≤ ns.length) (hms : 3 ≤ ms.length) :
    infoOf ns = infoOf ms ↔ ns.take 3 = ms.take 3 ∧ ∀ s, s ∈ ns.drop 3 ↔ s ∈ ms.drop 3 := by
  obtain _ | ⟨a, _ | ⟨b, _ | ⟨c, ns⟩⟩⟩ := ns <;> simp at hns
  obtain _ | ⟨a', _ | ⟨b', _ | ⟨c', ms⟩⟩⟩ := ms <;> simp at hms
  simp [infoOf, Set.ext_iff, and_assoc]

/-! ## The sender's reader -/

theorem info_readOneTask {line : List UInt8} {t : TaskS}
    (h : readOneTaskFromOneLine (cString line) = .task t) :
    3 ≤ (tokenNumbers line).length ∧ t.info = infoOf (tokenNumbers line) := by
  unfold readOneTaskFromOneLine at h
  split at h
  · cases h
  · rename_i tokens htokens
    have htok : strtok (cString line) 32 = tokens := (strSplit_eq_some_iff.1 htokens).2
    dsimp only at h
    split_ifs at h with hover hnone
    cases h
    rw [tokenNumbers, htok]
    simp only [List.length_drop] at hnone
    exact ⟨by omega, rfl⟩

theorem readTaskLine_of_comment {line : List UInt8} (h : IsComment line) (hostid : ℤ)
    (tasks : List TaskS) : readTaskLine hostid tasks line = .ok tasks := if_pos h

theorem readTaskLine_eq_ok {hostid : ℤ} {line : List UInt8} (hline : ¬ IsComment line)
    {tasks tasks' : List TaskS} (h : readTaskLine hostid tasks line = .ok tasks') :
    ∃ t, readOneTaskFromOneLine (cString line) = .task t
      ∧ tasks' = if t.senderHost = hostid then tasks ++ [t] else tasks := by
  rw [readTaskLine, if_neg hline] at h
  split at h
  · rename_i t ht
    refine ⟨t, ht, ?_⟩
    split_ifs at h with hhost hlen
    · cases h
      rw [if_neg hhost]
    · cases h
      rw [if_pos (not_not.1 hhost)]
  · cases h

/-- A run of the loop stores the tasks of the host, and reads a task from each line. -/
theorem mem_readTaskLines {hostid : ℤ} {lines : List (List UInt8)} {tasks tasks' : List TaskS}
    (h : lines.foldlM (readTaskLine hostid) tasks = .ok tasks') :
    (∀ line ∈ lines, ¬ IsComment line → ∃ t, readOneTaskFromOneLine (cString line) = .task t)
    ∧ ∀ t, t ∈ tasks' ↔ t ∈ tasks ∨ t.senderHost = hostid
      ∧ ∃ line ∈ lines, ¬ IsComment line ∧ readOneTaskFromOneLine (cString line) = .task t := by
  induction lines generalizing tasks with
  | nil =>
    cases h
    simp
  | cons line lines ih =>
    rw [List.foldlM_cons] at h
    obtain ⟨tasks₁, hline, hlines⟩ := bind_eq_ok.1 h
    obtain ⟨hall, hmem⟩ := ih hlines
    by_cases hcomment : IsComment line
    · rw [readTaskLine_of_comment hcomment] at hline
      cases hline
      refine ⟨List.forall_mem_cons.2 ⟨fun hn => absurd hcomment hn, hall⟩, fun t => ?_⟩
      simp [hmem t, hcomment]
    · obtain ⟨t₀, ht₀, rfl⟩ := readTaskLine_eq_ok hcomment hline
      refine ⟨List.forall_mem_cons.2 ⟨fun _ => ⟨t₀, ht₀⟩, hall⟩, fun t => ?_⟩
      have hthis : t ∈ (if t₀.senderHost = hostid then tasks ++ [t₀] else tasks)
          ↔ t ∈ tasks ∨ t₀.senderHost = hostid ∧ t = t₀ := by
        split_ifs with hhost <;> simp [hhost]
      rw [hmem t, hthis]
      simp only [List.mem_cons, exists_eq_or_imp, hcomment, not_false_eq_true, true_and, ht₀,
        ReadTask.task.injEq]
      constructor
      · rintro ((ht | ⟨hhost, rfl⟩) | ⟨hhost, ht⟩)
        · exact .inl ht
        · exact .inr ⟨hhost, .inl rfl⟩
        · exact .inr ⟨hhost, .inr ht⟩
      · rintro (ht | ⟨hhost, rfl | ht⟩)
        · exact .inl (.inl ht)
        · exact .inl (.inr ⟨hhost, rfl⟩)
        · exact .inr ⟨hhost, ht⟩

theorem mem_taskLines {content line : List UInt8} :
    line ∈ taskLines content ↔ line ∈ getlines content ∧ ¬ IsComment line := by
  simp [taskLines]

section Stored
variable {content : List UInt8}

theorem exists_task_of_accepted (h : AcceptedFile content) :
    ∀ line ∈ taskLines content, ∃ t, readOneTaskFromOneLine (cString line) = .task t := by
  intro line hline
  obtain ⟨tasks, htasks⟩ := h 0
  exact (mem_readTaskLines htasks).1 line (mem_taskLines.1 hline).1 (mem_taskLines.1 hline).2

theorem mem_readTasksFromFile {hostid : ℤ} {tasks : List TaskS}
    (h : readTasksFromFile content hostid = .ok tasks) (t : TaskS) :
    t ∈ tasks ↔ t.senderHost = hostid
      ∧ ∃ line ∈ taskLines content, readOneTaskFromOneLine (cString line) = .task t := by
  rw [(mem_readTaskLines h).2 t]
  simp [mem_taskLines, and_assoc]

/-- Lines that fit in the array are accepted. -/
theorem foldlM_readTaskLine_eq_ok {hostid : ℤ} {lines : List (List UInt8)} {tasks : List TaskS}
    (htask : ∀ line ∈ lines, ¬ IsComment line →
      Accepted (cString line) ∧ readOneTaskFromOneLine (cString line) ≠ .overrun)
    (hlen : tasks.length + lines.length ≤ maxTaskNum) :
    ∃ tasks', lines.foldlM (readTaskLine hostid) tasks = .ok tasks' := by
  induction lines generalizing tasks with
  | nil => exact ⟨tasks, rfl⟩
  | cons line lines ih =>
    rw [List.forall_mem_cons] at htask
    rw [List.length_cons] at hlen
    rw [List.foldlM_cons]
    by_cases hcomment : IsComment line
    · rw [readTaskLine_of_comment hcomment]
      exact ih htask.2 (by omega)
    · obtain ⟨⟨haborted, hfailed⟩, hover⟩ := htask.1 hcomment
      obtain ⟨t, ht⟩ : ∃ t, readOneTaskFromOneLine (cString line) = .task t := by
        cases ht : readOneTaskFromOneLine (cString line) with
        | task t => exact ⟨t, rfl⟩
        | _ => contradiction
      rw [readTaskLine, if_neg hcomment, ht]
      dsimp only
      split_ifs with hhost hroom
      · exact ih htask.2 (by omega)
      · exact ih htask.2 (by rw [List.length_append, List.length_singleton]; omega)
      · omega

end Stored

/-! ## The script's reader -/

section Script
variable {py : Python3}

theorem mapM_eq_ok_of_forall {items : List (List Char)}
    (h : ∀ item ∈ items, ∃ n, py.int item = .ok n) :
    ∃ numbers, items.mapM py.int = .ok numbers := by
  induction items with
  | nil => exact ⟨[], rfl⟩
  | cons item items ih =>
    rw [List.forall_mem_cons] at h
    obtain ⟨⟨n, hn⟩, h⟩ := h
    obtain ⟨numbers, hnumbers⟩ := ih h
    exact ⟨n :: numbers, by rw [List.mapM_cons, hn, hnumbers]; rfl⟩

theorem foldlM_insert_eq_ok {items : List (List Char)} {numbers : List ℤ}
    (h : items.mapM py.int = .ok numbers) (map : Dict ℤ ℕ) :
    ∃ map' : Dict ℤ ℕ, items.foldlM (fun (map : Dict ℤ ℕ) item => do
        let switchid ← py.int item
        .ok (AList.insert switchid 1 map)) map = .ok map'
      ∧ ∀ s, s ∈ map' ↔ s ∈ map ∨ s ∈ numbers := by
  induction items generalizing map numbers with
  | nil =>
    cases h
    exact ⟨map, rfl, by simp⟩
  | cons item items ih =>
    rw [List.mapM_cons] at h
    obtain ⟨n, hn, h⟩ := bind_eq_ok.1 h
    obtain ⟨ns, hns, h⟩ := bind_eq_ok.1 h
    cases h
    obtain ⟨map', hmap', hmem⟩ := ih hns (AList.insert n 1 map)
    refine ⟨map', ?_, fun s => ?_⟩
    · rw [List.foldlM_cons, hn]
      exact hmap'
    · rw [hmem s, AList.mem_insert, List.mem_cons]
      tauto

/-- The script's task of a line, from its words. -/
theorem scriptTask_eq {line : List Char} (hlen : 3 ≤ (Python3.split line).length)
    (hword : ∀ word ∈ (Python3.split line).tail, ∃ n, py.int word = .ok n) :
    ∃ t, scriptTask py line = .ok t ∧ (Python3.split line).head? = some t.taskid
      ∧ t.info py = infoOf <$> (Python3.split line).mapM py.int := by
  unfold scriptTask
  generalize Python3.split line = items at hlen hword ⊢
  obtain _ | ⟨taskid, _ | ⟨sender, _ | ⟨receiver, switches⟩⟩⟩ := items
  iterate 3 exact absurd hlen (by simp)
  simp only [List.tail_cons, List.forall_mem_cons] at hword
  obtain ⟨⟨a, ha⟩, ⟨b, hb⟩, hswitches⟩ := hword
  obtain ⟨numbers, hnumbers⟩ := mapM_eq_ok_of_forall hswitches
  obtain ⟨map, hmap, hmem⟩ := foldlM_insert_eq_ok hnumbers ∅
  refine ⟨⟨taskid, a, b, map⟩, ?_, rfl, ?_⟩
  · refine bind_eq_ok.2 ⟨taskid, rfl, bind_eq_ok.2 ⟨a, ?_, bind_eq_ok.2 ⟨b, ?_, ?_⟩⟩⟩
    · exact bind_eq_ok.2 ⟨sender, rfl, ha⟩
    · exact bind_eq_ok.2 ⟨receiver, rfl, hb⟩
    · exact bind_eq_ok.2 ⟨map, hmap, rfl⟩
  · rw [ScriptTask.info, List.mapM_cons, List.mapM_cons, List.mapM_cons, ha, hb, hnumbers]
    cases py.int taskid with
    | error e => rfl
    | ok id =>
      refine congrArg Except.ok (TaskInfo.ext rfl rfl rfl (Set.ext fun s => ?_))
      simp [hmem s, infoOf]

/-- A line of which the script makes a task. -/
theorem words_of_scriptTask {line : List Char} {t : ScriptTask} (h : scriptTask py line = .ok t) :
    3 ≤ (Python3.split line).length
      ∧ ∀ word ∈ (Python3.split line).tail, ∃ n, py.int word = .ok n := by
  unfold scriptTask at h
  generalize Python3.split line = items at h ⊢
  obtain ⟨taskid, -, h⟩ := bind_eq_ok.1 h
  obtain ⟨a, ha, h⟩ := bind_eq_ok.1 h
  obtain ⟨b, hb, h⟩ := bind_eq_ok.1 h
  obtain ⟨map, hmap, -⟩ := bind_eq_ok.1 h
  obtain ⟨sender, hsender, ha⟩ := bind_eq_ok.1 ha
  obtain ⟨receiver, hreceiver, hb⟩ := bind_eq_ok.1 hb
  obtain _ | ⟨taskid', _ | ⟨sender', _ | ⟨receiver', switches⟩⟩⟩ := items
  · cases hsender
  · cases hsender
  · cases hreceiver
  · cases hsender
    cases hreceiver
    refine ⟨by simp, ?_⟩
    simp only [List.tail_cons, List.forall_mem_cons]
    refine ⟨⟨a, ha⟩, ⟨b, hb⟩, fun word hword => ?_⟩
    obtain ⟨d, d', hd⟩ := exists_of_foldlM_eq_ok hmap hword
    obtain ⟨n, hn, -⟩ := bind_eq_ok.1 hd
    exact ⟨n, hn⟩

namespace TaskManager

variable {line : List Char} (taskMap : Dict (List Char) ScriptTask)

theorem addLine_of_comment (h : IsScriptComment line) (hline : line ≠ ['#']) :
    addLine py taskMap line = .ok taskMap := by
  obtain ⟨rest, rfl⟩ := List.head?_eq_some_iff.1 h
  obtain _ | ⟨c, rest⟩ := rest
  · exact absurd rfl hline
  · rfl

theorem addLine_of_not_comment (h : ¬ IsScriptComment line) (hwords : words line ≠ []) :
    addLine py taskMap line = (scriptTask py line.dropLast >>= fun oneTask =>
      .ok (AList.insert oneTask.taskid oneTask taskMap)) := by
  obtain _ | ⟨c, _ | ⟨d, rest⟩⟩ := line
  · exact absurd rfl hwords
  · exact absurd rfl hwords
  · have hc : ¬ c = '#' := fun hc => h (congrArg some hc)
    exact if_neg hc

/-- What a task line does that the script can read. -/
theorem addLine_eq_ok (h : ¬ IsScriptComment line) (hread : CanRead py line) :
    ∃ t, (words line).head? = some t.taskid ∧ t.info py = infoOf <$> (words line).mapM py.int
      ∧ scriptTask py line.dropLast = .ok t
      ∧ ∀ taskMap, addLine py taskMap line = .ok (AList.insert t.taskid t taskMap) := by
  rw [CanRead, if_neg h] at hread
  obtain ⟨t, ht, hid, hinfo⟩ := scriptTask_eq hread.1 hread.2
  have hwords : words line ≠ [] := by
    rintro hnil
    rw [hnil] at hread
    exact absurd hread.1 (by simp)
  refine ⟨t, hid, hinfo, ht, fun taskMap => ?_⟩
  rw [addLine_of_not_comment taskMap h hwords, ht]
  rfl

/-- The script raises an error on the other lines. -/
theorem canRead_of_addLine {taskMap' : Dict (List Char) ScriptTask}
    (h : addLine py taskMap line = .ok taskMap') : CanRead py line := by
  rw [CanRead]
  split_ifs with hcomment
  · rintro rfl
    cases h
  · obtain _ | ⟨c, _ | ⟨d, rest⟩⟩ := line
    · cases h
    · cases h
    · have hc : ¬ c = '#' := fun hc => hcomment (congrArg some hc)
      obtain ⟨t, ht, -⟩ := bind_eq_ok.1 ((if_neg hc).symm.trans h)
      exact words_of_scriptTask ht

theorem lastOfEachId_cons (line : List Char) (lines : List (List Char)) :
    lastOfEachId (line :: lines)
      = if ∀ later ∈ lines, (words line).head? ≠ (words later).head? then
          line :: lastOfEachId lines
        else lastOfEachId lines := by
  have hforall := List.forall_mem_pwFilter (R := fun line later =>
    (words line).head? ≠ (words later).head?) (fun hxz => by
      by_contra hn
      rw [not_or, not_not, not_not] at hn
      exact hxz (hn.1.trans hn.2)) line lines
  split_ifs with h
  · exact List.pwFilter_cons_of_pos (hforall.2 h)
  · exact List.pwFilter_cons_of_neg fun hall => h (hforall.1 hall)

theorem exists_mem_lastOfEachId_cons {k : List Char} (P : List Char → Prop) (line : List Char)
    (lines : List (List Char)) :
    (∃ l ∈ lastOfEachId (line :: lines), (words l).head? = some k ∧ P l)
      ↔ (∃ l ∈ lastOfEachId lines, (words l).head? = some k ∧ P l)
        ∨ ((words line).head? = some k ∧ P line)
          ∧ ∀ later ∈ lines, (words later).head? ≠ some k := by
  rw [lastOfEachId_cons]
  split_ifs with hlast
  · simp only [List.mem_cons, exists_eq_or_imp]
    rw [or_comm]
    refine or_congr_right ⟨fun h => ⟨h, fun later hl => ?_⟩, And.left⟩
    exact h.1 ▸ (hlast later hl).symm
  · refine ⟨.inl, ?_⟩
    rintro (h | ⟨h, hlater⟩)
    · exact h
    · exact absurd (fun later hl => h.1 ▸ (hlater later hl).symm) hlast

/-- After a run of the loop each id has the task of its last line. -/
theorem lookup_foldlM {lines : List (List Char)} (h : ∀ line ∈ lines, CanRead py line)
    (taskMap : Dict (List Char) ScriptTask) :
    ∃ taskMap', lines.foldlM (addLine py) taskMap = .ok taskMap'
      ∧ ∀ k t, taskMap'.lookup k = some t ↔
        (∃ line ∈ keptLines lines, (words line).head? = some k
          ∧ scriptTask py line.dropLast = .ok t)
        ∨ taskMap.lookup k = some t
          ∧ ∀ line ∈ lines.filter fun line => ¬ IsScriptComment line,
            (words line).head? ≠ some k := by
  unfold keptLines
  induction lines generalizing taskMap with
  | nil => exact ⟨taskMap, rfl, by simp [lastOfEachId]⟩
  | cons line lines ih =>
    rw [List.forall_mem_cons] at h
    by_cases hcomment : IsScriptComment line
    · obtain ⟨taskMap', hrun, hlookup⟩ := ih h.2 taskMap
      have hline : line ≠ ['#'] := by
        have hread := h.1
        rwa [CanRead, if_pos hcomment] at hread
      refine ⟨taskMap', ?_, ?_⟩
      · rw [List.foldlM_cons, addLine_of_comment taskMap hcomment hline]
        exact hrun
      · rwa [List.filter_cons_of_neg (by simpa using hcomment)]
    · obtain ⟨t₀, hid, -, ht₀, hadd⟩ := addLine_eq_ok hcomment h.1
      obtain ⟨taskMap', hrun, hlookup⟩ := ih h.2 (AList.insert t₀.taskid t₀ taskMap)
      refine ⟨taskMap', ?_, fun k t => ?_⟩
      · rw [List.foldlM_cons, hadd taskMap]
        exact hrun
      rw [hlookup k t, List.filter_cons_of_pos (by simpa using hcomment),
        exists_mem_lastOfEachId_cons (fun l => scriptTask py l.dropLast = .ok t) line, hid, ht₀,
        Dict.lookup_insert_if, List.forall_mem_cons, hid, or_assoc]
      refine or_congr_right ?_
      by_cases hk : k = t₀.taskid
      · simp [hk]
      · have hk' : ¬ t₀.taskid = k := fun h => hk h.symm
        simp [hk, hk']

end TaskManager

theorem mem_of_mem_keptLines {lines : List (List Char)} {line : List Char}
    (h : line ∈ keptLines lines) : line ∈ lines ∧ ¬ IsScriptComment line := by
  simpa using List.pwFilter_subset _ h

/-! ## The two readers -/

theorem length_of_mapM_eq_ok {items : List (List Char)} {numbers : List ℤ}
    (h : items.mapM py.int = .ok numbers) : numbers.length = items.length := by
  induction items generalizing numbers with
  | nil =>
    cases h
    rfl
  | cons item items ih =>
    rw [List.mapM_cons] at h
    obtain ⟨n, -, h⟩ := bind_eq_ok.1 h
    obtain ⟨ns, hns, h⟩ := bind_eq_ok.1 h
    cases h
    simp [ih hns]

theorem info_eq_iff {line : List UInt8} {line' : List Char} {t : TaskS} {t' : ScriptTask}
    (ht : readOneTaskFromOneLine (cString line) = .task t)
    (ht' : scriptTask py line'.dropLast = .ok t') :
    .ok t.info = t'.info py ↔ SameNumbers py line line' := by
  obtain ⟨hlen, hinfo⟩ := info_readOneTask ht
  obtain ⟨hlen', hwords⟩ := words_of_scriptTask ht'
  obtain ⟨t₁, ht₁, -, hinfo'⟩ := scriptTask_eq hlen' hwords
  rw [ht'] at ht₁
  cases ht₁
  rw [hinfo, hinfo', SameNumbers, words]
  cases hnumbers : (Python3.split line'.dropLast).mapM py.int with
  | error e => exact ⟨fun h => (by cases h), fun ⟨_, h, _⟩ => (by cases h)⟩
  | ok numbers =>
    have hl := length_of_mapM_eq_ok hnumbers
    change Except.ok _ = Except.ok _ ↔ _
    rw [Except.ok.injEq, eq_comm, infoOf_eq_iff (by omega) hlen]
    exact ⟨fun h => ⟨numbers, rfl, h⟩, fun ⟨_, h, h'⟩ => Except.ok.inj h ▸ h'⟩

theorem sender_of_info {t : ScriptTask} {i : TaskInfo} (h : .ok i = t.info py) :
    i.sender = t.senderHostid := by
  obtain ⟨id, -, hi⟩ := bind_eq_ok.1 h.symm
  cases hi
  rfl

end Script

theorem TaskManager.readTasksFromFile_eq_ok {py : Python3} {content : List UInt8}
    {lines : List (List Char)} (h : py.readlines content = .ok lines) :
    readTasksFromFile py content = lines.foldlM (addLine py) ∅ := by
  rw [readTasksFromFile, h]
  rfl

/-- Two tasks of the first host. -/
def twoTasks : List UInt8 := chars "#tasks\n1 1 7 4 6\n2 1 8 4\n"

/-- The newline of the last line is missing. -/
def withoutNewline : List UInt8 := chars "1 1 7 4 6"

end CMTestbed
