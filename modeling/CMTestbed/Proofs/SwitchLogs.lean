import Mathlib.Algebra.Order.BigOperators.Group.List
import CMTestbed.Lib.Merge
import CMTestbed.SwitchLogs

/-!
# The order in which the switches' logs are read

The entry of a flow in a round is a merge of the records that the logs have of it.  A record without
real volume does not make an entry, so the first switch that forwarded the flow decides which
records are dropped: those of the switches before it, and its own leading ones.
-/

namespace CMTestbed

open Lib (mergeStep merge kept OrderFree)

/-- A record makes an entry. -/
def wakes (r : Record) : Bool := 0 < r.realVolume

/-- The lines of a log, as far as they can be read. -/
def logLines (text : List UInt8) : List LogLine :=
  (readlines text).map fun line => ((parseLine line).toOption).getD .other

/-- Each number of the log is one. -/
def Readable (text : List UInt8) : Prop := ∀ line ∈ readlines text, (parseLine line).isOk

/-- The records of a flow in a round, from a line on in the current round. -/
def recordsFrom (sec : ℕ) (srcip : List UInt8) : Option ℕ → List LogLine → List Record
  | _, [] => []
  | _, .round msec :: ls => recordsFrom sec srcip (some (msec / 1000)) ls
  | cur, .flow srcip' r :: ls =>
    if cur = some sec ∧ srcip' = srcip then r :: recordsFrom sec srcip cur ls
    else recordsFrom sec srcip cur ls
  | cur, .other :: ls => recordsFrom sec srcip cur ls

/-- The records that a log has of a flow in a round. -/
def recordsOf (sec : ℕ) (srcip : List UInt8) (text : List UInt8) : List Record :=
  recordsFrom sec srcip none (logLines text)

/-- No flow stands before the first round. -/
def Headed : List LogLine → Prop
  | [] => True
  | .round _ :: _ => True
  | .flow _ _ :: _ => False
  | .other :: ls => Headed ls

instance decidableHeaded : DecidablePred Headed
  | [] => inferInstanceAs (Decidable True)
  | .round _ :: _ => inferInstanceAs (Decidable True)
  | .flow _ _ :: _ => inferInstanceAs (Decidable False)
  | .other :: ls => decidableHeaded ls

/-- The line does not start the round of second 0. -/
def LogLine.Late : LogLine → Prop
  | .round msec => 1000 ≤ msec
  | _ => True

/-- No row counts that stands before the first round of its log: there is none, or no log has the
round of second 0, in which the reading of each log starts. -/
def HeadsKnown (logs : List (List UInt8)) : Prop :=
  (∀ text ∈ logs, Headed (logLines text)) ∨ ∀ text ∈ logs, ∀ l ∈ logLines text, l.Late

section Lines

variable (m : Method) {sec : ℕ} {srcip : List UInt8}

theorem pyInt_error {s : List UInt8} {e : PyError} (h : pyInt s = .error e) : e = .valueError := by
  unfold pyInt at h
  split at h <;> split at h <;> cases h <;> rfl

theorem parseLine_error {line : List UInt8} {e : PyError} (h : parseLine line = .error e) :
    e = .valueError := by
  have hbind : ∀ {a b : List UInt8} {k : ℤ → ℤ → LogLine},
      (do let x ← pyInt a; let y ← pyInt b; Except.ok (k x y)) = .error e → e = .valueError := by
    intro a b k h
    cases ha : pyInt a with
    | error e' =>
      rw [ha] at h
      cases h
      exact pyInt_error ha
    | ok x =>
      cases hb : pyInt b with
      | error e' =>
        rw [ha, hb] at h
        cases h
        exact pyInt_error hb
      | ok y =>
        rw [ha, hb] at h
        cases h
  unfold parseLine at h
  split at h
  · cases h
  · split at h
    · exact hbind h
    · split at h
      · exact hbind h
      · cases h

/-- A line of a flow, in the current round. -/
theorem readLogLine_flow {cur : ℕ} {rounds : Rounds} (hcur : cur ∈ rounds) (srcip' : List UInt8)
    (r : Record) :
    ∃ rounds', readLogLine m (cur, rounds) (.flow srcip' r) = (cur, rounds') ∧ cur ∈ rounds'
      ∧ ∀ sec srcip, rounds'.entry sec srcip = if cur = sec ∧ srcip' = srcip
          then mergeStep wakes m.newInfo m.addTo (rounds.entry sec srcip) r
          else rounds.entry sec srcip := by
  obtain ⟨oneRound, hround⟩ := Option.isSome_iff_exists.1 (AList.lookup_isSome.2 hcur)
  have hentry : ∀ srcip, rounds.entry cur srcip = oneRound.lookup srcip :=
    Dict.entry_of_lookup hround
  have hinsert : ∀ v sec srcip,
      Rounds.entry (AList.insert cur (AList.insert srcip' v oneRound) rounds) sec srcip
        = if cur = sec ∧ srcip' = srcip then some v else rounds.entry sec srcip :=
    Dict.entry_insert hround srcip'
  simp only [readLogLine, hround]
  cases hflow : oneRound.lookup srcip' with
  | some flowInfo =>
    refine ⟨_, rfl, (AList.mem_insert _).2 (.inl rfl), fun sec srcip => ?_⟩
    rw [hinsert]
    split
    · next h =>
      obtain ⟨rfl, rfl⟩ := h
      rw [hentry, hflow, mergeStep]
    · rfl
  | none =>
    by_cases hr : r.realVolume ≤ 0
    · refine ⟨rounds, if_pos hr, hcur, fun sec srcip => ?_⟩
      split
      · next h =>
        obtain ⟨rfl, rfl⟩ := h
        rw [hentry, hflow, mergeStep, if_neg (by simpa [wakes] using hr)]
      · rfl
    · refine ⟨_, if_neg hr, (AList.mem_insert _).2 (.inl rfl), fun sec srcip => ?_⟩
      rw [hinsert]
      split
      · next h =>
        obtain ⟨rfl, rfl⟩ := h
        rw [hentry, hflow, mergeStep, if_pos (by simpa [wakes, Nat.pos_iff_ne_zero] using hr)]
      · rfl

/-- The line of a round, wherever it stands. -/
theorem readLogLine_round (cur : ℕ) (rounds : Rounds) (msec : ℕ) :
    ∃ rounds', readLogLine m (cur, rounds) (.round msec) = (msec / 1000, rounds')
      ∧ msec / 1000 ∈ rounds' ∧ ∀ sec srcip, rounds'.entry sec srcip = rounds.entry sec srcip := by
  exact ⟨_, rfl, Dict.mem_insert_empty rounds _, fun sec srcip =>
    Dict.entry_insert_empty rounds _ sec srcip⟩

/-- From a known round on, the entry takes the records of the flow. -/
theorem entry_foldl {cur : ℕ} {rounds : Rounds} (hcur : cur ∈ rounds) (ls : List LogLine) :
    (ls.foldl (readLogLine m) (cur, rounds)).2.entry sec srcip
      = (recordsFrom sec srcip (some cur) ls).foldl (mergeStep wakes m.newInfo m.addTo)
          (rounds.entry sec srcip) := by
  induction ls generalizing cur rounds with
  | nil => rfl
  | cons l ls ih =>
    cases l with
    | round msec =>
      obtain ⟨rounds', hread, hmem, hentry⟩ := readLogLine_round m cur rounds msec
      rw [List.foldl_cons, hread, ih hmem, hentry, recordsFrom]
    | flow srcip' r =>
      obtain ⟨rounds', hread, hmem, hentry⟩ := readLogLine_flow m hcur srcip' r
      rw [List.foldl_cons, hread, ih hmem, hentry, recordsFrom]
      by_cases hflow : cur = sec ∧ srcip' = srcip
      · rw [if_pos hflow, if_pos ⟨congrArg some hflow.1, hflow.2⟩, List.foldl_cons]
      · rw [if_neg hflow, if_neg fun h => hflow ⟨Option.some_inj.1 h.1, h.2⟩]
    | other => exact ih hcur

/-- A log whose flows stand after a round adds its records of the flow. -/
theorem entry_foldl_headed {cur : ℕ} {rounds : Rounds} {ls : List LogLine} (h : Headed ls) :
    (ls.foldl (readLogLine m) (cur, rounds)).2.entry sec srcip
      = (recordsFrom sec srcip none ls).foldl (mergeStep wakes m.newInfo m.addTo)
          (rounds.entry sec srcip) := by
  induction ls with
  | nil => rfl
  | cons l ls ih =>
    cases l with
    | round msec =>
      obtain ⟨rounds', hread, hmem, hentry⟩ := readLogLine_round m cur rounds msec
      rw [List.foldl_cons, hread, entry_foldl m hmem, hentry, recordsFrom]
    | flow srcip' r => exact h.elim
    | other => exact ih h

/-- The table gets no round of second 0 from such lines. -/
theorem zero_notMem_foldl {ls : List LogLine} (h : ∀ l ∈ ls, l.Late) {s : ℕ × Rounds}
    (hs : 0 ∉ s.2) : 0 ∉ (ls.foldl (readLogLine m) s).2 := by
  refine List.foldlRecOn (motive := fun s : ℕ × Rounds => 0 ∉ s.2) ls _ hs fun s hs l hl => ?_
  cases l with
  | round msec =>
    have hlate : 1000 ≤ msec := h _ hl
    have hsec : 0 ≠ msec / 1000 := by omega
    simp only [readLogLine]
    split_ifs
    · exact hs
    · rw [AList.mem_insert, not_or]
      exact ⟨hsec, hs⟩
  | flow srcip' r =>
    simp only [readLogLine]
    cases hround : s.2.lookup s.1 with
    | none => exact hs
    | some oneRound =>
      have hcur : 0 ≠ s.1 := by
        rintro hzero
        exact hs (hzero ▸ AList.lookup_isSome.1 (hround ▸ rfl))
      have hinsert : ∀ v : Dict (List UInt8) SwitchFlowInfo, 0 ∉ AList.insert s.1 v s.2 := by
        intro v
        rw [AList.mem_insert, not_or]
        exact ⟨hcur, hs⟩
      dsimp only
      cases oneRound.lookup srcip' with
      | some flowInfo => exact hinsert _
      | none =>
        dsimp only
        split_ifs
        · exact hs
        · exact hinsert _
  | other => exact hs

/-- Where no round of second 0 is known, the rows before the first round are dropped. -/
theorem entry_foldl_late {rounds : Rounds} (hzero : 0 ∉ rounds) {ls : List LogLine}
    (h : ∀ l ∈ ls, l.Late) :
    (ls.foldl (readLogLine m) (0, rounds)).2.entry sec srcip
      = (recordsFrom sec srcip none ls).foldl (mergeStep wakes m.newInfo m.addTo)
          (rounds.entry sec srcip) := by
  induction ls with
  | nil => rfl
  | cons l ls ih =>
    rw [List.forall_mem_cons] at h
    cases l with
    | round msec =>
      obtain ⟨rounds', hread, hmem, hentry⟩ := readLogLine_round m 0 rounds msec
      rw [List.foldl_cons, hread, entry_foldl m hmem, hentry, recordsFrom]
    | flow srcip' r =>
      have hskip : readLogLine m (0, rounds) (.flow srcip' r) = (0, rounds) := by
        simp only [readLogLine, AList.lookup_eq_none.2 hzero]
      rw [List.foldl_cons, hskip, ih h.2, recordsFrom, if_neg fun h => nomatch h.1]
    | other => exact ih h.2

end Lines

section Logs

variable (m : Method) {logs : List (List UInt8)}

theorem HeadsKnown.of_perm {logs' : List (List UInt8)} (h : HeadsKnown logs)
    (hp : logs'.Perm logs) : HeadsKnown logs' :=
  h.imp (fun h text ht => h text (hp.mem_iff.1 ht)) fun h text ht => h text (hp.mem_iff.1 ht)

theorem readSwitch_readable {text : List UInt8} (h : Readable text) (rounds : Rounds) :
    readSwitch m rounds text
      = .ok ((logLines text).foldl (readLogLine m) (0, rounds)).2 := by
  have hline : ∀ line ∈ readlines text, ∀ s, (readLogLine m s <$> parseLine line)
      = .ok (readLogLine m s (((parseLine line).toOption).getD .other)) := by
    intro line hl s
    have := h line hl
    cases hp : parseLine line with
    | error e =>
      rw [hp] at this
      cases this
    | ok l => rfl
  rw [readSwitch, foldlM_eq_ok hline, logLines, List.foldl_map]
  rfl

theorem readSwitch_not_readable {text : List UInt8} (h : ¬ Readable text) (rounds : Rounds) :
    readSwitch m rounds text = .error .valueError := by
  have herror : ∀ line ∈ readlines text, ∀ s e, (readLogLine m s <$> parseLine line) = .error e →
      e = .valueError := by
    intro line _ s e he
    cases hp : parseLine line with
    | error e' =>
      rw [hp] at he
      cases he
      exact parseLine_error hp
    | ok l =>
      rw [hp] at he
      cases he
  obtain ⟨line, hl, hp⟩ : ∃ line ∈ readlines text, ¬ (parseLine line).isOk := by
    simpa [Readable] using h
  have hraise : ∀ s, (readLogLine m s <$> parseLine line) = .error .valueError := by
    intro s
    cases hp' : parseLine line with
    | error e =>
      rw [parseLine_error hp']
      rfl
    | ok l =>
      rw [hp'] at hp
      exact absurd rfl hp
  rw [readSwitch, foldlM_eq_error herror ⟨line, hl, hraise⟩]
  rfl

theorem readRounds_not_readable (h : ∃ text ∈ logs, ¬ Readable text) :
    readRoundsPerSwitchFlowInfo m logs = .error .valueError := by
  obtain ⟨text, ht, hr⟩ := h
  refine foldlM_eq_error (fun text' _ rounds e he => ?_) ⟨text, ht, readSwitch_not_readable m hr⟩ _
  by_cases hr' : Readable text'
  · rw [readSwitch_readable m hr'] at he
    cases he
  · rw [readSwitch_not_readable m hr'] at he
    cases he
    rfl

/-- The entries after the logs, one after the other. -/
theorem entry_foldl_logs (hh : HeadsKnown logs) {sec : ℕ} {srcip : List UInt8} :
    (logs.foldl (fun rounds text => ((logLines text).foldl (readLogLine m) (0, rounds)).2) ∅).entry
        sec srcip
      = (logs.map (recordsOf sec srcip)).flatten.foldl (mergeStep wakes m.newInfo m.addTo)
          ((∅ : Rounds).entry sec srcip) := by
  have hzero : 0 ∉ (∅ : Rounds) := AList.notMem_empty 0
  generalize (∅ : Rounds) = rounds at hzero ⊢
  obtain hh | hh := hh
  · clear hzero
    induction logs generalizing rounds with
    | nil => rfl
    | cons text logs ih =>
      rw [List.forall_mem_cons] at hh
      rw [List.foldl_cons, ih _ hh.2, entry_foldl_headed m hh.1, List.map_cons, List.flatten_cons,
        List.foldl_append, recordsOf]
  · induction logs generalizing rounds with
    | nil => rfl
    | cons text logs ih =>
      rw [List.forall_mem_cons] at hh
      rw [List.foldl_cons, ih _ (zero_notMem_foldl m hh.1 (s := (0, rounds)) hzero) hh.2,
        entry_foldl_late m hzero hh.1, List.map_cons, List.flatten_cons, List.foldl_append,
        recordsOf]

/-- The entries after the logs, when each can be read. -/
theorem readRounds_readable (h : ∀ text ∈ logs, Readable text) (hh : HeadsKnown logs) :
    ∃ rounds, readRoundsPerSwitchFlowInfo m logs = .ok rounds ∧ ∀ sec srcip,
      rounds.entry sec srcip
        = merge wakes m.newInfo m.addTo (logs.map (recordsOf sec srcip)).flatten := by
  refine ⟨_, foldlM_eq_ok (fun text ht rounds => readSwitch_readable m (h text ht) rounds) ∅,
    fun sec srcip => ?_⟩
  rw [entry_foldl_logs m hh, merge]
  rfl

end Logs

section Fields

variable (m : Method)

/-- The records whose captured volume and levels the method takes. -/
def Method.contributes (r : Record) : Bool :=
  match m with
  | method2 => r.signedTarget ≠ 0 ∧ 0 < r.capturedVolume
  | method3 => true

theorem addTo_eq (v : SwitchFlowInfo) (r : Record) :
    m.addTo v r = if m.contributes r then
      ⟨v.realVolume + r.realVolume, v.capturedVolume + r.capturedVolume,
        max r.signedTarget v.signedTarget, max r.targetSwitchReceived v.targetSwitchReceived⟩
      else ⟨v.realVolume + r.realVolume, v.capturedVolume, v.signedTarget,
        v.targetSwitchReceived⟩ := by
  cases m with
  | method2 => simp [Method.addTo, Method.contributes]
  | method3 => rfl

instance : RightCommutative m.addTo where
  right_comm v r r' := by
    simp only [addTo_eq]
    split <;> split <;> simp [add_right_comm, max_left_comm]

/-- The captured volume of records. -/
def Method.captured (rs : List Record) : ℤ :=
  ((rs.filter m.contributes).map (·.capturedVolume)).sum

/-- The largest level of records, where the first one makes the entry. -/
def Method.signed : List Record → ℤ
  | [] => 0
  | r :: rs => ((rs.filter m.contributes).map (·.signedTarget)).foldl max
      (if m.contributes r then r.signedTarget else 0)

/-- The largest received level of records, where the first one makes the entry. -/
def Method.received : List Record → ℕ
  | [] => 0
  | r :: rs => ((rs.filter m.contributes).map (·.targetSwitchReceived)).foldl max
      (if m.contributes r then r.targetSwitchReceived else 0)

theorem foldl_addTo (v : SwitchFlowInfo) (rs : List Record) :
    rs.foldl m.addTo v = ⟨v.realVolume + (rs.map (·.realVolume)).sum,
      v.capturedVolume + m.captured rs,
      ((rs.filter m.contributes).map (·.signedTarget)).foldl max v.signedTarget,
      ((rs.filter m.contributes).map (·.targetSwitchReceived)).foldl max
        v.targetSwitchReceived⟩ := by
  induction rs generalizing v with
  | nil => simp [Method.captured]
  | cons r rs ih =>
    rw [List.foldl_cons, ih, addTo_eq]
    by_cases hr : m.contributes r
    · simp [hr, Method.captured, add_assoc, max_comm]
    · simp [hr, Method.captured, add_assoc]

theorem foldl_max_eq_iff {α : Type*} [LinearOrder α] {a : α} {l : List α} :
    l.foldl max a = a ↔ ∀ x ∈ l, x ≤ a := by
  have hle : ∀ (l : List α) (a : α), a ≤ l.foldl max a := by
    intro l
    induction l with
    | nil => exact fun a => le_rfl
    | cons x l ih => exact fun a => (le_max_left a x).trans (ih (max a x))
  induction l with
  | nil => simp
  | cons x l ih =>
    rw [List.foldl_cons, List.forall_mem_cons]
    constructor
    · intro h
      have hx : x ≤ a := (le_max_right a x).trans ((hle l (max a x)).trans_eq h)
      rw [max_eq_left hx] at h
      exact ⟨hx, ih.1 h⟩
    · rintro ⟨hx, h⟩
      rw [max_eq_left hx]
      exact ih.2 h

/-- What records that start with a waking one make. -/
theorem merge_eq_of_wakes {r : Record} {rs : List Record} (hr : wakes r) :
    merge wakes m.newInfo m.addTo (r :: rs) = some ⟨((r :: rs).map (·.realVolume)).sum,
      m.captured (r :: rs), m.signed (r :: rs), m.received (r :: rs)⟩ := by
  have hnew : m.newInfo r = if m.contributes r
      then ⟨r.realVolume, r.capturedVolume, r.signedTarget, r.targetSwitchReceived⟩
      else ⟨r.realVolume, 0, 0, 0⟩ := by
    cases m with
    | method2 => simp [Method.newInfo, Method.contributes]
    | method3 => rfl
  rw [merge, List.foldl_cons, mergeStep, if_pos hr, Lib.foldl_mergeStep_some, foldl_addTo, hnew]
  by_cases hc : m.contributes r
  · simp [hc, Method.captured, Method.signed, Method.received]
  · simp [hc, Method.captured, Method.signed, Method.received]

theorem sum_realVolume_of_quiet {rs : List Record} (h : rs.any wakes = false) :
    (rs.map (·.realVolume)).sum = 0 := by
  refine List.sum_eq_zero fun x hx => ?_
  obtain ⟨r, hr, rfl⟩ := List.mem_map.1 hx
  simpa [wakes] using List.any_eq_false.1 h r hr

/-- The records that are dropped have no real volume. -/
theorem sum_realVolume_kept {b : List Record} {bs : List (List Record)} (hb : b ∈ bs) :
    ((kept wakes b (bs.erase b)).map (·.realVolume)).sum
      = (bs.flatten.map (·.realVolume)).sum := by
  have hdrop : ∀ rs : List Record, ((rs.dropWhile fun r => !wakes r).map (·.realVolume)).sum
      = (rs.map (·.realVolume)).sum := by
    intro rs
    induction rs with
    | nil => rfl
    | cons r rs ih =>
      by_cases hr : wakes r
      · rw [List.dropWhile_cons_of_neg (by simp [hr])]
      · have h0 : r.realVolume = 0 := by simpa [wakes] using hr
        rw [List.dropWhile_cons_of_pos (by simp [hr]), ih, List.map_cons, List.sum_cons, h0,
          Nat.zero_add]
  have hfilter : ∀ cs : List (List Record),
      ((cs.filter (·.any wakes)).flatten.map (·.realVolume)).sum
        = (cs.flatten.map (·.realVolume)).sum := by
    intro cs
    induction cs with
    | nil => rfl
    | cons c cs ih =>
      rw [List.flatten_cons, List.map_append, List.sum_append, ← ih]
      by_cases hc : c.any wakes = true
      · rw [List.filter_cons, if_pos hc, List.flatten_cons, List.map_append, List.sum_append]
      · rw [List.filter_cons, if_neg hc, sum_realVolume_of_quiet (Bool.eq_false_iff.2 hc),
          Nat.zero_add]
  have hp : (b :: bs.erase b).flatten.Perm bs.flatten := (List.perm_cons_erase hb).symm.flatten
  rw [← (hp.map _).sum_eq, kept, List.map_append, List.sum_append, hdrop, hfilter,
    List.flatten_cons, List.map_append, List.sum_append]

/-- Whichever switch with real volume of the flow is read first, the captured volumes that count
have the same sum and the levels the same maxima; and the switches without real volume have no
captured volume and no larger level. -/
def MergesAlike (bs : List (List Record)) : Prop :=
  ∀ b ∈ bs, b.any wakes = true →
    (∀ c ∈ bs, c.any wakes = true →
      m.captured (kept wakes b (bs.erase b)) = m.captured (kept wakes c (bs.erase c))
        ∧ m.signed (kept wakes b (bs.erase b)) = m.signed (kept wakes c (bs.erase c))
        ∧ m.received (kept wakes b (bs.erase b)) = m.received (kept wakes c (bs.erase c)))
    ∧ ∀ c ∈ bs, c.any wakes = false → m.captured c = 0 ∧ ∀ r ∈ c, m.contributes r = true →
      r.signedTarget ≤ m.signed (kept wakes b (bs.erase b))
        ∧ r.targetSwitchReceived ≤ m.received (kept wakes b (bs.erase b))

theorem mergesAlike_iff (bs : List (List Record)) :
    MergesAlike m bs ↔ OrderFree wakes m.newInfo m.addTo bs := by
  have hkept : ∀ b ∈ bs, b.any wakes = true →
      merge wakes m.newInfo m.addTo (kept wakes b (bs.erase b))
        = some ⟨(bs.flatten.map (·.realVolume)).sum, m.captured (kept wakes b (bs.erase b)),
          m.signed (kept wakes b (bs.erase b)), m.received (kept wakes b (bs.erase b))⟩ := by
    intro b hb hw
    obtain ⟨r, rs, hk, hr⟩ := Lib.exists_kept_eq hw (bs.erase b)
    have hsum := sum_realVolume_kept hb
    rw [hk] at hsum ⊢
    rw [merge_eq_of_wakes m hr, hsum]
  unfold MergesAlike OrderFree
  refine forall_congr' fun b => forall_congr' fun hb => forall_congr' fun hw => and_congr ?_ ?_
  · refine forall_congr' fun c => forall_congr' fun hc => forall_congr' fun hwc => ?_
    rw [hkept b hb hw, hkept c hc hwc]
    simp
  · refine forall_congr' fun c => forall_congr' fun hc => forall_congr' fun hwc => ?_
    rw [hkept b hb hw, Lib.foldl_mergeStep_some, foldl_addTo, sum_realVolume_of_quiet hwc]
    simp only [Option.some_inj, SwitchFlowInfo.mk.injEq, Nat.add_zero, true_and, add_eq_left,
      foldl_max_eq_iff, List.forall_mem_map, List.mem_filter, ← forall_and, and_imp]

end Fields

/-- The order of the logs does not matter exactly when a log stops the script, or the records of
every flow in every round merge alike. -/
theorem readRounds_perm_iff (m : Method) (logs : List (List UInt8)) (hh : HeadsKnown logs) :
    (∀ logs' : List (List UInt8), logs'.Perm logs → ∀ sec srcip,
        (·.entry sec srcip) <$> readRoundsPerSwitchFlowInfo m logs'
          = (·.entry sec srcip) <$> readRoundsPerSwitchFlowInfo m logs)
      ↔ (∃ text ∈ logs, ¬ Readable text)
        ∨ ∀ sec srcip, MergesAlike m (logs.map (recordsOf sec srcip)) := by
  by_cases hr : ∃ text ∈ logs, ¬ Readable text
  · refine iff_of_true (fun logs' hp sec srcip => ?_) (.inl hr)
    obtain ⟨text, ht, hn⟩ := hr
    rw [readRounds_not_readable m ⟨text, ht, hn⟩,
      readRounds_not_readable m ⟨text, hp.mem_iff.2 ht, hn⟩]
  · simp only [hr, false_or]
    have hall : ∀ text ∈ logs, Readable text := by simpa using hr
    obtain ⟨rounds, hrounds, hentry⟩ := readRounds_readable m hall hh
    have hsame : ∀ logs' : List (List UInt8), logs'.Perm logs → ∀ sec srcip,
        ((·.entry sec srcip) <$> readRoundsPerSwitchFlowInfo m logs'
          = (·.entry sec srcip) <$> readRoundsPerSwitchFlowInfo m logs
        ↔ merge wakes m.newInfo m.addTo (logs'.map (recordsOf sec srcip)).flatten
          = merge wakes m.newInfo m.addTo (logs.map (recordsOf sec srcip)).flatten) := by
      intro logs' hp sec srcip
      obtain ⟨rounds', hrounds', hentry'⟩ := readRounds_readable m
        (fun text ht => hall text (hp.mem_iff.1 ht)) (hh.of_perm hp)
      rw [hrounds, hrounds', ← hentry, ← hentry']
      exact ⟨Except.ok.inj, congrArg Except.ok⟩
    simp only [mergesAlike_iff, ← Lib.merge_perm_iff]
    constructor
    · intro h sec srcip bs' hp
      have hcomp := congrFun₂ (List.eq_map_comp_perm (recordsOf sec srcip)) bs' logs
      obtain ⟨logs', rfl, hp'⟩ := hcomp.mpr hp
      exact (hsame logs' hp' sec srcip).1 (h logs' hp' sec srcip)
    · exact fun h logs' hp sec srcip => (hsame logs' hp sec srcip).2 (h sec srcip _ (hp.map _))

/-- The log of a switch that captured a flow without forwarding it in the round. -/
def capturedOnly : List UInt8 :=
  chars "=====time-1439973225000 milliseconds=====\n167772161\t0\t5\t1\t0\n"

/-- The log of a switch that forwarded and captured the flow. -/
def forwarded : List UInt8 :=
  chars "=====time-1439973225000 milliseconds=====\n167772161\t10\t3\t1\t0\n"

theorem readRounds_perm_iff_capturedOnly :
    (∀ logs' : List (List UInt8), logs'.Perm [capturedOnly, forwarded] → ∀ sec srcip,
        (·.entry sec srcip) <$> readRoundsPerSwitchFlowInfo .method3 logs'
          = (·.entry sec srcip) <$> readRoundsPerSwitchFlowInfo .method3 [capturedOnly, forwarded])
      ↔ (∃ text ∈ [capturedOnly, forwarded], ¬ Readable text)
        ∨ ∀ sec srcip, MergesAlike .method3 ([capturedOnly, forwarded].map (recordsOf sec srcip)) :=
  readRounds_perm_iff .method3 _ (.inl (by decide +kernel))

/-- Read first, the switch that did not forward the flow is ignored; read second, it counts.  The
other ten switches wrote nothing. -/
theorem capturedOnly_order :
    ([.method2, .method3].map fun m => (·.entry 1439973225 (chars "167772161")) <$>
        readRoundsPerSwitchFlowInfo m (capturedOnly :: forwarded :: List.replicate 10 []))
      = List.replicate 2 (.ok (some ⟨10, 3, 1, 0⟩))
    ∧ ([.method2, .method3].map fun m => (·.entry 1439973225 (chars "167772161")) <$>
        readRoundsPerSwitchFlowInfo m (forwarded :: capturedOnly :: List.replicate 10 []))
      = List.replicate 2 (.ok (some ⟨10, 8, 1, 0⟩)) := by
  decide +kernel

end CMTestbed
