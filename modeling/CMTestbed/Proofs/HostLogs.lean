import CMTestbed.HostLogs
import CMTestbed.Printf

/-!
# Printed lines read back

The patterns take a printed number for what it is: a run of digits ends where the number does.
-/

namespace CMTestbed

open Lib (Atom groups)

/-! ## Lines -/

/-- A text without a newline and without a carriage return. -/
def Unbroken (s : List UInt8) : Prop := 10 ∉ s ∧ 13 ∉ s

instance : DecidablePred Unbroken := fun _ => inferInstanceAs (Decidable (_ ∧ _))

@[simp] theorem unbroken_append {s t : List UInt8} :
    Unbroken (s ++ t) ↔ Unbroken s ∧ Unbroken t := by
  simp [Unbroken, and_and_and_comm]

@[simp] theorem unbroken_cons {c : UInt8} {s : List UInt8} :
    Unbroken (c :: s) ↔ (c ≠ 10 ∧ c ≠ 13) ∧ Unbroken s := by
  simp [Unbroken, and_and_and_comm, eq_comm]

@[simp] theorem unbroken_nil : Unbroken [] := by
  simp [Unbroken]

/-- One line, with its newline. -/
def IsLine (line : List UInt8) : Prop := ∃ body, line = body ++ [10] ∧ Unbroken body

theorem readlines_flatten_append {lines : List (List UInt8)} (h : ∀ line ∈ lines, IsLine line)
    (text : List UInt8) : readlines (lines.flatten ++ text) = lines ++ readlines text := by
  refine Lib.lines_universal_flatten _ (fun line hline => ?_) (fun line hline => ?_) text
  · obtain ⟨body, hbody, hunbroken⟩ := h line hline
    exact ⟨body, hbody, hunbroken.1⟩
  · obtain ⟨body, rfl, hunbroken⟩ := h line hline
    simpa using hunbroken.2

theorem readlines_flatten {lines : List (List UInt8)} (h : ∀ line ∈ lines, IsLine line) :
    readlines lines.flatten = lines := by
  have happend := readlines_flatten_append h []
  rwa [List.append_nil, show readlines [] = [] from rfl, List.append_nil] at happend

theorem readHostLines_eq (s : HostReading) (text : List UInt8) :
    readHostLines s text = ((readlines text).map parseHostLine).foldlM readHostLine s := by
  rw [readHostLines, List.foldlM_map]

/-- What is written behind whole lines is read from where their reading has got to. -/
theorem readHostLines_append {lines : List (List UInt8)} (h : ∀ line ∈ lines, IsLine line)
    (s : HostReading) (text : List UInt8) : readHostLines s (lines.flatten ++ text)
      = readHostLines s lines.flatten >>= fun s => readHostLines s text := by
  rw [readHostLines, readlines_flatten_append h, List.foldlM_append, readHostLines,
    readlines_flatten h]
  rfl

/-! ## Printed numbers -/

theorem ne_of_isdigit {c d : UInt8} (hc : isdigit c = true) (hd : isdigit d = false) : c ≠ d := by
  rintro rfl
  rw [hc] at hd
  cases hd

theorem not_mem_formatNat {c : UInt8} (hc : isdigit c = false) (n : ℕ) : c ∉ formatNat n :=
  fun h => ne_of_isdigit (isdigit_formatNat n c h) hc rfl

theorem not_mem_formatInt {c : UInt8} (hc : isdigit c = false) (hminus : c ≠ 45) (n : ℤ) :
    c ∉ formatInt n := by
  rw [formatInt]
  split_ifs
  · rw [List.mem_cons, not_or]
    exact ⟨hminus, not_mem_formatNat hc _⟩
  · exact not_mem_formatNat hc _

theorem not_mem_formatFloat {c : UInt8} (hc : isdigit c = false) (hminus : c ≠ 45)
    (hpoint : c ≠ 46) (q : ℚ) : c ∉ formatFloat q := by
  have hzero : c ≠ 48 := by
    rintro rfl
    cases hc
  have hsign : c ∉ if q < 0 then ([45] : List UInt8) else [] := by
    split_ifs
    · simpa using hminus
    · exact List.not_mem_nil
  simp only [formatFloat, List.leftpad, List.mem_append, List.mem_replicate, not_or, not_and,
    List.mem_singleton]
  exact ⟨⟨⟨hsign, not_mem_formatNat hc _⟩, hpoint⟩, fun _ => hzero, not_mem_formatNat hc _⟩

theorem unbroken_formatNat (n : ℕ) : Unbroken (formatNat n) :=
  ⟨not_mem_formatNat rfl n, not_mem_formatNat rfl n⟩

theorem unbroken_formatInt (n : ℤ) : Unbroken (formatInt n) :=
  ⟨not_mem_formatInt rfl (by decide) n, not_mem_formatInt rfl (by decide) n⟩

theorem unbroken_formatFloat (q : ℚ) : Unbroken (formatFloat q) :=
  ⟨not_mem_formatFloat rfl (by decide) (by decide) q,
    not_mem_formatFloat rfl (by decide) (by decide) q⟩

section Takes
variable {s : List UInt8}

/-- The text goes on with something that is no digit. -/
def Stops (s : List UInt8) : Prop := ∀ c, s.head? = some c → isdigit c = false

theorem stops_cons {c : UInt8} (h : isdigit c = false) (s : List UInt8) : Stops (c :: s) := by
  rintro _ ⟨⟩
  exact h

theorem digitsPart_takes (n : ℕ) (hs : Stops s) : digitsPart.Takes (formatNat n) s :=
  Lib.Part.takes_plus (formatNat_ne_nil n) (isdigit_formatNat n) hs

theorem head?_formatNat_append (n : ℕ) (s : List UInt8) :
    ∃ c, (formatNat n ++ s).head? = some c ∧ isdigit c = true := by
  obtain ⟨c, rest, hc⟩ := List.exists_cons_of_ne_nil (formatNat_ne_nil n)
  refine ⟨c, by rw [hc]; rfl, isdigit_formatNat n c ?_⟩
  rw [hc]
  exact List.mem_cons_self

theorem signedPart_takes (n : ℤ) (hs : Stops s) : signedPart.Takes (formatInt n) s := by
  have hdigits : ∀ m, (Lib.atomsMatches [.plus isdigit] (formatNat m ++ s)).head?
      = some (formatNat m, s) := fun m => digitsPart_takes m hs
  have hsign : ∀ m c, (formatNat m ++ s).head? = some c → decide (c = 45) = false := by
    intro m c hc
    obtain ⟨d, hd, hdigit⟩ := head?_formatNat_append m s
    rw [hd, Option.some.injEq] at hc
    exact decide_eq_false (hc ▸ ne_of_isdigit hdigit rfl)
  rw [formatInt]
  split_ifs
  · have hstar : ((Lib.Atom.star (· = 45)).matches ([45] ++ (formatNat n.natAbs ++ s))).head?
        = some ([45], formatNat n.natAbs ++ s) := Lib.head?_matches_star (by simp) (hsign _)
    exact Lib.head?_atomsMatches_cons hstar (hdigits _)
  · have hstar : ((Lib.Atom.star (· = 45)).matches ([] ++ (formatNat n.natAbs ++ s))).head?
        = some ([], formatNat n.natAbs ++ s) := Lib.head?_matches_star (by simp) (hsign _)
    exact Lib.head?_atomsMatches_cons hstar (hdigits _)

theorem pointPart_takes {q : ℚ} (h : 0 ≤ q) (hs : Stops s) : pointPart.Takes (formatFloat q) s := by
  obtain ⟨whole, decimals, hq, hwhole, hwhole', hdecimals, hdecimals'⟩ := formatFloat_of_nonneg h
  have hlast : (Lib.atomsMatches [.plus isdigit] (decimals ++ s)).head? = some (decimals, s) :=
    Lib.Part.takes_plus hdecimals hdecimals' hs
  have hpoint : ((Atom.one fun c : UInt8 => decide (c ≠ 10)).matches (46 :: (decimals ++ s))).head?
      = some ([46], decimals ++ s) := rfl
  have hfirst := Lib.head?_matches_plus (p := isdigit) (s := 46 :: (decimals ++ s)) hwhole hwhole'
    (stops_cons rfl _)
  rw [hq]
  unfold Lib.Part.Takes
  rw [List.append_assoc, List.cons_append]
  exact Lib.head?_atomsMatches_cons hfirst (Lib.head?_atomsMatches_cons hpoint hlast)

end Takes

/-! ## What the lines are taken for -/

/-- A line that starts with something else than a digit or an equals sign. -/
theorem parseHostLine_other {line : List UInt8} (hequals : line.head? ≠ some 61)
    (hdigit : Stops line) : parseHostLine line = .other := by
  have hstart : chars "=====time-" = 61 :: chars "====time-" := by decide +kernel
  have hround : groups roundStartPattern line = none := by
    rw [roundStartPattern, hstart]
    exact Lib.groups_literal_eq_none hequals
  have hflow : groups targetFlowPattern line = none :=
    Lib.groups_cons_eq_none (Lib.atomsMatches_cons_eq_nil (Lib.matches_plus_eq_nil hdigit) _)
  rw [parseHostLine, hround, hflow]

theorem parseHostLine_round (msec : ℕ) :
    parseHostLine (chars "=====time-" ++ formatNat msec ++ chars " milliseconds=====\n")
      = .round msec := by
  have hend :
      Lib.Part.Takes (.literal (chars " milliseconds=====")) (chars " milliseconds=====") [10] :=
    Lib.Part.takes_literal _ _
  have hgroups : groups roundStartPattern (chars "=====time-"
      ++ (formatNat msec ++ (chars " milliseconds=====" ++ [10]))) = some [formatNat msec] := by
    refine Lib.groups_cons (Lib.Part.takes_literal _ _) (Lib.groups_cons (digitsPart_takes msec ?_)
      (Lib.groups_cons hend (Lib.groups_nil _)))
    rw [show chars " milliseconds=====" = 32 :: chars "milliseconds=====" by decide +kernel]
    exact stops_cons rfl _
  have htext : chars " milliseconds=====\n" = chars " milliseconds=====" ++ [10] := by
    decide +kernel
  rw [htext, List.append_assoc, parseHostLine, hgroups]
  simp

/-- The numbers of a row. -/
structure PrintedRow where
  srcip : ℕ
  dstip : ℕ
  volume : ℕ
  lossRate : ℚ
  lossVolume : ℤ
  notSampledVolume : ℤ
  sentOut : ℤ

namespace PrintedRow

variable (r : PrintedRow)

def text : List UInt8 :=
  formatNat r.srcip ++ [9] ++ formatNat r.dstip ++ [9] ++ formatNat r.volume ++ [9]
    ++ formatFloat r.lossRate ++ [9] ++ formatInt r.lossVolume ++ [9]
    ++ formatInt r.notSampledVolume ++ [9] ++ formatInt r.sentOut ++ [10]

/-- The groups of the row. -/
def groups : TargetFlowRow where
  srcip := formatNat r.srcip
  dstip := formatNat r.dstip
  volume := formatNat r.volume
  lossRate := formatFloat r.lossRate
  lossVolume := formatInt r.lossVolume
  notSampledVolume := formatInt r.notSampledVolume

theorem parseHostLine_text (hrate : 0 ≤ r.lossRate) : parseHostLine r.text = .flow r.groups := by
  have htab : ∀ s, tabPart.Takes [9] s := fun s => Lib.Part.takes_literal _ s
  have hround : Lib.groups roundStartPattern r.text = none := by
    have hstart : chars "=====time-" = 61 :: chars "====time-" := by decide +kernel
    obtain ⟨c, rest, hc⟩ := List.exists_cons_of_ne_nil (formatNat_ne_nil r.srcip)
    have hdigit := isdigit_formatNat r.srcip c (by rw [hc]; exact List.mem_cons_self)
    rw [roundStartPattern, hstart, text, hc]
    exact Lib.groups_literal_eq_none fun h => ne_of_isdigit hdigit rfl (Option.some.inj h)
  have hflow : Lib.groups targetFlowPattern r.text
      = some [formatNat r.srcip, formatNat r.dstip, formatNat r.volume, formatFloat r.lossRate,
        formatInt r.lossVolume, formatInt r.notSampledVolume, formatInt r.sentOut] := by
    simp only [text, List.append_assoc]
    refine Lib.groups_cons (digitsPart_takes _ (stops_cons rfl _)) ?_
    refine Lib.groups_cons (htab _) (Lib.groups_cons (digitsPart_takes _ (stops_cons rfl _)) ?_)
    refine Lib.groups_cons (htab _) (Lib.groups_cons (digitsPart_takes _ (stops_cons rfl _)) ?_)
    refine Lib.groups_cons (htab _) (Lib.groups_cons (pointPart_takes hrate (stops_cons rfl _)) ?_)
    refine Lib.groups_cons (htab _) (Lib.groups_cons (signedPart_takes _ (stops_cons rfl _)) ?_)
    refine Lib.groups_cons (htab _) (Lib.groups_cons (signedPart_takes _ (stops_cons rfl _)) ?_)
    exact Lib.groups_cons (htab _) (Lib.groups_cons (signedPart_takes _ (stops_cons rfl _)) rfl)
  rw [parseHostLine, hround, hflow]
  rfl

theorem isLine_text : IsLine r.text := by
  exact ⟨_, rfl, by simp [unbroken_formatNat, unbroken_formatInt, unbroken_formatFloat]⟩

/-- What the row is stored under. -/
def key : List UInt8 := srcipDstipKey (formatNat r.srcip) (formatNat r.dstip)

/-- What is stored. -/
def stored : HostTargetFlowInfo :=
  .init (formatNat r.srcip) (formatNat r.dstip) (formatNat r.volume) (formatInt r.lossVolume)
    (formatFloat r.lossRate)

end PrintedRow

/-- A key tells the flow. -/
theorem srcipDstipKey_inj {a b a' b' : ℕ}
    (h : srcipDstipKey (formatNat a) (formatNat b) = srcipDstipKey (formatNat a') (formatNat b')) :
    a = a' ∧ b = b' := by
  have htake : ∀ m n, (srcipDstipKey (formatNat m) (formatNat n)).takeWhile isdigit
      = formatNat m := by
    intro m n
    rw [srcipDstipKey, List.append_assoc, List.takeWhile_append_of_pos (isdigit_formatNat m)]
    simp [show isdigit 95 = false from rfl]
  have ha := congrArg (List.takeWhile isdigit) h
  rw [htake, htake] at ha
  obtain rfl := formatNat_inj ha
  rw [srcipDstipKey, srcipDstipKey, List.append_cancel_left_eq] at h
  exact ⟨rfl, formatNat_inj h⟩

/-! ## Reading rows -/

/-- `int(s)` of digits. -/
theorem pyInt_of_isdigit {s : List UInt8} (hne : s ≠ []) (hs : ∀ c ∈ s, isdigit c = true) :
    pyInt s = .ok (digits s : ℤ) := by
  obtain ⟨c, rest, rfl⟩ := List.exists_cons_of_ne_nil hne
  have hminus : c ≠ 45 := ne_of_isdigit (hs c List.mem_cons_self) rfl
  have hplus : c ≠ 43 := ne_of_isdigit (hs c List.mem_cons_self) rfl
  unfold pyInt
  split
  · next h => exact absurd (List.cons.inj h).1 hminus
  · next h => exact absurd (List.cons.inj h).1 hplus
  · rw [if_pos ⟨hne, List.all_eq_true.2 hs⟩]

@[simp] theorem pyInt_formatNat (n : ℕ) : pyInt (formatNat n) = .ok (n : ℤ) := by
  rw [pyInt_of_isdigit (formatNat_ne_nil n) (isdigit_formatNat n), digits_formatNat]

@[simp] theorem pyInt_formatInt (n : ℤ) : pyInt (formatInt n) = .ok n := by
  rw [formatInt]
  split_ifs with hn
  · have hall : (formatNat n.natAbs).all isdigit = true :=
      List.all_eq_true.2 (isdigit_formatNat _)
    rw [pyInt, if_pos ⟨formatNat_ne_nil _, hall⟩, digits_formatNat]
    congr 1
    omega
  · rw [pyInt_formatNat]
    congr 1
    omega

theorem formatInt_inj {m n : ℤ} (h : formatInt m = formatInt n) : m = n := by
  have hint := pyInt_formatInt m
  rw [h, pyInt_formatInt] at hint
  exact (Except.ok.inj hint).symm

theorem formatNat_eq_formatInt (n : ℕ) : formatNat n = formatInt n := by
  rw [formatInt_of_nonneg (Int.natCast_nonneg n), Int.toNat_natCast]

/-- A row's numbers added to the totals. -/
def HostTotals.plus (totals : HostTotals) (r : PrintedRow) : HostTotals where
  rawHostSampleSwitchHoldAccuracy :=
    totals.rawHostSampleSwitchHoldAccuracy + (1 - r.notSampledVolume / r.volume)
  rawHostSampleSwitchHoldAccuracyCnt := totals.rawHostSampleSwitchHoldAccuracyCnt + 1
  notSampleFlowNum := totals.notSampleFlowNum + if r.notSampledVolume = r.volume then 1 else 0

theorem HostTotals.add_groups (totals : HostTotals) (r : PrintedRow) :
    totals.add r.groups.volume r.groups.notSampledVolume
      = if r.volume = 0 then .error .zeroDivisionError else .ok (totals.plus r) := by
  have hsame : formatInt r.notSampledVolume = formatNat r.volume
      ↔ r.notSampledVolume = r.volume := by
    rw [formatNat_eq_formatInt]
    exact ⟨formatInt_inj, congrArg formatInt⟩
  simp only [HostTotals.add, PrintedRow.groups, pyInt_formatInt, pyInt_formatNat, hsame, plus]
  simp [bind, Except.bind]

/-- The rows of a round, each stored under its own key. -/
theorem readRows {rows : List PrintedRow} {s : HostReading}
    (hround : s.curRoundSec ∈ s.roundsTargetFlowsMap) (hvolume : ∀ r ∈ rows, r.volume ≠ 0)
    (hkeys : (rows.map PrintedRow.key).Nodup) :
    ∃ s', rows.foldlM (fun s r => readHostLine s (.flow r.groups)) s = .ok s'
      ∧ s'.curRoundSec = s.curRoundSec ∧ s'.totals = rows.foldl HostTotals.plus s.totals
      ∧ (∀ r ∈ rows, s'.roundsTargetFlowsMap.entry s.curRoundSec r.key = some r.stored)
      ∧ ∀ sec key, (sec = s.curRoundSec → key ∉ rows.map PrintedRow.key) →
        s'.roundsTargetFlowsMap.entry sec key = s.roundsTargetFlowsMap.entry sec key := by
  induction rows generalizing s with
  | nil => exact ⟨s, rfl, rfl, rfl, by simp, fun _ _ _ => rfl⟩
  | cons r rows ih =>
    rw [List.forall_mem_cons] at hvolume
    rw [List.map_cons, List.nodup_cons] at hkeys
    obtain ⟨oneRound, hlookup⟩ := Option.isSome_iff_exists.1 (AList.lookup_isSome.2 hround)
    let s₁ : HostReading := { s with
      roundsTargetFlowsMap :=
        AList.insert s.curRoundSec (AList.insert r.key r.stored oneRound) s.roundsTargetFlowsMap
      totals := s.totals.plus r }
    have hread : readHostLine s (.flow r.groups) = .ok s₁ := by
      simp only [readHostLine, HostTotals.add_groups, if_neg hvolume.1, Dict.getItem, hlookup]
      rfl
    have hentry := Dict.entry_insert hlookup r.key r.stored
    obtain ⟨s', hs', hcur, htotals, hstored, hother⟩ :=
      ih (s := s₁) ((AList.mem_insert _).2 (.inl rfl)) hvolume.2 hkeys.2
    refine ⟨s', by rw [List.foldlM_cons, hread]; exact hs', hcur, htotals, ?_, ?_⟩
    · rw [List.forall_mem_cons]
      refine ⟨?_, hstored⟩
      rw [hother _ _ fun _ => hkeys.1, hentry, if_pos ⟨rfl, rfl⟩]
    · intro sec key hkey
      rw [List.map_cons] at hkey
      rw [hother _ _ fun h h' => hkey h (List.mem_cons_of_mem _ h'), hentry, if_neg]
      rintro ⟨rfl, rfl⟩
      exact hkey rfl List.mem_cons_self

end CMTestbed
