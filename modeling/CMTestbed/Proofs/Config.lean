import CMTestbed.Config
import CMTestbed.Printf
import CMTestbed.Proofs.Splitting

/-!
# Which settings a rewriting reaches

The script finds a rate by a pattern with a decimal point, and every key in a line without its last
character.  Where that fails, the line keeps its value, or a part of it.
-/

namespace CMTestbed.Config

open Lib (atomsMatches atomsMatches_cons_ne_nil mem_plus isSome_groups_literal)

variable {k k' : Key} {line value text : List UInt8} {newline : Bool}

section Names

/-- The keys, once each. -/
def keys : List Key :=
  ([.intervalMsecLen, .conditionMsecFreq, .replacement, .switchMemType, .switchMemoryTimes,
    .switchDropRate, .hostOrSwitchSample, .injectOrTagPacket, .targetFlowVolume,
    .targetFlowLossRate, .targetFlowLossVolume, .selectedLossVolumeThreshold,
    .targetFlowVolumeInSampling, .senderLossMapMemType, .fixLossMapBucketSize] : List Key)
    ++ (List.finRange 12).map .switchIntervalVolume

theorem mem_keys (k : Key) : k ∈ keys := by
  cases k with
  | switchIntervalVolume i =>
    exact List.mem_append_right _ (List.mem_map_of_mem (List.mem_finRange i))
  | _ => exact List.mem_append_left _ (by decide)

theorem names_checked : (keys.map Key.name).Nodup ∧ ∀ name ∈ keys.map Key.name,
    name ≠ [] ∧ 58 ∉ name ∧ 0 ∉ name ∧ name.head? ≠ some 35 := by
  decide +kernel

theorem mem_names (k : Key) : k.name ∈ keys.map Key.name := List.mem_map_of_mem (mem_keys k)

theorem Key.name_ne_nil (k : Key) : k.name ≠ [] := (names_checked.2 _ (mem_names k)).1

theorem Key.colon_not_mem (k : Key) : 58 ∉ k.name := (names_checked.2 _ (mem_names k)).2.1

theorem Key.zero_not_mem (k : Key) : 0 ∉ k.name := (names_checked.2 _ (mem_names k)).2.2.1

theorem Key.head_name (k : Key) : k.name.head? ≠ some 35 :=
  (names_checked.2 _ (mem_names k)).2.2.2

theorem Key.name_injective : Function.Injective Key.name := fun k k' h =>
  List.inj_on_of_nodup_map names_checked.1 (mem_keys k) (mem_keys k') h

/-- A line starts with the label of one key only. -/
theorem label_unique (h : k.label <+: line) (h' : k'.label <+: line) : k = k' := by
  have htake : ∀ {k : Key}, k.label <+: line → line.takeWhile (· ≠ 58) = k.name := by
    rintro k ⟨rest, rfl⟩
    have hname : ∀ c ∈ k.name, (decide (c ≠ 58)) = true := by
      intro c hc
      rw [decide_eq_true_iff]
      rintro rfl
      exact k.colon_not_mem hc
    rw [Key.label, List.append_assoc, List.takeWhile_append_of_pos hname,
      List.singleton_append, List.takeWhile_cons_of_neg (by simp), List.append_nil]
  exact Key.name_injective ((htake h).symm.trans (htake h'))

theorem nodup_writtenKeys : writtenKeys.Nodup := by decide

end Names

section Forms

theorem isdigit_ne {c d : UInt8} (hc : isdigit c = true) (hd : isdigit d = false) : c ≠ d := by
  rintro rfl
  rw [hc] at hd
  cases hd

theorem IsInteger.not_mem {d : UInt8} (h : IsInteger text) (hd : isdigit d = false) : d ∉ text :=
  fun hmem => isdigit_ne (h.2 d hmem) hd rfl

theorem digits_found : atomsMatches [.plus isdigit] text ≠ []
    ↔ ∃ c rest, text = c :: rest ∧ isdigit c = true := by
  rw [atomsMatches_cons_ne_nil]
  constructor
  · rintro ⟨⟨run, rest⟩, hmem, -⟩
    obtain ⟨hne, rfl, hrun⟩ := mem_plus.1 hmem
    obtain ⟨c, run, rfl⟩ := List.exists_cons_of_ne_nil hne
    exact ⟨c, run ++ rest, rfl, hrun c List.mem_cons_self⟩
  · rintro ⟨c, rest, rfl, hc⟩
    refine ⟨([c], rest), mem_plus.2 ⟨List.cons_ne_nil _ _, rfl, ?_⟩, List.cons_ne_nil _ _⟩
    rwa [List.forall_mem_singleton]

theorem fraction_found :
    atomsMatches [.plus isdigit, .one (· = 46), .plus isdigit] text ≠ []
      ↔ ∃ whole frac rest, IsInteger whole ∧ IsInteger frac
        ∧ text = whole ++ 46 :: (frac ++ rest) := by
  rw [atomsMatches_cons_ne_nil]
  constructor
  · rintro ⟨⟨whole, rest⟩, hmem, h⟩
    obtain ⟨hne, rfl, hwhole⟩ := mem_plus.1 hmem
    obtain ⟨r, hr, h⟩ := atomsMatches_cons_ne_nil.1 h
    cases rest with
    | nil => cases hr
    | cons c rest =>
      by_cases hc : c = 46
      · subst hc
        have hr : r = ([46], rest) := by simpa [Lib.Atom.matches] using hr
        subst hr
        obtain ⟨⟨frac, rest⟩, hmem, -⟩ := atomsMatches_cons_ne_nil.1 h
        obtain ⟨hne', hsplit, hfrac⟩ := mem_plus.1 hmem
        exact ⟨whole, frac, rest, ⟨hne, hwhole⟩, ⟨hne', hfrac⟩, by rw [hsplit]⟩
      · simp [Lib.Atom.matches, hc] at hr
  · rintro ⟨whole, frac, rest, hwhole, hfrac, rfl⟩
    refine ⟨(whole, 46 :: (frac ++ rest)), mem_plus.2 ⟨hwhole.1, rfl, hwhole.2⟩, ?_⟩
    refine atomsMatches_cons_ne_nil.2 ⟨([46], frac ++ rest), by simp [Lib.Atom.matches], ?_⟩
    exact atomsMatches_cons_ne_nil.2
      ⟨(frac, rest), mem_plus.2 ⟨hfrac.1, rfl, hfrac.2⟩, List.cons_ne_nil _ _⟩

/-- Before a decimal ends, the fraction in it does not. -/
theorem isFraction_of_isPrefix (hvalue : IsDecimal value) (hpre : text <+: value) :
    (∃ whole frac rest, IsInteger whole ∧ IsInteger frac ∧ text = whole ++ 46 :: (frac ++ rest))
      ↔ IsFraction text := by
  constructor
  · rintro ⟨whole, frac, rest, hwhole, hfrac, rfl⟩
    obtain ⟨tail, rfl⟩ := hpre
    have hpoint : isdigit 46 = false := by decide
    rcases hvalue with hint | ⟨whole', frac', hwhole', hfrac', heq⟩
    · exact absurd (by simp) (hint.not_mem hpoint)
    · rw [List.append_assoc, List.cons_append] at heq
      obtain ⟨-, -, heq⟩ := (List.append_cons_inj_of_notMem (hwhole'.not_mem hpoint)
        (hfrac'.not_mem hpoint)).1 heq.symm
      refine ⟨whole, frac ++ rest, hwhole, ⟨by simp [hfrac.1], fun c hc => ?_⟩, rfl⟩
      refine hfrac'.2 c ?_
      rw [heq]
      exact List.mem_append_left _ hc
  · rintro ⟨whole, frac, hwhole, hfrac, rfl⟩
    exact ⟨whole, frac, [], hwhole, hfrac, by rw [List.append_nil]⟩

theorem cutValue_isPrefix (value : List UInt8) (newline : Bool) :
    cutValue value newline <+: value := by
  unfold cutValue
  split
  · exact List.prefix_rfl
  · exact List.dropLast_prefix value

theorem IsDecimal.exists_head (h : IsDecimal value) :
    ∃ c rest, value = c :: rest ∧ isdigit c = true := by
  rcases h with hint | ⟨whole, frac, hwhole, -, rfl⟩
  · obtain ⟨c, rest, rfl⟩ := List.exists_cons_of_ne_nil hint.1
    exact ⟨c, rest, rfl, hint.2 c List.mem_cons_self⟩
  · obtain ⟨c, rest, rfl⟩ := List.exists_cons_of_ne_nil hwhole.1
    exact ⟨c, rest ++ 46 :: frac, rfl, hwhole.2 c List.mem_cons_self⟩

theorem IsDecimal.ne_nil (h : IsDecimal value) : value ≠ [] := by
  obtain ⟨c, rest, rfl, -⟩ := h.exists_head
  exact List.cons_ne_nil c rest

theorem found_label (k : Key) (text : List UInt8) :
    k.Found (k.label ++ text) ↔ atomsMatches k.form.atoms text ≠ [] := by
  rw [Key.Found, Key.pattern, isSome_groups_literal, List.drop_left,
    and_iff_right (List.prefix_append _ _)]

theorem Key.Found.label (h : k.Found line) : k.label <+: line := (isSome_groups_literal.1 h).1

/-- The script finds a key where its form is there before the last character. -/
theorem found_iff (hvalue : IsDecimal value) (k : Key) (newline : Bool) :
    k.Found (k.label ++ cutValue value newline) ↔ k.Recognises value newline := by
  have hpre := cutValue_isPrefix value newline
  have hfraction := fraction_found.trans (isFraction_of_isPrefix hvalue hpre)
  have hdigits : atomsMatches [.plus isdigit] (cutValue value newline) ≠ []
      ↔ cutValue value newline ≠ [] := by
    obtain ⟨c, rest, rfl, hc⟩ := hvalue.exists_head
    rw [digits_found]
    constructor
    · rintro ⟨d, rest', h, -⟩
      rw [h]
      exact List.cons_ne_nil _ _
    · intro hne
      obtain ⟨d, rest', h⟩ := List.exists_cons_of_ne_nil hne
      rw [h, List.cons_prefix_cons] at hpre
      exact ⟨d, rest', h, hpre.1 ▸ hc⟩
  rw [found_label]
  cases k with
  | switchDropRate => exact hfraction
  | targetFlowLossRate => exact hfraction
  | _ => exact hdigits

theorem dropLast_lineOf (hvalue : value ≠ []) :
    (lineOf k value newline).dropLast = k.label ++ cutValue value newline := by
  cases newline with
  | true => exact List.dropLast_concat
  | false =>
    rw [lineOf, if_neg (by decide), List.append_nil, List.dropLast_append_of_ne_nil hvalue]
    rfl

end Forms

section Writer
variable {args : Key → List UInt8} {file : List (List UInt8)} {ops : List (Key × List UInt8)}

/-- What the script has `sed` look for, and for which keys. -/
def substitutions (file : List (List UInt8)) : List (Key × List UInt8) :=
  file.flatMap fun line =>
    (writtenKeys.filter fun k => k.Found line.dropLast).map fun k => (k, line.dropLast)

def rewriteLine (args : Key → List UInt8) (ops : List (Key × List UInt8)) (line : List UInt8) :
    List UInt8 :=
  ops.foldl (fun line op => substitute op.2 (op.1.label ++ args op.1) line) line

theorem rewriteLine_append (ops ops' : List (Key × List UInt8)) (line : List UInt8) :
    rewriteLine args (ops ++ ops') line = rewriteLine args ops' (rewriteLine args ops line) :=
  List.foldl_append

/-- The file is rewritten line by line. -/
theorem configExperimentSettingFile_eq : configExperimentSettingFile args file
    = file.map (rewriteLine args (substitutions file)) := by
  have hkeys : ∀ (line : List UInt8) (ks : List Key) (file : List (List UInt8)),
      ks.foldl (fun file k =>
          if k.Found line then sed line (k.label ++ args k) file else file) file
        = file.map (rewriteLine args
          ((ks.filter fun k => k.Found line).map fun k => (k, line))) := by
    intro line ks
    induction ks with
    | nil => exact fun file => (List.map_id file).symm
    | cons k ks ih =>
      intro file
      rw [List.foldl_cons, ih, List.filter_cons]
      by_cases hk : k.Found line
      · rw [if_pos hk, if_pos (decide_eq_true hk), sed, List.map_map]
        rfl
      · rw [if_neg hk, if_neg (by simpa using hk)]
  have hlines : ∀ (lines file : List (List UInt8)),
      (lines.map List.dropLast).foldl (fun file line => writtenKeys.foldl (fun file k =>
          if k.Found line then sed line (k.label ++ args k) file else file) file) file
        = file.map (rewriteLine args (substitutions lines)) := by
    intro lines
    induction lines with
    | nil => exact fun file => (List.map_id file).symm
    | cons line lines ih =>
      intro file
      rw [List.map_cons, List.foldl_cons, hkeys, ih, List.map_map]
      exact List.map_congr_left fun line' _ => (rewriteLine_append _ _ line').symm
  exact hlines file file

theorem substitute_of_not_isPrefix {old new : List UInt8} (h : ¬ old <+: line) :
    substitute old new line = line := if_neg h

theorem substitute_append (old new rest : List UInt8) :
    substitute old new (old ++ rest) = new ++ rest := by
  rw [substitute, if_pos (List.prefix_append _ _), List.drop_left]

theorem rewriteLine_of_not_isPrefix (h : ∀ op ∈ ops, ¬ op.2 <+: line) :
    rewriteLine args ops line = line := by
  induction ops with
  | nil => rfl
  | cons op ops ih =>
    rw [List.forall_mem_cons] at h
    change rewriteLine args ops (substitute _ _ line) = line
    rw [substitute_of_not_isPrefix h.1, ih h.2]

/-- What is looked for starts with the label of its key, in a line of the file. -/
theorem mem_substitutions {op : Key × List UInt8} (h : op ∈ substitutions file) :
    op.1 ∈ writtenKeys ∧ op.1.label <+: op.2 ∧ ∃ line ∈ file, op.1.label <+: line := by
  obtain ⟨line, hline, hop⟩ := List.mem_flatMap.1 h
  obtain ⟨k, hk, rfl⟩ := List.mem_map.1 hop
  obtain ⟨hmem, hfound⟩ := List.mem_filter.1 hk
  have hlabel := Key.Found.label (of_decide_eq_true hfound)
  exact ⟨hmem, hlabel, line, hline, hlabel.trans (List.dropLast_prefix line)⟩

/-- A line without a key that is written stays. -/
theorem rewriteLine_of_not_label (h : ∀ k ∈ writtenKeys, ¬ k.label <+: line) :
    rewriteLine args (substitutions file) line = line := by
  refine rewriteLine_of_not_isPrefix fun op hop hpre => ?_
  obtain ⟨hmem, hlabel, -⟩ := mem_substitutions hop
  exact h op.1 hmem (hlabel.trans hpre)

/-- Where no line has the key, the lines of the key stay. -/
theorem rewriteLine_of_label (hfile : ∀ line ∈ file, ¬ k.label <+: line) (h : k.label <+: line) :
    rewriteLine args (substitutions file) line = line := by
  refine rewriteLine_of_not_isPrefix fun op hop hpre => ?_
  obtain ⟨-, hlabel, line', hline', hlabel'⟩ := mem_substitutions hop
  obtain rfl := label_unique (hlabel.trans hpre) h
  exact hfile line' hline' hlabel'

theorem label_prefix_lineOf (k : Key) (value : List UInt8) (newline : Bool) :
    k.label <+: lineOf k value newline := by
  rw [lineOf, List.append_assoc]
  exact List.prefix_append _ _

/-- The value that the script leaves behind a key. -/
def leftValue (k : Key) (value : List UInt8) (newline : Bool) (arg : List UInt8) : List UInt8 :=
  if k.Found (k.label ++ cutValue value newline) then
    arg ++ value.drop (cutValue value newline).length
  else value

/-- In its own line, a key is looked for once or not at all. -/
theorem filter_found (hk : k ∈ writtenKeys) (text : List UInt8) :
    (writtenKeys.filter fun k' => k'.Found (k.label ++ text))
      = if k.Found (k.label ++ text) then [k] else [] := by
  have hkey : ∀ k', k'.Found (k.label ++ text) → k' = k := fun k' hfound =>
    label_unique hfound.label (List.prefix_append _ _)
  split_ifs with hfound
  · have hcongr : ∀ k' ∈ writtenKeys, decide (k'.Found (k.label ++ text)) = (k' == k) := by
      intro k' _
      by_cases hk' : k' = k
      · rw [hk', beq_self_eq_true, decide_eq_true hfound]
      · rw [beq_eq_false_iff_ne.2 hk', decide_eq_false fun h => hk' (hkey k' h)]
    rw [List.filter_congr hcongr, List.filter_beq, List.count_eq_one_of_mem nodup_writtenKeys hk]
    rfl
  · refine List.filter_eq_nil_iff.2 fun k' _ h => hfound ?_
    obtain rfl := hkey k' (of_decide_eq_true h)
    exact of_decide_eq_true h

theorem rewriteLine_lineOf (args : Key → List UInt8) (hk : k ∈ writtenKeys)
    (hvalue : IsDecimal value) (honly : OnOneLine file k value newline) :
    rewriteLine args (substitutions file) (lineOf k value newline)
      = lineOf k (leftValue k value newline (args k)) newline := by
  obtain ⟨pre, post, rfl, hothers⟩ := honly
  have hpre : ∀ line ∈ pre, ¬ k.label <+: line := fun line h =>
    hothers line (List.mem_append_left _ h)
  have hpost : ∀ line ∈ post, ¬ k.label <+: line := fun line h =>
    hothers line (List.mem_append_right _ h)
  have hsplit : substitutions (pre ++ lineOf k value newline :: post)
      = substitutions pre ++ ((if k.Found (k.label ++ cutValue value newline)
          then [(k, k.label ++ cutValue value newline)] else []) ++ substitutions post) := by
    rw [substitutions, List.flatMap_append, List.flatMap_cons, dropLast_lineOf hvalue.ne_nil,
      filter_found hk, apply_ite (List.map _)]
    rfl
  rw [hsplit, rewriteLine_append, rewriteLine_append,
    rewriteLine_of_label hpre (label_prefix_lineOf k value newline), leftValue]
  split_ifs with hfound
  · have hline : lineOf k value newline = k.label ++ cutValue value newline
        ++ (value.drop (cutValue value newline).length ++ if newline then [10] else []) := by
      rw [lineOf, List.append_assoc, List.append_assoc, ← List.append_assoc (cutValue _ _),
        ← List.prefix_append_drop (cutValue_isPrefix value newline)]
    have hown : rewriteLine args [(k, k.label ++ cutValue value newline)] (lineOf k value newline)
        = lineOf k (args k ++ value.drop (cutValue value newline).length) newline := by
      rw [hline]
      change substitute _ _ _ = _
      rw [substitute_append, lineOf]
      simp only [List.append_assoc]
    rw [hown, rewriteLine_of_label hpost (label_prefix_lineOf _ _ _)]
  · exact rewriteLine_of_label hpost (label_prefix_lineOf _ _ _)

end Writer

section Texts
variable {F : Type}

theorem dropWhile_isdigit (h : IsInteger text) (rest : List UInt8) :
    (text ++ rest).dropWhile isdigit = rest.dropWhile isdigit :=
  List.dropWhile_append_of_pos h.2

theorem takeWhile_isdigit (h : IsInteger text) : text.takeWhile isdigit = text :=
  List.takeWhile_eq_self_iff.2 h.2

/-- A newline does not change what a decimal is read as. -/
theorem magnitude_append_newline (h : IsDecimal value) :
    magnitude (value ++ [10]) = magnitude value := by
  have hdigits := digits_append_newline
  rcases h with hint | ⟨whole, frac, hwhole, hfrac, rfl⟩
  · have hrest : value.dropWhile isdigit = [] := by simpa using dropWhile_isdigit hint []
    have hrest' : (value ++ [10]).dropWhile isdigit = [10] := dropWhile_isdigit hint [10]
    simp only [magnitude, decimal, hrest, hrest', hdigits]
    rfl
  · have hrest : (whole ++ 46 :: frac).dropWhile isdigit = 46 :: frac :=
      dropWhile_isdigit hwhole _
    have hrest' : (whole ++ 46 :: (frac ++ [10])).dropWhile isdigit = 46 :: (frac ++ [10]) :=
      dropWhile_isdigit hwhole _
    have hfrac₁ : frac.dropWhile isdigit = [] := by simpa using dropWhile_isdigit hfrac []
    have hfrac₂ : (frac ++ [10]).dropWhile isdigit = [10] := dropWhile_isdigit hfrac [10]
    have hwhole' := hdigits (whole ++ 46 :: frac)
    rw [List.append_assoc, List.cons_append] at hwhole' ⊢
    simp only [magnitude, decimal, hrest, hrest', hfrac₁, hfrac₂, hdigits, hwhole',
      takeWhile_isdigit_newline]
    rfl

theorem strtof_of_isdigit {round : ℚ → F} {c : UInt8} {rest : List UInt8} (hc : isdigit c = true) :
    strtof round (c :: rest) = round (magnitude (c :: rest)) := by
  rw [strtof, List.dropWhile_cons_of_neg (not_isspace_of_isdigit hc)]
  split
  · next h => cases h; cases hc
  · next h => cases h; cases hc
  · rfl

theorem convert_append_newline (round : ℚ → F) (k : Key) (h : IsDecimal value) :
    k.convert round (value ++ [10]) = k.convert round value := by
  have hmagnitude := magnitude_append_newline h
  obtain ⟨c, rest, rfl, hc⟩ := h.exists_head
  have hstrtof : strtof round (c :: rest ++ [10]) = strtof round (c :: rest) := by
    rw [List.cons_append] at hmagnitude ⊢
    rw [strtof_of_isdigit hc, strtof_of_isdigit hc, hmagnitude]
  have hstrtol : strtol (c :: rest ++ [10]) = strtol (c :: rest) := by
    have hdigits := digits_append_newline (c :: rest)
    rw [List.cons_append] at hdigits ⊢
    rw [strtol_of_isdigit hc, strtol_of_isdigit hc, hdigits]
  cases k <;> simp only [Key.convert, hstrtof, hstrtol]

theorem IsInteger.concat {c : UInt8} (h : IsInteger text) (hc : isdigit c = true) :
    IsInteger (text ++ [c]) := by
  refine ⟨by simp, fun d hd => ?_⟩
  rcases List.mem_append.1 hd with hd | hd
  · exact h.2 d hd
  · rwa [List.mem_singleton.1 hd]

theorem IsDecimal.concat {c : UInt8} (h : IsDecimal text) (hc : isdigit c = true) :
    IsDecimal (text ++ [c]) := by
  rcases h with hint | ⟨whole, frac, hwhole, hfrac, rfl⟩
  · exact .inl (hint.concat hc)
  · exact .inr ⟨whole, frac ++ [c], hwhole, hfrac.concat hc, by simp⟩

/-- The last character of a decimal is a digit. -/
theorem IsDecimal.exists_last (h : IsDecimal value) :
    ∃ init c, value = init ++ [c] ∧ isdigit c = true := by
  have hlast : ∀ {text : List UInt8}, IsInteger text →
      ∃ init c, text = init ++ [c] ∧ isdigit c = true := by
    intro text hint
    refine ⟨text.dropLast, text.getLast hint.1, ?_, hint.2 _ (List.getLast_mem hint.1)⟩
    exact (List.dropLast_append_getLast hint.1).symm
  rcases h with hint | ⟨whole, frac, -, hfrac, rfl⟩
  · exact hlast hint
  · obtain ⟨init, c, rfl, hc⟩ := hlast hfrac
    exact ⟨whole ++ 46 :: init, c, by simp, hc⟩

theorem IsDecimal.isdigit_or (h : IsDecimal value) {c : UInt8} (hc : c ∈ value) :
    isdigit c = true ∨ c = 46 := by
  rcases h with hint | ⟨whole, frac, hwhole, hfrac, rfl⟩
  · exact .inl (hint.2 c hc)
  · rcases List.mem_append.1 hc with hc | hc
    · exact .inl (hwhole.2 c hc)
    · rcases List.mem_cons.1 hc with rfl | hc
      · exact .inr rfl
      · exact .inl (hfrac.2 c hc)

theorem IsDecimal.not_mem (h : IsDecimal value) {d : UInt8} (hd : isdigit d = false)
    (hne : d ≠ 46) : d ∉ value := by
  intro hmem
  rcases h.isdigit_or hmem with hdigit | hpoint
  · exact isdigit_ne hdigit hd rfl
  · exact hne hpoint

/-- What is cut off from a decimal. -/
theorem drop_cutValue (value : List UInt8) (newline : Bool) :
    value.drop (cutValue value newline).length
      = if newline then [] else value.drop (value.length - 1) := by
  cases newline <;> simp [cutValue]

theorem isDecimal_leftValue {arg : List UInt8} (hvalue : IsDecimal value) (harg : IsDecimal arg)
    (k : Key) (newline : Bool) : IsDecimal (leftValue k value newline arg) := by
  unfold leftValue
  split_ifs
  · rw [drop_cutValue]
    obtain ⟨init, c, rfl, hc⟩ := hvalue.exists_last
    split
    · rwa [List.append_nil]
    · simpa using harg.concat hc
  · exact hvalue

theorem digitsFrom_lt (h : ∀ c ∈ text, isdigit c = true) (n : ℕ) :
    digitsFrom n text < (n + 1) * 10 ^ text.length := by
  induction text generalizing n with
  | nil => exact Nat.lt_of_lt_of_eq (Nat.lt_succ_self n) (Nat.mul_one _).symm
  | cons c text ih =>
    rw [List.forall_mem_cons] at h
    have hc := h.1
    rw [isdigit, decide_eq_true_iff, UInt8.le_iff_toNat_le, UInt8.le_iff_toNat_le] at hc
    simp only [UInt8.reduceToNat] at hc
    calc digitsFrom n (c :: text) = digitsFrom (n * 10 + (c.toNat - 48)) text := rfl
      _ < (n * 10 + (c.toNat - 48) + 1) * 10 ^ text.length := ih h.2 _
      _ ≤ (n + 1) * 10 * 10 ^ text.length := Nat.mul_le_mul_right _ (by omega)
      _ = (n + 1) * 10 ^ (c :: text).length := by rw [List.length_cons, pow_succ]; ring

/-- A decimal is the number before the point and less than 1. -/
theorem exists_magnitude (h : IsDecimal text) :
    ∃ f : ℚ, 0 ≤ f ∧ f < 1 ∧ magnitude text = digits text + f := by
  rcases h with hint | ⟨whole, frac, hwhole, hfrac, rfl⟩
  · have hrest : text.dropWhile isdigit = [] := by simpa using dropWhile_isdigit hint []
    exact ⟨0, le_rfl, one_pos, by simp [magnitude, decimal, hrest, exponent]⟩
  · have hrest : (whole ++ 46 :: frac).dropWhile isdigit = 46 :: frac :=
      dropWhile_isdigit hwhole _
    have hfrac' : frac.dropWhile isdigit = [] := by simpa using dropWhile_isdigit hfrac []
    have hlt : digits frac < 10 ^ frac.length := by
      have hlt := digitsFrom_lt hfrac.2 0
      rwa [← digits_eq hfrac.2, Nat.zero_add, Nat.one_mul] at hlt
    refine ⟨digits frac / 10 ^ frac.length, by positivity, ?_, ?_⟩
    · rw [div_lt_one (by positivity)]
      exact_mod_cast hlt
    · simp [magnitude, decimal, hrest, hfrac', takeWhile_isdigit hfrac, exponent]

theorem digits_of_magnitude (h : IsDecimal text) {n : ℕ} (hn : n = magnitude text) :
    digits text = n := by
  obtain ⟨f, h₀, h₁, hf⟩ := exists_magnitude h
  rw [hf] at hn
  have hle : (digits text : ℚ) ≤ n := by linarith
  have hlt : (n : ℚ) < digits text + 1 := by linarith
  norm_cast at hle hlt
  omega

theorem strtol_of_isDecimal (h : IsDecimal text) :
    strtol text = min (2 ^ 63 - 1) (digits text : ℤ) := by
  obtain ⟨c, rest, rfl, hc⟩ := h.exists_head
  exact strtol_of_isdigit hc

/-- An argument is read as itself where the field has room for it. -/
theorem reads_iff_holds (round : ℚ → F) {arg : List UInt8} (h : IsDecimal arg)
    (hk : k ∈ writtenKeys) :
    k.Reads round arg (magnitude arg) ↔ k.Holds (magnitude arg) := by
  have hstrtol : ∀ n : ℕ, n < 2 ^ 63 → n = magnitude arg → strtol arg = n := by
    intro n hn heq
    rw [strtol_of_isDecimal h, digits_of_magnitude h heq]
    omega
  have hint : intOfLong (strtol arg) = magnitude arg
      ↔ ∃ n : ℕ, n < 2 ^ 31 ∧ n = magnitude arg := by
    constructor
    · intro heq
      obtain ⟨f, h₀, -, hf⟩ := exists_magnitude h
      have hnonneg : 0 ≤ intOfLong (strtol arg) := by
        have hrat : (0 : ℚ) ≤ intOfLong (strtol arg) := by
          rw [heq, hf]
          positivity
        exact_mod_cast hrat
      have hlt : intOfLong (strtol arg) < 2 ^ 31 := Int32.toInt_lt _
      refine ⟨(intOfLong (strtol arg)).toNat, by omega, ?_⟩
      rw [← heq, ← Int.cast_natCast, Int.toNat_of_nonneg hnonneg]
    · rintro ⟨n, hn, heq⟩
      rw [hstrtol n (by omega) heq, intOfLong, toInt_toUInt (by omega) (by omega), ← heq]
      rfl
  have henum : (UInt32.ofInt (strtol arg)).toNat = magnitude arg
      ↔ ∃ n : ℕ, n < 2 ^ 32 ∧ n = magnitude arg := by
    constructor
    · exact fun heq => ⟨_, UInt32.toNat_lt _, heq⟩
    · rintro ⟨n, hn, heq⟩
      have hnat : ((toUInt n).toNat : ℤ) = n := toNat_toUInt (by omega) (by omega)
      rw [hstrtol n (by omega) heq, ← heq]
      exact_mod_cast hnat
  have hbool : (if decide (strtol arg ≠ 0) = true then (1 : ℚ) else 0) = magnitude arg
      ↔ magnitude arg = 0 ∨ magnitude arg = 1 := by
    constructor
    · split_ifs
      · exact fun heq => .inr heq.symm
      · exact fun heq => .inl heq.symm
    · rintro (heq | heq)
      · rw [hstrtol 0 (by omega) (by rw [heq]; rfl), heq]
        rfl
      · rw [hstrtol 1 (by omega) (by rw [heq]; rfl), heq]
        rfl
  have hfloat : strtof round arg = round (magnitude arg) := by
    obtain ⟨c, rest, rfl, hc⟩ := h.exists_head
    exact strtof_of_isdigit hc
  cases k with
  | intervalMsecLen => exact hint
  | conditionMsecFreq => exact hint
  | replacement => exact hbool
  | switchMemType => exact henum
  | switchMemoryTimes => exact iff_true_intro hfloat
  | switchDropRate => exact iff_true_intro hfloat
  | hostOrSwitchSample => exact henum
  | injectOrTagPacket => exact henum
  | targetFlowVolume => exact hint
  | targetFlowLossRate => exact iff_true_intro hfloat
  | targetFlowLossVolume => exact hint
  | selectedLossVolumeThreshold => exact hint
  | targetFlowVolumeInSampling => exact hint
  | senderLossMapMemType => exact absurd hk (by decide)
  | fixLossMapBucketSize => exact absurd hk (by decide)
  | switchIntervalVolume i => exact absurd hk (by simp [writtenKeys])

end Texts

section Reader
variable {F : Type} {round : ℚ → F} {s s' t : Setting F} {file : List (List UInt8)}

/-- The first of two tokens has the colon behind it. -/
theorem prefix_of_strSplit {aStr key : List UInt8} {rest : List (List UInt8)}
    (h : strSplit aStr 58 = some (key :: value :: rest)) : key ++ [58] <+: aStr := by
  obtain ⟨hseparated, htokens⟩ := strSplit_eq_some_iff.1 h
  change Lib.tokens 58 aStr = _ at htokens
  by_cases hcolon : 58 ∈ aStr
  · obtain ⟨xs, ys, rfl, hxs⟩ := List.eq_append_cons_of_mem hcolon
    have hne := ((Lib.separated_append_cons hxs).1 hseparated).1
    rw [Lib.tokens_append_cons, Lib.tokens_of_free hxs, if_neg hne, List.singleton_append,
      List.cons.injEq] at htokens
    obtain ⟨rfl, -⟩ := htokens
    exact ⟨ys, by simp⟩
  · rw [Lib.tokens_of_free hcolon] at htokens
    split at htokens <;> cases htokens

/-- Whether a line can be read does not depend on the setting, nor does what it stores. -/
theorem readLine_congr (h : readLine round s line = some s') (t : Setting F) :
    ∃ t', readLine round t line = some t' ∧ ∀ k, s k = t k → s' k = t' k := by
  unfold readLine at h ⊢
  split at h
  · next hcomment =>
    cases h
    exact ⟨t, if_pos hcomment, fun k hk => hk⟩
  · next hcomment =>
    obtain ⟨tokens, htokens, rfl⟩ := Option.map_eq_some_iff.1 h
    refine ⟨_, by rw [if_neg hcomment, htokens]; rfl, fun k hk => ?_⟩
    obtain _ | ⟨key, _ | ⟨value, rest⟩⟩ := tokens
    · exact hk
    · exact hk
    · change (if key = k.name then _ else _) = if key = k.name then _ else _
      rw [hk]

/-- A line without the label of a key leaves its value. -/
theorem readLine_of_not_label (h : readLine round s line = some s') (hk : ¬ k.label <+: line) :
    s' k = s k := by
  unfold readLine at h
  split at h
  · cases h
    rfl
  · obtain ⟨tokens, htokens, rfl⟩ := Option.map_eq_some_iff.1 h
    obtain _ | ⟨key, _ | ⟨value, rest⟩⟩ := tokens
    · rfl
    · rfl
    · refine if_neg ?_
      rintro rfl
      exact hk ((prefix_of_strSplit htokens).trans (List.takeWhile_prefix _))

theorem readFile_of_not_label (h : readCmExperimentSettingFromFile round s file = some s')
    (hk : ∀ line ∈ file, ¬ k.label <+: line) : s' k = s k := by
  induction file generalizing s with
  | nil =>
    cases h
    rfl
  | cons line file ih =>
    rw [List.forall_mem_cons] at hk
    obtain ⟨s₁, h₁, h⟩ := Option.bind_eq_some_iff.1 h
    rw [ih h hk.2, readLine_of_not_label h₁ hk.1]

/-- The line of a key with a decimal. -/
theorem readLine_lineOf (round : ℚ → F) (hvalue : IsDecimal value) (k : Key) (newline : Bool)
    (s : Setting F) :
    ∃ s', readLine round s (lineOf k value newline) = some s'
      ∧ s' k = k.convert round value := by
  have hzero : (0 : UInt8) ∉ lineOf k value newline := by
    have hname := k.zero_not_mem
    have hdecimal := hvalue.not_mem (d := 0) (by decide) (by decide)
    cases newline <;> simp [lineOf, Key.label, hname, hdecimal]
  have hcString : cString (lineOf k value newline) = lineOf k value newline := by
    refine List.takeWhile_eq_self_iff.2 fun c hc => decide_eq_true ?_
    rintro rfl
    exact hzero hc
  have hcomment : ¬ IsComment (lineOf k value newline) := by
    obtain ⟨c, rest, hname⟩ := List.exists_cons_of_ne_nil k.name_ne_nil
    have hhead := k.head_name
    rw [hname] at hhead
    rw [IsComment, lineOf, Key.label, hname]
    exact hhead
  obtain ⟨ending, hending, hcolon⟩ : ∃ ending, ending = value ++ (if newline then [10] else [])
      ∧ 58 ∉ ending := by
    have hdecimal := hvalue.not_mem (d := 58) (by decide) (by decide)
    refine ⟨_, rfl, ?_⟩
    cases newline <;> simp [hdecimal]
  have hne : ending ≠ [] := by
    rw [hending]
    exact List.append_ne_nil_of_left_ne_nil hvalue.ne_nil _
  have hline : lineOf k value newline = k.name ++ 58 :: ending := by
    rw [lineOf, Key.label, hending]
    simp
  have hsplit : strSplit (k.name ++ 58 :: ending) 58 = some [k.name, ending] := by
    refine strSplit_eq_some_iff.2 ⟨?_, ?_⟩
    · exact (Lib.separated_append_cons k.colon_not_mem).2
        ⟨k.name_ne_nil, .inr ((Lib.separated_of_free hcolon).2 hne)⟩
    · change Lib.tokens 58 _ = _
      rw [Lib.tokens_append_cons, Lib.tokens_of_free k.colon_not_mem, Lib.tokens_of_free hcolon,
        if_neg k.name_ne_nil, if_neg hne]
      rfl
  have hread : k.convert round ending = k.convert round value := by
    rw [hending]
    cases newline with
    | true => exact convert_append_newline round k hvalue
    | false => exact congrArg _ (List.append_nil value)
  refine ⟨_, by rw [readLine, if_neg hcomment, hcString, hline, hsplit]; rfl, ?_⟩
  exact (if_pos rfl).trans hread

/-- What the line of a key says is what the reader obtains. -/
theorem readFile_of_onOneLine (hvalue : IsDecimal value) (honly : OnOneLine file k value newline)
    (h : readCmExperimentSettingFromFile round s file = some s') :
    s' k = k.convert round value := by
  obtain ⟨pre, post, rfl, hothers⟩ := honly
  rw [readCmExperimentSettingFromFile, List.foldlM_append] at h
  obtain ⟨s₁, -, h⟩ := Option.bind_eq_some_iff.1 h
  obtain ⟨s₂, h₂, h⟩ := Option.bind_eq_some_iff.1 h
  obtain ⟨s₃, h₃, hk⟩ := readLine_lineOf round hvalue k newline s₁
  rw [h₂] at h₃
  cases h₃
  rw [readFile_of_not_label h fun line hline => hothers line (List.mem_append_right _ hline), hk]

/-- A file in which values of written keys are changed can be read as before, up to these keys. -/
theorem readFile_map {φ : List UInt8 → List UInt8}
    (hφ : ∀ line ∈ file, φ line = line ∨ ∃ k ∈ writtenKeys, ∃ value' newline,
      IsDecimal value' ∧ k.label <+: line ∧ φ line = lineOf k value' newline)
    (h : readCmExperimentSettingFromFile round s file = some s')
    (hst : ∀ k ∉ writtenKeys, s k = t k) :
    ∃ t', readCmExperimentSettingFromFile round t (file.map φ) = some t'
      ∧ ∀ k ∉ writtenKeys, s' k = t' k := by
  induction file generalizing s t with
  | nil =>
    cases h
    exact ⟨t, rfl, hst⟩
  | cons line file ih =>
    rw [List.forall_mem_cons] at hφ
    obtain ⟨s₁, h₁, h⟩ := Option.bind_eq_some_iff.1 h
    obtain ⟨t₁, ht₁, hst₁⟩ : ∃ t₁, readLine round t (φ line) = some t₁
        ∧ ∀ k ∉ writtenKeys, s₁ k = t₁ k := by
      rcases hφ.1 with hsame | ⟨k', hk', value', newline, hvalue', hlabel, hnew⟩
      · obtain ⟨t₁, ht₁, hcongr⟩ := readLine_congr h₁ t
        exact ⟨t₁, by rw [hsame, ht₁], fun k hk => hcongr k (hst k hk)⟩
      · obtain ⟨t₁, ht₁, -⟩ := readLine_lineOf round hvalue' k' newline t
        refine ⟨t₁, by rw [hnew, ht₁], fun k hk => ?_⟩
        have hne : k ≠ k' := fun heq => hk (heq ▸ hk')
        rw [readLine_of_not_label h₁ fun hpre => hne (label_unique hpre hlabel),
          readLine_of_not_label ht₁ fun hpre =>
            hne (label_unique hpre (label_prefix_lineOf k' value' newline)), hst k hk]
    obtain ⟨t', ht', hst'⟩ := ih hφ.2 h hst₁
    refine ⟨t', ?_, hst'⟩
    rw [List.map_cons, readCmExperimentSettingFromFile, List.foldlM_cons, ht₁]
    exact ht'

end Reader

section Rewriting
variable {F : Type} {round : ℚ → F} {s₀ s : Setting F} {file : List (List UInt8)}
  {args value : Key → List UInt8} {newline : Key → Bool}

/-- Each key that is written is on one line, with a decimal. -/
def HasKeys (file : List (List UInt8)) (value : Key → List UInt8) (newline : Key → Bool) : Prop :=
  ∀ k ∈ writtenKeys, IsDecimal (value k) ∧ OnOneLine file k (value k) (newline k)

theorem HasKeys.line_eq (h : HasKeys file value newline) (hk : k ∈ writtenKeys)
    (hline : line ∈ file) (hlabel : k.label <+: line) :
    line = lineOf k (value k) (newline k) := by
  obtain ⟨pre, post, rfl, hothers⟩ := (h k hk).2
  rcases List.mem_append.1 hline with hpre | hrest
  · exact absurd hlabel (hothers line (List.mem_append_left _ hpre))
  · rcases List.mem_cons.1 hrest with hown | hpost
    · exact hown
    · exact absurd hlabel (hothers line (List.mem_append_right _ hpost))

/-- What the script makes of each line. -/
theorem HasKeys.rewriteLine_cases (args : Key → List UInt8) (h : HasKeys file value newline)
    (hline : line ∈ file) :
    (∀ k ∈ writtenKeys, ¬ k.label <+: line) ∧ rewriteLine args (substitutions file) line = line
      ∨ ∃ k ∈ writtenKeys, k.label <+: line ∧ rewriteLine args (substitutions file) line
        = lineOf k (leftValue k (value k) (newline k) (args k)) (newline k) := by
  by_cases hex : ∃ k ∈ writtenKeys, k.label <+: line
  · obtain ⟨k, hk, hlabel⟩ := hex
    refine .inr ⟨k, hk, hlabel, ?_⟩
    rw [h.line_eq hk hline hlabel, rewriteLine_lineOf args hk (h k hk).1 (h k hk).2]
  · push Not at hex
    exact .inl ⟨hex, rewriteLine_of_not_label hex⟩

/-- The rewritten file has the keys too, so that the script can be run again. -/
theorem HasKeys.config (h : HasKeys file value newline)
    (hargs : ∀ k ∈ writtenKeys, IsDecimal (args k)) :
    HasKeys (configExperimentSettingFile args file)
      (fun k => leftValue k (value k) (newline k) (args k)) newline := by
  intro k hk
  refine ⟨isDecimal_leftValue (h k hk).1 (hargs k hk) k _, ?_⟩
  obtain ⟨pre, post, hfile, hothers⟩ := (h k hk).2
  have hown := rewriteLine_lineOf args hk (h k hk).1 (h k hk).2
  have hmap : ∀ φ : List UInt8 → List UInt8, file.map φ
      = pre.map φ ++ φ (lineOf k (value k) (newline k)) :: post.map φ := by
    intro φ
    rw [hfile, List.map_append, List.map_cons]
  refine ⟨pre.map (rewriteLine args (substitutions file)),
    post.map (rewriteLine args (substitutions file)), ?_, ?_⟩
  · rw [configExperimentSettingFile_eq, hmap, hown]
  · intro line' hline'
    rw [← List.map_append] at hline'
    obtain ⟨line, hline, rfl⟩ := List.mem_map.1 hline'
    have hmem : line ∈ file := by
      rw [hfile, List.mem_append, List.mem_cons]
      rcases List.mem_append.1 hline with hpre | hpost
      · exact .inl hpre
      · exact .inr (.inr hpost)
    rcases h.rewriteLine_cases args hmem with ⟨-, hsame⟩ | ⟨k', -, hlabel, hnew⟩
    · rw [hsame]
      exact hothers line hline
    · rw [hnew]
      intro hk'
      obtain rfl := label_unique hk' (label_prefix_lineOf k' _ _)
      exact hothers line hline hlabel

/-- The reader of the rewritten file obtains what is left behind the keys. -/
theorem HasKeys.exists_read (h : HasKeys file value newline)
    (hargs : ∀ k ∈ writtenKeys, IsDecimal (args k))
    (hread : readCmExperimentSettingFromFile round s₀ file = some s) :
    ∃ s', readCmExperimentSettingFromFile round s₀ (configExperimentSettingFile args file) = some s'
      ∧ (∀ k ∈ writtenKeys,
        s' k = k.convert round (leftValue k (value k) (newline k) (args k)))
      ∧ ∀ k ∉ writtenKeys, s' k = s k := by
  have hφ : ∀ line ∈ file, rewriteLine args (substitutions file) line = line
      ∨ ∃ k ∈ writtenKeys, ∃ value' newline, IsDecimal value' ∧ k.label <+: line
        ∧ rewriteLine args (substitutions file) line = lineOf k value' newline := by
    intro line hline
    rcases h.rewriteLine_cases args hline with ⟨-, hsame⟩ | ⟨k, hk, hlabel, hnew⟩
    · exact .inl hsame
    · exact .inr ⟨k, hk, _, _, isDecimal_leftValue (h k hk).1 (hargs k hk) k _, hlabel, hnew⟩
  obtain ⟨s', hread', hothers⟩ := readFile_map hφ hread fun k _ => rfl
  rw [← configExperimentSettingFile_eq] at hread'
  refine ⟨s', hread', fun k hk => ?_, fun k hk => (hothers k hk).symm⟩
  exact readFile_of_onOneLine (h.config hargs k hk).1 (h.config hargs k hk).2 hread'

/-- Whether what is left behind a key is read as the argument. -/
theorem takesEffect_iff {arg text : List UInt8} {newline : Bool} (hk : k ∈ writtenKeys)
    (hvalue : IsDecimal text) (harg : IsDecimal arg) :
    k.Reads round (leftValue k text newline arg) (magnitude arg)
      ↔ TakesEffect round k text newline arg := by
  rw [TakesEffect, ← found_iff hvalue, leftValue]
  split_ifs with hfound
  · rw [drop_cutValue, and_iff_right hfound, and_iff_right hfound]
    cases newline with
    | true => simp [hfound, reads_iff_holds round harg hk]
    | false => simp [hfound]
  · simp [hfound]

/-- After the script has rewritten a file that the reader accepts and that has each of the eleven
keys on one line with a decimal, the reader obtains the arguments for these keys, and for the other
keys what it did before, if and only if each of the arguments takes effect. -/
theorem rewriting_takes_effect_iff (hkeys : HasKeys file value newline)
    (hargs : ∀ k ∈ writtenKeys, IsDecimal (args k))
    (hread : readCmExperimentSettingFromFile round s₀ file = some s) :
    (∃ s', readCmExperimentSettingFromFile round s₀ (configExperimentSettingFile args file)
          = some s'
        ∧ (∀ k ∈ writtenKeys, (s' k).Is round (magnitude (args k)))
        ∧ ∀ k ∉ writtenKeys, s' k = s k)
      ↔ ∀ k ∈ writtenKeys, TakesEffect round k (value k) (newline k) (args k) := by
  obtain ⟨s₁, h₁, hwritten, hothers⟩ := hkeys.exists_read hargs hread
  have hiff : ∀ k ∈ writtenKeys, (s₁ k).Is round (magnitude (args k))
      ↔ TakesEffect round k (value k) (newline k) (args k) := by
    intro k hk
    rw [hwritten k hk]
    exact takesEffect_iff hk (hkeys k hk).1 (hargs k hk)
  constructor
  · rintro ⟨s', h', heq, -⟩ k hk
    rw [h₁] at h'
    cases h'
    exact (hiff k hk).1 (heq k hk)
  · exact fun htakes => ⟨s₁, h₁, fun k hk => (hiff k hk).2 (htakes k hk), hothers⟩

end Rewriting

section Examples

/-- Values for the keys, with this loss rate. -/
def exampleValue (lossRate : List UInt8) : Key → List UInt8
  | .targetFlowLossRate => lossRate
  | .switchDropRate => chars "0.5"
  | _ => chars "1"

/-- A file with a line for each key that is written. -/
def exampleFile (lossRate : List UInt8) : List (List UInt8) :=
  writtenKeys.map fun k => lineOf k (exampleValue lossRate k) true

theorem isInteger_digit {c : UInt8} (hc : isdigit c = true) : IsInteger [c] :=
  ⟨List.cons_ne_nil _ _, by rwa [List.forall_mem_singleton]⟩

theorem chars_values : chars "1" = [49] ∧ chars "0.5" = [48, 46, 53]
    ∧ magnitude (chars "1") = 1 := by
  decide +kernel

theorem isFraction_half : IsFraction (chars "0.5") :=
  ⟨[48], [53], isInteger_digit (by decide), isInteger_digit (by decide), chars_values.2.1⟩

theorem isDecimal_half : IsDecimal (chars "0.5") := .inr isFraction_half

theorem isDecimal_exampleValue {lossRate : List UInt8} (h : IsDecimal lossRate) (k : Key) :
    IsDecimal (exampleValue lossRate k) := by
  have hone : IsDecimal (chars "1") := by
    rw [chars_values.1]
    exact .inl (isInteger_digit (by decide))
  cases k with
  | targetFlowLossRate => exact h
  | switchDropRate => exact isDecimal_half
  | _ => exact hone

theorem hasKeys_exampleFile {lossRate : List UInt8} (h : IsDecimal lossRate) :
    HasKeys (exampleFile lossRate) (exampleValue lossRate) fun _ => true := by
  intro k hk
  refine ⟨isDecimal_exampleValue h k, ?_⟩
  obtain ⟨pre, post, hsplit⟩ := List.append_of_mem hk
  have hnodup := nodup_writtenKeys
  rw [hsplit, List.nodup_middle, List.nodup_cons] at hnodup
  refine ⟨_, _, by rw [exampleFile, hsplit, List.map_append, List.map_cons], ?_⟩
  intro line hline hlabel
  rw [← List.map_append] at hline
  obtain ⟨k', hk', rfl⟩ := List.mem_map.1 hline
  obtain rfl := label_unique hlabel (label_prefix_lineOf k' _ _)
  exact hnodup.1 hk'

theorem exists_read_exampleFile {F : Type} (round : ℚ → F) (s₀ : Setting F)
    {lossRate : List UInt8} (h : IsDecimal lossRate) :
    ∃ s, readCmExperimentSettingFromFile round s₀ (exampleFile lossRate) = some s := by
  have hall : ∀ (ks : List Key) (s : Setting F), ∃ s', readCmExperimentSettingFromFile round s
      (ks.map fun k => lineOf k (exampleValue lossRate k) true) = some s' := by
    intro ks
    induction ks with
    | nil => exact fun s => ⟨s, rfl⟩
    | cons k ks ih =>
      intro s
      obtain ⟨s₁, h₁, -⟩ := readLine_lineOf round (isDecimal_exampleValue h k) k true s
      obtain ⟨s', h'⟩ := ih s₁
      refine ⟨s', ?_⟩
      rw [List.map_cons, readCmExperimentSettingFromFile, List.foldlM_cons, h₁]
      exact h'
  exact hall writtenKeys s₀

/-- The ones are numbers that every field has room for. -/
theorem holds_exampleValue (lossRate : List UInt8) (k : Key) :
    k.Holds (magnitude (exampleValue lossRate k)) := by
  have hone : magnitude (chars "1") = 1 := chars_values.2.2
  have hroom : ∀ b : ℕ, 1 < b → ∃ n : ℕ, n < b ∧ n = magnitude (chars "1") := fun b hb =>
    ⟨1, hb, by rw [hone]; rfl⟩
  cases k with
  | replacement => exact .inr hone
  | switchMemoryTimes => trivial
  | switchDropRate => trivial
  | targetFlowLossRate => trivial
  | _ => exact hroom _ (by omega)

/-- A loss rate with a decimal point is rewritten. -/
theorem rewriting_takes_effect_example : ∃ s s' : Setting ℚ,
    readCmExperimentSettingFromFile id (fun _ => .int 0) (exampleFile (chars "0.5")) = some s
      ∧ readCmExperimentSettingFromFile id (fun _ => .int 0)
        (configExperimentSettingFile (exampleValue [50]) (exampleFile (chars "0.5"))) = some s'
      ∧ (∀ k ∈ writtenKeys, (s' k).Is id (magnitude (exampleValue [50] k)))
      ∧ ∀ k ∉ writtenKeys, s' k = s k := by
  have hkeys := hasKeys_exampleFile isDecimal_half
  have hargs : ∀ k ∈ writtenKeys, IsDecimal (exampleValue [50] k) := fun k _ =>
    isDecimal_exampleValue (.inl (isInteger_digit (by decide))) k
  have hrecognises : ∀ k : Key, k.Recognises (exampleValue (chars "0.5") k) true := by
    intro k
    cases k with
    | targetFlowLossRate => exact isFraction_half
    | switchDropRate => exact isFraction_half
    | _ => simp [Key.Recognises, cutValue, exampleValue, chars_values.1]
  obtain ⟨s, hread⟩ := exists_read_exampleFile id (fun _ => Value.int 0) isDecimal_half
  obtain ⟨s', hread', hwritten, hothers⟩ := (rewriting_takes_effect_iff hkeys hargs hread).2
    fun k hk => .inl ⟨hrecognises k, rfl, holds_exampleValue [50] k⟩
  exact ⟨s, s', hread, hread', hwritten, hothers⟩

/-- A loss rate of 0, as in the file of the repository, is not found by the script, and stays. -/
theorem loss_rate_stays :
    HasKeys (exampleFile [48]) (exampleValue [48]) (fun _ => true)
      ∧ (∀ k ∈ writtenKeys, IsDecimal (exampleValue (chars "0.5") k))
      ∧ ∃ s s' : Setting ℚ,
        readCmExperimentSettingFromFile id (fun _ => .int 0) (exampleFile [48]) = some s
          ∧ readCmExperimentSettingFromFile id (fun _ => .int 0)
            (configExperimentSettingFile (exampleValue (chars "0.5")) (exampleFile [48])) = some s'
          ∧ s' .targetFlowLossRate = .float 0
          ∧ ¬ (s' .targetFlowLossRate).Is id (magnitude (chars "0.5")) := by
  have hzero : IsDecimal [48] := .inl (isInteger_digit (by decide))
  have hkeys := hasKeys_exampleFile hzero
  have hargs : ∀ k ∈ writtenKeys, IsDecimal (exampleValue (chars "0.5") k) := fun k _ =>
    isDecimal_exampleValue isDecimal_half k
  obtain ⟨s, hread⟩ := exists_read_exampleFile id (fun _ => Value.int 0) hzero
  obtain ⟨s', hread', hwritten, -⟩ := hkeys.exists_read hargs hread
  have hleft : leftValue .targetFlowLossRate [48] true (chars "0.5") = [48] := by
    decide +kernel
  have hconvert : Key.convert id .targetFlowLossRate [48] = .float (0 : ℚ) := by
    decide +kernel
  have hrate : s' .targetFlowLossRate = .float 0 := by
    rw [hwritten .targetFlowLossRate (by decide)]
    exact (congrArg (Key.convert id .targetFlowLossRate) hleft).trans hconvert
  have hne : (0 : ℚ) ≠ magnitude (chars "0.5") := by decide +kernel
  exact ⟨hkeys, hargs, s, s', hread, hread', hrate, by rw [hrate]; exact hne⟩

end Examples

end CMTestbed.Config
