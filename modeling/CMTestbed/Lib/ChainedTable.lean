import CMTestbed.Lib.Heap
import Mathlib.Data.List.TakeWhile

/-!
# Chained hash tables with sorted bins

Each bin is a null-terminated linked list of key-value pairs, kept strictly increasing.  A walk
through a bin stops at the first key that is not below the wanted one.  The table also holds one
cursor, the bin and the node an iteration last returned, which a removal repairs.

`Raw` is the table as its code works on it.  `Rep κ t B` says that its bins are the lists `B`, and
each operation is described by what it does to `B`.
-/

namespace CMTestbed.Lib

/-- How a table places its keys: a comparison, the rank it orders keys by, and a key's bin. -/
structure Keying (K : Type*) where
  cmp : K → K → ℤ
  rank : K → ℕ
  bin : K → ℕ
  size : ℕ
  cmp_pos : ∀ a b, 0 < cmp a b ↔ rank b < rank a
  cmp_zero : ∀ a b, cmp a b = 0 ↔ rank a = rank b
  bin_lt : ∀ a, bin a < size
  bin_congr : ∀ {a b}, rank a = rank b → bin a = bin b

variable {K V : Type*}

/-- The table: its nodes, the first node of each bin, and the cursor of the iteration. -/
structure Raw (K V : Type*) where
  heap : Heap (K × V)
  table : ℕ → Option ℕ
  nextCurrentBin : ℤ
  nextLastVisitEntry : Option ℕ

namespace Raw

variable (κ : Keying K)

def create : Raw K V where
  heap := Heap.empty
  table := fun _ => none
  nextCurrentBin := -1
  nextLastVisitEntry := none

/-- The walk through the key's bin: the last node passed and the node it stopped at. -/
def search (t : Raw K V) (key : K) : Option ℕ × Option ℕ :=
  t.heap.scan (fun e => decide (0 < κ.cmp key e.1)) t.heap.brk none (t.table (κ.bin key))

/-- The node the walk stopped at, if it holds the key. -/
def hit (t : Raw K V) (key : K) (next : Option ℕ) : Option (ℕ × K × V) :=
  next.bind fun a => (t.heap.cell a).bind fun c =>
    if κ.cmp key c.data.1 = 0 then some (a, c.data) else none

def get (t : Raw K V) (key : K) : Option V :=
  (t.hit κ key (t.search κ key).2).map fun e => e.2.2

/-- A new pair at the start, at the end or in the middle of its bin. -/
def insertPair (t : Raw K V) (key : K) (value : V) (last next : Option ℕ) : Raw K V :=
  let newpair := some t.heap.brk
  let h := t.heap.alloc ⟨(key, value), none⟩
  if next = t.table (κ.bin key) then
    { t with
      heap := h.setNext newpair next
      table := Function.update t.table (κ.bin key) newpair }
  else if next = none then
    { t with heap := h.setNext last newpair }
  else
    { t with heap := (h.setNext newpair next).setNext last newpair }

def set (t : Raw K V) (key : K) (value : V) : Raw K V :=
  let walk := t.search κ key
  match t.hit κ key walk.2 with
  | some (a, k, _) => { t with heap := t.heap.setData a (k, value) }
  | none => t.insertPair κ key value walk.1 walk.2

/-- Takes node `a` out of its bin, behind `last`, and frees it. -/
def unlink (t : Raw K V) (b a : ℕ) (last : Option ℕ) : Raw K V :=
  let next := t.heap.nextOf (some a)
  let t' : Raw K V :=
    if some a = t.table b then { t with table := Function.update t.table b next }
    else { t with heap := t.heap.setNext last next }
  { t' with
    heap := t'.heap.free a
    nextLastVisitEntry :=
      if some a = t.nextLastVisitEntry then next else t.nextLastVisitEntry }

def del (t : Raw K V) (key : K) : Raw K V :=
  let walk := t.search κ key
  match t.hit κ key walk.2 with
  | some (a, _) => t.unlink (κ.bin key) a walk.1
  | none => t

/-- Empties the first `n` bins. -/
def clearBins (t : Raw K V) : ℕ → Raw K V
  | 0 => t
  | n + 1 =>
    let t' := clearBins t n
    { t' with
      heap := Heap.freeFrom t'.heap.brk (t'.table n) t'.heap
      table := Function.update t'.table n none }

def refresh (t : Raw K V) : Raw K V :=
  { t.clearBins κ.size with nextCurrentBin := -1, nextLastVisitEntry := none }

/-- Puts the cursor on node `a` of bin `b` and returns its pair. -/
def visit (t : Raw K V) (b : ℤ) (a : ℕ) : Raw K V × Option (K × V) :=
  ({ t with nextCurrentBin := b, nextLastVisitEntry := some a }, (t.heap.cell a).map Cell.data)

/-- Goes on to the first non-empty one of the last `n` bins; past the last, resets the cursor. -/
def nextBin (t : Raw K V) : ℕ → Raw K V × Option (K × V)
  | 0 => ({ t with nextCurrentBin := -1, nextLastVisitEntry := none }, none)
  | n + 1 =>
    match t.table (κ.size - (n + 1)) with
    | some a => t.visit (κ.size - (n + 1) : ℕ) a
    | none => nextBin t n

def next (t : Raw K V) : Raw K V × Option (K × V) :=
  if (κ.size : ℤ) ≤ t.nextCurrentBin then (t, none)
  else
    match if 0 ≤ t.nextCurrentBin then t.heap.nextOf t.nextLastVisitEntry else none with
    | some a => t.visit t.nextCurrentBin a
    | none => t.nextBin κ (κ.size - (t.nextCurrentBin + 1)).toNat

/-- The nodes of bin `b`, in the order of the list. -/
def nodes (t : Raw K V) (b : ℕ) : List (ℕ × K × V) :=
  t.heap.follow t.heap.brk (t.table b)

end Raw

/-- The bins of `t` are the lists `B`: each a null-terminated list of keys of its own bin, strictly
increasing. -/
structure Rep (κ : Keying K) (t : Raw K V) (B : ℕ → List (ℕ × K × V)) : Prop where
  seg : ∀ b, t.heap.Seg (t.table b) (B b) none
  bin : ∀ b, ∀ e ∈ B b, κ.bin e.2.1 = b
  sorted : ∀ b, (B b).Pairwise fun e e' => κ.rank e.2.1 < κ.rank e'.2.1

namespace Rep

variable {κ : Keying K} {t : Raw K V} {B : ℕ → List (ℕ × K × V)}

theorem create : Rep κ (Raw.create : Raw K V) fun _ => [] where
  seg := fun _ => rfl
  bin := fun _ _ he => absurd he List.not_mem_nil
  sorted := fun _ => List.Pairwise.nil

theorem nodes_eq (hr : Rep κ t B) (b : ℕ) : t.nodes b = B b :=
  (hr.seg b).follow (hr.seg b).length_le

theorem cell (hr : Rep κ t B) {b a : ℕ} {d : K × V} (he : (a, d) ∈ B b) :
    ∃ n, t.heap.cell a = some ⟨d, n⟩ :=
  (hr.seg b).cell he

/-- A node holds one pair. -/
theorem data_unique (hr : Rep κ t B) {b b' a : ℕ} {d d' : K × V} (he : (a, d) ∈ B b)
    (he' : (a, d') ∈ B b') : d = d' := by
  obtain ⟨n, hc⟩ := hr.cell he
  obtain ⟨n', hc'⟩ := hr.cell he'
  rw [hc'] at hc
  cases hc
  rfl

/-- A node is in one bin only: its key says which. -/
theorem bin_unique (hr : Rep κ t B) {b b' : ℕ} {e e' : ℕ × K × V} (he : e ∈ B b)
    (he' : e' ∈ B b') (ha : e.1 = e'.1) : b = b' := by
  obtain ⟨a, d⟩ := e
  obtain ⟨a', d'⟩ := e'
  obtain rfl : a = a' := ha
  obtain rfl := hr.data_unique he he'
  rw [← hr.bin b _ he, ← hr.bin b' _ he']

/-- No two nodes hold keys of one rank. -/
theorem rank_unique (hr : Rep κ t B) {b b' : ℕ} {e e' : ℕ × K × V} (he : e ∈ B b)
    (he' : e' ∈ B b') (hk : κ.rank e.2.1 = κ.rank e'.2.1) : e = e' := by
  obtain rfl : b = b' := by rw [← hr.bin b e he, ← hr.bin b' e' he', κ.bin_congr hk]
  have hnd : ((B b).map fun e => κ.rank e.2.1).Nodup :=
    List.pairwise_map.2 ((hr.sorted b).imp fun h => h.ne)
  exact List.inj_on_of_nodup_map hnd he he' hk

/-- A change of one bin that leaves the nodes of the others alone. -/
theorem update (hr : Rep κ t B) {t' : Raw K V} {b : ℕ} {l : List (ℕ × K × V)}
    (htab : ∀ b', b' ≠ b → t'.table b' = t.table b')
    (hcell : ∀ b', b' ≠ b → ∀ e ∈ B b', t'.heap.cell e.1 = t.heap.cell e.1)
    (hseg : t'.heap.Seg (t'.table b) l none) (hbin : ∀ e ∈ l, κ.bin e.2.1 = b)
    (hsort : l.Pairwise fun e e' => κ.rank e.2.1 < κ.rank e'.2.1) :
    Rep κ t' (Function.update B b l) where
  seg := fun b' => by
    rcases eq_or_ne b' b with rfl | hne
    · rwa [Function.update_self]
    · rw [Function.update_of_ne hne, htab b' hne]
      exact (hr.seg b').frame (hcell b' hne)
  bin := fun b' => by
    rcases eq_or_ne b' b with rfl | hne
    · rwa [Function.update_self]
    · rw [Function.update_of_ne hne]
      exact hr.bin b'
  sorted := fun b' => by
    rcases eq_or_ne b' b with rfl | hne
    · rwa [Function.update_self]
    · rw [Function.update_of_ne hne]
      exact hr.sorted b'

/-! ## The walk -/

/-- The walk for a key splits its bin into the smaller keys and the others. -/
theorem search (hr : Rep κ t B) (key : K) : ∃ l₁ l₂, B (κ.bin key) = l₁ ++ l₂
    ∧ (∀ e ∈ l₁, κ.rank e.2.1 < κ.rank key) ∧ (∀ e ∈ l₂, κ.rank key ≤ κ.rank e.2.1)
    ∧ t.search κ key = (l₁.getLast?.map Prod.fst, l₂.head?.map Prod.fst) := by
  set p := fun e : ℕ × K × V => decide (κ.rank e.2.1 < κ.rank key)
  set l := B (κ.bin key)
  have hsplit : l = l.takeWhile p ++ l.dropWhile p := List.takeWhile_append_dropWhile.symm
  have h₁ : ∀ e ∈ l.takeWhile p, κ.rank e.2.1 < κ.rank key := fun e he =>
    of_decide_eq_true (p := _ < _) (List.mem_takeWhile_imp (p := p) he)
  have hhead : ∀ e, (l.dropWhile p).head? = some e → κ.rank key ≤ κ.rank e.2.1 := by
    intro e he
    have := List.head?_dropWhile_not p l
    rw [he] at this
    simpa [p] using this
  have h₂ : ∀ e ∈ l.dropWhile p, κ.rank key ≤ κ.rank e.2.1 := by
    have hs : (l.dropWhile p).Pairwise fun e e' => κ.rank e.2.1 < κ.rank e'.2.1 :=
      (hr.sorted _).sublist (List.dropWhile_sublist p)
    rcases hd : l.dropWhile p with _ | ⟨e₀, l'⟩
    · simp
    rw [hd] at hs hhead
    intro e he
    have h₀ := hhead e₀ rfl
    rcases List.mem_cons.1 he with rfl | he
    · exact h₀
    · exact h₀.trans (List.rel_of_pairwise_cons hs he).le
  refine ⟨_, _, hsplit, h₁, h₂, ?_⟩
  have hseg := hr.seg (κ.bin key)
  have hlen := hseg.length_le
  rw [show B (κ.bin key) = l from rfl, hsplit] at hseg hlen
  rw [List.length_append] at hlen
  have hstop : ∀ e, (l.dropWhile p).head? = some e → decide (0 < κ.cmp key e.2.1) = false := by
    intro e he
    have := hhead e he
    have := κ.cmp_pos key e.2.1
    exact decide_eq_false (by omega)
  unfold Raw.search
  rw [hseg.scan (fun e he => decide_eq_true ((κ.cmp_pos _ _).2 (h₁ e he))) hstop (by omega),
    Option.or_none]

/-- What the walk meets: the key's node, or the place where it belongs. -/
theorem hit (hr : Rep κ t B) (key : K) : ∃ l₁ l₂, B (κ.bin key) = l₁ ++ l₂
    ∧ (∀ e ∈ l₁, κ.rank e.2.1 < κ.rank key)
    ∧ t.search κ key = (l₁.getLast?.map Prod.fst, l₂.head?.map Prod.fst)
    ∧ ((∃ a k v l₃, l₂ = (a, k, v) :: l₃ ∧ κ.rank k = κ.rank key
          ∧ (∀ e ∈ l₃, κ.rank key < κ.rank e.2.1)
          ∧ t.hit κ key (t.search κ key).2 = some (a, k, v))
        ∨ (∀ e ∈ l₂, κ.rank key < κ.rank e.2.1) ∧ t.hit κ key (t.search κ key).2 = none) := by
  obtain ⟨l₁, l₂, hB, h₁, h₂, hs⟩ := hr.search key
  refine ⟨l₁, l₂, hB, h₁, hs, ?_⟩
  have hsort := hr.sorted (κ.bin key)
  rw [hB, List.pairwise_append] at hsort
  rcases l₂ with _ | ⟨⟨a, k, v⟩, l₃⟩
  · exact Or.inr ⟨by simp, by simp [hs, Raw.hit]⟩
  obtain ⟨n, hc⟩ := hr.cell (b := κ.bin key) (a := a) (d := (k, v)) (by rw [hB]; simp)
  have h₃ := fun e (he : e ∈ l₃) => List.rel_of_pairwise_cons hsort.2.1 he
  have hle := h₂ (a, k, v) List.mem_cons_self
  rcases hle.eq_or_lt with heq | hlt
  · refine Or.inl ⟨a, k, v, l₃, rfl, heq.symm, fun e he => heq ▸ h₃ e he, ?_⟩
    simp [hs, Raw.hit, hc, (κ.cmp_zero key k).2 heq]
  · refine Or.inr ⟨?_, ?_⟩
    · intro e he
      rcases List.mem_cons.1 he with rfl | he
      · exact hlt
      · exact hlt.trans (h₃ e he)
    · have : κ.cmp key k ≠ 0 := fun h0 => absurd ((κ.cmp_zero _ _).1 h0) hlt.ne
      simp [hs, Raw.hit, hc, this]

/-- Looking a key up finds the node of its rank. -/
theorem get_eq_some (hr : Rep κ t B) {key : K} {v : V} :
    t.get κ key = some v ↔ ∃ a k, (a, k, v) ∈ B (κ.bin key) ∧ κ.rank k = κ.rank key := by
  obtain ⟨l₁, l₂, hB, h₁, hs, ⟨a, k, w, l₃, rfl, hk, h₃, hh⟩ | ⟨h₂, hh⟩⟩ := hr.hit key
  · have hmem : (a, k, w) ∈ B (κ.bin key) := by rw [hB]; simp
    simp only [Raw.get, hh, Option.map_some, Option.some.injEq]
    constructor
    · rintro rfl
      exact ⟨a, k, hmem, hk⟩
    · rintro ⟨a', k', he, hk'⟩
      exact (congrArg (fun e => e.2.2) (hr.rank_unique hmem he (hk.trans hk'.symm)))
  · simp only [Raw.get, hh, Option.map_none, reduceCtorEq, false_iff]
    rintro ⟨a', k', he, hk'⟩
    rw [hB] at he
    rcases List.mem_append.1 he with he | he
    · exact absurd hk' (h₁ _ he).ne
    · exact absurd hk' (h₂ _ he).ne'

theorem get_eq_none (hr : Rep κ t B) {key : K} :
    t.get κ key = none ↔ ∀ e ∈ B (κ.bin key), κ.rank e.2.1 ≠ κ.rank key := by
  rw [Option.eq_none_iff_forall_ne_some]
  constructor
  · rintro h ⟨a, k, v⟩ he hk
    exact h v (hr.get_eq_some.2 ⟨a, k, he, hk⟩)
  · rintro h v hv
    obtain ⟨a, k, he, hk⟩ := hr.get_eq_some.1 hv
    exact h _ he hk

/-! ## Setting and deleting -/

/-- Two parts of a bin and what stands between them, still in order. -/
theorem sorted_insert {l₁ l₂ : List (ℕ × K × V)} {e₀ : ℕ × K × V}
    (h : (l₁ ++ l₂).Pairwise fun e e' => κ.rank e.2.1 < κ.rank e'.2.1)
    (h₁ : ∀ e ∈ l₁, κ.rank e.2.1 < κ.rank e₀.2.1) (h₂ : ∀ e ∈ l₂, κ.rank e₀.2.1 < κ.rank e.2.1) :
    (l₁ ++ e₀ :: l₂).Pairwise fun e e' => κ.rank e.2.1 < κ.rank e'.2.1 := by
  rw [List.pairwise_append] at h ⊢
  refine ⟨h.1, List.pairwise_cons.2 ⟨h₂, h.2.1⟩, fun e he e' he' => ?_⟩
  rcases List.mem_cons.1 he' with rfl | he'
  · exact h₁ e he
  · exact h.2.2 e he e' he'

/-- A new pair goes where the walk stopped, whichever of the three places that is. -/
theorem insertPair (hr : Rep κ t B) {key : K} {l₁ l₂ : List (ℕ × K × V)}
    (hB : B (κ.bin key) = l₁ ++ l₂) (h₁ : ∀ e ∈ l₁, κ.rank e.2.1 < κ.rank key)
    (h₂ : ∀ e ∈ l₂, κ.rank key < κ.rank e.2.1) (value : V) :
    Rep κ (t.insertPair κ key value (l₁.getLast?.map Prod.fst) (l₂.head?.map Prod.fst))
      (Function.update B (κ.bin key) (l₁ ++ (t.heap.brk, key, value) :: l₂)) := by
  have hseg := hr.seg (κ.bin key)
  have hsort := hr.sorted (κ.bin key)
  have hbin := hr.bin (κ.bin key)
  rw [hB] at hseg hsort hbin
  have hbin' : ∀ e ∈ l₁ ++ (t.heap.brk, key, value) :: l₂, κ.bin e.2.1 = κ.bin key := by
    intro e he
    simp only [List.mem_append, List.mem_cons] at he hbin
    rcases he with he | rfl | he
    · exact hbin e (.inl he)
    · rfl
    · exact hbin e (.inr he)
  have hsort' : (l₁ ++ (t.heap.brk, key, value) :: l₂).Pairwise
      fun e e' => κ.rank e.2.1 < κ.rank e'.2.1 := sorted_insert hsort h₁ h₂
  have hother : ∀ b', b' ≠ κ.bin key → ∀ e ∈ B b', ∀ e' ∈ l₁, some e.1 ≠ some e'.1 := by
    intro b' hb' e he e' he' ha
    have he'' : e' ∈ B (κ.bin key) := by rw [hB]; exact List.mem_append_left _ he'
    exact hb' (hr.bin_unique he he'' (Option.some.inj ha))
  unfold Raw.insertPair
  rcases List.eq_nil_or_concat' l₁ with rfl | ⟨l₁', ⟨c, y⟩, rfl⟩
  · -- at the start of the bin
    have hp : t.table (κ.bin key) = l₂.head?.map Prod.fst := by simpa using hseg.head
    rw [if_pos hp.symm]
    refine hr.update (fun b' hb' => Function.update_of_ne hb' _ _) (fun b' hb' e he => ?_) ?_
      hbin' hsort'
    · exact Heap.cell_link_of_ne ((hr.seg b').lt_brk he) (show some e.1 ≠ none by simp) _ _ none
    · rw [← hp]
      simpa using Heap.Seg.link_head hseg (key, value)
  rw [List.append_assoc, List.singleton_append] at hseg
  have hlast : (l₁' ++ [(c, y)]).getLast?.map Prod.fst = some c := by simp
  rw [if_neg hseg.next_ne_first, hlast]
  have hc : ∀ b', b' ≠ κ.bin key → ∀ e ∈ B b', some e.1 ≠ some c := fun b' hb' e he =>
    hother b' hb' e he (c, y) (by simp)
  cases l₂ with
  | nil =>
    -- at its end
    rw [List.head?_nil, Option.map_none, if_pos rfl]
    refine hr.update (fun _ _ => rfl) (fun b' hb' e he => ?_) ?_ hbin' hsort'
    · rw [Heap.cell_setNext_of_ne _ (hc b' hb' e he),
        Heap.cell_alloc_of_lt _ _ ((hr.seg b').lt_brk he)]
    · exact Heap.Seg.link_last hseg (key, value)
  | cons e₂ l₂ =>
    -- between two nodes
    rw [List.head?_cons, Option.map_some, if_neg (by simp)]
    refine hr.update (fun _ _ => rfl) (fun b' hb' e he => ?_) ?_ hbin' hsort'
    · exact Heap.cell_link_of_ne ((hr.seg b').lt_brk he) (hc b' hb' e he) _ _ _
    · simpa using Heap.Seg.link_after hseg (key, value)

/-- Setting a key overwrites the value in its node, or adds a node for it. -/
theorem set (hr : Rep κ t B) (key : K) (value : V) : ∃ l₁ l₂ a k,
    κ.rank k = κ.rank key
    ∧ Rep κ (t.set κ key value) (Function.update B (κ.bin key) (l₁ ++ (a, k, value) :: l₂))
    ∧ ((∃ v, B (κ.bin key) = l₁ ++ (a, k, v) :: l₂)
      ∨ B (κ.bin key) = l₁ ++ l₂ ∧ ∀ e ∈ B (κ.bin key), κ.rank e.2.1 ≠ κ.rank key) := by
  obtain ⟨l₁, l₂, hB, h₁, hs, ⟨a, k, v, l₃, rfl, hk, h₃, hh⟩ | ⟨h₂, hh⟩⟩ := hr.hit key
  · refine ⟨l₁, l₃, a, k, hk, ?_, .inl ⟨v, hB⟩⟩
    have hset : t.set κ key value = { t with heap := t.heap.setData a (k, value) } := by
      simp only [Raw.set, hh]
    have hmem : (a, k, v) ∈ B (κ.bin key) := by rw [hB]; simp
    have hseg := hr.seg (κ.bin key)
    have hsort := hr.sorted (κ.bin key)
    have hbin := hr.bin (κ.bin key)
    rw [hB] at hseg hsort hbin
    have hnd := hseg.nodup
    simp only [List.map_append, List.map_cons, List.nodup_append, List.nodup_cons] at hnd
    have hsort' := hsort.sublist (List.Sublist.append_left (List.sublist_cons_self _ _) l₁)
    rw [hset]
    refine hr.update (fun _ _ => rfl) (fun b' hb' e he => ?_) ?_ ?_
      (sorted_insert hsort' (fun e he => hk ▸ h₁ e he) (fun e he => hk ▸ h₃ e he))
    · refine Heap.cell_setData_of_ne _ (fun ha => hb' ?_) _
      exact hr.bin_unique he hmem ha
    · exact hseg.setData (fun h => hnd.2.2 a h a List.mem_cons_self rfl) hnd.2.1.1 _
    · intro e he
      simp only [List.mem_append, List.mem_cons] at he hbin
      rcases he with he | rfl | he
      · exact hbin e (.inl he)
      · exact hbin (a, k, v) (.inr (.inl rfl))
      · exact hbin e (.inr (.inr he))
  · refine ⟨l₁, l₂, t.heap.brk, key, rfl, ?_, .inr ⟨hB, ?_⟩⟩
    · simp only [Raw.set, hh]
      simp only [hs]
      exact hr.insertPair hB h₁ h₂ value
    · rw [hB]
      intro e he
      rcases List.mem_append.1 he with he | he
      · exact (h₁ e he).ne
      · exact (h₂ e he).ne'

/-- Deleting a key takes its node out; a cursor on that node moves on to the next one. -/
theorem del (hr : Rep κ t B) (key : K) :
    (∃ l₁ l₂ a k v, B (κ.bin key) = l₁ ++ (a, k, v) :: l₂ ∧ κ.rank k = κ.rank key
      ∧ Rep κ (t.del κ key) (Function.update B (κ.bin key) (l₁ ++ l₂))
      ∧ (t.del κ key).nextCurrentBin = t.nextCurrentBin
      ∧ (t.del κ key).nextLastVisitEntry =
        if some a = t.nextLastVisitEntry then l₂.head?.map Prod.fst else t.nextLastVisitEntry)
    ∨ (∀ e ∈ B (κ.bin key), κ.rank e.2.1 ≠ κ.rank key) ∧ t.del κ key = t := by
  obtain ⟨l₁, l₂, hB, h₁, hs, ⟨a, k, v, l₃, rfl, hk, h₃, hh⟩ | ⟨h₂, hh⟩⟩ := hr.hit key
  · have hdel : t.del κ key = t.unlink (κ.bin key) a (l₁.getLast?.map Prod.fst) := by
      simp only [Raw.del, hh]
      simp only [hs]
    have hmem : (a, k, v) ∈ B (κ.bin key) := by rw [hB]; simp
    have hseg := hr.seg (κ.bin key)
    have hsort := hr.sorted (κ.bin key)
    have hbin := hr.bin (κ.bin key)
    rw [hB] at hseg hsort hbin
    have hsub : (l₁ ++ l₃).Sublist (l₁ ++ (a, k, v) :: l₃) :=
      List.Sublist.append_left (List.sublist_cons_self _ _) l₁
    have hbin' : ∀ e ∈ l₁ ++ l₃, κ.bin e.2.1 = κ.bin key := fun e he => hbin e (hsub.subset he)
    obtain ⟨m, -, rfl, n, hca, hs₃⟩ := Heap.seg_append.1 hseg
    have hn : n = l₃.head?.map Prod.fst := by simpa using hs₃.head
    have hnext : t.heap.nextOf (some a) = l₃.head?.map Prod.fst := by
      rw [← hn, t.heap.nextOf_some hca]
    refine .inl ⟨l₁, l₃, a, k, v, hB, hk, ?_, ?_, ?_⟩
    · rw [hdel]
      have hfree : ∀ b', b' ≠ κ.bin key → ∀ e ∈ B b', e.1 ≠ a := fun b' hb' e he ha =>
        hb' (hr.bin_unique he hmem ha)
      unfold Raw.unlink
      rcases List.eq_nil_or_concat' l₁ with rfl | ⟨l₁', ⟨c, y⟩, rfl⟩
      · have hp : t.table (κ.bin key) = some a := hseg.1
        simp only [if_pos hp.symm]
        refine hr.update (fun b' hb' => Function.update_of_ne hb' _ _) (fun b' hb' e he => ?_) ?_
          hbin' (hsort.sublist hsub)
        · exact Heap.cell_free_of_ne _ (hfree b' hb' e he)
        · have hnd := hseg.nodup
          rw [List.nil_append, List.map_cons, List.nodup_cons] at hnd
          simp only [Function.update_self, List.nil_append, t.heap.nextOf_some hca]
          exact hs₃.free hnd.1
      · have hne : some a ≠ t.table (κ.bin key) := by
          have := hseg
          rw [List.append_assoc, List.singleton_append] at this
          exact this.next_ne_first
        simp only [if_neg hne]
        refine hr.update (fun _ _ => rfl) (fun b' hb' e he => ?_) ?_ hbin' (hsort.sublist hsub)
        · have hc₀ : (c, y) ∈ B (κ.bin key) := by rw [hB]; simp
          have hc : some e.1 ≠ some c := fun h => hb' <|
            hr.bin_unique he hc₀ (Option.some.inj h)
          simp only [List.getLast?_append, List.getLast?_singleton, Option.some_or,
            Option.map_some]
          rw [Heap.cell_free_of_ne _ (hfree b' hb' e he), Heap.cell_setNext_of_ne _ hc]
        · rw [List.append_assoc, List.singleton_append] at hseg
          simpa using Heap.Seg.unlink_after hseg
    · rw [hdel]
      unfold Raw.unlink
      split_ifs <;> rfl
    · rw [hdel]
      unfold Raw.unlink
      split_ifs <;> simp [hnext]
  · refine .inr ⟨?_, by simp only [Raw.del, hh]⟩
    rw [hB]
    intro e he
    rcases List.mem_append.1 he with he | he
    · exact (h₁ e he).ne
    · exact (h₂ e he).ne'

theorem clearBins_table (t : Raw K V) (n b : ℕ) :
    (t.clearBins n).table b = if b < n then none else t.table b := by
  induction n with
  | zero => rfl
  | succ n ih =>
    simp only [Raw.clearBins, Function.update_apply, ih]
    split_ifs <;> first | rfl | omega

theorem refresh (hr : Rep κ t B) : Rep κ (t.refresh κ) fun _ => [] where
  seg := fun b => by
    change (t.clearBins κ.size).table b = none
    rw [clearBins_table]
    split_ifs with hb
    · rfl
    · -- no key has its bin past the last one
      have hseg := hr.seg b
      rcases hBb : B b with _ | ⟨e, l⟩
      · rw [hBb] at hseg
        exact hseg
      · have := κ.bin_lt e.2.1
        rw [hr.bin b e (by rw [hBb]; exact List.mem_cons_self)] at this
        omega
  bin := fun _ _ he => absurd he List.not_mem_nil
  sorted := fun _ => List.Pairwise.nil

end Rep

end CMTestbed.Lib
