import Mathlib.Data.Finset.Card
import Mathlib.Data.List.Sort
import Mathlib.Tactic.Linarith

/-!
# Linked lists in a heap

A heap holds cells, each with its data and a pointer to the next one; `none` is the null pointer.
`Seg h p l q` says that following the cells from `p` passes exactly `l` and ends at `q`.  Segments
compose (`seg_append`), are untouched by writes elsewhere (`Seg.frame`), and a null-terminated one
is determined by its first pointer, so it repeats no address (`Seg.nodup`).
-/

namespace CMTestbed.Lib

variable {α : Type*}

/-- A node of a singly linked list. -/
structure Cell (α : Type*) where
  data : α
  next : Option ℕ

/-- What each address holds, and the next address to hand out.  Addresses are never reused. -/
structure Heap (α : Type*) where
  cell : ℕ → Option (Cell α)
  brk : ℕ
  fresh : ∀ a, brk ≤ a → cell a = none

namespace Heap

def empty : Heap α where
  cell := fun _ => none
  brk := 0
  fresh := fun _ _ => rfl

/-- A fresh cell, at address `h.brk`. -/
def alloc (h : Heap α) (c : Cell α) : Heap α where
  cell := Function.update h.cell h.brk (some c)
  brk := h.brk + 1
  fresh := fun a ha => by
    rw [Function.update_of_ne (by omega), h.fresh a (by omega)]

/-- Changes what an allocated address holds; elsewhere it does nothing. -/
def modify (h : Heap α) (a : ℕ) (f : Cell α → Cell α) : Heap α where
  cell := Function.update h.cell a ((h.cell a).map f)
  brk := h.brk
  fresh := fun b hb => by
    rcases eq_or_ne b a with rfl | hne
    · rw [Function.update_self, h.fresh b hb, Option.map_none]
    · rw [Function.update_of_ne hne, h.fresh b hb]

/-- `p->next = q`; nothing happens through a null pointer. -/
def setNext (h : Heap α) (p q : Option ℕ) : Heap α :=
  p.elim h fun a => h.modify a fun c => { c with next := q }

def setData (h : Heap α) (a : ℕ) (x : α) : Heap α :=
  h.modify a fun c => { c with data := x }

def free (h : Heap α) (a : ℕ) : Heap α where
  cell := Function.update h.cell a none
  brk := h.brk
  fresh := fun b hb => by
    rcases eq_or_ne b a with rfl | hne
    · rw [Function.update_self]
    · rw [Function.update_of_ne hne, h.fresh b hb]

/-- The cell `p` points to. -/
def deref (h : Heap α) (p : Option ℕ) : Option (Cell α) :=
  p.bind h.cell

/-- `p->next`. -/
def nextOf (h : Heap α) (p : Option ℕ) : Option ℕ :=
  (h.deref p).bind Cell.next

/-- `while (next != NULL && go(next)) { last = next; next = next->next; }` -/
def scan (h : Heap α) (go : α → Bool) : ℕ → Option ℕ → Option ℕ → Option ℕ × Option ℕ
  | 0, last, next => (last, next)
  | fuel + 1, last, next =>
    match h.deref next with
    | none => (last, next)
    | some c => if go c.data then scan h go fuel next c.next else (last, next)

/-- Frees the cells from `p` on. -/
def freeFrom : ℕ → Option ℕ → Heap α → Heap α
  | 0, _, h => h
  | fuel + 1, p, h =>
    match p with
    | none => h
    | some a => freeFrom fuel (h.nextOf p) (h.free a)

/-- The addresses and data met by following `p`. -/
def follow (h : Heap α) : ℕ → Option ℕ → List (ℕ × α)
  | 0, _ => []
  | fuel + 1, p =>
    match p with
    | none => []
    | some a =>
      match h.cell a with
      | none => []
      | some c => (a, c.data) :: follow h fuel c.next

/-- The cells from `p` up to `q` are those of `l`. -/
def Seg (h : Heap α) : Option ℕ → List (ℕ × α) → Option ℕ → Prop
  | p, [], q => p = q
  | p, (a, x) :: l, q => p = some a ∧ ∃ n, h.cell a = some ⟨x, n⟩ ∧ Seg h n l q

section Access

variable (h : Heap α)

@[simp] theorem deref_none : h.deref none = none := rfl
@[simp] theorem deref_some (a : ℕ) : h.deref (some a) = h.cell a := rfl

theorem nextOf_some {a : ℕ} {c : Cell α} (hc : h.cell a = some c) : h.nextOf (some a) = c.next := by
  simp [nextOf, hc]

theorem cell_modify_of_ne {a b : ℕ} (hne : b ≠ a) (f : Cell α → Cell α) :
    (h.modify a f).cell b = h.cell b :=
  Function.update_of_ne hne _ _

theorem cell_modify_self (a : ℕ) (f : Cell α → Cell α) :
    (h.modify a f).cell a = (h.cell a).map f :=
  Function.update_self _ _ _

theorem cell_setNext_of_ne {b : ℕ} {p : Option ℕ} (hne : some b ≠ p) (q : Option ℕ) :
    (h.setNext p q).cell b = h.cell b := by
  rcases p with _ | a
  · rfl
  · exact h.cell_modify_of_ne (fun hb => hne (congrArg some hb)) _

theorem cell_setNext_self {a : ℕ} {x : α} {n : Option ℕ} (hc : h.cell a = some ⟨x, n⟩)
    (q : Option ℕ) : (h.setNext (some a) q).cell a = some ⟨x, q⟩ := by
  simp [setNext, cell_modify_self, hc]

theorem cell_setData_of_ne {a b : ℕ} (hne : b ≠ a) (x : α) :
    (h.setData a x).cell b = h.cell b :=
  h.cell_modify_of_ne hne _

theorem cell_setData_self {a : ℕ} {x : α} {n : Option ℕ} (hc : h.cell a = some ⟨x, n⟩) (y : α) :
    (h.setData a y).cell a = some ⟨y, n⟩ := by
  simp [setData, cell_modify_self, hc]

theorem setData_eq_self {a : ℕ} {c : Cell α} (hc : h.cell a = some c) :
    h.setData a c.data = h := by
  have hcell : Function.update h.cell a ((h.cell a).map fun c' => { c' with data := c.data })
      = h.cell := by
    rw [hc]
    exact Function.update_eq_self_iff.2 hc.symm
  rcases h with ⟨cell, brk, fresh⟩
  unfold setData modify
  congr

theorem cell_free_of_ne {a b : ℕ} (hne : b ≠ a) : (h.free a).cell b = h.cell b :=
  Function.update_of_ne hne _ _

theorem cell_alloc_self (c : Cell α) : (h.alloc c).cell h.brk = some c :=
  Function.update_self _ _ _

theorem cell_alloc_of_lt (c : Cell α) {b : ℕ} (hb : b < h.brk) : (h.alloc c).cell b = h.cell b :=
  Function.update_of_ne (by omega) _ _

theorem lt_brk {a : ℕ} {c : Cell α} (hc : h.cell a = some c) : a < h.brk := by
  by_contra hlt
  rw [h.fresh a (by omega)] at hc
  cases hc

end Access

/-! ## Segments -/

theorem Seg.cons {h : Heap α} {a : ℕ} {x : α} {n q : Option ℕ} {l : List (ℕ × α)}
    (hc : h.cell a = some ⟨x, n⟩) (hs : h.Seg n l q) : h.Seg (some a) ((a, x) :: l) q :=
  ⟨rfl, n, hc, hs⟩

theorem seg_append {h : Heap α} : ∀ {l₁ l₂ : List (ℕ × α)} {p q : Option ℕ},
    h.Seg p (l₁ ++ l₂) q ↔ ∃ m, h.Seg p l₁ m ∧ h.Seg m l₂ q
  | [], l₂, p, q => by simp [Seg]
  | (a, x) :: l₁, l₂, p, q => by
    simp only [List.cons_append, Seg, @seg_append h l₁]
    constructor
    · rintro ⟨hp, n, hc, m, h1, h2⟩
      exact ⟨m, ⟨hp, n, hc, h1⟩, h2⟩
    · rintro ⟨m, ⟨hp, n, hc, h1⟩, h2⟩
      exact ⟨hp, n, hc, m, h1, h2⟩

/-- A segment depends on its own cells only. -/
theorem Seg.frame {h h' : Heap α} : ∀ {l : List (ℕ × α)} {p q : Option ℕ},
    (∀ e ∈ l, h'.cell e.1 = h.cell e.1) → h.Seg p l q → h'.Seg p l q
  | [], _, _, _, hs => hs
  | (a, x) :: l, p, q, hcell, hs => by
    obtain ⟨hp, n, hc, hs⟩ := hs
    refine ⟨hp, n, ?_, Seg.frame (fun e he => hcell e (List.mem_cons_of_mem _ he)) hs⟩
    rw [hcell (a, x) List.mem_cons_self, hc]

theorem Seg.cell {h : Heap α} : ∀ {l : List (ℕ × α)} {p q : Option ℕ} {a : ℕ} {x : α},
    h.Seg p l q → (a, x) ∈ l → ∃ n, h.cell a = some ⟨x, n⟩
  | (b, y) :: l, p, q, a, x, hs, he => by
    obtain ⟨-, n, hc, hs⟩ := hs
    rcases List.mem_cons.1 he with he | he
    · cases he
      exact ⟨n, hc⟩
    · exact hs.cell he

theorem Seg.lt_brk {h : Heap α} {l : List (ℕ × α)} {p q : Option ℕ} (hs : h.Seg p l q)
    {e : ℕ × α} (he : e ∈ l) : e.1 < h.brk := by
  obtain ⟨n, hc⟩ := hs.cell (a := e.1) (x := e.2) he
  exact h.lt_brk hc

/-- The first pointer of a segment is its first address, or its end if it is empty. -/
theorem Seg.head {h : Heap α} {l : List (ℕ × α)} {p q : Option ℕ} (hs : h.Seg p l q) :
    p = (l.head?.map Prod.fst).or q := by
  cases l with
  | nil => exact hs
  | cons e l => exact hs.1

theorem Seg.det {h : Heap α} : ∀ {l l' : List (ℕ × α)} {p : Option ℕ},
    h.Seg p l none → h.Seg p l' none → l = l'
  | [], [], _, _, _ => rfl
  | [], (b, y) :: l', p, hs, hs' => by
    cases hs
    cases hs'.1
  | (a, x) :: l, [], p, hs, hs' => by
    cases hs'
    cases hs.1
  | (a, x) :: l, (b, y) :: l', p, hs, hs' => by
    obtain ⟨hp, n, hc, hs⟩ := hs
    obtain ⟨hp', n', hc', hs'⟩ := hs'
    obtain rfl : a = b := Option.some.inj (hp.symm.trans hp')
    rw [hc] at hc'
    cases hc'
    rw [Seg.det hs hs']

/-- A null-terminated segment repeats no address: from a repeated one it would go on for ever. -/
theorem Seg.nodup {h : Heap α} : ∀ {l : List (ℕ × α)} {p : Option ℕ},
    h.Seg p l none → (l.map Prod.fst).Nodup
  | [], _, _ => List.nodup_nil
  | (a, x) :: l, p, hs => by
    obtain ⟨-, n, hc, hs'⟩ := hs
    rw [List.map_cons, List.nodup_cons]
    refine ⟨fun ha => ?_, hs'.nodup⟩
    obtain ⟨⟨b, y⟩, hb, rfl⟩ := List.mem_map.1 ha
    obtain ⟨l₁, l₂, rfl⟩ := List.append_of_mem hb
    obtain ⟨m, -, hm, n', hc', hs₂⟩ := seg_append.1 hs'
    rw [hc] at hc'
    cases hc'
    have := congrArg List.length (hs'.det hs₂)
    simp only [List.length_append, List.length_cons] at this
    omega

theorem Seg.length_le {h : Heap α} {l : List (ℕ × α)} {p : Option ℕ} (hs : h.Seg p l none) :
    l.length ≤ h.brk := by
  have hsub : (l.map Prod.fst).toFinset ⊆ Finset.range h.brk := by
    intro a ha
    obtain ⟨e, he, rfl⟩ := List.mem_map.1 (List.mem_toFinset.1 ha)
    exact Finset.mem_range.2 (hs.lt_brk he)
  have hcard := Finset.card_le_card hsub
  rwa [List.toFinset_card_of_nodup hs.nodup, List.length_map, Finset.card_range] at hcard

theorem Seg.follow {h : Heap α} : ∀ {l : List (ℕ × α)} {p : Option ℕ} {fuel : ℕ},
    h.Seg p l none → l.length ≤ fuel → h.follow fuel p = l
  | [], p, fuel, hs, _ => by
    cases hs
    cases fuel <;> rfl
  | (a, x) :: l, p, 0, _, hf => by simp at hf
  | (a, x) :: l, p, fuel + 1, hs, hf => by
    obtain ⟨rfl, n, hc, hs⟩ := hs
    simp only [Heap.follow, hc]
    rw [hs.follow (by simpa using hf)]

/-- Where a scan stops: past the cells it may go on from, with the last of them behind. -/
theorem Seg.scan {h : Heap α} {go : α → Bool} : ∀ {l₁ l₂ : List (ℕ × α)} {p last : Option ℕ}
    {fuel : ℕ}, h.Seg p (l₁ ++ l₂) none → (∀ e ∈ l₁, go e.2 = true) →
      (∀ e, l₂.head? = some e → go e.2 = false) → l₁.length ≤ fuel →
      h.scan go fuel last p
        = ((l₁.getLast?.map Prod.fst).or last, l₂.head?.map Prod.fst)
  | [], l₂, p, last, fuel, hs, _, h₂, _ => by
    have hp : p = l₂.head?.map Prod.fst := by simpa using hs.head
    cases fuel with
    | zero => simp [Heap.scan, hp]
    | succ fuel =>
      cases l₂ with
      | nil =>
        obtain rfl : p = none := hp
        simp [Heap.scan]
      | cons e l₂ =>
        obtain ⟨rfl, n, hc, -⟩ := hs
        simp [Heap.scan, hc, h₂ e rfl]
  | (a, x) :: l₁, l₂, p, last, 0, _, _, _, hf => by simp at hf
  | (a, x) :: l₁, l₂, p, last, fuel + 1, hs, h₁, h₂, hf => by
    obtain ⟨rfl, n, hc, hs⟩ := hs
    have hx : go x = true := h₁ (a, x) List.mem_cons_self
    simp only [Heap.scan, deref_some, hc, hx, if_true]
    rw [Seg.scan hs (fun e he => h₁ e (List.mem_cons_of_mem _ he)) h₂ (by simpa using hf)]
    cases l₁ with
    | nil => simp
    | cons e l₁ => simp [List.getLast?_cons]

/-! ## Changing a list -/

theorem Seg.alloc {h : Heap α} {l : List (ℕ × α)} {p q : Option ℕ} (hs : h.Seg p l q)
    (c : Cell α) : (h.alloc c).Seg p l q :=
  hs.frame fun _ he => h.cell_alloc_of_lt c (hs.lt_brk he)

theorem Seg.free {h : Heap α} {l : List (ℕ × α)} {p q : Option ℕ} (hs : h.Seg p l q) {a : ℕ}
    (ha : a ∉ l.map Prod.fst) : (h.free a).Seg p l q :=
  hs.frame fun _ he => h.cell_free_of_ne fun hea => ha (hea ▸ List.mem_map_of_mem he)

theorem Seg.setNext_of_notMem {h : Heap α} {l : List (ℕ × α)} {p q : Option ℕ} (hs : h.Seg p l q)
    {r : Option ℕ} (hr : ∀ e ∈ l, some e.1 ≠ r) (m : Option ℕ) : (h.setNext r m).Seg p l q :=
  hs.frame fun _ he => h.cell_setNext_of_ne (hr _ he) m

theorem Seg.setData_of_notMem {h : Heap α} {l : List (ℕ × α)} {p q : Option ℕ} (hs : h.Seg p l q)
    {a : ℕ} (ha : ∀ e ∈ l, e.1 ≠ a) (x : α) : (h.setData a x).Seg p l q :=
  hs.frame fun _ he => h.cell_setData_of_ne (ha _ he) x

/-- Pointing the last cell of a segment elsewhere moves its end. -/
theorem Seg.redirect {h : Heap α} {l : List (ℕ × α)} {a : ℕ} {x : α} {p q : Option ℕ}
    (hs : h.Seg p (l ++ [(a, x)]) q) (ha : a ∉ l.map Prod.fst) (m : Option ℕ) :
    (h.setNext (some a) m).Seg p (l ++ [(a, x)]) m := by
  obtain ⟨r, h1, rfl, n, hc, -⟩ := seg_append.1 hs
  refine seg_append.2 ⟨some a, h1.setNext_of_notMem (fun _ he hea => ha ?_) m, ?_⟩
  · exact Option.some.inj hea ▸ List.mem_map_of_mem he
  · exact Seg.cons (h.cell_setNext_self hc m) rfl

/-- Writing new data into a cell in the middle of a list. -/
theorem Seg.setData {h : Heap α} {l₁ l₂ : List (ℕ × α)} {a : ℕ} {x : α} {p q : Option ℕ}
    (hs : h.Seg p (l₁ ++ (a, x) :: l₂) q) (h₁ : a ∉ l₁.map Prod.fst) (h₂ : a ∉ l₂.map Prod.fst)
    (y : α) : (h.setData a y).Seg p (l₁ ++ (a, y) :: l₂) q := by
  obtain ⟨m, hs₁, rfl, n, hc, hs₂⟩ := seg_append.1 hs
  refine seg_append.2 ⟨some a, hs₁.setData_of_notMem ?_ y, Seg.cons (h.cell_setData_self hc y) ?_⟩
  · exact fun e he hea => h₁ (hea ▸ List.mem_map_of_mem he)
  · refine hs₂.setData_of_notMem ?_ y
    exact fun e he hea => h₂ (hea ▸ List.mem_map_of_mem he)

section Link

variable {h : Heap α} {l₁ l₂ : List (ℕ × α)} {p : Option ℕ} {c : ℕ} {y : α}

/-- What follows a cell of a list is not the list's first cell. -/
theorem Seg.next_ne_first (hs : h.Seg p (l₁ ++ (c, y) :: l₂) none) :
    l₂.head?.map Prod.fst ≠ p := by
  rintro rfl
  rw [show l₁ ++ (c, y) :: l₂ = (l₁ ++ [(c, y)]) ++ l₂ by simp] at hs
  obtain ⟨m, -, hs₂⟩ := seg_append.1 hs
  have hm : m = l₂.head?.map Prod.fst := by simpa using hs₂.head
  have := congrArg List.length (hs.det (hm ▸ hs₂))
  simp only [List.length_append, List.length_singleton] at this
  omega

/-- Linking a fresh cell in behind `last` changes no cell but these two. -/
theorem cell_link_of_ne {b : ℕ} (hb : b < h.brk) {last : Option ℕ} (hl : some b ≠ last)
    (x : Cell α) (n m : Option ℕ) :
    (((h.alloc x).setNext (some h.brk) n).setNext last m).cell b = h.cell b := by
  have hne : some b ≠ some h.brk := fun h => by cases h; omega
  rw [cell_setNext_of_ne _ hl, cell_setNext_of_ne _ hne, cell_alloc_of_lt _ _ hb]

/-- A fresh cell in front of a list. -/
theorem Seg.link_head (hs : h.Seg p l₂ none) (x : α) :
    ((h.alloc ⟨x, none⟩).setNext (some h.brk) p).Seg (some h.brk) ((h.brk, x) :: l₂) none := by
  refine Seg.cons (cell_setNext_self _ (h.cell_alloc_self _) p) ?_
  refine (hs.alloc _).setNext_of_notMem (fun e he hea => ?_) p
  have := hs.lt_brk he
  have := Option.some.inj hea
  omega

/-- A fresh cell behind the last one. -/
theorem Seg.link_last (hs : h.Seg p (l₁ ++ [(c, y)]) none) (x : α) :
    ((h.alloc ⟨x, none⟩).setNext (some c) (some h.brk)).Seg p
      (l₁ ++ [(c, y)] ++ [(h.brk, x)]) none := by
  have hc : c < h.brk := hs.lt_brk (e := (c, y)) (by simp)
  have hnd := hs.nodup
  simp only [List.map_append, List.map_cons, List.map_nil, List.nodup_append] at hnd
  refine seg_append.2 ⟨some h.brk, (hs.alloc _).redirect (fun hcl => ?_) _, ?_⟩
  · exact hnd.2.2 c hcl c List.mem_cons_self rfl
  · refine Seg.cons ?_ rfl
    rw [cell_setNext_of_ne _ (fun hbc => by cases hbc; omega), h.cell_alloc_self]

/-- A fresh cell between two others. -/
theorem Seg.link_after (hs : h.Seg p (l₁ ++ (c, y) :: l₂) none) (x : α) :
    (((h.alloc ⟨x, none⟩).setNext (some h.brk) (l₂.head?.map Prod.fst)).setNext (some c)
      (some h.brk)).Seg p (l₁ ++ (c, y) :: (h.brk, x) :: l₂) none := by
  have hc : c < h.brk := hs.lt_brk (e := (c, y)) (by simp)
  have hnd := hs.nodup
  simp only [List.map_append, List.map_cons, List.nodup_append, List.nodup_cons] at hnd
  rw [show l₁ ++ (c, y) :: l₂ = (l₁ ++ [(c, y)]) ++ l₂ by simp] at hs
  obtain ⟨m, hs₁, hs₂⟩ := seg_append.1 hs
  have hm : m = l₂.head?.map Prod.fst := by simpa using hs₂.head
  rw [← hm, show l₁ ++ (c, y) :: (h.brk, x) :: l₂ = (l₁ ++ [(c, y)]) ++ (h.brk, x) :: l₂ by simp]
  refine seg_append.2 ⟨some h.brk, ?_, ?_⟩
  · refine ((hs₁.alloc _).setNext_of_notMem (fun e he hea => ?_) m).redirect (fun hcl => ?_) _
    · have := hs₁.lt_brk he
      have := Option.some.inj hea
      omega
    · exact hnd.2.2 c hcl c List.mem_cons_self rfl
  · refine (hs₂.link_head x).setNext_of_notMem (fun e he hea => ?_) _
    obtain rfl := Option.some.inj hea
    rcases List.mem_cons.1 he with rfl | he
    · omega
    · exact hnd.2.1.1 (List.mem_map_of_mem he)

/-- Taking a cell out from behind another. -/
theorem Seg.unlink_after {a : ℕ} {x : α} (hs : h.Seg p (l₁ ++ (c, y) :: (a, x) :: l₂) none) :
    ((h.setNext (some c) (h.nextOf (some a))).free a).Seg p (l₁ ++ (c, y) :: l₂) none := by
  have hnd := hs.nodup
  simp only [List.map_append, List.map_cons, List.nodup_append, List.nodup_cons,
    List.mem_cons, not_or] at hnd
  rw [show l₁ ++ (c, y) :: (a, x) :: l₂ = (l₁ ++ [(c, y)]) ++ (a, x) :: l₂ by simp] at hs
  obtain ⟨m, hs₁, rfl, n, hca, hs₂⟩ := seg_append.1 hs
  rw [h.nextOf_some hca, show l₁ ++ (c, y) :: l₂ = (l₁ ++ [(c, y)]) ++ l₂ by simp]
  refine Seg.free (seg_append.2 ⟨n, hs₁.redirect (fun hcl => ?_) n, ?_⟩) (fun ha => ?_)
  · exact hnd.2.2 c hcl c (by simp) rfl
  · refine hs₂.setNext_of_notMem (fun e he hea => ?_) n
    obtain rfl := Option.some.inj hea
    exact hnd.2.1.1.2 (List.mem_map_of_mem he)
  · simp only [List.map_append, List.map_cons, List.map_nil, List.mem_append,
      List.mem_singleton] at ha
    rcases ha with (ha | rfl) | ha
    · exact hnd.2.2 a ha a (by simp) rfl
    · exact hnd.2.1.1.1 rfl
    · exact hnd.2.1.2.1 ha

end Link

end Heap

end CMTestbed.Lib
