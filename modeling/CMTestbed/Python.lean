import Mathlib.Data.List.AList

/-!
# The scripts' dictionaries and exceptions

A dictionary holds each key once.  Where a script walks over one, the order is here that of the
association list.
-/

namespace CMTestbed

/-- What ends a script early; `endless` is a loop that does not end. -/
inductive PyError
  | keyError
  | indexError
  | valueError
  | assertionError
  | zeroDivisionError
  | unboundLocalError
  | endless
  deriving DecidableEq, Repr

theorem bind_eq_ok {ε : Type*} {α β : Type u} {x : Except ε α} {f : α → Except ε β} {b : β} :
    (x >>= f) = .ok b ↔ ∃ a, x = .ok a ∧ f a = .ok b := by
  cases x <;> simp [bind, Except.bind]

section Loops

variable {ε : Type*} {α β : Type} {f : β → α → Except ε β} {l : List α}

theorem foldlM_eq_ok {g : β → α → β} (h : ∀ a ∈ l, ∀ b, f b a = .ok (g b a)) (b : β) :
    l.foldlM f b = .ok (l.foldl g b) := by
  induction l generalizing b with
  | nil => rfl
  | cons a l ih =>
    rw [List.forall_mem_cons] at h
    rw [List.foldlM_cons, h.1 b]
    exact ih h.2 (g b a)

/-- Only one exception can be raised, and one of the items raises it. -/
theorem foldlM_eq_error {e : ε} (h : ∀ a ∈ l, ∀ b e', f b a = .error e' → e' = e)
    (hex : ∃ a ∈ l, ∀ b, f b a = .error e) (b : β) : l.foldlM f b = .error e := by
  induction l generalizing b with
  | nil =>
    obtain ⟨a, ha, -⟩ := hex
    cases ha
  | cons a l ih =>
    rw [List.forall_mem_cons] at h
    rw [List.foldlM_cons]
    cases hb : f b a with
    | error e' =>
      rw [h.1 b e' hb]
      rfl
    | ok b' =>
      obtain ⟨a', ha', hall⟩ := hex
      obtain rfl | ha' := List.mem_cons.1 ha'
      · rw [hall b] at hb
        cases hb
      · exact ih h.2 ⟨a', ha', hall⟩ b'

/-- A loop that raises nothing raises nothing on any of its items. -/
theorem exists_of_foldlM_eq_ok {b b' : β} (h : l.foldlM f b = .ok b') {a : α} (ha : a ∈ l) :
    ∃ c c', f c a = .ok c' := by
  induction l generalizing b with
  | nil => cases ha
  | cons a' l ih =>
    rw [List.foldlM_cons] at h
    obtain ⟨b₁, hb, hl⟩ := bind_eq_ok.1 h
    obtain rfl | ha := List.mem_cons.1 ha
    · exact ⟨b, b₁, hb⟩
    · exact ih hl ha

/-- What every turn keeps holds after a loop that raises nothing. -/
theorem foldlM_inv {P : β → Prop} (h : ∀ a ∈ l, ∀ b b', P b → f b a = .ok b' → P b') {b b' : β}
    (hb : P b) (hl : l.foldlM f b = .ok b') : P b' := by
  induction l generalizing b with
  | nil =>
    cases hl
    exact hb
  | cons a l ih =>
    rw [List.forall_mem_cons] at h
    rw [List.foldlM_cons] at hl
    obtain ⟨b₁, hb₁, hl⟩ := bind_eq_ok.1 hl
    exact ih h.2 (h.1 b b₁ hb hb₁) hl

end Loops

abbrev Dict (K V : Type*) := AList fun _ : K => V

namespace Dict

variable {K V : Type*} [DecidableEq K]

/-- `d[k]`. -/
def getItem (d : Dict K V) (k : K) : Except PyError V :=
  match d.lookup k with
  | some v => .ok v
  | none => .error .keyError

/-- `d.items()`. -/
def items (d : Dict K V) : List (K × V) := d.entries.map fun e => (e.1, e.2)

variable {d : Dict K V} {k : K} {v : V}

theorem getItem_eq_ok : d.getItem k = .ok v ↔ d.lookup k = some v := by
  rw [getItem]
  split <;> simp_all

theorem mem_items : (k, v) ∈ d.items ↔ d.lookup k = some v := by
  rw [items, List.mem_map, ← Option.mem_def, AList.mem_lookup_iff]
  constructor
  · rintro ⟨⟨k', v'⟩, he, heq⟩
    cases heq
    exact he
  · exact fun he => ⟨⟨k, v⟩, he, rfl⟩

theorem lookup_insert_if (k' : K) (v : V) :
    AList.lookup k' (AList.insert k v d) = if k' = k then some v else d.lookup k' := by
  split
  · next h => rw [h, AList.lookup_insert]
  · next h => exact AList.lookup_insert_ne h

omit [DecidableEq K] in
theorem items_keys_nodup (d : Dict K V) : (d.items.map Prod.fst).Nodup := by
  have : d.items.map Prod.fst = d.keys := by
    rw [items, List.map_map]
    rfl
  exact this ▸ d.keys_nodup

/-! ### Dictionaries of dictionaries -/

section Entry
variable {L W : Type*} [DecidableEq L] {d : Dict K (Dict L W)} {e : Dict L W}

/-- `d[k][l]`, if there. -/
def entry (d : Dict K (Dict L W)) (k : K) (l : L) : Option W :=
  (d.lookup k).bind fun e => e.lookup l

theorem entry_of_lookup (h : d.lookup k = some e) (l : L) : d.entry k l = e.lookup l := by
  rw [entry, h, Option.bind_some]

/-- `d[k][l] = w`, where `d[k]` is `e`. -/
theorem entry_insert (h : d.lookup k = some e) (l : L) (w : W) (k' : K) (l' : L) :
    entry (AList.insert k (AList.insert l w e) d) k' l'
      = if k = k' ∧ l = l' then some w else d.entry k' l' := by
  rw [entry, lookup_insert_if]
  by_cases hk : k = k'
  · subst hk
    rw [if_pos rfl, Option.bind_some, lookup_insert_if, entry_of_lookup h]
    exact if_congr ⟨fun h' => ⟨rfl, h'.symm⟩, fun h' => h'.2.symm⟩ rfl rfl
  · rw [if_neg (fun h' => hk h'.symm), if_neg (fun h' => hk h'.1), entry]

/-- A key that is not there gets an empty dictionary. -/
theorem entry_insert_empty (d : Dict K (Dict L W)) (k k' : K) (l : L) :
    entry (if k ∈ d then d else AList.insert k ∅ d) k' l = d.entry k' l := by
  by_cases hmem : k ∈ d
  · rw [if_pos hmem]
  · rw [if_neg hmem, entry, lookup_insert_if]
    split
    · next h =>
      rw [entry, h, AList.lookup_eq_none.2 hmem]
      rfl
    · rfl

omit [DecidableEq L] in
theorem mem_insert_empty (d : Dict K (Dict L W)) (k : K) :
    k ∈ if k ∈ d then d else AList.insert k ∅ d := by
  by_cases hmem : k ∈ d
  · rwa [if_pos hmem]
  · rw [if_neg hmem]
    exact (AList.mem_insert _).2 (.inl rfl)

end Entry

end Dict

end CMTestbed
