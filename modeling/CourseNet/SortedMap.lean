import Mathlib.Order.Lattice
import Mathlib.Data.List.Pairwise
import Mathlib.Tactic.Common

/-!
# Finite maps as lists with strictly increasing keys

`SortedMap K V` is the ordered map of an imperative library: `entries` lists the pairs in iteration
order and the structure carries the proof that the keys increase, so an iterator is a suffix of
`entries` and no operation has to re-establish the order.  `insertNew` keeps an existing value
(`insert`), `assign` overwrites it (`operator[]`); both are `insertWith`.
-/

/-- An ordered map: its entries in increasing order of the keys. -/
structure SortedMap (K V : Type*) [LinearOrder K] where
  entries : List (K × V)
  sorted : entries.Pairwise fun e f => e.1 < f.1

namespace SortedMap

variable {K V : Type*} [LinearOrder K]

@[ext] theorem ext {m n : SortedMap K V} (h : m.entries = n.entries) : m = n := by
  cases m
  cases n
  cases h
  rfl

instance [DecidableEq V] : DecidableEq (SortedMap K V) := fun m n =>
  decidable_of_iff (m.entries = n.entries) ⟨ext, fun h => h ▸ rfl⟩

/-- The map without entries. -/
def empty : SortedMap K V := ⟨[], List.Pairwise.nil⟩

/-- Insert into a sorted list; `f old new` decides the value of a key already present. -/
def insertEntry (f : V → V → V) (k : K) (v : V) : List (K × V) → List (K × V)
  | [] => [(k, v)]
  | e :: es =>
      if k < e.1 then (k, v) :: e :: es
      else if k = e.1 then (k, f e.2 v) :: es
      else e :: insertEntry f k v es

theorem key_mem_insertEntry {f : V → V → V} {k : K} {v : V} {es : List (K × V)} {e : K × V}
    (h : e ∈ insertEntry f k v es) : e.1 = k ∨ e ∈ es := by
  induction es with
  | nil => simp only [insertEntry, List.mem_singleton] at h; exact Or.inl (by rw [h])
  | cons g gs ih =>
      simp only [insertEntry] at h
      split at h
      · rcases List.mem_cons.mp h with rfl | h
        · exact Or.inl rfl
        · exact Or.inr h
      · split at h
        · rcases List.mem_cons.mp h with rfl | h
          · exact Or.inl rfl
          · exact Or.inr (List.mem_cons_of_mem _ h)
        · rcases List.mem_cons.mp h with rfl | h
          · exact Or.inr List.mem_cons_self
          · exact (ih h).imp_right (List.mem_cons_of_mem _)

theorem insertEntry_sorted (f : V → V → V) (k : K) (v : V) {es : List (K × V)}
    (h : es.Pairwise fun e f => e.1 < f.1) :
    (insertEntry f k v es).Pairwise fun e f => e.1 < f.1 := by
  induction es with
  | nil => exact List.pairwise_singleton _ _
  | cons g gs ih =>
      obtain ⟨hg, hgs⟩ := List.pairwise_cons.mp h
      simp only [insertEntry]
      split
      · rename_i hlt
        refine List.pairwise_cons.mpr ⟨fun e he => ?_, h⟩
        rcases List.mem_cons.mp he with rfl | he
        · exact hlt
        · exact hlt.trans (hg e he)
      · rename_i hnlt
        split
        · rename_i heq
          exact List.pairwise_cons.mpr ⟨fun e he => heq ▸ hg e he, hgs⟩
        · rename_i hne
          refine List.pairwise_cons.mpr ⟨fun e he => ?_, ih hgs⟩
          rcases key_mem_insertEntry he with hk | he
          · exact hk ▸ lt_of_le_of_ne (not_lt.mp hnlt) (Ne.symm hne)
          · exact hg e he

/-- Insert with a rule for keys already present. -/
def insertWith (f : V → V → V) (m : SortedMap K V) (k : K) (v : V) : SortedMap K V :=
  ⟨insertEntry f k v m.entries, insertEntry_sorted f k v m.sorted⟩

/-- `insert`: a key already present keeps its value. -/
def insertNew (m : SortedMap K V) (k : K) (v : V) : SortedMap K V :=
  m.insertWith (fun old _ => old) k v

/-- `operator[]` followed by an assignment: a key already present gets the new value. -/
def assign (m : SortedMap K V) (k : K) (v : V) : SortedMap K V :=
  m.insertWith (fun _ new => new) k v

/-- Keep the entries that satisfy `p`. -/
def filter (p : K × V → Bool) (m : SortedMap K V) : SortedMap K V :=
  ⟨m.entries.filter p, m.sorted.filter p⟩

/-- Remove the entry at `k`, if any. -/
def erase (m : SortedMap K V) (k : K) : SortedMap K V := m.filter fun e => decide (e.1 ≠ k)

/-- `find`: the value at `k`, if any. -/
def find? (m : SortedMap K V) (k : K) : Option V :=
  (m.entries.find? fun e => decide (e.1 = k)).map (·.2)

/-- Change every value in place. -/
def mapValues (f : V → V) (m : SortedMap K V) : SortedMap K V :=
  ⟨m.entries.map fun e => (e.1, f e.2), List.pairwise_map.mpr m.sorted⟩

/-- The iterator to the first entry whose key is at least `k`. -/
def lowerBound (m : SortedMap K V) (k : K) : List (K × V) :=
  m.entries.dropWhile fun e => decide (e.1 < k)

/-- The entry one step before `upper_bound k`: the last one whose key is at most `k`. -/
def floor? (m : SortedMap K V) (k : K) : Option (K × V) :=
  (m.entries.takeWhile fun e => decide (e.1 ≤ k)).getLast?

/-! ### Membership -/

theorem eq_of_key_eq (m : SortedMap K V) {e f : K × V} (he : e ∈ m.entries) (hf : f ∈ m.entries)
    (h : e.1 = f.1) : e = f := by
  by_contra hne
  have hp := m.sorted
  rw [List.pairwise_iff_getElem] at hp
  obtain ⟨i, hi, rfl⟩ := List.getElem_of_mem he
  obtain ⟨j, hj, rfl⟩ := List.getElem_of_mem hf
  rcases Nat.lt_trichotomy i j with hij | hij | hij
  · exact absurd h (hp i j hi hj hij).ne
  · subst hij; exact hne rfl
  · exact absurd h (hp j i hj hi hij).ne'

theorem mem_insertEntry_of_not_key {f : V → V → V} {k : K} {v : V} {es : List (K × V)}
    (hk : ∀ e ∈ es, e.1 ≠ k) {e : K × V} :
    e ∈ insertEntry f k v es ↔ e = (k, v) ∨ e ∈ es := by
  induction es with
  | nil => simp [insertEntry]
  | cons g gs ih =>
      have hg : ¬k = g.1 := fun h => hk g List.mem_cons_self h.symm
      simp only [insertEntry, if_neg hg]
      split
      · exact List.mem_cons
      · rw [List.mem_cons, ih fun e he => hk e (List.mem_cons_of_mem _ he), List.mem_cons]
        exact or_left_comm

/-- `insert` adds nothing but its pair. -/
theorem mem_of_mem_insertNew {m : SortedMap K V} {k : K} {v : V} {e : K × V}
    (h : e ∈ (m.insertNew k v).entries) : e = (k, v) ∨ e ∈ m.entries := by
  change e ∈ insertEntry _ k v m.entries at h
  generalize m.entries = es at h ⊢
  induction es with
  | nil => exact Or.inl (List.mem_singleton.mp h)
  | cons g gs ih =>
      simp only [insertEntry] at h
      split at h
      · exact List.mem_cons.mp h
      · split at h
        · rename_i heq
          rw [heq] at h
          exact Or.inr h
        · rcases List.mem_cons.mp h with rfl | h
          · exact Or.inr List.mem_cons_self
          · exact (ih h).imp_right (List.mem_cons_of_mem _)

/-- `insert` removes and overwrites nothing. -/
theorem mem_insertNew_of_mem {m : SortedMap K V} {k : K} {v : V} {e : K × V}
    (h : e ∈ m.entries) : e ∈ (m.insertNew k v).entries := by
  change e ∈ insertEntry _ k v m.entries
  generalize m.entries = es at h
  induction es with
  | nil => exact absurd h List.not_mem_nil
  | cons g gs ih =>
      simp only [insertEntry]
      split
      · exact List.mem_cons_of_mem _ h
      · split
        · rename_i heq
          rw [heq]
          exact h
        · rcases List.mem_cons.mp h with rfl | h
          · exact List.mem_cons_self
          · exact List.mem_cons_of_mem _ (ih h)

/-- A fresh key adds exactly its pair. -/
theorem mem_insertNew {m : SortedMap K V} {k : K} {v : V} (hk : ∀ e ∈ m.entries, e.1 ≠ k)
    {e : K × V} : e ∈ (m.insertNew k v).entries ↔ e = (k, v) ∨ e ∈ m.entries :=
  mem_insertEntry_of_not_key hk

/-- A key above all others is appended. -/
theorem assign_entries_of_lt {m : SortedMap K V} {k : K} {v : V} (hk : ∀ e ∈ m.entries, e.1 < k) :
    (m.assign k v).entries = m.entries ++ [(k, v)] := by
  show insertEntry _ k v m.entries = _
  generalize m.entries = es at hk
  induction es with
  | nil => rfl
  | cons g gs ih =>
      have hg := hk g List.mem_cons_self
      rw [insertEntry, if_neg hg.not_gt, if_neg hg.ne', List.cons_append,
        ih fun e he => hk e (List.mem_cons_of_mem _ he)]

@[simp] theorem filter_entries (p : K × V → Bool) (m : SortedMap K V) :
    (m.filter p).entries = m.entries.filter p := rfl

theorem filter_eq_self {p : K × V → Bool} {m : SortedMap K V} (h : ∀ e ∈ m.entries, p e = true) :
    m.filter p = m := by
  cases m with
  | mk es hs =>
      simp only [filter, mk.injEq]
      exact List.filter_eq_self.mpr h

theorem mem_erase {m : SortedMap K V} {k : K} {e : K × V} :
    e ∈ (m.erase k).entries ↔ e ∈ m.entries ∧ e.1 ≠ k := by
  simp [erase, filter]

/-- Erasing the first entry leaves the rest. -/
theorem erase_head {m : SortedMap K V} {e : K × V} {es : List (K × V)}
    (h : m.entries = e :: es) : (m.erase e.1).entries = es := by
  have hs := m.sorted
  rw [h, List.pairwise_cons] at hs
  rw [erase, filter_entries, h, List.filter_cons_of_neg (by simp), List.filter_eq_self]
  exact fun f hf => by simpa using (hs.1 f hf).ne'

/-- The first entry has the lowest key. -/
theorem head?_le {m : SortedMap K V} {e : K × V} (h : m.entries.head? = some e) :
    ∀ f ∈ m.entries, e.1 ≤ f.1 := by
  obtain ⟨es, hes⟩ := List.head?_eq_some_iff.mp h
  have hs := m.sorted
  rw [hes, List.pairwise_cons] at hs
  intro f hf
  rw [hes] at hf
  rcases List.mem_cons.mp hf with rfl | hf
  · exact le_refl _
  · exact (hs.1 f hf).le

/-! ### Lookup -/

theorem entries_nodup (m : SortedMap K V) : m.entries.Nodup :=
  m.sorted.imp fun hlt heq => hlt.ne (congrArg Prod.fst heq)

theorem find?_eq_some {m : SortedMap K V} {k : K} {v : V} :
    m.find? k = some v ↔ (k, v) ∈ m.entries := by
  rw [find?, Option.map_eq_some_iff]
  constructor
  · rintro ⟨⟨k', v'⟩, hfind, rfl⟩
    have hk : k' = k := by simpa using List.find?_some hfind
    rw [← hk]
    exact List.mem_of_find?_eq_some hfind
  · intro hmem
    have hsome : (m.entries.find? fun e => decide (e.1 = k)).isSome :=
      List.find?_isSome.mpr ⟨(k, v), hmem, by simp⟩
    obtain ⟨e, hfind⟩ := Option.isSome_iff_exists.mp hsome
    have hk : e.1 = k := by simpa using List.find?_some hfind
    have he := m.eq_of_key_eq (List.mem_of_find?_eq_some hfind) hmem hk
    exact ⟨e, hfind, congrArg Prod.snd he⟩

theorem find?_eq_none {m : SortedMap K V} {k : K} :
    m.find? k = none ↔ ∀ e ∈ m.entries, e.1 ≠ k := by
  rw [find?, Option.map_eq_none_iff, List.find?_eq_none]
  simp

/-- Lookup is determined by membership. -/
theorem find?_congr {m n : SortedMap K V} {k : K}
    (h : ∀ v, (k, v) ∈ m.entries ↔ (k, v) ∈ n.entries) : m.find? k = n.find? k := by
  ext v
  rw [find?_eq_some, find?_eq_some, h]

theorem mem_assign {m : SortedMap K V} {k : K} {v : V} {e : K × V} :
    e ∈ (m.assign k v).entries ↔ e = (k, v) ∨ (e ∈ m.entries ∧ e.1 ≠ k) := by
  show e ∈ insertEntry _ k v m.entries ↔ _
  have hs := m.sorted
  generalize m.entries = es at hs
  induction es with
  | nil => simp [insertEntry]
  | cons g gs ih =>
      obtain ⟨hg, hgs⟩ := List.pairwise_cons.mp hs
      rw [insertEntry]
      by_cases hlt : k < g.1
      · have hne : ∀ f ∈ g :: gs, f.1 ≠ k := by
          intro f hf
          rcases List.mem_cons.mp hf with rfl | hf
          · exact hlt.ne'
          · exact (hlt.trans (hg f hf)).ne'
        rw [if_pos hlt, List.mem_cons]
        exact or_congr_right (iff_self_and.mpr (hne e))
      · rw [if_neg hlt]
        by_cases heq : k = g.1
        · rw [if_pos heq, List.mem_cons]
          refine or_congr_right ⟨fun he => ⟨List.mem_cons_of_mem _ he, ?_⟩, fun ⟨he, hne⟩ => ?_⟩
          · rw [heq]
            exact (hg e he).ne'
          · rcases List.mem_cons.mp he with rfl | he
            · exact absurd heq.symm hne
            · exact he
        · rw [if_neg heq, List.mem_cons, List.mem_cons]
          refine (or_congr_right (ih hgs)).trans ?_
          constructor
          · rintro (rfl | h | ⟨h, hne⟩)
            · exact Or.inr ⟨Or.inl rfl, Ne.symm heq⟩
            · exact Or.inl h
            · exact Or.inr ⟨Or.inr h, hne⟩
          · rintro (h | ⟨h | h, hne⟩)
            · exact Or.inr (Or.inl h)
            · exact Or.inl h
            · exact Or.inr (Or.inr ⟨h, hne⟩)

theorem find?_assign (m : SortedMap K V) (k : K) (v : V) (k' : K) :
    (m.assign k v).find? k' = if k' = k then some v else m.find? k' := by
  by_cases hk : k' = k
  · rw [if_pos hk, find?_eq_some, hk]
    exact mem_assign.mpr (Or.inl rfl)
  · rw [if_neg hk]
    exact find?_congr fun v' => by simp [mem_assign, hk]

theorem find?_erase (m : SortedMap K V) (k k' : K) :
    (m.erase k).find? k' = if k' = k then none else m.find? k' := by
  by_cases hk : k' = k
  · rw [if_pos hk, find?_eq_none, hk]
    exact fun e he => (mem_erase.mp he).2
  · rw [if_neg hk]
    exact find?_congr fun v' => by simp [mem_erase, hk]

theorem find?_filter (p : K × V → Bool) (m : SortedMap K V) (k : K) :
    (m.filter p).find? k = (m.find? k).filter fun v => p (k, v) := by
  ext v
  rw [find?_eq_some, filter_entries, List.mem_filter, Option.filter_eq_some_iff, find?_eq_some]

theorem find?_mapValues (f : V → V) (m : SortedMap K V) (k : K) :
    (m.mapValues f).find? k = (m.find? k).map f := by
  ext v
  rw [find?_eq_some, Option.map_eq_some_iff]
  constructor
  · intro hmem
    obtain ⟨e, he, heq⟩ := List.mem_map.mp hmem
    obtain ⟨rfl, rfl⟩ := Prod.mk.inj heq
    exact ⟨e.2, find?_eq_some.mpr he, rfl⟩
  · rintro ⟨w, hw, rfl⟩
    exact List.mem_map.mpr ⟨(k, w), find?_eq_some.mp hw, rfl⟩

/-- The entries after an assignment: its pair and the entries at other keys. -/
theorem assign_perm (m : SortedMap K V) (k : K) (v : V) :
    (m.assign k v).entries.Perm ((k, v) :: (m.erase k).entries) := by
  rw [List.perm_ext_iff_of_nodup (entries_nodup _)]
  · intro e
    rw [mem_assign, List.mem_cons, mem_erase]
  · rw [List.nodup_cons]
    exact ⟨fun he => (mem_erase.mp he).2 rfl, entries_nodup _⟩

/-- The entry at a key and the entries at other keys. -/
theorem perm_of_find? {m : SortedMap K V} {k : K} {v : V} (h : m.find? k = some v) :
    m.entries.Perm ((k, v) :: (m.erase k).entries) := by
  rw [List.perm_ext_iff_of_nodup (entries_nodup _)]
  · intro e
    rw [List.mem_cons, mem_erase]
    constructor
    · intro he
      by_cases hk : e.1 = k
      · exact Or.inl (m.eq_of_key_eq he (find?_eq_some.mp h) hk)
      · exact Or.inr ⟨he, hk⟩
    · rintro (rfl | ⟨he, -⟩)
      · exact find?_eq_some.mp h
      · exact he
  · rw [List.nodup_cons]
    exact ⟨fun he => (mem_erase.mp he).2 rfl, entries_nodup _⟩

theorem erase_eq_self {m : SortedMap K V} {k : K} (h : m.find? k = none) : m.erase k = m :=
  filter_eq_self fun e he => by simpa using find?_eq_none.mp h e he

/-! ### Iterators -/

theorem mem_dropWhile_lt {es : List (K × V)} (hs : es.Pairwise fun e f => e.1 < f.1) {k : K}
    {e : K × V} : e ∈ es.dropWhile (fun e => decide (e.1 < k)) ↔ e ∈ es ∧ k ≤ e.1 := by
  induction es with
  | nil => simp
  | cons g gs ih =>
      obtain ⟨hg, hgs⟩ := List.pairwise_cons.mp hs
      by_cases hgk : g.1 < k
      · rw [List.dropWhile_cons_of_pos (by simpa using hgk), ih hgs]
        refine ⟨fun h => ⟨List.mem_cons_of_mem _ h.1, h.2⟩, fun h => ⟨?_, h.2⟩⟩
        rcases List.mem_cons.mp h.1 with rfl | h'
        · exact absurd hgk h.2.not_gt
        · exact h'
      · rw [List.dropWhile_cons_of_neg (by simpa using hgk)]
        refine ⟨fun h => ⟨h, ?_⟩, And.left⟩
        rcases List.mem_cons.mp h with rfl | h
        · exact not_lt.mp hgk
        · exact (not_lt.mp hgk).trans (hg e h).le

theorem mem_lowerBound {m : SortedMap K V} {k : K} {e : K × V} :
    e ∈ m.lowerBound k ↔ e ∈ m.entries ∧ k ≤ e.1 := mem_dropWhile_lt m.sorted

theorem lowerBound_sorted (m : SortedMap K V) (k : K) :
    (m.lowerBound k).Pairwise fun e f => e.1 < f.1 :=
  m.sorted.sublist (List.dropWhile_sublist _)

theorem mem_takeWhile_le {es : List (K × V)} (hs : es.Pairwise fun e f => e.1 < f.1) {k : K}
    {e : K × V} : e ∈ es.takeWhile (fun e => decide (e.1 ≤ k)) ↔ e ∈ es ∧ e.1 ≤ k := by
  induction es with
  | nil => simp
  | cons g gs ih =>
      obtain ⟨hg, hgs⟩ := List.pairwise_cons.mp hs
      by_cases hgk : g.1 ≤ k
      · rw [List.takeWhile_cons_of_pos (by simpa using hgk), List.mem_cons, ih hgs, List.mem_cons]
        constructor
        · rintro (rfl | h)
          · exact ⟨Or.inl rfl, hgk⟩
          · exact ⟨Or.inr h.1, h.2⟩
        · rintro ⟨rfl | h, hk⟩
          · exact Or.inl rfl
          · exact Or.inr ⟨h, hk⟩
      · rw [List.takeWhile_cons_of_neg (by simpa using hgk)]
        simp only [List.not_mem_nil, false_iff, not_and, not_le]
        intro h
        rcases List.mem_cons.mp h with rfl | h
        · exact not_le.mp hgk
        · exact (not_le.mp hgk).trans (hg e h)

/-- `floor?` finds an entry at or below `k`, and every other such entry is below it. -/
theorem floor?_eq_some {m : SortedMap K V} {k : K} {e : K × V} (h : m.floor? k = some e) :
    e ∈ m.entries ∧ e.1 ≤ k ∧ ∀ f ∈ m.entries, f.1 ≤ k → f.1 ≤ e.1 := by
  have hmem : ∀ f, _ := fun f => mem_takeWhile_le m.sorted (k := k) (e := f)
  obtain ⟨front, hfront⟩ := List.getLast?_eq_some_iff.mp h
  have he := (hmem e).mp (show e ∈ m.entries.takeWhile _ by rw [hfront]; simp)
  refine ⟨he.1, he.2, fun f hf hfk => ?_⟩
  have hf' : f ∈ m.entries.takeWhile _ := (hmem f).mpr ⟨hf, hfk⟩
  have hs := m.sorted.sublist (List.takeWhile_sublist fun e => decide (e.1 ≤ k))
  rw [hfront] at hf' hs
  rcases List.mem_append.mp hf' with hf' | hf'
  · exact ((List.pairwise_append.mp hs).2.2 f hf' e (by simp)).le
  · exact (List.mem_singleton.mp hf' ▸ le_refl _)

theorem floor?_eq_none {m : SortedMap K V} {k : K} (h : m.floor? k = none) :
    ∀ e ∈ m.entries, k < e.1 := by
  intro e he
  rw [floor?, List.getLast?_eq_none_iff] at h
  by_contra hk
  have := (mem_takeWhile_le m.sorted).mpr ⟨he, not_lt.mp hk⟩
  rw [h] at this
  exact List.not_mem_nil this

end SortedMap
