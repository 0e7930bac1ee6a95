import CourseNet.ReassemblerProgress
import Mathlib.Algebra.BigOperators.Group.Finset.Basic
import Mathlib.Data.Finset.Union
import Mathlib.Order.Interval.Finset.Nat

/-!
# What the reassembler counts

`_unassembled_bytes_num` against the strings that are stored.  `region` is the set of indices the
stored strings occupy; as they are disjoint it has as many elements as they have bytes.  Trimming,
storing and assembling keep the counter at its size, with one exception: a string that sits at the
next index when nothing can be written is erased and stays counted.  The strings start inside the
window, so together they reach past it by less than the longest push.
-/

namespace CourseNet

namespace StreamReassembler

/-! ### The indices stored strings occupy -/

/-- The indices at which a stored string holds a byte. -/
def region (m : SortedMap ℕ Bytes) : Finset ℕ :=
  m.entries.toFinset.biUnion fun e => Finset.Ico e.1 (e.1 + e.2.length)

theorem mem_region {m : SortedMap ℕ Bytes} {i : ℕ} :
    i ∈ region m ↔ ∃ e ∈ m.entries, e.1 ≤ i ∧ i < e.1 + e.2.length := by
  simp only [region, Finset.mem_biUnion, List.mem_toFinset, Finset.mem_Ico]

theorem region_of_mem {m m' : SortedMap ℕ Bytes} {k : ℕ} {d : Bytes}
    (h : ∀ e, e ∈ m'.entries ↔ e = (k, d) ∨ e ∈ m.entries) :
    region m' = Finset.Ico k (k + d.length) ∪ region m := by
  ext i
  simp only [mem_region, Finset.mem_union, Finset.mem_Ico]
  constructor
  · rintro ⟨e, he, hi⟩
    rcases (h e).mp he with rfl | he
    exacts [Or.inl hi, Or.inr ⟨e, he, hi⟩]
  · rintro (hi | ⟨e, he, hi⟩)
    · exact ⟨(k, d), (h _).mpr (Or.inl rfl), hi⟩
    · exact ⟨e, (h e).mpr (Or.inr he), hi⟩

theorem region_insertNew {m : SortedMap ℕ Bytes} {k : ℕ} {d : Bytes}
    (hk : ∀ e ∈ m.entries, e.1 ≠ k) :
    region (m.insertNew k d) = Finset.Ico k (k + d.length) ∪ region m :=
  region_of_mem fun _ => SortedMap.mem_insertNew hk

theorem region_erase {m : SortedMap ℕ Bytes} {k : ℕ} {d : Bytes} (hmem : (k, d) ∈ m.entries) :
    region m = Finset.Ico k (k + d.length) ∪ region (m.erase k) := by
  ext i
  simp only [mem_region, Finset.mem_union, Finset.mem_Ico]
  constructor
  · rintro ⟨e, he, hi⟩
    by_cases hk : e.1 = k
    · rw [m.eq_of_key_eq he hmem hk] at hi
      exact Or.inl hi
    · exact Or.inr ⟨e, SortedMap.mem_erase.mpr ⟨he, hk⟩, hi⟩
  · rintro (hi | ⟨e, he, hi⟩)
    · exact ⟨(k, d), hmem, hi⟩
    · exact ⟨e, (SortedMap.mem_erase.mp he).1, hi⟩

theorem Clear.disjoint {m : SortedMap ℕ Bytes} {k len : ℕ} (hc : Clear m k len) :
    Disjoint (Finset.Ico k (k + len)) (region m) := by
  rw [Finset.disjoint_left]
  intro i hi hi'
  obtain ⟨e, he, hle, hlt⟩ := mem_region.mp hi'
  have := Finset.mem_Ico.mp hi
  rcases hc e he with h | h <;> omega

/-- Once a string is erased nothing stored meets it. -/
theorem Laid.clear_erase {N k : ℕ} {d : Bytes} {m : SortedMap ℕ Bytes} (h : Laid N m)
    (hmem : (k, d) ∈ m.entries) : Clear (m.erase k) k d.length := by
  intro e he
  obtain ⟨he, hne⟩ := SortedMap.mem_erase.mp he
  rcases Nat.lt_or_gt_of_ne hne with hlt | hgt
  · exact Or.inl (h.disjoint e he _ hmem hlt)
  · exact Or.inr (h.disjoint _ hmem e he hgt)

theorem card_region_insertNew {N k : ℕ} {d : Bytes} {m : SortedMap ℕ Bytes} (h : Laid N m)
    (hc : Clear m k d.length) (hd : d ≠ []) :
    (region (m.insertNew k d)).card = (region m).card + d.length := by
  rw [region_insertNew (h.ne_key hc (List.length_pos_iff.mpr hd)),
    Finset.card_union_of_disjoint hc.disjoint, Nat.card_Ico]
  omega

theorem card_region_erase {N k : ℕ} {d : Bytes} {m : SortedMap ℕ Bytes} (h : Laid N m)
    (hmem : (k, d) ∈ m.entries) :
    (region m).card = (region (m.erase k)).card + d.length := by
  rw [region_erase hmem, Finset.card_union_of_disjoint (h.clear_erase hmem).disjoint, Nat.card_Ico]
  omega

/-- The bytes stored. -/
def storedBytes (m : SortedMap ℕ Bytes) : ℕ := (m.entries.map fun e => e.2.length).sum

/-- Disjoint strings occupy as many indices as they have bytes. -/
theorem Laid.storedBytes_eq {N : ℕ} {m : SortedMap ℕ Bytes} (h : Laid N m) :
    storedBytes m = (region m).card := by
  have hdisj : ((m.entries.toFinset : Finset (ℕ × Bytes)) : Set (ℕ × Bytes)).PairwiseDisjoint
      fun e => Finset.Ico e.1 (e.1 + e.2.length) := by
    intro e he f hf hne
    have he := List.mem_toFinset.mp he
    have hf := List.mem_toFinset.mp hf
    refine Finset.disjoint_left.mpr fun i hi hi' => ?_
    have hi := Finset.mem_Ico.mp hi
    have hi' := Finset.mem_Ico.mp hi'
    rcases lt_trichotomy e.1 f.1 with hlt | heq | hgt
    · have := h.disjoint e he f hf hlt
      omega
    · exact hne (m.eq_of_key_eq he hf heq)
    · have := h.disjoint f hf e he hgt
      omega
  rw [region, Finset.card_biUnion hdisj, storedBytes, ← List.sum_toFinset _ m.entries_nodup]
  simp

/-- Nothing is stored exactly if no index is occupied. -/
theorem Laid.card_region_eq_zero {N : ℕ} {m : SortedMap ℕ Bytes} (h : Laid N m) :
    (region m).card = 0 ↔ m.entries = [] := by
  rw [Finset.card_eq_zero, Finset.eq_empty_iff_forall_notMem, List.eq_nil_iff_forall_not_mem]
  constructor
  · intro hnone e he
    have hpos := h.length_pos he
    exact hnone e.1 (mem_region.mpr ⟨e, he, le_refl _, by omega⟩)
  · intro hnone i hi
    obtain ⟨e, he, -⟩ := mem_region.mp hi
    exact hnone e he

/-- A partial write takes its bytes off the occupied indices. -/
theorem card_region_replace {N w : ℕ} {str : Bytes} {m : SortedMap ℕ Bytes} (h : Laid N m)
    (hmem : (N, str) ∈ m.entries) (hpos : 0 < w) (hw : w < str.length) :
    (region ((m.insertNew (N + w) (str.drop w)).erase N)).card + w = (region m).card := by
  have hlen : (str.drop w).length = str.length - w := List.length_drop
  have hclear : Clear (m.erase N) (N + w) (str.drop w).length := by
    intro e he
    have := h.after_head hmem e he
    omega
  have hcard := card_region_erase h hmem
  rw [region_of_mem (m := m.erase N) (k := N + w) (d := str.drop w),
    Finset.card_union_of_disjoint hclear.disjoint, Nat.card_Ico]
  · omega
  · intro e
    rw [h.mem_replace_head hmem hw, and_iff_right hpos]

/-! ### Counting, phase by phase -/

/-- The counter is the number of occupied indices. -/
def Counted (r : StreamReassembler) : Prop :=
  r.unassembledBytesNum = (region r.unassembleStrs).card

/-- Each string the loop erases is taken off the counter. -/
theorem trimLoop_count {N newIdx : ℕ} (iter : List (ℕ × Bytes)) (t : Trim) (hm : Laid N t.strs)
    (hsub : ∀ e ∈ iter, e ∈ t.strs.entries) (hsorted : iter.Pairwise fun e f => e.1 < f.1)
    (hcount : t.bytesNum = (region t.strs).card) :
    (trimLoop newIdx iter t).bytesNum = (region (trimLoop newIdx iter t).strs).card := by
  induction iter generalizing t with
  | nil => exact hcount
  | cons e es ih =>
      obtain ⟨downIdx, down⟩ := e
      have hmem := hsub _ List.mem_cons_self
      obtain ⟨hhead, htail⟩ := List.pairwise_cons.mp hsorted
      simp only [trimLoop]
      split_ifs
      · exact hcount
      · have hcard := card_region_erase hm hmem
        refine ih { t with strs := t.strs.erase downIdx, bytesNum := t.bytesNum - down.length }
          (hm.sub fun f hf => (SortedMap.mem_erase.mp hf).1)
          (fun f hf => SortedMap.mem_erase.mpr
            ⟨hsub f (List.mem_cons_of_mem _ hf), (hhead f hf).ne'⟩) htail ?_
        show t.bytesNum - down.length = (region (t.strs.erase downIdx)).card
        omega
      · exact hcount
      · exact hcount

theorem Counted.trimmed {r : StreamReassembler} (hc : Counted r)
    (h : Laid r.nextAssembledIdx r.unassembleStrs) (data : Bytes) (index : ℕ) :
    Counted (r.trimmed data index) :=
  trimLoop_count _ _ h (fun _ he => (SortedMap.mem_lowerBound.mp he).1)
    (SortedMap.lowerBound_sorted _ _) hc

theorem Counted.storeOrWrite {r : StreamReassembler} (hc : Counted r)
    (h : Laid r.nextAssembledIdx r.unassembleStrs) {newIdx : ℕ} {nd : Bytes}
    (hclear : Clear r.unassembleStrs newIdx nd.length) (hnd : nd ≠ [])
    (hall : newIdx = r.nextAssembledIdx → nd.length ≤ (r.output.write nd).2) :
    Counted (r.storeOrWrite newIdx nd) := by
  unfold StreamReassembler.storeOrWrite
  split
  · rename_i hnext
    dsimp only
    rw [if_neg (not_lt.mpr (hall hnext))]
    exact hc
  · show r.unassembledBytesNum + nd.length = _
    rw [card_region_insertNew h hclear hnd, hc]

/-- In an open stream the loop never meets a string it can write nothing of, so long as all start
inside the window. -/
theorem Counted.assembleLoop {r : StreamReassembler} (iter : List (ℕ × Bytes)) (hc : Counted r)
    (h : Shaped r) (hiter : r.unassembleStrs.entries = iter) (hended : r.output.inputEnded = false)
    (herror : r.output.error = false)
    (hroom : ∀ e ∈ iter, e.1 < r.output.bytesRead + r.capacity) :
    Counted (StreamReassembler.assembleLoop iter r).1 := by
  induction iter generalizing r with
  | nil => exact hc
  | cons e es ih =>
      obtain ⟨idx, str⟩ := e
      have hmem : (idx, str) ∈ r.unassembleStrs.entries := hiter ▸ List.mem_cons_self
      have hin := hroom _ List.mem_cons_self
      have hwindow := h.window_end
      simp only [StreamReassembler.assembleLoop]
      split
      · rename_i hnext
        subst hnext
        have hpos := ByteStream.write_snd_pos hended herror (by omega) (h.laid.nonempty _ hmem)
        have hcard := card_region_erase h.laid hmem
        have hnum : r.unassembledBytesNum = (region r.unassembleStrs).card := hc
        dsimp only at hpos
        split
        · rename_i hpart
          have hreplace := card_region_replace h.laid hmem hpos hpart
          show _ = Finset.card _
          dsimp only
          omega
        · refine ih (r := { r with
              output := (r.output.write str).1
              nextAssembledIdx := r.nextAssembledIdx + (r.output.write str).2
              unassembledBytesNum := r.unassembledBytesNum - str.length
              unassembleStrs := r.unassembleStrs.erase r.nextAssembledIdx })
            ?_ ⟨by simp [h.written], by simpa using h.cap_eq,
              h.laid.erase_head hmem (r.output.write_snd_le_length str)⟩
            (SortedMap.erase_head hiter) (by simpa using hended) (by simpa using herror)
            fun f hf => by simpa using hroom f (List.mem_cons_of_mem _ hf)
          show r.unassembledBytesNum - str.length =
            (region (r.unassembleStrs.erase r.nextAssembledIdx)).card
          omega
      · exact hc

/-- Nothing is stored at the next index, so the loop does nothing. -/
theorem assembleLoop_of_gap {r : StreamReassembler}
    (h : ∀ e ∈ r.unassembleStrs.entries, r.nextAssembledIdx < e.1) :
    (assembleLoop r.unassembleStrs.entries r).1 = r := by
  cases hes : r.unassembleStrs.entries with
  | nil => rfl
  | cons e es =>
      have hlt := h e (hes ▸ List.mem_cons_self)
      obtain ⟨idx, str⟩ := e
      dsimp only at hlt
      simp only [assembleLoop]
      rw [if_neg (show ¬idx = r.nextAssembledIdx by omega)]

/-! ### The window check -/

/-- The first index past the window, as the reader sees it. -/
def windowEnd (r : StreamReassembler) : ℕ := r.output.bytesRead + r.capacity

/-- A push whose first index that is not known lies outside the window; a window that reaches
`2 ^ 64` admits nothing. -/
def Late (r : StreamReassembler) (index : ℕ) : Prop :=
  2 ^ 64 ≤ r.windowEnd ∨ r.windowEnd ≤ index ∨ r.windowEnd ≤ r.nextAssembledIdx ∨
    ∃ e ∈ r.unassembleStrs.entries, e.1 ≤ index ∧ index < e.1 + e.2.length ∧
      r.windowEnd ≤ e.1 + e.2.length

instance (r : StreamReassembler) (index : ℕ) : Decidable (Late r index) :=
  inferInstanceAs (Decidable (_ ∨ _ ∨ _ ∨ _))

/-- The window check drops exactly the late pushes. -/
theorem late_iff {r : StreamReassembler} (h : Shaped r) (hcap : r.capacity < 2 ^ 64) (index : ℕ) :
    Late r index ↔ r.firstUnacceptableIdx ≤ r.newStart index := by
  have hwindow := h.window_end
  have hacc := r.output.accounting
  rw [h.written] at hacc
  obtain ⟨-, hnext, -⟩ := newStart_spec h.laid index
  rw [firstUnacceptable_mod h, Late, windowEnd]
  rcases newStart_cases h.laid index with ⟨e, he, hle, hlt, heq⟩ | ⟨hbefore, heq⟩
  · have hend : (∃ f ∈ r.unassembleStrs.entries, f.1 ≤ index ∧ index < f.1 + f.2.length ∧
        r.output.bytesRead + r.capacity ≤ f.1 + f.2.length) ↔
        r.output.bytesRead + r.capacity ≤ e.1 + e.2.length := by
      constructor
      · rintro ⟨f, hf, hfi, hif, hend⟩
        rcases lt_trichotomy f.1 e.1 with hfe | hfe | hfe
        · have := h.laid.disjoint f hf e he hfe
          omega
        · rwa [r.unassembleStrs.eq_of_key_eq hf he hfe] at hend
        · have := h.laid.disjoint e he f hf hfe
          omega
      · exact fun hend => ⟨e, he, hle, hlt, hend⟩
    rw [hend]
    omega
  · have hend : ¬∃ f ∈ r.unassembleStrs.entries, f.1 ≤ index ∧ index < f.1 + f.2.length ∧
        r.output.bytesRead + r.capacity ≤ f.1 + f.2.length := by
      rintro ⟨f, hf, hfi, hif, -⟩
      have := hbefore f hf hfi
      omega
    rw [or_iff_left hend]
    omega

/-- A late push stores and writes nothing. -/
theorem pushChecked_of_late {r : StreamReassembler} (h : Shaped r) (hcap : r.capacity < 2 ^ 64)
    {index : ℕ} (hlate : Late r index) (data : Bytes) (eof : Bool) :
    r.pushChecked data index eof = (r.trimmed data index, .returns) :=
  if_pos ((late_iff h hcap index).mp hlate)

/-! ### The counter over a run -/

/-- How many bytes the output takes at most. -/
def accepts (r : StreamReassembler) : ℕ :=
  if r.output.inputEnded || r.output.error then 0 else r.output.remainingCapacity

theorem write_snd_accepts (r : StreamReassembler) (d : Bytes) :
    (r.output.write d).2 = min d.length r.accepts := by
  rw [ByteStream.write_snd, accepts]
  split <;> simp

/-- The push brings bytes from the next index on up to one the output does not take: no string is
stored where the push begins, and none that outlasts it begins before that byte. -/
def Overfull (r : StreamReassembler) (data : Bytes) (index : ℕ) : Prop :=
  index ≤ r.nextAssembledIdx ∧ r.nextAssembledIdx + r.accepts < index + data.length ∧
    (index = r.nextAssembledIdx → ∀ e ∈ r.unassembleStrs.entries, e.1 ≠ index) ∧
    ∀ e ∈ r.unassembleStrs.entries, index + data.length < e.1 + e.2.length →
      r.nextAssembledIdx + r.accepts < e.1

/-- A string is stored at the next index of an output that has ended. -/
def Stranded (r : StreamReassembler) : Prop :=
  r.output.inputEnded = true ∧ ∃ e ∈ r.unassembleStrs.entries, e.1 = r.nextAssembledIdx

/-- The push is late, or it stays below `2 ^ 64` and the assembly loop meets no string of which it
can write nothing. -/
def Accountable (r : StreamReassembler) (data : Bytes) (index : ℕ) : Prop :=
  Late r index ∨ (index + data.length < 2 ^ 64 ∧ ¬Overfull r data index ∧ ¬Stranded r)

instance (r : StreamReassembler) (data : Bytes) (index : ℕ) :
    Decidable (Overfull r data index) := inferInstanceAs (Decidable (_ ∧ _ ∧ _ ∧ _))

instance (r : StreamReassembler) : Decidable (Stranded r) :=
  inferInstanceAs (Decidable (_ ∧ _))

instance (r : StreamReassembler) (data : Bytes) (index : ℕ) :
    Decidable (Accountable r data index) := inferInstanceAs (Decidable (_ ∨ _))

/-- What is left of a push that is not overfull is written whole where it is next. -/
theorem newData_written {r : StreamReassembler} (h : Shaped r) {data : Bytes} {index : ℕ}
    (hfit : index + data.length < 2 ^ 64) (hsize : 0 < (r.trim data index).dataSize)
    (hstart : r.newStart index - index ≤ data.length) (hno : ¬Overfull r data index)
    (hnext : r.newStart index = r.nextAssembledIdx) :
    (r.newData data index).length ≤ (r.output.write (r.newData data index)).2 := by
  obtain ⟨-, -, hend, hclear⟩ := newData_laid h.laid hfit hsize hstart
  obtain ⟨hidx, -, -⟩ := newStart_spec h.laid index
  have ht := trim_spec h.laid hfit hstart
  rw [write_snd_accepts]
  refine le_min (le_refl _) (not_lt.mp fun hlt => hno ⟨by omega, by omega, ?_, ?_⟩)
  · rintro rfl e he hkey
    have hmem : (r.nextAssembledIdx, e.2) ∈ r.unassembleStrs.entries := hkey ▸ he
    have := newStart_of_stored h.laid hmem
    have := h.laid.length_pos he
    omega
  · intro e he hlong
    have := hclear e (ht.beyond e he hlong)
    omega

/-- Every stored string begins inside the window, unless the output is full. -/
def Begins (r : StreamReassembler) : Prop :=
  ∀ e ∈ r.unassembleStrs.entries, e.1 < r.windowEnd ∨ e.1 = r.nextAssembledIdx

/-- What a run keeps whose pushes are all accountable. -/
structure Tallied (capacity : ℕ) (r : StreamReassembler) : Prop where
  shaped : Shaped r
  counted : Counted r
  begins : Begins r
  no_error : r.output.error = false
  capacity_eq : r.capacity = capacity

theorem Tallied.new (capacity : ℕ) : Tallied capacity (StreamReassembler.new capacity) :=
  ⟨Shaped.new capacity, rfl, fun _ he => absurd he List.not_mem_nil, rfl, rfl⟩

theorem Tallied.read {capacity : ℕ} {r : StreamReassembler} (h : Tallied capacity r) (n : ℕ) :
    Tallied capacity (r.read n).2 where
  shaped := h.shaped.read n
  counted := h.counted
  begins e he := (h.begins e he).imp_left fun hlt =>
    hlt.trans_le (Nat.add_le_add_right (Nat.le_add_right _ _) _)
  no_error := h.no_error
  capacity_eq := h.capacity_eq

/-- The store adds the substring and nothing else, if what is next is written whole. -/
theorem storeOrWrite_mem {r : StreamReassembler} {newIdx : ℕ} {nd : Bytes}
    (hall : newIdx = r.nextAssembledIdx → nd.length ≤ (r.output.write nd).2) :
    ∀ e ∈ (r.storeOrWrite newIdx nd).unassembleStrs.entries,
      (newIdx ≠ r.nextAssembledIdx ∧ e = (newIdx, nd)) ∨ e ∈ r.unassembleStrs.entries := by
  intro e he
  unfold StreamReassembler.storeOrWrite at he
  split at he
  · rename_i hnext
    dsimp only at he
    rw [if_neg (not_lt.mpr (hall hnext))] at he
    exact Or.inr he
  · rename_i hnext
    exact (SortedMap.mem_of_mem_insertNew he).imp_left fun heq => ⟨hnext, heq⟩

theorem storeOrWrite_next_of_ne {r : StreamReassembler} {newIdx : ℕ}
    (h : newIdx ≠ r.nextAssembledIdx) (nd : Bytes) :
    (r.storeOrWrite newIdx nd).nextAssembledIdx = r.nextAssembledIdx := by
  rw [StreamReassembler.storeOrWrite, if_neg h]

/-- What the loop of an accountable push meets: a counted state, with every string inside the window
and none it could not write. -/
theorem Tallied.stored {capacity : ℕ} {r : StreamReassembler} (h : Tallied capacity r)
    {data : Bytes} {index : ℕ} (hfit : index + data.length < 2 ^ 64)
    (hfull : ¬Overfull r data index) (hstrand : ¬Stranded r)
    (hwindow : r.newStart index < r.windowEnd)
    (hstart : 0 < (r.trim data index).dataSize → r.newStart index - index ≤ data.length) :
    Counted (r.stored data index) ∧
      ∀ e ∈ (r.stored data index).unassembleStrs.entries, e.1 < r.windowEnd ∧
        (r.output.inputEnded = true → e.1 ≠ (r.stored data index).nextAssembledIdx) := by
  obtain ⟨-, hnext, -⟩ := newStart_spec h.shaped.laid index
  have hcount := h.counted.trimmed h.shaped.laid data index
  have hold : ∀ e ∈ (r.trimmed data index).unassembleStrs.entries, e.1 < r.windowEnd ∧
      (r.output.inputEnded = true → e.1 ≠ r.nextAssembledIdx) := by
    intro e he
    have hmem := trim_sub r data index e he
    refine ⟨?_, fun hended heq => hstrand ⟨hended, e, hmem, heq⟩⟩
    rcases h.begins e hmem with hlt | heq <;> omega
  unfold StreamReassembler.stored
  split
  · rename_i hsize
    obtain ⟨hne, -, -, hclear⟩ := newData_laid h.shaped.laid hfit hsize (hstart hsize)
    have hall := newData_written h.shaped hfit hsize (hstart hsize) hfull
    refine ⟨hcount.storeOrWrite (h.shaped.trimmed data index).laid hclear hne hall, fun e he => ?_⟩
    -- an output that has ended takes nothing, so then the substring is not next
    have hlate : r.output.inputEnded = true → r.newStart index ≠ r.nextAssembledIdx := by
      intro hended heq
      have hle := hall heq
      rw [ByteStream.write_snd_of_ended hended] at hle
      exact hne (List.length_eq_zero_iff.mp (Nat.le_zero.mp hle))
    have hstay : r.output.inputEnded = true →
        ((r.trimmed data index).storeOrWrite (r.newStart index)
          (r.newData data index)).nextAssembledIdx = r.nextAssembledIdx := fun hended =>
      storeOrWrite_next_of_ne (r := r.trimmed data index) (hlate hended) _
    rcases storeOrWrite_mem (r := r.trimmed data index) hall e he with ⟨-, rfl⟩ | he
    · refine ⟨hwindow, fun hended => ?_⟩
      rw [hstay hended]
      exact hlate hended
    · refine ⟨(hold e he).1, fun hended => ?_⟩
      rw [hstay hended]
      exact (hold e he).2 hended
  · exact ⟨hcount, hold⟩

/-- An accountable push leaves the counter exact. -/
theorem Tallied.push {capacity : ℕ} {r : StreamReassembler} (h : Tallied capacity r)
    (hcap : capacity < 2 ^ 64) {data : Bytes} {index : ℕ} (hp : Accountable r data index)
    (eof : Bool) : Tallied capacity (r.pushSubstring data index eof) := by
  have hframe := pushSubstring_frame r data index eof
  have hlate := late_iff h.shaped (h.capacity_eq ▸ hcap) index
  have hend : (r.pushSubstring data index eof).windowEnd = r.windowEnd := by
    rw [windowEnd, windowEnd, hframe.bytesRead, hframe.capacity]
  have hpass : r.newStart index < r.firstUnacceptableIdx →
      (index + data.length < 2 ^ 64 ∧ ¬Overfull r data index ∧ ¬Stranded r) ∧
        r.newStart index < r.windowEnd := by
    intro hwindow
    refine ⟨hp.resolve_left fun hl => absurd (hlate.mp hl) (not_le.mpr hwindow), ?_⟩
    rw [firstUnacceptable_mod h.shaped] at hwindow
    exact hwindow.trans_le (Nat.mod_le _ _)
  have hshaped := (h.shaped.push (fun hwindow => (hpass hwindow).1.1) eof).1
  refine ⟨hshaped, ?_, ?_, hframe.error.trans h.no_error, hframe.capacity.trans h.capacity_eq⟩
  · unfold pushSubstring
    rcases r.pushSubstring_cases data index eof with ⟨-, hc⟩ | ⟨-, -, -, hc⟩ |
      ⟨hwindow, hstart, a, ha, -, hc⟩
    · rw [hc]
      exact h.counted.trimmed h.shaped.laid data index
    · rw [hc]
      exact h.counted.trimmed h.shaped.laid data index
    · obtain ⟨⟨hfit, hfull, hstrand⟩, hin⟩ := hpass hwindow
      obtain ⟨hcount, hbegin⟩ := h.stored hfit hfull hstrand hin hstart
      have hloop := h.shaped.beforeLoop hfit hstart
      have hstored := stored_frame r data index
      rw [hc, ha]
      show Counted (assembleLoop _ (r.stored data index)).1
      by_cases hended : r.output.inputEnded = true
      · rw [assembleLoop_of_gap]
        · exact hcount
        · intro e he
          have hge := hloop.laid.start_ge e he
          have hne := (hbegin e he).2 hended
          omega
      · refine hcount.assembleLoop _ hloop rfl (hstored.inputEnded.trans (by simpa using hended))
          (hstored.error.trans h.no_error) fun e he => ?_
        rw [hstored.bytesRead, hstored.capacity]
        exact (hbegin e he).1
  · -- what a full output leaves of a string is stored at the next index
    have hQ : ∀ e ∈ (r.pushSubstring data index eof).unassembleStrs.entries,
        e.1 < r.windowEnd ∨ e.1 ≤ (r.pushSubstring data index eof).nextAssembledIdx :=
      pushSubstring_entries
      (Q := fun e => e.1 < r.windowEnd ∨ e.1 ≤ (r.pushSubstring data index eof).nextAssembledIdx)
      (fun _ _ _ _ _ hle => Or.inr hle)
      (fun e he => (h.begins e he).imp_right fun heq => heq.trans_le hframe.next_le) eof
      (fun hwindow _ _ => Or.inl (hpass hwindow).2) (le_refl _)
    intro e he
    rw [hend]
    refine (hQ e he).imp_right fun hle => ?_
    have := hshaped.laid.start_ge e he
    omega

/-- Every push of the run is accountable in the state it meets. -/
def Op.Accountable (r : StreamReassembler) : Op → Prop
  | .push data index _ => StreamReassembler.Accountable r data index
  | .read _ => True

instance (r : StreamReassembler) : DecidablePred (Op.Accountable r)
  | .push _ _ _ => inferInstanceAs (Decidable (StreamReassembler.Accountable _ _ _))
  | .read _ => isTrue trivial

/-- What `unassembled_bytes()` and `empty()` should tell. -/
def Accounted (r : StreamReassembler) : Prop :=
  r.unassembledBytes = storedBytes r.unassembleStrs ∧
    storedBytes r.unassembleStrs = (region r.unassembleStrs).card ∧
    (r.empty = true ↔ r.unassembleStrs.entries = [])

theorem Tallied.accounted {capacity : ℕ} {r : StreamReassembler} (h : Tallied capacity r) :
    Accounted r := by
  have hbytes := h.shaped.laid.storedBytes_eq
  have hcount : r.unassembledBytesNum = (region r.unassembleStrs).card := h.counted
  refine ⟨hcount.trans hbytes.symm, hbytes, ?_⟩
  rw [← h.shaped.laid.card_region_eq_zero, empty, beq_iff_eq, hcount]

/-- **Exact accounting.**  In every state of a run whose pushes are accountable the counter is the
number of bytes stored, which is the number of indices they occupy, and `empty()` tells that nothing
is stored. -/
theorem accounted_of_accountable (capacity : ℕ) (hcap : capacity < 2 ^ 64) (ops : List Op)
    (h : StepSystem.Guarded Run.step (fun s op => op.Accountable s.reasm) (Run.new capacity) ops) :
    Accounted (StepSystem.run Run.step (Run.new capacity) ops).reasm := by
  have hrun : Tallied capacity (StepSystem.run Run.step (Run.new capacity) ops).reasm := by
    refine h.invariant (P := fun s => Tallied capacity s.reasm) (fun s op hop hs => ?_)
      (Tallied.new capacity)
    cases op with
    | push data index eof => exact hs.push hcap hop eof
    | read len => exact hs.read len
  exact hrun.accounted

/-- A window of two bytes, an over-long tail stored out of order and cut at the window's edge. -/
theorem accounted_of_accountable_tail :
    let ops := [.push [2, 3] 1 false, .push [1] 0 false]
    let r := (StepSystem.run Run.step (Run.new 2) ops).reasm
    Accounted r ∧ r.unassembledBytes = 1 :=
  ⟨accounted_of_accountable 2 (by decide) [.push [2, 3] 1 false, .push [1] 0 false]
    (by decide +kernel), by decide +kernel⟩

/-- One byte of window and a push of two: the byte left over is stored, erased and stays counted. -/
theorem not_accounted :
    let r := (StepSystem.run Run.step (Run.new 1) [.push [1, 2] 0 false]).reasm
    r.unassembleStrs.entries = [] ∧ r.unassembledBytes = 1 ∧ r.empty = false ∧ ¬Accounted r := by
  intro r
  have hnone : r.unassembleStrs.entries = [] := by decide +kernel
  have hempty : r.empty = false := by decide +kernel
  refine ⟨hnone, by decide +kernel, hempty, fun h => ?_⟩
  exact absurd (h.2.2.mpr hnone) (by simp [hempty])

/-! ### How far the stored strings reach past the window -/

/-- The stored strings begin inside the window or at its end, and reach past it by less than `m`. -/
def Reaches (m : ℕ) (r : StreamReassembler) : Prop :=
  ∀ e ∈ r.unassembleStrs.entries,
    e.1 ≤ r.windowEnd ∧ e.1 + e.2.length + 1 ≤ r.windowEnd + m

theorem Reaches.read {m : ℕ} {r : StreamReassembler} (h : Reaches m r) (n : ℕ) :
    Reaches m (r.read n).2 := by
  have hmove : r.windowEnd ≤ (r.read n).2.windowEnd :=
    Nat.add_le_add_right (Nat.le_add_right _ _) _
  intro e he
  obtain ⟨hstart, hend⟩ := h e he
  exact ⟨by omega, by omega⟩

/-- The window check admits only what begins inside the window, and what is left of a string begins
at the next index, which the window bounds. -/
theorem Reaches.push {m : ℕ} {r : StreamReassembler} (h : Reaches m r) (hr : Shaped r)
    {data : Bytes} {index : ℕ} {eof : Bool} (hlen : data.length ≤ m)
    (hs : Shaped (r.pushSubstring data index eof)) : Reaches m (r.pushSubstring data index eof) := by
  have hframe := pushSubstring_frame r data index eof
  have hend : (r.pushSubstring data index eof).windowEnd = r.windowEnd := by
    rw [windowEnd, windowEnd, hframe.bytesRead, hframe.capacity]
  have hnext : (r.pushSubstring data index eof).nextAssembledIdx ≤ r.windowEnd := by
    have := hs.window_end
    rw [← hend, windowEnd]
    omega
  unfold Reaches
  rw [hend]
  refine pushSubstring_entries
    (Q := fun e => e.1 ≤ r.windowEnd ∧ e.1 + e.2.length + 1 ≤ r.windowEnd + m)
    (fun k d w hd hw hle => ?_) h eof (fun hwindow hsize hstart => ?_) hnext
  · have hdrop : (d.drop w).length = d.length - w := List.length_drop
    have := hd.2
    dsimp only at this ⊢
    omega
  · have hlt := hwindow.trans_le ((firstUnacceptable_mod hr).trans_le (Nat.mod_le _ _))
    have hleft : (r.newData data index).length ≤ data.length := by
      rw [newData, List.length_take, List.length_drop]
      omega
    rw [windowEnd]
    dsimp only
    omega

/-- A stored string that reaches past the window. -/
def Past (r : StreamReassembler) (e : ℕ × Bytes) : Prop :=
  e ∈ r.unassembleStrs.entries ∧ r.windowEnd < e.1 + e.2.length

/-- Buffered and stored bytes together exceed the capacity by less than `m`, and at most one stored
string reaches past the window. -/
def Overcommits (m : ℕ) (r : StreamReassembler) : Prop :=
  r.output.bufferSize + storedBytes r.unassembleStrs ≤ r.capacity + m - 1 ∧
    ∀ e f, Past r e → Past r f → e = f

theorem Reaches.overcommits {m : ℕ} {r : StreamReassembler} (h : Reaches m r) (hr : Shaped r)
    (hm : 1 ≤ m) : Overcommits m r := by
  have hwindow := hr.window_end
  have hacc := r.output.accounting
  rw [hr.written] at hacc
  refine ⟨?_, fun e f ⟨he, hpe⟩ ⟨hf, hpf⟩ => ?_⟩
  · -- all stored bytes lie between the next index and the furthest reach
    have hsub : region r.unassembleStrs ⊆
        Finset.Ico r.nextAssembledIdx (r.windowEnd + m - 1) := by
      intro i hi
      obtain ⟨e, he, hle, hlt⟩ := mem_region.mp hi
      have hge := hr.laid.start_ge e he
      have := (h e he).2
      exact Finset.mem_Ico.mpr ⟨by omega, by omega⟩
    have hcard := Finset.card_le_card hsub
    rw [Nat.card_Ico, ← hr.laid.storedBytes_eq, windowEnd] at hcard
    rw [ByteStream.bufferSize]
    omega
  · rcases lt_trichotomy e.1 f.1 with hlt | heq | hgt
    · have := hr.laid.disjoint e he f hf hlt
      have := (h f hf).1
      omega
    · exact r.unassembleStrs.eq_of_key_eq he hf heq
    · have := hr.laid.disjoint f hf e he hgt
      have := (h e he).1
      omega

/-- A push of at most `m` bytes. -/
def Op.Within (m : ℕ) : Op → Prop
  | .push data _ _ => data.length ≤ m
  | .read _ => True

/-- The push is late, or ends below `2 ^ 64`. -/
def Op.Fits (r : StreamReassembler) : Op → Prop
  | .push data index _ => Late r index ∨ index + data.length < 2 ^ 64
  | .read _ => True

instance (m : ℕ) : DecidablePred (Op.Within m)
  | .push _ _ _ => inferInstanceAs (Decidable (_ ≤ _))
  | .read _ => isTrue trivial

instance (r : StreamReassembler) : DecidablePred (Op.Fits r)
  | .push _ _ _ => inferInstanceAs (Decidable (_ ∨ _))
  | .read _ => isTrue trivial

/-- **Bounded over-commit.**  In every state of a run whose pushes have at most `m` bytes and end
below `2 ^ 64` unless they are late, what is buffered and what is stored exceed the capacity by less
than `m`, and at most one stored string reaches past the window. -/
theorem overcommits_of_fits (capacity m : ℕ) (hcap : capacity < 2 ^ 64) (hm : 1 ≤ m)
    (ops : List Op) (hlen : ∀ op ∈ ops, op.Within m)
    (h : StepSystem.Guarded Run.step (fun s op => op.Fits s.reasm) (Run.new capacity) ops) :
    Overcommits m (StepSystem.run Run.step (Run.new capacity) ops).reasm ∧
      (StepSystem.run Run.step (Run.new capacity) ops).reasm.capacity = capacity := by
  suffices hrun : ∀ ops, (∀ op ∈ ops, op.Within m) →
      StepSystem.Guarded Run.step (fun s op => op.Fits s.reasm) (Run.new capacity) ops →
      Shaped (StepSystem.run Run.step (Run.new capacity) ops).reasm ∧
        Reaches m (StepSystem.run Run.step (Run.new capacity) ops).reasm ∧
        (StepSystem.run Run.step (Run.new capacity) ops).reasm.capacity = capacity by
    obtain ⟨hshaped, hreach, hcapeq⟩ := hrun ops hlen h
    exact ⟨hreach.overcommits hshaped hm, hcapeq⟩
  intro ops
  induction ops using List.reverseRecOn with
  | nil =>
      exact fun _ _ => ⟨Shaped.new capacity, fun _ he => absurd he List.not_mem_nil, rfl⟩
  | append_singleton ops op ih =>
      intro hlen hguard
      rw [StepSystem.Guarded.snoc_iff] at hguard
      rw [StepSystem.run_snoc]
      obtain ⟨hshaped, hreach, hcapeq⟩ :=
        ih (fun o ho => hlen o (List.mem_append_left _ ho)) hguard.1
      have hop := hguard.2
      have hwithin := hlen op (List.mem_append_right _ List.mem_cons_self)
      cases op with
      | push data index eof =>
          have hlate := late_iff hshaped (hcapeq.trans_lt hcap) index
          have hfits : Late _ index ∨ index + data.length < 2 ^ 64 := hop
          have hs := hshaped.push (fun hwindow =>
            hfits.resolve_left fun hl => absurd (hlate.mp hl) (not_le.mpr hwindow)) eof
          exact ⟨hs.1, hreach.push hshaped hwithin hs.1,
            (pushSubstring_frame _ data index eof).capacity.trans hcapeq⟩
      | read len => exact ⟨hshaped.read len, hreach.read len, hcapeq⟩

/-- A window of one byte that a push of three over-commits by two. -/
theorem overcommits_of_fits_tail :
    let r := (StepSystem.run Run.step (Run.new 2) [.push [2, 3, 4] 1 false]).reasm
    Overcommits 3 r ∧ r.output.bufferSize + storedBytes r.unassembleStrs = 3 :=
  ⟨(overcommits_of_fits 2 3 (by decide) (by decide) [.push [2, 3, 4] 1 false] (by decide +kernel)
    (by decide +kernel)).1, by decide +kernel⟩

/-- Two pushes past `2 ^ 64`: neither finds the other, and both reach past the window. -/
theorem not_overcommits :
    let r := (StepSystem.run Run.step (Run.new (2 ^ 64 - 1))
      [.push [1, 2, 3, 4, 5] (2 ^ 64 - 2) false, .push [1, 2, 3, 4, 5] (2 ^ 64 - 3) false]).reasm
    r.unassembleStrs.entries = [(2 ^ 64 - 3, [1, 2, 3, 4, 5]), (2 ^ 64 - 2, [1, 2, 3, 4, 5])] ∧
      ¬Overcommits 5 r := by
  intro r
  have hentries : r.unassembleStrs.entries =
      [(2 ^ 64 - 3, [1, 2, 3, 4, 5]), (2 ^ 64 - 2, [1, 2, 3, 4, 5])] := by decide +kernel
  have hend : r.windowEnd = 2 ^ 64 - 1 := by decide +kernel
  refine ⟨hentries, fun h => ?_⟩
  have heq := h.2 (2 ^ 64 - 3, [1, 2, 3, 4, 5]) (2 ^ 64 - 2, [1, 2, 3, 4, 5])
    ⟨by rw [hentries]; simp, by rw [hend]; decide⟩ ⟨by rw [hentries]; simp, by rw [hend]; decide⟩
  exact absurd (congrArg Prod.fst heq) (by decide)

end StreamReassembler

end CourseNet
