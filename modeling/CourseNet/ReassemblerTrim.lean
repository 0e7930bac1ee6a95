import CourseNet.Excerpt
import CourseNet.StreamReassembler

/-!
# What the reassembler stores, and how it trims

`Stored S N m` is the representation invariant of `_unassemble_strs` relative to the stream `S`
being received and the next index `N`.  The first two phases of `push_substring` get one lemma
each: where the new start lies, and what the trimming loop leaves of the substring and of the
stored strings.
-/

namespace CourseNet

namespace StreamReassembler

/-- The stored strings are non-empty, lie at or after `N`, are pairwise disjoint, and end below
`2 ^ 64`. -/
structure Laid (N : ℕ) (m : SortedMap ℕ Bytes) : Prop where
  nonempty : ∀ e ∈ m.entries, e.2 ≠ []
  start_ge : ∀ e ∈ m.entries, N ≤ e.1
  fits : ∀ e ∈ m.entries, e.1 + e.2.length < 2 ^ 64
  disjoint : ∀ e ∈ m.entries, ∀ f ∈ m.entries, e.1 < f.1 → e.1 + e.2.length ≤ f.1

/-- The stored strings are non-empty excerpts of `S` at or after `N`, pairwise disjoint, and end
below `2 ^ 64`. -/
structure Stored (S : Bytes) (N : ℕ) (m : SortedMap ℕ Bytes) : Prop where
  nonempty : ∀ e ∈ m.entries, e.2 ≠ []
  start_ge : ∀ e ∈ m.entries, N ≤ e.1
  agrees : ∀ e ∈ m.entries, Excerpt S e.1 e.2
  fits : ∀ e ∈ m.entries, e.1 + e.2.length < 2 ^ 64
  disjoint : ∀ e ∈ m.entries, ∀ f ∈ m.entries, e.1 < f.1 → e.1 + e.2.length ≤ f.1

/-- No stored string meets the `len` indices from `k` on. -/
def Clear (m : SortedMap ℕ Bytes) (k len : ℕ) : Prop :=
  ∀ e ∈ m.entries, e.1 + e.2.length ≤ k ∨ k + len ≤ e.1

theorem Stored.laid {S : Bytes} {N : ℕ} {m : SortedMap ℕ Bytes} (h : Stored S N m) : Laid N m :=
  ⟨h.nonempty, h.start_ge, h.fits, h.disjoint⟩

namespace Laid

variable {S : Bytes} {N : ℕ} {m m' : SortedMap ℕ Bytes}

theorem stored (h : Laid N m) (hS : ∀ e ∈ m.entries, Excerpt S e.1 e.2) : Stored S N m :=
  ⟨h.nonempty, h.start_ge, hS, h.fits, h.disjoint⟩

theorem empty (N : ℕ) : Laid N SortedMap.empty := by
  constructor <;> simp [SortedMap.empty]

theorem length_pos (h : Laid N m) {e : ℕ × Bytes} (he : e ∈ m.entries) : 0 < e.2.length :=
  List.length_pos_iff.mpr (h.nonempty e he)

theorem sub (h : Laid N m) (hsub : ∀ e ∈ m'.entries, e ∈ m.entries) : Laid N m' where
  nonempty e he := h.nonempty e (hsub e he)
  start_ge e he := h.start_ge e (hsub e he)
  fits e he := h.fits e (hsub e he)
  disjoint e he f hf := h.disjoint e (hsub e he) f (hsub f hf)

theorem advance (h : Laid N m) {N' : ℕ} (hge : ∀ e ∈ m.entries, N' ≤ e.1) : Laid N' m :=
  { h with start_ge := hge }

theorem ne_key (h : Laid N m) {k len : ℕ} (hc : Clear m k len) (hlen : 0 < len) :
    ∀ e ∈ m.entries, e.1 ≠ k := by
  intro e he heq
  have hpos := h.length_pos he
  rcases hc e he with hle | hle <;> omega

/-- A non-empty string may be stored wherever nothing is in its way. -/
theorem insertNew (h : Laid N m) {k : ℕ} {d : Bytes} (hc : Clear m k d.length) (hd : d ≠ [])
    (hk : N ≤ k) (hfit : k + d.length < 2 ^ 64) : Laid N (m.insertNew k d) := by
  have hlen : 0 < d.length := List.length_pos_iff.mpr hd
  have hmem : ∀ e, e ∈ (m.insertNew k d).entries ↔ e = (k, d) ∨ e ∈ m.entries :=
    fun e => SortedMap.mem_insertNew (h.ne_key hc hlen)
  refine ⟨fun e he => ?_, fun e he => ?_, fun e he => ?_, fun e he f hf hef => ?_⟩
  · rcases (hmem e).mp he with rfl | he
    exacts [hd, h.nonempty e he]
  · rcases (hmem e).mp he with rfl | he
    exacts [hk, h.start_ge e he]
  · rcases (hmem e).mp he with rfl | he
    exacts [hfit, h.fits e he]
  · rcases (hmem e).mp he with rfl | he <;> rcases (hmem f).mp hf with rfl | hf
    · exact absurd hef (lt_irrefl _)
    · have hcf := hc f hf
      have hpos := h.length_pos hf
      dsimp only at hef ⊢
      omega
    · have hce := hc e he
      dsimp only at hef ⊢
      omega
    · exact h.disjoint e he f hf hef

/-- Without the string at `N`, everything stored starts after it. -/
theorem after_head (h : Laid N m) {str : Bytes} (hmem : (N, str) ∈ m.entries) :
    ∀ e ∈ (m.erase N).entries, N + str.length ≤ e.1 := by
  intro e he
  obtain ⟨he, hne⟩ := SortedMap.mem_erase.mp he
  have hge := h.start_ge e he
  exact h.disjoint _ hmem e he (by dsimp only; omega)

/-- The string at `N` is written, in part or wholly. -/
theorem erase_head (h : Laid N m) {str : Bytes} (hmem : (N, str) ∈ m.entries) {w : ℕ}
    (hw : w ≤ str.length) : Laid (N + w) (m.erase N) :=
  (h.sub fun e he => (SortedMap.mem_erase.mp he).1).advance fun e he => by
    have := h.after_head hmem e he
    omega

/-- What a partial write of the string at `N` leaves in the map: what was stored behind it, and
what is left of it unless nothing was written; then what is left has the key that is erased. -/
theorem mem_replace_head (h : Laid N m) {str : Bytes} (hmem : (N, str) ∈ m.entries) {w : ℕ}
    (hw : w < str.length) {e : ℕ × Bytes} :
    e ∈ ((m.insertNew (N + w) (str.drop w)).erase N).entries ↔
      (0 < w ∧ e = (N + w, str.drop w)) ∨ e ∈ (m.erase N).entries := by
  rw [SortedMap.mem_erase, SortedMap.mem_erase]
  rcases Nat.eq_zero_or_pos w with rfl | hpos
  · constructor
    · rintro ⟨he, hne⟩
      rcases SortedMap.key_mem_insertEntry he with hk | he
      · exact absurd hk hne
      · exact Or.inr ⟨he, hne⟩
    · rintro (⟨hlt, -⟩ | ⟨he, hne⟩)
      · exact absurd hlt (lt_irrefl 0)
      · exact ⟨SortedMap.mem_insertNew_of_mem he, hne⟩
  · have hfresh : ∀ f ∈ m.entries, f.1 ≠ N + w := by
      intro f hf heq
      have := h.after_head hmem f (SortedMap.mem_erase.mpr ⟨hf, by omega⟩)
      omega
    rw [SortedMap.mem_insertNew hfresh]
    constructor
    · rintro ⟨rfl | he, hne⟩
      · exact Or.inl ⟨hpos, rfl⟩
      · exact Or.inr ⟨he, hne⟩
    · rintro (⟨-, rfl⟩ | ⟨he, hne⟩)
      · exact ⟨Or.inl rfl, by dsimp only; omega⟩
      · exact ⟨Or.inr he, hne⟩

/-- The string at `N` is written in part, and what is left of it replaces it. -/
theorem replace_head (h : Laid N m) {str : Bytes} (hmem : (N, str) ∈ m.entries) {w : ℕ}
    (hw : w < str.length) : Laid (N + w) ((m.insertNew (N + w) (str.drop w)).erase N) := by
  have hrest := h.erase_head hmem hw.le
  have hafter := h.after_head hmem
  have hfit := h.fits _ hmem
  dsimp only at hfit
  have hlen : (str.drop w).length = str.length - w := List.length_drop
  have hclear : Clear (m.erase N) (N + w) (str.drop w).length := by
    intro e he
    have := hafter e he
    omega
  have hins := hrest.insertNew hclear (List.ne_nil_of_length_pos (by omega)) (le_refl _) (by omega)
  refine hins.sub fun e he => ?_
  rw [SortedMap.mem_insertNew (hrest.ne_key hclear (by omega))]
  rcases (h.mem_replace_head hmem hw).mp he with ⟨-, rfl⟩ | he
  · exact Or.inl rfl
  · exact Or.inr he

end Laid

namespace Stored

variable {S T : Bytes} {N : ℕ} {m m' : SortedMap ℕ Bytes}

theorem empty (S : Bytes) (N : ℕ) : Stored S N SortedMap.empty :=
  (Laid.empty N).stored fun _ he => absurd he List.not_mem_nil

theorem sub (h : Stored S N m) (hsub : ∀ e ∈ m'.entries, e ∈ m.entries) : Stored S N m' :=
  (h.laid.sub hsub).stored fun e he => h.agrees e (hsub e he)

/-- The stream received may turn out longer. -/
theorem extend (h : Stored S N m) (hST : S <+: T) : Stored T N m :=
  { h with agrees := fun e he => (h.agrees e he).mono hST }

end Stored

/-! ### The new start -/

/-- The new start is the end of the string stored over the index, if there is one. -/
theorem newStart_cases {r : StreamReassembler} (h : Laid r.nextAssembledIdx r.unassembleStrs)
    (index : ℕ) :
    (∃ e ∈ r.unassembleStrs.entries, e.1 ≤ index ∧ index < e.1 + e.2.length ∧
      r.newStart index = e.1 + e.2.length) ∨
    ((∀ e ∈ r.unassembleStrs.entries, e.1 ≤ index → e.1 + e.2.length ≤ index) ∧
      r.newStart index = max index r.nextAssembledIdx) := by
  unfold newStart
  split
  · rename_i upIdx up hup
    obtain ⟨hmem, hle, hmax⟩ := SortedMap.floor?_eq_some hup
    have hge := h.start_ge _ hmem
    have hfit := h.fits _ hmem
    dsimp only at hle hge hfit hmax ⊢
    rw [Nat.mod_eq_of_lt hfit]
    split
    · rename_i hover
      exact Or.inl ⟨_, hmem, hle, hover, rfl⟩
    · refine Or.inr ⟨fun e he hei => ?_, by omega⟩
      rcases (hmax e he hei).lt_or_eq with hlt | heq
      · have := h.disjoint e he _ hmem hlt
        dsimp only at this
        omega
      · rw [r.unassembleStrs.eq_of_key_eq he hmem heq]
        dsimp only
        omega
  · rename_i hnone
    refine Or.inr ⟨fun e he hei => ?_, by split <;> omega⟩
    exact absurd (SortedMap.floor?_eq_none hnone e he) (by omega)

/-- The new start is not before the index nor before `N`, and everything stored before it ends by
it. -/
theorem newStart_spec {r : StreamReassembler} (h : Laid r.nextAssembledIdx r.unassembleStrs)
    (index : ℕ) :
    index ≤ r.newStart index ∧ r.nextAssembledIdx ≤ r.newStart index ∧
      ∀ e ∈ r.unassembleStrs.entries, e.1 < r.newStart index →
        e.1 + e.2.length ≤ r.newStart index := by
  rcases newStart_cases h index with ⟨e, he, hle, hlt, heq⟩ | ⟨hbefore, heq⟩
  · have hge := h.start_ge e he
    refine ⟨by omega, by omega, fun f hf hfn => ?_⟩
    rcases lt_trichotomy f.1 e.1 with hfe | hfe | hfe
    · have := h.disjoint f hf e he hfe
      omega
    · rw [r.unassembleStrs.eq_of_key_eq hf he hfe, heq]
    · have := h.disjoint e he f hf hfe
      omega
  · refine ⟨by omega, by omega, fun f hf hfn => ?_⟩
    have hge := h.start_ge f hf
    have := hbefore f hf
    omega

/-- Without an entry at `N`, a substring that covers `N` starts there. -/
theorem newStart_eq_next {r : StreamReassembler} {index : ℕ}
    (h : Laid r.nextAssembledIdx r.unassembleStrs) (hle : index ≤ r.nextAssembledIdx)
    (hno : index = r.nextAssembledIdx → ∀ e ∈ r.unassembleStrs.entries, e.1 ≠ index) :
    r.newStart index = r.nextAssembledIdx := by
  rcases newStart_cases h index with ⟨e, he, hei, -, -⟩ | ⟨-, heq⟩
  · have hge := h.start_ge e he
    exact absurd (by omega) (hno (by omega) e he)
  · omega

/-- A string stored at `N` pushes the new start past itself. -/
theorem newStart_of_stored {r : StreamReassembler} {d : Bytes}
    (h : Laid r.nextAssembledIdx r.unassembleStrs)
    (hmem : (r.nextAssembledIdx, d) ∈ r.unassembleStrs.entries) :
    r.newStart r.nextAssembledIdx = r.nextAssembledIdx + d.length := by
  have hpos := h.length_pos hmem
  rcases newStart_cases h r.nextAssembledIdx with ⟨e, he, hle, -, heq⟩ | ⟨hbefore, -⟩
  · have hge := h.start_ge e he
    rw [heq, r.unassembleStrs.eq_of_key_eq he hmem (by dsimp only; omega)]
  · have := hbefore _ hmem (le_refl _)
    dsimp only at hpos this
    omega

/-! ### The trimming loop -/

theorem trimLoop_sub (newIdx : ℕ) (iter : List (ℕ × Bytes)) (t : Trim) :
    ∀ e ∈ (trimLoop newIdx iter t).strs.entries, e ∈ t.strs.entries := by
  induction iter generalizing t with
  | nil => exact fun e he => he
  | cons e es ih =>
      obtain ⟨downIdx, down⟩ := e
      simp only [trimLoop]
      split_ifs
      · exact fun e he => he
      · exact fun e he => (SortedMap.mem_erase.mp (ih _ e he)).1
      · exact fun e he => he
      · exact fun e he => he

/-- What the loop leaves of a substring that ends at `E`: it still ends by `E`, no stored string is
in its way, and if it was cut to nothing an entry sits at its start.  Strings that begin before the
substring or end after it stay. -/
structure TrimSpec (newIdx E : ℕ) (t u : Trim) : Prop where
  end_le : newIdx + u.dataSize ≤ E
  clear : ∀ e ∈ u.strs.entries, newIdx ≤ e.1 → 0 < u.dataSize → newIdx + u.dataSize ≤ e.1
  vanish : 0 < t.dataSize → u.dataSize ≤ 0 → ∃ e ∈ u.strs.entries, e.1 = newIdx
  below : ∀ e ∈ t.strs.entries, e.1 < newIdx → e ∈ u.strs.entries
  beyond : ∀ e ∈ t.strs.entries, E < e.1 + e.2.length → e ∈ u.strs.entries

theorem ssize_le (n : ℕ) : ssize n ≤ n := by
  unfold ssize
  split <;> omega

theorem ssize_of_lt {n : ℕ} (h : n < 2 ^ 63) : ssize n = n := if_pos h

/-- Nothing stored is in the way. -/
theorem TrimSpec.of_clear {newIdx E : ℕ} {t : Trim} (hle : newIdx + t.dataSize ≤ E)
    (hclear : ∀ e ∈ t.strs.entries, newIdx ≤ e.1 → newIdx + t.dataSize ≤ e.1) :
    TrimSpec newIdx E t t :=
  ⟨hle, fun e he hge _ => hclear e he hge, fun h0 h1 => absurd h0 (by omega), fun _ he _ => he,
    fun _ he _ => he⟩

/-- The substring is cut where the first entry begins. -/
theorem TrimSpec.of_cut {newIdx E downIdx : ℕ} {down : Bytes} {t : Trim}
    (hmem : (downIdx, down) ∈ t.strs.entries) (hge : newIdx ≤ downIdx) (hover : downIdx < E)
    (hfirst : ∀ f ∈ t.strs.entries, newIdx ≤ f.1 → downIdx ≤ f.1)
    (hbound : 0 < t.dataSize → downIdx - newIdx < 2 ^ 63) :
    TrimSpec newIdx E t { t with dataSize := ssize (downIdx - newIdx) } := by
  have hcut := ssize_le (downIdx - newIdx)
  refine ⟨?_, fun f hf hfn _ => ?_, fun hpos hle => ⟨_, hmem, ?_⟩, fun f hf _ => hf,
    fun f hf _ => hf⟩
  · show (newIdx : ℤ) + ssize _ ≤ E
    omega
  · show (newIdx : ℤ) + ssize _ ≤ f.1
    have := hfirst f hf hfn
    omega
  · have hle : ssize (downIdx - newIdx) ≤ 0 := hle
    rw [ssize_of_lt (hbound hpos)] at hle
    show downIdx = newIdx
    omega

theorem trimLoop_spec {N newIdx E : ℕ} (iter : List (ℕ × Bytes)) (t : Trim)
    (hm : Laid N t.strs) (hiter : ∀ e ∈ t.strs.entries, newIdx ≤ e.1 → e ∈ iter)
    (hsub : ∀ e ∈ iter, e ∈ t.strs.entries ∧ newIdx ≤ e.1)
    (hsorted : iter.Pairwise fun e f => e.1 < f.1)
    (hE : ((newIdx + t.dataSize) % 2 ^ 64).toNat = E) (hle : newIdx + t.dataSize ≤ E)
    (hss : t.dataSize < 2 ^ 63) :
    TrimSpec newIdx E t (trimLoop newIdx iter t) := by
  induction iter generalizing t with
  | nil => exact TrimSpec.of_clear hle fun e he hge => absurd (hiter e he hge) List.not_mem_nil
  | cons e es ih =>
      obtain ⟨downIdx, down⟩ := e
      obtain ⟨hmem, hge⟩ := hsub _ List.mem_cons_self
      obtain ⟨hhead, htail⟩ := List.pairwise_cons.mp hsorted
      have hfit := hm.fits _ hmem
      dsimp only at hfit hge hhead
      -- every other entry at or after the new start lies beyond the first one
      have hfirst : ∀ f ∈ t.strs.entries, newIdx ≤ f.1 → downIdx ≤ f.1 := by
        intro f hf hfn
        rcases List.mem_cons.mp (hiter f hf hfn) with rfl | hf'
        · exact le_refl _
        · exact (hhead f hf').le
      simp only [trimLoop, if_pos hge, hE, Nat.mod_eq_of_lt hfit]
      split
      · rename_i hover
        split
        · exact TrimSpec.of_cut hmem hge hover hfirst fun _ => by omega
        · -- the entry is covered: it goes, and the loop continues behind it
          have herase : ∀ f, f ∈ (t.strs.erase downIdx).entries ↔
              f ∈ t.strs.entries ∧ f.1 ≠ downIdx := fun f => SortedMap.mem_erase
          have hrest := ih { t with
              strs := t.strs.erase downIdx, bytesNum := t.bytesNum - down.length }
            (hm.sub fun f hf => ((herase f).mp hf).1)
            (fun f hf hfn => by
              obtain ⟨hf', hne⟩ := (herase f).mp hf
              rcases List.mem_cons.mp (hiter f hf' hfn) with rfl | hf''
              · exact absurd rfl hne
              · exact hf'')
            (fun f hf => by
              obtain ⟨hf', hfn⟩ := hsub f (List.mem_cons_of_mem _ hf)
              exact ⟨(herase f).mpr ⟨hf', (hhead f hf).ne'⟩, hfn⟩)
            htail hE hle hss
          refine ⟨hrest.end_le, hrest.clear, hrest.vanish,
            fun f hf hfn => hrest.below f ((herase f).mpr ⟨hf, by omega⟩) hfn,
            fun f hf hfE => hrest.beyond f ((herase f).mpr ⟨hf, fun heq => ?_⟩) hfE⟩
          rw [t.strs.eq_of_key_eq hf hmem heq] at hfE
          dsimp only at hfE
          omega
      · refine TrimSpec.of_clear hle fun f hf hfn => ?_
        have := hfirst f hf hfn
        omega

theorem ssize_lt {n : ℕ} (h : n < 2 ^ 64) : ssize n < 2 ^ 63 := by
  unfold ssize
  split <;> omega

theorem trim_sub (r : StreamReassembler) (data : Bytes) (index : ℕ) :
    ∀ e ∈ (r.trim data index).strs.entries, e ∈ r.unassembleStrs.entries :=
  trimLoop_sub _ _ _

/-- The loop's specification at its call site, for a substring not wholly before the new start. -/
theorem trim_spec {data : Bytes} {r : StreamReassembler} {index : ℕ}
    (h : Laid r.nextAssembledIdx r.unassembleStrs) (hfit : index + data.length < 2 ^ 64)
    (hstart : r.newStart index - index ≤ data.length) :
    TrimSpec (r.newStart index) (index + data.length)
      ⟨r.unassembleStrs, ssize (data.length - (r.newStart index - index)), r.unassembledBytesNum⟩
      (r.trim data index) := by
  obtain ⟨hidx, -, -⟩ := newStart_spec h index
  have hsize : (data.length + 2 ^ 64 - (r.newStart index - index)) % 2 ^ 64 =
      data.length - (r.newStart index - index) := by omega
  have hle := ssize_le (data.length - (r.newStart index - index))
  rw [trim, hsize]
  refine trimLoop_spec _ _ h ?_ ?_ (SortedMap.lowerBound_sorted _ _) ?_ ?_ (ssize_lt (by omega))
  · exact fun e he hge => SortedMap.mem_lowerBound.mpr ⟨he, hge⟩
  · exact fun e he => SortedMap.mem_lowerBound.mp he
  · show ((r.newStart index + ssize _) % 2 ^ 64).toNat = _
    unfold ssize
    split <;> omega
  · show (r.newStart index : ℤ) + ssize _ ≤ _
    push_cast
    omega

/-- What is left of the substring is not empty, and nothing stored meets it. -/
theorem newData_laid {data : Bytes} {r : StreamReassembler} {index : ℕ}
    (h : Laid r.nextAssembledIdx r.unassembleStrs) (hfit : index + data.length < 2 ^ 64)
    (hsize : 0 < (r.trim data index).dataSize)
    (hstart : r.newStart index - index ≤ data.length) :
    r.newData data index ≠ [] ∧
      (r.newData data index).length = (r.trim data index).dataSize.toNat ∧
      r.newStart index + (r.newData data index).length ≤ index + data.length ∧
      Clear (r.trim data index).strs (r.newStart index) (r.newData data index).length := by
  obtain ⟨hidx, -, hbefore⟩ := newStart_spec h index
  have ht := trim_spec h hfit hstart
  have hend := ht.end_le
  have hlen : (r.newData data index).length = (r.trim data index).dataSize.toNat := by
    rw [newData, List.length_take, List.length_drop]
    omega
  refine ⟨List.ne_nil_of_length_pos (by omega), hlen, by omega, fun e he => ?_⟩
  rcases Nat.lt_or_ge e.1 (r.newStart index) with hlt | hge
  · exact Or.inl (hbefore e (trim_sub r data index e he) hlt)
  · have := ht.clear e he hge hsize
    omega

/-- It is an excerpt of what the substring is an excerpt of. -/
theorem newData_excerpt {S data : Bytes} {r : StreamReassembler} {index : ℕ}
    (hS : Excerpt S index data) (hidx : index ≤ r.newStart index) :
    Excerpt S (r.newStart index) (r.newData data index) := by
  have hdrop := (hS.drop (r.newStart index - index)).take (r.trim data index).dataSize.toNat
  rwa [Nat.add_sub_cancel' hidx] at hdrop

end StreamReassembler

end CourseNet
