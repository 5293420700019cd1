import Mathlib.Data.List.Sort
import Mathlib.Data.List.InsertIdx

/-! # Sorted windows and `slice::binary_search`

    The long-term window of the weight cache is a `Vec<usize>` kept sorted by inserting
    and removing at the indices `slice::binary_search` returns. That function is part of
    the standard library, not of these files, and its documentation fixes only a
    contract: on a sorted slice, `Ok(i)` is the index of an element equal to the value,
    any one of them if there are several, and `Err(i)` says that the value is absent and
    that inserting it at `i` keeps the slice sorted. `BinarySearch` is any function that
    meets this contract, and every result about the cache holds for all of them, so
    none depends on which of several equal elements the search lands on.

    `Result<usize, usize>` is `Except Nat Nat`, with `Ok` as `.ok` and `Err` as `.error`.
    The last section has one search that meets the contract, used to run the cache on
    concrete inputs.
-/

namespace Cuprate

/-- `slice::binary_search` on a slice of `usize`, given by its documented contract. -/
structure BinarySearch where
  search : List Nat → Nat → Except Nat Nat
  /-- A found value is at the index returned. -/
  ok_spec : ∀ l x i, l.Sorted (· ≤ ·) → search l x = .ok i → l[i]? = some x
  /-- A value not found is absent, and can be inserted at the index returned. -/
  error_spec : ∀ l x i, l.Sorted (· ≤ ·) → search l x = .error i →
    x ∉ l ∧ i ≤ l.length ∧ (l.insertIdx i x).Sorted (· ≤ ·)

/-- The index `Ok(idx) | Err(idx)` of a search's result. -/
def searchIndex : Except Nat Nat → Nat
  | .ok i => i
  | .error i => i

/-! ## Section 1: Inserting and removing in a sorted list -/

/-- Inserting a value just before an element equal to it keeps a sorted list sorted. -/
theorem sorted_insertIdx_of_getElem?_eq {l : List Nat} {i x : Nat} (hs : l.Sorted (· ≤ ·))
    (h : l[i]? = some x) : (l.insertIdx i x).Sorted (· ≤ ·) := by
  obtain ⟨hi, hx⟩ := List.getElem?_eq_some_iff.1 h
  obtain ⟨l₁, l₂, rfl, rfl, heq⟩ := List.exists_of_modifyTailIdx (List.cons x) hi.le
  obtain ⟨l₃, rfl⟩ : ∃ l₃, l₂ = x :: l₃ := by
    cases l₂ with
    | nil => simp at hi
    | cons y l₃ =>
      rw [List.getElem?_append_right le_rfl, Nat.sub_self] at h
      exact ⟨l₃, by simpa using h⟩
  rw [List.insertIdx, heq]
  simp only [List.Sorted, List.pairwise_append, List.pairwise_cons, List.mem_cons] at hs ⊢
  obtain ⟨h₁, ⟨h₂, h₃⟩, h₄⟩ := hs
  exact ⟨h₁, ⟨fun _ hb => hb.elim (fun hb => hb ▸ le_rfl) (h₂ _), h₂, h₃⟩,
    fun a ha b hb => hb.elim (fun hb => hb ▸ h₄ a ha x (.inl rfl)) (h₄ a ha b)⟩

/-- Removing an element keeps a sorted list sorted. -/
theorem Sorted.eraseIdx {l : List Nat} (hs : l.Sorted (· ≤ ·)) (i : Nat) :
    (l.eraseIdx i).Sorted (· ≤ ·) :=
  List.Pairwise.eraseIdx i hs

/-- The element removed at an index holds the value read there. -/
theorem perm_cons_eraseIdx {l : List Nat} {i x : Nat} (h : l[i]? = some x) :
    l.Perm (x :: l.eraseIdx i) := by
  obtain ⟨hi, rfl⟩ := List.getElem?_eq_some_iff.1 h
  have hsplit : l.take i ++ l[i] :: l.drop (i + 1) = l := by
    rw [List.getElem_cons_drop, List.take_append_drop]
  have hperm : (l.take i ++ l[i] :: l.drop (i + 1)).Perm (l[i] :: (l.take i ++ l.drop (i + 1))) :=
    List.perm_middle
  rwa [hsplit, ← List.eraseIdx_eq_take_drop_succ] at hperm

namespace BinarySearch

variable (bs : BinarySearch) {l : List Nat} (hs : l.Sorted (· ≤ ·))
include hs

/-- Whichever index the search returns, `Vec::insert` there does not panic and keeps the
    slice sorted. -/
theorem insertIdx_index (x : Nat) :
    searchIndex (bs.search l x) ≤ l.length ∧
      (l.insertIdx (searchIndex (bs.search l x)) x).Sorted (· ≤ ·) := by
  cases h : bs.search l x with
  | ok i =>
    have hx := bs.ok_spec l x i hs h
    exact ⟨(List.getElem?_eq_some_iff.1 hx).1.le, sorted_insertIdx_of_getElem?_eq hs hx⟩
  | error i =>
    obtain ⟨-, hi, hsorted⟩ := bs.error_spec l x i hs h
    exact ⟨hi, hsorted⟩

/-- A value in the slice is found, at an index that holds it. -/
theorem search_of_mem {x : Nat} (hx : x ∈ l) : ∃ i, bs.search l x = .ok i ∧ l[i]? = some x := by
  cases h : bs.search l x with
  | ok i => exact ⟨i, rfl, bs.ok_spec l x i hs h⟩
  | error i => exact absurd hx (bs.error_spec l x i hs h).1

end BinarySearch

/-! ## Section 2: A search that meets the contract -/

/-- A linear search for the first element not below the value: `Ok` at it if it is equal
    to the value, `Err` at it otherwise. -/
def lowerBoundSearch : List Nat → Nat → Except Nat Nat
  | [], _ => .error 0
  | y :: l, x =>
    if y < x then
      match lowerBoundSearch l x with
      | .ok i => .ok (i + 1)
      | .error i => .error (i + 1)
    else if y = x then .ok 0
    else .error 0

theorem lowerBoundSearch_ok (l : List Nat) (x : Nat) :
    ∀ i, lowerBoundSearch l x = .ok i → l[i]? = some x := by
  induction l with
  | nil => intro i h; cases h
  | cons y l ih =>
    intro i h
    simp only [lowerBoundSearch] at h
    split_ifs at h with hlt heq
    · split at h <;> cases h
      simpa using ih _ ‹_›
    · cases h
      simp [heq]

theorem lowerBoundSearch_error (l : List Nat) (x : Nat) (hs : l.Sorted (· ≤ ·)) :
    ∀ i, lowerBoundSearch l x = .error i →
      x ∉ l ∧ i ≤ l.length ∧ (l.insertIdx i x).Sorted (· ≤ ·) := by
  induction l with
  | nil => intro i h; cases h; simp
  | cons y l ih =>
    intro i h
    have hy := List.rel_of_sorted_cons hs
    simp only [lowerBoundSearch] at h
    split_ifs at h with hlt heq
    · split at h <;> cases h
      obtain ⟨hx, hi, hsorted⟩ := ih hs.of_cons _ ‹_›
      refine ⟨by simp [hx, Nat.ne_of_gt hlt], by simp [hi], ?_⟩
      rw [List.insertIdx_succ_cons]
      refine List.sorted_cons.2 ⟨fun b hb => ?_, hsorted⟩
      rcases List.mem_insertIdx hi |>.1 hb with rfl | hb
      · exact hlt.le
      · exact hy b hb
    · cases h
      have hxy : x < y := by omega
      refine ⟨fun hx => ?_, by simp, ?_⟩
      · rcases List.mem_cons.1 hx with rfl | hx
        · omega
        · exact absurd (hy x hx) (by omega)
      · rw [List.insertIdx_zero]
        exact List.sorted_cons.2 ⟨fun b hb => (List.mem_cons.1 hb).elim (· ▸ hxy.le)
          fun hb => hxy.le.trans (hy b hb), hs⟩

/-- The linear lower-bound search as a `BinarySearch`. -/
def BinarySearch.lowerBound : BinarySearch where
  search := lowerBoundSearch
  ok_spec l x i _ := lowerBoundSearch_ok l x i
  error_spec l x i hs := lowerBoundSearch_error l x hs i

end Cuprate
