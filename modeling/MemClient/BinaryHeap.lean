import Mathlib.Data.List.Perm.Basic
import Mathlib.Tactic

/-!
# Heaps in arrays

`std::push_heap` and `std::pop_heap` over a comparator `lt`: the list is a heap
when no element is less than one of its children, so its front is a largest
element.  Section 2 states the contract of the two algorithms as a structure, so
that a program is verified against every implementation that meets it; what the
standard leaves open (which of two equal elements comes first) stays open.
Section 4 gives one implementation, by sifting, and proves that it does.
-/

namespace BinaryHeap

variable {α : Type*}

/-! ## 1. Order -/

def parent (c : Nat) : Nat := (c - 1) / 2

theorem parent_lt {c : Nat} (h : 0 < c) : parent c < c := by
  unfold parent
  omega

/-- `lt` is a strict weak order on the elements of `xs`. -/
structure StrictWeakOn (lt : α → α → Bool) (xs : List α) : Prop where
  irrefl : ∀ x ∈ xs, lt x x = false
  trans : ∀ x ∈ xs, ∀ y ∈ xs, ∀ z ∈ xs, lt x y → lt y z → lt x z
  cotrans : ∀ x ∈ xs, ∀ y ∈ xs, ∀ z ∈ xs, lt x z → lt x y ∨ lt y z

/-- The element at `p` is not less than the one at `c`, if both exist. -/
def Edge (lt : α → α → Bool) (xs : List α) (p c : Nat) : Prop :=
  ∀ a b, xs[p]? = some a → xs[c]? = some b → lt a b = false

def IsHeap (lt : α → α → Bool) (xs : List α) : Prop :=
  ∀ c, 0 < c → Edge lt xs (parent c) c

variable {lt : α → α → Bool} {xs ys : List α}

namespace StrictWeakOn

theorem mono (h : StrictWeakOn lt xs) (hsub : ys ⊆ xs) : StrictWeakOn lt ys where
  irrefl := fun x hx => h.irrefl x (hsub hx)
  trans := fun x hx y hy z hz => h.trans x (hsub hx) y (hsub hy) z (hsub hz)
  cotrans := fun x hx y hy z hz => h.cotrans x (hsub hx) y (hsub hy) z (hsub hz)

theorem perm (h : StrictWeakOn lt xs) (hperm : ys.Perm xs) : StrictWeakOn lt ys :=
  h.mono hperm.subset

variable {x y z : α}

theorem asymm (h : StrictWeakOn lt xs) (hx : x ∈ xs) (hy : y ∈ xs) (hlt : lt x y) :
    lt y x = false := by
  by_contra hyx
  have hloop : lt x x := h.trans x hx y hy x hx hlt (by simpa using hyx)
  rw [h.irrefl x hx] at hloop
  cases hloop

theorem not_lt_trans (h : StrictWeakOn lt xs) (hx : x ∈ xs) (hy : y ∈ xs) (hz : z ∈ xs)
    (hxy : lt x y = false) (hyz : lt y z = false) : lt x z = false := by
  by_contra hxz
  rcases h.cotrans x hx y hy z hz (by simpa using hxz) with hlt | hlt
  · rw [hxy] at hlt
    cases hlt
  · rw [hyz] at hlt
    cases hlt

end StrictWeakOn

/-- The front of a heap is a largest element. -/
theorem IsHeap.front_max (hheap : IsHeap lt xs) (hswo : StrictWeakOn lt xs) {m : α}
    (hm : xs.head? = some m) : ∀ x ∈ xs, lt m x = false := by
  have hfront : xs[0]? = some m := by rw [← List.head?_eq_getElem?, hm]
  have hmem : m ∈ xs := List.mem_of_getElem? hfront
  have hindex : ∀ (i : Nat) (x : α), xs[i]? = some x → lt m x = false := by
    intro i
    induction i using Nat.strongRecOn with
    | ind i ih =>
        intro x hx
        rcases Nat.eq_zero_or_pos i with rfl | hpos
        · rw [hfront, Option.some.injEq] at hx
          subst hx
          exact hswo.irrefl m hmem
        · have hlen : parent i < xs.length :=
            (parent_lt hpos).trans (List.getElem?_eq_some_iff.mp hx).1
          have hp : xs[parent i]? = some xs[parent i] := List.getElem?_eq_getElem hlen
          exact hswo.not_lt_trans hmem (List.mem_of_getElem? hp) (List.mem_of_getElem? hx)
            (ih _ (parent_lt hpos) _ hp) (hheap i hpos _ _ hp hx)
  intro x hx
  obtain ⟨i, hi⟩ := List.mem_iff_getElem?.mp hx
  exact hindex i x hi

/-- An element greater than all others is at the front of every heap of them. -/
theorem IsHeap.eq_cons (hheap : IsHeap lt ys) (hswo : StrictWeakOn lt ys) {x : α}
    (hperm : ys.Perm (x :: xs)) (hmax : ∀ y ∈ xs, lt y x) : ∃ zs, ys = x :: zs ∧ zs.Perm xs := by
  cases ys with
  | nil => exact absurd hperm.length_eq (by simp)
  | cons m zs =>
      have hfront := hheap.front_max hswo rfl x (hperm.mem_iff.mpr (by simp))
      rcases List.mem_cons.mp (hperm.mem_iff.mp (List.mem_cons_self (a := m))) with rfl | hmem
      · exact ⟨zs, rfl, hperm.cons_inv⟩
      · rw [hmax m hmem] at hfront
        cases hfront

/-! ## 2. The contract -/

/-- Two in-place algorithms: whatever they do, they only move elements. -/
structure HeapAlgorithms (α : Type*) where
  push_heap : (α → α → Bool) → List α → List α
  pop_heap : (α → α → Bool) → List α → List α
  push_perm : ∀ lt xs, (push_heap lt xs).Perm xs
  pop_perm : ∀ lt xs, (pop_heap lt xs).Perm xs

/-- The contract of the standard: `push_heap` adds the last element to the heap
    before it, `pop_heap` moves the front to the end and leaves a heap before it. -/
structure StdHeap (α : Type*) extends HeapAlgorithms α where
  push_isHeap : ∀ lt xs, StrictWeakOn lt xs → IsHeap lt xs.dropLast → IsHeap lt (push_heap lt xs)
  pop_isHeap : ∀ lt xs, StrictWeakOn lt xs → IsHeap lt xs → IsHeap lt (pop_heap lt xs).dropLast
  pop_last : ∀ lt xs, StrictWeakOn lt xs → IsHeap lt xs → (pop_heap lt xs).getLast? = xs.head?

/-- Popping the front and pushing it again gives a heap of the same elements. -/
theorem StdHeap.reheap (heap : StdHeap α) (hswo : StrictWeakOn lt xs) (hheap : IsHeap lt xs) :
    IsHeap lt (heap.push_heap lt (heap.pop_heap lt xs)) :=
  heap.push_isHeap lt _ (hswo.perm (heap.pop_perm lt xs)) (heap.pop_isHeap lt xs hswo hheap)

/-! ## 3. Sifting up -/

theorem getElem?_swap (xs : List α) {i j : Nat} (hi : i < xs.length) (hj : j < xs.length)
    (k : Nat) :
    (xs.swap i j)[k]? = if k = i then xs[j]? else if k = j then xs[i]? else xs[k]? := by
  rw [List.swap_eq_of_lt hi hj, List.getElem?_set, List.getElem?_set]
  by_cases hki : k = i
  · subst hki
    by_cases hkj : j = k
    · subst hkj
      simp [hi]
    · simp [hkj, hi, hj]
  · by_cases hkj : k = j
    · subst hkj
      simp [hki, hi, hj]
    · simp [hki, Ne.symm hki, hkj, Ne.symm hkj]

/-- The order before a sift up from `hole`: only the edge into the hole may be wrong. -/
structure UpReady (lt : α → α → Bool) (xs : List α) (hole : Nat) : Prop where
  except : ∀ c, 0 < c → c ≠ hole → Edge lt xs (parent c) c
  grand : 0 < hole → ∀ c, 0 < c → parent c = hole → Edge lt xs (parent hole) c

def siftUp (lt : α → α → Bool) : Nat → List α → Nat → List α
  | 0, xs, _ => xs
  | fuel + 1, xs, i =>
      if i = 0 then xs
      else
        match xs[parent i]?, xs[i]? with
        | some p, some x =>
            if lt p x then siftUp lt fuel (xs.swap (parent i) i) (parent i) else xs
        | _, _ => xs

theorem UpReady.move {i : Nat} (h : UpReady lt xs i) (hswo : StrictWeakOn lt xs) {p x : α}
    (hi : 0 < i) (hp : xs[parent i]? = some p) (hx : xs[i]? = some x) (hlt : lt p x) :
    UpReady lt (xs.swap (parent i) i) (parent i) := by
  have hlti : parent i < i := parent_lt hi
  have hlen : i < xs.length := (List.getElem?_eq_some_iff.mp hx).1
  have hswap := getElem?_swap xs (hlti.trans hlen) hlen
  have hpmem : p ∈ xs := List.mem_of_getElem? hp
  have hxmem : x ∈ xs := List.mem_of_getElem? hx
  constructor
  · intro c hc hne a b ha hb
    rw [hswap] at ha hb
    rw [if_neg hne] at hb
    by_cases hci : c = i
    · -- the edge into the old hole now has the two elements in order
      subst hci
      rw [if_pos rfl, hx] at ha
      rw [if_pos rfl, hp] at hb
      cases ha
      cases hb
      exact hswo.asymm hpmem hxmem hlt
    · rw [if_neg hci] at hb
      by_cases hpar : parent c = parent i
      · rw [if_pos hpar, hx] at ha
        cases ha
        have hpb : lt p b = false := h.except c hc hci p b (hpar ▸ hp) hb
        by_contra hxb
        rw [hswo.trans p hpmem x hxmem b (List.mem_of_getElem? hb) hlt (by simpa using hxb)] at hpb
        cases hpb
      · rw [if_neg hpar] at ha
        by_cases hpi : parent c = i
        · rw [if_pos hpi, hp] at ha
          cases ha
          exact h.grand hi c hc hpi p b hp hb
        · rw [if_neg hpi] at ha
          exact h.except c hc hci a b ha hb
  · intro hpos c hc hpar a b ha hb
    have hgp : parent (parent i) < parent i := parent_lt hpos
    rw [hswap, if_neg (by omega), if_neg (by omega)] at ha
    have hap : lt a p = false := h.except (parent i) hpos (by omega) a p ha hp
    have hcp : c ≠ parent i := by
      intro heq
      rw [heq] at hpar
      omega
    rw [hswap, if_neg hcp] at hb
    by_cases hci : c = i
    · rw [if_pos hci, hp] at hb
      cases hb
      exact hap
    · rw [if_neg hci] at hb
      exact hswo.not_lt_trans (List.mem_of_getElem? ha) hpmem (List.mem_of_getElem? hb) hap
        (h.except c hc hci p b (hpar ▸ hp) hb)

theorem UpReady.finish {i : Nat} (h : UpReady lt xs i) (hedge : 0 < i → Edge lt xs (parent i) i) :
    IsHeap lt xs := by
  intro c hc
  by_cases hci : c = i
  · subst hci
    exact hedge hc
  · exact h.except c hc hci

theorem siftUp_perm (lt : α → α → Bool) (fuel : Nat) (xs : List α) (i : Nat) :
    (siftUp lt fuel xs i).Perm xs := by
  induction fuel generalizing xs i with
  | zero => exact .refl _
  | succ fuel ih =>
      unfold siftUp
      split
      · exact .refl _
      · split
        · split
          · exact (ih _ _).trans (List.swap_perm _ _ _)
          · exact .refl _
        · exact .refl _

theorem isHeap_siftUp (hswo : StrictWeakOn lt xs) {fuel i : Nat} (hfuel : i < fuel)
    (h : UpReady lt xs i) : IsHeap lt (siftUp lt fuel xs i) := by
  induction fuel generalizing xs i with
  | zero => omega
  | succ fuel ih =>
      unfold siftUp
      split
      · next hzero => exact h.finish (by omega)
      · next hne =>
          have hpos : 0 < i := Nat.pos_of_ne_zero hne
          split
          · next p x hp hx =>
              split
              · next hlt =>
                  have hless := parent_lt hpos
                  exact ih (hswo.perm (List.swap_perm _ _ _)) (by omega)
                    (h.move hswo hpos hp hx hlt)
              · next hnot =>
                  refine h.finish fun _ a b ha hb => ?_
                  rw [hp] at ha
                  rw [hx] at hb
                  cases ha
                  cases hb
                  simpa using hnot
          · next hnone =>
              exact h.finish fun _ a b ha hb => absurd hb (hnone a b ha)

/-! ## 4. Sifting down -/

/-- The order before a sift down from `hole`: only the edges out of it may be wrong. -/
structure DownReady (lt : α → α → Bool) (xs : List α) (hole : Nat) : Prop where
  except : ∀ c, 0 < c → parent c ≠ hole → Edge lt xs (parent c) c
  grand : 0 < hole → ∀ c, 0 < c → parent c = hole → Edge lt xs (parent hole) c

/-- The child of `i` that is not less than the other one. -/
def largerChild (lt : α → α → Bool) (xs : List α) (i : Nat) : Option Nat :=
  match xs[2 * i + 1]?, xs[2 * i + 2]? with
  | some l, some r => some (if lt l r then 2 * i + 2 else 2 * i + 1)
  | some _, none => some (2 * i + 1)
  | none, _ => none

def siftDown (lt : α → α → Bool) : Nat → List α → Nat → List α
  | 0, xs, _ => xs
  | fuel + 1, xs, i =>
      match largerChild lt xs i with
      | none => xs
      | some c =>
          match xs[i]?, xs[c]? with
          | some x, some y => if lt x y then siftDown lt fuel (xs.swap i c) c else xs
          | _, _ => xs

theorem child_cases {c i : Nat} (hc : 0 < c) (hpar : parent c = i) :
    c = 2 * i + 1 ∨ c = 2 * i + 2 := by
  unfold parent at hpar
  omega

theorem getElem?_right_eq_none {i : Nat} (h : xs[2 * i + 1]? = none) : xs[2 * i + 2]? = none := by
  rw [List.getElem?_eq_none_iff] at h ⊢
  omega

theorem edge_of_largerChild_eq_none {i : Nat} (h : largerChild lt xs i = none) {c : Nat}
    (hc : 0 < c) (hpar : parent c = i) (a : α) : xs[c]? ≠ some a := by
  have hleft : xs[2 * i + 1]? = none := by
    unfold largerChild at h
    split at h
    · cases h
    · cases h
    · next hleft => exact hleft
  rcases child_cases hc hpar with rfl | rfl
  · simp [hleft]
  · simp [getElem?_right_eq_none hleft]

theorem largerChild_spec (hswo : StrictWeakOn lt xs) {i k : Nat}
    (h : largerChild lt xs i = some k) :
    0 < k ∧ parent k = i ∧ ∃ y, xs[k]? = some y ∧
      ∀ c b, 0 < c → parent c = i → xs[c]? = some b → lt y b = false := by
  unfold largerChild at h
  split at h
  · next l r hl hr =>
      have hlmem : l ∈ xs := List.mem_of_getElem? hl
      have hrmem : r ∈ xs := List.mem_of_getElem? hr
      by_cases hlt : lt l r
      · rw [if_pos hlt, Option.some.injEq] at h
        subst h
        refine ⟨by omega, by unfold parent; omega, r, hr, ?_⟩
        intro c b hc hpar hb
        rcases child_cases hc hpar with rfl | rfl
        · rw [hl] at hb
          cases hb
          exact hswo.asymm hlmem hrmem hlt
        · rw [hr] at hb
          cases hb
          exact hswo.irrefl r hrmem
      · rw [if_neg hlt, Option.some.injEq] at h
        subst h
        refine ⟨by omega, by unfold parent; omega, l, hl, ?_⟩
        intro c b hc hpar hb
        rcases child_cases hc hpar with rfl | rfl
        · rw [hl] at hb
          cases hb
          exact hswo.irrefl l hlmem
        · rw [hr] at hb
          cases hb
          simpa using hlt
  · next l hl hr =>
      cases h
      refine ⟨by omega, by unfold parent; omega, l, hl, ?_⟩
      intro c b hc hpar hb
      rcases child_cases hc hpar with rfl | rfl
      · rw [hl] at hb
        cases hb
        exact hswo.irrefl l (List.mem_of_getElem? hl)
      · rw [hr] at hb
        cases hb
  · cases h

theorem DownReady.move {i k : Nat} (h : DownReady lt xs i) (hswo : StrictWeakOn lt xs) {x y : α}
    (hk : 0 < k) (hpar : parent k = i) (hx : xs[i]? = some x) (hy : xs[k]? = some y)
    (hmax : ∀ c b, 0 < c → parent c = i → xs[c]? = some b → lt y b = false) (hlt : lt x y) :
    DownReady lt (xs.swap i k) k := by
  have hik : i < k := hpar ▸ parent_lt hk
  have hlen : k < xs.length := (List.getElem?_eq_some_iff.mp hy).1
  have hswap := getElem?_swap xs (hik.trans hlen) hlen
  have hxmem : x ∈ xs := List.mem_of_getElem? hx
  have hymem : y ∈ xs := List.mem_of_getElem? hy
  constructor
  · intro c hc hne a b ha hb
    rw [hswap] at ha hb
    rw [if_neg hne] at ha
    by_cases hpc : parent c = i
    · rw [if_pos hpc, hy] at ha
      cases ha
      have hci : c ≠ i := by
        intro heq
        have := parent_lt hc
        omega
      rw [if_neg hci] at hb
      by_cases hck : c = k
      · rw [if_pos hck, hx] at hb
        cases hb
        exact hswo.asymm hxmem hymem hlt
      · rw [if_neg hck] at hb
        exact hmax c b hc hpc hb
    · rw [if_neg hpc] at ha
      have hck : c ≠ k := fun heq => hpc (heq ▸ hpar)
      by_cases hci : c = i
      · -- the element that moved up was already below the parent of the hole
        rw [if_pos hci, hy] at hb
        cases hb
        exact h.grand (hci ▸ hc) k hk hpar a y (hci ▸ ha) hy
      · rw [if_neg hci, if_neg hck] at hb
        exact h.except c hc hpc a b ha hb
  · intro _ c hc hpc a b ha hb
    have hkc : k < c := hpc ▸ parent_lt hc
    rw [hpar, hswap, if_pos rfl, hy] at ha
    cases ha
    rw [hswap, if_neg (by omega), if_neg (by omega)] at hb
    exact h.except c hc (by omega) y b (hpc ▸ hy) hb

theorem DownReady.finish {i : Nat} (h : DownReady lt xs i)
    (hedge : ∀ c, 0 < c → parent c = i → Edge lt xs i c) : IsHeap lt xs := by
  intro c hc
  by_cases hpar : parent c = i
  · rw [hpar]
    exact hedge c hc hpar
  · exact h.except c hc hpar

theorem siftDown_perm (lt : α → α → Bool) (fuel : Nat) (xs : List α) (i : Nat) :
    (siftDown lt fuel xs i).Perm xs := by
  induction fuel generalizing xs i with
  | zero => exact .refl _
  | succ fuel ih =>
      unfold siftDown
      split
      · exact .refl _
      · split
        · split
          · exact (ih _ _).trans (List.swap_perm _ _ _)
          · exact .refl _
        · exact .refl _

theorem isHeap_siftDown (hswo : StrictWeakOn lt xs) {fuel i : Nat} (hfuel : xs.length ≤ fuel + i)
    (h : DownReady lt xs i) : IsHeap lt (siftDown lt fuel xs i) := by
  induction fuel generalizing xs i with
  | zero =>
      -- the hole is past the end, so it has no children
      refine h.finish fun c hc hpar a b _ hb => ?_
      have hlt : i < c := hpar ▸ parent_lt hc
      have hlen := (List.getElem?_eq_some_iff.mp hb).1
      omega
  | succ fuel ih =>
      unfold siftDown
      split
      · next hnone =>
          exact h.finish fun c hc hpar a b _ hb =>
            absurd hb (edge_of_largerChild_eq_none hnone hc hpar b)
      · next k hsome =>
          obtain ⟨hk, hpar, y, hy, hmax⟩ := largerChild_spec hswo hsome
          have hik : i < k := hpar ▸ parent_lt hk
          split
          · next x y' hx hy' =>
              rw [hy, Option.some.injEq] at hy'
              subst hy'
              split
              · next hlt =>
                  refine ih (hswo.perm (List.swap_perm _ _ _)) ?_
                    (h.move hswo hk hpar hx hy hmax hlt)
                  rw [List.length_swap]
                  omega
              · next hnot =>
                  refine h.finish fun c hc hpc a b ha hb => ?_
                  rw [hx] at ha
                  cases ha
                  exact hswo.not_lt_trans (List.mem_of_getElem? hx) (List.mem_of_getElem? hy)
                    (List.mem_of_getElem? hb) (by simpa using hnot) (hmax c b hc hpc hb)
          · next hnone =>
              exact h.finish fun c hc hpc a b ha _ => absurd hy (hnone a y ha)

/-! ## 5. An implementation -/

def siftPush (lt : α → α → Bool) (xs : List α) : List α := siftUp lt xs.length xs (xs.length - 1)

/-- The last element in front of the others. -/
def lastFirst (xs : List α) : List α :=
  match xs.getLast? with
  | some x => x :: xs.dropLast
  | none => []

def siftPop (lt : α → α → Bool) : List α → List α
  | [] => []
  | x :: xs => siftDown lt xs.length (lastFirst xs) 0 ++ [x]

theorem lastFirst_perm (xs : List α) : (lastFirst xs).Perm xs := by
  unfold lastFirst
  split
  · next x hlast =>
      have hsplit : xs.dropLast ++ [x] = xs := List.dropLast_append_getLast? x hlast
      exact (List.perm_append_singleton x xs.dropLast).symm.trans (.of_eq hsplit)
  · next hnone =>
      rw [List.getLast?_eq_none_iff.mp hnone]

theorem siftPop_perm (lt : α → α → Bool) (xs : List α) : (siftPop lt xs).Perm xs := by
  cases xs with
  | nil => exact .refl _
  | cons x xs =>
      have hinner : (siftDown lt xs.length (lastFirst xs) 0).Perm xs :=
        (siftDown_perm lt _ _ _).trans (lastFirst_perm xs)
      exact (List.perm_append_singleton x _).trans (hinner.cons x)

theorem upReady_last (hheap : IsHeap lt xs.dropLast) : UpReady lt xs (xs.length - 1) := by
  have hsame : ∀ i, i < xs.length - 1 → xs.dropLast[i]? = xs[i]? := by
    intro i hi
    rw [List.getElem?_dropLast, if_pos hi]
  constructor
  · intro c hc hne a b ha hb
    have hlen := (List.getElem?_eq_some_iff.mp hb).1
    have hpar := parent_lt hc
    exact hheap c hc a b (by rw [hsame _ (by omega)]; exact ha)
      (by rw [hsame _ (by omega)]; exact hb)
  · intro hpos c hc hpar a b ha hb
    have hlen := (List.getElem?_eq_some_iff.mp hb).1
    have hlt := parent_lt hc
    omega

theorem downReady_lastFirst {x : α} (hheap : IsHeap lt (x :: xs)) :
    DownReady lt (lastFirst xs) 0 := by
  constructor
  · intro c hc hne a b ha hb
    have hlen := (List.getElem?_eq_some_iff.mp hb).1
    rw [(lastFirst_perm xs).length_eq] at hlen
    -- away from the front, the list is a prefix of the old one
    have hsame : ∀ i, 0 < i → i < xs.length → (lastFirst xs)[i]? = (x :: xs)[i]? := by
      intro i hi hlt
      obtain ⟨j, rfl⟩ : ∃ j, i = j + 1 := ⟨i - 1, by omega⟩
      unfold lastFirst
      split
      · rw [List.getElem?_cons_succ, List.getElem?_cons_succ, List.getElem?_dropLast,
          if_pos (by omega)]
      · next hnone =>
          rw [List.getLast?_eq_none_iff.mp hnone] at hlt
          cases hlt
    have hpar := parent_lt hc
    rw [hsame _ hc hlen] at hb
    rw [hsame _ (Nat.pos_of_ne_zero hne) (by omega)] at ha
    exact hheap c hc a b ha hb
  · intro hpos
    omega

def siftHeap (α : Type*) : StdHeap α where
  push_heap := siftPush
  pop_heap := siftPop
  push_perm := fun lt xs => siftUp_perm lt _ xs _
  pop_perm := siftPop_perm
  push_isHeap := by
    intro lt xs hswo hheap
    cases xs with
    | nil => exact hheap
    | cons x xs => exact isHeap_siftUp hswo (by simp) (upReady_last hheap)
  pop_isHeap := by
    intro lt xs hswo hheap
    cases xs with
    | nil => exact hheap
    | cons x xs =>
        have hrest : StrictWeakOn lt (lastFirst xs) :=
          (hswo.mono (List.subset_cons_self x xs)).perm (lastFirst_perm xs)
        unfold siftPop
        rw [List.dropLast_concat]
        refine isHeap_siftDown hrest ?_ (downReady_lastFirst hheap)
        rw [(lastFirst_perm xs).length_eq]
        omega
  pop_last := by
    intro lt xs hswo hheap
    cases xs with
    | nil => rfl
    | cons x xs => simp [siftPop]

end BinaryHeap
