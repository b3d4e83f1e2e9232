import Mathlib.Data.List.Basic
import Mathlib.Data.Set.Basic

/-!
# Circular Buffers

A circular buffer of capacity `C` keeps position `k` of an unbounded stream in cell
`k % C`.  This module relates the wrapped indices to the positions they stand for:

- the forward distance between two wrapped indices recovers the distance between the
  positions, in the two conventions in use (equal indices mean "empty", or "full");
- `overwriteWrap` and `readWrap` are a write and a read that may cross the end of the
  buffer, done as the usual two contiguous copies;
- `Stores buf C S K` says that the cells of the positions in `K` hold the stream `S`.
-/

namespace CircularBuffer

variable {α : Type*}

/-! ## Wrapped indices -/

/-- A position less than one lap after `a` wraps at most once. -/
theorem add_mod_of_lt {C a q : ℕ} (hq : q < C) :
    (a + q) % C = if a % C + q < C then a % C + q else a % C + q - C := by
  have hC : 0 < C := by omega
  have ha : a % C < C := Nat.mod_lt a hC
  rw [← Nat.mod_add_mod]
  split
  · rename_i h
    exact Nat.mod_eq_of_lt h
  · rename_i h
    rw [Nat.mod_eq_sub_mod (by omega)]
    exact Nat.mod_eq_of_lt (by omega)

/-- The cell of a position less than one lap past `a`, from the cell of `a`. -/
theorem mod_eq_of_lap {C a s : ℕ} (hlo : a ≤ s) (hhi : s < a + C) :
    s % C = if a % C + (s - a) < C then a % C + (s - a) else a % C + (s - a) - C := by
  have h := add_mod_of_lt (C := C) (a := a) (q := s - a) (by omega)
  rwa [show a + (s - a) = s by omega] at h

/-- Forward distance between wrapped indices, when equal indices mean distance `0`. -/
theorem forward_distance {C a s : ℕ} (hlo : a ≤ s) (hhi : s < a + C) :
    (if a % C ≤ s % C then s % C - a % C else C - a % C + s % C) = s - a := by
  have hC : 0 < C := by omega
  have ha : a % C < C := Nat.mod_lt a hC
  have hs := mod_eq_of_lap hlo hhi
  split at hs <;> split <;> omega

/-- Forward distance between wrapped indices, when equal indices mean a full lap. -/
theorem forward_distance_pos {C a s : ℕ} (hlo : a < s) (hhi : s ≤ a + C) :
    (if a % C < s % C then s % C - a % C else C - a % C + s % C) = s - a := by
  have hC : 0 < C := by omega
  have ha : a % C < C := Nat.mod_lt a hC
  rcases Nat.lt_or_ge s (a + C) with hlt | hge
  · have hs := mod_eq_of_lap (Nat.le_of_lt hlo) hlt
    split at hs <;> split <;> omega
  · have hs : s % C = a % C := by
      rw [show s = a + C by omega, Nat.add_mod_right]
    split <;> omega

/-! ## Contiguous copies -/

/-- Replace the cells from `i` on by `xs`. -/
def overwrite (buf : List α) (i : ℕ) (xs : List α) : List α :=
  buf.take i ++ xs ++ buf.drop (i + xs.length)

/-- The `len` cells from `i` on. -/
def slice (buf : List α) (i len : ℕ) : List α :=
  (buf.drop i).take len

@[simp] theorem length_overwrite {buf xs : List α} {i : ℕ} (h : i + xs.length ≤ buf.length) :
    (overwrite buf i xs).length = buf.length := by
  simp [overwrite]
  omega

theorem getElem?_overwrite {buf xs : List α} {i : ℕ} (h : i + xs.length ≤ buf.length)
    (j : ℕ) : (overwrite buf i xs)[j]? =
      if i ≤ j ∧ j < i + xs.length then xs[j - i]? else buf[j]? := by
  have htake : (buf.take i).length = i := by simp; omega
  unfold overwrite
  rcases Nat.lt_or_ge j i with hlt | hge
  · rw [if_neg (by omega), List.append_assoc, List.getElem?_append_left (by omega),
      List.getElem?_take_of_lt hlt]
  · rcases Nat.lt_or_ge j (i + xs.length) with hin | hout
    · rw [if_pos ⟨hge, hin⟩, List.append_assoc, List.getElem?_append_right (by omega), htake,
        List.getElem?_append_left (by omega)]
    · rw [if_neg (by omega), List.getElem?_append_right (by simp; omega),
        List.getElem?_drop]
      congr 1
      simp
      omega

@[simp] theorem length_slice {buf : List α} {i len : ℕ} (h : i + len ≤ buf.length) :
    (slice buf i len).length = len := by
  simp [slice]
  omega

theorem getElem?_slice (buf : List α) (i : ℕ) {len j : ℕ} (hj : j < len) :
    (slice buf i len)[j]? = buf[i + j]? := by
  rw [slice, List.getElem?_take_of_lt hj, List.getElem?_drop]

/-- Replacing the cells right behind a part. -/
theorem overwrite_append {xs ys zs : List α} {i : ℕ} (hi : i = xs.length) :
    overwrite (xs ++ ys) i zs = xs ++ zs ++ ys.drop zs.length := by
  rw [overwrite, hi, List.take_left, List.drop_append, List.drop_eq_nil_of_le (by omega),
    List.nil_append, Nat.add_sub_cancel_left]

theorem slice_append (buf : List α) (i k m : ℕ) :
    slice buf i k ++ slice buf (i + k) m = slice buf i (k + m) := by
  rw [slice, slice, slice, List.take_add, List.drop_drop]

/-- The cells just replaced. -/
theorem slice_overwrite {buf xs : List α} {i len : ℕ} (hlen : xs.length = len)
    (h : i + len ≤ buf.length) : slice (overwrite buf i xs) i len = xs := by
  subst hlen
  apply List.ext_getElem?
  intro j
  rcases Nat.lt_or_ge j xs.length with hj | hj
  · rw [getElem?_slice _ _ hj, getElem?_overwrite h, if_pos (by omega),
      Nat.add_sub_cancel_left]
  · rw [List.getElem?_eq_none hj, List.getElem?_eq_none (by simp [slice]; omega)]

/-- The cells before and behind those replaced. -/
theorem slice_overwrite_of_disjoint {buf xs : List α} {i j len : ℕ}
    (h : i + xs.length ≤ buf.length) (hdisj : j + len ≤ i ∨ i + xs.length ≤ j) :
    slice (overwrite buf i xs) j len = slice buf j len := by
  apply List.ext_getElem?
  intro q
  rcases Nat.lt_or_ge q len with hq | hq
  · rw [getElem?_slice _ _ hq, getElem?_slice _ _ hq, getElem?_overwrite h, if_neg (by omega)]
  · rw [List.getElem?_eq_none (by simp [slice]; omega),
      List.getElem?_eq_none (by simp [slice]; omega)]

/-! ## Copies across the end -/

/-- Write `xs` from cell `i` on, continuing at cell `0` past the last cell. -/
def overwriteWrap (buf : List α) (i : ℕ) (xs : List α) : List α :=
  if i + xs.length ≤ buf.length then overwrite buf i xs
  else overwrite (overwrite buf i (xs.take (buf.length - i))) 0 (xs.drop (buf.length - i))

/-- Read `len` cells from `i` on, continuing at cell `0` past the last cell. -/
def readWrap (buf : List α) (i len : ℕ) : List α :=
  if i + len ≤ buf.length then slice buf i len
  else slice buf i (buf.length - i) ++ slice buf 0 (len - (buf.length - i))

@[simp] theorem length_overwriteWrap {buf xs : List α} {i : ℕ} (hi : i ≤ buf.length)
    (hlen : xs.length ≤ buf.length) : (overwriteWrap buf i xs).length = buf.length := by
  unfold overwriteWrap
  split
  · rename_i h
    exact length_overwrite h
  · have hfirst : (overwrite buf i (xs.take (buf.length - i))).length = buf.length :=
      length_overwrite (by simp; omega)
    rw [length_overwrite (by simp [hfirst]; omega), hfirst]

/-- The cells after a wrapping write, by cell index. -/
theorem getElem?_overwriteWrap_cell {buf xs : List α} {i j : ℕ} (hi : i < buf.length)
    (hj : j < buf.length) (hlen : xs.length ≤ buf.length) :
    (overwriteWrap buf i xs)[j]? =
      if i ≤ j ∧ j < i + xs.length then xs[j - i]?
      else if j + buf.length < i + xs.length then xs[j + buf.length - i]?
      else buf[j]? := by
  unfold overwriteWrap
  split
  · rename_i h
    rw [getElem?_overwrite h]
    split
    · rfl
    · rw [if_neg (by omega)]
  · rename_i h
    -- the write wraps: the second part lands on the first cells
    have hfirst : i + (xs.take (buf.length - i)).length ≤ buf.length := by simp; omega
    have hlength := length_overwrite hfirst
    rw [getElem?_overwrite (by rw [hlength]; simp; omega), getElem?_overwrite hfirst]
    simp only [List.length_drop, List.length_take, Nat.zero_le, true_and, Nat.zero_add,
      Nat.sub_zero]
    -- a cell of the second part, one of the first, or one between
    by_cases hback : j < xs.length - (buf.length - i)
    · rw [if_pos hback, if_neg (by omega), if_pos (by omega), List.getElem?_drop]
      congr 1
      omega
    · rw [if_neg hback]
      by_cases hin : i ≤ j
      · rw [if_pos (by omega), if_pos (by omega), List.getElem?_take_of_lt (by omega)]
      · rw [if_neg (by omega), if_neg (by omega), if_neg (by omega)]

/-- The cells after a wrapping write at the cell of position `a`, by position.  The
    positions asked about are those of one lap that starts at or before `a` and ends at
    or after the last position written. -/
theorem getElem?_overwriteWrap {buf xs : List α} {a k : ℕ} (hlen : xs.length ≤ buf.length)
    (hhi : k < a + buf.length) (hlo : a + xs.length ≤ k + buf.length) :
    (overwriteWrap buf (a % buf.length) xs)[k % buf.length]? =
      if a ≤ k ∧ k < a + xs.length then xs[k - a]? else buf[k % buf.length]? := by
  have hC : 0 < buf.length := by omega
  have hi : a % buf.length < buf.length := Nat.mod_lt a hC
  have hj : k % buf.length < buf.length := Nat.mod_lt k hC
  rw [getElem?_overwriteWrap_cell hi hj hlen]
  -- the position `k'` of the same cell in the lap that starts at `a`
  obtain ⟨k', hmod, hk', hcase⟩ : ∃ k', k' % buf.length = k % buf.length ∧
      (a ≤ k' ∧ k' < a + buf.length) ∧ (k' = k ∨ k < a ∧ a + xs.length ≤ k') := by
    rcases Nat.lt_or_ge k a with hlt | hge
    · exact ⟨k + buf.length, Nat.add_mod_right k _, by omega, by omega⟩
    · exact ⟨k, rfl, by omega, Or.inl rfl⟩
  have hcell := mod_eq_of_lap hk'.1 hk'.2
  rw [← hmod]
  split at hcell
  · by_cases hin : k' < a + xs.length
    · rw [if_pos (by omega), if_pos (by omega)]
      congr 1
      omega
    · rw [if_neg (by omega), if_neg (by omega), if_neg (by omega)]
  · by_cases hin : k' < a + xs.length
    · rw [if_neg (by omega), if_pos (by omega), if_pos (by omega)]
      congr 1
      omega
    · rw [if_neg (by omega), if_neg (by omega), if_neg (by omega)]

/-! ## Streams in cells -/

/-- The cells of the positions in `K` hold the elements of the stream `S`. -/
def Stores (buf : List α) (C : ℕ) (S : ℕ → Option α) (K : Set ℕ) : Prop :=
  ∀ k ∈ K, buf[k % C]? = S k

/-- `xs` is the part of the stream `S` that starts at position `a`. -/
def IsSlice (S : ℕ → Option α) (a : ℕ) (xs : List α) : Prop :=
  ∀ j < xs.length, xs[j]? = S (a + j)

theorem Stores.mono {buf : List α} {C : ℕ} {S : ℕ → Option α} {K K' : Set ℕ}
    (h : Stores buf C S K) (hsub : ∀ k ∈ K', k ∈ K) : Stores buf C S K' :=
  fun k hk => h k (hsub k hk)

theorem IsSlice.congr {S S' : ℕ → Option α} {a : ℕ} {xs : List α} (h : IsSlice S a xs)
    (hS : ∀ j < xs.length, S (a + j) = S' (a + j)) : IsSlice S' a xs :=
  fun j hj => (h j hj).trans (hS j hj)

theorem IsSlice.append {S : ℕ → Option α} {a : ℕ} {xs ys : List α} (hx : IsSlice S a xs)
    (hy : IsSlice S (a + xs.length) ys) : IsSlice S a (xs ++ ys) := by
  intro j hj
  rcases Nat.lt_or_ge j xs.length with hlt | hge
  · rw [List.getElem?_append_left hlt]
    exact hx j hlt
  · rw [List.getElem?_append_right hge, hy (j - xs.length) (by simp at hj; omega)]
    congr 1
    omega

/-- Writing a slice of the stream keeps what the other cells hold and adds the
    positions written. -/
theorem Stores.overwriteWrap {buf xs : List α} {S : ℕ → Option α} {K : Set ℕ} {a : ℕ}
    (h : Stores buf buf.length S K) (hlen : xs.length ≤ buf.length) (hxs : IsSlice S a xs)
    (hK : ∀ k ∈ K, k < a + buf.length ∧ a + xs.length ≤ k + buf.length) :
    Stores (overwriteWrap buf (a % buf.length) xs) buf.length S
      (K ∪ {k | a ≤ k ∧ k < a + xs.length}) := by
  intro k hk
  have hwin : k < a + buf.length ∧ a + xs.length ≤ k + buf.length := by
    rcases hk with hk | hk
    · exact hK k hk
    · have := hk.1
      have := hk.2
      omega
  rw [getElem?_overwriteWrap hlen hwin.1 hwin.2]
  split
  · rename_i hin
    rw [hxs (k - a) (by omega)]
    congr 1
    omega
  · rename_i hout
    rcases hk with hk | hk
    · exact h k hk
    · exact absurd hk hout

/-- The stream `S` with `xs` written over it from position `a` on. -/
def overlay (S : ℕ → Option α) (a : ℕ) (xs : List α) : ℕ → Option α := fun k =>
  if a ≤ k ∧ k < a + xs.length then xs[k - a]? else S k

theorem isSlice_overlay (S : ℕ → Option α) (a : ℕ) (xs : List α) :
    IsSlice (overlay S a xs) a xs := by
  intro j hj
  rw [overlay, if_pos ⟨Nat.le_add_right a j, Nat.add_lt_add_left hj a⟩, Nat.add_sub_cancel_left]

/-- What lies before the part that is written over stays. -/
theorem IsSlice.overlay {S : ℕ → Option α} {a b : ℕ} {xs ys : List α} (h : IsSlice S b ys)
    (hbefore : b + ys.length ≤ a) : IsSlice (overlay S a xs) b ys := by
  refine h.congr fun j hj => ?_
  rw [CircularBuffer.overlay, if_neg (by omega)]

/-- A slice of the stream changes nothing. -/
theorem overlay_of_isSlice {S : ℕ → Option α} {a : ℕ} {xs : List α} (h : IsSlice S a xs) :
    overlay S a xs = S := by
  funext k
  unfold CircularBuffer.overlay
  split
  · rename_i hin
    rw [h (k - a) (by omega), Nat.add_sub_cancel' hin.1]
  · rfl

/-- Whatever the cells held of the part that is written over. -/
theorem Stores.overlay {buf xs : List α} {S : ℕ → Option α} {K : Set ℕ} {a : ℕ}
    (h : Stores buf buf.length S K) (hlen : xs.length ≤ buf.length)
    (hK : ∀ k ∈ K, k < a + buf.length ∧ a + xs.length ≤ k + buf.length) :
    Stores (CircularBuffer.overwriteWrap buf (a % buf.length) xs) buf.length
      (overlay S a xs) (K ∪ {k | a ≤ k ∧ k < a + xs.length}) := by
  have hrest : Stores buf buf.length (CircularBuffer.overlay S a xs)
      (K \ {k | a ≤ k ∧ k < a + xs.length}) := by
    intro k hk
    have hout : ¬ (a ≤ k ∧ k < a + xs.length) := hk.2
    rw [CircularBuffer.overlay, if_neg hout]
    exact h k hk.1
  refine (hrest.overwriteWrap hlen (isSlice_overlay S a xs) fun k hk => hK k hk.1).mono ?_
  rintro k (hold | hnew)
  · by_cases hin : a ≤ k ∧ k < a + xs.length
    · exact Or.inr hin
    · exact Or.inl ⟨hold, hin⟩
  · exact Or.inr hnew

/-- Reading from the cell of position `a` gives the stream from `a` on, when the cells
    read hold it.  The start index may be `C` itself, one past the last cell. -/
theorem Stores.readWrap {buf : List α} {S : ℕ → Option α} {K : Set ℕ} {a i len : ℕ}
    (h : Stores buf buf.length S K) (hi : i ≤ buf.length)
    (hcell : i % buf.length = a % buf.length) (hlen : len ≤ buf.length)
    (hK : ∀ j < len, a + j ∈ K) :
    (readWrap buf i len).length = len ∧ IsSlice S a (readWrap buf i len) := by
  have hread : ∀ j < len, buf[(i + j) % buf.length]? = S (a + j) := by
    intro j hj
    rw [← Nat.mod_add_mod, hcell, Nat.mod_add_mod]
    exact h _ (hK j hj)
  unfold CircularBuffer.readWrap
  split
  · rename_i hfit
    refine ⟨length_slice hfit, fun j hj => ?_⟩
    rw [length_slice hfit] at hj
    rw [getElem?_slice buf i hj, ← hread j hj, Nat.mod_eq_of_lt (by omega)]
  -- the read wraps: the cells up to the last one, then the first ones
  · rename_i hwrap
    have hfirst : (slice buf i (buf.length - i)).length = buf.length - i :=
      length_slice (by omega)
    have hsecond : (slice buf 0 (len - (buf.length - i))).length = len - (buf.length - i) :=
      length_slice (by omega)
    refine ⟨by rw [List.length_append, hfirst, hsecond]; omega, ?_⟩
    refine IsSlice.append (fun j hj => ?_) (fun j hj => ?_)
    · rw [hfirst] at hj
      rw [getElem?_slice buf i hj, ← hread j (by omega), Nat.mod_eq_of_lt (by omega)]
    · rw [hsecond] at hj
      rw [hfirst, getElem?_slice buf 0 hj]
      have := hread (buf.length - i + j) (by omega)
      rw [show i + (buf.length - i + j) = j + buf.length by omega, Nat.add_mod_right,
        Nat.mod_eq_of_lt (by omega)] at this
      rw [Nat.zero_add, this]
      congr 1
      omega

/-! ## Streams that are lists -/

/-- A list as a stream with positions counted from `1`. -/
def fromOne (xs : List α) (k : ℕ) : Option α :=
  if k = 0 then none else xs[k - 1]?

theorem fromOne_succ (xs : List α) (k : ℕ) : fromOne xs (k + 1) = xs[k]? := by
  simp [fromOne]

/-- Positions already written are not changed by appending. -/
theorem fromOne_append_left {xs : List α} (ys : List α) {k : ℕ} (hk : k ≤ xs.length) :
    fromOne (xs ++ ys) k = fromOne xs k := by
  unfold fromOne
  split
  · rfl
  · rw [List.getElem?_append_left (by omega)]

/-- A stretch of a stream stays one when the stream grows. -/
theorem IsSlice.extend {xs ys zs : List α} {k : ℕ} (h : IsSlice (fromOne xs) k zs)
    (hpre : xs <+: ys) (hle : k + zs.length ≤ xs.length + 1) : IsSlice (fromOne ys) k zs := by
  obtain ⟨ws, rfl⟩ := hpre
  refine h.congr fun j hj => ?_
  rw [fromOne_append_left ws (by omega)]

/-- The positions just past the end of a list hold what is appended to it. -/
theorem isSlice_fromOne_append (xs ys : List α) :
    IsSlice (fromOne (xs ++ ys)) (xs.length + 1) ys := by
  intro j _
  rw [show xs.length + 1 + j = (xs.length + j) + 1 by omega, fromOne_succ,
    List.getElem?_append_right (by omega)]
  congr 1
  omega

theorem IsSlice.eq_slice {xs ys : List α} {a : ℕ} (h : IsSlice (fromOne xs) (a + 1) ys)
    (hlen : a + ys.length ≤ xs.length) : ys = slice xs a ys.length := by
  apply List.ext_getElem?
  intro j
  rcases Nat.lt_or_ge j ys.length with hlt | hge
  · rw [getElem?_slice xs a hlt, h j hlt, show a + 1 + j = (a + j) + 1 by omega, fromOne_succ]
  · rw [List.getElem?_eq_none hge, List.getElem?_eq_none (by rw [length_slice hlen]; exact hge)]

/-- A prefix of a list followed by the next slice of it is a longer prefix. -/
theorem take_append_of_isSlice {xs ys : List α} {a : ℕ} (h : IsSlice (fromOne xs) (a + 1) ys)
    (hlen : a + ys.length ≤ xs.length) : xs.take a ++ ys = xs.take (a + ys.length) := by
  rw [h.eq_slice hlen, slice, List.length_take, List.length_drop,
    Nat.min_eq_left (by omega), List.take_add]

end CircularBuffer
