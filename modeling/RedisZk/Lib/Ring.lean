/-
# The end of a stream in a ring

A block of memory of which the end of a stream is written round and round: the
last element is right before an index, and those before it go back from there,
past the start of the block to its end. A piece that is written at the index, and
moves it, makes the ring hold the end of the longer stream; what is read from the
place of an element on, round the end, is the rest of the stream.

Key definitions: `back`, `Holds`.
Key theorems: `Holds.write`, `Holds.read`.
-/
import RedisZk.Lib.Memory

namespace Ring

open Memory (put)

variable {α : Type*} {ring ring' stream p : List α} {idx m : ℕ}

/-- The place of the element `k` before the last, in a ring of size `n`. -/
def back (n idx k : ℕ) : ℕ := if k < idx then idx - 1 - k else idx + n - 1 - k

/-- The last `m` elements of a stream are in the ring, as far as they fit. -/
def Holds (ring : List α) (idx m : ℕ) (stream : List α) : Prop :=
  ∀ k < m, k < ring.length → ring[back ring.length idx k]? = stream[stream.length - 1 - k]?

theorem Holds.zero : Holds ring idx 0 stream := fun _ hk => absurd hk (Nat.not_lt_zero _)

theorem Holds.mono {m' : ℕ} (h : Holds ring idx m stream) (hm : m' ≤ m) : Holds ring idx m' stream :=
  fun k hk hlt => h k (by omega) hlt

theorem getElem?_put {q : ℕ} (h : put ring q p = some ring') (i : ℕ) :
    ring'[i]? = if q ≤ i ∧ i < q + p.length then p[i - q]? else ring[i]? := by
  unfold put at h
  split at h
  · rename_i hle
    rw [← Option.some.inj h]
    have htake : (ring.take q).length = q := by rw [List.length_take]; omega
    by_cases hlow : i < q
    · rw [List.getElem?_append_left (by omega), List.getElem?_take_of_lt hlow, if_neg (by omega)]
    · rw [List.getElem?_append_right (by omega), htake]
      by_cases hin : i - q < p.length
      · rw [List.getElem?_append_left hin, if_pos (by omega)]
      · rw [List.getElem?_append_right (by omega), List.getElem?_drop, if_neg (by omega)]
        congr 1
        omega
  · cases h

/-- The index behind a piece. -/
def advance (n idx t : ℕ) : ℕ := if idx + t = n then 0 else idx + t

/-- A piece up to the end of the block. -/
theorem Holds.write (h : Holds ring idx m stream) (hm : m ≤ stream.length)
    (hfit : idx + p.length ≤ ring.length) (hput : put ring idx p = some ring') :
    Holds ring' (advance ring.length idx p.length) (m + p.length) (stream ++ p) := by
  obtain ⟨r, hr, hlen⟩ := Memory.put_of_le hfit
  obtain rfl : r = ring' := Option.some.inj (hr.symm.trans hput)
  intro k hk hlt
  rw [hlen] at hlt ⊢
  rw [getElem?_put hput, List.length_append]
  by_cases hkp : k < p.length
  · -- an element of the piece
    have hplace : back ring.length (advance ring.length idx p.length) k = idx + p.length - 1 - k := by
      unfold back advance
      split
      · rw [if_neg (by omega)]
        omega
      · rw [if_pos (by omega)]
    rw [hplace, if_pos (by omega), List.getElem?_append_right (by omega)]
    congr 1
    omega
  · -- an element from before, which the piece is not written over
    have hplace : back ring.length (advance ring.length idx p.length) k = back ring.length idx (k - p.length) := by
      unfold back advance
      split <;> split <;> split <;> omega
    have hout : ¬ (idx ≤ back ring.length idx (k - p.length) ∧ back ring.length idx (k - p.length) < idx + p.length) := by
      unfold back
      split <;> omega
    rw [hplace, if_neg hout, h (k - p.length) (by omega) (by omega), List.getElem?_append_left (by omega)]
    congr 1
    omega

/-- What is read round the end: the rest of the block, or as much as is wanted, and the beginning. -/
def round (ring : List α) (j len : ℕ) : List α :=
  if len ≤ ring.length - j then (ring.drop j).take len else ring.drop j ++ ring.take (len - (ring.length - j))

theorem length_round {j len : ℕ} (hlen : len ≤ ring.length) : (round ring j len).length = len := by
  unfold round
  split
  · rw [List.length_take, List.length_drop]
    omega
  · rw [List.length_append, List.length_drop, List.length_take]
    omega

theorem getElem?_round {j len i : ℕ} (hi : i < len) :
    (round ring j len)[i]? = if i < ring.length - j then ring[j + i]? else ring[i - (ring.length - j)]? := by
  unfold round
  split
  · rw [List.getElem?_take_of_lt hi, List.getElem?_drop, if_pos (by omega)]
  · by_cases hfirst : i < ring.length - j
    · rw [List.getElem?_append_left (by rw [List.length_drop]; exact hfirst), List.getElem?_drop, if_pos hfirst]
    · rw [List.getElem?_append_right (by rw [List.length_drop]; omega), List.length_drop, if_neg hfirst,
        List.getElem?_take_of_lt (by omega)]

/-- The place of the element that is `i` behind the oldest of `m`. -/
def place (n idx m i : ℕ) : ℕ := (idx + (n - m) + i) % n

theorem place_eq {n i : ℕ} (hidx : idx < n) (hm : m ≤ n) (hi : i < m) : place n idx m i = back n idx (m - 1 - i) := by
  have hmod : (idx + (n - m) + i) % n = if idx + (n - m) + i < n then idx + (n - m) + i else idx + (n - m) + i - n := by
    split
    · rename_i hlt
      exact Nat.mod_eq_of_lt hlt
    · rw [Nat.mod_eq_sub_mod (by omega), Nat.mod_eq_of_lt (by omega)]
  unfold place back
  rw [hmod]
  split <;> split <;> omega

/-- From the place of an element on, the ring has the rest of the stream. -/
theorem Holds.read (h : Holds ring idx m stream) (hidx : idx < ring.length) (hm : m ≤ stream.length) (hfit : m ≤ ring.length)
    {skip : ℕ} (hskip : skip < m) :
    round ring (place ring.length idx m skip) (m - skip) = stream.drop (stream.length - m + skip) := by
  have hplace := place_eq hidx hfit hskip
  have hj : place ring.length idx m skip < ring.length := Nat.mod_lt _ (by omega)
  refine List.ext_getElem? fun i => ?_
  by_cases hi : i < m - skip
  · have hat : (if i < ring.length - place ring.length idx m skip then ring[place ring.length idx m skip + i]?
        else ring[i - (ring.length - place ring.length idx m skip)]?) = ring[back ring.length idx (m - 1 - skip - i)]? := by
      rw [hplace] at hj ⊢
      unfold back at hj ⊢
      by_cases hlow : m - 1 - skip < idx
      · rw [if_pos hlow, if_pos (by omega), if_pos (by omega)]
        congr 1
        omega
      · rw [if_neg hlow]
        by_cases hlow' : m - 1 - skip - i < idx
        · rw [if_pos hlow', if_neg (by omega)]
          congr 1
          omega
        · rw [if_neg hlow', if_pos (by omega)]
          congr 1
          omega
    rw [getElem?_round hi, hat, h _ (by omega) (by omega), List.getElem?_drop]
    congr 1
    omega
  · rw [List.getElem?_eq_none (by rw [length_round (by omega)]; omega),
      List.getElem?_eq_none (by rw [List.length_drop]; omega)]

end Ring
