/-
# Listpacks, and the numbers in them

What streams use of listpack.c. A listpack is the list of the strings it holds: a
string that is the text of an `int64_t` is stored as an integer, and `lpGet` with a
buffer gives the text back, which is the same string as `lpStringToInt64` takes no
other spelling of a number. A cursor is an index, NULL is `none`. The bytes count where the
code compares them: `lpBytes`, and the size that `lpInsert` refuses to go beyond.

`lpInsert` returns NULL when the listpack would be longer than `UINT32_MAX`, and none of
its callers in t_stream.c tests that: they read the NULL, and the model fails there (`tooLong`).

Key definitions: `Listpack`, `lpAppend`, `lpReplaceInteger`, `lpGetInteger`, `lpNext`, `lpPrev`, `lpBytes`.
-/
import RedisZk.Lib.Decimal

theorem RedisZk.some_bind.{u} {α β : Type u} (a : α) (f : α → Option β) : (some a >>= f) = f a := rfl

namespace RedisZk.Streams

abbrev Sds := List (Fin 256)

def UINT32_MAX : ℕ := 2 ^ 32 - 1
def UINT64_MAX : ℕ := 2 ^ 64 - 1
def INT64_MAX : ℕ := 2 ^ 63 - 1

/-- The ways a function of listpacks or of streams goes wrong. -/
inductive LpAbort
  /-- A cursor beyond its listpack, which is NULL, is read. -/
  | null
  /-- The listpack of an `lpInsert` that failed, which is NULL, is read. -/
  | tooLong
  /-- `serverAssert` of `lpGetInteger`. -/
  | number
  /-- A loop does not end. -/
  | endless
  /-- `serverAssert(to_delete < entries)` -/
  | toDelete
deriving DecidableEq, Repr

/-! ### Numbers and their text -/

/-- `ll2string`, and `snprintf` with `"%lld"`. -/
def ll2string (v : ℤ) : Sds :=
  if v = 0 then [48]
  else if v < 0 then 45 :: Decimal.text v.natAbs
  else Decimal.text v.natAbs

/-- The loop of `lpStringToInt64` over the digits after the first one. -/
def lpDigits (v : ℕ) : Sds → Option ℕ
  | [] => some v
  | c :: p =>
    if 48 ≤ c.val ∧ c.val ≤ 57 then
      if v > UINT64_MAX / 10 then none
      else if v * 10 > UINT64_MAX - (c.val - 48) then none
      else lpDigits (v * 10 + (c.val - 48)) p
    else none

def lpStringToInt64 (s : Sds) : Option ℤ :=
  if s = [48] then some 0
  else
    let negative := s.head? = some 45
    match (if negative then s.tail else s) with
    | [] => none
    | c :: p =>
      if 49 ≤ c.val ∧ c.val ≤ 57 then
        match lpDigits (c.val - 48) p with
        | none => none
        | some v =>
          if negative then (if v > INT64_MAX + 1 then none else some (-(v : ℤ)))
          else if v > INT64_MAX then none
          else some v
      else none

/-! ### Sizes -/

def LP_HDR_SIZE : ℕ := 6

/-- The `enclen` of `lpEncodeGetType`. -/
def lpEnclen (ele : Sds) : ℕ :=
  match lpStringToInt64 ele with
  | some v =>
    if v ≥ 0 ∧ v ≤ 127 then 1
    else if v ≥ -4096 ∧ v ≤ 4095 then 2
    else if v ≥ -32768 ∧ v ≤ 32767 then 3
    else if v ≥ -8388608 ∧ v ≤ 8388607 then 4
    else if v ≥ -2147483648 ∧ v ≤ 2147483647 then 5
    else 9
  | none =>
    if ele.length < 64 then 1 + ele.length
    else if ele.length < 4096 then 2 + ele.length
    else 5 + ele.length

def lpEncodeBacklen (l : ℕ) : ℕ :=
  if l ≤ 127 then 1 else if l < 16383 then 2 else if l < 2097151 then 3 else if l < 268435455 then 4 else 5

/-- The bytes an element takes. -/
def lpEleBytes (ele : Sds) : ℕ := lpEnclen ele + lpEncodeBacklen (lpEnclen ele)

abbrev Listpack := List Sds

def lpBytes (lp : Listpack) : ℕ := LP_HDR_SIZE + (lp.map lpEleBytes).sum + 1

/-! ### Elements -/

def lpNew : Listpack := []

def lpFirst (lp : Listpack) : Option ℕ := if lp = [] then none else some 0

def lpLast (lp : Listpack) : Option ℕ := if lp = [] then none else some (lp.length - 1)

def lpNext (lp : Listpack) : Option ℕ → Except LpAbort (Option ℕ)
  | none => .error .null
  | some p => .ok (if p + 1 < lp.length then some (p + 1) else none)

def lpPrev (_lp : Listpack) : Option ℕ → Except LpAbort (Option ℕ)
  | none => .error .null
  | some p => .ok (if p = 0 then none else some (p - 1))

/-- `n` times `lpNext`. -/
def lpNexts (lp : Listpack) (p : Option ℕ) : ℕ → Except LpAbort (Option ℕ)
  | 0 => .ok p
  | n + 1 => do
    let p ← lpNext lp p
    lpNexts lp p n

/-- `n` times `lpPrev`. -/
def lpPrevs (lp : Listpack) (p : Option ℕ) : ℕ → Except LpAbort (Option ℕ)
  | 0 => .ok p
  | n + 1 => do
    let p ← lpPrev lp p
    lpPrevs lp p n

/-- The count of a loop `while(n--)`; from below 0 it does not end. -/
def countdown (n : ℤ) : Except LpAbort ℕ := if n < 0 then .error .endless else .ok n.toNat

/-- A value stored in an `int`. -/
def asInt (v : ℤ) : ℤ := v.bmod (2 ^ 32)

/-- `lpGet`, with a buffer. -/
def lpGet (lp : Listpack) : Option ℕ → Except LpAbort Sds
  | none => .error .null
  | some p =>
    match lp[p]? with
    | none => .error .null
    | some ele => .ok ele

def lpGetInteger (lp : Listpack) (p : Option ℕ) : Except LpAbort ℤ := do
  let e ← lpGet lp p
  match lpStringToInt64 e with
  | none => .error .number
  | some v => .ok v

/-- A listpack that `lpInsert` made, unless it is too long. -/
def lpGrown (lp : Listpack) : Except LpAbort Listpack :=
  if lpBytes lp > UINT32_MAX then .error .tooLong else .ok lp

/-- `lpAppend`, whose size is a `uint32_t`. -/
def lpAppend (lp : Listpack) (ele : Sds) : Except LpAbort Listpack :=
  lpGrown (lp ++ [ele.take (ele.length % 2 ^ 32)])

def lpAppendInteger (lp : Listpack) (value : ℤ) : Except LpAbort Listpack := lpAppend lp (ll2string value)

def lpReplaceInteger (lp : Listpack) (pos : Option ℕ) (value : ℤ) : Except LpAbort Listpack :=
  match pos with
  | none => .error .null
  | some p => lpGrown (lp.set p (ll2string value))

/-- Appends in turn. -/
def lpAppends (lp : Listpack) : List Sds → Except LpAbort Listpack
  | [] => .ok lp
  | ele :: eles => do
    let lp ← lpAppend lp ele
    lpAppends lp eles

end RedisZk.Streams
