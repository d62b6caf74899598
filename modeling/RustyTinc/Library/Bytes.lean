import Mathlib.Data.List.GetD
import Mathlib.Tactic

/-!
Byte strings of a fixed length and big-endian numbers.

* `array_toList`: the bytes of a vector read back as that vector;
* `ofBigEndian_bigEndian`: a number that fits is read back from its bytes;
* `ofBigEndian_lt`: a number is bounded by the number of its bytes;
* `u16At_setU16`, `getElem?_setU16`: 16-bit numbers within a byte string, and `u16At?_eq`,
  `setU16?_eq`: the checked accesses that are within it;
* `slice_set`: a part of a byte string, of which one byte is changed.
-/

namespace Bytes

/-- The first `n` bytes of a list, padded with zeros. -/
def array (n : ℕ) (bytes : List UInt8) : Vector UInt8 n := Vector.ofFn fun i => bytes.getD i 0

lemma array_append {n : ℕ} (v : Vector UInt8 n) (rest : List UInt8) :
    array n (v.toList ++ rest) = v := by
  refine Vector.ext fun i hi => ?_
  have hlt : i < v.toList.length := by simpa using hi
  rw [array, Vector.getElem_ofFn, List.getD_eq_getElem?_getD, List.getElem?_append_left hlt,
    List.getElem?_eq_getElem hlt, Option.getD_some, Vector.getElem_toList]

@[simp] lemma array_toList {n : ℕ} (v : Vector UInt8 n) : array n v.toList = v := by
  simpa using array_append v []

lemma toList_inj {n : ℕ} {v w : Vector UInt8 n} (h : v.toList = w.toList) : v = w := by
  rw [← array_toList v, h, array_toList]

/-- The `width` bytes of a number, the highest first. -/
def bigEndian : ℕ → ℕ → List UInt8
  | 0, _ => []
  | width + 1, n => bigEndian width (n / 256) ++ [UInt8.ofNat n]

/-- The number written by a list of bytes, the highest first. -/
def ofBigEndian (bytes : List UInt8) : ℕ := bytes.foldl (fun n b => n * 256 + b.toNat) 0

@[simp] lemma length_bigEndian (width n : ℕ) : (bigEndian width n).length = width := by
  induction width generalizing n with
  | zero => rfl
  | succ width ih => rw [bigEndian, List.length_append, ih, List.length_singleton]

/-- A number is read again from its bytes. -/
lemma ofBigEndian_bigEndian {width n : ℕ} (h : n < 256 ^ width) :
    ofBigEndian (bigEndian width n) = n := by
  induction width generalizing n with
  | zero =>
      rw [pow_zero, Nat.lt_one_iff] at h
      rw [h]
      rfl
  | succ width ih =>
      have hdiv : n / 256 < 256 ^ width := by
        rw [pow_succ] at h
        exact Nat.div_lt_of_lt_mul (by rwa [mul_comm])
      have hfold := ih hdiv
      rw [ofBigEndian] at hfold ⊢
      rw [bigEndian, List.foldl_append, hfold, List.foldl_cons, List.foldl_nil,
        UInt8.toNat_ofNat']
      omega

lemma ofBigEndian_lt (bytes : List UInt8) : ofBigEndian bytes < 256 ^ bytes.length := by
  induction bytes using List.reverseRecOn with
  | nil => decide
  | append_singleton bytes b ih =>
      have hb := b.toNat_lt
      rw [ofBigEndian] at ih ⊢
      rw [List.foldl_append, List.foldl_cons, List.foldl_nil, List.length_append,
        List.length_singleton, pow_succ]
      omega

/-! ### Numbers at a position -/

section Position

variable {bytes : List UInt8} {i : ℕ}

/-- The 16-bit number at a position. -/
def u16At (bytes : List UInt8) (i : ℕ) : ℕ :=
  (bytes.getD i 0).toNat * 256 + (bytes.getD (i + 1) 0).toNat

/-- Write the low 16 bits of a number at a position. -/
def setU16 (bytes : List UInt8) (i n : ℕ) : List UInt8 :=
  (bytes.set i (UInt8.ofNat (n / 256))).set (i + 1) (UInt8.ofNat n)

@[simp] lemma length_setU16 (bytes : List UInt8) (i n : ℕ) :
    (setU16 bytes i n).length = bytes.length := by
  rw [setU16, List.length_set, List.length_set]

/-- The bytes of a 16-bit number. -/
lemma bigEndian_u16At (bytes : List UInt8) (i : ℕ) :
    bigEndian 2 (u16At bytes i) = [bytes.getD i 0, bytes.getD (i + 1) 0] := by
  have hhigh := (bytes.getD i 0).toNat_lt
  have hlow := (bytes.getD (i + 1) 0).toNat_lt
  have hdiv : u16At bytes i / 256 = (bytes.getD i 0).toNat := by
    rw [u16At]
    omega
  have hmod : UInt8.ofNat (u16At bytes i) = bytes.getD (i + 1) 0 := by
    rw [← UInt8.toNat_inj, UInt8.toNat_ofNat', u16At]
    omega
  rw [bigEndian, bigEndian, bigEndian, hdiv, hmod, UInt8.ofNat_toNat]
  rfl

lemma u16At_lt (bytes : List UInt8) (i : ℕ) : u16At bytes i < 2 ^ 16 := by
  have hhigh := (bytes.getD i 0).toNat_lt
  have hlow := (bytes.getD (i + 1) 0).toNat_lt
  rw [u16At]
  omega

lemma getElem?_setU16 {j n : ℕ} (h : j ≠ i) (h' : j ≠ i + 1) :
    (setU16 bytes i n)[j]? = bytes[j]? := by
  rw [setU16, List.getElem?_set_ne h'.symm, List.getElem?_set_ne h.symm]

lemma u16At_setU16 {n : ℕ} (hi : i + 1 < bytes.length) : u16At (setU16 bytes i n) i = n % 2 ^ 16 := by
  have hhigh : (setU16 bytes i n).getD i 0 = UInt8.ofNat (n / 256) := by
    rw [setU16, List.getD_eq_getElem?_getD, List.getElem?_set_ne (Nat.succ_ne_self i),
      List.getElem?_set_self (by omega), Option.getD_some]
  have hlow : (setU16 bytes i n).getD (i + 1) 0 = UInt8.ofNat n := by
    rw [setU16, List.getD_eq_getElem?_getD,
      List.getElem?_set_self (by rw [List.length_set]; exact hi), Option.getD_some]
  rw [u16At, hhigh, hlow, UInt8.toNat_ofNat', UInt8.toNat_ofNat']
  omega

lemma u16At_congr {bytes' : List UInt8} (h : bytes'[i]? = bytes[i]?)
    (h' : bytes'[i + 1]? = bytes[i + 1]?) : u16At bytes' i = u16At bytes i := by
  simp only [u16At, List.getD_eq_getElem?_getD, h, h']

lemma getElem?_eq_getD (hi : i < bytes.length) : bytes[i]? = some (bytes.getD i 0) := by
  rw [List.getElem?_eq_getElem hi, List.getD_eq_getElem _ _ hi]

/-- The 16-bit number at a position, if it is within the byte string. -/
def u16At? (bytes : List UInt8) (i : ℕ) : Option ℕ := do
  let high ← bytes[i]?
  let low ← bytes[i + 1]?
  some (high.toNat * 256 + low.toNat)

/-- Write a number at a position, if it is within the byte string. -/
def setU16? (bytes : List UInt8) (i n : ℕ) : Option (List UInt8) :=
  if i + 1 < bytes.length then some (setU16 bytes i n) else none

lemma u16At?_eq (hi : i + 1 < bytes.length) : u16At? bytes i = some (u16At bytes i) := by
  rw [u16At?, getElem?_eq_getD (by omega), getElem?_eq_getD hi]
  rfl

lemma setU16?_eq {n : ℕ} (hi : i + 1 < bytes.length) :
    setU16? bytes i n = some (setU16 bytes i n) := if_pos hi

/-! ### Parts -/

/-- The part of a byte string from a position on. -/
def slice (bytes : List UInt8) (start len : ℕ) : List UInt8 := (bytes.drop start).take len

lemma length_slice (bytes : List UInt8) (start len : ℕ) :
    (slice bytes start len).length = min len (bytes.length - start) := by
  rw [slice, List.length_take, List.length_drop]

lemma getElem?_slice {start len j : ℕ} (h : j < len) :
    (slice bytes start len)[j]? = bytes[start + j]? := by
  rw [slice, List.getElem?_take_of_lt h, List.getElem?_drop]

/-- The middle one of three parts. -/
lemma slice_append (xs ys zs : List UInt8) : slice (xs ++ ys ++ zs) xs.length ys.length = ys := by
  rw [slice, List.append_assoc, List.drop_left, List.take_left]

lemma getD_append (xs ys : List UInt8) (i : ℕ) : (xs ++ ys).getD (xs.length + i) 0 = ys.getD i 0 := by
  rw [List.getD_append_right _ _ _ _ (Nat.le_add_right _ i), Nat.add_sub_cancel_left]

lemma u16At_append (xs ys : List UInt8) (i : ℕ) :
    u16At (xs ++ ys) (xs.length + i) = u16At ys i := by
  rw [u16At, u16At, getD_append, add_assoc, getD_append]

/-- A part after the front, as seen without the front. -/
lemma setU16_append (xs ys : List UInt8) (i n : ℕ) :
    setU16 (xs ++ ys) (xs.length + i) n = xs ++ setU16 ys i n := by
  rw [setU16, add_assoc, List.set_append_right _ _ (by omega), List.set_append_right _ _ (by omega),
    Nat.add_sub_cancel_left, Nat.add_sub_cancel_left, setU16]

lemma slice_set (start len j : ℕ) (b : UInt8) :
    slice (bytes.set (start + j) b) start len = (slice bytes start len).set j b := by
  rw [slice, List.drop_set, if_neg (by omega), Nat.add_sub_cancel_left, List.take_set, slice]

lemma slice_setU16 (start len j n : ℕ) :
    slice (setU16 bytes (start + j) n) start len = setU16 (slice bytes start len) j n := by
  rw [setU16, add_assoc, slice_set, slice_set, setU16]

lemma getD_slice {start len j : ℕ} (h : j < len) :
    (slice bytes start len).getD j 0 = bytes.getD (start + j) 0 := by
  rw [List.getD_eq_getElem?_getD, getElem?_slice h, List.getD_eq_getElem?_getD]

lemma u16At_slice {start len j : ℕ} (h : j + 1 < len) :
    u16At (slice bytes start len) j = u16At bytes (start + j) := by
  rw [u16At, getD_slice (by omega), getD_slice h, u16At, add_assoc]

lemma slice_congr {bytes' : List UInt8} {start len : ℕ}
    (h : ∀ i, start ≤ i → i < start + len → bytes'[i]? = bytes[i]?) :
    slice bytes' start len = slice bytes start len := by
  refine List.ext_getElem? fun j => ?_
  by_cases hj : j < len
  · rw [getElem?_slice hj, getElem?_slice hj]
    exact h (start + j) (Nat.le_add_right start j) (by omega)
  · rw [slice, slice, List.getElem?_take, List.getElem?_take, if_neg hj, if_neg hj]

/-- Write a byte string at a position. -/
def overwrite (bytes : List UInt8) (start : ℕ) (new : List UInt8) : List UInt8 :=
  bytes.mapIdx fun i byte => if start ≤ i then new.getD (i - start) byte else byte

section Overwrite

variable {start j : ℕ} {new : List UInt8}

@[simp] lemma length_overwrite : (overwrite bytes start new).length = bytes.length :=
  List.length_mapIdx

/-- What is not written is as before. -/
lemma getElem?_overwrite (hj : j < start ∨ start + new.length ≤ j) :
    (overwrite bytes start new)[j]? = bytes[j]? := by
  have hsame : (fun byte => if start ≤ j then new.getD (j - start) byte else byte) = id := by
    funext byte
    show (if start ≤ j then new.getD (j - start) byte else byte) = byte
    split_ifs with hle
    · exact List.getD_eq_default _ _ (by omega)
    · rfl
  rw [overwrite, List.getElem?_mapIdx, hsame, Option.map_id_fun, id]

/-- What is written is read. -/
lemma slice_overwrite (h : start + new.length ≤ bytes.length) :
    slice (overwrite bytes start new) start new.length = new := by
  refine List.ext_getElem? fun j => ?_
  rcases lt_or_ge j new.length with hj | hj
  · rw [getElem?_slice hj, overwrite, List.getElem?_mapIdx,
      List.getElem?_eq_getElem (show start + j < bytes.length by omega), Option.map_some,
      if_pos (Nat.le_add_right start j), Nat.add_sub_cancel_left, List.getD_eq_getElem _ _ hj,
      List.getElem?_eq_getElem hj]
  · rw [List.getElem?_eq_none hj, List.getElem?_eq_none]
    rw [length_slice]
    omega

lemma slice_overwrite_toList {n : ℕ} {v : Vector UInt8 n} (h : start + n ≤ bytes.length) :
    slice (overwrite bytes start v.toList) start n = v.toList := by
  have hlen : v.toList.length = n := Vector.length_toList
  have hslice := @slice_overwrite bytes start v.toList (by omega)
  rwa [hlen] at hslice

lemma slice_overwrite_of_disjoint {a len : ℕ}
    (hdisjoint : a + len ≤ start ∨ start + new.length ≤ a) :
    slice (overwrite bytes start new) a len = slice bytes a len := by
  refine slice_congr fun i hle hlt => getElem?_overwrite ?_
  omega

end Overwrite

lemma slice_set_of_notMem {start len j : ℕ} {b : UInt8} (h : j < start ∨ start + len ≤ j) :
    slice (bytes.set j b) start len = slice bytes start len := by
  refine slice_congr fun i hle hlt => List.getElem?_set_ne ?_
  omega

lemma slice_setU16_of_disjoint {start len j n : ℕ} (h : j + 1 < start ∨ start + len ≤ j) :
    slice (setU16 bytes j n) start len = slice bytes start len := by
  refine slice_congr fun i hle hlt => getElem?_setU16 ?_ ?_
  · omega
  · omega

/-- The part of a byte string that is as long as an array. -/
lemma array_drop_eq {n start : ℕ} {v : Vector UInt8 n} (h : slice bytes start n = v.toList) :
    array n (bytes.drop start) = v := by
  rw [← List.take_append_drop n (bytes.drop start)]
  rw [slice] at h
  rw [h, array_append]

lemma toList_array_drop {n start : ℕ} (h : start + n ≤ bytes.length) :
    (array n (bytes.drop start)).toList = slice bytes start n := by
  have hsize : (slice bytes start n).toArray.size = n := by
    rw [List.size_toArray, length_slice]
    omega
  rw [@array_drop_eq bytes n start ⟨(slice bytes start n).toArray, hsize⟩ rfl]
  rfl

end Position

end Bytes
