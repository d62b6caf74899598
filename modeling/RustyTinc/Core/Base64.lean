import RustyTinc.Library.Text

/-!
Bytes as text: three of them are four characters, the lowest bits first, and the text is not
padded.

* `b64EncodeTinc`, `b64EncodeTincUrlsafe`, `b64DecodeTinc`: the two ways to write bytes, and the
  one to read both;
* `b64DecodeTinc_b64EncodeTincInternal`: bytes read back.
-/

namespace RustyTinc

/-- The bytes of a text. -/
def asBytes (text : List Char) : List UInt8 := text.flatMap String.utf8EncodeChar

lemma asBytes_cons (c : Char) (text : List Char) :
    asBytes (c :: text) = asBytes [c] ++ asBytes text := by
  rw [← List.singleton_append, asBytes, asBytes, asBytes, List.flatMap_append]

/-! ### Writing -/

/-- The characters of the usual alphabet. -/
def base64Original : List Char :=
  "ABCDEFGHIJKLMNOPQRSTUVWXYZabcdefghijklmnopqrstuvwxyz0123456789+/".toList

/-- The characters of the alphabet for file names and addresses. -/
def base64Urlsafe : List Char :=
  "ABCDEFGHIJKLMNOPQRSTUVWXYZabcdefghijklmnopqrstuvwxyz0123456789-_".toList

section Encode

variable (alphabet : List Char)

/-- The character of an index, which is below 64. -/
def alphabetChar (i : ℕ) : Char := alphabet.getD i 'A'

/-- Three bytes give four characters, of which the first holds the low bits of the first byte. -/
def b64EncodeTincInternal : List UInt8 → List Char
  | first :: second :: third :: src =>
      let triplet := first.toNat ||| second.toNat <<< 8 ||| third.toNat <<< 16
      alphabetChar alphabet (triplet &&& 63) :: alphabetChar alphabet (triplet >>> 6 &&& 63) ::
        alphabetChar alphabet (triplet >>> 12 &&& 63) :: alphabetChar alphabet (triplet >>> 18) ::
        b64EncodeTincInternal src
  | [] => []
  | [first] =>
      let triplet := first.toNat
      [alphabetChar alphabet (triplet &&& 63), alphabetChar alphabet (triplet >>> 6)]
  | [first, second] =>
      let triplet := first.toNat ||| second.toNat <<< 8
      [alphabetChar alphabet (triplet &&& 63), alphabetChar alphabet (triplet >>> 6 &&& 63),
        alphabetChar alphabet (triplet >>> 12)]

end Encode

/-- The text of some bytes, in the usual alphabet. -/
def b64EncodeTinc (src : List UInt8) : List Char := b64EncodeTincInternal base64Original src

/-- The text of some bytes, in the other alphabet. -/
def b64EncodeTincUrlsafe (src : List UInt8) : List Char := b64EncodeTincInternal base64Urlsafe src

lemma alphabetChar_mem {alphabet : List Char} (h : 'A' ∈ alphabet) (i : ℕ) :
    alphabetChar alphabet i ∈ alphabet := by
  rw [alphabetChar, List.getD_eq_getElem?_getD]
  cases hget : alphabet[i]? with
  | none => exact h
  | some c => exact List.mem_of_getElem? hget

/-- Only characters of the alphabet are written. -/
lemma mem_b64EncodeTincInternal {alphabet : List Char} (h : 'A' ∈ alphabet) (src : List UInt8) :
    ∀ c ∈ b64EncodeTincInternal alphabet src, c ∈ alphabet := by
  induction src using b64EncodeTincInternal.induct with
  | case1 first second third src ih =>
      simp only [b64EncodeTincInternal, List.forall_mem_cons]
      exact ⟨alphabetChar_mem h _, alphabetChar_mem h _, alphabetChar_mem h _,
        alphabetChar_mem h _, ih⟩
  | case2 => simp [b64EncodeTincInternal]
  | case3 first => simp [b64EncodeTincInternal, alphabetChar_mem h]
  | case4 first second => simp [b64EncodeTincInternal, alphabetChar_mem h]

lemma mem_b64EncodeTinc (src : List UInt8) : ∀ c ∈ b64EncodeTinc src, c ∈ base64Original :=
  mem_b64EncodeTincInternal (by decide +kernel) src

/-! ### Reading -/

/-- The text is not base64. -/
inductive Base64DecodeError
  | invalid
deriving DecidableEq

/-- The six bits of a character of either alphabet. -/
def decodeBase64Byte (byte : UInt8) : Except Base64DecodeError UInt8 :=
  if 65 ≤ byte ∧ byte ≤ 90 then .ok (byte - 65)
  else if 97 ≤ byte ∧ byte ≤ 122 then .ok (byte - 97 + 26)
  else if 48 ≤ byte ∧ byte ≤ 57 then .ok (byte - 48 + 52)
  else if byte = 43 ∨ byte = 45 then .ok 62
  else if byte = 47 ∨ byte = 95 then .ok 63
  else .error .invalid

/-- The 24 bits of four characters. -/
def decodeBase64Quad (first second third fourth : UInt8) : Except Base64DecodeError ℕ := do
  let first ← decodeBase64Byte first
  let second ← decodeBase64Byte second
  let third ← decodeBase64Byte third
  let fourth ← decodeBase64Byte fourth
  return first.toNat ||| second.toNat <<< 6 ||| third.toNat <<< 12 ||| fourth.toNat <<< 18

/-- Read the bytes of a text. -/
def decodeBase64 : List UInt8 → Except Base64DecodeError (List UInt8)
  | first :: second :: third :: fourth :: src => do
      let triplet ← decodeBase64Quad first second third fourth
      let dst ← decodeBase64 src
      return UInt8.ofNat (triplet &&& 0xff) :: UInt8.ofNat (triplet >>> 8 &&& 0xff) ::
        UInt8.ofNat (triplet >>> 16 &&& 0xff) :: dst
  | [] => return []
  | [first, second] => do
      let first ← decodeBase64Byte first
      let second ← decodeBase64Byte second
      let triplet := first.toNat ||| second.toNat <<< 6
      return [UInt8.ofNat (triplet &&& 0xff)]
  | [first, second, third] => do
      let first ← decodeBase64Byte first
      let second ← decodeBase64Byte second
      let third ← decodeBase64Byte third
      let triplet := first.toNat ||| second.toNat <<< 6 ||| third.toNat <<< 12
      return [UInt8.ofNat (triplet &&& 0xff), UInt8.ofNat (triplet >>> 8 &&& 0xff)]
  | [_] => throw .invalid

/-- The bytes of a text in either alphabet. -/
def b64DecodeTinc (src : List Char) : Except Base64DecodeError (List UInt8) :=
  decodeBase64 (asBytes src)

/-! ### Bytes read back -/

/-- Each character of the alphabet is one byte, which stands for its index. -/
def Readable (alphabet : List Char) : Prop :=
  ∀ i < 64, (asBytes [alphabetChar alphabet i]).map decodeBase64Byte = [.ok (UInt8.ofNat i)]

instance (alphabet : List Char) : Decidable (Readable alphabet) :=
  inferInstanceAs (Decidable (∀ i < 64, _))

lemma readable_base64Original : Readable base64Original := by decide +kernel

lemma readable_base64Urlsafe : Readable base64Urlsafe := by decide +kernel

/-- Numbers that do not overlap are put together by adding them. -/
lemma or_shiftLeft {low high i : ℕ} (h : low < 2 ^ i) : low ||| high <<< i = low + high * 2 ^ i := by
  rw [Nat.or_comm, ← Nat.shiftLeft_add_eq_or_of_lt h, Nat.shiftLeft_eq, Nat.add_comm]

/-- The low byte of a number. -/
lemma ofNat_and (n : ℕ) : UInt8.ofNat (n &&& 0xff) = UInt8.ofNat n := by
  rw [show (0xff : ℕ) = 2 ^ 8 - 1 from rfl, Nat.and_two_pow_sub_one_eq_mod]
  exact UInt8.ofNat_mod_size

lemma ofNat_eq {n : ℕ} {byte : UInt8} (h : n % 2 ^ 8 = byte.toNat) : UInt8.ofNat n = byte :=
  UInt8.toNat_inj.mp (by rw [UInt8.toNat_ofNat', h])

lemma packed_bytes (first second third : UInt8) :
    first.toNat ||| second.toNat <<< 8 ||| third.toNat <<< 16 =
      first.toNat + second.toNat * 2 ^ 8 + third.toNat * 2 ^ 16 := by
  have hfirst := first.toNat_lt
  have hsecond := second.toNat_lt
  have hlow : first.toNat ||| second.toNat <<< 8 = first.toNat + second.toNat * 2 ^ 8 :=
    or_shiftLeft hfirst
  rw [hlow, or_shiftLeft (by omega)]

lemma packed_three {i j k : ℕ} (hi : i < 64) (hj : j < 64) :
    i ||| j <<< 6 ||| k <<< 12 = i + j * 2 ^ 6 + k * 2 ^ 12 := by
  have hlow : i ||| j <<< 6 = i + j * 2 ^ 6 := or_shiftLeft hi
  rw [hlow, or_shiftLeft (by omega)]

lemma packed_four {i j k l : ℕ} (hi : i < 64) (hj : j < 64) (hk : k < 64) :
    i ||| j <<< 6 ||| k <<< 12 ||| l <<< 18 = i + j * 2 ^ 6 + k * 2 ^ 12 + l * 2 ^ 18 := by
  rw [packed_three hi hj, or_shiftLeft (by omega)]

section ReadBack

variable {alphabet : List Char} {i j k l : ℕ}

/-- The byte of a character, and what it is read as. -/
lemma Readable.exists_byte (h : Readable alphabet) (hi : i < 64) : ∃ byte value,
    asBytes [alphabetChar alphabet i] = [byte] ∧ decodeBase64Byte byte = .ok value ∧
      value.toNat = i := by
  obtain ⟨byte, hbyte, hvalue⟩ := List.map_eq_singleton_iff.mp (h i hi)
  refine ⟨byte, UInt8.ofNat i, hbyte, hvalue, ?_⟩
  rw [UInt8.toNat_ofNat', Nat.mod_eq_of_lt (by omega)]

/-- Four characters are three bytes. -/
lemma Readable.decode_four (h : Readable alphabet) (hi : i < 64) (hj : j < 64) (hk : k < 64)
    (hl : l < 64) (rest : List Char) :
    b64DecodeTinc (alphabetChar alphabet i :: alphabetChar alphabet j ::
      alphabetChar alphabet k :: alphabetChar alphabet l :: rest) =
    (b64DecodeTinc rest).map fun dst =>
      let triplet := i + j * 2 ^ 6 + k * 2 ^ 12 + l * 2 ^ 18
      UInt8.ofNat triplet :: UInt8.ofNat (triplet / 2 ^ 8) ::
        UInt8.ofNat (triplet / 2 ^ 16) :: dst := by
  obtain ⟨b₁, v₁, hb₁, hv₁, rfl⟩ := h.exists_byte hi
  obtain ⟨b₂, v₂, hb₂, hv₂, rfl⟩ := h.exists_byte hj
  obtain ⟨b₃, v₃, hb₃, hv₃, rfl⟩ := h.exists_byte hk
  obtain ⟨b₄, v₄, hb₄, hv₄, rfl⟩ := h.exists_byte hl
  have hquad : decodeBase64Quad b₁ b₂ b₃ b₄ =
      .ok (v₁.toNat + v₂.toNat * 2 ^ 6 + v₃.toNat * 2 ^ 12 + v₄.toNat * 2 ^ 18) := by
    rw [decodeBase64Quad, hv₁, hv₂, hv₃, hv₄, ← packed_four hi hj hk]
    rfl
  rw [b64DecodeTinc, asBytes_cons, hb₁, asBytes_cons, hb₂, asBytes_cons, hb₃, asBytes_cons, hb₄]
  simp only [List.singleton_append, decodeBase64, hquad, ofNat_and, Nat.shiftRight_eq_div_pow]
  rw [b64DecodeTinc]
  cases decodeBase64 (asBytes rest) <;> rfl

/-- Two characters at the end are one byte. -/
lemma Readable.decode_two (h : Readable alphabet) (hi : i < 64) (hj : j < 64) :
    b64DecodeTinc [alphabetChar alphabet i, alphabetChar alphabet j] =
      .ok [UInt8.ofNat (i + j * 2 ^ 6)] := by
  obtain ⟨b₁, v₁, hb₁, hv₁, rfl⟩ := h.exists_byte hi
  obtain ⟨b₂, v₂, hb₂, hv₂, rfl⟩ := h.exists_byte hj
  rw [b64DecodeTinc, asBytes_cons, hb₁, hb₂, List.singleton_append, decodeBase64, hv₁, hv₂,
    ← or_shiftLeft hi, ← ofNat_and]
  rfl

/-- Three characters at the end are two bytes. -/
lemma Readable.decode_three (h : Readable alphabet) (hi : i < 64) (hj : j < 64) (hk : k < 64) :
    b64DecodeTinc [alphabetChar alphabet i, alphabetChar alphabet j, alphabetChar alphabet k] =
      .ok [UInt8.ofNat (i + j * 2 ^ 6 + k * 2 ^ 12),
        UInt8.ofNat ((i + j * 2 ^ 6 + k * 2 ^ 12) / 2 ^ 8)] := by
  obtain ⟨b₁, v₁, hb₁, hv₁, rfl⟩ := h.exists_byte hi
  obtain ⟨b₂, v₂, hb₂, hv₂, rfl⟩ := h.exists_byte hj
  obtain ⟨b₃, v₃, hb₃, hv₃, rfl⟩ := h.exists_byte hk
  rw [b64DecodeTinc, asBytes_cons, hb₁, asBytes_cons, hb₂, hb₃, List.singleton_append,
    List.singleton_append, decodeBase64, hv₁, hv₂, hv₃, ← packed_three hi hj, ← ofNat_and,
    ← ofNat_and (_ / _), ← Nat.shiftRight_eq_div_pow]
  rfl

lemma and_63 (n : ℕ) : n &&& 63 = n % 2 ^ 6 := Nat.and_two_pow_sub_one_eq_mod n 6

/-- **Bytes read back**, in either alphabet. -/
lemma b64DecodeTinc_b64EncodeTincInternal (h : Readable alphabet) (src : List UInt8) :
    b64DecodeTinc (b64EncodeTincInternal alphabet src) = .ok src := by
  induction src using b64EncodeTincInternal.induct with
  | case1 first second third src ih =>
      have hfirst := first.toNat_lt
      have hsecond := second.toNat_lt
      have hthird := third.toNat_lt
      simp only [b64EncodeTincInternal, packed_bytes, and_63, Nat.shiftRight_eq_div_pow]
      rw [h.decode_four (by omega) (by omega) (by omega) (by omega), ih]
      set triplet := first.toNat + second.toNat * 2 ^ 8 + third.toNat * 2 ^ 16 with htriplet
      have hsum : triplet % 2 ^ 6 + triplet / 2 ^ 6 % 2 ^ 6 * 2 ^ 6 +
          triplet / 2 ^ 12 % 2 ^ 6 * 2 ^ 12 + triplet / 2 ^ 18 * 2 ^ 18 = triplet := by omega
      simp only [hsum]
      have h₁ : UInt8.ofNat triplet = first := ofNat_eq (by omega)
      have h₂ : UInt8.ofNat (triplet / 2 ^ 8) = second := ofNat_eq (by omega)
      have h₃ : UInt8.ofNat (triplet / 2 ^ 16) = third := ofNat_eq (by omega)
      rw [h₁, h₂, h₃]
      rfl
  | case2 => rfl
  | case3 first =>
      have hfirst := first.toNat_lt
      simp only [b64EncodeTincInternal, and_63, Nat.shiftRight_eq_div_pow]
      have hbyte : UInt8.ofNat (first.toNat % 2 ^ 6 + first.toNat / 2 ^ 6 * 2 ^ 6) = first :=
        ofNat_eq (by omega)
      rw [h.decode_two (by omega) (by omega), hbyte]
  | case4 first second =>
      have hfirst := first.toNat_lt
      have hsecond := second.toNat_lt
      have hpacked : first.toNat ||| second.toNat <<< 8 = first.toNat + second.toNat * 2 ^ 8 :=
        or_shiftLeft hfirst
      simp only [b64EncodeTincInternal, hpacked, and_63, Nat.shiftRight_eq_div_pow]
      rw [h.decode_three (by omega) (by omega) (by omega)]
      set pair := first.toNat + second.toNat * 2 ^ 8 with hpair
      have hsum : pair % 2 ^ 6 + pair / 2 ^ 6 % 2 ^ 6 * 2 ^ 6 + pair / 2 ^ 12 * 2 ^ 12 = pair := by
        omega
      have h₁ : UInt8.ofNat pair = first := ofNat_eq (by omega)
      have h₂ : UInt8.ofNat (pair / 2 ^ 8) = second := ofNat_eq (by omega)
      rw [hsum, h₁, h₂]

end ReadBack

end RustyTinc
