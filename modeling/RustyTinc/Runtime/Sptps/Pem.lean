import RustyTinc.Core.Base64

/-!
Keys as text: lines of base64 between a first and a last line that name the kind of the key.

* `writeTincPem`, `readTincPem`: the two directions;
* `readPemLines_data`: the lines between the two, however the bytes are spread over them;
* `text_round_trip`: bytes read back, as base64 and as a key.
-/

namespace RustyTinc

open Text

/-- The type of a public key. -/
def ed25519PublicPemType : List Char := "ED25519 PUBLIC KEY".toList

/-- So many bytes stand on a line. -/
def tincPemChunkLen : ℕ := 48

/-- The errors of reading a key. -/
inductive TincPemError
  | invalidPem (pemType : List Char)
  | invalidPemBase64 (error : Base64DecodeError)
deriving DecidableEq

/-- The first line. -/
def beginLine (pemType : List Char) : List Char := "-----BEGIN ".toList ++ pemType ++ "-----".toList

/-- The last line. -/
def endLine (pemType : List Char) : List Char := "-----END ".toList ++ pemType ++ "-----".toList

/-! ### Writing -/

/-- The parts of a list, all of the same length but the last one, which may be shorter. -/
def chunks {α : Type*} (n : ℕ) (data : List α) : List (List α) :=
  if data = [] ∨ n = 0 then [] else data.take n :: chunks n (data.drop n)
termination_by data.length
decreasing_by
  have hpos : 0 < data.length := List.length_pos_iff.mpr (by tauto)
  rw [List.length_drop]
  omega

lemma flatten_chunks {α : Type*} {n : ℕ} (hn : n ≠ 0) (data : List α) :
    (chunks n data).flatten = data := by
  fun_induction chunks n data with
  | case1 data h => rw [h.resolve_right hn, List.flatten_nil]
  | case2 data h ih => rw [List.flatten_cons, ih, List.take_append_drop]

lemma ne_nil_of_mem_chunks {α : Type*} {n : ℕ} {data : List α} :
    ∀ chunk ∈ chunks n data, chunk ≠ [] := by
  fun_induction chunks n data with
  | case1 data h => simp
  | case2 data h ih =>
      rw [not_or] at h
      rw [List.forall_mem_cons]
      exact ⟨by simp [h], ih⟩

/-- The text of some bytes. -/
def writeTincPem (pemType : List Char) (data : List UInt8) : List Char :=
  beginLine pemType ++ ['\n'] ++
    (chunks tincPemChunkLen data).flatMap (fun chunk => b64EncodeTinc chunk ++ ['\n']) ++
    endLine pemType ++ ['\n']

/-! ### Reading -/

/-- The lines of a key, from a line on before or after the first one of the key. -/
def readPemLines (pemType : List Char) (expectedLen : ℕ) :
    List (List Char) → Bool → List UInt8 → Except TincPemError (List UInt8)
  | [], _, _ => .error (.invalidPem pemType)
  | line :: lines, false, out =>
      readPemLines pemType expectedLen lines (trimEnd line = beginLine pemType) out
  | line :: lines, true, out =>
      if trimEnd line = endLine pemType then
        if out.length = expectedLen then .ok out else .error (.invalidPem pemType)
      else
        match b64DecodeTinc (trimEnd line) with
        | .error error => .error (.invalidPemBase64 error)
        | .ok chunk =>
            if chunk.isEmpty || expectedLen < out.length + chunk.length then
              .error (.invalidPem pemType)
            else readPemLines pemType expectedLen lines true (out ++ chunk)

/-- The bytes of the first text of a type, which must have the right length. -/
def readTincPem (input : List Char) (pemType : List Char) (expectedLen : ℕ) :
    Except TincPemError (List UInt8) :=
  readPemLines pemType expectedLen (lines input) false []

/-! ### Reading what has been written -/

section RoundTrip

variable {pemType : List Char} {expectedLen : ℕ} {out : List UInt8}

/-- Carriage returns at the ends of the lines do not matter. -/
lemma readPemLines_trim (texts : List (List Char)) (inData : Bool) :
    readPemLines pemType expectedLen (texts.map trimEnd) inData out =
      readPemLines pemType expectedLen texts inData out := by
  induction texts generalizing inData out with
  | nil => rfl
  | cons line texts ih =>
      cases inData with
      | false => simp only [List.map_cons, readPemLines, trimEnd_trimEnd, ih]
      | true => simp only [List.map_cons, readPemLines, trimEnd_trimEnd, ih]

/-- Lines before the first one of the key are passed over. -/
lemma readPemLines_before {before texts : List (List Char)}
    (h : ∀ line ∈ before, trimEnd line ≠ beginLine pemType) :
    readPemLines pemType expectedLen (before ++ texts) false out =
      readPemLines pemType expectedLen texts false out := by
  induction before with
  | nil => rfl
  | cons line before ih =>
      obtain ⟨hline, hbefore⟩ := List.forall_mem_cons.mp h
      rw [List.cons_append, readPemLines, decide_eq_false hline, ih hbefore]

lemma trimEnd_dashes (text : List Char) :
    trimEnd (text ++ "-----".toList) = text ++ "-----".toList := by
  refine trimEnd_of_getLast fun c hc => ?_
  have hlast : (text ++ "-----".toList).getLast? = some '-' := by simp
  rw [hlast] at hc
  obtain rfl := Option.some.inj hc
  decide

lemma trimEnd_beginLine (pemType : List Char) : trimEnd (beginLine pemType) = beginLine pemType :=
  trimEnd_dashes _

lemma trimEnd_endLine (pemType : List Char) : trimEnd (endLine pemType) = endLine pemType :=
  trimEnd_dashes _

lemma dash_mem_endLine (pemType : List Char) : '-' ∈ endLine pemType :=
  List.mem_append_left _ (List.mem_append_left _ (by decide))

/-- A line of base64 is read as it is, and it is not the last one of the key. -/
lemma line_of_base64 {line : List Char} (h : ∀ c ∈ line, c ∈ base64Original) :
    trimEnd line = line ∧ line ≠ endLine pemType ∧ '\n' ∉ line := by
  have hcr : '\r' ∉ base64Original := by decide +kernel
  have hdash : '-' ∉ base64Original := by decide +kernel
  have hlf : '\n' ∉ base64Original := by decide +kernel
  refine ⟨trimEnd_of_getLast fun c hc => ?_, fun heq => ?_, fun hmem => hlf (h _ hmem)⟩
  · rintro rfl
    exact hcr (h _ (List.mem_of_getLast? hc))
  · exact hdash (h _ (heq ▸ dash_mem_endLine pemType))

/-- **The lines between the first and the last one**: they are read one by one, however the bytes
are spread over them, and the number of bytes has to be the expected one. -/
lemma readPemLines_data (parts : List (List UInt8)) (hparts : ∀ part ∈ parts, part ≠ []) :
    readPemLines pemType expectedLen (parts.map b64EncodeTinc ++ [endLine pemType]) true out =
      if out.length + parts.flatten.length = expectedLen then .ok (out ++ parts.flatten)
      else .error (.invalidPem pemType) := by
  induction parts generalizing out with
  | nil =>
      rw [List.map_nil, List.nil_append, readPemLines, trimEnd_endLine, if_pos rfl,
        List.flatten_nil, List.length_nil, Nat.add_zero, List.append_nil]
  | cons part parts ih =>
      obtain ⟨hpart, hparts'⟩ := List.forall_mem_cons.mp hparts
      obtain ⟨htrim, hend, -⟩ := @line_of_base64 pemType _ (mem_b64EncodeTinc part)
      have hread : b64DecodeTinc (b64EncodeTinc part) = .ok part :=
        b64DecodeTinc_b64EncodeTincInternal readable_base64Original part
      rw [List.map_cons, List.cons_append, readPemLines, htrim, if_neg hend, hread]
      simp only [List.flatten_cons, List.length_append]
      by_cases hlong : expectedLen < out.length + part.length
      · rw [if_pos (by simp [hlong]), if_neg (by omega)]
      · rw [if_neg (by simp [hlong, hpart]), ih hparts', List.length_append, List.append_assoc,
          Nat.add_assoc]

/-- The lines of a key. -/
def pemLines (pemType : List Char) (data : List UInt8) : List (List Char) :=
  beginLine pemType :: (chunks tincPemChunkLen data).map b64EncodeTinc ++ [endLine pemType]

lemma writeTincPem_eq (pemType : List Char) (data : List UInt8) :
    writeTincPem pemType data = unlines (pemLines pemType data) := by
  simp [writeTincPem, unlines, pemLines, List.flatMap_map]

/-- The text between the two marks has no line breaks in its lines. -/
lemma notMem_pemLines (hpem : '\n' ∉ pemType) (data : List UInt8) :
    ∀ line ∈ pemLines pemType data, '\n' ∉ line := by
  have hbegin : '\n' ∉ "-----BEGIN ".toList := by decide
  have hend : '\n' ∉ "-----END ".toList := by decide
  have hdashes : '\n' ∉ "-----".toList := by decide
  intro line hline
  rw [pemLines, List.cons_append, List.mem_cons, List.mem_append, List.mem_map,
    List.mem_singleton] at hline
  rcases hline with rfl | ⟨chunk, -, rfl⟩ | rfl
  · exact List.not_mem_append (List.not_mem_append hbegin hpem) hdashes
  · exact (@line_of_base64 pemType _ (mem_b64EncodeTinc chunk)).2.2
  · exact List.not_mem_append (List.not_mem_append hend hpem) hdashes

/-- **A key reads back**, after other lines and with either ending of the lines, and only with its
own length. -/
lemma readTincPem_writeTincPem (hpem : '\n' ∉ pemType) {before : List (List Char)}
    (hbefore : ∀ line ∈ before, '\n' ∉ line ∧ trimEnd line ≠ beginLine pemType)
    (ending : LineEnding) (data : List UInt8) :
    readTincPem (ending.rewrite (unlines before ++ writeTincPem pemType data)) pemType
      expectedLen = if data.length = expectedLen then .ok data
        else .error (.invalidPem pemType) := by
  have hnot : ∀ line ∈ before ++ pemLines pemType data, '\n' ∉ line := fun line hline =>
    (List.mem_append.mp hline).elim (fun h => (hbefore line h).1) (notMem_pemLines hpem data line)
  have htext : unlines before ++ writeTincPem pemType data =
      unlines (before ++ pemLines pemType data) := by
    rw [writeTincPem_eq, unlines, unlines, unlines, List.flatMap_append]
  have hchunks : (chunks tincPemChunkLen data).flatten = data :=
    flatten_chunks (by decide) data
  rw [readTincPem, ← readPemLines_trim, htext, lines_rewrite_unlines ending hnot,
    readPemLines_trim, readPemLines_before fun line hline => (hbefore line hline).2, pemLines,
    List.cons_append, readPemLines, trimEnd_beginLine, decide_eq_true rfl,
    readPemLines_data _ ne_nil_of_mem_chunks, hchunks, List.length_nil, Nat.zero_add,
    List.nil_append]

end RoundTrip

/-- **Bytes read back from text**: from base64 in either alphabet, and from a key, whatever lines
come before it (other than its own first line, of which the ending does not count) and however
its lines end. The key is only read if its length is the expected one. A kind of key is written
on one line, as the two kinds of the crate are. -/
theorem text_round_trip :
    (∀ src, b64DecodeTinc (b64EncodeTinc src) = .ok src ∧
      b64DecodeTinc (b64EncodeTincUrlsafe src) = .ok src) ∧
    ∀ pemType, '\n' ∉ pemType → ∀ before : List (List Char),
      (∀ line ∈ before, '\n' ∉ line ∧ trimEnd line ≠ beginLine pemType) →
      ∀ (ending : LineEnding) data,
        let text := ending.rewrite (unlines before ++ writeTincPem pemType data)
        readTincPem text pemType data.length = .ok data ∧
        ∀ expectedLen, expectedLen ≠ data.length →
          readTincPem text pemType expectedLen = .error (.invalidPem pemType) := by
  refine ⟨fun src => ⟨b64DecodeTinc_b64EncodeTincInternal readable_base64Original src,
    b64DecodeTinc_b64EncodeTincInternal readable_base64Urlsafe src⟩, ?_⟩
  intro pemType hpem before hbefore ending data
  refine ⟨?_, fun expectedLen hne => ?_⟩
  · rw [readTincPem_writeTincPem hpem hbefore, if_pos rfl]
  · rw [readTincPem_writeTincPem hpem hbefore, if_neg (Ne.symm hne)]

/-- A public key after a comment, in a file whose lines end with both characters. -/
theorem text_round_trip_public_key :
    readTincPem (LineEnding.carriageReturnLineFeed.rewrite
      (unlines ["# host".toList] ++ writeTincPem ed25519PublicPemType (List.replicate 32 7)))
      ed25519PublicPemType 32 = .ok (List.replicate 32 7) := by
  have hpem : '\n' ∉ ed25519PublicPemType := by decide
  have hbefore : ∀ line ∈ ["# host".toList],
      '\n' ∉ line ∧ trimEnd line ≠ beginLine ed25519PublicPemType := by decide +kernel
  exact (text_round_trip.2 _ hpem _ hbefore .carriageReturnLineFeed (List.replicate 32 7)).1

end RustyTinc
