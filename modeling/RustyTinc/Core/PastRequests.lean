import RustyTinc.Core.Protocol
import RustyTinc.Library.OrdMap

/-!
Announcements of subnets as lines of text, and the cache of the lines that a node has seen.

* `SubnetAnnouncement.display`: the line of an announcement; it determines the nonce and the
  owner (`display_inj`);
* `PastRequestCache.markSeen`: within one retention period nothing is forgotten
  (`Since.markSeen`).
-/

namespace RustyTinc

/-- Names of nodes. -/
def checkId (id : String) : Bool :=
  id ≠ "" && id.toList.all fun c => c.isAlphanum || c = '_'

lemma space_notMem_of_checkId {id : String} (h : checkId id = true) : ' ' ∉ id.toList := by
  intro hmem
  rw [checkId, Bool.and_eq_true, List.all_eq_true] at h
  exact absurd (h.2 ' ' hmem) (by decide)

/-! ### Text -/

/-- `{:x}` -/
def hex (n : ℕ) : String := .ofList (Nat.toDigits 16 n)

/-- `{:02x}` -/
def hexByte (b : UInt8) : String := (if b < 16 then "0" else "") ++ hex b.toNat

/-- The text of a MAC address. -/
def MacAddr.display (address : MacAddr) : String :=
  ":".intercalate (address.toList.map hexByte)

/-- The text of an IPv4 address. -/
def Ipv4Addr.display (address : Ipv4Addr) : String :=
  ".".intercalate (address.toList.map fun b => toString b.toNat)

namespace Ipv6Addr

/-- The eight groups of an IPv6 address. -/
def segments (address : Ipv6Addr) : List ℕ :=
  (List.range 8).map fun i =>
    (address.toList.getD (2 * i) 0).toNat * 256 + (address.toList.getD (2 * i + 1) 0).toNat

/-- The start and the length of the first one of the longest runs of zeros. -/
def zeroRun (segments : List ℕ) : ℕ × ℕ :=
  (segments.zipIdx.foldl (fun (longest, current) (segment, i) =>
    if segment = 0 then
      let current := (if current.2 = 0 then i else current.1, current.2 + 1)
      (if current.2 > longest.2 then current else longest, current)
    else (longest, (0, 0))) (((0, 0), (0, 0)) : (ℕ × ℕ) × (ℕ × ℕ))).1

/-- IPv4 addresses that are mapped are written as such; two or more zeros are left out once. -/
def display (address : Ipv6Addr) : String :=
  let segments := segments address
  if segments.take 6 = [0, 0, 0, 0, 0, 0xffff] then
    "::ffff:" ++ ".".intercalate ((address.toList.drop 12).map fun b => toString b.toNat)
  else
    let text (segments : List ℕ) : String := ":".intercalate (segments.map hex)
    let (start, len) := zeroRun segments
    if 1 < len then text (segments.take start) ++ "::" ++ text (segments.drop (start + len))
    else text segments

end Ipv6Addr

/-- The weight of a subnet that none is given for. -/
def defaultWeight : ℤ := 10

/-- The text of a subnet, without a weight or a prefix length that is the default. -/
def Subnet.display (s : Subnet) : String :=
  (match s.kind with
    | .mac address => MacAddr.display address
    | .ipv4 address prefixLen => Ipv4Addr.display address ++
        if prefixLen ≠ 32 then "/" ++ toString prefixLen.toNat else ""
    | .ipv6 address prefixLen => Ipv6Addr.display address ++
        if prefixLen ≠ 128 then "/" ++ toString prefixLen.toNat else "") ++
    if s.weight ≠ defaultWeight then "#" ++ toString s.weight else ""

/-- The requests `ADD_SUBNET` and `DEL_SUBNET`. -/
inductive SubnetRequest where
  | addSubnet
  | deleteSubnet
deriving DecidableEq

/-- The number of the request in the protocol. -/
def SubnetRequest.number : SubnetRequest → ℕ
  | addSubnet => 10
  | deleteSubnet => 11

/-- A message that adds or deletes a subnet. -/
structure SubnetAnnouncement where
  request : SubnetRequest
  message : SubnetMessage
deriving DecidableEq

namespace SubnetAnnouncement

/-- The line of an announcement, as it is sent. -/
def display (a : SubnetAnnouncement) : String :=
  toString a.request.number ++ " " ++ hex a.message.nonce.toNat ++ " " ++ a.message.owner ++ " " ++
    a.message.subnet.display

end SubnetAnnouncement

lemma digitChar_inj : ∀ d < 16, ∀ d' < 16, Nat.digitChar d = Nat.digitChar d' → d = d' := by
  decide

lemma digitChar_ne_space : ∀ d < 16, Nat.digitChar d ≠ ' ' := by
  decide

lemma space_notMem_toDigits (n : ℕ) : ' ' ∉ Nat.toDigits 16 n := by
  induction n using Nat.strong_induction_on with
  | _ n ih =>
      by_cases hn : n < 16
      · rw [Nat.toDigits_of_lt_base hn, List.mem_singleton]
        exact (digitChar_ne_space n hn).symm
      · rw [Nat.toDigits_of_base_le (by omega) (by omega), List.mem_append, List.mem_singleton]
        rintro (h | h)
        · exact ih _ (by omega) h
        · exact digitChar_ne_space _ (Nat.mod_lt n (by omega)) h.symm

/-- The last digit of a number that has several. -/
lemma toDigits_snoc {n : ℕ} (hn : ¬ n < 16) :
    Nat.toDigits 16 n = Nat.toDigits 16 (n / 16) ++ [Nat.digitChar (n % 16)] :=
  Nat.toDigits_of_base_le (by omega) (by omega)

/-- Numbers with the same digits are equal. -/
lemma toDigits_inj {n n' : ℕ} (h : Nat.toDigits 16 n = Nat.toDigits 16 n') : n = n' := by
  have hshort : ∀ m d : ℕ, ¬ m < 16 → Nat.toDigits 16 m ≠ [Nat.digitChar d] := by
    intro m d hm heq
    rw [toDigits_snoc hm] at heq
    simp [List.append_eq_singleton_iff, Nat.toDigits_ne_nil] at heq
  induction n using Nat.strong_induction_on generalizing n' with
  | _ n ih =>
      by_cases hn : n < 16 <;> by_cases hn' : n' < 16
      · rw [Nat.toDigits_of_lt_base hn, Nat.toDigits_of_lt_base hn'] at h
        exact digitChar_inj n hn n' hn' (List.singleton_inj.mp h)
      · rw [Nat.toDigits_of_lt_base hn] at h
        exact absurd h.symm (hshort n' n hn')
      · rw [Nat.toDigits_of_lt_base hn'] at h
        exact absurd h (hshort n n' hn)
      · rw [toDigits_snoc hn, toDigits_snoc hn'] at h
        obtain ⟨hdiv, hmod⟩ := List.append_inj' h rfl
        have hdiv' := ih (n / 16) (by omega) hdiv
        have hmod' := digitChar_inj _ (Nat.mod_lt n (by omega)) _ (Nat.mod_lt n' (by omega))
          (List.singleton_inj.mp hmod)
        omega

/-- A separator that does not occur before ends the first field. -/
lemma append_cons_inj {α : Type} {sep : α} {l l' rest rest' : List α} (h : sep ∉ l)
    (h' : sep ∉ l') (heq : l ++ sep :: rest = l' ++ sep :: rest') : l = l' ∧ rest = rest' := by
  rcases List.append_eq_append_iff.mp heq with ⟨mid, rfl, hmid⟩ | ⟨mid, rfl, hmid⟩
  · cases mid with
    | nil => simpa using hmid
    | cons x mid => simp_all
  · cases mid with
    | nil => simpa [eq_comm] using hmid
    | cons x mid => simp_all

/-- **The line of an announcement determines its nonce and its owner.** -/
lemma SubnetAnnouncement.display_inj {a b : SubnetAnnouncement}
    (ha : checkId a.message.owner = true) (hb : checkId b.message.owner = true)
    (h : a.display = b.display) :
    a.message.nonce = b.message.nonce ∧ a.message.owner = b.message.owner := by
  have hten : Nat.toDigits 10 10 = ['1', '0'] := by decide
  have heleven : Nat.toDigits 10 11 = ['1', '1'] := by decide
  have hline : ∀ a : SubnetAnnouncement, ∃ d rest, a.display.toList =
      '1' :: d :: ' ' :: (Nat.toDigits 16 a.message.nonce.toNat ++ ' ' ::
        (a.message.owner.toList ++ ' ' :: rest)) := by
    rintro ⟨request, message⟩
    cases request
    · exact ⟨'0', message.subnet.display.toList, by
        simp [SubnetAnnouncement.display, SubnetRequest.number, hex, hten]⟩
    · exact ⟨'1', message.subnet.display.toList, by
        simp [SubnetAnnouncement.display, SubnetRequest.number, hex, heleven]⟩
  obtain ⟨d, rest, hline_a⟩ := hline a
  obtain ⟨d', rest', hline_b⟩ := hline b
  have heq := hline_a.symm.trans ((congrArg String.toList h).trans hline_b)
  simp only [List.cons.injEq, true_and] at heq
  -- Neither a number nor a name has a space in it, so the fields end where the spaces are.
  obtain ⟨hnonce, htail⟩ :=
    append_cons_inj (space_notMem_toDigits _) (space_notMem_toDigits _) heq.2
  obtain ⟨howner, -⟩ :=
    append_cons_inj (space_notMem_of_checkId ha) (space_notMem_of_checkId hb) htail
  exact ⟨UInt32.toNat_inj.mp (toDigits_inj hnonce), String.toList_inj.mp howner⟩

/-! ### The cache -/

/-- Addition on 64 bits, as far as it goes. -/
def saturatingAdd64 (a b : ℕ) : ℕ := min (a + b) (2 ^ 64 - 1)

/-- The requests that were seen, each with the second at which it was seen first. -/
structure PastRequestCache where
  retentionSecs : ℕ
  entries : OrdMap String ℕ
deriving DecidableEq

namespace PastRequestCache

/-- An empty cache. -/
def new (retentionSecs : ℕ) : PastRequestCache := ⟨retentionSecs, .empty⟩

/-- Requests are forgotten after the retention time. -/
def age (c : PastRequestCache) (nowSecs : ℕ) : PastRequestCache :=
  { c with
    entries := c.entries.retain fun _ firstSeen =>
      saturatingAdd64 firstSeen c.retentionSecs > nowSecs }

/-- Whether a request was seen before; it has been from now on. -/
def markSeen (c : PastRequestCache) (request : String) (nowSecs : ℕ) : PastRequestCache × Bool :=
  let c := c.age nowSecs
  if c.entries.contains request then (c, true)
  else ({ c with entries := c.entries.insert request nowSecs }, false)

/-- The request is in the cache. -/
def Seen (c : PastRequestCache) (request : String) : Prop := request ∈ c.entries.keys

/-- All entries are from a period that has begun at `start`. -/
def Since (c : PastRequestCache) (start : ℕ) : Prop :=
  ∀ request firstSeen, c.entries.get? request = some firstSeen → start ≤ firstSeen

section Since

variable {c : PastRequestCache} {start nowSecs : ℕ}

/-- Within one retention time nothing is forgotten. -/
lemma age_eq (h : c.Since start) (hnow : nowSecs < saturatingAdd64 start c.retentionSecs) :
    c.age nowSecs = c := by
  have hentries : (c.age nowSecs).entries = c.entries := by
    refine OrdMap.ext_get? fun request => ?_
    rw [age, OrdMap.get?_retain]
    cases hget : c.entries.get? request with
    | none => rfl
    | some firstSeen =>
        have hle := h request firstSeen hget
        have hkeep : nowSecs < saturatingAdd64 firstSeen c.retentionSecs := by
          simp only [saturatingAdd64] at hnow ⊢
          omega
        simp [Option.filter, hkeep]
  exact congrArg (PastRequestCache.mk c.retentionSecs) hentries

variable (request : String)

/-- **Within one retention period nothing is forgotten.** -/
lemma Since.markSeen (h : c.Since start)
    (hnow : nowSecs < saturatingAdd64 start c.retentionSecs) (hstart : start ≤ nowSecs) :
    ((c.markSeen request nowSecs).2 = true ↔ c.Seen request) ∧
      (∀ r, (c.markSeen request nowSecs).1.Seen r ↔ c.Seen r ∨ r = request) ∧
      (c.markSeen request nowSecs).1.Since start ∧
      (c.markSeen request nowSecs).1.retentionSecs = c.retentionSecs := by
  rw [PastRequestCache.markSeen, age_eq h hnow]
  by_cases hseen : c.Seen request
  · rw [if_pos (OrdMap.contains_eq_true.mpr hseen)]
    refine ⟨iff_of_true rfl hseen, fun r => ⟨Or.inl, ?_⟩, h, rfl⟩
    rintro (hr | rfl)
    · exact hr
    · exact hseen
  · rw [if_neg fun hmem => hseen (OrdMap.contains_eq_true.mp hmem)]
    refine ⟨iff_of_false (by simp) hseen, fun r => ?_, fun r firstSeen hr => ?_, rfl⟩
    · simp only [Seen, OrdMap.mem_keys_insert]
      tauto
    · simp only [OrdMap.get?_insert] at hr
      split_ifs at hr with heq
      · exact Option.some.inj hr ▸ hstart
      · exact h r firstSeen hr

end Since

end PastRequestCache

end RustyTinc
