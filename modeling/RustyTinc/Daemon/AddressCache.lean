import RustyTinc.Core.Subnet
import RustyTinc.Library.Bytes
import RustyTinc.Library.OrdMap
import RustyTinc.Library.Recency

/-!
The files in which a daemon keeps the addresses at which a peer was met.

* `decodeCSockaddrSlot_encodeCSockaddrSlot`: one address, without its flow and its scope;
* `decodeTincAddressCache_encodeTincAddressCache`: a file that is written reads back;
* `readAddressCache_run`: **after any meetings** a file has the latest different addresses.
-/

namespace RustyTinc

namespace AddressCache

open Bytes

/-- So many addresses of a peer are kept. -/
def maxCachedAddresses : ℕ := 8

/-- The version of the format of the files. -/
def addressCacheVersion : ℕ := 1

/-- A socket address with all that it holds. -/
inductive SocketAddr where
  | v4 (ip : Ipv4Addr) (port : UInt16)
  | v6 (ip : Ipv6Addr) (port : UInt16) (flowinfo scopeId : UInt32)
deriving DecidableEq

/-- The address comes first; the last one is dropped when there are too many. -/
def promoteRecentAddress (addresses : List SocketAddr) (address : SocketAddr) : List SocketAddr :=
  if address ∈ addresses then address :: addresses.erase address
  else address ::
    if maxCachedAddresses ≤ addresses.length then addresses.dropLast else addresses

/-- The address comes last, unless it is there already. -/
def pushUniqueSocketAddr (addresses : List SocketAddr) (address : SocketAddr) :
    List SocketAddr :=
  if address ∈ addresses then addresses else addresses ++ [address]

/-! ### The format

The layout of Linux, on a machine that stores the lowest byte first. -/

/-- The number of the family of IPv4 addresses. -/
def afInet : ℕ := 2

/-- The number of the family of IPv6 addresses. -/
def afInet6 : ℕ := 10

/-- The bytes of a file that each address takes. -/
def cSockaddrCacheSlotLen : ℕ := 32

/-- `to_ne_bytes` -/
def nativeBytes (width n : ℕ) : List UInt8 := (bigEndian width n).reverse

@[simp] lemma length_nativeBytes (width n : ℕ) : (nativeBytes width n).length = width := by
  rw [nativeBytes, List.length_reverse, length_bigEndian]

/-- `from_ne_bytes` -/
def ofNativeBytes (bytes : List UInt8) : ℕ := ofBigEndian bytes.reverse

lemma ofNativeBytes_nativeBytes {width n : ℕ} (h : n < 256 ^ width) :
    ofNativeBytes (nativeBytes width n) = n := by
  rw [ofNativeBytes, nativeBytes, List.reverse_reverse, ofBigEndian_bigEndian h]

/-- The fields of `sockaddr_in` and of `sockaddr_in6`, in their order. -/
def cSockaddr : SocketAddr → List UInt8
  | .v4 ip port => nativeBytes 2 afInet ++ bigEndian 2 port.toNat ++ ip.toList
  | .v6 ip port flowinfo scopeId =>
      nativeBytes 2 afInet6 ++ bigEndian 2 port.toNat ++ nativeBytes 4 flowinfo.toNat ++
        ip.toList ++ nativeBytes 4 scopeId.toNat

/-- The bytes of an address, filled up with zeros. -/
def encodeCSockaddrSlot (address : SocketAddr) : List UInt8 :=
  cSockaddr address ++ List.replicate (cSockaddrCacheSlotLen - (cSockaddr address).length) 0

/-- The address in some bytes, when its family is known. -/
def decodeCSockaddrSlot (bytes : List UInt8) : Option SocketAddr :=
  if bytes.length < cSockaddrCacheSlotLen then none
  else
    let family := ofNativeBytes (bytes.take 2)
    let port := UInt16.ofNat (ofBigEndian (slice bytes 2 2))
    if family = afInet then some (.v4 (array 4 (bytes.drop 4)) port)
    else if family = afInet6 then some (.v6 (array 16 (bytes.drop 8)) port 0 0)
    else none

/-- The length of a file. -/
def tincAddressCacheLen : ℕ := 8 + maxCachedAddresses * cSockaddrCacheSlotLen

/-- The bytes of a file: the version, the count and the addresses. -/
def encodeTincAddressCache (addresses : List SocketAddr) : List UInt8 :=
  let bytes := nativeBytes 4 addressCacheVersion ++
    nativeBytes 4 (min addresses.length maxCachedAddresses) ++
    (addresses.take maxCachedAddresses).flatMap encodeCSockaddrSlot
  bytes ++ List.replicate (tincAddressCacheLen - bytes.length) 0

/-- The slot at an index is read behind those before it. -/
def readSlot (bytes : List UInt8) (addresses : List SocketAddr) (index : ℕ) : List SocketAddr :=
  match decodeCSockaddrSlot
      (slice bytes (8 + index * cSockaddrCacheSlotLen) cSockaddrCacheSlotLen) with
  | some address => pushUniqueSocketAddr addresses address
  | none => addresses

/-- The addresses in a file, which are none when it is too short or of another version. -/
def decodeTincAddressCache (bytes : List UInt8) : List SocketAddr :=
  if bytes.length < tincAddressCacheLen then []
  else
    let version := ofNativeBytes (slice bytes 0 4)
    let used := ofNativeBytes (slice bytes 4 4)
    if version ≠ addressCacheVersion ∨ maxCachedAddresses < used then []
    else (List.range used).foldl (readSlot bytes) []

/-! ### The files -/

/-- The files of the cache, one for each peer. -/
abbrev CacheFiles := OrdMap String (List UInt8)

/-- The addresses in the file of a peer. -/
def readAddressCache (files : CacheFiles) (peer : String) : List SocketAddr :=
  match files.get? peer with
  | none => []
  | some bytes => decodeTincAddressCache bytes

/-- The file of the peer after a meeting, as `add_recent_meta_address_like_tinc` writes it. -/
def addRecentMetaAddress (files : CacheFiles) (peer : String) (address : SocketAddr) :
    CacheFiles :=
  files.insert peer
    (encodeTincAddressCache (promoteRecentAddress (readAddressCache files peer) address))

/-! ### One slot -/

/-- What is kept of an address. -/
def SocketAddr.stored : SocketAddr → SocketAddr
  | .v4 ip port => .v4 ip port
  | .v6 ip port _ _ => .v6 ip port 0 0

lemma length_cSockaddr_le (address : SocketAddr) :
    (cSockaddr address).length ≤ cSockaddrCacheSlotLen := by
  cases address <;> simp [cSockaddr, cSockaddrCacheSlotLen]

lemma length_encodeCSockaddrSlot (address : SocketAddr) :
    (encodeCSockaddrSlot address).length = cSockaddrCacheSlotLen := by
  have hle := length_cSockaddr_le address
  rw [encodeCSockaddrSlot, List.length_append, List.length_replicate]
  omega

lemma ofBigEndian_port (port : UInt16) :
    UInt16.ofNat (ofBigEndian (bigEndian 2 port.toNat)) = port := by
  rw [ofBigEndian_bigEndian port.toNat_lt, UInt16.ofNat_toNat]

/-- **An address reads back**, without its flow and its scope. -/
lemma decodeCSockaddrSlot_encodeCSockaddrSlot (address : SocketAddr) :
    decodeCSockaddrSlot (encodeCSockaddrSlot address) = some address.stored := by
  rw [decodeCSockaddrSlot, length_encodeCSockaddrSlot, if_neg (lt_irrefl _)]
  cases address with
  | v4 ip port =>
      have hslot : ∃ rest, encodeCSockaddrSlot (.v4 ip port) =
          nativeBytes 2 afInet ++ bigEndian 2 port.toNat ++ (ip.toList ++ rest) :=
        ⟨_, by rw [encodeCSockaddrSlot, cSockaddr, List.append_assoc _ ip.toList]⟩
      obtain ⟨rest, hslot⟩ := hslot
      have hport : slice (encodeCSockaddrSlot (.v4 ip port)) 2 2 = bigEndian 2 port.toNat := by
        have hmid := slice_append (nativeBytes 2 afInet) (bigEndian 2 port.toNat)
          (ip.toList ++ rest)
        rwa [length_bigEndian, ← hslot] at hmid
      have hip : array 4 ((encodeCSockaddrSlot (.v4 ip port)).drop 4) = ip := by
        have hlen : (nativeBytes 2 afInet ++ bigEndian 2 port.toNat).length = 4 := by simp
        rw [hslot, List.drop_left' hlen, array_append]
      have hfamily : ofNativeBytes ((encodeCSockaddrSlot (.v4 ip port)).take 2) = afInet := by
        rw [hslot, List.append_assoc]
        rfl
      dsimp only
      rw [hfamily, if_pos rfl, hport, hip, ofBigEndian_port]
      rfl
  | v6 ip port flowinfo scopeId =>
      have hslot : ∃ rest, encodeCSockaddrSlot (.v6 ip port flowinfo scopeId) =
          nativeBytes 2 afInet6 ++ bigEndian 2 port.toNat ++
            (nativeBytes 4 flowinfo.toNat ++ (ip.toList ++ rest)) :=
        ⟨_, by
          rw [encodeCSockaddrSlot, cSockaddr, List.append_assoc _ (nativeBytes 4 scopeId.toNat),
            List.append_assoc _ ip.toList, List.append_assoc _ (nativeBytes 4 flowinfo.toNat)]⟩
      obtain ⟨rest, hslot⟩ := hslot
      have hport : slice (encodeCSockaddrSlot (.v6 ip port flowinfo scopeId)) 2 2 =
          bigEndian 2 port.toNat := by
        have hmid := slice_append (nativeBytes 2 afInet6) (bigEndian 2 port.toNat)
          (nativeBytes 4 flowinfo.toNat ++ (ip.toList ++ rest))
        rwa [length_bigEndian, ← hslot] at hmid
      have hip : array 16 ((encodeCSockaddrSlot (.v6 ip port flowinfo scopeId)).drop 8) = ip := by
        have hlen : (nativeBytes 2 afInet6 ++ bigEndian 2 port.toNat ++
            nativeBytes 4 flowinfo.toNat).length = 8 := by simp
        rw [hslot, ← List.append_assoc, List.drop_left' hlen, array_append]
      have hfamily : ofNativeBytes
          ((encodeCSockaddrSlot (.v6 ip port flowinfo scopeId)).take 2) = afInet6 := by
        rw [hslot, List.append_assoc]
        rfl
      dsimp only
      rw [hfamily, if_neg (by decide), if_pos rfl, hport, hip, ofBigEndian_port]
      rfl

/-! ### One file -/

section Blocks

variable {α : Type} {f : α → List UInt8} {width : ℕ}

lemma length_blocks (hf : ∀ a, (f a).length = width) (l : List α) :
    (l.flatMap f).length = l.length * width := by
  rw [List.length_flatMap, List.map_congr_left fun a _ => hf a, List.map_const',
    List.sum_replicate, smul_eq_mul]

/-- A block of a fixed width is found at a multiple of the width. -/
lemma slice_blocks (hf : ∀ a, (f a).length = width) {l : List α} (before after : List UInt8)
    {i : ℕ} (hi : i < l.length) :
    slice (before ++ l.flatMap f ++ after) (before.length + i * width) width = f l[i] := by
  have hsplit : l.flatMap f =
      (l.take i).flatMap f ++ (f l[i] ++ (l.drop (i + 1)).flatMap f) := by
    rw [← List.flatMap_cons, ← List.flatMap_append, List.getElem_cons_drop,
      List.take_append_drop]
  have hstart : (before ++ (l.take i).flatMap f).length = before.length + i * width := by
    rw [List.length_append, length_blocks hf, List.length_take, min_eq_left hi.le]
  have hbytes : before ++ l.flatMap f ++ after =
      before ++ (l.take i).flatMap f ++ f l[i] ++ ((l.drop (i + 1)).flatMap f ++ after) := by
    rw [hsplit]
    simp only [List.append_assoc]
  have hmid := slice_append (before ++ (l.take i).flatMap f) (f l[i])
    ((l.drop (i + 1)).flatMap f ++ after)
  rwa [hstart, hf, ← hbytes] at hmid

end Blocks

/-- The slots that are read give the addresses that they hold. -/
lemma foldl_readSlot {bytes : List UInt8} {addresses : List SocketAddr} (hnodup : addresses.Nodup)
    (hslot : ∀ i (hi : i < addresses.length), decodeCSockaddrSlot
      (slice bytes (8 + i * cSockaddrCacheSlotLen) cSockaddrCacheSlotLen) = some addresses[i])
    {n : ℕ} (hn : n ≤ addresses.length) :
    (List.range n).foldl (readSlot bytes) [] = addresses.take n := by
  induction n with
  | zero => rfl
  | succ n ih =>
      rw [List.range_succ, List.foldl_append, ih (by omega), List.foldl_cons, List.foldl_nil,
        readSlot, hslot n (by omega)]
      have hnew : addresses[n] ∉ addresses.take n := by
        intro hmem
        obtain ⟨i, hi, heq⟩ := List.getElem_of_mem hmem
        rw [List.getElem_take] at heq
        have hlt : i < n := by
          rw [List.length_take] at hi
          omega
        exact absurd ((hnodup.getElem_inj_iff).mp heq) (by omega)
      show pushUniqueSocketAddr _ _ = _
      rw [pushUniqueSocketAddr, if_neg hnew, List.take_append_getElem]

/-- **A file reads back.** -/
lemma decodeTincAddressCache_encodeTincAddressCache {addresses : List SocketAddr}
    (hnodup : addresses.Nodup) (hlength : addresses.length ≤ maxCachedAddresses)
    (hstored : ∀ address ∈ addresses, address.stored = address) :
    decodeTincAddressCache (encodeTincAddressCache addresses) = addresses := by
  have hfile : ∃ rest, encodeTincAddressCache addresses =
      nativeBytes 4 addressCacheVersion ++ nativeBytes 4 addresses.length ++
        addresses.flatMap encodeCSockaddrSlot ++ rest :=
    ⟨_, by rw [encodeTincAddressCache, min_eq_left hlength, List.take_of_length_le hlength]⟩
  have hlen : (encodeTincAddressCache addresses).length = tincAddressCacheLen := by
    have hle : (nativeBytes 4 addressCacheVersion ++ nativeBytes 4 addresses.length ++
        addresses.flatMap encodeCSockaddrSlot).length ≤ tincAddressCacheLen := by
      rw [List.length_append, List.length_append, length_blocks length_encodeCSockaddrSlot,
        length_nativeBytes, length_nativeBytes, tincAddressCacheLen]
      exact Nat.add_le_add_left (Nat.mul_le_mul_right _ hlength) 8
    rw [encodeTincAddressCache, min_eq_left hlength, List.take_of_length_le hlength]
    rw [List.length_append, List.length_replicate]
    omega
  obtain ⟨rest, hfile⟩ := hfile
  have hversion : ofNativeBytes (slice (encodeTincAddressCache addresses) 0 4) =
      addressCacheVersion := by
    rw [hfile, List.append_assoc, List.append_assoc]
    rfl
  have hused : ofNativeBytes (slice (encodeTincAddressCache addresses) 4 4) =
      addresses.length := by
    have hmid := slice_append (nativeBytes 4 addressCacheVersion) (nativeBytes 4 addresses.length)
      (addresses.flatMap encodeCSockaddrSlot ++ rest)
    rw [length_nativeBytes, length_nativeBytes, ← List.append_assoc, ← hfile] at hmid
    have hfits : addresses.length < 256 ^ 4 := lt_of_le_of_lt hlength (by decide)
    exact (congrArg ofNativeBytes hmid).trans (ofNativeBytes_nativeBytes hfits)
  have hread : ∀ i (hi : i < addresses.length), decodeCSockaddrSlot
      (slice (encodeTincAddressCache addresses) (8 + i * cSockaddrCacheSlotLen)
        cSockaddrCacheSlotLen) = some addresses[i] := by
    intro i hi
    have hslice := slice_blocks length_encodeCSockaddrSlot
      (nativeBytes 4 addressCacheVersion ++ nativeBytes 4 addresses.length) rest hi
    have hheader : (nativeBytes 4 addressCacheVersion ++
        nativeBytes 4 addresses.length).length = 8 := by simp
    rw [hheader, ← hfile] at hslice
    rw [hslice, decodeCSockaddrSlot_encodeCSockaddrSlot, hstored _ (List.getElem_mem hi)]
  rw [decodeTincAddressCache, hlen, if_neg (lt_irrefl _), hversion, hused]
  dsimp only
  rw [if_neg (by simpa using hlength), foldl_readSlot hnodup hread le_rfl, List.take_length]

/-! ### Runs -/

/-- Different addresses that a file has room for, as it keeps them. -/
structure Sound (addresses : List SocketAddr) : Prop where
  nodup : addresses.Nodup
  length : addresses.length ≤ maxCachedAddresses
  stored : ∀ address ∈ addresses, address.stored = address

lemma sound_nil : Sound [] := ⟨List.nodup_nil, Nat.zero_le _, by simp⟩

lemma stored_of_decodeCSockaddrSlot {bytes : List UInt8} {address : SocketAddr}
    (h : decodeCSockaddrSlot bytes = some address) : address.stored = address := by
  unfold decodeCSockaddrSlot at h
  dsimp only at h
  split_ifs at h
  · cases h
    rfl
  · cases h
    rfl

lemma readSlot_eq (bytes : List UInt8) (addresses : List SocketAddr) (index : ℕ) :
    readSlot bytes addresses index = addresses ∨ ∃ address, address.stored = address ∧
      address ∉ addresses ∧ readSlot bytes addresses index = addresses ++ [address] := by
  rw [readSlot]
  cases hslot : decodeCSockaddrSlot
      (slice bytes (8 + index * cSockaddrCacheSlotLen) cSockaddrCacheSlotLen) with
  | none => exact .inl rfl
  | some address =>
      by_cases hmem : address ∈ addresses
      · exact .inl (if_pos hmem)
      · exact .inr ⟨address, stored_of_decodeCSockaddrSlot hslot, hmem, if_neg hmem⟩

/-- **Any file** reads as different addresses, whoever wrote it. -/
lemma sound_decodeTincAddressCache (bytes : List UInt8) : Sound (decodeTincAddressCache bytes) := by
  have hslots : ∀ n, ((List.range n).foldl (readSlot bytes) []).Nodup ∧
      ((List.range n).foldl (readSlot bytes) []).length ≤ n ∧
      ∀ address ∈ (List.range n).foldl (readSlot bytes) [], address.stored = address := by
    intro n
    induction n with
    | zero => exact ⟨List.nodup_nil, le_rfl, by simp⟩
    | succ n ih =>
        obtain ⟨hnodup, hlength, hstored⟩ := ih
        rw [List.range_succ, List.foldl_append, List.foldl_cons, List.foldl_nil]
        rcases readSlot_eq bytes ((List.range n).foldl (readSlot bytes) []) n with
          heq | ⟨address, hself, hnew, heq⟩
        · rw [heq]
          exact ⟨hnodup, hlength.trans n.le_succ, hstored⟩
        · rw [heq]
          refine ⟨List.nodup_append.mpr ⟨hnodup, List.nodup_singleton _, ?_⟩, ?_, ?_⟩
          · intro a ha b hb heq
            rw [List.mem_singleton.mp hb] at heq
            exact hnew (heq ▸ ha)
          · rw [List.length_append, List.length_singleton]
            omega
          · intro a ha
            rcases List.mem_append.mp ha with ha | ha
            · exact hstored a ha
            · exact List.mem_singleton.mp ha ▸ hself
  unfold decodeTincAddressCache
  dsimp only
  split_ifs with hshort hrefused
  · exact sound_nil
  · exact sound_nil
  · obtain ⟨hnodup, hlength, hstored⟩ := hslots (ofNativeBytes (slice bytes 4 4))
    exact ⟨hnodup, hlength.trans (not_lt.mp fun h => hrefused (.inr h)), hstored⟩

lemma sound_readAddressCache (files : CacheFiles) (peer : String) :
    Sound (readAddressCache files peer) := by
  rw [readAddressCache]
  cases files.get? peer with
  | none => exact sound_nil
  | some bytes => exact sound_decodeTincAddressCache bytes

/-- A meeting is a use of the address. -/
lemma Sound.promoteRecentAddress_eq {addresses : List SocketAddr} (h : Sound addresses)
    (address : SocketAddr) : promoteRecentAddress addresses address =
      Recency.latest maxCachedAddresses (addresses.reverse ++ [address]) := by
  have huse := Recency.touch_latest (by decide : 0 < maxCachedAddresses) addresses.reverse address
  rw [Recency.latest_reverse h.nodup h.length] at huse
  exact huse

lemma Sound.promote {addresses : List SocketAddr} (h : Sound addresses) {address : SocketAddr}
    (hself : address.stored = address) : Sound (promoteRecentAddress addresses address) := by
  rw [h.promoteRecentAddress_eq]
  refine ⟨Recency.nodup_latest _ _, Recency.length_latest_le _ _, fun a ha => ?_⟩
  rcases List.mem_append.mp (Recency.mem_of_mem_latest ha) with ha | ha
  · exact h.stored a (List.mem_reverse.mp ha)
  · exact List.mem_singleton.mp ha ▸ hself

/-- **One meeting.** -/
lemma readAddressCache_addRecentMetaAddress (files : CacheFiles) (peer : String)
    {address : SocketAddr} (hself : address.stored = address) (other : String) :
    readAddressCache (addRecentMetaAddress files peer address) other =
      if other = peer then promoteRecentAddress (readAddressCache files peer) address
      else readAddressCache files other := by
  have hsound := (sound_readAddressCache files peer).promote hself
  rw [readAddressCache, addRecentMetaAddress, OrdMap.get?_insert]
  split_ifs with heq
  · exact decodeTincAddressCache_encodeTincAddressCache hsound.nodup hsound.length hsound.stored
  · rfl

/-- The files after some meetings; the daemon may have been started again between any two. -/
def run (files : CacheFiles) (meetings : List (String × SocketAddr)) : CacheFiles :=
  meetings.foldl (fun files meeting => addRecentMetaAddress files meeting.1 meeting.2) files

/-- **The latest addresses.** Whatever the files are at the start, after any meetings the file of
each peer reads as the latest different ones among the addresses that it had and those at which
this peer was met, as many as there is room for, the last one first. -/
theorem readAddressCache_run (files : CacheFiles) {meetings : List (String × SocketAddr)}
    (hself : ∀ meeting ∈ meetings, meeting.2.stored = meeting.2) (peer : String) :
    readAddressCache (run files meetings) peer =
      Recency.latest maxCachedAddresses ((readAddressCache files peer).reverse ++
        (meetings.filter (·.1 = peer)).map Prod.snd) := by
  induction meetings using List.reverseRecOn with
  | nil =>
      have hsound := sound_readAddressCache files peer
      rw [List.filter_nil, List.map_nil, List.append_nil,
        Recency.latest_reverse hsound.nodup hsound.length]
      rfl
  | append_singleton meetings meeting ih =>
      have hlast := hself meeting (List.mem_append_right _ List.mem_cons_self)
      have hread := ih fun m hm => hself m (List.mem_append_left _ hm)
      rw [run, List.foldl_append, List.foldl_cons, List.foldl_nil,
        readAddressCache_addRecentMetaAddress _ _ hlast, List.filter_append]
      split_ifs with heq
      · subst heq
        rw [List.filter_cons_of_pos (by simp), List.filter_nil, List.map_append,
          ← List.append_assoc]
        exact (congrArg (promoteRecentAddress · meeting.2) hread).trans
          (Recency.touch_latest (by decide) _ _)
      · rw [List.filter_cons_of_neg (by simpa using Ne.symm heq), List.filter_nil,
          List.append_nil]
        exact hread

/-- A peer that is met at one address, at another one and at the first one again. -/
def meetings : List (String × SocketAddr) :=
  [("beta", .v4 (array 4 [10, 0, 0, 1]) 655), ("gamma", .v4 (array 4 [10, 0, 0, 3]) 655),
    ("beta", .v4 (array 4 [10, 0, 0, 2]) 655), ("beta", .v4 (array 4 [10, 0, 0, 1]) 655)]

theorem readAddressCache_run_beta : readAddressCache (run .empty meetings) "beta" =
    [.v4 (array 4 [10, 0, 0, 1]) 655, .v4 (array 4 [10, 0, 0, 2]) 655] := by
  rw [readAddressCache_run .empty (by decide +kernel) "beta"]
  decide +kernel

end AddressCache

end RustyTinc
