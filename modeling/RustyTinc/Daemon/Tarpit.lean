import RustyTinc.Core.Subnet
import RustyTinc.Library.LeakyBucket

/-!
How a daemon limits the rate of incoming connections: those that come too fast are tarpitted.

* `shouldTarpitMetaConnection`: one connection;
* `admits_log`: the connections are the events at a leaky bucket, that of all hosts; those that
  are held back because their host comes again and again pass it by;
* `log_spaced`: connections a second apart are let in.
-/

namespace RustyTinc

/-- An address of one of the two families. -/
inductive IpAddr where
  | v4 (address : Ipv4Addr)
  | v6 (address : Ipv6Addr)
deriving DecidableEq

/-- The address is one of the host itself. -/
def IpAddr.isLoopback : IpAddr → Bool
  | v4 address => address.toList.head? = some 127
  | v6 address => address.toList = List.replicate 15 0 ++ [1]

/-- An address with a port. -/
structure SocketAddr where
  ip : IpAddr
  port : UInt16
deriving DecidableEq

/-- The connection comes from the host itself. -/
def isLocalConnection (peer : SocketAddr) : Bool := peer.ip.isLoopback

/-- The nanoseconds of a second: instants are given in nanoseconds. -/
def nanosPerSec : ℕ := 10 ^ 9

/-- The connections of the last seconds; each second takes one away. -/
structure ConnectionBurstCounter where
  burst : ℕ
  lastUpdate : ℕ

namespace ConnectionBurstCounter

/-- No connections yet. -/
def new (now : ℕ) : ConnectionBurstCounter := ⟨0, now⟩

/-- The counter after the increment, whose burst is the result as well. The sum is one of 64-bit
numbers. -/
def increment (c : ConnectionBurstCounter) (now : ℕ) : ConnectionBurstCounter :=
  let elapsed := (now - c.lastUpdate) / nanosPerSec
  let burst := if c.burst < elapsed then 0 else c.burst - elapsed
  ⟨(burst + 1) % 2 ^ 64, now⟩

/-- The counter does not go above the limit. -/
def cap (c : ConnectionBurstCounter) (maximum : ℕ) : ConnectionBurstCounter :=
  { c with burst := maximum }

/-- The counter as a bucket. -/
def bucket (c : ConnectionBurstCounter) : LeakyBucket := ⟨c.burst, c.lastUpdate⟩

end ConnectionBurstCounter

/-- The part of the state of a daemon that is about incoming connections. The limit is a positive
number of 32 bits. -/
structure TarpitState where
  maxConnectionBurst : Fin (2 ^ 31)
  connectionBurst : ConnectionBurstCounter
  samehostBurst : ConnectionBurstCounter
  previousTarpitPeer : Option IpAddr

namespace TarpitState

/-- The state at the start; the two counters read the clock one after the other. -/
def new (maxConnectionBurst : Fin (2 ^ 31)) (now now' : ℕ) : TarpitState :=
  ⟨maxConnectionBurst, .new now, .new now', none⟩

/-- The end of `should_tarpit_meta_connection`, for a host that does not come too often. -/
def tarpitAll (s : TarpitState) (now : ℕ) : Bool × TarpitState :=
  let connectionBurst := s.connectionBurst.increment now
  if s.maxConnectionBurst.val ≤ connectionBurst.burst then
    (true, { s with connectionBurst := connectionBurst.cap s.maxConnectionBurst })
  else (false, { s with connectionBurst })

/-- Whether a new connection is held up, because its host or all hosts together connect too
often. -/
def shouldTarpitMetaConnection (s : TarpitState) (peer : SocketAddr) (now : ℕ) :
    Bool × TarpitState :=
  if isLocalConnection peer then (false, s)
  else if s.previousTarpitPeer = some peer.ip then
    let s := { s with samehostBurst := s.samehostBurst.increment now }
    if s.maxConnectionBurst.val < s.samehostBurst.burst then (true, s)
    else { s with previousTarpitPeer := some peer.ip }.tarpitAll now
  else { s with previousTarpitPeer := some peer.ip }.tarpitAll now

/-- Of a sequence of connections those that are not local: when they came, and whether they were
let in. -/
def log : TarpitState → List (SocketAddr × ℕ) → List (ℕ × Bool)
  | _, [] => []
  | s, (peer, now) :: arrivals =>
      let (tarpitted, s') := s.shouldTarpitMetaConnection peer now
      (if isLocalConnection peer then [] else [(now, !tarpitted)]) ++ s'.log arrivals

/-! ### The counters -/

variable {c : ConnectionBurstCounter} {s : TarpitState} {peer : SocketAddr} {now : ℕ}
  {arrivals : List (SocketAddr × ℕ)}

/-- A counter that is far from the end of its range counts as the bucket does. -/
lemma increment_burst (h : c.burst < 2 ^ 63) :
    (c.increment now).burst = c.bucket.fill nanosPerSec now := by
  have hdrain : (if c.burst < (now - c.lastUpdate) / nanosPerSec then 0
      else c.burst - (now - c.lastUpdate) / nanosPerSec) =
        c.burst - (now - c.lastUpdate) / nanosPerSec := by
    split_ifs with hlt
    · exact (Nat.sub_eq_zero_of_le hlt.le).symm
    · rfl
  show (_ + 1) % 2 ^ 64 = c.burst - (now - c.lastUpdate) / nanosPerSec + 1
  rw [hdrain]
  exact Nat.mod_eq_of_lt (by have := Nat.sub_le c.burst ((now - c.lastUpdate) / nanosPerSec); omega)

/-- **What a connection does.** -/
inductive Judged (s : TarpitState) (peer : SocketAddr) (now : ℕ) : Bool → TarpitState → Prop
  /-- It is local. -/
  | loopback (hlocal : isLocalConnection peer = true) : Judged s peer now false s
  /-- Its host comes again too often. -/
  | held {s' : TarpitState} (hlocal : isLocalConnection peer = false)
      (hmany : s.maxConnectionBurst.val < (s.samehostBurst.increment now).burst)
      (hmax : s'.maxConnectionBurst = s.maxConnectionBurst)
      (hall : s'.connectionBurst = s.connectionBurst) : Judged s peer now true s'
  /-- All hosts together come too often. -/
  | full {s' : TarpitState} (hlocal : isLocalConnection peer = false)
      (hfull : s.maxConnectionBurst.val ≤ (s.connectionBurst.increment now).burst)
      (hmax : s'.maxConnectionBurst = s.maxConnectionBurst)
      (hall : s'.connectionBurst = ⟨s.maxConnectionBurst.val, now⟩) : Judged s peer now true s'
  /-- It is let in. -/
  | passed {s' : TarpitState} (hlocal : isLocalConnection peer = false)
      (hroom : (s.connectionBurst.increment now).burst < s.maxConnectionBurst.val)
      (hmax : s'.maxConnectionBurst = s.maxConnectionBurst)
      (hall : s'.connectionBurst = s.connectionBurst.increment now)
      (hsame : s'.samehostBurst = s.samehostBurst ∨
        s'.samehostBurst = s.samehostBurst.increment now) : Judged s peer now false s'

lemma judged_tarpitAll {s' : TarpitState} (hlocal : isLocalConnection peer = false)
    (hmax : s'.maxConnectionBurst = s.maxConnectionBurst)
    (hall : s'.connectionBurst = s.connectionBurst)
    (hsame : s'.samehostBurst = s.samehostBurst ∨
      s'.samehostBurst = s.samehostBurst.increment now) :
    Judged s peer now (s'.tarpitAll now).1 (s'.tarpitAll now).2 := by
  rw [tarpitAll, hall, hmax]
  split_ifs with hfull
  · exact .full hlocal hfull rfl rfl
  · exact .passed hlocal (not_le.mp hfull) rfl rfl hsame

/-- The function judges every connection as it should. -/
lemma judged (s : TarpitState) (peer : SocketAddr) (now : ℕ) :
    Judged s peer now (s.shouldTarpitMetaConnection peer now).1
      (s.shouldTarpitMetaConnection peer now).2 := by
  rw [shouldTarpitMetaConnection]
  by_cases hlocal : isLocalConnection peer = true
  · rw [if_pos hlocal]
    exact .loopback hlocal
  · have hremote := Bool.eq_false_of_not_eq_true hlocal
    rw [if_neg hlocal]
    by_cases hprevious : s.previousTarpitPeer = some peer.ip
    · rw [if_pos hprevious]
      simp only
      by_cases hmany : s.maxConnectionBurst.val < (s.samehostBurst.increment now).burst
      · rw [if_pos hmany]
        exact .held hremote hmany rfl rfl
      · rw [if_neg hmany]
        exact judged_tarpitAll hremote rfl rfl (Or.inr rfl)
    · rw [if_neg hprevious]
      exact judged_tarpitAll hremote rfl rfl (Or.inl rfl)

lemma log_cons (s : TarpitState) (peer : SocketAddr) (now : ℕ) :
    s.log ((peer, now) :: arrivals) =
      (if isLocalConnection peer then []
        else [(now, !(s.shouldTarpitMetaConnection peer now).1)]) ++
        (s.shouldTarpitMetaConnection peer now).2.log arrivals := rfl

/-- **The connections are events at the bucket of all hosts.** -/
lemma admits_log (h : s.connectionBurst.burst ≤ s.maxConnectionBurst) :
    LeakyBucket.Admits nanosPerSec s.maxConnectionBurst s.connectionBurst.bucket
      (s.log arrivals) := by
  induction arrivals generalizing s with
  | nil => exact .nil
  | cons arrival arrivals ih =>
      obtain ⟨peer, now⟩ := arrival
      have hjudged := s.judged peer now
      rw [log_cons]
      generalize (s.shouldTarpitMetaConnection peer now).1 = tarpitted at hjudged ⊢
      generalize (s.shouldTarpitMetaConnection peer now).2 = s' at hjudged ⊢
      have hmax := s.maxConnectionBurst.isLt
      have hburst := @increment_burst s.connectionBurst now (by omega)
      cases hjudged with
      | loopback hlocal =>
          rw [hlocal]
          exact ih h
      | held hlocal _ hmax hall =>
          have hrest := @ih s' (by rwa [hmax, hall])
          rw [hmax, hall] at hrest
          rw [hlocal]
          exact .skip hrest
      | full hlocal hfull hmax hall =>
          have hrest := @ih s' (by rw [hmax, hall])
          rw [hmax, hall] at hrest
          rw [hlocal]
          exact .refuse (hburst ▸ hfull) hrest
      | passed hlocal hroom hmax hall _ =>
          have hrest := @ih s' (by rw [hmax, hall]; exact hroom.le)
          rw [hmax, hall] at hrest
          rw [hlocal]
          refine .admitted (hburst ▸ hroom) ?_
          rw [← hburst]
          exact hrest

/-- A counter that holds nothing, or one since a second before `now`. -/
def Rested (c : ConnectionBurstCounter) (now : ℕ) : Prop :=
  c.burst ≤ 1 ∧ (c.burst = 0 ∨ c.lastUpdate + nanosPerSec ≤ now)

lemma Rested.increment (h : Rested c now) : (c.increment now).burst = 1 := by
  rw [increment_burst (lt_of_le_of_lt h.1 (by decide))]
  exact LeakyBucket.fill_eq_one (by decide) h.1 h.2

lemma Rested.later {now' : ℕ} (h : Rested c now) (hle : now + nanosPerSec ≤ now') :
    Rested c now' := ⟨h.1, h.2.imp_right fun hlast => by omega⟩

lemma Rested.increment_later {now' : ℕ} (h : Rested c now) (hle : now + nanosPerSec ≤ now') :
    Rested (c.increment now) now' := ⟨h.increment.le, Or.inr hle⟩

/-- **Connections a second apart are let in.** -/
lemma log_spaced (hmax : 2 ≤ s.maxConnectionBurst.val)
    (hrested : ∀ e ∈ s.log arrivals, Rested s.connectionBurst e.1 ∧ Rested s.samehostBurst e.1)
    (hspaced : ((s.log arrivals).map Prod.fst).Pairwise fun t t' => t + nanosPerSec ≤ t') :
    ∀ e ∈ s.log arrivals, e.2 = true := by
  induction arrivals generalizing s with
  | nil => exact fun e he => absurd he List.not_mem_nil
  | cons arrival arrivals ih =>
      obtain ⟨peer, now⟩ := arrival
      have hjudged := s.judged peer now
      rw [log_cons] at hrested hspaced ⊢
      generalize (s.shouldTarpitMetaConnection peer now).1 = tarpitted at *
      generalize (s.shouldTarpitMetaConnection peer now).2 = s' at *
      cases hjudged with
      | loopback hlocal =>
          rw [hlocal] at hrested hspaced ⊢
          exact ih hmax hrested hspaced
      | held hlocal hmany _ _ =>
          rw [hlocal] at hrested
          have hone := (hrested _ List.mem_cons_self).2.increment
          simp only at hone
          omega
      | full hlocal hfull _ _ =>
          rw [hlocal] at hrested
          have hone := (hrested _ List.mem_cons_self).1.increment
          simp only at hone
          omega
      | passed hlocal _ hmax' hall hsame =>
          rw [hlocal] at hrested hspaced ⊢
          obtain ⟨hfirst, hspaced⟩ := List.pairwise_cons.mp hspaced
          obtain ⟨hconnection, hsamehost⟩ := hrested _ List.mem_cons_self
          refine List.forall_mem_cons.mpr
            ⟨rfl, ih (hmax' ▸ hmax) (fun e he => ?_) hspaced⟩
          have hlater := hfirst e.1 (List.mem_map_of_mem he)
          rw [hall]
          refine ⟨hconnection.increment_later hlater, ?_⟩
          rcases hsame with hsame | hsame
          · rw [hsame]
            exact (hrested e (List.mem_cons_of_mem _ he)).2
          · rw [hsame]
            exact hsamehost.increment_later hlater

/-- The connections that are not local come when they come. -/
lemma sublist_log : ((s.log arrivals).map Prod.fst).Sublist (arrivals.map Prod.snd) := by
  induction arrivals generalizing s with
  | nil => exact List.nil_sublist _
  | cons arrival arrivals ih =>
      obtain ⟨peer, now⟩ := arrival
      rw [log]
      split_ifs
      · exact ih.cons _
      · exact ih.cons_cons _

/-- **The rate of the connections that are let in is limited**: in `L` whole seconds they are at
most `max_connection_burst + L`; and when that is at least 2, all connections that are a second
apart are let in. -/
theorem connections_limited (maxConnectionBurst : Fin (2 ^ 31)) (now now' : ℕ)
    {arrivals : List (SocketAddr × ℕ)} (hmono : (arrivals.map Prod.snd).Pairwise (· ≤ ·)) :
    (∀ start L : ℕ, ((new maxConnectionBurst now now').log arrivals).countP
        (fun e => e.2 && (start ≤ e.1 && e.1 ≤ start + L * nanosPerSec)) ≤
      maxConnectionBurst.val + L) ∧
    (2 ≤ maxConnectionBurst.val →
      (((new maxConnectionBurst now now').log arrivals).map Prod.fst).Pairwise
        (fun t t' => t + nanosPerSec ≤ t') →
      ∀ e ∈ (new maxConnectionBurst now now').log arrivals, e.2 = true) := by
  constructor
  · have hadmits : LeakyBucket.Admits nanosPerSec maxConnectionBurst ⟨0, 0⟩
        ((new maxConnectionBurst now now').log arrivals) :=
      (@admits_log (new maxConnectionBurst now now') arrivals (Nat.zero_le _)).of_empty rfl 0
    have hlog := hmono.sublist (@sublist_log (new maxConnectionBurst now now') arrivals)
    exact hadmits.window (by decide)
      (List.pairwise_cons.mpr ⟨fun t _ => Nat.zero_le t, hlog⟩)
  · intro hmax hspaced
    have hrested : ∀ t t', Rested (.new t) t' := fun t t' => ⟨Nat.zero_le 1, Or.inl rfl⟩
    exact log_spaced hmax (fun e _ => ⟨hrested now e.1, hrested now' e.1⟩) hspaced

/-- Three connections of two hosts, the first two within a second. -/
theorem connections_limited_three :
    let beta : SocketAddr := ⟨.v4 #v[10, 0, 0, 2], 655⟩
    let gamma : SocketAddr := ⟨.v4 #v[10, 0, 0, 3], 655⟩
    (∀ start L : ℕ, ((new 2 0 0).log [(beta, 5), (gamma, 6), (beta, 2000000006)]).countP
        (fun e => e.2 && (start ≤ e.1 && e.1 ≤ start + L * nanosPerSec)) ≤ 2 + L) ∧
      ∀ e ∈ (new 2 0 0).log [(beta, 5), (gamma, 1000000005)], e.2 = true :=
  ⟨(connections_limited 2 0 0 (by decide)).1,
    (connections_limited 2 0 0 (by decide)).2 (by decide) (by decide)⟩

end TarpitState

end RustyTinc
