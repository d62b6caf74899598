import RustyTinc.Daemon.SubnetRelay
import RustyTinc.Library.Gossip

/-!
Daemons in mesh mode that tell each other about their subnets.

* `MeshRun`: the daemons change their own subnets and receive announcements, in any order;
* `MeshInv.change`, `MeshInv.deliver`: for each subnet the changes of its owner spread as a log
  that every daemon reads in order (`Gossip`);
* `MeshRun.agrees_of_settled`: when no daemon changes a subnet while a correction about it is
  on its way, all daemons agree once nothing is in flight;
* `meshRun_disagrees`: without this they need not.
-/

namespace RustyTinc

/-- The daemons of a network and their connections. -/
structure Topology where
  names : List String
  connections : String → List String

namespace Topology

/-- A finite connected graph of connections between daemons with valid names. -/
structure Valid (top : Topology) : Prop where
  checkId : ∀ i ∈ top.names, checkId i = true
  mem : ∀ i, ∀ j ∈ top.connections i, j ∈ top.names
  symm : ∀ i j, j ∈ top.connections i → i ∈ top.connections j
  connected : ∀ i ∈ top.names, ∀ j ∈ top.names,
    Relation.ReflTransGen (fun a b => b ∈ top.connections a) i j

end Topology

/-- The daemons, what is in flight between them, and the announcements of changes and the
corrections that have been sent so far. -/
structure Mesh where
  daemon : String → RuntimeDaemonState
  channel : Channels String SubnetAnnouncement
  announced : List SubnetAnnouncement
  corrections : List SubnetAnnouncement

namespace Mesh

/-- A daemon changes its own subnets. -/
def change (top : Topology) (net : Mesh) (i : String) (request : SubnetRequest)
    (subnet : Subnet) : Option Mesh :=
  ((net.daemon i).changeSubnet request subnet).map fun (d, a) =>
    { net with
      daemon := Function.update net.daemon i d
      channel := net.channel.post i (top.connections i) a.received
      announced := net.announced ++ [a.received] }

/-- What a daemon sends in return for an announcement from a peer. -/
def send (top : Topology) (channel : Channels String SubnetAnnouncement) (j peer : String)
    (out : StepOutput) : Channels String SubnetAnnouncement :=
  let channel := out.responses.foldl (fun channel a => channel.post j [peer] a.received) channel
  out.broadcasts.foldl (fun channel (source, a) =>
    channel.post j ((top.connections j).filter fun b => source ≠ some b) a.received) channel

/-- A daemon receives the oldest announcement from a peer. -/
def deliver (top : Topology) (net : Mesh) (nowSecs : ℕ) (peer j : String)
    (a : SubnetAnnouncement) : Mesh :=
  let (d, out) := (net.daemon j).applyMetaStep nowSecs peer a
  { net with
    daemon := Function.update net.daemon j d
    channel := send top (net.channel.pop peer j) j peer out
    corrections := net.corrections ++ out.responses.map SubnetAnnouncement.received }

/-- The next nonce of a daemon has not been used before. -/
def NonceFresh (net : Mesh) (i : String) : Prop :=
  ∀ a ∈ net.announced ++ net.corrections, a.message.owner = i →
    a.message.nonce ≠ (net.daemon i).nextMetaNonce

/-- No correction of the owner about a subnet is on its way. -/
def Settled (net : Mesh) (k : OwnedSubnet) : Prop :=
  ∀ j, ∀ a ∈ net.channel k.owner j, a.entry = k → a ∉ net.corrections

/-- All daemons hold the same subnets: of each daemon exactly its own ones. -/
def Agrees (top : Topology) (net : Mesh) : Prop :=
  ∀ i ∈ top.names, ∀ k, (net.daemon i).state.subnets.Holds k ↔
    k.owner ∈ top.names ∧ (net.daemon k.owner).state.subnets.Holds k

end Mesh

/-- A daemon at the start: its table and its cache are empty. -/
structure InitialDaemon (retention : ℕ) (name : String) (d : RuntimeDaemonState) : Prop where
  localName_eq : d.localName = name
  subnets_eq : d.state.subnets = .new
  tunnelServer_eq : d.tunnelServer = false
  strictSubnets_eq : d.strictSubnets = false
  pastRequests_eq : d.pastRequests = .new retention

/-- What the daemons can come to within one retention period, when a change of a subnet needs
the permission `may`. -/
inductive MeshRun (top : Topology) (start retention : ℕ) (may : Mesh → OwnedSubnet → Prop) :
    Mesh → Prop
  | start {daemon : String → RuntimeDaemonState}
      (h : ∀ i ∈ top.names, InitialDaemon retention i (daemon i)) :
      MeshRun top start retention may ⟨daemon, fun _ _ => [], [], []⟩
  | change {net net' : Mesh} {i : String} {request : SubnetRequest} {subnet : Subnet}
      (hrun : MeshRun top start retention may net) (hi : i ∈ top.names)
      (hfresh : net.NonceFresh i) (hmay : may net (subnet.entry i))
      (h : net.change top i request subnet = some net') : MeshRun top start retention may net'
  | deliver {net : Mesh} {peer j : String} {a : SubnetAnnouncement}
      {rest : List SubnetAnnouncement} {nowSecs : ℕ}
      (hrun : MeshRun top start retention may net) (h : net.channel peer j = a :: rest)
      (hfresh : net.NonceFresh j) (hstart : start ≤ nowSecs)
      (hnow : nowSecs < saturatingAdd64 start retention) :
      MeshRun top start retention may (net.deliver top nowSecs peer j a)

namespace Mesh

/-! ### The log of a subnet -/

/-- The changes of a subnet, in order. -/
def log (net : Mesh) (k : OwnedSubnet) : List SubnetAnnouncement :=
  net.announced.filter fun a => a.entry = k

/-- An announcement about a subnet, read as an entry of its log or as a correction. -/
def read (net : Mesh) (k : OwnedSubnet) (a : SubnetAnnouncement) : Option (Option ℕ) :=
  if a.entry = k then
    if a ∈ net.corrections then some none else some (some ((net.log k).idxOf a))
  else none

end Mesh

/-- How the log of one subnet spreads: `g` says how much of it each daemon has seen. -/
structure LogInv (top : Topology) (net : Mesh) (k : OwnedSubnet) (g : Gossip String) : Prop where
  inv : g.Inv top.connections k.owner
  length_eq : g.length = (net.log k).length
  view_eq : net.channel.view (net.read k) = g.channel
  held : ∀ i ∈ top.names, (net.daemon i).state.subnets.Holds k ↔ Odd (g.seen i)
  cached : ∀ i ∈ top.names, i ≠ k.owner → ∀ a ∈ net.log k,
    ((net.daemon i).pastRequests.Seen a.display ↔ (net.log k).idxOf a < g.seen i)
  alternate : ∀ a ∈ net.log k, a.request = .addSubnet ↔ Even ((net.log k).idxOf a)
  correction : ∀ i j, ∀ a ∈ net.channel i j, a.entry = k → a ∈ net.corrections →
    (a.request = .addSubnet ↔ Odd g.length)

/-- What holds of the announcements and the corrections that have been sent. -/
structure IssuedInv (top : Topology) (announced corrections : List SubnetAnnouncement) :
    Prop where
  owner_mem : ∀ a ∈ announced ++ corrections, a.message.owner ∈ top.names
  received_eq : ∀ a ∈ announced ++ corrections, a.received = a
  unique : ∀ a ∈ announced ++ corrections, ∀ b ∈ announced ++ corrections,
    a.message.owner = b.message.owner → a.message.nonce = b.message.nonce → a = b
  disjoint : ∀ a ∈ announced, a ∉ corrections
  nodup : announced.Nodup

/-- What holds in every run in which corrections are not overtaken. -/
structure MeshInv (top : Topology) (start retention : ℕ) (net : Mesh) : Prop
    extends IssuedInv top net.announced net.corrections where
  inMesh : ∀ i ∈ top.names, (net.daemon i).InMesh i start retention
  issued : ∀ i j, ∀ a ∈ net.channel i j, a ∈ net.announced ++ net.corrections
  seen : ∀ i ∈ top.names, ∀ r, (net.daemon i).pastRequests.Seen r →
    ∃ a ∈ net.announced ++ net.corrections, a.display = r
  foreign : ∀ i ∈ top.names, ∀ k, k.owner ∉ top.names → ¬ (net.daemon i).state.subnets.Holds k
  log : ∀ k, k.owner ∈ top.names → ∃ g, LogInv top net k g

section Inv

variable {top : Topology} {start retention : ℕ} {net net' : Mesh} {k : OwnedSubnet}
  {g : Gossip String}

lemma Mesh.mem_log {a : SubnetAnnouncement} : a ∈ net.log k ↔ a ∈ net.announced ∧ a.entry = k := by
  rw [log, List.mem_filter, decide_eq_true_iff]

/-- More has been announced and corrected, and nothing of it before. -/
structure Mesh.Extends (net net' : Mesh) (announced corrections : List SubnetAnnouncement) :
    Prop where
  announced_eq : net'.announced = net.announced ++ announced
  corrections_eq : net'.corrections = net.corrections ++ corrections
  fresh : ∀ a ∈ announced ++ corrections, a ∉ net.announced ++ net.corrections

namespace Mesh.Extends

variable {announced corrections : List SubnetAnnouncement}

lemma log_eq (h : net.Extends net' announced corrections) :
    net'.log k = net.log k ++ announced.filter fun a => a.entry = k := by
  rw [Mesh.log, h.announced_eq, List.filter_append]
  rfl

lemma mem_corrections (h : net.Extends net' announced corrections) {a : SubnetAnnouncement}
    (ha : a ∈ net.announced ++ net.corrections) : a ∈ net'.corrections ↔ a ∈ net.corrections := by
  rw [h.corrections_eq, List.mem_append]
  exact ⟨fun hmem => hmem.resolve_right fun hnew =>
    h.fresh a (List.mem_append_right _ hnew) ha, Or.inl⟩

/-- What has been issued reads as before. -/
lemma read_eq (h : net.Extends net' announced corrections) {a : SubnetAnnouncement}
    (ha : a ∈ net.announced ++ net.corrections) : net'.read k a = net.read k a := by
  rw [Mesh.read, Mesh.read, h.log_eq]
  by_cases hentry : a.entry = k
  · rw [if_pos hentry, if_pos hentry]
    by_cases hcorr : a ∈ net.corrections
    · rw [if_pos hcorr, if_pos ((h.mem_corrections ha).mpr hcorr)]
    · have hlog : a ∈ net.log k :=
        Mesh.mem_log.mpr ⟨(List.mem_append.mp ha).resolve_right hcorr, hentry⟩
      rw [if_neg hcorr, if_neg fun hmem => hcorr ((h.mem_corrections ha).mp hmem),
        List.idxOf_append_of_mem hlog]
  · rw [if_neg hentry, if_neg hentry]

lemma view_eq (h : net.Extends net' announced corrections) {c : Channels String SubnetAnnouncement}
    (hissued : ∀ i j, ∀ a ∈ c i j, a ∈ net.announced ++ net.corrections) :
    c.view (net'.read k) = c.view (net.read k) :=
  Channels.view_congr fun i j a ha => h.read_eq (hissued i j a ha)

end Mesh.Extends

lemma Mesh.read_of_entry_ne {a : SubnetAnnouncement} (h : a.entry ≠ k) : net.read k a = none :=
  if_neg h

/-- What is about other subnets leaves the log of a subnet alone. -/
lemma LogInv.frame {announced corrections : List SubnetAnnouncement} (h : LogInv top net k g)
    (hext : net.Extends net' announced corrections)
    (hother : ∀ a ∈ announced, a.entry ≠ k)
    (hview : net'.channel.view (net'.read k) = net.channel.view (net.read k))
    (hheld : ∀ i ∈ top.names,
      (net'.daemon i).state.subnets.Holds k ↔ (net.daemon i).state.subnets.Holds k)
    (hcached : ∀ i ∈ top.names, ∀ a ∈ net.log k, ((net'.daemon i).pastRequests.Seen a.display ↔
      (net.daemon i).pastRequests.Seen a.display))
    (hcorr : ∀ i j, ∀ a ∈ net'.channel i j, a.entry = k → a ∈ net'.corrections →
      a ∈ net.channel i j ∧ a ∈ net.corrections) : LogInv top net' k g := by
  have hlog : net'.log k = net.log k := by
    have hnil : (announced.filter fun a => a.entry = k) = [] := by
      simpa [List.filter_eq_nil_iff] using hother
    rw [hext.log_eq, hnil, List.append_nil]
  refine ⟨h.inv, by rw [hlog, h.length_eq], hview.trans h.view_eq,
    fun i hi => (hheld i hi).trans (h.held i hi), fun i hi hne a ha => ?_, fun a ha => ?_,
    fun i j a ha hentry hmem => ?_⟩
  · rw [hlog] at ha ⊢
    exact (hcached i hi a ha).trans (h.cached i hi hne a ha)
  · rw [hlog] at ha ⊢
    exact h.alternate a ha
  · obtain ⟨ha', hmem'⟩ := hcorr i j a ha hentry hmem
    exact h.correction i j a ha' hentry hmem'

namespace IssuedInv

variable {announced corrections : List SubnetAnnouncement} {c : SubnetAnnouncement}

/-- One more message, with a nonce that its owner has not used. -/
lemma mem_of_append (h : IssuedInv top announced corrections)
    (issued : List SubnetAnnouncement)
    (hissued : ∀ b ∈ issued, b ∈ announced ++ corrections ∨ b = c)
    (howner : c.message.owner ∈ top.names) (hreceived : c.received = c)
    (hnonce : ∀ b ∈ announced ++ corrections, b.message.owner = c.message.owner →
      b.message.nonce ≠ c.message.nonce) :
    (∀ a ∈ issued, a.message.owner ∈ top.names) ∧ (∀ a ∈ issued, a.received = a) ∧
      ∀ a ∈ issued, ∀ b ∈ issued, a.message.owner = b.message.owner →
        a.message.nonce = b.message.nonce → a = b := by
  refine ⟨fun a ha => ?_, fun a ha => ?_, fun a ha b hb hown hnon => ?_⟩
  · rcases hissued a ha with ha | rfl
    · exact h.owner_mem a ha
    · exact howner
  · rcases hissued a ha with ha | rfl
    · exact h.received_eq a ha
    · exact hreceived
  · rcases hissued a ha with ha | rfl <;> rcases hissued b hb with hb | rfl
    · exact h.unique a ha b hb hown hnon
    · exact absurd hnon (hnonce a ha hown)
    · exact absurd hnon.symm (hnonce b hb hown.symm)
    · rfl

/-- A new announcement, with a nonce that its owner has not used. -/
lemma announce (h : IssuedInv top announced corrections) (howner : c.message.owner ∈ top.names)
    (hreceived : c.received = c) (hnew : c ∉ announced ++ corrections)
    (hnonce : ∀ b ∈ announced ++ corrections, b.message.owner = c.message.owner →
      b.message.nonce ≠ c.message.nonce) : IssuedInv top (announced ++ [c]) corrections := by
  obtain ⟨h1, h2, h3⟩ := h.mem_of_append (announced ++ [c] ++ corrections) (by
    intro b hb
    simp only [List.mem_append, List.mem_singleton] at hb ⊢
    tauto) howner hreceived hnonce
  rw [List.mem_append, not_or] at hnew
  refine ⟨h1, h2, h3, fun a ha => ?_, ?_⟩
  · rcases List.mem_append.mp ha with ha | ha
    · exact h.disjoint a ha
    · rw [List.mem_singleton.mp ha]
      exact hnew.2
  · exact h.nodup.append (List.nodup_singleton _) (by simpa using hnew.1)

/-- A new correction, with a nonce that its owner has not used. -/
lemma correct (h : IssuedInv top announced corrections) (howner : c.message.owner ∈ top.names)
    (hreceived : c.received = c) (hnew : c ∉ announced ++ corrections)
    (hnonce : ∀ b ∈ announced ++ corrections, b.message.owner = c.message.owner →
      b.message.nonce ≠ c.message.nonce) : IssuedInv top announced (corrections ++ [c]) := by
  obtain ⟨h1, h2, h3⟩ := h.mem_of_append (announced ++ (corrections ++ [c])) (by
    intro b hb
    simp only [List.mem_append, List.mem_singleton] at hb ⊢
    tauto) howner hreceived hnonce
  rw [List.mem_append, not_or] at hnew
  refine ⟨h1, h2, h3, fun a ha hmem => ?_, h.nodup⟩
  rcases List.mem_append.mp hmem with hmem | hmem
  · exact h.disjoint a ha hmem
  · exact hnew.1 (List.mem_singleton.mp hmem ▸ ha)

end IssuedInv

/-- A correction in flight is one in the abstract channel. -/
lemma LogInv.mem_view {a : SubnetAnnouncement} {i j : String} (h : LogInv top net k g)
    (ha : a ∈ net.channel i j) (hentry : a.entry = k) (hcorr : a ∈ net.corrections) :
    none ∈ g.channel i j := by
  rw [← h.view_eq]
  exact List.mem_filterMap.mpr ⟨a, ha, by rw [Mesh.read, if_pos hentry, if_pos hcorr]⟩

namespace MeshInv

/-- Two announcements with the same text are the same. -/
lemma eq_of_display (htop : top.Valid) (h : MeshInv top start retention net)
    {a b : SubnetAnnouncement} (ha : a ∈ net.announced ++ net.corrections)
    (hb : b ∈ net.announced ++ net.corrections) (hdisplay : a.display = b.display) : a = b := by
  obtain ⟨hnonce, howner⟩ := SubnetAnnouncement.display_inj (htop.checkId _ (h.owner_mem a ha))
    (htop.checkId _ (h.owner_mem b hb)) hdisplay
  exact h.unique a ha b hb howner hnonce

/-- A new announcement, with a nonce that has not been used, has not been issued or seen. -/
lemma fresh (htop : top.Valid) (h : MeshInv top start retention net) {i : String}
    (hfresh : net.NonceFresh i) (hi : i ∈ top.names) {c : SubnetAnnouncement}
    (howner : c.message.owner = i) (hnonce : c.message.nonce = (net.daemon i).nextMetaNonce) :
    c ∉ net.announced ++ net.corrections ∧
      ∀ j ∈ top.names, ¬ (net.daemon j).pastRequests.Seen c.display := by
  refine ⟨fun hmem => hfresh c hmem howner hnonce, fun j hj hseen => ?_⟩
  obtain ⟨b, hb, hdisplay⟩ := h.seen j hj _ hseen
  obtain ⟨hnonce', howner'⟩ := SubnetAnnouncement.display_inj (htop.checkId _ (h.owner_mem b hb))
    (howner ▸ htop.checkId i hi) hdisplay
  exact hfresh b hb (howner'.trans howner) (hnonce'.trans hnonce)

end MeshInv

/-- No correction is on its way in the abstract channel either. -/
lemma LogInv.none_notMem (h : LogInv top net k g) (hsettled : net.Settled k) (x y : String) :
    none ∉ g.channel x y := by
  intro hmem
  obtain rfl := h.inv.origin x y hmem
  rw [← h.view_eq] at hmem
  obtain ⟨b, hb, hread⟩ := List.mem_filterMap.mp hmem
  rw [Mesh.read] at hread
  split_ifs at hread with hentry hcorr
  · exact hsettled y b hb hentry hcorr
  · cases hread

section Announce

variable {i : String} {d : RuntimeDaemonState} {c : SubnetAnnouncement}

/-- A daemon that changes one of its subnets, and the announcement of the change. -/
structure Announces (top : Topology) (start retention : ℕ) (net : Mesh) (i : String)
    (d : RuntimeDaemonState) (c : SubnetAnnouncement) : Prop where
  inv : MeshInv top start retention net
  mem : i ∈ top.names
  owner_eq : c.entry.owner = i
  fresh : c ∉ net.announced ++ net.corrections
  unseen : ∀ j ∈ top.names, ¬ (net.daemon j).pastRequests.Seen c.display
  pastRequests_eq : d.pastRequests = (net.daemon i).pastRequests
  request_iff : c.request = .addSubnet ↔ ¬ (net.daemon i).state.subnets.Holds c.entry
  holds_iff : ∀ k, d.state.subnets.Holds k ↔
    if k = c.entry then c.request = .addSubnet else (net.daemon i).state.subnets.Holds k

/-- The mesh once the announcement has been sent to all peers. -/
def Mesh.announce (top : Topology) (net : Mesh) (i : String) (d : RuntimeDaemonState)
    (c : SubnetAnnouncement) : Mesh :=
  { net with
    daemon := Function.update net.daemon i d
    channel := net.channel.post i (top.connections i) c
    announced := net.announced ++ [c] }

namespace Announces

lemma extends_announce (h : Announces top start retention net i d c) :
    net.Extends (net.announce top i d c) [c] [] :=
  ⟨rfl, (List.append_nil _).symm, by simpa using h.fresh⟩

/-- A daemon does not look its own change up. -/
lemma pastRequests_announce (h : Announces top start retention net i d c) (j : String) :
    ((net.announce top i d c).daemon j).pastRequests = (net.daemon j).pastRequests := by
  by_cases hj : j = i
  · subst hj
    simp [Mesh.announce, h.pastRequests_eq]
  · simp [Mesh.announce, hj]

/-- A correction that is on its way was on its way before. -/
lemma mem_channel (h : Announces top start retention net i d c) {x y : String}
    {b : SubnetAnnouncement} (hb : b ∈ (net.announce top i d c).channel x y)
    (hcorr : b ∈ net.corrections) : b ∈ net.channel x y := by
  rcases Channels.mem_post.mp hb with hb | ⟨-, rfl⟩
  · exact hb
  · exact absurd (List.mem_append_right _ hcorr) h.fresh

lemma log_announce (h : Announces top start retention net i d c) :
    (net.announce top i d c).log c.entry = net.log c.entry ++ [c] := by
  rw [h.extends_announce.log_eq]
  simp

/-- The announcement is the last entry of the log. -/
lemma idxOf_announce (h : Announces top start retention net i d c) :
    ((net.announce top i d c).log c.entry).idxOf c = (net.log c.entry).length := by
  have hnotMem : c ∉ net.log c.entry := fun hmem =>
    h.fresh (List.mem_append_left _ (Mesh.mem_log.mp hmem).1)
  rw [h.log_announce, List.idxOf_append_of_notMem hnotMem, List.idxOf_cons_self]
  rfl

lemma read_announce (h : Announces top start retention net i d c) :
    (net.announce top i d c).read c.entry c = some (some (net.log c.entry).length) := by
  have hcorr : c ∉ net.corrections := fun hmem => h.fresh (List.mem_append_right _ hmem)
  rw [Mesh.read, if_pos rfl, h.idxOf_announce]
  exact if_neg hcorr

/-- The log of the subnet, when no correction about it is on its way. -/
lemma log_own (h : Announces top start retention net i d c) (hlog : LogInv top net c.entry g)
    (hsettled : net.Settled c.entry) :
    LogInv top (net.announce top i d c) c.entry ⟨g.length + 1,
      Function.update g.seen c.entry.owner (g.length + 1),
      g.channel.post c.entry.owner (top.connections c.entry.owner) (some g.length)⟩ := by
  have hnone := hlog.none_notMem hsettled
  have hroot := hlog.inv.root_eq
  have hidx := h.idxOf_announce.trans hlog.length_eq.symm
  refine ⟨hlog.inv.announce fun b => hnone _ b, ?_, ?_, fun j hj => ?_, fun j hj hne b hb => ?_,
    fun b hb => ?_, fun x y b hb hentry hcorr => ?_⟩
  · rw [h.log_announce, List.length_append, ← hlog.length_eq]
    rfl
  · have hread := h.read_announce
    rw [← hlog.length_eq] at hread
    rw [← hlog.view_eq, ← h.extends_announce.view_eq h.inv.issued,
      ← Channels.view_post_some hread, h.owner_eq]
    rfl
  · by_cases hj' : j = i
    · subst hj'
      have hown := hlog.held j hj
      rw [h.owner_eq] at hroot
      simp only [Mesh.announce, Function.update_self, h.owner_eq]
      rw [h.holds_iff, if_pos rfl, h.request_iff, hown, Nat.odd_add_one, hroot]
    · have hne : j ≠ c.entry.owner := fun heq => hj' (heq.trans h.owner_eq)
      simp only [Mesh.announce, Function.update_of_ne hj', Function.update_of_ne hne]
      exact hlog.held j hj
  · rw [h.pastRequests_announce]
    simp only [Function.update_of_ne hne]
    rw [h.log_announce] at hb
    rcases List.mem_append.mp hb with hb | hb
    · rw [h.log_announce, List.idxOf_append_of_mem hb]
      exact hlog.cached j hj hne b hb
    · obtain rfl := List.mem_singleton.mp hb
      rw [hidx]
      exact iff_of_false (h.unseen j hj) (not_lt.mpr (hlog.inv.seen_le j))
  · rw [h.log_announce] at hb
    rcases List.mem_append.mp hb with hb | hb
    · rw [h.log_announce, List.idxOf_append_of_mem hb]
      exact hlog.alternate b hb
    · obtain rfl := List.mem_singleton.mp hb
      have hown := hlog.held i h.mem
      rw [h.owner_eq] at hroot
      rw [hidx, h.request_iff, hown, ← hroot, Nat.not_odd_iff_even]
  · exact absurd (hlog.mem_view (h.mem_channel hb hcorr) hentry hcorr) (hnone x y)

/-- The log of another subnet is left alone. -/
lemma log_other (h : Announces top start retention net i d c) (hlog : LogInv top net k g)
    (hk : k ≠ c.entry) : LogInv top (net.announce top i d c) k g := by
  refine hlog.frame h.extends_announce ?_ ?_ (fun j hj => ?_)
    (fun j hj b hb => by rw [h.pastRequests_announce])
    fun x y b hb hentry hcorr => ⟨h.mem_channel hb hcorr, hcorr⟩
  · simpa using hk.symm
  · rw [← h.extends_announce.view_eq h.inv.issued]
    exact Channels.view_post_none (Mesh.read_of_entry_ne hk.symm)
  · by_cases hj' : j = i
    · subst hj'
      simp only [Mesh.announce, Function.update_self]
      rw [h.holds_iff, if_neg hk]
    · simp only [Mesh.announce, Function.update_of_ne hj']

/-- **Every log after a change** of a subnet about which no correction is on its way. -/
lemma log (h : Announces top start retention net i d c) (hsettled : net.Settled c.entry)
    (hk : k.owner ∈ top.names) : ∃ g, LogInv top (net.announce top i d c) k g := by
  obtain ⟨g, hlog⟩ := h.inv.log k hk
  by_cases hke : k = c.entry
  · subst hke
    exact ⟨_, h.log_own hlog hsettled⟩
  · exact ⟨g, h.log_other hlog hke⟩

end Announces

end Announce

namespace MeshInv

/-- A daemon that changes one of its subnets sends a new announcement. -/
lemma announces (htop : top.Valid) (h : MeshInv top start retention net) {i : String}
    {request : SubnetRequest} {subnet : Subnet} (hi : i ∈ top.names) (hfresh : net.NonceFresh i)
    {d : RuntimeDaemonState} {a : SubnetAnnouncement}
    (hchange : (net.daemon i).changeSubnet request subnet = some (d, a)) :
    Announces top start retention net i d a.received ∧ a.received.entry = subnet.entry i := by
  obtain ⟨-, hpast, hrequest, hentry, howner, hnonce, hedit, hholds⟩ :=
    RuntimeDaemonState.changeSubnet_mesh (h.inMesh i hi) hchange
  obtain ⟨hnew, hunseen⟩ := h.fresh htop hfresh hi (c := a.received) howner hnonce
  have hentry' : a.received.entry = subnet.entry i := hentry
  have hrequest' : a.received.request = request := hrequest
  refine ⟨⟨h, hi, ?_, hnew, hunseen, hpast, ?_, fun k => ?_⟩, hentry'⟩
  · rw [hentry']
    rfl
  · rw [hentry', hrequest']
    exact hedit
  · rw [hentry', hrequest']
    exact hholds k

/-- **A change keeps the invariant**, when no correction about the subnet is in flight. -/
lemma change (htop : top.Valid) (h : MeshInv top start retention net) {i : String}
    {request : SubnetRequest} {subnet : Subnet} (hi : i ∈ top.names) (hfresh : net.NonceFresh i)
    (hmay : net.Settled (subnet.entry i)) (hchange : net.change top i request subnet = some net') :
    MeshInv top start retention net' := by
  obtain ⟨⟨d, a⟩, hd, hnet⟩ := Option.map_eq_some_iff.mp hchange
  obtain ⟨hmesh, hpast, -, -, howner, hnonce, -, hholds⟩ :=
    RuntimeDaemonState.changeSubnet_mesh (h.inMesh i hi) hd
  obtain ⟨hannounces, hentry⟩ := h.announces htop hi hfresh hd
  have hnew := hannounces.fresh
  subst hnet
  refine ⟨h.toIssuedInv.announce (howner ▸ hi) rfl hnew
    fun b hb hbo hbn => hfresh b hb (hbo.trans howner) (hbn.trans hnonce), fun j hj => ?_,
    fun x y b hb => ?_, fun j hj r hr => ?_, fun j hj k hk hholds' => ?_,
    fun k hk => hannounces.log (by rw [hentry]; exact hmay) hk⟩
  · by_cases hj' : j = i
    · subst hj'
      simpa using hmesh
    · simpa [hj'] using h.inMesh j hj
  · rcases Channels.mem_post.mp hb with hb | ⟨-, rfl⟩
    · rcases List.mem_append.mp (h.issued x y b hb) with hb | hb
      · exact List.mem_append_left _ (List.mem_append_left _ hb)
      · exact List.mem_append_right _ hb
    · exact List.mem_append_left _ (List.mem_append_right _ (List.mem_singleton_self _))
  · have hr' : (net.daemon j).pastRequests.Seen r := by
      by_cases hj' : j = i
      · subst hj'
        simpa [hpast] using hr
      · simpa [hj'] using hr
    obtain ⟨b, hb, hdisplay⟩ := h.seen j hj r hr'
    refine ⟨b, ?_, hdisplay⟩
    rcases List.mem_append.mp hb with hb | hb
    · exact List.mem_append_left _ (List.mem_append_left _ hb)
    · exact List.mem_append_right _ hb
  · refine h.foreign j hj k hk ?_
    by_cases hj' : j = i
    · subst hj'
      have hne : k ≠ subnet.entry j := fun heq => hk (heq ▸ hj)
      simpa [hholds, hne] using hholds'
    · simpa [hj'] using hholds'

end MeshInv

section Deliver

variable {peer j : String} {a : SubnetAnnouncement} {rest : List SubnetAnnouncement}
  {d : RuntimeDaemonState}

/-- A daemon that receives an announcement, and the announcement. -/
structure Receives (top : Topology) (start retention : ℕ) (net : Mesh) (peer j : String)
    (a : SubnetAnnouncement) (rest : List SubnetAnnouncement) (d : RuntimeDaemonState) : Prop where
  inv : MeshInv top start retention net
  channel_eq : net.channel peer j = a :: rest
  mem : j ∈ top.names
  inMesh : d.InMesh j start retention
  seen : ∀ r, d.pastRequests.Seen r ↔ (net.daemon j).pastRequests.Seen r ∨ r = a.display

namespace Receives

lemma issued (h : Receives top start retention net peer j a rest d) :
    a ∈ net.announced ++ net.corrections :=
  h.inv.issued peer j a (by rw [h.channel_eq]; exact List.mem_cons_self)

/-- Another announcement is seen exactly when it was seen before. -/
lemma seen_iff (htop : top.Valid) (h : Receives top start retention net peer j a rest d)
    {b : SubnetAnnouncement} (hb : b ∈ net.announced ++ net.corrections) :
    d.pastRequests.Seen b.display ↔ (net.daemon j).pastRequests.Seen b.display ∨ b = a := by
  rw [h.seen]
  exact or_congr_right ⟨fun heq => h.inv.eq_of_display htop hb h.issued heq, fun heq => by rw [heq]⟩

/-- The abstract channel from which the announcement is read. -/
lemma view_cons (h : Receives top start retention net peer j a rest d)
    (hlog : LogInv top net k g) {x : Option ℕ} (hread : net.read k a = some x) :
    ∃ rest', g.channel peer j = x :: rest' := by
  refine ⟨rest.filterMap (net.read k), ?_⟩
  rw [← hlog.view_eq, Channels.view, h.channel_eq, List.filterMap_cons_some hread]

/-- The announcement is in the log of its subnet, or a correction that tells nothing new. -/
lemma read_cases (h : Receives top start retention net peer j a rest d)
    (hlog : LogInv top net a.entry g) :
    (a ∈ net.log a.entry ∧ a ∉ net.corrections ∧
      net.read a.entry a = some (some ((net.log a.entry).idxOf a)) ∧
      (net.log a.entry).idxOf a ≤ g.seen j) ∨
    a ∈ net.corrections ∧ net.read a.entry a = some none ∧
      a.Redundant (net.daemon j).state.subnets := by
  by_cases hcorr : a ∈ net.corrections
  · have hread : net.read a.entry a = some none := by rw [Mesh.read, if_pos rfl, if_pos hcorr]
    obtain ⟨rest', hc⟩ := h.view_cons hlog hread
    refine Or.inr ⟨hcorr, hread, ?_⟩
    rw [SubnetAnnouncement.Redundant, hlog.held j h.mem, hlog.inv.seen_eq_of_correction hc]
    exact hlog.correction peer j a (by rw [h.channel_eq]; exact List.mem_cons_self) rfl hcorr
  · have hread : net.read a.entry a = some (some ((net.log a.entry).idxOf a)) := by
      rw [Mesh.read, if_pos rfl, if_neg hcorr]
    obtain ⟨rest', hc⟩ := h.view_cons hlog hread
    exact Or.inl ⟨Mesh.mem_log.mpr ⟨(List.mem_append.mp h.issued).resolve_right hcorr, rfl⟩, hcorr,
      hread, hlog.inv.le_seen hc⟩

/-- An entry of the log is redundant exactly when it was read before. -/
lemma redundant_iff (h : Receives top start retention net peer j a rest d)
    (hlog : LogInv top net a.entry g) (ha : a ∈ net.log a.entry)
    (hle : (net.log a.entry).idxOf a ≤ g.seen j)
    (hnext : ¬ (net.log a.entry).idxOf a < g.seen j) :
    ¬ a.Redundant (net.daemon j).state.subnets := by
  have heq : (net.log a.entry).idxOf a = g.seen j := by omega
  rw [SubnetAnnouncement.Redundant, hlog.held j h.mem, hlog.alternate a ha, heq,
    ← Nat.not_even_iff_odd]
  tauto

/-- The log of another subnet is left alone. -/
lemma log_other (htop : top.Valid) (h : Receives top start retention net peer j a rest d)
    (hlog : LogInv top net k g) (hk : k ≠ a.entry) {corrections : List SubnetAnnouncement}
    (hext : net.Extends net' [] corrections)
    (hdaemon : net'.daemon = Function.update net.daemon j d)
    (hholds : d.state.subnets.Holds k ↔ (net.daemon j).state.subnets.Holds k)
    (hview : net'.channel.view (net'.read k) = (net.channel.pop peer j).view (net'.read k))
    (hmem : ∀ x y, ∀ b ∈ net'.channel x y, b.entry = k → b ∈ net.channel x y) :
    LogInv top net' k g := by
  refine hlog.frame hext (by simp) ?_ (fun i hi => ?_) (fun i hi b hb => ?_)
    fun x y b hb hentry hcorr => ⟨hmem x y b hb hentry, ?_⟩
  · rw [hview, Channels.view_pop_none h.channel_eq (Mesh.read_of_entry_ne hk.symm)]
    exact hext.view_eq h.inv.issued
  · rw [hdaemon]
    by_cases hij : i = j
    · subst hij
      simpa using hholds
    · simp [hij]
  · rw [hdaemon]
    by_cases hij : i = j
    · subst hij
      obtain ⟨hb', hentry⟩ := Mesh.mem_log.mp hb
      have hne : b ≠ a := by
        rintro rfl
        exact hk hentry.symm
      simpa [hne] using h.seen_iff htop (List.mem_append_left _ hb')
    · simp [hij]
  · exact (hext.mem_corrections (h.inv.issued x y b (hmem x y b hb hentry))).mp hcorr

/-- What is known of its log is dropped. -/
lemma log_dropped (htop : top.Valid) (h : Receives top start retention net peer j a rest d)
    (hold : (net.daemon j).pastRequests.Seen a.display ∨ a.Redundant (net.daemon j).state.subnets)
    (hsubnets : d.state.subnets = (net.daemon j).state.subnets)
    (hnet : net' = { net with
      daemon := Function.update net.daemon j d
      channel := net.channel.pop peer j }) (hk : k.owner ∈ top.names) :
    ∃ g, LogInv top net' k g := by
  obtain ⟨g, hlog⟩ := h.inv.log k hk
  have hext : net.Extends net' [] [] := by
    rw [hnet]
    exact ⟨(List.append_nil _).symm, (List.append_nil _).symm, by simp⟩
  by_cases hke : k = a.entry
  · subst hke
    obtain ⟨x, hread, hx, hlt⟩ : ∃ x, net.read a.entry a = some x ∧
        (j = a.entry.owner ∨ ∀ i ∈ x, i < g.seen j) ∧
        (a ∈ net.log a.entry → j ≠ a.entry.owner → (net.log a.entry).idxOf a < g.seen j) := by
      rcases h.read_cases hlog with ⟨ha, -, hread, hle⟩ | ⟨hcorr, hread, -⟩
      · have hlt : j ≠ a.entry.owner → (net.log a.entry).idxOf a < g.seen j := by
          intro hj
          by_contra hnext
          rcases hold with hseen | hredundant
          · exact hnext ((hlog.cached j h.mem hj a ha).mp hseen)
          · exact h.redundant_iff hlog ha hle hnext hredundant
        refine ⟨_, hread, ?_, fun _ => hlt⟩
        by_cases hj : j = a.entry.owner
        · exact Or.inl hj
        · refine Or.inr ?_
          rintro i ⟨⟩
          exact hlt hj
      · exact ⟨_, hread, Or.inr (by simp), fun ha =>
          absurd hcorr (h.inv.disjoint a (Mesh.mem_log.mp ha).1)⟩
    obtain ⟨rest', hc⟩ := h.view_cons hlog hread
    subst hnet
    refine ⟨_, hlog.inv.drop hc hx, hlog.length_eq, ?_, fun i hi => ?_, fun i hi hne b hb => ?_,
      hlog.alternate, fun x y b hb => hlog.correction x y b (Channels.mem_of_mem_pop hb)⟩
    · exact (Channels.view_pop_some h.channel_eq hread).trans
        (congrArg (fun c => Channels.pop c peer j) hlog.view_eq)
    · by_cases hij : i = j
      · subst hij
        simpa [hsubnets] using hlog.held i hi
      · simpa [hij] using hlog.held i hi
    · by_cases hij : i = j
      · subst hij
        simp only [Function.update_self]
        rw [h.seen_iff htop (List.mem_append_left _ (Mesh.mem_log.mp hb).1)]
        have hcached := hlog.cached i hi hne b hb
        refine ⟨?_, fun hidx => Or.inl (hcached.mpr hidx)⟩
        rintro (hseen | rfl)
        · exact hcached.mp hseen
        · exact hlt hb hne
      · simp only [Function.update_of_ne hij]
        exact hlog.cached i hi hne b hb
  · refine ⟨g, h.log_other htop hlog hke hext (by rw [hnet]) (by rw [hsubnets]) (by rw [hnet])
      fun x y b hb _ => ?_⟩
    rw [hnet] at hb
    exact Channels.mem_of_mem_pop hb

/-- A wrong claim is answered with a correction. -/
lemma log_corrected (htop : top.Valid) (h : Receives top start retention net peer j a rest d)
    (hfresh : net.NonceFresh j) {c : SubnetAnnouncement} (howner : a.message.owner = j)
    (hentry : c.entry = a.entry) (hcowner : c.message.owner = j)
    (hnonce : c.message.nonce = (net.daemon j).nextMetaNonce)
    (hrequest : c.request = .addSubnet ↔ (net.daemon j).state.subnets.Holds a.entry)
    (hsubnets : d.state.subnets = (net.daemon j).state.subnets)
    (hnet : net' = { net with
      daemon := Function.update net.daemon j d
      channel := (net.channel.pop peer j).post j [peer] c.received
      corrections := net.corrections ++ [c.received] }) (hk : k.owner ∈ top.names) :
    ∃ g, LogInv top net' k g := by
  obtain ⟨g, hlog⟩ := h.inv.log k hk
  obtain ⟨hnew, -⟩ := h.inv.fresh htop hfresh h.mem (c := c.received) hcowner hnonce
  have hext : net.Extends net' [] [c.received] := by
    rw [hnet]
    exact ⟨(List.append_nil _).symm, rfl, by simpa using hnew⟩
  have hcentry : c.received.entry = a.entry := hentry
  by_cases hke : k = a.entry
  · subst hke
    have hroot : a.entry.owner = j := howner
    obtain ⟨x, hread⟩ : ∃ x, net.read a.entry a = some x := by
      rcases h.read_cases hlog with ⟨-, -, hread, -⟩ | ⟨-, hread, -⟩
      · exact ⟨_, hread⟩
      · exact ⟨_, hread⟩
    obtain ⟨rest', hc⟩ := h.view_cons hlog hread
    rw [← hroot] at hc
    have hlog' : net'.log a.entry = net.log a.entry := by
      rw [hext.log_eq]
      exact List.append_nil _
    have hread' : net'.read a.entry c.received = some none := by
      have hmem : c.received ∈ net'.corrections := by
        rw [hext.corrections_eq]
        exact List.mem_append_right _ (List.mem_singleton_self _)
      rw [Mesh.read, if_pos hcentry, if_pos hmem]
    have hchannel : net'.channel = (net.channel.pop peer j).post j [peer] c.received := by rw [hnet]
    have hdaemon : net'.daemon = Function.update net.daemon j d := by rw [hnet]
    refine ⟨_, hlog.inv.correct htop.symm hc, ?_, ?_, fun i hi => ?_, fun i hi hne b hb => ?_,
      fun b hb => ?_, fun x y b hb hbentry hcorr => ?_⟩
    · rw [hlog']
      exact hlog.length_eq
    · have hpop : (net.channel.pop peer j).view (net'.read a.entry) = g.channel.pop peer j := by
        rw [hext.view_eq fun x y b hb => h.inv.issued x y b (Channels.mem_of_mem_pop hb),
          Channels.view_pop_some h.channel_eq hread, hlog.view_eq]
      rw [hchannel, Channels.view_post_some hread', hpop, hroot]
    · rw [hdaemon]
      by_cases hij : i = j
      · subst hij
        simpa [hsubnets] using hlog.held i hi
      · simpa [hij] using hlog.held i hi
    · rw [hroot] at hne
      rw [hlog'] at hb ⊢
      rw [hdaemon, Function.update_of_ne hne]
      exact hlog.cached i hi (hroot ▸ hne) b hb
    · rw [hlog'] at hb ⊢
      exact hlog.alternate b hb
    · rw [hchannel] at hb
      rcases Channels.mem_post.mp hb with hb | ⟨-, rfl⟩
      · have hb' := Channels.mem_of_mem_pop hb
        exact hlog.correction x y b hb' hbentry
          ((hext.mem_corrections (h.inv.issued x y b hb')).mp hcorr)
      · have hown := hlog.held j h.mem
        have hlen := hlog.inv.root_eq
        rw [hroot] at hlen
        rw [SubnetAnnouncement.request_received, hrequest, hown, hlen]
  · have hne : c.received.entry ≠ k := fun heq => hke (heq.symm.trans hcentry)
    refine ⟨g, h.log_other htop hlog hke hext (by rw [hnet]) (by rw [hsubnets]) ?_
      fun x y b hb hbentry => ?_⟩
    · rw [hnet]
      exact Channels.view_post_none (Mesh.read_of_entry_ne hne)
    · rw [hnet] at hb
      rcases Channels.mem_post.mp hb with hb | ⟨-, rfl⟩
      · exact Channels.mem_of_mem_pop hb
      · exact absurd hbentry hne

/-- What is new is read from the log and passed on. -/
lemma log_relayed (htop : top.Valid) (h : Receives top start retention net peer j a rest d)
    (hnew : ¬ (net.daemon j).pastRequests.Seen a.display)
    (hredundant : ¬ a.Redundant (net.daemon j).state.subnets) (howner : a.message.owner ≠ j)
    (hholds : ∀ k, d.state.subnets.Holds k ↔
      if k = a.entry then a.request = .addSubnet else (net.daemon j).state.subnets.Holds k)
    (hnet : net' = { net with
      daemon := Function.update net.daemon j d
      channel := (net.channel.pop peer j).post j ((top.connections j).filter (· ≠ peer)) a })
    (hk : k.owner ∈ top.names) : ∃ g, LogInv top net' k g := by
  obtain ⟨g, hlog⟩ := h.inv.log k hk
  have hext : net.Extends net' [] [] := by
    rw [hnet]
    exact ⟨(List.append_nil _).symm, (List.append_nil _).symm, by simp⟩
  by_cases hke : k = a.entry
  · subst hke
    rcases h.read_cases hlog with ⟨ha, hncorr, hread, hle⟩ | ⟨-, -, hredundant'⟩
    swap
    · exact absurd hredundant' hredundant
    have hne : j ≠ a.entry.owner := fun heq => howner heq.symm
    have hnotlt : ¬ (net.log a.entry).idxOf a < g.seen j :=
      fun hlt => hnew ((hlog.cached j h.mem hne a ha).mpr hlt)
    have hidx : (net.log a.entry).idxOf a = g.seen j := by omega
    rw [hidx] at hread
    obtain ⟨rest', hc⟩ := h.view_cons hlog hread
    subst hnet
    refine ⟨_, hlog.inv.relay hne hc, hlog.length_eq, ?_, fun i hi => ?_, fun i hi hne' b hb => ?_,
      hlog.alternate, fun x y b hb hbentry hcorr => ?_⟩
    · refine (Channels.view_post_some hread).trans ?_
      rw [← hlog.view_eq]
      exact congrArg (fun c => Channels.post c j ((top.connections j).filter (· ≠ peer))
        (some (g.seen j))) (Channels.view_pop_some h.channel_eq hread)
    · by_cases hij : i = j
      · subst hij
        simp only [Function.update_self]
        rw [hholds, if_pos rfl, hlog.alternate a ha, hidx, Nat.odd_add_one, Nat.not_odd_iff_even]
      · simpa [hij] using hlog.held i hi
    · by_cases hij : i = j
      · subst hij
        simp only [Function.update_self]
        rw [h.seen_iff htop (List.mem_append_left _ (Mesh.mem_log.mp hb).1),
          hlog.cached i hi hne' b hb, Nat.lt_succ_iff_lt_or_eq, ← hidx]
        exact or_congr_right ⟨fun heq => by rw [heq]; rfl, fun heq => (List.idxOf_inj hb).mp heq⟩
      · simp only [Function.update_of_ne hij]
        exact hlog.cached i hi hne' b hb
    · rcases Channels.mem_post.mp hb with hb | ⟨-, rfl⟩
      · exact hlog.correction x y b (Channels.mem_of_mem_pop hb) hbentry hcorr
      · exact absurd hcorr hncorr
  · refine ⟨g, h.log_other htop hlog hke hext (by rw [hnet]) ?_ ?_ fun x y b hb hbentry => ?_⟩
    · rw [hholds, if_neg hke]
    · rw [hnet]
      exact Channels.view_post_none (Mesh.read_of_entry_ne fun heq => hke heq.symm)
    · rw [hnet] at hb
      rcases Channels.mem_post.mp hb with hb | ⟨-, rfl⟩
      · exact Channels.mem_of_mem_pop hb
      · exact absurd hbentry.symm hke

/-- What is left to show of a delivery. -/
lemma meshInv (h : Receives top start retention net peer j a rest d)
    (hdaemon : net'.daemon = Function.update net.daemon j d)
    (hissued : IssuedInv top net'.announced net'.corrections)
    (hmono : ∀ b ∈ net.announced ++ net.corrections, b ∈ net'.announced ++ net'.corrections)
    (hchannel : ∀ x y, ∀ b ∈ net'.channel x y, b ∈ net'.announced ++ net'.corrections)
    (hforeign : ∀ k, k.owner ∉ top.names → ¬ d.state.subnets.Holds k)
    (hlog : ∀ k, k.owner ∈ top.names → ∃ g, LogInv top net' k g) :
    MeshInv top start retention net' := by
  refine ⟨hissued, fun i hi => ?_, hchannel, fun i hi r hr => ?_, fun i hi k hk => ?_, hlog⟩
  · rw [hdaemon]
    by_cases hij : i = j
    · subst hij
      simpa using h.inMesh
    · simpa [hij] using h.inv.inMesh i hi
  · rw [hdaemon] at hr
    by_cases hij : i = j
    · subst hij
      rw [Function.update_self, h.seen] at hr
      rcases hr with hr | rfl
      · obtain ⟨b, hb, hdisplay⟩ := h.inv.seen i hi r hr
        exact ⟨b, hmono b hb, hdisplay⟩
      · exact ⟨a, hmono a h.issued, rfl⟩
    · rw [Function.update_of_ne hij] at hr
      obtain ⟨b, hb, hdisplay⟩ := h.inv.seen i hi r hr
      exact ⟨b, hmono b hb, hdisplay⟩
  · rw [hdaemon]
    by_cases hij : i = j
    · subst hij
      simpa using hforeign k hk
    · simpa [hij] using h.inv.foreign i hi k hk

end Receives

end Deliver

/-- **A delivery keeps the invariant.** -/
lemma MeshInv.deliver (htop : top.Valid) (h : MeshInv top start retention net) {peer j : String}
    {a : SubnetAnnouncement} {rest : List SubnetAnnouncement} {nowSecs : ℕ}
    (hc : net.channel peer j = a :: rest) (hfresh : net.NonceFresh j) (hstart : start ≤ nowSecs)
    (hnow : nowSecs < saturatingAdd64 start retention) :
    MeshInv top start retention (net.deliver top nowSecs peer j a) := by
  have hissued : a ∈ net.announced ++ net.corrections :=
    h.issued peer j a (by rw [hc]; exact List.mem_cons_self)
  obtain ⟨g, hlog⟩ := h.log a.entry (h.owner_mem a hissued)
  have hj : j ∈ top.names := by
    have hview : net.read a.entry a ≠ none := by
      rw [Mesh.read, if_pos rfl]
      split_ifs <;> simp
    obtain ⟨x, hx⟩ := Option.ne_none_iff_exists'.mp hview
    refine htop.mem peer j (hlog.inv.connected peer j x ?_)
    rw [← hlog.view_eq, Channels.view, hc, List.filterMap_cons_some hx]
    exact List.mem_cons_self
  obtain ⟨hmesh, hseen, hhandled⟩ :=
    RuntimeDaemonState.applyMetaStep_mesh (h.inMesh j hj) hstart hnow peer a
  have hlocal := (h.inMesh j hj).localName_eq
  rw [Mesh.deliver]
  generalize (net.daemon j).applyMetaStep nowSecs peer a = r at hmesh hseen hhandled
  obtain ⟨d, out⟩ := r
  have hreceives : Receives top start retention net peer j a rest d := ⟨h, hc, hj, hmesh, hseen⟩
  have hpop : ∀ x y, ∀ b ∈ net.channel.pop peer j x y, b ∈ net.announced ++ net.corrections :=
    fun x y b hb => h.issued x y b (Channels.mem_of_mem_pop hb)
  cases hhandled with
  | dropped hold hsubnets =>
      have hnil : net.corrections ++ ([] : List SubnetAnnouncement) = net.corrections :=
        List.append_nil _
      simp only [Mesh.send, List.foldl_nil, List.map_nil, hnil]
      refine hreceives.meshInv rfl h.toIssuedInv (fun b hb => hb) hpop (fun k hk => ?_)
        fun k hk => hreceives.log_dropped htop hold hsubnets rfl hk
      rw [hsubnets]
      exact h.foreign j hj k hk
  | @corrected c howner hentry hcowner hnonce hrequest hsubnets =>
      rw [hlocal] at howner hcowner
      simp only [Mesh.send, List.foldl_nil, List.foldl_cons, List.map_cons, List.map_nil]
      obtain ⟨hnew, -⟩ := h.fresh htop hfresh hj (c := c.received) hcowner hnonce
      have hmono : ∀ b ∈ net.announced ++ net.corrections,
          b ∈ net.announced ++ (net.corrections ++ [c.received]) := by
        intro b hb
        rw [← List.append_assoc]
        exact List.mem_append_left _ hb
      refine hreceives.meshInv rfl (h.toIssuedInv.correct (hcowner ▸ hj) rfl hnew
          fun b hb hbo hbn => hfresh b hb (hbo.trans hcowner) (hbn.trans hnonce)) hmono
        (fun x y b hb => ?_) (fun k hk => ?_)
        fun k hk => hreceives.log_corrected htop hfresh howner hentry hcowner hnonce hrequest
          hsubnets rfl hk
      · rcases Channels.mem_post.mp hb with hb | ⟨-, rfl⟩
        · exact hmono b (hpop x y b hb)
        · simp
      · rw [hsubnets]
        exact h.foreign j hj k hk
  | relayed hnew hredundant howner hholds =>
      rw [hlocal] at howner
      have hnil : net.corrections ++ ([] : List SubnetAnnouncement) = net.corrections :=
        List.append_nil _
      have hfilter : ((top.connections j).filter fun b => some peer ≠ some b) =
          (top.connections j).filter (· ≠ peer) := by
        refine List.filter_congr fun b _ => ?_
        simp [eq_comm]
      simp only [Mesh.send, List.foldl_nil, List.foldl_cons, List.map_nil, hnil, hfilter,
        h.received_eq a hissued]
      refine hreceives.meshInv rfl h.toIssuedInv (fun b hb => hb) (fun x y b hb => ?_)
        (fun k hk => ?_)
        fun k hk => hreceives.log_relayed htop hnew hredundant howner hholds rfl hk
      · rcases Channels.mem_post.mp hb with hb | ⟨-, rfl⟩
        · exact hpop x y b hb
        · exact hissued
      · rw [hholds, if_neg fun heq : k = a.entry => hk (heq ▸ h.owner_mem a hissued)]
        exact h.foreign j hj k hk

/-- The invariant holds at the start. -/
lemma MeshInv.initial {daemon : String → RuntimeDaemonState}
    (hdaemon : ∀ i ∈ top.names, InitialDaemon retention i (daemon i)) :
    MeshInv top start retention ⟨daemon, fun _ _ => [], [], []⟩ := by
  refine ⟨⟨by simp, by simp, by simp, by simp, List.nodup_nil⟩, fun i hi => ?_, by simp,
    fun i hi r hr => ?_, fun i hi k _ => ?_, fun k _ => ⟨_, Gossip.Inv.empty, rfl, rfl,
      fun i hi => ?_, by simp [Mesh.log], by simp [Mesh.log], by simp⟩⟩
  · obtain ⟨hlocal, hsubnets, htunnel, hstrict, hpast⟩ := hdaemon i hi
    refine ⟨hlocal, htunnel, hstrict, by rw [hpast]; rfl, ?_,
      by rw [hsubnets]; exact SubnetTable.proper_new⟩
    rw [hpast]
    intro r firstSeen hr
    simp [PastRequestCache.new] at hr
  · rw [(hdaemon i hi).pastRequests_eq] at hr
    simp [PastRequestCache.new, PastRequestCache.Seen] at hr
  · rw [(hdaemon i hi).subnets_eq]
    exact SubnetTable.not_holds_new k
  · rw [(hdaemon i hi).subnets_eq]
    exact iff_of_false (SubnetTable.not_holds_new k) (by simp)

/-- **The invariant holds in every run** in which changes wait for corrections. -/
lemma MeshRun.inv (htop : top.Valid) (h : MeshRun top start retention Mesh.Settled net) :
    MeshInv top start retention net := by
  induction h with
  | start h => exact MeshInv.initial h
  | change _ hi hfresh hmay h ih => exact ih.change htop hi hfresh hmay h
  | deliver _ h hfresh hstart hnow ih => exact ih.deliver htop h hfresh hstart hnow

/-- **Subnet gossip converges**: with nothing in flight all daemons hold the subnets of each
daemon that this daemon itself holds, when no daemon changes a subnet while a correction about
it is on its way. -/
theorem MeshRun.agrees_of_settled (htop : top.Valid)
    (h : MeshRun top start retention Mesh.Settled net) (hempty : ∀ i j, net.channel i j = []) :
    net.Agrees top := by
  have hinv := h.inv htop
  intro i hi k
  by_cases hk : k.owner ∈ top.names
  · obtain ⟨g, hlog⟩ := hinv.log k hk
    have hquiet : ∀ x y, g.channel x y = [] := by
      intro x y
      rw [← hlog.view_eq, Channels.view, hempty x y]
      rfl
    have hseen := hlog.inv.seen_eq hquiet (htop.connected k.owner hk i hi)
    have hown := hlog.inv.root_eq
    rw [hlog.held i hi, hlog.held k.owner hk, hseen, hown]
    simp [hk]
  · simp [hk, hinv.foreign i hi k hk]

end Inv

/-! ### Runs step by step -/

/-- A step of a run. -/
inductive MeshOp where
  | change (i : String) (request : SubnetRequest) (subnet : Subnet)
  | deliver (peer j : String)

instance (net : Mesh) (i : String) : Decidable (net.NonceFresh i) :=
  inferInstanceAs (Decidable (∀ a ∈ net.announced ++ net.corrections, a.message.owner = i →
    a.message.nonce ≠ (net.daemon i).nextMetaNonce))

/-- One step, when it is possible and `check` permits the change. -/
def Mesh.perform (top : Topology) (nowSecs : ℕ) (check : Mesh → OwnedSubnet → Bool) (net : Mesh) :
    MeshOp → Option Mesh
  | .change i request subnet =>
      if i ∈ top.names ∧ net.NonceFresh i ∧ check net (subnet.entry i) then
        net.change top i request subnet
      else none
  | .deliver peer j =>
      match net.channel peer j with
      | a :: _ => if net.NonceFresh j then some (net.deliver top nowSecs peer j a) else none
      | [] => none

section Perform

variable {top : Topology} {start retention nowSecs : ℕ} {may : Mesh → OwnedSubnet → Prop}
  {check : Mesh → OwnedSubnet → Bool} {net net' : Mesh}

/-- Operations that pass the check make a run. -/
lemma MeshRun.perform (hrun : MeshRun top start retention may net)
    (hcheck : ∀ net k, check net k = true → may net k) (hstart : start ≤ nowSecs)
    (hnow : nowSecs < saturatingAdd64 start retention) {ops : List MeshOp}
    (h : ops.foldlM (Mesh.perform top nowSecs check) net = some net') :
    MeshRun top start retention may net' := by
  induction ops generalizing net with
  | nil =>
      cases h
      exact hrun
  | cons op ops ih =>
      rw [List.foldlM_cons] at h
      obtain ⟨mid, hop, hops⟩ := Option.bind_eq_some_iff.mp h
      refine ih ?_ hops
      cases op with
      | change i request subnet =>
          rw [Mesh.perform] at hop
          split_ifs at hop with hpossible
          exact hrun.change hpossible.1 hpossible.2.1 (hcheck _ _ hpossible.2.2) hop
      | deliver peer j =>
          rw [Mesh.perform] at hop
          split at hop
          next a rest hc =>
            split_ifs at hop with hfresh
            cases hop
            exact hrun.deliver hc hfresh hstart hnow
          next => cases hop

/-- Nothing is in flight between daemons that are not connected. -/
lemma MeshRun.channel_eq_nil (htop : top.Valid) (h : MeshRun top start retention may net)
    {x y : String} (hxy : y ∉ top.connections x) : net.channel x y = [] := by
  induction h generalizing x y with
  | start => rfl
  | change _ _ _ _ h ih =>
      obtain ⟨-, -, rfl⟩ := Option.map_eq_some_iff.mp h
      refine (Channels.post_of_not ?_).trans (ih hxy)
      rintro ⟨rfl, hy⟩
      exact hxy hy
  | @deliver net peer j a rest _ _ hc _ _ _ ih =>
      have hpeer : j ∈ top.connections peer := by
        by_contra hmem
        rw [ih hmem] at hc
        cases hc
      have hpop : net.channel.pop peer j x y = [] := by
        rw [Channels.pop]
        split_ifs
        · rw [ih hxy]
          rfl
        · exact ih hxy
      have hresponses : ∀ (l : List SubnetAnnouncement) (c : Channels String SubnetAnnouncement),
          c x y = [] → l.foldl (fun c a => c.post j [peer] a.received) c x y = [] := by
        intro l
        induction l with
        | nil => exact fun c hcxy => hcxy
        | cons b l ihl =>
            refine fun c hcxy => ihl _ ((Channels.post_of_not ?_).trans hcxy)
            rintro ⟨rfl, hy⟩
            exact hxy (List.mem_singleton.mp hy ▸ htop.symm _ _ hpeer)
      have hbroadcasts : ∀ (l : List (Option String × SubnetAnnouncement))
          (c : Channels String SubnetAnnouncement), c x y = [] →
          l.foldl (fun c (source, a) => c.post j
            ((top.connections j).filter fun b => source ≠ some b) a.received) c x y = [] := by
        intro l
        induction l with
        | nil => exact fun c hcxy => hcxy
        | cons b l ihl =>
            refine fun c hcxy => ihl _ ((Channels.post_of_not ?_).trans hcxy)
            rintro ⟨rfl, hy⟩
            exact hxy (List.mem_of_mem_filter hy)
      exact hbroadcasts _ _ (hresponses _ _ hpop)

end Perform

/-! ### Three daemons -/

section Example

/-- Three daemons, each connected to the others. -/
def triangle : Topology where
  names := ["a", "b", "c"]
  connections i := if i ∈ ["a", "b", "c"] then ["a", "b", "c"].filter (· ≠ i) else []

/-- The three daemons are connected. -/
lemma triangle_valid : triangle.Valid := by
  have hmem : ∀ i j, j ∈ triangle.connections i ↔ i ∈ triangle.names ∧ j ∈ triangle.names ∧ j ≠ i := by
    intro i j
    rw [triangle]
    simp only
    split_ifs with hi
    · rw [List.mem_filter, decide_eq_true_iff]
      tauto
    · simp [hi]
  refine ⟨by decide, fun i j hj => ((hmem i j).mp hj).2.1, fun i j hj => ?_, fun i hi j hj => ?_⟩
  · obtain ⟨hi, hj', hne⟩ := (hmem i j).mp hj
    exact (hmem j i).mpr ⟨hj', hi, hne.symm⟩
  · by_cases hij : j = i
    · rw [hij]
    · exact .single ((hmem i j).mpr ⟨hi, hj, hij⟩)

/-- The three daemons before any subnet is known. -/
def triangleStart : Mesh :=
  ⟨fun name => ⟨name, .new name, false, false, [], 1, .new 300⟩, fun _ _ => [], [], []⟩

lemma triangleStart_run (may : Mesh → OwnedSubnet → Prop) :
    MeshRun triangle 0 300 may triangleStart :=
  .start fun _ _ => ⟨rfl, rfl, rfl, rfl, rfl⟩

/-- A subnet that one of them announces. -/
def homeNet : Subnet := { kind := .ipv4 #v[10, 0, 0, 0] 8, weight := 10 }

/-- Only while there is no correction at all. -/
def uncorrected (net : Mesh) (_ : OwnedSubnet) : Bool := net.corrections.isEmpty

/-- Daemon `a` announces a subnet, and all copies of the announcement are delivered. -/
def announceRun : List MeshOp :=
  [.change "a" .addSubnet homeNet, .deliver "a" "b", .deliver "a" "c", .deliver "b" "c",
    .deliver "c" "b"]

/-- The daemons once the announcement has reached all of them. -/
def announced : Mesh :=
  ((announceRun.foldlM (Mesh.perform triangle 0 uncorrected) triangleStart).getD triangleStart)

lemma channel_eq_nil_of_names {may : Mesh → OwnedSubnet → Prop} {net : Mesh}
    (hrun : MeshRun triangle 0 300 may net)
    (h : ∀ i ∈ triangle.names, ∀ j ∈ triangle.names, net.channel i j = []) (i j : String) :
    net.channel i j = [] := by
  by_cases hij : j ∈ triangle.connections i
  · exact h i (triangle_valid.mem j i (triangle_valid.symm i j hij)) j (triangle_valid.mem i j hij)
  · exact hrun.channel_eq_nil triangle_valid hij

/-- After the announcement has reached all of them, the three daemons agree. -/
theorem agrees_announced : announced.Agrees triangle := by
  obtain ⟨net, hnet⟩ : ∃ net,
      announceRun.foldlM (Mesh.perform triangle 0 uncorrected) triangleStart = some net :=
    Option.isSome_iff_exists.mp (by decide +kernel)
  have hrun : MeshRun triangle 0 300 Mesh.Settled net :=
    (triangleStart_run _).perform (fun net k hempty j a _ _ => by
      rw [List.isEmpty_iff.mp hempty]
      exact List.not_mem_nil) (le_refl 0) (by decide) hnet
  have heq : announced = net := by rw [announced, hnet, Option.getD_some]
  have hquiet : ∀ i ∈ triangle.names, ∀ j ∈ triangle.names, announced.channel i j = [] := by
    decide +kernel
  rw [heq] at hquiet ⊢
  exact hrun.agrees_of_settled triangle_valid (channel_eq_nil_of_names hrun hquiet)

/-- Daemon `a` changes its subnet again and again while its corrections are on their way: `c`
takes a correction for a later change, and answers a late change as if it were nothing new. -/
def overtakenRun : List MeshOp :=
  [.change "a" .addSubnet homeNet, .deliver "a" "b", .deliver "b" "c",
    .change "a" .deleteSubnet homeNet, .deliver "a" "c", .deliver "a" "b", .deliver "c" "a",
    .deliver "b" "c", .deliver "a" "c", .deliver "c" "a", .change "a" .addSubnet homeNet,
    .deliver "a" "b", .deliver "b" "c", .deliver "c" "a", .deliver "a" "c", .deliver "c" "b",
    .deliver "a" "c", .change "a" .deleteSubnet homeNet, .deliver "a" "b", .deliver "b" "a",
    .change "a" .addSubnet homeNet, .deliver "a" "b", .deliver "b" "c", .deliver "a" "c",
    .deliver "c" "b", .deliver "c" "a", .deliver "a" "c"]

/-- Nothing is in flight, `a` has its subnet and `c` does not know it. -/
def overtaken (net : Mesh) : Bool :=
  decide (∀ i ∈ triangle.names, ∀ j ∈ triangle.names, net.channel i j = []) &&
    decide ((net.daemon "a").state.subnets.Holds (homeNet.entry "a")) &&
    decide (¬ (net.daemon "c").state.subnets.Holds (homeNet.entry "a"))

/-- When a change may overtake a correction, two daemons can end up with different subnets. -/
theorem meshRun_disagrees : ¬ ∀ (top : Topology) (start retention : ℕ) (net : Mesh), top.Valid →
    MeshRun top start retention (fun _ _ => True) net → (∀ i j, net.channel i j = []) →
      net.Agrees top := by
  intro h
  obtain ⟨net, hnet, hovertaken⟩ : ∃ net,
      overtakenRun.foldlM (Mesh.perform triangle 0 fun _ _ => true) triangleStart = some net ∧
        overtaken net = true := by
    have hany : (overtakenRun.foldlM (Mesh.perform triangle 0 fun _ _ => true)
        triangleStart).any overtaken = true := by decide +kernel
    obtain ⟨hsome, hp⟩ := (Option.any_eq_true_iff_get _ _).mp hany
    exact ⟨_, (Option.some_get hsome).symm, hp⟩
  have hrun : MeshRun triangle 0 300 (fun _ _ => True) net :=
    (triangleStart_run _).perform (fun _ _ _ => trivial) (le_refl 0) (by decide) hnet
  simp only [overtaken, Bool.and_eq_true, decide_eq_true_iff] at hovertaken
  obtain ⟨⟨hquiet, ha⟩, hc⟩ := hovertaken
  have hagrees := h triangle 0 300 net triangle_valid hrun (channel_eq_nil_of_names hrun hquiet)
  exact hc ((hagrees "c" (by decide) (homeNet.entry "a")).mpr ⟨by decide, ha⟩)

end Example

end RustyTinc
