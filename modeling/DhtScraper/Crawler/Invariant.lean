import DhtScraper.Crawler.Running
import DhtScraper.Lookup.Filtering

/-!
# What a crawler always keeps

The invariant of `DhtCrawler` that needs no promise of its environment: every node it stores passed
the filter and came from a datagram or from a compact form, every socket it remembers heard the
address it is remembered for, every address it bootstraps from was resolved.
-/

namespace DhtScraper

open Library

/-- The address was heard, or was read from a compact form. -/
def Sourced (net : Inet) (history : List CrawlerEvent) (address : Address) : Prop :=
  (∃ nodeSocket, .received address nodeSocket ∈ history) ∨
    ∃ data : Bytes, (data.length = compactAddressLength ∨ data.length = compactAddress6Length) ∧
      address = compactAddress net data

namespace CrawlerConfig

/-- `is_foreign_node` of a crawler with this configuration. -/
def accepts (config : CrawlerConfig) (net : Inet) (node : Node) : Bool :=
  isForeignNode net (ownIdSuffixes config.nodeSockets) config.families.keys node

/-- A node that the crawler may keep. -/
structure Known (config : CrawlerConfig) (net : Inet) (history : List CrawlerEvent) (node : Node) :
    Prop where
  accepted : config.accepts net node
  sourced : Sourced net history node.address

/-- Where a query may go: to an address that the resolver returned, to one that was heard on the
socket, or to a routable one. -/
def Targets (config : CrawlerConfig) (net : Inet) (history : List CrawlerEvent)
    (nodeSocket : NodeSocket) (address : Address) : Prop :=
  (∃ host port ips, (host, address.2) ∈ config.bootstrapNodes ∧
      .resolved host port nodeSocket.family ips ∈ history ∧ address.1 ∈ ips) ∨
    .received address nodeSocket ∈ history ∨
      isRoutableAddress net address ∧ nodeSocket.family = addressFamily address.1

/-- What holds of the state of a family. -/
structure FamilyKept (config : CrawlerConfig) (net : Inet) (history : List CrawlerEvent)
    (family : AddressFamily) (state : FamilyState) : Prop where
  family_eq : state.family = family
  sockets : ∀ nodeSocket ∈ state.nodeSockets, nodeSocket ∈ config.nodeSockets
  queued : ∀ node ∈ state.nodeQueue, config.Known net history node
  recent : ∀ node ∈ state.recentNodes, config.Known net history node ∧ addressFamily node.ip = family

variable {config : CrawlerConfig} {net : Inet} {past history : List CrawlerEvent} {node : Node}

theorem Known.mono (h : config.Known net past node) (hsub : past ⊆ history) :
    config.Known net history node where
  accepted := h.accepted
  sourced := h.sourced.imp_left fun ⟨nodeSocket, hreceived⟩ ↦ ⟨nodeSocket, hsub hreceived⟩

theorem FamilyKept.mono {family : AddressFamily} {state : FamilyState}
    (h : config.FamilyKept net past family state) (hsub : past ⊆ history) :
    config.FamilyKept net history family state where
  family_eq := h.family_eq
  sockets := h.sockets
  queued := fun node hnode ↦ (h.queued node hnode).mono hsub
  recent := fun node hnode ↦ ⟨(h.recent node hnode).1.mono hsub, (h.recent node hnode).2⟩

theorem Targets.mono {nodeSocket : NodeSocket} {address : Address}
    (h : config.Targets net past nodeSocket address) (hsub : past ⊆ history) :
    config.Targets net history nodeSocket address := by
  rcases h with ⟨host, port, ips, hhost, hresolved, hip⟩ | hreceived | hroutable
  · exact Or.inl ⟨host, port, ips, hhost, hsub hresolved, hip⟩
  · exact Or.inr (Or.inl (hsub hreceived))
  · exact Or.inr (Or.inr hroutable)

theorem accepts_iff : config.accepts net node = true ↔
    node.nodeId.length = nodeIdLength ∧
      node.nodeId.drop neighborPrefixLength ∉ ownIdSuffixes config.nodeSockets ∧
        addressFamily node.ip ∈ config.families.keys ∧ isRoutableAddress net node.address := by
  simp only [accepts, isForeignNode, isValidNodeId, Bool.and_eq_true, decide_eq_true_eq, and_assoc]

/-- The families of the configuration have sockets of that family. -/
theorem familyKept_familyState {family : AddressFamily} {state : FamilyState}
    (h : config.familyState family = some state) : config.FamilyKept net history family state := by
  unfold familyState at h
  dsimp only at h
  split at h
  · rw [← Option.some.inj h]
    exact
      { family_eq := rfl
        sockets := fun nodeSocket hmem ↦ (List.mem_filter.mp hmem).1
        queued := fun _ hnode ↦ absurd hnode List.not_mem_nil
        recent := fun _ hnode ↦ absurd hnode List.not_mem_nil }
  · cases h

/-- The table holds the states of the two families. -/
theorem get?_families (config : CrawlerConfig) (family : AddressFamily) :
    config.families.get? family = config.familyState family := by
  unfold families
  simp only [List.foldl_cons, List.foldl_nil]
  cases h4 : config.familyState .inet <;> cases h6 : config.familyState .inet6 <;> cases family <;>
    simp [OrderedMap.get?_insert, OrderedMap.get?_empty, h4, h6]

/-- The sockets of the configuration have a family. -/
theorem family_mem_keys {nodeSocket : NodeSocket} (h : nodeSocket ∈ config.nodeSockets) :
    nodeSocket.family ∈ config.families.keys := by
  rw [← OrderedMap.get?_isSome_iff, get?_families, familyState, dif_pos]
  · rfl
  · exact List.ne_nil_of_mem (List.mem_filter.mpr ⟨h, decide_eq_true rfl⟩)

end CrawlerConfig

/-! ## The invariant -/

/-- What the rest of the program sees of the crawler. -/
structure CrawlerCore where
  sender : Sender
  lookupManager : LookupManager
  session : Session
  readings : ℕ
  history : List CrawlerEvent

namespace DhtCrawler

def core (s : DhtCrawler) : CrawlerCore :=
  ⟨s.sender, s.lookupManager, s.session, s.readings, s.history⟩

/-- What holds of every crawler with the configuration. -/
structure Configured (W : World) (config : CrawlerConfig) (s : DhtCrawler) : Prop where
  config_eq : s.config = config
  keys : s.families.keys = config.families.keys
  families : ∀ family state, s.families.get? family = some state →
    config.FamilyKept W.net s.history family state
  affinity : ∀ address nodeSocket, s.socketAffinity.get? address = some nodeSocket →
    .received address nodeSocket ∈ s.history
  received : ∀ address nodeSocket, .received address nodeSocket ∈ s.history →
    nodeSocket ∈ config.nodeSockets
  hints : ∀ infoHash node, s.hintNodes.get? infoHash = some node →
    config.Known W.net s.history node
  hashes : ∀ infoHash ∈ s.recentHashes, infoHash.length = nodeIdLength
  resolved : ∀ family hosts host ips, s.resolvedBootstrapHosts.get? family = some hosts →
    hosts.get? host = some ips → ips ≠ [] → ∃ port, .resolved host port family ips ∈ s.history
  secret : s.tokenSecret.length = tokenSecretLength
  keyed : s.lookupManager.Keyed
  filtered : s.lookupManager.Filtered W.net config.lookupLimits (config.accepts W.net)

variable {W : World} {config : CrawlerConfig} {s : DhtCrawler}

/-- The history may grow. -/
theorem Configured.record (h : Configured W config s) {more : List CrawlerEvent}
    (hreceived : ∀ address nodeSocket, .received address nodeSocket ∈ more →
      nodeSocket ∈ config.nodeSockets) :
    Configured W config { s with history := s.history ++ more } :=
  { h with
    families := fun family state hget ↦
      (h.families family state hget).mono (List.subset_append_left _ _)
    affinity := fun address nodeSocket hget ↦
      List.mem_append_left _ (h.affinity address nodeSocket hget)
    received := fun address nodeSocket hmem ↦ (List.mem_append.mp hmem).elim
      (h.received address nodeSocket) (hreceived address nodeSocket)
    hints := fun infoHash node hget ↦
      (h.hints infoHash node hget).mono (List.subset_append_left _ _)
    resolved := fun family hosts host ips hhosts hips hne ↦
      (h.resolved family hosts host ips hhosts hips hne).imp fun _ ↦ List.mem_append_left _ }

/-- A family of the crawler may change. -/
theorem Configured.saveFamily (h : Configured W config s) {state : FamilyState}
    (hmem : state.family ∈ config.families.keys)
    (hstate : config.FamilyKept W.net s.history state.family state) :
    Configured W config { s with families := s.families.insert state.family state } :=
  { h with
    keys := by
      have hcontains : s.families.contains state.family := by
        rw [OrderedMap.contains, OrderedMap.get?_isSome_iff, h.keys]
        exact hmem
      exact (OrderedMap.keys_insert_of_contains hcontains _).trans h.keys
    families := fun family other hget ↦ by
      rw [OrderedMap.get?_insert] at hget
      split at hget
      next heq =>
        rw [← Option.some.inj hget, heq]
        exact hstate
      next => exact h.families family other hget }

theorem Configured.mem_keys (h : Configured W config s) {family : AddressFamily}
    {state : FamilyState} (hget : s.families.get? family = some state) :
    family ∈ config.families.keys := by
  rw [← h.keys, ← OrderedMap.get?_isSome_iff, hget]
  rfl

theorem Configured.isForeign_eq (h : Configured W config s) (node : Node) :
    DhtCrawler.isForeign W s node = config.accepts W.net node := by
  rw [DhtCrawler.isForeign, h.keys, h.config_eq, CrawlerConfig.accepts]

theorem configured_new (W : World) (config : CrawlerConfig) (session : Session) :
    Configured W config (new W config session) where
  config_eq := rfl
  keys := rfl
  families := fun family state hget ↦
    CrawlerConfig.familyKept_familyState ((config.get?_families family).symm.trans hget)
  affinity := fun _ _ hget ↦ by cases hget
  received := fun _ _ hmem ↦ absurd hmem List.not_mem_nil
  hints := fun _ _ hget ↦ by cases hget
  hashes := fun _ hmem ↦ absurd hmem List.not_mem_nil
  resolved := by
    intro family hosts host ips hhosts hips
    have hempty (families : List AddressFamily) :
        ∀ table : OrderedMap AddressFamily (OrderedMap Text (List Text)),
          (∀ family hosts, table.get? family = some hosts → hosts = .empty) →
            ∀ family hosts, (families.foldl (fun hosts family ↦ hosts.insert family .empty)
              table).get? family = some hosts → hosts = .empty := by
      induction families with
      | nil => exact fun _ h ↦ h
      | cons first rest ih =>
        refine fun table h ↦ ih _ fun family hosts hget ↦ ?_
        rw [OrderedMap.get?_insert] at hget
        split at hget
        · exact (Option.some.inj hget).symm
        · exact h family hosts hget
    rw [hempty _ _ (fun _ _ hget ↦ by cases hget) family hosts hhosts] at hips
    cases hips
  secret := W.length_urandom 0 tokenSecretLength
  keyed := LookupManager.keyed_new _ _ _
  filtered := LookupManager.filtered_new _ _ _ _

/-- The invariant, a property of the core, and events that are in the history. -/
structure Good (W : World) (config : CrawlerConfig) (I : CrawlerCore → Prop)
    (past : List CrawlerEvent) (s : DhtCrawler) : Prop where
  configured : Configured W config s
  past : past ⊆ s.history
  kept : I s.core

end DhtCrawler

end DhtScraper
