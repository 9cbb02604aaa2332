import HydraCache.Cluster.Membership
import HydraCache.Lib.OrderedMap

/-!
# Events of a replaced membership

A cluster takes over the tables of a staged one and tells its subscribers by events: first the
entries that are gone or changed leave their table, then the new and changed ones join theirs. A
subscriber that follows the events from the tables there were comes to the tables there are
(`foldl_membershipReplacementEvents`).

Scope. The endpoints and the metadata of a participant are only compared and passed on, so they are
of any type. The event history and the topology stamp are left out.
-/

set_option autoImplicit false

namespace HydraCache.Cluster

open Lib List

variable {δ : Type}

structure AdvertisedMember (δ : Type) extends ClusterMember where
  advertised : δ
deriving DecidableEq

/-- A table with every participant under its own id. -/
structure MembershipTable (δ : Type) extends OrderedMap NodeId (AdvertisedMember δ) where
  nodeId_row : ∀ row ∈ rows, row.2.nodeId = row.1

structure MembershipImage (δ : Type) where
  members : MembershipTable δ
  clients : MembershipTable δ

inductive MembershipEvent (δ : Type)
  | memberJoined (member : AdvertisedMember δ)
  | clientConnected (client : AdvertisedMember δ)
  | nodeLeft (nodeId : NodeId) (role : ClusterRole) (epoch : ℕ)

/-- The place in the tables that an event is about, and what is there from then on. -/
def MembershipEvent.change : MembershipEvent δ →
    (ClusterRole × NodeId) × Option (AdvertisedMember δ)
  | .memberJoined member => ((.member, member.nodeId), some member)
  | .clientConnected client => ((.client, client.nodeId), some client)
  | .nodeLeft node role _ => ((role, node), none)

/-- What a subscriber knows of the tables. -/
abbrev View (δ : Type) := ClusterRole × NodeId → Option (AdvertisedMember δ)

def View.follow (view : View δ) (event : MembershipEvent δ) : View δ :=
  Function.update view event.change.1 event.change.2

def MembershipImage.view (image : MembershipImage δ) : View δ
  | (.member, node) => image.members.get node
  | (.client, node) => image.clients.get node
  | (.local, _) => none

/-- What follows the events at a place is there, if there are any and they agree. -/
theorem foldl_follow {events : List (MembershipEvent δ)} {place : ClusterRole × NodeId}
    (entry : Option (AdvertisedMember δ))
    (h : ∀ event ∈ events, event.change.1 = place → event.change.2 = entry) (view : View δ) :
    events.foldl View.follow view place =
      if place ∈ events.map (·.change.1) then entry else view place := by
  induction events generalizing view with
  | nil => rfl
  | cons event events ih =>
    rw [foldl_cons, ih fun event hevent ↦ h event (mem_cons_of_mem _ hevent), View.follow]
    by_cases hplace : event.change.1 = place
    · simp [← hplace, h event mem_cons_self hplace]
    · simp [Ne.symm hplace]

/-- Assumes: each row gives an event about its place in the table of a role. A subscriber then has,
for the rows that give one, what the events say. -/
theorem foldl_rows {table : MembershipTable δ} {role : ClusterRole}
    {event : NodeId × AdvertisedMember δ → MembershipEvent δ}
    {keep : NodeId × AdvertisedMember δ → Bool}
    (entry : AdvertisedMember δ → Option (AdvertisedMember δ))
    (h : ∀ row ∈ table.rows, (event row).change = ((role, row.1), entry row.2)) (view : View δ)
    (place : ClusterRole × NodeId) :
    ((table.rows.filter keep).map event).foldl View.follow view place =
      if place.1 = role ∧ ∃ member ∈ table.get place.2, keep (place.2, member) then
        (table.get place.2).bind entry
      else view place := by
  rw [foldl_follow ((table.get place.2).bind entry) fun change hchg hplace ↦ ?_]
  · refine if_congr ?_ rfl rfl
    simp only [map_map, mem_map, mem_filter, Prod.exists, ← OrderedMap.get_eq_some_iff,
      Function.comp_apply]
    constructor
    · rintro ⟨node, member, ⟨hget, hkeep⟩, rfl⟩
      rw [h _ ((OrderedMap.get_eq_some_iff ..).mp hget)]
      exact ⟨rfl, member, hget, hkeep⟩
    · rintro ⟨rfl, member, hget, hkeep⟩
      exact ⟨_, member, ⟨hget, hkeep⟩, by rw [h _ ((OrderedMap.get_eq_some_iff ..).mp hget)]⟩
  · obtain ⟨row, hrow, rfl⟩ := mem_map.mp hchg
    have hmem := (mem_filter.mp hrow).1
    rw [h row hmem] at hplace ⊢
    subst hplace
    rw [(OrderedMap.get_eq_some_iff ..).mpr hmem]
    rfl

section

variable [DecidableEq δ] (current replacement : MembershipTable δ)

/-- The entries of one table that are gone or changed leave it. -/
def leaves (role : ClusterRole) (epoch : ℕ) : List (MembershipEvent δ) :=
  (current.rows.filter fun row ↦ replacement.get row.1 ≠ some row.2).map fun row ↦
    .nodeLeft row.1 role epoch

/-- The new and changed entries of one table join it. -/
def joins (event : AdvertisedMember δ → MembershipEvent δ) : List (MembershipEvent δ) :=
  (replacement.rows.filter fun row ↦ current.get row.1 ≠ some row.2).map fun row ↦ event row.2

end

variable [DecidableEq δ]

def membershipReplacementEvents (current replacement : MembershipImage δ) (epoch : ℕ) :
    List (MembershipEvent δ) :=
  leaves current.members replacement.members .member epoch ++
    leaves current.clients replacement.clients .client epoch ++
    joins current.members replacement.members .memberJoined ++
    joins current.clients replacement.clients .clientConnected

/-- Where the entry there was leaves unless it stays and the one there is joins unless it was there,
the one there is is there. -/
theorem of_changes (old new : Option (AdvertisedMember δ)) :
    (if ∃ entry, new = some entry ∧ ¬ old = some entry then new
      else if ∃ entry, old = some entry ∧ ¬ new = some entry then none else old) = new := by
  cases old <;> cases new <;> simp
  exact fun h ↦ ⟨h.symm, h⟩

/-- The subscriber that follows the events of a replacement comes from the tables there were to
those that replace them. -/
theorem foldl_membershipReplacementEvents (current replacement : MembershipImage δ) (epoch : ℕ) :
    (membershipReplacementEvents current replacement epoch).foldl View.follow current.view =
      replacement.view := by
  have hmember : ∀ row ∈ replacement.members.rows,
      (MembershipEvent.memberJoined row.2).change = ((.member, row.1), some row.2) :=
        fun row hrow ↦ by
    rw [MembershipEvent.change, replacement.members.nodeId_row row hrow]
  have hclient : ∀ row ∈ replacement.clients.rows,
      (MembershipEvent.clientConnected row.2).change = ((.client, row.1), some row.2) :=
        fun row hrow ↦ by
    rw [MembershipEvent.change, replacement.clients.nodeId_row row hrow]
  funext ⟨role, node⟩
  simp only [membershipReplacementEvents, foldl_append, leaves, joins, foldl_rows some hmember,
    foldl_rows some hclient]
  rw [foldl_rows (fun _ ↦ none) fun _ _ ↦ rfl, foldl_rows (fun _ ↦ none) fun _ _ ↦ rfl]
  cases role with
  | «local» => rfl
  | member => simp [MembershipImage.view, of_changes]
  | client => simp [MembershipImage.view, of_changes]

end HydraCache.Cluster
