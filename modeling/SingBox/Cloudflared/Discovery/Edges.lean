import Mathlib.Data.Finset.Max
import Mathlib.Data.List.DropRight
import SingBox.Cloudflared.Discovery.Response
import SingBox.Cloudflared.Supervisor
import SingBox.Library.StableSort

namespace SingBox.Cloudflared

open Library
open Core (IpAddr SocketAddr)

def EDGE_SRV_SERVICE : String := "v2-origintunneld"
def EDGE_SRV_DOMAIN : String := "argotunnel.com"

-- The order of socket addresses, which is derived: those of version 4 come first.
def addressLe (left right : SocketAddr) : Bool :=
  match left.ip, right.ip with
  | .v4 one, .v4 other => one.toNat < other.toNat || one == other && left.port ≤ right.port
  | .v4 _, .v6 _ => true
  | .v6 _, .v4 _ => false
  | .v6 one, .v6 other => one.toNat < other.toNat || one == other && left.port ≤ right.port

-- The two lookups of the service, and the one of the addresses of a host.
structure Lookups where
  srvSystem : String → Result (List SrvRecord)
  srvDot : String → Result (List SrvRecord)
  host : String → UInt16 → Result (List SocketAddr)

-- `trim_end_matches` of the dot.
def withoutDots (target : String) : String := String.ofList (target.toList.rdropWhile (· = '.'))

def serviceName (credentials : Credentials) (region : String) : String :=
  let effectiveRegion := if credentials.endpoint = "" then region else credentials.endpoint
  let service :=
    if effectiveRegion = "" then EDGE_SRV_SERVICE else s!"{effectiveRegion}-{EDGE_SRV_SERVICE}"
  s!"_{service}._tcp.{EDGE_SRV_DOMAIN}"

def lookupSrv (lookups : Lookups) (name : String) : Result (List SrvRecord) :=
  match lookups.srvSystem name with
  | .ok [] =>
      Result.withContext s!"DoT SRV lookup returned no records for {name}" (lookups.srvDot name)
  | .ok records => .ok records
  | .error chain =>
      let error := chain.headD ""
      Result.withContext s!"system SRV lookup failed for {name}: {error}" (lookups.srvDot name)

def versionOf (address : SocketAddr) : UInt8 :=
  match address.ip with
  | .v4 _ => 4
  | .v6 _ => 6

-- The body of the loop over the records.
def edgesOfRecord (lookups : Lookups) (edgeIpVersion : UInt8) (record : SrvRecord) :
    Result (List EdgeAddr) := do
  let target := record.target
  let addresses ← Result.withContext s!"resolve Cloudflare edge {target}"
    (lookups.host (withoutDots record.target) record.port)
  return (addresses.filter fun address =>
    edgeIpVersion = 0 || edgeIpVersion = versionOf address).map fun address =>
      { address, ipVersion := versionOf address }

def discoverEdges (lookups : Lookups) (credentials : Credentials) (region : String)
    (edgeIpVersion : UInt8) : Result (List EdgeAddr) := do
  let records ← lookupSrv lookups (serviceName credentials region)
  let found ← records.mapM (edgesOfRecord lookups edgeIpVersion)
  let sorted := found.flatten.mergeSort fun left right => addressLe left.address right.address
  let edges := dedupByKey EdgeAddr.address sorted
  Result.ensure (!edges.isEmpty) "no Cloudflare edge addresses match edge_ip_version"
  return edges

theorem addressLe_trans (a b c : SocketAddr) (hab : addressLe a b) (hbc : addressLe b c) :
    addressLe a c := by
  obtain ⟨ipA | ipA, portA⟩ := a <;> obtain ⟨ipB | ipB, portB⟩ := b <;>
    obtain ⟨ipC | ipC, portC⟩ := c <;>
    simp only [addressLe, Bool.or_eq_true, Bool.and_eq_true, decide_eq_true_eq, beq_iff_eq,
      UInt16.le_iff_toNat_le, ← BitVec.toNat_inj, Bool.false_eq_true] at hab hbc ⊢ <;> omega

theorem addressLe_total (a b : SocketAddr) : addressLe a b || addressLe b a := by
  obtain ⟨ipA | ipA, portA⟩ := a <;> obtain ⟨ipB | ipB, portB⟩ := b <;>
    simp only [addressLe, Bool.or_eq_true, Bool.and_eq_true, decide_eq_true_eq, beq_iff_eq,
      UInt16.le_iff_toNat_le, ← BitVec.toNat_inj, Bool.or_false, Bool.false_or] <;> omega

theorem addressLe_antisymm (a b : SocketAddr) (hab : addressLe a b) (hba : addressLe b a) : a = b := by
  obtain ⟨ipA | ipA, portA⟩ := a <;> obtain ⟨ipB | ipB, portB⟩ := b <;>
    simp only [addressLe, Bool.or_eq_true, Bool.and_eq_true, decide_eq_true_eq, beq_iff_eq,
      UInt16.le_iff_toNat_le, ← BitVec.toNat_inj, Bool.false_eq_true] at hab hba
  · have hip : ipA = ipB := BitVec.eq_of_toNat_eq (by omega)
    have hport : portA = portB := UInt16.toNat_inj.mp (by omega)
    rw [hip, hport]
  · have hip : ipA = ipB := BitVec.eq_of_toNat_eq (by omega)
    have hport : portA = portB := UInt16.toNat_inj.mp (by omega)
    rw [hip, hport]

section

variable (records : List SrvRecord) (addressesOf : SrvRecord → List SocketAddr)

-- An address comes from a record that goes before every record the other one comes from.
def Prefers (preferred other : SocketAddr) : Prop :=
  (∃ record ∈ records, other ∈ addressesOf record) ∧
    ∃ record ∈ records, preferred ∈ addressesOf record ∧
      ∀ later ∈ records, other ∈ addressesOf later → record.priority < later.priority

def MostPreferred (address : SocketAddr) : Prop :=
  ∃ record ∈ records, address ∈ addressesOf record ∧
    ∀ other ∈ records, addressesOf other ≠ [] → record.priority ≤ other.priority

structure KeepsPreference (edges : List EdgeAddr) : Prop where
  members : ∀ address, address ∈ edges.map EdgeAddr.address ↔
    ∃ record ∈ records, address ∈ addressesOf record
  once : (edges.map EdgeAddr.address).Nodup
  order : ∀ preferred other, Prefers records addressesOf preferred other →
    [preferred, other].Sublist (edges.map EdgeAddr.address)
  first : ∀ connection : Connection, connection.edges = edges → connection.connectionIndex = 0 →
    ∃ edge, ((Supervisor.new connection).attempt connection).edge = some edge ∧
      MostPreferred records addressesOf edge.address

-- The order of the addresses is that of the records they come from.
def AddressesAgree : Prop :=
  ∀ preferred other, Prefers records addressesOf preferred other → addressLe preferred other

end

-- The addresses of a record that an edge may have.
def matching (resolve : String → UInt16 → List SocketAddr) (edgeIpVersion : UInt8)
    (record : SrvRecord) : List SocketAddr :=
  (resolve (withoutDots record.target) record.port).filter fun address =>
    edgeIpVersion = 0 || edgeIpVersion = versionOf address

section

variable {lookups : Lookups} {credentials : Credentials} {region : String} {edgeIpVersion : UInt8}
  {records : List SrvRecord} {resolve : String → UInt16 → List SocketAddr} {edges : List EdgeAddr}

theorem edgesOfRecord_eq (hresolve : ∀ target port, lookups.host target port = .ok (resolve target port))
    (record : SrvRecord) : edgesOfRecord lookups edgeIpVersion record =
      .ok ((matching resolve edgeIpVersion record).map fun address =>
        ⟨address, versionOf address⟩) := by
  rw [edgesOfRecord, hresolve]
  rfl

-- Sorting and removing leave each address once, in order.
theorem edges_sorted (found : List EdgeAddr) :
    let edges := dedupByKey EdgeAddr.address
      (found.mergeSort fun left right => addressLe left.address right.address)
    ((edges.map EdgeAddr.address).Pairwise fun left right => addressLe left right ∧ left ≠ right) ∧
      ∀ address, address ∈ edges.map EdgeAddr.address ↔ address ∈ found.map EdgeAddr.address := by
  have hsorted := List.pairwise_mergeSort
    (fun a b c : EdgeAddr => addressLe_trans a.address b.address c.address)
    (fun a b : EdgeAddr => addressLe_total a.address b.address) found
  refine ⟨List.pairwise_map.mpr (dedupByKey_strict addressLe_antisymm hsorted), fun address => ?_⟩
  rw [mem_map_dedupByKey]
  exact ((List.mergeSort_perm found _).map EdgeAddr.address).mem_iff

-- What is found is in strict order, and it is what the records resolve to.
theorem discoverEdges_spec (hrecords : lookupSrv lookups (serviceName credentials region) = .ok records)
    (hresolve : ∀ target port, lookups.host target port = .ok (resolve target port))
    (hedges : discoverEdges lookups credentials region edgeIpVersion = .ok edges) :
    edges ≠ [] ∧ ((edges.map EdgeAddr.address).Pairwise fun left right =>
      addressLe left right ∧ left ≠ right) ∧
    ∀ address, address ∈ edges.map EdgeAddr.address ↔
      ∃ record ∈ records, address ∈ matching resolve edgeIpVersion record := by
  rw [discoverEdges, hrecords] at hedges
  obtain ⟨found, hfound, hrest⟩ := Result.bind_eq_ok.mp (hedges : (records.mapM _ >>= _) = _)
  obtain ⟨⟨⟩, hsome, hvalue⟩ := Result.bind_eq_ok.mp hrest
  obtain rfl := Except.ok.inj hvalue
  obtain ⟨hstrict, hmembers⟩ := edges_sorted found.flatten
  have hmap : found = records.map fun record => (matching resolve edgeIpVersion record).map fun address =>
      (⟨address, versionOf address⟩ : EdgeAddr) :=
    Result.mapM_eq_map hfound fun record _ result hresult =>
      (Except.ok.inj ((edgesOfRecord_eq hresolve record).symm.trans hresult)).symm
  refine ⟨?_, hstrict, fun address => ?_⟩
  · intro hempty
    have hnot := Result.ensure_eq_ok.mp hsome
    rw [hempty] at hnot
    cases hnot
  · rw [hmembers, hmap]
    simp

-- A head of the list is preferred to none of the others.
theorem mostPreferred_head {addressesOf : SrvRecord → List SocketAddr} {address : SocketAddr}
    (hfound : ∃ record ∈ records, address ∈ addressesOf record)
    (hfirst : ∀ preferred, ¬Prefers records addressesOf preferred address) :
    MostPreferred records addressesOf address := by
  obtain ⟨given, hgiven, haddress⟩ := hfound
  -- a record of the lowest priority among those that give any address
  have hsome : ((records.filter fun record => addressesOf record ≠ []).toFinset).Nonempty :=
    ⟨given, by simpa [hgiven] using List.ne_nil_of_mem haddress⟩
  obtain ⟨best, hbest, hleast⟩ := Finset.exists_min_image _ (fun record => record.priority.toNat) hsome
  simp only [List.mem_toFinset, List.mem_filter, decide_eq_true_eq] at hbest hleast
  by_cases hhere : ∃ record ∈ records, address ∈ addressesOf record ∧ record.priority ≤ best.priority
  · obtain ⟨record, hrecord, hin, hle⟩ := hhere
    exact ⟨record, hrecord, hin, fun other hother hne =>
      UInt16.le_trans hle (UInt16.le_iff_toNat_le.mpr (hleast other ⟨hother, hne⟩))⟩
  · obtain ⟨preferred, hpreferred⟩ := List.exists_mem_of_ne_nil _ hbest.2
    refine absurd ⟨⟨given, hgiven, haddress⟩, best, hbest.1, hpreferred, ?_⟩ (hfirst preferred)
    intro later hlater hin
    by_contra hnot
    exact hhere ⟨later, hlater, hin, UInt16.not_lt.mp hnot⟩

theorem keeps_preference_iff
    (hrecords : lookupSrv lookups (serviceName credentials region) = .ok records)
    (hresolve : ∀ target port, lookups.host target port = .ok (resolve target port))
    (hedges : discoverEdges lookups credentials region edgeIpVersion = .ok edges) :
    KeepsPreference records (matching resolve edgeIpVersion) edges ↔
      AddressesAgree records (matching resolve edgeIpVersion) := by
  obtain ⟨hne, hstrict, hmembers⟩ := discoverEdges_spec hrecords hresolve hedges
  have hasymm : ∀ left right, (addressLe left right ∧ left ≠ right) →
      ¬((addressLe right left : Prop) ∧ right ≠ left) :=
    fun left right hless hback => hless.2 (addressLe_antisymm left right hless.1 hback.1)
  have hpair := pair_sublist_iff hasymm hstrict
  constructor
  · intro hkeeps preferred other hprefers
    exact ((hpair preferred other).mp (hkeeps.order preferred other hprefers)).2.2.1
  · intro hagree
    have horder : ∀ preferred other, Prefers records (matching resolve edgeIpVersion) preferred other →
        [preferred, other].Sublist (edges.map EdgeAddr.address) := by
      intro preferred other hprefers
      have hless := hagree preferred other hprefers
      obtain ⟨hother, record, hrecord, hin, hlower⟩ := hprefers
      refine (hpair preferred other).mpr ⟨(hmembers preferred).mpr ⟨record, hrecord, hin⟩,
        (hmembers other).mpr hother, hless, ?_⟩
      rintro rfl
      exact UInt16.lt_irrefl _ (hlower record hrecord hin)
    refine ⟨hmembers, hstrict.imp And.right, horder, ?_⟩
    intro connection hconnection hindex
    obtain ⟨edge, rest, rfl⟩ := List.exists_cons_of_ne_nil hne
    have hzero : connection.connectionIndex.toNat % connection.edges.length = 0 := by
      rw [hindex]
      exact Nat.zero_mod _
    refine ⟨edge, ?_, mostPreferred_head ((hmembers edge.address).mp (by simp)) ?_⟩
    · show connection.edges[connection.connectionIndex.toNat % connection.edges.length]? = some edge
      rw [hzero, hconnection]
      rfl
    · intro preferred hprefers
      obtain ⟨hfront, -, hless⟩ := (hpair _ _).mp (horder preferred edge.address hprefers)
      obtain hhead | htail := List.mem_cons.mp hfront
      · exact hless.2 hhead
      · exact hasymm _ _ ((List.pairwise_cons.mp hstrict).1 preferred htail) hless

end

-- Two records, and a resolver for the hosts they name.
def PREFERENCES : List SrvRecord := [⟨1, 1, 7844, "a"⟩, ⟨2, 1, 7844, "b"⟩]

def hostAt (first second : BitVec 32) (target : String) (port : UInt16) : List SocketAddr :=
  [⟨.v4 (if target = "a" then first else second), port⟩]

def lookupsOf (resolve : String → UInt16 → List SocketAddr) : Lookups where
  srvSystem _ := .ok PREFERENCES
  srvDot _ := .ok []
  host target port := .ok (resolve target port)

def NO_CREDENTIALS : Credentials := ⟨"", [], [], ""⟩

def LOW : BitVec 32 := 0xc6336401
def HIGH : BitVec 32 := 0xc6336402

def edgeAt (ip : BitVec 32) : EdgeAddr := ⟨⟨.v4 ip, 7844⟩, 4⟩

theorem discoverEdges_hosts (first second : BitVec 32) {sorted : List EdgeAddr}
    (hsorted : [edgeAt first, edgeAt second].mergeSort
      (fun left right => addressLe left.address right.address) = sorted) :
    discoverEdges (lookupsOf (hostAt first second)) NO_CREDENTIALS "" 0 =
      (Result.ensure (!(dedupByKey EdgeAddr.address sorted).isEmpty)
        "no Cloudflare edge addresses match edge_ip_version" >>= fun _ =>
          .ok (dedupByKey EdgeAddr.address sorted)) := by
  rw [← hsorted]
  rfl

theorem low_first (edges : List EdgeAddr) (h : edges = [edgeAt LOW, edgeAt HIGH] ∨
      edges = [edgeAt HIGH, edgeAt LOW]) :
    edges.mergeSort (fun left right => addressLe left.address right.address) =
      [edgeAt LOW, edgeAt HIGH] := by
  have hle : addressLe (edgeAt LOW).address (edgeAt HIGH).address = true := by decide
  have hnot : addressLe (edgeAt HIGH).address (edgeAt LOW).address = false := by decide
  obtain rfl | rfl := h
  · exact List.mergeSort_of_pairwise (by simp [hle])
  · simp [List.mergeSort, List.MergeSort.Internal.splitInTwo, hnot]

theorem keeps_preference_low : ∃ edges,
    discoverEdges (lookupsOf (hostAt LOW HIGH)) NO_CREDENTIALS "" 0 = .ok edges ∧
      KeepsPreference PREFERENCES (matching (hostAt LOW HIGH) 0) edges := by
  have hedges : discoverEdges (lookupsOf (hostAt LOW HIGH)) NO_CREDENTIALS "" 0 =
      .ok [edgeAt LOW, edgeAt HIGH] := discoverEdges_hosts LOW HIGH (low_first _ (.inl rfl))
  refine ⟨_, hedges, (keeps_preference_iff rfl (fun _ _ => rfl) hedges).mpr ?_⟩
  intro preferred other hprefers
  obtain ⟨⟨record, hrecord, hother⟩, best, hbest, hpreferred, hlower⟩ := hprefers
  have hless := hlower record hrecord hother
  simp only [PREFERENCES, List.mem_cons, List.not_mem_nil, or_false] at hrecord hbest
  obtain rfl | rfl := hbest
  · obtain rfl : preferred = ⟨.v4 LOW, 7844⟩ := List.mem_singleton.mp hpreferred
    obtain rfl | rfl := hrecord
    · exact absurd hless (by decide)
    · obtain rfl : other = ⟨.v4 HIGH, 7844⟩ := List.mem_singleton.mp hother
      decide
  · obtain rfl | rfl := hrecord
    · exact absurd hless (by decide)
    · exact absurd hless (by decide)

-- The host of the record that goes first has the greater address.
theorem not_keeps_preference : ¬∀ (lookups : Lookups) (credentials : Credentials) (region : String)
    (edgeIpVersion : UInt8) (records : List SrvRecord) (resolve : String → UInt16 → List SocketAddr)
    (edges : List EdgeAddr), records.Pairwise SrvRecord.Before →
    lookupSrv lookups (serviceName credentials region) = .ok records →
    (∀ target port, lookups.host target port = .ok (resolve target port)) →
    discoverEdges lookups credentials region edgeIpVersion = .ok edges →
    KeepsPreference records (matching resolve edgeIpVersion) edges := by
  intro hall
  have hedges : discoverEdges (lookupsOf (hostAt HIGH LOW)) NO_CREDENTIALS "" 0 =
      .ok [edgeAt LOW, edgeAt HIGH] := discoverEdges_hosts HIGH LOW (low_first _ (.inr rfl))
  have hsorted : PREFERENCES.Pairwise SrvRecord.Before := by
    simp [PREFERENCES, SrvRecord.Before]
  have hkeeps := hall _ _ _ _ _ _ _ hsorted rfl (fun _ _ => rfl) hedges
  have hprefers : Prefers PREFERENCES (matching (hostAt HIGH LOW) 0) ⟨.v4 HIGH, 7844⟩ ⟨.v4 LOW, 7844⟩ := by
    refine ⟨⟨⟨2, 1, 7844, "b"⟩, by simp [PREFERENCES], by decide⟩, ⟨1, 1, 7844, "a"⟩,
      by simp [PREFERENCES], by decide, ?_⟩
    intro later hlater hin
    simp only [PREFERENCES, List.mem_cons, List.not_mem_nil, or_false] at hlater
    obtain rfl | rfl := hlater
    · exact absurd hin (by decide)
    · decide
  exact absurd (hkeeps.order _ _ hprefers) (by decide)

end SingBox.Cloudflared
