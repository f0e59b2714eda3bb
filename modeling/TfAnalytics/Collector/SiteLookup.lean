import TfAnalytics.Collector.NetworksMap
import Mathlib.Data.BitVec
import Mathlib.Data.List.Induction

/-!
# Collector — looking up the site of an address

`FindNetwork` (structured_syslog_config.cc) looks for the smallest network of a VPN
that contains an address and is not at the caller's own location. The networks of
a VPN are kept in a vector sorted by their first address: `AddNetwork` inserts at
`std::upper_bound`, `RefreshNetworksMap` collects the indexes of a location and
erases them from the last to the first. `FindNetwork` scans down from the
`upper_bound` of the address.

A range has to be smaller than `UINT32_MAX` to be taken, which that of `0.0.0.0/0`
is not, and an empty location reads as no result.

Main results:

* `vectorAt_run` — what a run of calls leaves in the vectors, and that they are
  sorted.
* `findNetwork_smallest_iff` — when `FindNetwork` names the smallest network.
-/

namespace TfAnalytics.Collector

open TfAnalytics.Lib

-- ---------------------------------------------------------------------------
-- FindNetwork
-- ---------------------------------------------------------------------------

/-- `std::upper_bound` in a sorted vector: the networks that begin no later. -/
def upperBound (networks : List IPNetwork) (network_addr : BitVec 32) : Nat :=
  (networks.takeWhile fun net => net.address_begin ≤ network_addr).length

/-- One round of the loop on `found_network_obj` and `min_range`. -/
def considerNetwork (network_addr : BitVec 32) (src_location : String)
    (s : IPNetwork × BitVec 32) (possible_network_obj : IPNetwork) : IPNetwork × BitVec 32 :=
  let possible_network_range :=
    possible_network_obj.address_end - possible_network_obj.address_begin
  if possible_network_obj.address_begin ≤ network_addr ∧
      network_addr ≤ possible_network_obj.address_end then
    if possible_network_range < s.2 then
      if possible_network_obj.id ≠ src_location then (possible_network_obj, possible_network_range)
      else s
    else s
  else s

/-- The loop from `i = idx - 1` down to 0. An `int` of that value is negative from
`2^31` on. -/
def scanNetworks (network_addr : BitVec 32) (src_location : String) (networks : List IPNetwork)
    (idx : Nat) : IPNetwork × BitVec 32 :=
  (if idx - 1 < 2 ^ 31 then (networks.take idx).reverse else []).foldl
    (considerNetwork network_addr src_location) (⟨0, 0, ""⟩, BitVec.allOnes 32)

def FindNetwork (networks_map : NetworksMap) (ip key src_location : String) : String :=
  let network_addr := IPToUInt ip
  match networks_map.find? key with
  | some networks =>
    let idx := upperBound networks network_addr % 2 ^ 32
    if idx ≤ networks.length ∧ idx ≠ 0 then
      let found_network_obj := (scanNetworks network_addr src_location networks idx).1
      if found_network_obj.id ≠ "" then found_network_obj.id else ""
    else ""
  | none => ""

-- ---------------------------------------------------------------------------
-- Erasing by index
-- ---------------------------------------------------------------------------

/-- `indexes_to_be_deleted`, a vector of `int`. -/
def indexesToBeDeleted (location : String) (networks : List IPNetwork) : List Int :=
  (networks.zipIdx.filter fun e => location = e.1.id).map fun e => (e.2 : Int).bmod (2 ^ 32)

/-- `erase(*v + i)`; `none` outside of the vector. -/
def eraseAt (networks : List IPNetwork) (v : Int) : Option (List IPNetwork) :=
  if 0 ≤ v ∧ v < networks.length then some (networks.eraseIdx v.toNat) else none

def eraseLocation (location : String) (networks : List IPNetwork) : Option (List IPNetwork) :=
  (indexesToBeDeleted location networks).reverse.foldlM eraseAt networks

/-- `RefreshNetworksMap` as it is written, erasing by index. -/
def refreshByIndex (networks_map : NetworksMap) (location : String) : Option NetworksMap :=
  networks_map.mapM fun _ networks => eraseLocation location networks

-- ---------------------------------------------------------------------------
-- Runs
-- ---------------------------------------------------------------------------

inductive NetworkCall where
  | add (key network mask location : String)
  | refresh (location : String)

def networkStep (networks_map : NetworksMap) : NetworkCall → Option NetworksMap
  | .add key network mask location =>
    some (AddNetwork networks_map key (networkOf network mask location))
  | .refresh location => refreshByIndex networks_map location

def runNetworks (calls : List NetworkCall) : Option NetworksMap := calls.foldlM networkStep .empty

/-- The networks of a key: those added and not refreshed away since. -/
def networksOf (key : String) (calls : List NetworkCall) : List IPNetwork :=
  calls.foldl
    (fun networks call =>
      match call with
      | .add k network mask location =>
        if k = key then networks ++ [networkOf network mask location] else networks
      | .refresh location => networks.filter fun net => location ≠ net.id) []

/-- The vector of a key. -/
def vectorAt (networks_map : NetworksMap) (key : String) : List IPNetwork :=
  (networks_map.find? key).getD []

/-- Sorted by `operator<` of `IPNetwork`. -/
def SortedByBegin (networks : List IPNetwork) : Prop :=
  networks.Pairwise fun net net' => net.address_begin ≤ net'.address_begin

theorem sortedByBegin_insertNetwork (net : IPNetwork) {networks : List IPNetwork}
    (h : SortedByBegin networks) : SortedByBegin (insertNetwork net networks) := by
  induction networks with
  | nil => exact List.pairwise_singleton _ _
  | cons other rest ih =>
    obtain ⟨hother, hrest⟩ := List.pairwise_cons.mp h
    rw [insertNetwork]
    split
    next hlt =>
      refine List.pairwise_cons.mpr ⟨fun net' hnet' => ?_, h⟩
      have hle : net.address_begin ≤ other.address_begin := BitVec.le_of_lt hlt
      rcases List.mem_cons.mp hnet' with rfl | hnet'
      · exact hle
      · exact BitVec.le_trans hle (hother net' hnet')
    next hnot =>
      refine List.pairwise_cons.mpr ⟨fun net' hnet' => ?_, ih hrest⟩
      rcases List.mem_cons.mp ((insertNetwork_perm net rest).mem_iff.mp hnet') with rfl | hnet'
      · exact BitVec.not_lt.mp hnot
      · exact hother net' hnet'

/-- The indexes of a location, as natural numbers. -/
def locationIndexes (location : String) : List IPNetwork → List Nat
  | [] => []
  | net :: rest =>
    (if location = net.id then [0] else []) ++ (locationIndexes location rest).map (· + 1)

theorem zipIdx_filter_eq (location : String) (networks : List IPNetwork) (n : Nat) :
    ((networks.zipIdx n).filter fun e => location = e.1.id).map Prod.snd =
      (locationIndexes location networks).map (· + n) := by
  induction networks generalizing n with
  | nil => rfl
  | cons net rest ih =>
    rw [List.zipIdx_cons, locationIndexes, List.filter_cons]
    have hshift : (locationIndexes location rest).map (· + (n + 1)) =
        ((locationIndexes location rest).map (· + 1)).map (· + n) := by
      rw [List.map_map]
      exact List.map_congr_left fun i _ => by simp only [Function.comp_apply]; omega
    by_cases hid : location = net.id
    · rw [if_pos (by simpa using hid), if_pos hid, List.map_cons, ih, hshift, List.map_append,
        List.map_singleton, Nat.zero_add, List.singleton_append]
    · rw [if_neg (by simpa using hid), if_neg hid, ih, hshift, List.nil_append]

theorem indexesToBeDeleted_eq {location : String} {networks : List IPNetwork}
    (h : networks.length ≤ 2 ^ 31) :
    indexesToBeDeleted location networks =
      (locationIndexes location networks).map fun i : Nat => (i : Int) := by
  have hidx := zipIdx_filter_eq location networks 0
  simp only [Nat.add_zero, List.map_id'] at hidx
  rw [← hidx, indexesToBeDeleted, List.map_map]
  refine List.map_congr_left fun e he => ?_
  have hlt : e.2 < networks.length := by
    have hmem := (List.mem_filter.mp he).1
    exact (List.snd_lt_of_mem_zipIdx hmem)
  show (e.2 : Int).bmod (2 ^ 32) = e.2
  rw [Int.bmod_eq_of_le] <;> omega

/-- Erasing behind the first network leaves it alone. -/
theorem foldlM_eraseAt_cons (net : IPNetwork) {networks result : List IPNetwork}
    {indexes : List Nat}
    (h : (indexes.map fun i : Nat => (i : Int)).foldlM eraseAt networks = some result) :
    ((indexes.map (· + 1)).map fun i : Nat => (i : Int)).foldlM eraseAt (net :: networks) =
      some (net :: result) := by
  induction indexes generalizing networks with
  | nil =>
    obtain rfl : networks = result := Option.some.inj h
    rfl
  | cons i indexes ih =>
    simp only [List.map_cons, List.foldlM_cons] at h ⊢
    by_cases hi : i < networks.length
    · have herase : eraseAt networks (i : Int) = some (networks.eraseIdx i) :=
        if_pos ⟨by omega, by omega⟩
      have herase' : eraseAt (net :: networks) ((i + 1 : Nat) : Int) =
          some (net :: networks.eraseIdx i) :=
        if_pos ⟨by omega, by simp only [List.length_cons]; omega⟩
      rw [herase] at h
      rw [herase']
      exact ih h
    · have herase : eraseAt networks (i : Int) = none := if_neg fun h => hi (by omega)
      rw [herase] at h
      exact absurd h (by simp)

/-- From the last index to the first: no erasure moves one that is still to come. -/
theorem foldlM_eraseAt (location : String) (networks : List IPNetwork) :
    ((locationIndexes location networks).reverse.map fun i : Nat => (i : Int)).foldlM eraseAt
        networks = some (networks.filter fun net => location ≠ net.id) := by
  induction networks with
  | nil => rfl
  | cons net rest ih =>
    have hrest := foldlM_eraseAt_cons net ih
    rw [locationIndexes, List.reverse_append, List.map_append, List.foldlM_append,
      ← List.map_reverse, hrest]
    by_cases hid : location = net.id
    · simp [hid, eraseAt]
    · simp [hid]

theorem eraseLocation_eq {location : String} {networks : List IPNetwork}
    (h : networks.length ≤ 2 ^ 31) :
    eraseLocation location networks = some (networks.filter fun net => location ≠ net.id) := by
  rw [eraseLocation, indexesToBeDeleted_eq h, ← List.map_reverse, foldlM_eraseAt]

-- ---------------------------------------------------------------------------
-- The vectors of a run
-- ---------------------------------------------------------------------------

/-- The vector of each key is sorted and has the networks of the key. -/
def VectorsHold (networks_map : NetworksMap) (calls : List NetworkCall) : Prop :=
  ∀ key, SortedByBegin (vectorAt networks_map key) ∧
    (vectorAt networks_map key).Perm (networksOf key calls)

theorem vectorAt_add (m : NetworksMap) (k key : String) (net : IPNetwork) :
    vectorAt (AddNetwork m k net) key =
      if k = key then insertNetwork net (vectorAt m key) else vectorAt m key := by
  unfold AddNetwork vectorAt
  cases hfind : m.find? k with
  | none =>
    simp only [OrderedMap.find?_insert]
    by_cases hk : k = key
    · subst hk
      simp [hfind, insertNetwork]
    · simp [hk, Ne.symm hk]
  | some networks =>
    simp only [OrderedMap.find?_assign]
    by_cases hk : k = key
    · subst hk
      simp [hfind]
    · simp [hk, Ne.symm hk]

theorem refreshByIndex_eq {m : NetworksMap} {location : String}
    (h : ∀ key, (vectorAt m key).length ≤ 2 ^ 31) :
    ∃ m', refreshByIndex m location = some m' ∧
      ∀ key, vectorAt m' key = (vectorAt m key).filter fun net => location ≠ net.id := by
  have hsize : ∀ key networks, m.find? key = some networks → networks.length ≤ 2 ^ 31 := by
    intro key networks hfind
    have := h key
    rw [vectorAt, hfind] at this
    exact this
  obtain ⟨m', hm'⟩ : ∃ m', refreshByIndex m location = some m' :=
    OrderedMap.mapM_isSome fun key networks hfind => by
      rw [eraseLocation_eq (hsize key networks hfind)]
      rfl
  refine ⟨m', hm', fun key => ?_⟩
  rw [vectorAt, vectorAt, OrderedMap.find?_mapM hm']
  cases hfind : m.find? key with
  | none => rfl
  | some networks =>
    rw [Option.bind_some, eraseLocation_eq (hsize key networks hfind)]
    rfl

theorem networksOf_concat (key : String) (calls : List NetworkCall) (call : NetworkCall) :
    networksOf key (calls ++ [call]) =
      match call with
      | .add k network mask location =>
        if k = key then networksOf key calls ++ [networkOf network mask location]
        else networksOf key calls
      | .refresh location => (networksOf key calls).filter fun net => location ≠ net.id := by
  simp only [networksOf, List.foldl_append, List.foldl_cons, List.foldl_nil]

theorem VectorsHold.step {m : NetworksMap} {calls : List NetworkCall} (h : VectorsHold m calls)
    (hsize : ∀ key, (networksOf key calls).length ≤ 2 ^ 31) (call : NetworkCall) :
    ∃ m', networkStep m call = some m' ∧ VectorsHold m' (calls ++ [call]) := by
  cases call with
  | add k network mask location =>
    refine ⟨_, rfl, fun key => ?_⟩
    obtain ⟨hsorted, hperm⟩ := h key
    rw [vectorAt_add, networksOf_concat]
    by_cases hk : k = key
    · simp only [if_pos hk]
      have hinsert := insertNetwork_perm (networkOf network mask location) (vectorAt m key)
      exact ⟨sortedByBegin_insertNetwork _ hsorted,
        (hinsert.trans (hperm.cons _)).trans (List.perm_append_singleton _ _).symm⟩
    · simp only [if_neg hk]
      exact ⟨hsorted, hperm⟩
  | refresh location =>
    obtain ⟨m', hm', hvec⟩ := @refreshByIndex_eq m location fun key => by
      rw [(h key).2.length_eq]
      exact hsize key
    refine ⟨m', hm', fun key => ?_⟩
    obtain ⟨hsorted, hperm⟩ := h key
    rw [hvec, networksOf_concat]
    exact ⟨hsorted.filter _, hperm.filter _⟩

/-- As long as no key has more than `2^31` networks the calls go through, and the
vectors are what they should be. -/
theorem vectorAt_run {calls : List NetworkCall}
    (hsize : ∀ before after, calls = before ++ after → ∀ key,
      (networksOf key before).length ≤ 2 ^ 31) :
    ∃ m, runNetworks calls = some m ∧ VectorsHold m calls := by
  induction calls using List.reverseRecOn with
  | nil =>
    exact ⟨.empty, rfl, fun key => ⟨List.Pairwise.nil, List.Perm.refl _⟩⟩
  | append_singleton calls call ih =>
    obtain ⟨m, hm, hkeeps⟩ := ih fun before after heq => hsize before (after ++ [call])
      (by rw [heq, List.append_assoc])
    obtain ⟨m', hm', hkeeps'⟩ := hkeeps.step (hsize calls [call] rfl) call
    refine ⟨m', ?_, hkeeps'⟩
    rw [runNetworks, List.foldlM_append]
    show (runNetworks calls).bind _ = _
    rw [hm]
    simp [hm']
-- ---------------------------------------------------------------------------
-- The scan
-- ---------------------------------------------------------------------------

/-- The network contains the address and is elsewhere than `src_location`. -/
def Candidate (network_addr : BitVec 32) (src_location : String) (net : IPNetwork) : Prop :=
  net.address_begin ≤ network_addr ∧ network_addr ≤ net.address_end ∧ net.id ≠ src_location

/-- The addresses of a network, less one. -/
def IPNetwork.range (net : IPNetwork) : Nat := net.address_end.toNat - net.address_begin.toNat

/-- `result` names the smallest candidate, and is empty when there is none. -/
structure NamesSmallest (networks : List IPNetwork) (network_addr : BitVec 32)
    (src_location result : String) : Prop where
  smallest : (∃ net ∈ networks, Candidate network_addr src_location net) →
    ∃ net ∈ networks, Candidate network_addr src_location net ∧ result = net.id ∧
      ∀ other ∈ networks, Candidate network_addr src_location other → net.range ≤ other.range
  empty_iff : result = "" ↔ ¬ ∃ net ∈ networks, Candidate network_addr src_location net

/-- The last of the smallest candidates in the vector. -/
def LastSmallest (networks : List IPNetwork) (network_addr : BitVec 32) (src_location : String)
    (net : IPNetwork) : Prop :=
  Candidate network_addr src_location net ∧ ∃ before after, networks = before ++ net :: after ∧
    (∀ other ∈ before, Candidate network_addr src_location other → net.range ≤ other.range) ∧
    ∀ other ∈ after, Candidate network_addr src_location other → net.range < other.range

section

variable {network_addr : BitVec 32} {src_location : String} {networks : List IPNetwork}
  {net net' : IPNetwork}

theorem Candidate.toNat_range (h : Candidate network_addr src_location net) :
    (net.address_end - net.address_begin).toNat = net.range := by
  have hle := BitVec.le_trans h.1 h.2.1
  rw [BitVec.toNat_sub_of_le hle]
  rfl

theorem LastSmallest.mem (h : LastSmallest networks network_addr src_location net) :
    net ∈ networks := by
  obtain ⟨-, before, after, rfl, -⟩ := h
  simp

theorem LastSmallest.le (h : LastSmallest networks network_addr src_location net)
    {other : IPNetwork} (hmem : other ∈ networks)
    (hother : Candidate network_addr src_location other) : net.range ≤ other.range := by
  obtain ⟨-, before, after, rfl, hbefore, hafter⟩ := h
  rcases List.mem_append.mp hmem with hmem | hmem
  · exact hbefore other hmem hother
  rcases List.mem_cons.mp hmem with rfl | hmem
  · exact le_refl _
  · exact le_of_lt (hafter other hmem hother)

theorem considerNetwork_take {s : IPNetwork × BitVec 32}
    (h : Candidate network_addr src_location net)
    (hlt : net.address_end - net.address_begin < s.2) :
    considerNetwork network_addr src_location s net =
      (net, net.address_end - net.address_begin) := by
  unfold considerNetwork
  rw [if_pos ⟨h.1, h.2.1⟩]
  show (if net.address_end - net.address_begin < s.2 then _ else _) = _
  rw [if_pos hlt, if_pos h.2.2]

theorem considerNetwork_skip {s : IPNetwork × BitVec 32}
    (h : ¬ (Candidate network_addr src_location net ∧
      net.address_end - net.address_begin < s.2)) :
    considerNetwork network_addr src_location s net = s := by
  unfold considerNetwork
  split
  next hcontains =>
    show (if net.address_end - net.address_begin < s.2 then _ else _) = _
    split
    next hlt =>
      split
      next hid => exact absurd ⟨⟨hcontains.1, hcontains.2, hid⟩, hlt⟩ h
      · rfl
    · rfl
  · rfl

theorem LastSmallest.cons (h : LastSmallest networks network_addr src_location net)
    (hskip : Candidate network_addr src_location net' → net.range ≤ net'.range) :
    LastSmallest (net' :: networks) network_addr src_location net := by
  obtain ⟨hcand, before, after, rfl, hbefore, hafter⟩ := h
  refine ⟨hcand, net' :: before, after, rfl, fun other hmem hother => ?_, hafter⟩
  rcases List.mem_cons.mp hmem with rfl | hmem
  · exact hskip hother
  · exact hbefore other hmem hother

theorem LastSmallest.append (h : LastSmallest networks network_addr src_location net)
    {rest : List IPNetwork} (hrest : ∀ other ∈ rest, ¬ Candidate network_addr src_location other) :
    LastSmallest (networks ++ rest) network_addr src_location net := by
  obtain ⟨hcand, before, after, rfl, hbefore, hafter⟩ := h
  refine ⟨hcand, before, after ++ rest, by simp, hbefore, fun other hmem hother => ?_⟩
  rcases List.mem_append.mp hmem with hmem | hmem
  · exact hafter other hmem hother
  · exact absurd hother (hrest other hmem)

theorem LastSmallest.unique (h : LastSmallest networks network_addr src_location net)
    (h' : LastSmallest networks network_addr src_location net') : net = net' := by
  obtain ⟨hcand, before, after, hsplit, hbefore, hafter⟩ := h
  obtain ⟨hcand', before', after', hsplit', hbefore', hafter'⟩ := h'
  rw [hsplit] at hsplit'
  -- of two different ones the earlier would be strictly smaller, and the later not larger
  rcases List.append_eq_append_iff.mp hsplit' with ⟨mid, hmid, htail⟩ | ⟨mid, hmid, htail⟩
  · cases mid with
    | nil => exact (List.cons.inj htail).1
    | cons x mid =>
      obtain ⟨rfl, hafter''⟩ := List.cons.inj htail
      have hlt := hafter net' (hafter'' ▸ List.mem_append_right mid List.mem_cons_self) hcand'
      have hle := hbefore' net (hmid ▸ List.mem_append_right before List.mem_cons_self) hcand
      omega
  · cases mid with
    | nil => exact (List.cons.inj htail).1.symm
    | cons x mid =>
      obtain ⟨rfl, hafter''⟩ := List.cons.inj htail
      have hlt := hafter' net (hafter'' ▸ List.mem_append_right mid List.mem_cons_self) hcand
      have hle := hbefore net' (hmid ▸ List.mem_append_right before' List.mem_cons_self) hcand'
      omega

/-- What the loop has found in the networks it has seen. -/
def ScanFound (networks : List IPNetwork) (network_addr : BitVec 32) (src_location : String)
    (result : IPNetwork × BitVec 32) : Prop :=
  (result = (⟨0, 0, ""⟩, BitVec.allOnes 32) ∧
    ∀ net ∈ networks, Candidate network_addr src_location net → 2 ^ 32 - 1 ≤ net.range) ∨
  ∃ net, LastSmallest networks network_addr src_location net ∧ net.range < 2 ^ 32 - 1 ∧
    result = (net, net.address_end - net.address_begin)

/-- The loop ends with the last of the smallest candidates, if that is below
`UINT32_MAX`. -/
theorem scanFound_foldr (networks : List IPNetwork) :
    ScanFound networks network_addr src_location
      (networks.foldr (fun net s => considerNetwork network_addr src_location s net)
        (⟨0, 0, ""⟩, BitVec.allOnes 32)) := by
  induction networks with
  | nil => exact .inl ⟨rfl, fun net hnet => absurd hnet List.not_mem_nil⟩
  | cons net rest ih =>
    rw [List.foldr_cons]
    rcases ih with ⟨hresult, hnone⟩ | ⟨best, hbest, hmax, hresult⟩
    · rw [hresult]
      by_cases htake : Candidate network_addr src_location net ∧
          net.address_end - net.address_begin < BitVec.allOnes 32
      · have hrange := htake.1.toNat_range
        have hlt : net.range < 2 ^ 32 - 1 := by
          have := BitVec.lt_def.mp htake.2
          rw [hrange, BitVec.toNat_allOnes] at this
          exact this
        rw [considerNetwork_take htake.1 htake.2]
        refine .inr ⟨net, ⟨htake.1, [], rest, rfl, by simp, fun other hmem hother => ?_⟩, hlt, rfl⟩
        have := hnone other hmem hother
        omega
      · rw [considerNetwork_skip htake]
        refine .inl ⟨rfl, fun other hmem hother => ?_⟩
        rcases List.mem_cons.mp hmem with rfl | hmem
        · have hnot : ¬ other.address_end - other.address_begin < BitVec.allOnes 32 :=
            fun hlt => htake ⟨hother, hlt⟩
          rw [BitVec.lt_def, hother.toNat_range, BitVec.toNat_allOnes] at hnot
          omega
        · exact hnone other hmem hother
    · rw [hresult]
      by_cases htake : Candidate network_addr src_location net ∧
          net.address_end - net.address_begin < best.address_end - best.address_begin
      · have hlt : net.range < best.range := by
          rw [← htake.1.toNat_range, ← hbest.1.toNat_range]
          exact htake.2
        rw [considerNetwork_take htake.1 htake.2]
        refine .inr ⟨net, ⟨htake.1, [], rest, rfl, by simp, fun other hmem hother => ?_⟩,
          by omega, rfl⟩
        have := hbest.le hmem hother
        omega
      · rw [considerNetwork_skip htake]
        refine .inr ⟨best, hbest.cons fun hcand => ?_, hmax, rfl⟩
        have hnot : ¬ net.range < best.range := by
          rw [← hcand.toNat_range, ← hbest.1.toNat_range]
          exact fun hlt => htake ⟨hcand, hlt⟩
        omega

-- ---------------------------------------------------------------------------
-- FindNetwork on a sorted vector
-- ---------------------------------------------------------------------------

theorem take_upperBound (networks : List IPNetwork) (network_addr : BitVec 32) :
    networks.take (upperBound networks network_addr) =
      networks.takeWhile fun net => net.address_begin ≤ network_addr := by
  have hsplit := @List.takeWhile_append_dropWhile _
    (fun net : IPNetwork => decide (net.address_begin ≤ network_addr)) networks
  have hlen : upperBound networks network_addr =
      (networks.takeWhile fun net => net.address_begin ≤ network_addr).length := rfl
  rw [hlen]
  generalize networks.takeWhile _ = scanned at hsplit ⊢
  rw [← hsplit]
  exact List.take_left

/-- Behind the upper bound every network begins after the address. -/
theorem not_candidate_of_dropWhile (h : SortedByBegin networks) :
    ∀ net ∈ networks.dropWhile (fun net => net.address_begin ≤ network_addr),
      ¬ Candidate network_addr src_location net := by
  induction networks with
  | nil => simp
  | cons first rest ih =>
    obtain ⟨hfirst, hrest⟩ := List.pairwise_cons.mp h
    rw [List.dropWhile_cons]
    split
    · exact ih hrest
    next hnot =>
      intro net hmem hcand
      have hbegin : first.address_begin ≤ net.address_begin := by
        rcases List.mem_cons.mp hmem with rfl | hmem
        · exact BitVec.le_refl _
        · exact hfirst net hmem
      exact hnot (by simpa using BitVec.le_trans hbegin hcand.1)

theorem scanFound_scanNetworks (hsorted : SortedByBegin networks) (hsize : networks.length ≤ 2 ^ 31) :
    ScanFound networks network_addr src_location
      (scanNetworks network_addr src_location networks (upperBound networks network_addr)) := by
  have hle : upperBound networks network_addr ≤ networks.length :=
    (List.takeWhile_sublist _).length_le
  have hsplit := @List.takeWhile_append_dropWhile _
    (fun net : IPNetwork => decide (net.address_begin ≤ network_addr)) networks
  have hrest := @not_candidate_of_dropWhile network_addr src_location networks hsorted
  rw [scanNetworks, if_pos (by omega), List.foldl_reverse, take_upperBound]
  generalize networks.takeWhile _ = scanned at hsplit ⊢
  rcases @scanFound_foldr network_addr src_location scanned with ⟨hresult, hnone⟩ | ⟨net, hnet, h⟩
  · refine .inl ⟨hresult, fun net hmem hcand => ?_⟩
    rw [← hsplit] at hmem
    rcases List.mem_append.mp hmem with hmem | hmem
    · exact hnone net hmem hcand
    · exact absurd hcand (hrest net hmem)
  · refine .inr ⟨net, ?_, h⟩
    rw [← hsplit]
    exact hnet.append hrest

end

theorem FindNetwork_eq {m : NetworksMap} {ip key src_location : String}
    (hsize : (vectorAt m key).length ≤ 2 ^ 31) :
    FindNetwork m ip key src_location =
      (scanNetworks (IPToUInt ip) src_location (vectorAt m key)
        (upperBound (vectorAt m key) (IPToUInt ip))).1.id := by
  unfold FindNetwork vectorAt at *
  cases hfind : m.find? key with
  | none => rfl
  | some networks =>
    rw [hfind] at hsize
    have hsize : networks.length ≤ 2 ^ 31 := hsize
    have hle : upperBound networks (IPToUInt ip) ≤ networks.length :=
      (List.takeWhile_sublist _).length_le
    have hmod : upperBound networks (IPToUInt ip) % 2 ^ 32 = upperBound networks (IPToUInt ip) :=
      Nat.mod_eq_of_lt (by omega)
    simp only [Option.getD_some, hmod, hle, true_and]
    by_cases hzero : upperBound networks (IPToUInt ip) = 0
    · rw [if_neg (by simp [hzero]), hzero]
      rfl
    · rw [if_pos hzero]
      split
      · rfl
      next hempty => exact (not_not.mp hempty).symm

theorem exists_lastSmallest {networks : List IPNetwork} {network_addr : BitVec 32}
    {src_location : String} (h : ∃ net ∈ networks, Candidate network_addr src_location net) :
    ∃ net, LastSmallest networks network_addr src_location net := by
  induction networks with
  | nil =>
    obtain ⟨net, hnet, -⟩ := h
    exact absurd hnet List.not_mem_nil
  | cons net rest ih =>
    by_cases hrest : ∃ other ∈ rest, Candidate network_addr src_location other
    · obtain ⟨best, hbest⟩ := ih hrest
      by_cases htake : Candidate network_addr src_location net ∧ net.range < best.range
      · refine ⟨net, htake.1, [], rest, rfl, by simp, fun other hmem hother => ?_⟩
        exact htake.2.trans_le (hbest.le hmem hother)
      · exact ⟨best, hbest.cons fun hcand => not_lt.mp fun hlt => htake ⟨hcand, hlt⟩⟩
    · obtain ⟨other, hmem, hother⟩ := h
      rcases List.mem_cons.mp hmem with rfl | hmem
      · exact ⟨other, hother, [], rest, rfl, by simp,
          fun x hx hcand => absurd ⟨x, hx, hcand⟩ hrest⟩
      · exact absurd ⟨other, hmem, hother⟩ hrest

theorem namesSmallest_iff_of_scanFound {networks : List IPNetwork} {network_addr : BitVec 32}
    {src_location : String} {result : IPNetwork × BitVec 32}
    (h : ScanFound networks network_addr src_location result) :
    NamesSmallest networks network_addr src_location result.1.id ↔
      ∀ net, LastSmallest networks network_addr src_location net →
        net.id ≠ "" ∧ net.range < 2 ^ 32 - 1 := by
  constructor
  · intro hnames net hnet
    have hne : result.1.id ≠ "" := fun hempty =>
      hnames.empty_iff.mp hempty ⟨net, hnet.mem, hnet.1⟩
    rcases h with ⟨hresult, -⟩ | ⟨best, hbest, hmax, hresult⟩
    · rw [hresult] at hne
      exact absurd rfl hne
    · rw [hresult] at hne
      rw [hnet.unique hbest]
      exact ⟨hne, hmax⟩
  · intro hlast
    by_cases hex : ∃ net ∈ networks, Candidate network_addr src_location net
    · obtain ⟨net, hnet⟩ := exists_lastSmallest hex
      obtain ⟨hid, hmax⟩ := hlast net hnet
      rcases h with ⟨-, hnone⟩ | ⟨best, hbest, -, hresult⟩
      · have := hnone net hnet.mem hnet.1
        omega
      · obtain rfl := hnet.unique hbest
        rw [hresult]
        exact ⟨fun _ => ⟨net, hnet.mem, hnet.1, rfl, fun other hmem hother => hnet.le hmem hother⟩,
          ⟨fun h => absurd h hid, fun h => absurd hex h⟩⟩
    · rcases h with ⟨hresult, -⟩ | ⟨best, hbest, -, -⟩
      · rw [hresult]
        exact ⟨fun h => absurd h hex, ⟨fun _ => hex, fun _ => rfl⟩⟩
      · exact absurd ⟨best, hbest.mem, hbest.1⟩ hex

theorem NamesSmallest.congr {networks networks' : List IPNetwork} {network_addr : BitVec 32}
    {src_location result : String} (hperm : networks.Perm networks') :
    NamesSmallest networks network_addr src_location result ↔
      NamesSmallest networks' network_addr src_location result := by
  have himp : ∀ {l l' : List IPNetwork}, l.Perm l' →
      NamesSmallest l network_addr src_location result →
      NamesSmallest l' network_addr src_location result := by
    intro l l' hl h
    constructor
    · rintro ⟨net, hnet, hcand⟩
      obtain ⟨best, hbest, hcand', hresult, hle⟩ := h.smallest ⟨net, hl.mem_iff.mpr hnet, hcand⟩
      exact ⟨best, hl.mem_iff.mp hbest, hcand', hresult,
        fun other hother => hle other (hl.mem_iff.mpr hother)⟩
    · rw [h.empty_iff]
      simp only [hl.mem_iff]
  exact ⟨himp hperm, himp hperm.symm⟩

theorem length_networksOf_le (key : String) (calls : List NetworkCall) :
    (networksOf key calls).length ≤ calls.length := by
  induction calls using List.reverseRecOn with
  | nil => exact Nat.zero_le _
  | append_singleton calls call ih =>
    rw [networksOf_concat, List.length_append, List.length_singleton]
    cases call with
    | add k network mask location =>
      show (if k = key then _ else _ : List IPNetwork).length ≤ _
      split
      · rw [List.length_append, List.length_singleton]
        omega
      · omega
    | refresh location =>
      have hfilter : ((networksOf key calls).filter fun net => location ≠ net.id).length ≤
          (networksOf key calls).length := List.length_filter_le _ _
      show ((networksOf key calls).filter fun net => location ≠ net.id).length ≤ _
      omega

/-- After any calls that leave no key with more than `2^31` networks the vectors are
sorted, and `FindNetwork` is right if and only if the last of the smallest candidates
has a location and is not the whole address space. -/
theorem findNetwork_smallest_iff {calls : List NetworkCall}
    (hsize : ∀ before after, calls = before ++ after → ∀ key,
      (networksOf key before).length ≤ 2 ^ 31) :
    ∃ m, runNetworks calls = some m ∧ ∀ key,
      SortedByBegin (vectorAt m key) ∧ ∀ ip src_location,
        (NamesSmallest (networksOf key calls) (IPToUInt ip) src_location
            (FindNetwork m ip key src_location) ↔
          ∀ net, LastSmallest (vectorAt m key) (IPToUInt ip) src_location net →
            net.id ≠ "" ∧ net.range < 2 ^ 32 - 1) := by
  obtain ⟨m, hm, hvectors⟩ := vectorAt_run hsize
  refine ⟨m, hm, fun key => ?_⟩
  obtain ⟨hsorted, hperm⟩ := hvectors key
  have hlength : (vectorAt m key).length ≤ 2 ^ 31 := by
    rw [hperm.length_eq]
    exact hsize calls [] (by simp) key
  refine ⟨hsorted, fun ip src_location => ?_⟩
  rw [← NamesSmallest.congr hperm, FindNetwork_eq hlength]
  exact namesSmallest_iff_of_scanFound (scanFound_scanNetworks hsorted hlength)

/-- A site inside the range of another one, and a site that is refreshed away. -/
def nestedSites : List NetworkCall :=
  [.add "acme::vpn" "10.0.0.0" "255.0.0.0" "region", .add "acme::vpn" "10.1.0.0" "255.255.0.0" "old",
    .refresh "old", .add "acme::vpn" "10.1.2.0" "255.255.255.0" "office"]

theorem findNetwork_smallest_nested :
    ∃ m, runNetworks nestedSites = some m ∧ ∀ key,
      SortedByBegin (vectorAt m key) ∧ ∀ ip src_location,
        (NamesSmallest (networksOf key nestedSites) (IPToUInt ip) src_location
            (FindNetwork m ip key src_location) ↔
          ∀ net, LastSmallest (vectorAt m key) (IPToUInt ip) src_location net →
            net.id ≠ "" ∧ net.range < 2 ^ 32 - 1) :=
  findNetwork_smallest_iff fun before after heq key => by
    have hlength := congrArg List.length heq
    have hle := length_networksOf_le key before
    rw [List.length_append] at hlength
    have hfour : nestedSites.length = 4 := rfl
    omega

/-- A default route to a hub is never found. -/
def hubOnly : List NetworkCall := [.add "acme::vpn" "0.0.0.0" "0.0.0.0" "hub"]

theorem findNetwork_misses_default_route :
    (runNetworks hubOnly).map (fun m => FindNetwork m "10.1.2.3" "acme::vpn" "office") = some "" ∧
    ¬ NamesSmallest (networksOf "acme::vpn" hubOnly) (IPToUInt "10.1.2.3") "office" "" := by
  refine ⟨by decide +kernel, fun h => ?_⟩
  have hnets : networksOf "acme::vpn" hubOnly = [⟨0, BitVec.allOnes 32, "hub"⟩] := by
    decide +kernel
  rw [hnets] at h
  refine h.empty_iff.mp rfl ⟨_, List.mem_singleton_self _, ?_, ?_, by decide⟩
  · exact Nat.zero_le _
  · show (IPToUInt "10.1.2.3").toNat ≤ (BitVec.allOnes 32).toNat
    rw [BitVec.toNat_allOnes]
    omega

example : (runNetworks nestedSites).map
    (fun m => FindNetwork m "10.1.2.3" "acme::vpn" "branch") = some "office" := by
  decide +kernel

end TfAnalytics.Collector
