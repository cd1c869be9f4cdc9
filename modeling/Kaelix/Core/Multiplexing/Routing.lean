import Kaelix.Core.Multiplexing.Router
import Kaelix.Lib.History

/-!
# Routing to registered streams

A stream is registered from `add_stream` to `remove_stream`, with the region of the last
`add_stream`.  The hash ring holds registered streams only.  The table of streams may hold others:
`update_stream_metrics` inserts whatever it gets.  The lists of the regions may hold streams that
were removed or moved.
-/

namespace Kaelix.Core.Multiplexing

open Lib IntelligentRouter ConsistentHashRing

variable {Load Score : Type} (hash : String → UInt64)

/-! ### Where results come from -/

def RoutingResult.streams (result : RoutingResult Score) : List UInt64 :=
  result.targetStream :: result.alternatives

/-- A result comes from the table of streams, from the hash ring, or from the list of the
region of the message. -/
inductive Routed (r : IntelligentRouter Load) (metadata : MessageMetadata)
    (result : RoutingResult Score) : Prop
  | table (hused : result.strategyUsed ≠ .geographic)
      (hstrs : ∀ id ∈ result.streams, (r.streams.lookup id).isSome)
  | ring (hused : result.strategyUsed ≠ .geographic)
      (htgt : ∃ key, r.hashRing.getNode hash key = some result.targetStream)
      (halt : result.alternatives = [])
  | region (region : String) (regionStreams : List UInt64)
      (horig : metadata.originRegion = some region)
      (hget : r.regionMapping.lookup region = some regionStreams)
      (hmem : result.targetStream ∈ regionStreams)
      (hpres : (r.streams.lookup result.targetStream).isSome)
      (halt : result.alternatives =
        regionStreams.filter fun s => s ≠ result.targetStream)

variable {regionStreams : List UInt64}

section

variable {hash} {judge : Judge Load Score} {r : IntelligentRouter Load}
  {metadata : MessageMetadata} {result : RoutingResult Score}

private theorem isSome_of_mem_keys {target : UInt64} (htgt : target ∈ r.streams.keys) :
    ∀ id ∈ target :: r.streams.keys.filter fun s => s ≠ target, (r.streams.lookup id).isSome := by
  intro id hid
  apply AList.lookup_isSome.mpr
  rcases List.mem_cons.mp hid with rfl | hid
  · exact htgt
  · exact List.mem_of_mem_filter hid

theorem routed_roundRobin (h : (r.routeRoundRobin judge).1 = .ok result) :
    Routed hash r metadata result := by
  unfold routeRoundRobin at h
  dsimp only at h
  split at h
  · cases h
  · cases h
    exact .table (by simp) (isSome_of_mem_keys (List.get_mem _ _))

private theorem leastLoaded_spec (h : r.routeLeastLoaded judge = .ok result) :
    result.strategyUsed = .leastLoaded ∧
      ∀ id ∈ result.streams, (r.streams.lookup id).isSome := by
  unfold routeLeastLoaded at h
  split at h
  · cases h
  · split at h
    · cases h
    · next e he =>
      cases h
      have hent := List.mem_of_mem_filter (maxBy_mem he)
      exact ⟨rfl, isSome_of_mem_keys (List.mem_map_of_mem hent)⟩

theorem routed_leastLoaded (h : r.routeLeastLoaded judge = .ok result) :
    Routed hash r metadata result := by
  obtain ⟨hused, hstrs⟩ := leastLoaded_spec h
  exact .table (by simp [hused]) hstrs

theorem routed_priorityBased (h : r.routePriorityBased judge = .ok result) :
    Routed hash r metadata result := by
  unfold routePriorityBased at h
  cases hleast : r.routeLeastLoaded judge with
  | error =>
    rw [hleast] at h
    cases h
  | ok =>
    rw [hleast] at h
    cases h
    exact .table (by simp) (leastLoaded_spec hleast).2

theorem routed_consistentHash (h : r.routeConsistentHash hash judge metadata = .ok result) :
    Routed hash r metadata result := by
  unfold routeConsistentHash at h
  split at h
  · cases h
  · next target htgt =>
    cases h
    exact .ring (by simp) ⟨metadata.messageId, htgt⟩ rfl

theorem mem_candidates {e : UInt64 × StreamLoadMetrics Load}
    (h : e ∈ r.candidates judge regionStreams) :
    e.1 ∈ regionStreams ∧ r.streams.lookup e.1 = some e.2 ∧ judge.isOverloaded e.2 = false := by
  obtain ⟨hmem, hhy⟩ := List.mem_filter.mp h
  obtain ⟨id, hid, hget⟩ := List.mem_filterMap.mp hmem
  obtain ⟨m, hm, rfl⟩ := Option.map_eq_some_iff.mp hget
  exact ⟨hid, hm, by simpa using hhy⟩

private theorem routed_within {region : String} (horig : metadata.originRegion = some region)
    (hget : r.regionMapping.lookup region = some regionStreams)
    (h : r.routeWithin judge regionStreams = .ok result) : Routed hash r metadata result := by
  unfold routeWithin at h
  split at h
  · cases h
  · next e he =>
    cases h
    obtain ⟨hmem, hpres, -⟩ := mem_candidates (maxBy_mem he)
    exact .region region regionStreams horig hget hmem (by rw [hpres]; rfl) rfl

private theorem routed_geographic (h : r.routeGeographic judge metadata = .ok result) :
    Routed hash r metadata result := by
  unfold routeGeographic at h
  split at h
  · next region horig =>
    split at h
    · next regionStreams hget =>
      split at h
      · exact routed_leastLoaded h
      · exact routed_within horig hget h
    · exact routed_leastLoaded h
  · exact routed_leastLoaded h

private theorem routed_adaptive (h : r.routeAdaptive hash judge metadata = .ok result) :
    Routed hash r metadata result := by
  unfold routeAdaptive at h
  split at h
  · exact routed_leastLoaded h
  · split at h
    · exact routed_geographic h
    · exact routed_consistentHash h

private theorem routed_primary (h : (r.routePrimary hash judge metadata).1 = .ok result) :
    Routed hash r metadata result := by
  unfold routePrimary at h
  split at h
  · exact routed_roundRobin h
  · exact routed_leastLoaded h
  · exact routed_consistentHash h
  · exact routed_geographic h
  · exact routed_priorityBased h
  · exact routed_adaptive h
  · exact routed_leastLoaded h

variable {e : Error} {r' : IntelligentRouter Load}

private theorem routeRoundRobin_error (h : r.routeRoundRobin judge = (.error e, r')) : r' = r := by
  unfold routeRoundRobin at h
  dsimp only at h
  split at h
  · exact (congrArg Prod.snd h).symm
  · cases congrArg Prod.fst h

private theorem routePrimary_error (h : r.routePrimary hash judge metadata = (.error e, r')) :
    r' = r := by
  unfold routePrimary at h
  split at h
  · exact routeRoundRobin_error h
  all_goals exact (congrArg Prod.snd h).symm

theorem routeMessage_routed (h : (r.routeMessage hash judge metadata).1 = .ok result) :
    Routed hash r metadata result := by
  unfold routeMessage at h
  split at h
  · next primary r' hprim =>
    have hfst := congrArg Prod.fst hprim
    exact routed_primary (hfst.trans h)
  · next e r' hprim =>
    obtain rfl := routePrimary_error hprim
    split at h
    · exact routed_roundRobin h
    · exact routed_leastLoaded h
    · cases h
    · cases h

end

/-! ### Histories -/

/-- The calls that change a router. -/
inductive RouterCall (Load : Type) where
  | addStream (streamId : UInt64) (region : Option String)
  | removeStream (streamId : UInt64)
  | updateStreamMetrics (metrics : StreamLoadMetrics Load)

/-- A router, and the streams that were added and not removed since, with the region of the
last `add_stream`. -/
structure RouterHistory (Load : Type) where
  router : IntelligentRouter Load
  registered : HashMap UInt64 (Option String)

namespace RouterHistory

def start (config : RoutingConfig) : RouterHistory Load :=
  { router := IntelligentRouter.new config, registered := ∅ }

/-- A router and the registered streams after a call. -/
def step (idle : Load) (s : RouterHistory Load) : RouterCall Load → RouterHistory Load
  | .addStream streamId region =>
    { router := s.router.addStream hash idle streamId region
      registered := s.registered.insert streamId region }
  | .removeStream streamId =>
    { router := s.router.removeStream streamId
      registered := s.registered.erase streamId }
  | .updateStreamMetrics metrics =>
    { s with router := s.router.updateStreamMetrics metrics }

/-- The result names registered streams only.  A result of geographic routing names streams of
the region of the message, and no alternative twice. -/
structure WellRouted (s : RouterHistory Load) (metadata : MessageMetadata)
    (result : RoutingResult Score) : Prop where
  registered : ∀ id ∈ result.streams, (s.registered.lookup id).isSome
  region : result.strategyUsed = .geographic → ∀ region,
    metadata.originRegion = some region →
      (∀ id ∈ result.streams, s.registered.lookup id = some (some region)) ∧
        result.alternatives.Nodup

/-- Every message is well routed, whatever the strategies, the counter, the scores and the
overload test. -/
def Sound (Score : Type) (s : RouterHistory Load) : Prop :=
  ∀ (config : RoutingConfig) (counter : UInt64) (judge : Judge Load Score)
    (metadata : MessageMetadata) (result : RoutingResult Score),
    ({ s.router with config, roundRobinCounter := counter }.routeMessage hash judge
      metadata).1 = .ok result → s.WellRouted metadata result

/-- What holds in all histories: the ring has registered streams, and these are in the table,
under their own identifiers. -/
structure Based (s : RouterHistory Load) : Prop where
  ring : Members hash s.router.hashRing {id | (s.registered.lookup id).isSome}
  own : ∀ id metrics, s.router.streams.lookup id = some metrics → metrics.streamId = id
  table : ∀ id, (s.registered.lookup id).isSome → (s.router.streams.lookup id).isSome

/-- The table has registered streams only. -/
def TableGood (s : RouterHistory Load) : Prop :=
  ∀ id, (s.router.streams.lookup id).isSome → (s.registered.lookup id).isSome

/-- The list of a region, if it names a stream of the table, names only streams that are
registered for the region, and names none twice beside another one. -/
def RegionsGood (s : RouterHistory Load) : Prop :=
  ∀ region regionStreams, s.router.regionMapping.lookup region = some regionStreams →
    (∃ id ∈ regionStreams, (s.router.streams.lookup id).isSome) →
      (∀ id ∈ regionStreams, s.registered.lookup id = some (some region)) ∧
        ∀ id ∈ regionStreams, (regionStreams.filter fun s => s ≠ id).Nodup

theorem based_start (config : RoutingConfig) :
    Based hash (start config : RouterHistory Load) where
  ring := by
    have hemp :
        {id | ((start config : RouterHistory Load).registered.lookup id).isSome} = ∅ := by
      ext id
      exact iff_of_false (fun h => by cases h) (Set.notMem_empty id)
    rw [hemp]
    exact placed_new.toMembers
  own := fun id metrics h => by cases h
  table := fun id h => by cases h

/-! ### What a call changes -/

section

variable {hash} {s : RouterHistory Load} (idle : Load)

theorem streams_addStream (streamId : UInt64) (region : Option String) (id : UInt64) :
    (s.step hash idle (.addStream streamId region)).router.streams.lookup id =
      if id = streamId then some { streamId, region, load := idle }
      else s.router.streams.lookup id :=
  HashMap.lookup_insert_eq s.router.streams streamId id _

theorem streams_removeStream (streamId id : UInt64) :
    (s.step hash idle (.removeStream streamId)).router.streams.lookup id =
      if id = streamId then none else s.router.streams.lookup id :=
  HashMap.lookup_erase_eq s.router.streams streamId id

theorem streams_updateStreamMetrics (metrics : StreamLoadMetrics Load) (id : UInt64) :
    (s.step hash idle (.updateStreamMetrics metrics)).router.streams.lookup id =
      if id = metrics.streamId then some metrics else s.router.streams.lookup id :=
  HashMap.lookup_insert_eq s.router.streams metrics.streamId id metrics

theorem registered_addStream (streamId : UInt64) (region : Option String) (id : UInt64) :
    (s.step hash idle (.addStream streamId region)).registered.lookup id =
      if id = streamId then some region else s.registered.lookup id :=
  HashMap.lookup_insert_eq s.registered streamId id region

theorem registered_removeStream (streamId id : UInt64) :
    (s.step hash idle (.removeStream streamId)).registered.lookup id =
      if id = streamId then none else s.registered.lookup id :=
  HashMap.lookup_erase_eq s.registered streamId id

variable (h : Based hash s)
include h

theorem Based.addStream (streamId : UInt64) (region : Option String) :
    Based hash (s.step hash idle (.addStream streamId region)) where
  ring := by
    have hset : {id | ((s.step hash idle (.addStream streamId region)).registered.lookup
        id).isSome} = insert streamId {id | (s.registered.lookup id).isSome} := by
      ext id
      by_cases hid : id = streamId
      · simp [registered_addStream, hid]
      · simp [registered_addStream, hid]
    rw [hset]
    exact h.ring.addNode streamId
  own := by
    intro id metrics hget
    rw [streams_addStream] at hget
    split at hget
    · next hid =>
      cases hget
      exact hid.symm
    · exact h.own id metrics hget
  table := by
    intro id hid
    rw [registered_addStream] at hid
    rw [streams_addStream]
    split
    · rfl
    · next hne =>
      rw [if_neg hne] at hid
      exact h.table id hid

theorem Based.removeStream (streamId : UInt64) :
    Based hash (s.step hash idle (.removeStream streamId)) where
  ring := by
    have hset : {id | ((s.step hash idle (.removeStream streamId)).registered.lookup
        id).isSome} = {id | (s.registered.lookup id).isSome} \ {streamId} := by
      ext id
      by_cases hid : id = streamId
      · simp [registered_removeStream, hid]
      · simp [registered_removeStream, hid]
    rw [hset]
    exact h.ring.removeNode streamId
  own := by
    intro id metrics hget
    rw [streams_removeStream] at hget
    split at hget
    · cases hget
    · exact h.own id metrics hget
  table := by
    intro id hid
    rw [registered_removeStream] at hid
    rw [streams_removeStream]
    split
    · next heq =>
      rw [if_pos heq] at hid
      cases hid
    · next hne =>
      rw [if_neg hne] at hid
      exact h.table id hid

theorem Based.updateStreamMetrics (metrics : StreamLoadMetrics Load) :
    Based hash (s.step hash idle (.updateStreamMetrics metrics)) where
  ring := h.ring
  own := by
    intro id other hget
    rw [streams_updateStreamMetrics] at hget
    split at hget
    · next hid =>
      cases hget
      exact hid.symm
    · exact h.own id other hget
  table := by
    intro id hid
    rw [streams_updateStreamMetrics]
    split
    · rfl
    · exact h.table id hid

theorem Based.step (call : RouterCall Load) : Based hash (s.step hash idle call) := by
  cases call with
  | addStream streamId region => exact h.addStream idle streamId region
  | removeStream streamId => exact h.removeStream idle streamId
  | updateStreamMetrics metrics => exact h.updateStreamMetrics idle metrics

end

/-! ### Good tables and lists -/

section

variable {hash} {s : RouterHistory Load} {metadata : MessageMetadata}
    {result : RoutingResult Score}

theorem wellRouted_of_routed (h : Based hash s) (htable : s.TableGood) (hregs : s.RegionsGood)
    {config : RoutingConfig} {counter : UInt64}
    (hrouted : Routed hash { s.router with config, roundRobinCounter := counter } metadata result) :
    s.WellRouted metadata result := by
  cases hrouted with
  | table hused hstrs =>
    exact ⟨fun id hid => htable id (hstrs id hid), fun hgeo => absurd hgeo hused⟩
  | ring hused htgt halt =>
    obtain ⟨key, hkey⟩ := htgt
    refine ⟨fun id hid => ?_, fun hgeo => absurd hgeo hused⟩
    rw [RoutingResult.streams, halt, List.mem_singleton] at hid
    rw [hid]
    exact h.ring.mem_of_getNode hkey
  | region region regionStreams horig hget hmem hpres halt =>
    obtain ⟨hall, hnd⟩ := hregs region regionStreams hget ⟨_, hmem, hpres⟩
    have hstrs : ∀ id ∈ result.streams, s.registered.lookup id = some (some region) := by
      intro id hid
      rcases List.mem_cons.mp hid with rfl | hid
      · exact hall _ hmem
      · rw [halt] at hid
        exact hall id (List.mem_of_mem_filter hid)
    constructor
    · intro id hid
      rw [hstrs id hid]
      rfl
    · intro _ other hoth
      obtain rfl : region = other := Option.some.inj (horig.symm.trans hoth)
      rw [halt]
      exact ⟨hstrs, hnd _ hmem⟩

def onlyHealthy [Inhabited Score] (id : UInt64) : Judge Load Score :=
  { healthScore := fun _ => default
    isOverloaded := fun metrics => decide (metrics.streamId ≠ id)
    partialCmp := fun _ _ => none
    latencyMs := fun _ => 0
    highLoad := fun _ => false
    roundRobinConfidence := default
    hashConfidence := default }

private theorem routeWithin_onlyHealthy [Inhabited Score] (h : Based hash s) {id : UInt64}
    (hid : id ∈ regionStreams) (hpres : (s.router.streams.lookup id).isSome) :
    ∃ result : RoutingResult Score,
      s.router.routeWithin (onlyHealthy id) regionStreams = .ok result ∧
        result.targetStream = id ∧ result.strategyUsed = .geographic ∧
        result.alternatives = regionStreams.filter fun s => s ≠ id := by
  let judge : Judge Load Score := onlyHealthy id
  obtain ⟨metrics, hmet⟩ := Option.isSome_iff_exists.mp hpres
  have hcandidate : (id, metrics) ∈ s.router.candidates judge regionStreams := by
    apply List.mem_filter.mpr
    refine ⟨List.mem_filterMap.mpr ⟨id, hid, by rw [hmet]; rfl⟩, ?_⟩
    simp [judge, onlyHealthy, h.own id metrics hmet]
  obtain ⟨e, he⟩ := Option.isSome_iff_exists.mp
    (maxBy_isSome (fun a b => compareHealth judge a.2 b.2) (List.ne_nil_of_mem hcandidate))
  obtain ⟨-, hget, hhy⟩ := mem_candidates (maxBy_mem he)
  have htgt : e.1 = id := by
    have hown : e.2.streamId = id := by simpa [judge, onlyHealthy] using hhy
    rw [← h.own e.1 e.2 hget, hown]
  rw [routeWithin, he]
  exact ⟨_, rfl, htgt, rfl, by rw [htgt]⟩

variable {r : IntelligentRouter Load}

theorem routeMessage_of_primary {judge : Judge Load Score}
    (h : (r.routePrimary hash judge metadata).1 = .ok result) :
    (r.routeMessage hash judge metadata).1 = .ok result := by
  unfold routeMessage
  split
  · next primary r' hprim => rwa [hprim] at h
  · next e r' hprim =>
    rw [hprim] at h
    cases h

private theorem routeRoundRobin_streams (judge : Judge Load Score) {id : UInt64}
    (hid : id ∈ r.streams.keys) :
    ∃ result, (r.routeRoundRobin judge).1 = .ok result ∧ id ∈ result.streams := by
  have hne : r.streams.keys ≠ [] := List.ne_nil_of_mem hid
  rw [routeRoundRobin, dif_neg hne]
  refine ⟨_, rfl, ?_⟩
  rw [RoutingResult.streams, List.mem_cons]
  by_cases htgt : id = r.streams.keys.get
      ⟨r.roundRobinCounter.toNat % r.streams.keys.length,
        Nat.mod_lt _ (List.length_pos_iff.mpr hne)⟩
  · exact .inl htgt
  · exact .inr (List.mem_filter.mpr ⟨hid, by simpa using htgt⟩)

theorem Sound.tableGood [Inhabited Score] (h : s.Sound hash Score) : s.TableGood := by
  intro id hid
  obtain ⟨result, hok, hmem⟩ := routeRoundRobin_streams
    (r := { s.router with config := ⟨.roundRobin, none⟩, roundRobinCounter := 0 })
    (onlyHealthy 0 : Judge Load Score) (AList.lookup_isSome.mp hid)
  exact (h ⟨.roundRobin, none⟩ 0 (onlyHealthy 0) ⟨"", none⟩ result
    (routeMessage_of_primary hok)).registered id hmem

theorem Sound.regionsGood [Inhabited Score] (hbased : Based hash s)
    (h : s.Sound hash Score) : s.RegionsGood := by
  intro region regionStreams hget
  -- any stream of the list that is in the table can be the target
  have htgt : ∀ id ∈ regionStreams, (s.router.streams.lookup id).isSome →
      (∀ other ∈ regionStreams, s.registered.lookup other = some (some region)) ∧
        (regionStreams.filter fun s => s ≠ id).Nodup := by
    intro id hid hpres
    obtain ⟨result, hok, htgt, hused, halt⟩ : ∃ result : RoutingResult Score, _ :=
      routeWithin_onlyHealthy hbased hid hpres
    have hprim : ({ s.router with config := ⟨.geographic, none⟩ }.routePrimary hash
        (onlyHealthy id : Judge Load Score) ⟨"", some region⟩).1 = .ok result := by
      rw [routePrimary]
      dsimp only [routeGeographic]
      rw [hget]
      exact (if_neg (List.ne_nil_of_mem hid)).trans hok
    have hrouted := h ⟨.geographic, none⟩ s.router.roundRobinCounter (onlyHealthy id)
      ⟨"", some region⟩ result (routeMessage_of_primary hprim)
    obtain ⟨hall, hnd⟩ := hrouted.region hused region rfl
    rw [halt] at hnd
    refine ⟨fun other hoth => hall other ?_, hnd⟩
    rw [RoutingResult.streams, htgt, halt, List.mem_cons]
    by_cases heq : other = id
    · exact .inl heq
    · exact .inr (List.mem_filter.mpr ⟨hoth, by simpa using heq⟩)
  rintro ⟨id, hid, hpres⟩
  have hall := (htgt id hid hpres).1
  refine ⟨hall, fun other hoth => (htgt other hoth ?_).2⟩
  exact hbased.table other (by rw [hall other hoth]; rfl)

theorem sound_iff [Inhabited Score] (h : Based hash s) :
    s.Sound hash Score ↔ s.TableGood ∧ s.RegionsGood := by
  constructor
  · intro hsound
    exact ⟨hsound.tableGood, hsound.regionsGood h⟩
  · rintro ⟨htable, hregs⟩ config counter judge metadata result hok
    exact wellRouted_of_routed h htable hregs (routeMessage_routed hok)

end

/-- Metrics come for registered streams only. -/
def UpdatesRegistered (s : RouterHistory Load) : RouterCall Load → Prop
  | .updateStreamMetrics metrics => (s.registered.lookup metrics.streamId).isSome
  | .addStream _ _ | .removeStream _ => True

variable {s : RouterHistory Load}

theorem tableGood_step_iff {hash : String → UInt64} (idle : Load)
    (h : s.TableGood) (call : RouterCall Load) :
    (s.step hash idle call).TableGood ↔ s.UpdatesRegistered call := by
  cases call with
  | addStream =>
    refine iff_of_true (fun id hid => ?_) trivial
    rw [streams_addStream] at hid
    rw [registered_addStream]
    split
    · rfl
    · next hne =>
      rw [if_neg hne] at hid
      exact h id hid
  | removeStream =>
    refine iff_of_true (fun id hid => ?_) trivial
    rw [streams_removeStream] at hid
    rw [registered_removeStream]
    split
    · next heq =>
      rw [if_pos heq] at hid
      exact hid
    · next hne =>
      rw [if_neg hne] at hid
      exact h id hid
  | updateStreamMetrics =>
    constructor
    · intro hgood
      apply hgood
      rw [streams_updateStreamMetrics, if_pos rfl]
      rfl
    · intro hregd id hid
      rw [streams_updateStreamMetrics] at hid
      split at hid
      · next heq => exact heq ▸ hregd
      · exact h id hid

/-! ### Disciplined histories -/

/-- A stream with a region is not added again, and metrics are updated for a registered stream
and with its region. -/
def Disciplined (s : RouterHistory Load) : RouterCall Load → Prop
  | .addStream streamId _ => ∀ region, s.registered.lookup streamId ≠ some (some region)
  | .updateStreamMetrics metrics =>
    s.registered.lookup metrics.streamId = some metrics.region
  | .removeStream _ => True

def streamsOf (s : RouterHistory Load) (region : String) : List UInt64 :=
  (s.router.regionMapping.lookup region).getD []

/-- The table has the registered streams with their regions, and the lists of the regions are
what they should be. -/
structure Tidy (s : RouterHistory Load) : Prop where
  table : ∀ id, (s.router.streams.lookup id).map StreamLoadMetrics.region = s.registered.lookup id
  regions : ∀ region id, id ∈ s.streamsOf region ↔ s.registered.lookup id = some (some region)
  nodup : ∀ region, (s.streamsOf region).Nodup

theorem Tidy.tableGood (h : s.Tidy) : s.TableGood := by
  intro id hid
  rw [← h.table, Option.isSome_map]
  exact hid

theorem Tidy.regionsGood (h : s.Tidy) : s.RegionsGood := by
  intro region regionStreams hget _
  have heq : s.streamsOf region = regionStreams := by rw [streamsOf, hget]; rfl
  constructor
  · intro id hid
    exact (h.regions region id).mp (heq ▸ hid)
  · intro id _
    exact (heq ▸ h.nodup region).filter _

theorem tidy_start (config : RoutingConfig) : (start config : RouterHistory Load).Tidy where
  table := fun _ => rfl
  regions := fun _ _ =>
    iff_of_false List.not_mem_nil fun h => by cases h
  nodup := fun _ => List.nodup_nil

section

variable {hash : String → UInt64} {s : RouterHistory Load} (idle : Load)

private theorem streamsOf_addStream (streamId : UInt64) (region : Option String) (other : String) :
    (s.step hash idle (.addStream streamId region)).streamsOf other =
      if region = some other then s.streamsOf other ++ [streamId] else s.streamsOf other := by
  cases region with
  | none => rfl
  | some region =>
    have hget : (s.step hash idle
        (.addStream streamId (some region))).router.regionMapping.lookup other =
        if other = region then some (s.streamsOf region ++ [streamId])
        else s.router.regionMapping.lookup other :=
      HashMap.lookup_insert_eq s.router.regionMapping region other _
    rw [streamsOf, hget]
    by_cases hreg : other = region
    · subst hreg
      simp
    · simp [hreg, Ne.symm hreg, streamsOf]

private theorem getD_lookup_leaveRegion (mapping : HashMap String (List UInt64)) (region : String)
    (streamId : UInt64) (other : String) :
    ((leaveRegion mapping region streamId).lookup other).getD [] =
      if other = region then ((mapping.lookup other).getD []).filter fun id => id ≠ streamId
      else (mapping.lookup other).getD [] := by
  unfold leaveRegion
  split
  · next streams hstrs =>
    dsimp only
    split
    · next hemp =>
      rw [HashMap.lookup_erase_eq]
      by_cases hreg : other = region
      · subst hreg
        rw [if_pos rfl, if_pos rfl, hstrs]
        exact (List.isEmpty_iff.mp hemp).symm
      · rw [if_neg hreg, if_neg hreg]
    · rw [HashMap.lookup_insert_eq]
      by_cases hreg : other = region
      · subst hreg
        rw [if_pos rfl, if_pos rfl, hstrs]
        rfl
      · rw [if_neg hreg, if_neg hreg]
  · next hnone =>
    by_cases hreg : other = region
    · subst hreg
      rw [if_pos rfl, hnone]
      rfl
    · rw [if_neg hreg]

variable (h : s.Tidy)
include h

theorem Tidy.streamsOf_removeStream (streamId : UInt64) (other : String) :
    (s.step hash idle (.removeStream streamId)).streamsOf other =
      (s.streamsOf other).filter fun id => id ≠ streamId := by
  have hsame : s.registered.lookup streamId ≠ some (some other) →
      s.streamsOf other = (s.streamsOf other).filter fun id => id ≠ streamId := by
    intro hne
    refine (List.filter_eq_self.mpr fun id hid => ?_).symm
    have hreg := (h.regions other id).mp hid
    exact decide_eq_true fun heq => hne (heq ▸ hreg)
  have htable := h.table streamId
  cases hregd : s.registered.lookup streamId with
  | none =>
    rw [hregd] at htable
    rw [← hsame (by rw [hregd]; simp), streamsOf, step, removeStream, htable]
    rfl
  | some region =>
    rw [hregd] at htable
    cases region with
    | none =>
      rw [← hsame (by rw [hregd]; simp), streamsOf, step, removeStream, htable]
      rfl
    | some region =>
      have hleave := getD_lookup_leaveRegion s.router.regionMapping region streamId other
      by_cases hreg : other = region
      · rw [if_pos hreg] at hleave
        rw [streamsOf, step, removeStream, htable]
        exact hleave
      · rw [if_neg hreg] at hleave
        rw [← hsame (by rw [hregd]; simpa using Ne.symm hreg), streamsOf, step,
          removeStream, htable]
        exact hleave

theorem Tidy.addStream {streamId : UInt64} (region : Option String)
    (hnew : ∀ region, s.registered.lookup streamId ≠ some (some region)) :
    (s.step hash idle (.addStream streamId region)).Tidy where
  table := by
    intro id
    rw [streams_addStream, registered_addStream]
    split
    · rfl
    · exact h.table id
  regions := by
    intro other id
    have hregs := h.regions other id
    rw [streamsOf_addStream, registered_addStream]
    by_cases hid : id = streamId
    · subst hid
      have hnot : id ∉ s.streamsOf other := fun hmem => hnew other (hregs.mp hmem)
      by_cases hreg : region = some other
      · simp [hreg]
      · simp [hreg, hnot]
    · by_cases hreg : region = some other
      · simp [hreg, hid, hregs]
      · simp [hreg, hid, hregs]
  nodup := by
    intro other
    rw [streamsOf_addStream]
    split
    · have hnot : streamId ∉ s.streamsOf other := fun hmem =>
        hnew other ((h.regions other streamId).mp hmem)
      rw [← List.concat_eq_append]
      exact (List.nodup_concat _ _).mpr ⟨hnot, h.nodup other⟩
    · exact h.nodup other

theorem Tidy.removeStream (streamId : UInt64) :
    (s.step hash idle (.removeStream streamId)).Tidy where
  table := by
    intro id
    rw [streams_removeStream, registered_removeStream]
    split
    · rfl
    · exact h.table id
  regions := by
    intro other id
    rw [h.streamsOf_removeStream, registered_removeStream, List.mem_filter, h.regions]
    by_cases hid : id = streamId
    · simp [hid]
    · simp [hid]
  nodup := by
    intro other
    rw [h.streamsOf_removeStream]
    exact (h.nodup other).filter _

theorem Tidy.updateStreamMetrics {metrics : StreamLoadMetrics Load}
    (hregd : s.registered.lookup metrics.streamId = some metrics.region) :
    (s.step hash idle (.updateStreamMetrics metrics)).Tidy where
  table := by
    intro id
    rw [streams_updateStreamMetrics]
    split
    · next heq => exact heq ▸ hregd.symm
    · exact h.table id
  regions := h.regions
  nodup := h.nodup

theorem Tidy.step {call : RouterCall Load} (hcall : s.Disciplined call) :
    (s.step hash idle call).Tidy := by
  cases call with
  | addStream streamId region => exact h.addStream idle region hcall
  | removeStream streamId => exact h.removeStream idle streamId
  | updateStreamMetrics => exact h.updateStreamMetrics idle hcall

end

/-! ### Histories -/

theorem always_based (idle : Load) (config : RoutingConfig) (calls : List (RouterCall Load)) :
    Always (step hash idle) (Based hash) (start config) calls :=
  always_of_step (based_start hash config) fun _ call h => h.step idle call

/-- In all histories, messages are well routed exactly if metrics are only updated for
registered streams and the lists of the regions stay good.  Disciplined calls see to both. -/
theorem routing_sound_iff [Inhabited Score] (idle : Load) (config : RoutingConfig)
    (calls : List (RouterCall Load)) :
    (Always (step hash idle) (Sound hash Score) (start config) calls ↔
      EachStep (step hash idle) UpdatesRegistered (start config) calls ∧
        Always (step hash idle) RegionsGood (start config) calls) ∧
    (EachStep (step hash idle) Disciplined (start config) calls →
      Always (step hash idle) (Sound hash Score) (start config) calls) := by
  have hbased := always_based hash idle config calls
  have htable : Always (step hash idle) TableGood (start config) calls ↔
      EachStep (step hash idle) UpdatesRegistered (start config) calls :=
    always_iff_eachStep (I := fun _ => True) trivial (tidy_start config).tableGood
      (fun _ _ _ _ _ => trivial) fun _ call _ h => tableGood_step_iff idle h call
  refine ⟨?_, fun hcalls => ?_⟩
  · rw [← htable]
    constructor
    · intro h
      exact ⟨fun p hp => ((sound_iff (hbased p hp)).mp (h p hp)).1,
        fun p hp => ((sound_iff (hbased p hp)).mp (h p hp)).2⟩
    · rintro ⟨htables, hregs⟩ p hp
      exact (sound_iff (hbased p hp)).mpr ⟨htables p hp, hregs p hp⟩
  · have htidy := hcalls.always (tidy_start config) fun _ _ h hcall => h.step idle hcall
    exact fun p hp => (sound_iff (hbased p hp)).mpr
      ⟨(htidy p hp).tableGood, (htidy p hp).regionsGood⟩

def neverAdded : List (RouterCall Unit) :=
  [.updateStreamMetrics { streamId := 7, region := none, load := () }]

def movedAway : List (RouterCall Unit) := [.addStream 7 (some "eu"), .addStream 7 (some "us")]

def addedAgain : List (RouterCall Unit) :=
  [.addStream 7 (some "eu"), .addStream 8 (some "eu"), .addStream 8 (some "eu")]

/-- Round robin finds the stream that was never added, geographic routing the one that moved
away, and it offers the one that was added again twice. -/
theorem unregistered_streams_are_routed :
    (¬ Always (step (fun _ => 0) ()) (Sound (fun _ => 0) Unit) (start .default) neverAdded) ∧
    (¬ Always (step (fun _ => 0) ()) (Sound (fun _ => 0) Unit) (start .default) movedAway) ∧
    ¬ Always (step (fun _ => 0) ()) (Sound (fun _ => 0) Unit) (start .default) addedAgain := by
  have hgood : ∀ calls : List (RouterCall Unit),
      Always (step (fun _ => 0) ()) (Sound (fun _ => 0) Unit) (start .default) calls →
        TableGood (calls.foldl (step (fun _ => 0) ()) (start .default)) ∧
          RegionsGood (calls.foldl (step (fun _ => 0) ()) (start .default)) :=
    fun calls h => (sound_iff (always_based (fun _ => 0) () .default calls).last).mp h.last
  refine ⟨fun h => ?_, fun h => ?_, fun h => ?_⟩
  · exact absurd ((hgood _ h).1 7 rfl) (by decide)
  · obtain ⟨hall, -⟩ := (hgood _ h).2 "eu" [7] rfl ⟨7, by decide, rfl⟩
    exact absurd (hall 7 (by decide)) (by decide)
  · obtain ⟨-, hnd⟩ := (hgood _ h).2 "eu" [7, 8, 8] rfl ⟨7, by decide, rfl⟩
    exact absurd (hnd 7 (by decide)) (by decide)

end RouterHistory

end Kaelix.Core.Multiplexing
