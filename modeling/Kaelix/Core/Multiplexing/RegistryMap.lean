import Kaelix.Core.Multiplexing.Registry

/-!
# The registry as a map

What a registry is for is said by `BoundedMap.respond`: one finite map, with a bound on the number
of its keys.  The registry keeps it in shards, counts the keys separately, and with the filter
enabled looks into the shard only if the filter does not exclude the key.
-/

namespace Kaelix.Core.Multiplexing

open Lib Lib.Queues StreamRegistry
open scoped List

/-- A plain finite map with a capacity. -/
def BoundedMap.respond (config : RegistryConfig) (m : HashMap UInt64 StreamMetadata) :
    RegistryCall → RegistryReply × HashMap UInt64 StreamMetadata
  | .registerStream streamId metadata =>
    if m.keys.length ≥ config.maxStreams then
      (.result (.error (.resourceExhausted
        s!"Maximum streams exceeded: {m.keys.length}/{config.maxStreams}")), m)
    else if (m.lookup streamId).isSome then
      (.result (.error (.stream s!"Stream already exists: {streamId}")), m)
    else (.result (.ok ()), m.insert streamId metadata)
  | .getStreamMetadata streamId => (.metadata (m.lookup streamId), m)
  | .unregisterStream streamId =>
    if (m.lookup streamId).isSome then (.result (.ok ()), m.erase streamId)
    else (.result (.error (.stream s!"Stream not found: {streamId}")), m)
  | .cleanupInactiveStreams now =>
    if config.streamTimeoutMs = 0 then (.number 0, m)
    else (.number (keysToRemove config now m).length,
      HashMap.eraseAll (keysToRemove config now m) m)
  | .activeStreamCount => (.number m.keys.length, m)

/-- The same, but the registration of a key that is present replaces its value before it
fails. -/
def OverwritingMap.respond (config : RegistryConfig) (m : HashMap UInt64 StreamMetadata) :
    RegistryCall → RegistryReply × HashMap UInt64 StreamMetadata
  | .registerStream streamId metadata =>
    if m.keys.length < config.maxStreams ∧ (m.lookup streamId).isSome then
      (.result (.error (.stream s!"Stream already exists: {streamId}")),
        m.insert streamId metadata)
    else BoundedMap.respond config m (.registerStream streamId metadata)
  | call => BoundedMap.respond config m call

variable (hashes : Hashes)

/-! ### Shards -/

/-- Every stream is in its own shard. -/
def Sharded (shards : Fin shardCount → HashMap UInt64 StreamMetadata)
    (m : HashMap UInt64 StreamMetadata) : Prop :=
  ∀ i streamId, (shards i).lookup streamId =
    if shardForStream hashes streamId = i then m.lookup streamId else none

variable {streamId : UInt64}

section

variable {hashes} {shards : Fin shardCount → HashMap UInt64 StreamMetadata}
  {m : HashMap UInt64 StreamMetadata}

theorem Sharded.lookup (h : Sharded hashes shards m) (streamId : UInt64) :
    (shards (shardForStream hashes streamId)).lookup streamId = m.lookup streamId := by
  rw [h, if_pos rfl]

theorem Sharded.update (h : Sharded hashes shards m) (streamId : UInt64)
    {shard m' : HashMap UInt64 StreamMetadata} {value : Option StreamMetadata}
    (hshard : ∀ other, shard.lookup other = if other = streamId then value
      else (shards (shardForStream hashes streamId)).lookup other)
    (hm : ∀ other, m'.lookup other = if other = streamId then value else m.lookup other) :
    Sharded hashes (Function.update shards (shardForStream hashes streamId) shard) m' := by
  intro i other
  by_cases hi : i = shardForStream hashes streamId
  · subst hi
    rw [Function.update_self, hshard, hm]
    by_cases hoth : other = streamId
    · subst hoth
      rw [if_pos rfl, if_pos rfl, if_pos rfl]
    · rw [if_neg hoth, if_neg hoth]
      exact h _ other
  · rw [Function.update_of_ne hi, h, hm]
    by_cases hoth : other = streamId
    · subst hoth
      rw [if_neg (Ne.symm hi), if_neg (Ne.symm hi)]
    · rw [if_neg hoth]

variable {config : RegistryConfig} {now : Nat}

theorem mem_keysToRemove :
    streamId ∈ keysToRemove config now m ↔
      ∃ metadata, m.lookup streamId = some metadata ∧ stale config now metadata := by
  rw [keysToRemove, List.mem_map]
  constructor
  · rintro ⟨⟨key, metadata⟩, hent, rfl⟩
    obtain ⟨hmem, hstale⟩ := List.mem_filter.mp hent
    exact ⟨metadata, AList.mem_lookup_iff.mpr hmem, hstale⟩
  · rintro ⟨metadata, hlk, hstale⟩
    exact ⟨⟨streamId, metadata⟩,
      List.mem_filter.mpr ⟨AList.mem_lookup_iff.mp hlk, hstale⟩, rfl⟩

theorem isSome_of_mem_keysToRemove (h : streamId ∈ keysToRemove config now m) :
    (m.lookup streamId).isSome := by
  obtain ⟨metadata, hlk, -⟩ := mem_keysToRemove.mp h
  rw [hlk]
  rfl

theorem nodup_keysToRemove (config : RegistryConfig) (now : Nat)
    (m : HashMap UInt64 StreamMetadata) : (keysToRemove config now m).Nodup :=
  List.Nodup.sublist (List.filter_sublist.map Sigma.fst) m.keys_nodup

variable (h : Sharded hashes shards m)
include h

theorem Sharded.mem_keysToRemove_iff {i : Fin shardCount} :
    streamId ∈ keysToRemove config now (shards i) ↔
      shardForStream hashes streamId = i ∧ streamId ∈ keysToRemove config now m := by
  rw [mem_keysToRemove, mem_keysToRemove, h]
  by_cases hi : shardForStream hashes streamId = i
  · simp [hi]
  · simp [hi]

theorem Sharded.perm_keysToRemove (config : RegistryConfig) (now : Nat) :
    contents (fun i => keysToRemove config now (shards i)) ~ keysToRemove config now m := by
  have hshard : ∀ i, keysToRemove config now (shards i) ~
      (keysToRemove config now m).filter fun streamId =>
        shardForStream hashes streamId = i := by
    intro i
    apply (List.perm_ext_iff_of_nodup (nodup_keysToRemove config now _)
      ((nodup_keysToRemove config now m).filter _)).mpr
    intro streamId
    rw [h.mem_keysToRemove_iff, List.mem_filter, and_comm]
    simp
  exact (perm_contents_congr hshard).trans (perm_contents_filter _ _)

theorem Sharded.cleanup (config : RegistryConfig) (now : Nat) :
    Sharded hashes
      (fun i => HashMap.eraseAll (keysToRemove config now (shards i)) (shards i))
      (HashMap.eraseAll (keysToRemove config now m) m) := by
  intro i streamId
  simp only [HashMap.lookup_eraseAll, h.mem_keysToRemove_iff, h i streamId]
  by_cases hi : shardForStream hashes streamId = i
  · simp [hi]
  · simp [hi]

end

/-! ### The loops of the cleanup -/

private theorem foldl_cleanupStream {shard : Fin shardCount} {keys : List UInt64}
    (hnd : keys.Nodup) (n : Nat) (r : StreamRegistry)
    (hpres : ∀ streamId ∈ keys, ((r.shards shard).lookup streamId).isSome) :
    keys.foldl (cleanupStream shard) (n, r) =
      (n + keys.length,
        { r with
          shards := Function.update r.shards shard (HashMap.eraseAll keys (r.shards shard))
          streamCount := r.streamCount - keys.length }) := by
  induction keys generalizing n r with
  | nil => simp [HashMap.eraseAll]
  | cons key keys ih =>
    obtain ⟨hkey, hrest⟩ := List.nodup_cons.mp hnd
    obtain ⟨metadata, hlk⟩ := Option.isSome_iff_exists.mp (hpres key List.mem_cons_self)
    have hstep : cleanupStream shard (n, r) key =
        (n + 1, { r.eraseAt shard key with streamCount := r.streamCount - 1 }) := by
      simp only [cleanupStream, hlk]
    have hcleaned : n + 1 + keys.length = n + (keys.length + 1) := by omega
    have hcnt : r.streamCount - 1 - keys.length = r.streamCount - (keys.length + 1) := by
      omega
    rw [List.foldl_cons, hstep, ih hrest]
    · simp only [eraseAt, Function.update_self, Function.update_idem, HashMap.eraseAll,
        List.foldl_cons, List.length_cons, hcleaned, hcnt]
    · intro other hoth
      have hne : other ≠ key := fun heq => hkey (heq ▸ hoth)
      simp only [eraseAt, Function.update_self]
      rw [HashMap.lookup_erase_eq, if_neg hne]
      exact hpres other (List.mem_cons_of_mem key hoth)

private theorem foldl_cleanupShard (now : Nat) {is : List (Fin shardCount)} (hnd : is.Nodup)
    (n : Nat) (r : StreamRegistry) :
    is.foldl (cleanupShard now) (n, r) =
      (n + (is.flatMap fun i => keysToRemove r.config now (r.shards i)).length,
        { r with
          shards := fun i =>
            if i ∈ is then
              HashMap.eraseAll (keysToRemove r.config now (r.shards i)) (r.shards i)
            else r.shards i
          streamCount := r.streamCount -
            (is.flatMap fun i => keysToRemove r.config now (r.shards i)).length }) := by
  induction is generalizing n r with
  | nil => simp
  | cons shard is ih =>
    obtain ⟨hshard, hrest⟩ := List.nodup_cons.mp hnd
    have hstep := foldl_cleanupStream (nodup_keysToRemove r.config now (r.shards shard)) n r
      fun _ => isSome_of_mem_keysToRemove
    have hsame : ∀ i ∈ is, Function.update r.shards shard (HashMap.eraseAll
        (keysToRemove r.config now (r.shards shard)) (r.shards shard)) i = r.shards i := by
      intro i hi
      have hne : i ≠ shard := fun heq => hshard (heq ▸ hi)
      exact Function.update_of_ne hne _ _
    have hkeys : (is.flatMap fun i => keysToRemove r.config now
        (Function.update r.shards shard (HashMap.eraseAll
          (keysToRemove r.config now (r.shards shard)) (r.shards shard)) i)) =
        is.flatMap fun i => keysToRemove r.config now (r.shards i) := by
      apply List.flatMap_congr
      intro i hi
      rw [hsame i hi]
    rw [List.foldl_cons, cleanupShard, hstep, ih hrest]
    dsimp only
    rw [hkeys, List.flatMap_cons, List.length_append, Nat.add_assoc, Nat.sub_sub]
    congr 2
    funext i
    by_cases hi : i ∈ is
    · rw [if_pos hi, if_pos (List.mem_cons_of_mem shard hi), hsame i hi]
    · rw [if_neg hi]
      by_cases hfirst : i = shard
      · subst hfirst
        rw [Function.update_self, if_pos List.mem_cons_self]
      · rw [Function.update_of_ne hfirst, if_neg]
        exact fun hmem => (List.mem_cons.mp hmem).elim hfirst hi

theorem cleanupInactiveStreams_eq (r : StreamRegistry) (now : Nat)
    (hto : r.config.streamTimeoutMs ≠ 0) :
    r.cleanupInactiveStreams now =
      ((contents fun i => keysToRemove r.config now (r.shards i)).length,
        { r with
          shards := fun i =>
            HashMap.eraseAll (keysToRemove r.config now (r.shards i)) (r.shards i)
          streamCount := r.streamCount -
            (contents fun i => keysToRemove r.config now (r.shards i)).length }) := by
  rw [cleanupInactiveStreams, if_neg hto, foldl_cleanupShard now (List.nodup_finRange _)]
  simp only [List.mem_finRange, if_true, Nat.zero_add]
  rfl

/-! ### Representation -/

/-- The registry stands for the map. -/
structure Represents (config : RegistryConfig) (r : StreamRegistry)
    (m : HashMap UInt64 StreamMetadata) : Prop where
  config : r.config = config
  shards : Sharded hashes r.shards m
  count : r.streamCount = m.keys.length
  filter : ∀ filter, r.bloomFilter = some filter → ∀ streamId,
    (m.lookup streamId).isSome → filter.mightContain hashes streamId

section

variable {hashes} {config : RegistryConfig} {r : StreamRegistry}
  {m : HashMap UInt64 StreamMetadata}

theorem Represents.getStreamMetadata (h : Represents hashes config r m) (streamId : UInt64) :
    r.getStreamMetadata hashes streamId = m.lookup streamId :=
  h.shards.lookup streamId

theorem Represents.storeStream (h : Represents hashes config r m) (metadata : StreamMetadata)
    (hfil : ∀ filter, r.bloomFilter = some filter → filter.mightContain hashes streamId) :
    (r.storeStream hashes streamId metadata).1 =
        (if (m.lookup streamId).isSome then
          .error (.stream s!"Stream already exists: {streamId}") else .ok ()) ∧
      Represents hashes config (r.storeStream hashes streamId metadata).2
        (m.insert streamId metadata) := by
  have hshards := h.shards.update streamId
    (HashMap.lookup_insert_eq (r.shards (shardForStream hashes streamId)) streamId · metadata)
    (HashMap.lookup_insert_eq m streamId · metadata)
  have hlen := HashMap.length_keys_insert m streamId metadata
  have hcont : ∀ filter, r.bloomFilter = some filter → ∀ other,
      ((m.insert streamId metadata).lookup other).isSome →
        filter.mightContain hashes other := by
    intro filter hsome other hoth
    rw [HashMap.lookup_insert_eq] at hoth
    by_cases heq : other = streamId
    · rw [heq]
      exact hfil filter hsome
    · rw [if_neg heq] at hoth
      exact h.filter filter hsome other hoth
  unfold StreamRegistry.storeStream
  dsimp only
  rw [h.shards.lookup]
  cases hlk : m.lookup streamId with
  | none =>
    rw [hlk] at hlen
    refine ⟨rfl, h.config, hshards, ?_, hcont⟩
    exact (congrArg (· + 1) h.count).trans hlen.symm
  | some =>
    rw [hlk] at hlen
    exact ⟨rfl, h.config, hshards, h.count.trans hlen.symm, hcont⟩

/-- A call to the registry has the outcome `outcome` of a call to the map, and leaves the filter
enabled or disabled. -/
structure Follows (hashes : Hashes) (config : RegistryConfig) (r : StreamRegistry)
    (call : RegistryCall) (outcome : RegistryReply × HashMap UInt64 StreamMetadata) : Prop where
  reply : (r.respond hashes call).1 = outcome.1
  state : Represents hashes config (r.respond hashes call).2 outcome.2
  filter : (r.respond hashes call).2.bloomFilter.isSome = r.bloomFilter.isSome

section

variable (h : Represents hashes config r m)
include h

variable {call : RegistryCall}

theorem Represents.follows_unchanged {reply : RegistryReply}
    (hresp : r.respond hashes call = (reply, r)) :
    Follows hashes config r call (reply, m) where
  reply := by rw [hresp]
  state := by rwa [hresp]
  filter := by rw [hresp]

theorem Represents.unregisterStream (streamId : UInt64) :
    Follows hashes config r (.unregisterStream streamId)
      (BoundedMap.respond config m (.unregisterStream streamId)) := by
  have hresp : r.respond hashes (.unregisterStream streamId) =
      if (m.lookup streamId).isSome then
        (.result (.ok ()), { r.eraseAt (shardForStream hashes streamId) streamId with
          streamCount := r.streamCount - 1 })
      else (.result (.error (.stream s!"Stream not found: {streamId}")), r) := by
    simp only [respond, StreamRegistry.unregisterStream, h.shards.lookup]
    cases m.lookup streamId <;> rfl
  by_cases hpres : (m.lookup streamId).isSome
  · have hmem : streamId ∈ m.keys := AList.lookup_isSome.mp hpres
    rw [if_pos hpres] at hresp
    rw [BoundedMap.respond, if_pos hpres]
    constructor
    · rw [hresp]
    · rw [hresp]
      refine ⟨h.config, ?_, ?_, ?_⟩
      · exact h.shards.update streamId (HashMap.lookup_erase_eq _ streamId)
          (HashMap.lookup_erase_eq m streamId)
      · dsimp only
        rw [h.count, AList.keys_erase, List.length_erase_of_mem hmem]
      · intro filter hsome other hoth
        rw [HashMap.lookup_erase_eq] at hoth
        split at hoth
        · cases hoth
        · exact h.filter filter hsome other hoth
    · rw [hresp]
      rfl
  · rw [if_neg hpres] at hresp
    rw [BoundedMap.respond, if_neg hpres]
    exact h.follows_unchanged hresp

theorem Represents.cleanupInactiveStreams (now : Nat) :
    Follows hashes config r (.cleanupInactiveStreams now)
      (BoundedMap.respond config m (.cleanupInactiveStreams now)) := by
  have hcfg := h.config
  by_cases hto : config.streamTimeoutMs = 0
  · have hresp : r.respond hashes (.cleanupInactiveStreams now) = (.number 0, r) := by
      rw [respond, StreamRegistry.cleanupInactiveStreams, if_pos (hcfg ▸ hto)]
    rw [BoundedMap.respond, if_pos hto]
    exact h.follows_unchanged hresp
  · have hkeys := (h.shards.perm_keysToRemove config now).length_eq
    have heq := cleanupInactiveStreams_eq r now (hcfg ▸ hto)
    rw [hcfg] at heq
    rw [BoundedMap.respond, if_neg hto]
    constructor
    · rw [respond, heq, hkeys]
    · rw [respond, heq, hkeys]
      refine ⟨rfl, h.shards.cleanup config now, ?_, ?_⟩
      · dsimp only
        rw [h.count, HashMap.length_keys_eraseAll (nodup_keysToRemove config now m)
          fun _ => isSome_of_mem_keysToRemove]
      · intro filter hsome other hoth
        rw [HashMap.lookup_eraseAll] at hoth
        split at hoth
        · cases hoth
        · exact h.filter filter hsome other hoth
    · rw [respond, heq]

theorem Represents.follows (hcall : ∀ streamId metadata, call ≠ .registerStream streamId metadata) :
    Follows hashes config r call (BoundedMap.respond config m call) := by
  cases call with
  | registerStream streamId metadata => exact absurd rfl (hcall streamId metadata)
  | getStreamMetadata streamId =>
    exact ⟨congrArg RegistryReply.metadata (h.getStreamMetadata streamId), h, rfl⟩
  | unregisterStream streamId => exact h.unregisterStream streamId
  | cleanupInactiveStreams now => exact h.cleanupInactiveStreams now
  | activeStreamCount => exact ⟨congrArg RegistryReply.number h.count, h, rfl⟩

end

theorem Represents.follows_store {r' : StreamRegistry} (h : Represents hashes config r' m)
    {metadata : StreamMetadata}
    (hregr : r.registerStream hashes streamId metadata = r'.storeStream hashes streamId metadata)
    (hfil : ∀ filter, r'.bloomFilter = some filter → filter.mightContain hashes streamId)
    (henabled : r'.bloomFilter.isSome = r.bloomFilter.isSome) :
    Follows hashes config r (.registerStream streamId metadata)
      (.result (if (m.lookup streamId).isSome then
        .error (.stream s!"Stream already exists: {streamId}") else .ok ()),
        m.insert streamId metadata) := by
  obtain ⟨hreply, hstate⟩ := h.storeStream metadata hfil
  constructor
  · rw [respond, hregr, hreply]
  · rw [respond, hregr]
    exact hstate
  · rw [respond, hregr, ← henabled]
    unfold StreamRegistry.storeStream
    dsimp only
    split <;> rfl

variable (h : Represents hashes config r m)
include h

theorem Represents.follows_full (streamId : UInt64)
    (metadata : StreamMetadata) (hfull : m.keys.length ≥ config.maxStreams) :
    Follows hashes config r (.registerStream streamId metadata)
      (BoundedMap.respond config m (.registerStream streamId metadata)) := by
  have hregr : r.registerStream hashes streamId metadata =
      (.error (.resourceExhausted
        s!"Maximum streams exceeded: {m.keys.length}/{config.maxStreams}"), r) := by
    rw [registerStream, h.config, h.count, if_pos hfull]
  rw [BoundedMap.respond, if_pos hfull]
  exact h.follows_unchanged (by rw [respond, hregr])

theorem Represents.follows_filtered
    (hfil : r.bloomFilter.isSome) (streamId : UInt64) (metadata : StreamMetadata) :
    Follows hashes config r (.registerStream streamId metadata)
      (BoundedMap.respond config m (.registerStream streamId metadata)) := by
  by_cases hfull : m.keys.length ≥ config.maxStreams
  · exact h.follows_full streamId metadata hfull
  obtain ⟨filter, hsome⟩ := Option.isSome_iff_exists.mp hfil
  have hregr : r.registerStream hashes streamId metadata =
      if filter.mightContain hashes streamId then
        if (m.lookup streamId).isSome then
          (.error (.stream s!"Stream already exists: {streamId}"), r)
        else r.storeStream hashes streamId metadata
      else { r with bloomFilter := some (filter.insert hashes streamId) }.storeStream hashes
        streamId metadata := by
    rw [registerStream, h.config, h.count, if_neg hfull, hsome, h.getStreamMetadata]
  by_cases hpres : (m.lookup streamId).isSome
  · -- the filter does not exclude a key that is present
    have hcont := h.filter filter hsome streamId hpres
    rw [if_pos hcont, if_pos hpres] at hregr
    rw [BoundedMap.respond, if_neg hfull, if_pos hpres]
    exact h.follows_unchanged (by rw [respond, hregr])
  · rw [BoundedMap.respond, if_neg hfull, if_neg hpres]
    by_cases hcont : filter.mightContain hashes streamId
    · rw [if_pos hcont, if_neg hpres] at hregr
      have hstore := h.follows_store hregr
        (fun other hoth => Option.some.inj (hsome.symm.trans hoth) ▸ hcont) rfl
      rwa [if_neg hpres] at hstore
    · rw [if_neg hcont] at hregr
      have hinserted : Represents hashes config
          { r with bloomFilter := some (filter.insert hashes streamId) } m := by
        refine ⟨h.config, h.shards, h.count, fun other hoth key hkey => ?_⟩
        cases hoth
        exact StreamFilter.mightContain_insert_of_mightContain streamId
          (h.filter filter hsome key hkey)
      have hstore := hinserted.follows_store hregr
        (fun other hoth => Option.some.inj hoth ▸
          StreamFilter.mightContain_insert hashes filter streamId) (by rw [hsome]; rfl)
      rwa [if_neg hpres] at hstore

theorem Represents.follows_unfiltered
    (hnone : r.bloomFilter = none) (streamId : UInt64) (metadata : StreamMetadata) :
    Follows hashes config r (.registerStream streamId metadata)
      (OverwritingMap.respond config m (.registerStream streamId metadata)) := by
  by_cases hfull : m.keys.length ≥ config.maxStreams
  · rw [OverwritingMap.respond, if_neg fun hroom => absurd hfull (Nat.not_le.mpr hroom.1)]
    exact h.follows_full streamId metadata hfull
  have hregr : r.registerStream hashes streamId metadata =
      r.storeStream hashes streamId metadata := by
    rw [registerStream, h.config, h.count, if_neg hfull, hnone]
  have hstore := h.follows_store hregr
    (fun filter hsome => absurd (hnone.symm.trans hsome) nofun) rfl
  by_cases hpres : (m.lookup streamId).isSome
  · rw [OverwritingMap.respond, if_pos ⟨Nat.not_le.mp hfull, hpres⟩]
    rwa [if_pos hpres] at hstore
  · rw [OverwritingMap.respond, if_neg fun hroom => hpres hroom.2, BoundedMap.respond,
      if_neg hfull, if_neg hpres]
    rwa [if_neg hpres] at hstore

end

/-! ### The registry and the map -/

section

variable (config : RegistryConfig)

theorem represents_new :
    Represents hashes config (StreamRegistry.new config) ∅ where
  config := rfl
  shards := fun i streamId => by
    rw [AList.lookup_empty, ite_self]
    exact AList.lookup_empty streamId
  count := rfl
  filter := fun _ _ streamId hpres => by
    rw [AList.lookup_empty] at hpres
    cases hpres

theorem simulation_filtered :
    Simulation (StreamRegistry.respond hashes) (BoundedMap.respond config)
      fun r m => Represents hashes config r m ∧ r.bloomFilter.isSome := by
  have hfol : ∀ r m call, Represents hashes config r m ∧ r.bloomFilter.isSome →
      Follows hashes config r call (BoundedMap.respond config m call) := by
    rintro r m call ⟨h, hfil⟩
    cases call with
    | registerStream streamId metadata => exact h.follows_filtered hfil streamId metadata
    | _ => exact h.follows nofun
  constructor
  · exact fun r m call h => (hfol r m call h).reply
  · intro r m call h
    exact ⟨(hfol r m call h).state, (hfol r m call h).filter.trans h.2⟩

theorem simulation_unfiltered :
    Simulation (StreamRegistry.respond hashes) (OverwritingMap.respond config)
      fun r m => Represents hashes config r m ∧ r.bloomFilter = none := by
  have hfol : ∀ r m call, Represents hashes config r m ∧ r.bloomFilter = none →
      Follows hashes config r call (OverwritingMap.respond config m call) := by
    rintro r m call ⟨h, hnone⟩
    cases call with
    | registerStream streamId metadata => exact h.follows_unfiltered hnone streamId metadata
    | _ => exact h.follows nofun
  constructor
  · exact fun r m call h => (hfol r m call h).reply
  · intro r m call h
    refine ⟨(hfol r m call h).state, ?_⟩
    have hfil := (hfol r m call h).filter
    rw [h.2] at hfil
    exact Option.not_isSome_iff_eq_none.mp fun hsome => by rw [hsome] at hfil; cases hfil

/-- With the filter enabled, every sequence of calls is answered as by a plain map with a
capacity. -/
theorem filtered_registry_is_bounded_map (config : RegistryConfig)
    (hfil : config.enableBloomFilter) (calls : List RegistryCall) :
    replies (StreamRegistry.respond hashes) (StreamRegistry.new config) calls =
      replies (BoundedMap.respond config) ∅ calls := by
  apply (simulation_filtered hashes config).replies_eq
  refine ⟨represents_new hashes config, ?_⟩
  rw [StreamRegistry.new, if_pos hfil]
  rfl

def noHashes : Hashes := { stream := fun _ => 0, seeded := fun _ _ => 0 }

def registeredTwice : List RegistryCall :=
  [.registerStream 1 (.new 1 .high 16 0), .registerStream 1 (.new 1 .low 16 5)]

theorem filtered_registry_is_bounded_map_twice :
    RegistryConfig.highPerformance.enableBloomFilter ∧
      replies (StreamRegistry.respond noHashes) (StreamRegistry.new .highPerformance)
          registeredTwice =
        replies (BoundedMap.respond .highPerformance) ∅ registeredTwice :=
  ⟨rfl, filtered_registry_is_bounded_map noHashes .highPerformance rfl registeredTwice⟩

/-! ### With and without the filter -/

theorem Represents.congr {config : RegistryConfig} {r : StreamRegistry}
    {m m' : HashMap UInt64 StreamMetadata} (h : Represents hashes config r m)
    (hsame : ∀ streamId, m.lookup streamId = m'.lookup streamId) :
    Represents hashes config r m' where
  config := h.config
  shards := fun i streamId => by rw [h.shards i streamId, hsame]
  count := by
    have hlen := (HashMap.perm_entries_of_lookup_eq hsame).length_eq
    rw [h.count, AList.keys, AList.keys, List.keys, List.length_map, List.length_map, hlen]
  filter := fun filter hsome streamId hpres =>
    h.filter filter hsome streamId (by rwa [hsame])

theorem boundedMap_respond_enable (enable : Bool)
    (m : HashMap UInt64 StreamMetadata) (call : RegistryCall) :
    BoundedMap.respond { config with enableBloomFilter := enable } m call =
      BoundedMap.respond config m call := by
  cases call <;> rfl

theorem overwritingMap_respond_enable (enable : Bool)
    (m : HashMap UInt64 StreamMetadata) (call : RegistryCall) :
    OverwritingMap.respond { config with enableBloomFilter := enable } m call =
      OverwritingMap.respond config m call := by
  cases call <;> rfl

end

/-- A registry with the filter that holds a map, and one without that holds another. -/
structure Paired (config : RegistryConfig) (p : StreamRegistry × StreamRegistry)
    (m m' : HashMap UInt64 StreamMetadata) : Prop where
  filtered : Represents hashes { config with enableBloomFilter := true } p.1 m ∧
    p.1.bloomFilter.isSome
  unfiltered : Represents hashes { config with enableBloomFilter := false } p.2 m' ∧
    p.2.bloomFilter = none

section

variable {hashes} {config : RegistryConfig} {p : StreamRegistry × StreamRegistry}
  {m m' : HashMap UInt64 StreamMetadata}

variable (h : Paired hashes config p m m')
include h

theorem Paired.congr (hsame : ∀ streamId, m.lookup streamId = m'.lookup streamId) :
    Paired hashes config p m m where
  filtered := h.filtered
  unfiltered := ⟨h.unfiltered.1.congr hashes fun streamId => (hsame streamId).symm,
    h.unfiltered.2⟩

theorem Paired.step (call : RegistryCall) :
    Paired hashes config
      (together (StreamRegistry.respond hashes) (StreamRegistry.respond hashes) p call)
      (BoundedMap.respond config m call).2 (OverwritingMap.respond config m' call).2 := by
  rw [← boundedMap_respond_enable config true, ← overwritingMap_respond_enable config false]
  exact ⟨(simulation_filtered hashes _).state p.1 m call h.filtered,
    (simulation_unfiltered hashes _).state p.2 m' call h.unfiltered⟩

end

/-- A registration that fails as a duplicate carries the metadata that is stored. -/
def Harmless (p : StreamRegistry × StreamRegistry) : RegistryCall → Prop
  | .registerStream streamId metadata => p.1.streamCount < p.1.config.maxStreams →
    ∀ stored, p.1.getStreamMetadata hashes streamId = some stored → metadata = stored
  | _ => True

end Kaelix.Core.Multiplexing
