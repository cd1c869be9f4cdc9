import Kaelix.Storage.Replication.Quorum

/-!
# Quorum reads see completed quorum writes

No step lowers a version, so a completed write stays backed by a write quorum; and what a replica
holds was written, or is what it held at the start.
-/

namespace Kaelix.Storage.Replication

open Lib

/-! ### The quorum manager -/

private theorem maxByKey_spec {α : Type} (key : α → Nat) {l : List α} (h : l ≠ []) :
    ∃ a ∈ l, maxByKey key l = some a ∧ ∀ b ∈ l, key b ≤ key a := by
  cases l with
  | nil => exact absurd rfl h
  | cons a as =>
    refine ⟨as.foldl (Register.write key) a, ?_, rfl, ?_⟩
    · rcases Register.foldl_write_cases key as a with ⟨heq, -⟩ | ⟨hmem, -, -⟩
      · rw [heq]
        exact List.mem_cons_self
      · exact List.mem_cons_of_mem a hmem
    · intro b hb
      rcases Register.foldl_write_cases key as a with ⟨heq, hlt⟩ | ⟨-, hge, hmax⟩
      · rw [heq]
        rcases List.mem_cons.mp hb with rfl | hb
        · exact le_refl _
        · exact (hlt b hb).le
      · rcases List.mem_cons.mp hb with rfl | hb
        · exact hge
        · exact hmax b hb

namespace QuorumManager

variable {N : Type} {m : QuorumManager N}

variable {readFn : N → Except ReplicationError (ReadResponse N)} {replicas : List N}

theorem mem_readResponses {r : N × ReadResponse N} :
    r ∈ readResponses readFn replicas ↔ r.1 ∈ replicas ∧ readFn r.1 = .ok r.2 := by
  obtain ⟨n, response⟩ := r
  unfold readResponses
  rw [List.mem_filterMap]
  constructor
  · rintro ⟨n', hn', hr⟩
    obtain ⟨response', hresp, heq⟩ := Option.map_eq_some_iff.mp hr
    cases heq
    cases hfn : readFn n with
    | error =>
      rw [hfn] at hresp
      cases hresp
    | ok =>
      rw [hfn] at hresp
      cases hresp
      exact ⟨hn', rfl⟩
  · rintro ⟨hn, hfn⟩
    exact ⟨n, hn, by rw [hfn]; rfl⟩

theorem nodup_readResponses (h : replicas.Nodup) :
    ((readResponses readFn replicas).map Prod.fst).Nodup := by
  have hsub : ((readResponses readFn replicas).map Prod.fst).Sublist replicas := by
    unfold readResponses
    induction replicas with
    | nil => exact List.Sublist.refl _
    | cons n replicas ih =>
      have hrest := ih (List.nodup_cons.mp h).2
      rw [List.filterMap_cons]
      cases readFn n with
      | error => exact hrest.cons n
      | ok => exact hrest.cons_cons n
  exact hsub.nodup h

theorem selectedReplicas_sublist (m : QuorumManager N) :
    m.selectedReplicas.Sublist m.availableReplicas := by
  unfold selectedReplicas
  split
  · exact List.Sublist.refl _
  · exact List.take_sublist _ _

theorem quorumRead_ok {data : Option Bytes} {result : QuorumResult N}
    (h : (m.quorumRead readFn).1 = .ok (data, result)) (hpos : 0 < m.config.readQuorum) :
    m.config.readQuorum ≤ (readResponses readFn m.selectedReplicas).length ∧
      ∃ latest ∈ readResponses readFn m.selectedReplicas, data = latest.2.data ∧
        ∀ r ∈ readResponses readFn m.selectedReplicas, r.2.version ≤ latest.2.version := by
  unfold quorumRead at h
  split at h
  · cases h
  · dsimp only at h
    split at h
    · next hquo =>
        have hlen := of_decide_eq_true hquo
        have hne : readResponses readFn m.selectedReplicas ≠ [] := by
          intro hemp
          rw [hemp, List.length_nil] at hlen
          omega
        obtain ⟨latest, hmem, hlatest, hmax⟩ :=
          maxByKey_spec (fun r : N × ReadResponse N => r.2.version) hne
        rw [hlatest] at h
        cases h
        exact ⟨hlen, latest, hmem, rfl, hmax⟩
    · cases h

theorem quorumWrite_ok [DecidableEq N] {writeFn : N → Except ReplicationError (WriteResponse N)}
    (h : (m.quorumWrite writeFn).1.toOption.isSome = true) :
    m.config.writeQuorum ≤ (writeSuccesses writeFn m.availableReplicas).length ∧
      ¬ m.availableReplicas.length < m.config.writeQuorum := by
  unfold quorumWrite at h
  dsimp only at h
  split at h
  · cases h
  · next havail =>
      split at h
      · next hquo => exact ⟨of_decide_eq_true hquo, havail⟩
      · cases h

theorem quorumRead_manager (readFn : N → Except ReplicationError (ReadResponse N)) :
    (m.quorumRead readFn).2.config = m.config ∧
      (m.quorumRead readFn).2.availableReplicas = m.availableReplicas := by
  unfold quorumRead
  split
  · exact ⟨rfl, rfl⟩
  · dsimp only
    split <;> exact ⟨rfl, rfl⟩

theorem quorumWrite_manager [DecidableEq N]
    (writeFn : N → Except ReplicationError (WriteResponse N)) :
    (m.quorumWrite writeFn).2.config = m.config ∧
      (m.quorumWrite writeFn).2.availableReplicas = m.availableReplicas := by
  unfold quorumWrite
  dsimp only
  split
  · exact ⟨rfl, rfl⟩
  · split <;> exact ⟨rfl, rfl⟩

theorem new_ok {config : QuorumConfig} (h : new config = .ok m) :
    config.validate = .ok () ∧ m.config = config ∧ m.availableReplicas = [] := by
  unfold new at h
  cases hvalid : config.validate with
  | error =>
    rw [hvalid] at h
    cases h
  | ok =>
    rw [hvalid] at h
    cases h
    exact ⟨rfl, rfl, rfl⟩

end QuorumManager

theorem QuorumConfig.readQuorum_pos {c : QuorumConfig} (h : c.validate = .ok ()) :
    0 < c.readQuorum := by
  unfold QuorumConfig.validate at h
  split at h
  · cases h
  · split at h
    · cases h
    · omega

/-! ### Replicas -/

namespace ReplicaSet

variable {N : Type} {nodes : Finset N} {initial : String → Stored}
  {config : QuorumConfig} {s s' : ReplicaSet N}

/-- What a replica may hold under a key: the initial contents, or a write. -/
def Genuine (initial : String → Stored) (s : ReplicaSet N) (key : String)
    (stored : Stored) : Prop :=
  stored = initial key ∨ ∃ w ∈ s.issued, w.key = key ∧ stored = w.stored

/-- Replicas that make up a write quorum hold a version at least as new as that of a
write. -/
def Backed (nodes : Finset N) (config : QuorumConfig) (replicas : N → String → Stored)
    (w : Write) : Prop :=
  ∃ Q : Finset N, Q ⊆ nodes ∧ config.writeQuorum ≤ Q.card ∧
    ∀ n ∈ Q, w.version ≤ (replicas n w.key).version

/-- What holds of the replicas in every history. -/
structure Sound (nodes : Finset N) (initial : String → Stored) (config : QuorumConfig)
    (s : ReplicaSet N) : Prop where
  configured : s.manager.config = config
  nodup : s.manager.availableReplicas.Nodup
  members : ∀ n ∈ s.manager.availableReplicas, n ∈ nodes
  backed : ∀ w ∈ s.completed, Backed nodes config s.replicas w
  genuine : ∀ n key, s.Genuine initial key (s.replicas n key)

theorem version_le_deliver (replicas : N → String → Stored) (w : Write)
    (reached : N → Bool) (n : N) (key : String) :
    (replicas n key).version ≤ (deliver replicas w reached n key).version := by
  unfold deliver
  split
  · exact Register.version_le_write Stored.version _ _
  · exact le_refl _

variable {w : Write}

theorem Backed.mono {replicas replicas' : N → String → Stored}
    (h : Backed nodes config replicas w)
    (hle : ∀ n key, (replicas n key).version ≤ (replicas' n key).version) :
    Backed nodes config replicas' w := by
  obtain ⟨Q, hsub, hcard, hver⟩ := h
  exact ⟨Q, hsub, hcard, fun n hn => le_trans (hver n hn) (hle n w.key)⟩

theorem Genuine.mono {key : String} {stored : Stored} (h : s.Genuine initial key stored)
    (hiss : ∀ w ∈ s.issued, w ∈ s'.issued) : s'.Genuine initial key stored := by
  rcases h with hini | ⟨w, hw, hkey, heq⟩
  · exact .inl hini
  · exact .inr ⟨w, hiss w hw, hkey, heq⟩

variable {reached : N → Bool}

private theorem genuine_deliver (h : ∀ n key, s.Genuine initial key (s.replicas n key))
    (hiss : ∀ v ∈ s.issued, v ∈ s'.issued) (hw : w ∈ s'.issued) (n : N) (key : String) :
    s'.Genuine initial key (deliver s.replicas w reached n key) := by
  unfold deliver
  split
  · next hreach =>
      rcases Register.write_eq_or Stored.version (s.replicas n key) w.stored with heq | heq
      · rw [heq]
        exact .inr ⟨w, hw, hreach.2.symm, rfl⟩
      · rw [heq]
        exact (h n key).mono hiss
  · exact (h n key).mono hiss

theorem readFn_ok {key : String} {lost : N → Option ReplicationError} {n : N}
    {response : ReadResponse N} (h : s.readFn key lost n = .ok response) :
    response.version = (s.replicas n key).version ∧
      response.data = (s.replicas n key).data := by
  unfold readFn at h
  split at h
  · cases h
  · cases h
    exact ⟨rfl, rfl⟩

variable [DecidableEq N]

private theorem version_le_afterWrite (s : ReplicaSet N) (w : Write) (reached : N → Bool) (n : N)
    (key : String) : (s.replicas n key).version ≤ (s.afterWrite w reached n key).version := by
  unfold afterWrite
  split
  · exact le_refl _
  · exact version_le_deliver s.replicas w _ n key

private theorem backed_write (h : Sound nodes initial config s)
    {writeFn : N → Except ReplicationError (WriteResponse N)}
    (hreports : s.Reports writeFn reached)
    (hok : (s.manager.quorumWrite writeFn).1.toOption.isSome = true) :
    Backed nodes config (s.afterWrite w reached) w := by
  obtain ⟨hquo, havail⟩ := QuorumManager.quorumWrite_ok hok
  have hsub : (QuorumManager.writeSuccesses writeFn s.manager.availableReplicas).Sublist
      s.manager.availableReplicas := List.filter_sublist
  refine ⟨(QuorumManager.writeSuccesses writeFn s.manager.availableReplicas).toFinset, ?_, ?_, ?_⟩
  · intro n hn
    exact h.members n (hsub.subset (List.mem_toFinset.mp hn))
  · rw [List.toFinset_card_of_nodup (hsub.nodup h.nodup), ← h.configured]
    exact hquo
  · intro n hn
    have hmem := List.mem_toFinset.mp hn
    have hreach : (decide (n ∈ s.manager.availableReplicas) && reached n) = true := by
      rw [hreports n hmem, decide_eq_true (hsub.subset hmem)]
      rfl
    unfold afterWrite deliver
    rw [if_neg havail, if_pos ⟨hreach, rfl⟩]
    exact Register.version_le_write_self Stored.version _ w.stored

theorem Sound.step (h : Sound nodes initial config s) {event : QuorumEvent N}
    (hstep : s.step nodes initial event = some s') : Sound nodes initial config s' := by
  cases event with
  | available =>
    unfold ReplicaSet.step at hstep
    dsimp only at hstep
    split at hstep
    · next hset =>
        cases hstep
        exact ⟨h.configured, hset.1, hset.2, h.backed, h.genuine⟩
    · cases hstep
  | write w writeFn reached =>
    unfold ReplicaSet.step at hstep
    dsimp only at hstep
    split at hstep
    · next hguard =>
        cases hstep
        obtain ⟨hcfg, havail⟩ := s.manager.quorumWrite_manager writeFn
        refine ⟨hcfg.trans h.configured, ?_, ?_, ?_, ?_⟩
        · exact havail ▸ h.nodup
        · exact havail ▸ h.members
        · have hold : ∀ v ∈ s.completed, Backed nodes config (s.afterWrite w reached) v :=
            fun v hv => (h.backed v hv).mono (s.version_le_afterWrite w reached)
          dsimp only
          split
          · next hok =>
              intro v hv
              rcases List.mem_append.mp hv with hv | hv
              · exact hold v hv
              · rw [List.mem_singleton.mp hv]
                exact backed_write h hguard.2 hok
          · exact hold
        · intro n key
          have hiss : ∀ v ∈ s.issued, v ∈ s.issued ++ [w] :=
            fun v hv => List.mem_append_left _ hv
          dsimp only
          unfold afterWrite
          split
          · exact (h.genuine n key).mono hiss
          · exact genuine_deliver h.genuine hiss (List.mem_append_right _ (by simp)) n key
    · cases hstep
  | late node w =>
    unfold ReplicaSet.step at hstep
    dsimp only at hstep
    split at hstep
    · next hiss =>
        cases hstep
        refine ⟨h.configured, h.nodup, h.members, ?_, ?_⟩
        · intro v hv
          exact (h.backed v hv).mono (version_le_deliver s.replicas w _)
        · exact genuine_deliver h.genuine (fun v hv => hv) hiss
    · cases hstep
  | read key lost =>
    cases hstep
    obtain ⟨hcfg, havail⟩ := s.manager.quorumRead_manager (s.readFn key lost)
    exact ⟨hcfg.trans h.configured, havail ▸ h.nodup, havail ▸ h.members,
      h.backed, h.genuine⟩

private theorem sound {manager : QuorumManager N} (hnew : QuorumManager.new config = .ok manager)
    {events : List (QuorumEvent N)}
    (hrun : exec (ReplicaSet.step nodes initial) (.new manager initial) events = some s) :
    Sound nodes initial config s := by
  obtain ⟨-, hcfg, havail⟩ := QuorumManager.new_ok hnew
  have hstart : Sound nodes initial config (.new manager initial) := by
    refine ⟨hcfg, ?_, ?_, ?_, ?_⟩
    · exact havail ▸ List.nodup_nil
    · intro n hn
      rw [ReplicaSet.new, havail] at hn
      exact absurd hn List.not_mem_nil
    · intro w hw
      exact absurd hw List.not_mem_nil
    · exact fun n key => .inl rfl
  exact exec_invariant (fun _ _ _ hs hstep => hs.step hstep) hstart hrun

def answering (s : ReplicaSet N) (key : String) (lost : N → Option ReplicationError) : Finset N :=
  ((QuorumManager.readResponses (s.readFn key lost)
    s.manager.selectedReplicas).map Prod.fst).toFinset

section

variable (h : Sound nodes initial config s) (key : String) (lost : N → Option ReplicationError)
include h

private theorem card_answering :
    (s.answering key lost).card = (QuorumManager.readResponses (s.readFn key lost)
      s.manager.selectedReplicas).length := by
  have hselected := s.manager.selectedReplicas_sublist.nodup h.nodup
  rw [answering, List.toFinset_card_of_nodup (QuorumManager.nodup_readResponses hselected),
    List.length_map]

private theorem answering_subset : s.answering key lost ⊆ nodes := by
  intro n hn
  obtain ⟨r, hr, rfl⟩ := List.mem_map.mp (List.mem_toFinset.mp hn)
  have hselected := (QuorumManager.mem_readResponses.mp hr).1
  exact h.members r.1 (s.manager.selectedReplicas_sublist.subset hselected)

end

end ReplicaSet

/-- In every run with a configuration that supports strong consistency, whatever replicas
are available, fail or time out, a quorum read that returns gives data of a version at
least as new as that of every quorum write that has returned. -/
theorem quorum_read_sees_completed_writes {N : Type} [DecidableEq N] (config : QuorumConfig)
    (nodes : Finset N) (initial : String → Stored) (manager : QuorumManager N)
    (hnew : QuorumManager.new config = .ok manager)
    (hstrong : config.supportsStrongConsistency = true)
    (hnodes : nodes.card = config.totalReplicas) (events : List (QuorumEvent N)) (s : ReplicaSet N)
    (hrun : exec (ReplicaSet.step nodes initial) (.new manager initial) events = some s)
    (key : String) (lost : N → Option ReplicationError) (data : Option Bytes)
    (result : QuorumResult N)
    (hread : (s.manager.quorumRead (s.readFn key lost)).1 = .ok (data, result)) :
    ∃ stored, s.Genuine initial key stored ∧ stored.data = data ∧
      ∀ w ∈ s.completed, w.key = key → w.version ≤ stored.version := by
  have h := ReplicaSet.sound hnew hrun
  have hpos := QuorumConfig.readQuorum_pos (QuorumManager.new_ok hnew).1
  rw [← h.configured] at hpos
  obtain ⟨hquo, latest, hlatest, hdata, hmax⟩ := QuorumManager.quorumRead_ok hread hpos
  obtain ⟨hversion, hconts⟩ :=
    ReplicaSet.readFn_ok (QuorumManager.mem_readResponses.mp hlatest).2
  refine ⟨s.replicas latest.1 key, h.genuine latest.1 key, ?_, ?_⟩
  · rw [hdata, hconts]
  · intro w hw hkey
    obtain ⟨Q, hQ, hcard, hver⟩ := h.backed w hw
    -- the replicas behind the write and those that answer have a member in common
    have hmore : nodes.card < Q.card + (s.answering key lost).card := by
      have hlt := QuorumConfig.lt_of_supportsStrongConsistency hstrong
      rw [h.configured] at hquo
      rw [ReplicaSet.card_answering h, hnodes]
      omega
    obtain ⟨n, hn⟩ := Finset.inter_nonempty_of_card_lt_card_add_card hQ
      (ReplicaSet.answering_subset h key lost) hmore
    obtain ⟨hnQ, hnR⟩ := Finset.mem_inter.mp hn
    obtain ⟨r, hr, rfl⟩ := List.mem_map.mp (List.mem_toFinset.mp hnR)
    obtain ⟨hrversion, -⟩ := ReplicaSet.readFn_ok (QuorumManager.mem_readResponses.mp hr).2
    calc w.version ≤ (s.replicas r.1 w.key).version := hver r.1 hnQ
      _ = r.2.version := by rw [hkey, hrversion]
      _ ≤ latest.2.version := hmax r hr
      _ = (s.replicas latest.1 key).version := hversion

def majorityConfig : QuorumConfig := { writeQuorum := 2, readQuorum := 2, totalReplicas := 3 }

def nothing : String → Stored := fun _ => { version := 0, data := none, timestamp := 0 }

def sampleQuorumEvents : List (QuorumEvent (Fin 3)) :=
  [.available [0, 1, 2],
    .write { key := "k", version := 1, data := [7], timestamp := 5 }
      (fun n => if n = 2 then .error .operationTimeout
        else .ok { success := true, version := 1, sourceNode := n, error := none })
      (fun n => decide (n ≠ 2))]

def sampleLost (n : Fin 3) : Option ReplicationError :=
  if n = 0 then some .operationTimeout else none

/-- The read is answered by the second replica and by the one that missed the write. -/
theorem quorum_read_sample :
    ∃ (s : ReplicaSet (Fin 3)) (result : QuorumResult (Fin 3)),
      (s.manager.quorumRead (s.readFn "k" sampleLost)).1 = .ok (some [7], result) ∧
      s.completed.map Write.version = [1] ∧
      ∃ stored, s.Genuine nothing "k" stored ∧ stored.data = some [7] ∧
        ∀ w ∈ s.completed, w.key = "k" → w.version ≤ stored.version := by
  obtain ⟨manager, s, result, hnew, hrun, hread, hcompleted⟩ :
      ∃ (manager : QuorumManager (Fin 3)) (s : ReplicaSet (Fin 3))
        (result : QuorumResult (Fin 3)),
        QuorumManager.new majorityConfig = .ok manager ∧
        exec (ReplicaSet.step {0, 1, 2} nothing) (.new manager nothing)
          sampleQuorumEvents = some s ∧
        (s.manager.quorumRead (s.readFn "k" sampleLost)).1 = .ok (some [7], result) ∧
        s.completed.map Write.version = [1] :=
    ⟨_, _, _, rfl, rfl, rfl, rfl⟩
  exact ⟨s, result, hread, hcompleted,
    quorum_read_sees_completed_writes majorityConfig {0, 1, 2} nothing manager hnew rfl rfl
      sampleQuorumEvents s hrun "k" sampleLost (some [7]) result hread⟩

end Kaelix.Storage.Replication
