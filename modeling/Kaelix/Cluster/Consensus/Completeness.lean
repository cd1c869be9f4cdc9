import Kaelix.Cluster.Consensus.Acknowledgement

/-!
# Leader completeness

A prefix of the log is committed in a term when a majority has held it in that term.  Every leader
of a later term holds it too.
-/

namespace Kaelix.Cluster.Raft

open Lib

namespace ClusterRun

open RaftCluster RaftNode

/-! ## Prefixes persist -/

/-- Step `i` delivers no request that cuts the log without need: a request that
passes the checks reaches the end of the receiver's log, or one of its entries
has another term than the entry it replaces. -/
def NeededWrite (ρ : ClusterRun) (i : Nat) : Prop :=
  ∀ p ∈ (ρ.event i).delivered, ∀ request ∈ p.appendRequest,
    (ρ.node i p.dst).currentTerm ≤ request.term →
    (ρ.node i p.dst).checkLogConsistency request.prevLogIndex request.prevLogTerm = true →
    Needed LogEntry.term (ρ.node i p.dst).log request.prevLogIndex request.entries

instance (ρ : ClusterRun) (i : Nat) : Decidable (ρ.NeededWrite i) :=
  inferInstanceAs (Decidable (∀ p ∈ (ρ.event i).delivered, ∀ request ∈ p.appendRequest, _))

variable {ρ : ClusterRun} {i : Nat}

theorem NeededWrite.heartbeatCovers (h : ρ.NeededWrite i) : ρ.HeartbeatCovers i := by
  intro p hp request hreq hterm hcons hnil
  rcases h p hp request hreq hterm hcons with hreach | ⟨y, hy, _⟩
  · rw [hnil, List.length_nil] at hreach
    omega
  · rw [hnil, List.length_nil] at hy
    omega

/-- What an accepted request leaves, and what of the log it keeps. -/
structure Accepts (ρ : ClusterRun) (i : Nat) (p : Packet) (request : AppendEntriesRequest)
    (now j : Nat) : Prop where
  before : j < i
  sent : ρ.SentBy p request j
  log_eq : ((ρ.node i p.dst).accepted request now).log =
    (ρ.node j p.src).log.take (request.prevLogIndex + request.entries.length)
  keeps : ∀ X, X <+: (ρ.node i p.dst).log → Comparable X (ρ.node j p.src).log →
    X <+: ((ρ.node i p.dst).accepted request now).log

theorem accepts (hinit : (ρ.state 0).Initial) (hsafe : ρ.ElectionSafe) (hi : i < ρ.length)
    (hneed : ρ.NeededWrite i) {p : Packet} {now : Nat} {request : AppendEntriesRequest}
    (he : ρ.event i = .deliver p now) (hp : p ∈ (ρ.state i).net)
    (hm : p.message = .appendRequest request) (hle : (ρ.node i p.dst).currentTerm ≤ request.term)
    (hcons : (ρ.node i p.dst).checkLogConsistency request.prevLogIndex request.prevLogTerm = true) :
    ∃ j, ρ.Accepts i p request now j := by
  obtain ⟨j, hj, hsent⟩ := ρ.sentBy hinit hi.le hp hm
  have hdel := Event.mem_delivered.mpr ⟨now, he⟩
  have hreq := Packet.mem_appendRequest.mpr hm
  have hgood := goodLog hsafe hinit hi.le p.dst
  have hgood' := (goodLog hsafe hinit (show j ≤ ρ.length by omega) p.src).mono
    (show j ≤ i by omega) (Nat.le_refl _)
  have hlog := accepted_log_prefix hsafe hinit hi.le hgood hgood' now hsent.replicates hcons
    (hneed.heartbeatCovers p hdel request hreq hle hcons)
  refine ⟨j, hj, hsent, hlog, ?_⟩
  intro X hX hcomp
  rw [hlog]
  exact hsent.replicates.segment.prefix_take (hneed p hdel request hreq hle hcons) hX hcomp

variable {v : NodeId} {j : Nat}

/-- A prefix of a node's log stays there as long as it is comparable to the logs
of all leaders the node may hear from. -/
theorem prefix_persists (hinit : (ρ.state 0).Initial) (hsafe : ρ.ElectionSafe)
    (hneed : ∀ i, i < ρ.length → ρ.NeededWrite i) {X : List LogEntry} (hij : i ≤ j)
    (hj : j ≤ ρ.length) (hX : X <+: (ρ.node i v).log)
    (hcomp : ∀ T l, (ρ.node i v).currentTerm ≤ T → T ≤ (ρ.node j v).currentTerm →
      ρ.LeaderLog j T l → Comparable X l) : X <+: (ρ.node j v).log := by
  have key : ∀ d, i + d ≤ j → X <+: (ρ.node (i + d) v).log := by
    intro d
    induction d with
    | zero => intro _; exact hX
    | succ d ih =>
      intro hd
      have hold := ih (by omega)
      have hi : i + d < ρ.length := by omega
      rcases (ρ.change hi v).logChange with hlog | ⟨_, _, _, _, _, hlog⟩ |
        ⟨p, now, request, he, hp, rfl, hm, hle, hcons, hb⟩
      · show X <+: (ρ.node (i + d + 1) v).log
        rw [hlog]
        exact hold
      · show X <+: (ρ.node (i + d + 1) v).log
        rw [hlog]
        exact hold.trans (List.prefix_append _ _)
      · obtain ⟨k, hacc⟩ := accepts hinit hsafe hi (hneed _ hi) he hp hm hle hcons
        have hbef := hacc.before
        show X <+: (ρ.node (i + d + 1) p.dst).log
        rw [hb]
        refine hacc.keeps X hold (hcomp request.term _ ?_ ?_ ?_)
        · exact (ρ.term_mono (show i ≤ i + d by omega) hi.le p.dst).trans hle
        · have hmono := ρ.term_mono (show i + d + 1 ≤ j by omega) hj p.dst
          rwa [hb, accepted_currentTerm] at hmono
        · exact (hacc.sent.leads.leaderLog).mono (by omega)
  have := key (j - i) (by omega)
  rwa [show i + (j - i) = j by omega] at this

/-! ## What a vote says about the candidate's log -/

/-- Up to moment `i` the node `v`, in the term `T`, has found the log of the
candidate `c` of that term up to date. -/
def FoundUpToDate (ρ : ClusterRun) (i : Nat) (v c : NodeId) (T : Nat) : Prop :=
  ∃ m, m ≤ i ∧ (ρ.node m v).currentTerm = T ∧ ∃ j, j ≤ i ∧
    (ρ.node j c).state = .candidate ∧ (ρ.node j c).currentTerm = T ∧
    (ρ.node m v).isLogUpToDate (ρ.node j c).lastLogInfo.1 (ρ.node j c).lastLogInfo.2 = true

variable {c : NodeId} {T : Nat}

theorem FoundUpToDate.mono (h : ρ.FoundUpToDate i v c T) (hij : i ≤ j) :
    ρ.FoundUpToDate j v c T := by
  obtain ⟨m, hm, hterm, k, hk, hrest⟩ := h
  exact ⟨m, by omega, hterm, k, by omega, hrest⟩

private theorem foundUpToDate_now (hinit : (ρ.state 0).Initial) (hi : i < ρ.length)
    (hnow : (ρ.node (i + 1) v).votedFor = some c)
    (hold : ∀ T, ρ.Voted i v c T → v = c ∨ ρ.FoundUpToDate i v c T) :
    v = c ∨ ρ.FoundUpToDate (i + 1) v c (ρ.node (i + 1) v).currentTerm := by
  rcases (ρ.change hi v).voteChange with ⟨hterm, hvote⟩ | hnone | ⟨_, hself⟩ |
    ⟨p, now, request, he, hp, hm, rfl, hterm, hvote, hlog, _⟩
  · rcases hold _ ⟨i, Nat.le_refl i, hterm.symm, hvote.symm.trans hnow⟩ with heq | hfound
    · exact .inl heq
    · exact .inr (hfound.mono (by omega))
  · exact absurd (hnone.symm.trans hnow) (by simp)
  · have hc := Option.some.inj (hself.symm.trans hnow)
    exact .inl ((ρ.nodeId_eq hinit v i hi.le).symm.trans hc)
  · have hc := Option.some.inj (hvote.symm.trans hnow)
    have hreq := ρ.solicits hinit hi.le hp hm
    obtain ⟨j, hj, hcand, hjterm, hinfo⟩ := hreq.candidacy
    rw [hreq.src, hc] at hcand hjterm hinfo
    refine .inr ⟨i + 1, Nat.le_refl _, rfl, j, by omega, hcand, ?_, ?_⟩
    · exact hjterm.trans hterm.symm
    · rw [hinfo]
      exact hlog

theorem voted_foundUpToDate (hinit : (ρ.state 0).Initial) (v c : NodeId) :
    ∀ i, i ≤ ρ.length → ∀ T, ρ.Voted i v c T → v = c ∨ ρ.FoundUpToDate i v c T := by
  refine ρ.invariant ?_ ?_
  · intro T hvoted
    exact absurd hvoted (not_voted_zero hinit)
  · rintro i hi ih T ⟨j, hj, hterm, hvote⟩
    rcases Nat.lt_or_ge j (i + 1) with hlt | hge
    · exact (ih T ⟨j, by omega, hterm, hvote⟩).imp_right fun h => h.mono (by omega)
    · obtain rfl : j = i + 1 := by omega
      subst hterm
      exact foundUpToDate_now hinit hi hvote ih

theorem isLogUpToDate_of_dense {a b : RaftNode} (ha : Dense a.log) (hb : Dense b.log)
    (h : a.isLogUpToDate b.lastLogInfo.1 b.lastLogInfo.2 = true) :
    lastTerm LogEntry.term a.log < lastTerm LogEntry.term b.log ∨
      lastTerm LogEntry.term a.log = lastTerm LogEntry.term b.log ∧
        a.log.length ≤ b.log.length := by
  rw [isLogUpToDate, lastLogInfo_of_dense ha, lastLogInfo_of_dense hb] at h
  dsimp only at h
  split at h
  · exact .inl (by simpa using h)
  · rename_i heq
    simp only [bne_iff_ne, ne_eq, Decidable.not_not] at heq
    exact .inr ⟨heq.symm, by simpa using h⟩

/-! ## Terms of candidates and leaders -/

private theorem term_pos (ρ : ClusterRun) (hinit : (ρ.state 0).Initial) (n : NodeId) :
    ∀ i, i ≤ ρ.length → (ρ.node i n).state ≠ .follower → 0 < (ρ.node i n).currentTerm := by
  refine ρ.invariant ?_ ?_
  · intro h
    obtain ⟨config, h0⟩ := ρ.node_zero hinit n
    rw [h0] at h
    exact absurd rfl h
  · intro i hi ih hstate
    rcases (ρ.change hi n).tallyChange with ⟨hterm, hsame, _⟩ | hfol | ⟨_, hterm, _⟩ |
      ⟨_, _, _, _, _, _, _, hcnt, hterm, _⟩
    · rw [hterm]
      exact ih (hsame ▸ hstate)
    · exact absurd hfol hstate
    · rw [hterm]
      exact Nat.succ_pos _
    · rw [hterm]
      exact ih (by rw [show (ρ.node i n).state = _ from hcnt.1]; simp)

private theorem no_leaderLog_of_candidate (hinit : (ρ.state 0).Initial) (hsafe : ρ.ElectionSafe)
    {k : Nat}
    (hcand : (ρ.node k c).state = .candidate) (hterm : (ρ.node k c).currentTerm = T)
    (hk : k ≤ ρ.length) (hj : j ≤ ρ.length) (hlead : ρ.Leads j c T) (hik : i ≤ k)
    (l : List LogEntry) : ¬ ρ.LeaderLog i T l := by
  rintro ⟨m, hm, n, hn, _⟩
  obtain rfl := hsafe.eq hinit (show m ≤ ρ.length by omega) hj hn hlead
  have hphase := ρ.term_phase_le (show m ≤ k by omega) hk n
  have hone : phase .leader = 1 := rfl
  have hzero : phase .candidate = 0 := rfl
  rw [hn.1, hcand, hone, hzero, hn.2, hterm] at hphase
  omega

/-! ## Committed prefixes -/

/-- The prefix `P` is committed in the term `T`: its last entry is of that term,
the term's leader has had it, and a majority has held it in that term. -/
structure Committed (ρ : ClusterRun) (T : Nat) (P : List LogEntry) : Prop where
  last : lastTerm LogEntry.term P = T
  leader : ∃ l, ρ.LeaderLog ρ.length T l ∧ P <+: l
  quorum : ∃ Q : Finset NodeId, IsMajority Q (ρ.state 0).ids.toFinset ∧
    ∀ v ∈ Q, ∃ m, m ≤ ρ.length ∧ (ρ.node m v).currentTerm = T ∧ P <+: (ρ.node m v).log

variable {P : List LogEntry}

theorem Committed.pos (hinit : (ρ.state 0).Initial) (h : ρ.Committed T P) : 0 < T := by
  obtain ⟨l, ⟨j, hj, n, hn, _⟩, _⟩ := h.leader
  rw [← hn.2]
  exact ρ.term_pos hinit n j hj (by rw [hn.1]; simp)

variable {l : List LogEntry}

theorem Committed.comparable (hinit : (ρ.state 0).Initial) (hsafe : ρ.ElectionSafe)
    (h : ρ.Committed T P) (hl : ρ.LeaderLog ρ.length T l) : Comparable P l := by
  obtain ⟨l', hl', hP⟩ := h.leader
  exact Comparable.mono_left hP (leaderLog_chain hsafe hinit (Nat.le_refl _) T l' l hl' hl)

variable {U : Nat}

private theorem lastTerm_lt_of_no_leader (hgood : ρ.GoodLog i U l)
    (hnone : ∀ l', ¬ ρ.LeaderLog i U l') (hne : l ≠ []) : lastTerm LogEntry.term l < U := by
  have hle : lastTerm LogEntry.term l ≤ U := by
    rw [lastTerm, List.getLast?_eq_some_getLast hne]
    exact hgood.term_le _ (List.getLast_mem hne)
  obtain ⟨l', hl', -⟩ := hgood.backed.below_last hne
  refine Nat.lt_of_le_of_ne hle fun heq => ?_
  rw [heq] at hl'
  exact hnone l' hl'

variable (hinit : (ρ.state 0).Initial)
include hinit

variable (hsafe : ρ.ElectionSafe)
include hsafe

section

variable (hneed : ∀ i, i < ρ.length → ρ.NeededWrite i) (honce : ∀ i, i < ρ.length → ρ.CountsOnce i)
include hneed honce

/-- The induction step of leader completeness, for one leader `c` of the term
`U`: if the leaders of all terms between hold `P`, so does `c`. -/
private theorem prefix_of_elected (hcom : ρ.Committed T P) (hTU : T < U)
    (hbetween : ∀ V l, T < V → V < U → ρ.LeaderLog ρ.length V l → P <+: l) (hj : j ≤ ρ.length)
    (hlead : ρ.Leads j c U) : P <+: (ρ.node j c).log := by
  obtain ⟨Q', hQ', k, hk, hcand, hkterm, hvotes⟩ := (ρ.tally hinit honce c j hj).leader hlead.1
  rw [hlead.2] at hkterm hvotes
  have hklen : k ≤ ρ.length := by omega
  obtain ⟨Q, hQ, hheld⟩ := hcom.quorum
  obtain ⟨v, hvQ, hvQ'⟩ := hQ.inter hQ'
  obtain ⟨m, hm, hmterm, hP⟩ := hheld v hvQ
  have hnone : ∀ i, i ≤ k → ∀ l, ¬ ρ.LeaderLog i U l := fun i hik =>
    no_leaderLog_of_candidate hinit hsafe hcand hkterm hklen hj hlead hik
  -- the shared voter still has the prefix at every moment of the term `U` up to `k`
  have hkept : ∀ i, i ≤ k → (ρ.node i v).currentTerm = U → P <+: (ρ.node i v).log := by
    intro i hik hterm
    have hmi : m ≤ i := by
      by_contra hlt
      have := ρ.term_mono (show i ≤ m by omega) hm v
      omega
    refine prefix_persists hinit hsafe hneed hmi (by omega) hP ?_
    intro V l hV hV' hl
    rw [hmterm] at hV
    rw [hterm] at hV'
    have hl' := hl.mono (show i ≤ ρ.length by omega)
    rcases Nat.lt_or_eq_of_le hV' with hlt | rfl
    · rcases Nat.lt_or_eq_of_le hV with hlt' | rfl
      · exact .inl (hbetween V l hlt' hlt hl')
      · exact hcom.comparable hinit hsafe hl'
    · exact absurd hl (hnone i hik l)
  have hgrow : ∀ i, i ≤ k → (ρ.node i c).currentTerm = U →
      (ρ.node i c).log <+: (ρ.node j c).log := fun i hik hterm =>
    ρ.log_prefix_of_not_follower (hterm.trans hlead.2.symm) (by rw [hlead.1]; simp) (by omega) hj
  rcases voted_foundUpToDate hinit v c k hklen U (hvotes v hvQ') with rfl |
    ⟨i, hik, hiterm, i', hik', _, hi'term, hup⟩
  · exact (hkept k (Nat.le_refl k) hkterm).trans (hgrow k (Nat.le_refl k) hkterm)
  · have hgv := goodLog hsafe hinit (show i ≤ ρ.length by omega) v
    have hgc := goodLog hsafe hinit (show i' ≤ ρ.length by omega) c
    have hbv := (hgv.mono (show i ≤ ρ.length by omega) (Nat.le_refl _)).backed
    have hbc := (hgc.mono (show i' ≤ ρ.length by omega) (Nat.le_refl _)).backed
    refine List.IsPrefix.trans ?_ (hgrow i' hik' hi'term)
    refine hbv.dominates (leaderLog_chain hsafe hinit (Nat.le_refl _)) hbc hgv.ascending
      (hkept i hik hiterm) ?_ (isLogUpToDate_of_dense hgv.dense hgc.dense hup) ?_
    · rw [hcom.last]
      exact hcom.pos hinit
    · intro l hlt hl
      rw [hcom.last] at hlt
      have hne : (ρ.node i' c).log ≠ [] := by
        intro h0
        rw [h0] at hlt
        exact absurd hlt (Nat.not_lt_zero T)
      rw [hi'term] at hgc
      exact hbetween _ l hlt (lastTerm_lt_of_no_leader hgc (hnone i' hik') hne) hl

/-- A later leader has what was committed. -/
theorem Committed.prefix_of_leads (hcom : ρ.Committed T P) :
    ∀ U, T < U → ∀ l, ρ.LeaderLog ρ.length U l → P <+: l := by
  intro U
  induction U using Nat.strong_induction_on with
  | _ U ih =>
    rintro hTU l ⟨j, hj, c, hlead, rfl⟩
    exact prefix_of_elected hinit hsafe hneed honce hcom hTU
      (fun V l hV hVU hl => ih V hVU hV l hl) hj hlead

theorem Committed.comparable_of_le (hcom : ρ.Committed T P) (hTU : T ≤ U)
    (hl : ρ.LeaderLog ρ.length U l) : Comparable P l := by
  rcases Nat.lt_or_eq_of_le hTU with hlt | rfl
  · exact .inl (hcom.prefix_of_leads hinit hsafe hneed honce U hlt l hl)
  · exact hcom.comparable hinit hsafe hl

/-- What is committed never forks. -/
theorem Committed.comparable_committed {R : List LogEntry} (hP : ρ.Committed T P)
    (hR : ρ.Committed U R) : Comparable P R := by
  rcases Nat.le_total T U with hle | hle
  · obtain ⟨l, hl, hRl⟩ := hR.leader
    have hcomp := hP.comparable_of_le hinit hsafe hneed honce hle hl
    exact (Comparable.mono_left hRl hcomp.symm).symm
  · obtain ⟨l, hl, hPl⟩ := hP.leader
    exact Comparable.mono_left hPl (hR.comparable_of_le hinit hsafe hneed honce hle hl).symm

end

end ClusterRun

end Kaelix.Cluster.Raft
