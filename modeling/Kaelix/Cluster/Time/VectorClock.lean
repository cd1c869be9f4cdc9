import Kaelix.Lib.CausalOrder
import Kaelix.Lib.Counters
import Kaelix.Lib.Run
import Kaelix.Cluster.Node.Address

/-!
# Vector clocks

`VectorClock` of `kaelix-cluster/src/time/mod.rs`, and the system it is for: nodes that tick at
local and send events and call `update` with the clock a message carries.  `compare` then tells
exactly how two events are ordered causally.

Counters are natural numbers: the runs considered do not overflow `u64`.
-/

namespace Kaelix.Cluster.Time

open Lib

/-- What `compare` answers. -/
inductive CausalityRelation
  | before
  | after
  | concurrent
  | equal
deriving DecidableEq

/-- A node's clock. -/
structure VectorClock where
  nodeId : NodeId
  vector : HashMap NodeId Nat

namespace VectorClock

def new (nodeId : NodeId) : VectorClock := { nodeId := nodeId, vector := AList.insert nodeId 0 ∅ }

def withNodes (nodeId : NodeId) (nodes : List NodeId) : VectorClock :=
  { nodeId := nodeId
    vector := AList.insert nodeId 0 (nodes.foldl (fun m n => AList.insert n 0 m) ∅) }

/-- `get_timestamp`; a node the map does not have reads as `0`. -/
def getTimestamp (self : VectorClock) (n : NodeId) : Nat := (self.vector.lookup n).getD 0

def tick (self : VectorClock) : VectorClock × Nat :=
  let current := self.getTimestamp self.nodeId + 1
  ({ self with vector := self.vector.insert self.nodeId current }, current)

def raise (vector : HashMap NodeId Nat) (entry : Sigma fun _ : NodeId => Nat) :
    HashMap NodeId Nat :=
  vector.insert entry.1 (max ((vector.lookup entry.1).getD 0) entry.2)

variable (self other : VectorClock)

def update : VectorClock :=
  { self with vector := other.vector.entries.foldl raise self.vector }.tick.1

def compareAt (flags : Bool × Bool) (n : NodeId) : Bool × Bool :=
  match Ord.compare (self.getTimestamp n) (other.getTimestamp n) with
  | .lt => (true, flags.2)
  | .gt => (flags.1, true)
  | .eq => flags

def allNodes : List NodeId :=
  (self.vector.keys ++ other.vector.keys).dedup

/-- What `compare` makes of its flags: some component less, some greater. -/
def relationOf : Bool × Bool → CausalityRelation
  | (true, false) => .before
  | (false, true) => .after
  | (false, false) => .equal
  | (true, true) => .concurrent

def compare : CausalityRelation :=
  relationOf ((allNodes self other).foldl (compareAt self other) (false, false))

/-! ## Clocks as tables of counters -/

theorem getTimestamp_new (n p : NodeId) : (new n).getTimestamp p = 0 := by
  unfold getTimestamp new
  rw [HashMap.lookup_insert_eq]
  split <;> simp

private theorem getD_foldl_insert_zero (nodes : List NodeId) (p : NodeId) :
    ∀ m : HashMap NodeId Nat, (m.lookup p).getD 0 = 0 →
      ((nodes.foldl (fun m n => AList.insert n 0 m) m).lookup p).getD 0 = 0 := by
  induction nodes with
  | nil => intro m hm; exact hm
  | cons n nodes ih =>
    intro m hm
    refine ih _ ?_
    rw [HashMap.lookup_insert_eq]
    split
    · rfl
    · exact hm

theorem getTimestamp_withNodes (n : NodeId) (nodes : List NodeId) (p : NodeId) :
    (withNodes n nodes).getTimestamp p = 0 := by
  unfold getTimestamp withNodes
  rw [HashMap.lookup_insert_eq]
  split
  · rfl
  · exact getD_foldl_insert_zero nodes p ∅ (by simp)

theorem getTimestamp_tick (c : VectorClock) (p : NodeId) :
    c.tick.1.getTimestamp p = c.getTimestamp p + if p = c.nodeId then 1 else 0 := by
  simp only [tick]
  rw [getTimestamp, HashMap.lookup_insert_eq]
  split
  · rename_i h
    rw [h]
    rfl
  · rfl

variable (c d : VectorClock)

theorem getTimestamp_update (p : NodeId) :
    (c.update d).getTimestamp p =
      max (c.getTimestamp p) (d.getTimestamp p) + if p = c.nodeId then 1 else 0 := by
  rw [update, getTimestamp_tick]
  congr 1
  exact Counters.get_merge c.vector d.vector p

/-! ## `compare` as a relation of tables -/

private theorem foldl_compareAt (nodes : List NodeId) :
    ∀ flags : Bool × Bool, nodes.foldl (compareAt c d) flags =
      (flags.1 || nodes.any fun n => decide (c.getTimestamp n < d.getTimestamp n),
       flags.2 || nodes.any fun n => decide (d.getTimestamp n < c.getTimestamp n)) := by
  induction nodes with
  | nil => intro flags; simp
  | cons n nodes ih =>
    intro flags
    rw [List.foldl_cons, ih, compareAt]
    rcases Nat.lt_trichotomy (c.getTimestamp n) (d.getTimestamp n) with hlt | heq | hgt
    · rw [Nat.compare_eq_lt.mpr hlt]
      simp [hlt, Nat.not_lt.mpr hlt.le]
    · rw [Nat.compare_eq_eq.mpr heq]
      simp [heq]
    · rw [Nat.compare_eq_gt.mpr hgt]
      simp [hgt, Nat.not_lt.mpr hgt.le]

/-- No counter of `c` is ahead of `d`. -/
def Below : Prop := ∀ n, c.getTimestamp n ≤ d.getTimestamp n

private theorem any_lt_eq_false_iff (nodes : List NodeId)
    (hnodes : ∀ n, n ∈ d.vector.keys → n ∈ nodes) :
    (nodes.any fun n => decide (c.getTimestamp n < d.getTimestamp n)) = false ↔
      Below d c := by
  simp only [List.any_eq_false, decide_eq_true_eq, Nat.not_lt]
  constructor
  · intro h n
    rcases Nat.eq_zero_or_pos (d.getTimestamp n) with h0 | hpos
    · omega
    · exact h n (hnodes n (Counters.mem_keys_of_pos hpos))
  · intro h n _
    exact h n

theorem compare_iff :
    (c.compare d = .before ↔ Below c d ∧ ¬ Below d c) ∧
      (c.compare d = .after ↔ Below d c ∧ ¬ Below c d) ∧
      (c.compare d = .concurrent ↔ ¬ Below c d ∧ ¬ Below d c) := by
  have hless := any_lt_eq_false_iff c d (allNodes c d) fun n hn =>
    List.mem_dedup.mpr (List.mem_append_right _ hn)
  have hgr := any_lt_eq_false_iff d c (allNodes c d) fun n hn =>
    List.mem_dedup.mpr (List.mem_append_left _ hn)
  rw [compare, foldl_compareAt, Bool.false_or, Bool.false_or, ← hless, ← hgr]
  generalize ((allNodes c d).any fun n =>
    decide (c.getTimestamp n < d.getTimestamp n)) = less
  generalize ((allNodes c d).any fun n =>
    decide (d.getTimestamp n < c.getTimestamp n)) = greater
  cases less <;> cases greater <;> simp [relationOf]

/-- A clock that has counted nothing. -/
def Fresh (n : NodeId) (c : VectorClock) : Prop := c = new n ∨ ∃ nodes, c = withNodes n nodes

variable {n : NodeId} {c : VectorClock}

theorem Fresh.nodeId (h : Fresh n c) : c.nodeId = n := by
  rcases h with rfl | ⟨nodes, rfl⟩ <;> rfl

theorem Fresh.getTimestamp (h : Fresh n c) (p : NodeId) : c.getTimestamp p = 0 := by
  rcases h with rfl | ⟨nodes, rfl⟩
  · exact getTimestamp_new n p
  · exact getTimestamp_withNodes n nodes p

end VectorClock

/-! ## Nodes that exchange messages -/

/-- What can happen at a node: a local event, a send event, or a receive event,
which names the send event, by its number in the run, whose message it receives. -/
inductive Action
  | internal (n : NodeId)
  | send (n : NodeId)
  | receive (n : NodeId) (source : Nat)
deriving DecidableEq

def Action.node : Action → NodeId
  | .internal n => n
  | .send n => n
  | .receive n _ => n

def Action.source : Action → Option Nat
  | .receive _ source => some source
  | _ => none

instance : Inhabited Action := ⟨.internal default⟩

/-- The clocks of all nodes, and the events so far with the clock recorded right
after each.  The record of a send event is the clone its message carries. -/
structure ClockSystem where
  clock : NodeId → VectorClock
  history : List (Action × VectorClock)

namespace ClockSystem

variable (s : ClockSystem)

def record (e : Action) (c : VectorClock) : ClockSystem :=
  { clock := fun m => if m = e.node then c else s.clock m
    history := s.history ++ [(e, c)] }

/-- One event.  A message may be received late, out of order, more than once or
never; only a message that has been sent can be received. -/
def step (e : Action) : Option ClockSystem :=
  match e with
  | .internal n => some (s.record e (s.clock n).tick.1)
  | .send n => some (s.record e (s.clock n).tick.1)
  | .receive n source =>
    match s.history[source]? with
    | some (.send _, carried) => some (s.record e ((s.clock n).update carried))
    | _ => none

/-- All clocks are fresh, and nothing has happened. -/
def Initial : Prop := (∀ n, VectorClock.Fresh n (s.clock n)) ∧ s.history = []

/-- What an event does: the table of its node is joined with the one the message
carries, if it receives one, and raised in its own component. -/
theorem step_spec {s s' : ClockSystem} {e : Action} (h : s.step e = some s') :
    ∃ c, s' = s.record e c ∧ c.nodeId = (s.clock e.node).nodeId ∧
      (e.source = none ∧ (∀ p, c.getTimestamp p = (s.clock e.node).getTimestamp p +
          if p = (s.clock e.node).nodeId then 1 else 0) ∨
      ∃ source m carried, e.source = some source ∧
        s.history[source]? = some (.send m, carried) ∧
        ∀ p, c.getTimestamp p =
          max ((s.clock e.node).getTimestamp p) (carried.getTimestamp p) +
            if p = (s.clock e.node).nodeId then 1 else 0) := by
  cases e with
  | internal | send =>
    obtain rfl := Option.some.inj h
    exact ⟨_, rfl, rfl, .inl ⟨rfl, VectorClock.getTimestamp_tick _⟩⟩
  | receive n source =>
    simp only [step] at h
    split at h
    · rename_i m carried hsrc
      obtain rfl := Option.some.inj h
      exact ⟨_, rfl, rfl, .inr ⟨source, m, carried, rfl, hsrc,
        VectorClock.getTimestamp_update _ _⟩⟩
    · cases h

end ClockSystem

/-- A run of the nodes' clocks. -/
abbrev ClockRun := Run ClockSystem.step

namespace ClockRun

open ClockSystem

variable (ρ : ClockRun)

def stamp (i : Nat) : VectorClock := (ρ.state (i + 1)).clock (ρ.event i).node

variable {ρ : ClockRun}

private theorem nodeId_eq (hinit : (ρ.state 0).Initial) :
    ∀ t, t ≤ ρ.length → ∀ n, ((ρ.state t).clock n).nodeId = n := by
  refine ρ.invariant (fun n => (hinit.1 n).nodeId) ?_
  intro t ht ih n
  obtain ⟨c, hs, hid, _⟩ := step_spec (ρ.step_eq t ht)
  rw [hs, record]
  dsimp only
  split
  · rename_i hn
    rw [hid, ih, hn]
  · exact ih n

private theorem history_eq (hinit : (ρ.state 0).Initial) :
    ∀ t, t ≤ ρ.length → (ρ.state t).history.length = t ∧
      ∀ k, k < t → (ρ.state t).history[k]? = some (ρ.event k, ρ.stamp k) := by
  refine ρ.invariant ⟨by rw [hinit.2]; rfl, fun k hk => by omega⟩ ?_
  rintro t ht ⟨hlen, hread⟩
  obtain ⟨c, hs, _⟩ := step_spec (ρ.step_eq t ht)
  have hc : ρ.stamp t = c := by
    rw [stamp, hs, record]
    exact if_pos rfl
  have hhist : (ρ.state (t + 1)).history = (ρ.state t).history ++ [(ρ.event t, c)] := by
    rw [hs]
    rfl
  rw [hhist]
  refine ⟨by rw [List.length_append, hlen]; rfl, ?_⟩
  intro k hk
  rcases Nat.lt_or_ge k t with hlt | hge
  · rw [List.getElem?_append_left (by omega)]
    exact hread k hlt
  · obtain rfl : k = t := by omega
    rw [List.getElem?_append_right (by omega), hlen, Nat.sub_self, hc]
    rfl

private theorem carried_eq (hinit : (ρ.state 0).Initial) {j : Nat} (hj : j ≤ ρ.length) {i : Nat}
    {e : Action} {carried : VectorClock} (h : (ρ.state j).history[i]? = some (e, carried)) :
    i < j ∧ carried = ρ.stamp i := by
  obtain ⟨hlen, hread⟩ := history_eq hinit j hj
  have hi : i < j := by
    have := (List.getElem?_eq_some_iff.mp h).1
    omega
  rw [hread i hi] at h
  exact ⟨hi, (Prod.mk.inj (Option.some.inj h)).2.symm⟩

def messages (hinit : (ρ.state 0).Initial) : MessageRun NodeId where
  length := ρ.length
  proc i := (ρ.event i).node
  source i := (ρ.event i).source
  source_lt := by
    intro j hj i hi
    obtain ⟨_, _, _, ⟨hnone, _⟩ | ⟨source, m, carried, hsome, hsrc, _⟩⟩ :=
      step_spec (ρ.step_eq j hj)
    · rw [hi] at hnone
      cases hnone
    · obtain rfl : source = i := Option.some.inj (hsome.symm.trans hi)
      exact (carried_eq hinit hj.le hsrc).1

private theorem clocked (hinit : (ρ.state 0).Initial) :
    Clocked (ρ.messages hinit) fun t q p => ((ρ.state t).clock q).getTimestamp p where
  zero q p := (hinit.1 q).getTimestamp p
  step := by
    intro j hj q p
    obtain ⟨c, hs, _, hc⟩ := step_spec (ρ.step_eq j hj)
    have hid := nodeId_eq hinit j (Nat.le_of_lt hj) (ρ.event j).node
    have hclock : (ρ.state (j + 1)).clock q =
        if q = (ρ.event j).node then c else (ρ.state j).clock q := by
      rw [hs]
      rfl
    change ((ρ.state (j + 1)).clock q).getTimestamp p =
      if q = (ρ.event j).node then
        max (((ρ.state j).clock q).getTimestamp p)
          ((ρ.event j).source.elim 0 fun i => (ρ.stamp i).getTimestamp p) +
          if p = q then 1 else 0
      else ((ρ.state j).clock q).getTimestamp p
    rw [hclock]
    split
    · rename_i hq
      rw [hq]
      rcases hc with ⟨hnone, hc⟩ | ⟨source, m, carried, hsome, hsrc, hc⟩
      · rw [hc, hid, hnone]
        simp
      · rw [hc, hid, hsome, (carried_eq hinit (Nat.le_of_lt hj) hsrc).2]
        rfl
    · rfl

end ClockRun

/-- Vector clocks characterise happened-before: the clocks recorded after two
events compare as the events are ordered causally. -/
theorem compare_stamp_iff (ρ : ClockRun) (hinit : (ρ.state 0).Initial) {i j : Nat}
    (hi : i < ρ.length) (hj : j < ρ.length) (hne : i ≠ j) :
    ((ρ.stamp i).compare (ρ.stamp j) = .before ↔
        (ρ.messages hinit).HappenedBefore i j) ∧
      ((ρ.stamp i).compare (ρ.stamp j) = .after ↔
        (ρ.messages hinit).HappenedBefore j i) ∧
      ((ρ.stamp i).compare (ρ.stamp j) = .concurrent ↔
        ¬ (ρ.messages hinit).HappenedBefore i j ∧
          ¬ (ρ.messages hinit).HappenedBefore j i) := by
  have hclocked := ρ.clocked hinit
  have hij : VectorClock.Below (ρ.stamp i) (ρ.stamp j) ↔
      (ρ.messages hinit).HappenedBefore i j := hclocked.stamp_le_iff hi hj hne
  have hji : VectorClock.Below (ρ.stamp j) (ρ.stamp i) ↔
      (ρ.messages hinit).HappenedBefore j i := hclocked.stamp_le_iff hj hi hne.symm
  obtain ⟨hbef, hafter, hconc⟩ := VectorClock.compare_iff (ρ.stamp i) (ρ.stamp j)
  rw [hbef, hafter, hconc, hij, hji]
  -- two events cannot have happened before each other
  have hasymm : (ρ.messages hinit).HappenedBefore i j →
      ¬ (ρ.messages hinit).HappenedBefore j i := fun h h' =>
    absurd (h.lt.trans h'.lt) (Nat.lt_irrefl i)
  exact ⟨⟨And.left, fun h => ⟨h, hasymm h⟩⟩, ⟨And.left, fun h => ⟨h, fun h' => hasymm h' h⟩⟩,
    Iff.rfl⟩

def relay : List Action := [.send ⟨1⟩, .internal ⟨2⟩, .receive ⟨2⟩ 0, .receive ⟨2⟩ 0]

def relayRun : ClockRun := Run.ofEvents ClockSystem.step ⟨VectorClock.new, []⟩ relay (by decide)

private theorem relayRun_initial : (relayRun.state 0).Initial := ⟨fun _ => .inl rfl, rfl⟩

theorem compare_stamp_relay :
    ((relayRun.stamp 0).compare (relayRun.stamp 1) = .concurrent ∧
      ¬ (relayRun.messages relayRun_initial).HappenedBefore 0 1) ∧
    ((relayRun.stamp 0).compare (relayRun.stamp 3) = .before ∧
      (relayRun.messages relayRun_initial).HappenedBefore 0 3) := by
  have h₁ : (relayRun.stamp 0).compare (relayRun.stamp 1) = .concurrent := by decide
  have h₃ : (relayRun.stamp 0).compare (relayRun.stamp 3) = .before := by decide
  exact ⟨⟨h₁, ((compare_stamp_iff relayRun relayRun_initial (by decide) (by decide)
      (by decide)).2.2.mp h₁).1⟩,
    h₃, (compare_stamp_iff relayRun relayRun_initial (by decide) (by decide) (by decide)).1.mp h₃⟩

end Kaelix.Cluster.Time
