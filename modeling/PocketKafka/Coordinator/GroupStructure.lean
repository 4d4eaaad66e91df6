import PocketKafka.Coordinator.Manager
import PocketKafka.Coordinator.PendingJoins

namespace PocketKafka.Coordinator

open Bytes Protocol

theorem nextMemberID_injective : Function.Injective nextMemberID := by
  have back : ∀ n, ((Nat.digits 10 n).reverse.map fun d => UInt8.ofNat (48 + d)).map (fun c => c.toNat - 48) =
      (Nat.digits 10 n).reverse := by
    intro n
    rw [List.map_map]
    nth_rewrite 2 [← List.map_id (Nat.digits 10 n).reverse]
    apply List.map_congr_left
    intro d digit
    have small : d < 10 := Nat.digits_lt_base (by decide) (List.mem_reverse.mp digit)
    have whole : (UInt8.ofNat (48 + d)).toNat = 48 + d := UInt8.toNat_ofNat_of_lt' (by show 48 + d < 256; omega)
    show (UInt8.ofNat (48 + d)).toNat - 48 = d
    omega
  intro a b same
  have digits := congrArg (List.map fun c => c.toNat - 48) (List.append_cancel_left same)
  rw [back, back] at digits
  exact Nat.digits.injective 10 (List.reverse_injective digits)

namespace Group

variable {g : Group} {cfg : Config} {now : Time} {memberID : MemberID} {fresh : Bool} {req : JoinGroupRequest}

structure Enumerates (g : Group) : Prop where
  nodup : g.joinOrder.Nodup
  listed : ∀ id, id ∈ g.joinOrder ↔ id ∈ g.members

/-- A group that has members has a leader for `completeJoinLocked` to find. -/
def HasLeader (g : Group) : Prop :=
  g.members.entries.length ≠ 0 → ∃ first rest leader, g.joinOrder = first :: rest ∧ g.members.lookup first = some leader

structure Structured (g : Group) : Prop where
  order : g.Enumerates
  joined : ∀ id ∈ g.joined, id ∈ g.members
  vacant : g.state = .empty ↔ g.members.keys = []
  led : g.state = .completingRebalance ∨ g.state = .stable → g.leaderID ∈ g.members ∧ 1 ≤ g.generation
  counted : 0 ≤ g.generation

theorem keys_eq_nil : g.members.keys = [] ↔ g.members.entries.length = 0 := by
  rw [List.length_eq_zero_iff]
  exact List.map_eq_nil_iff

theorem Enumerates.remove (h : g.Enumerates) (dead : List MemberID) : (g.remove dead).Enumerates := by
  constructor
  · exact h.nodup.filter _
  · intro id
    rw [mem_remove, ← h.listed]
    show id ∈ filterOrder g.joinOrder dead ↔ _
    rw [filterOrder, List.mem_filter, decide_eq_true_eq]

theorem Enumerates.drop (h : g.Enumerates) (gone : List MemberID) : (g.drop gone).Enumerates :=
  ⟨(h.remove gone).nodup, (h.remove gone).listed⟩

theorem Enumerates.touch (h : g.Enumerates) (memberID : MemberID) (now : Time) : (g.touch memberID now).Enumerates := by
  unfold Group.touch
  split
  · exact h
  · rename_i member found
    refine ⟨h.nodup, fun id => ?_⟩
    show id ∈ g.joinOrder ↔ id ∈ g.members.insert memberID _
    rw [AList.mem_insert, h.listed]
    refine ⟨Or.inr, ?_⟩
    rintro (rfl | member)
    · exact AList.lookup_isSome.mp (by rw [found]; rfl)
    · exact member

theorem enroll_joinOrder : (g.enroll cfg now memberID fresh req).joinOrder =
    if fresh then g.joinOrder ++ [memberID] else g.joinOrder := by
  unfold enroll
  dsimp only
  split <;> rfl

theorem enroll_generation : (g.enroll cfg now memberID fresh req).generation = g.generation := by
  unfold enroll
  dsimp only
  split <;> rfl

theorem Enumerates.enroll (h : g.Enumerates) (new : fresh = true ↔ memberID ∉ g.members) :
    (g.enroll cfg now memberID fresh req).Enumerates := by
  cases fresh with
  | true =>
    have absent := new.mp rfl
    refine ⟨?_, fun id => ?_⟩
    · rw [enroll_joinOrder, if_pos rfl]
      apply List.Nodup.append h.nodup (List.nodup_singleton _)
      intro id listed single
      rw [List.mem_singleton.mp single, h.listed] at listed
      exact absent listed
    · rw [enroll_joinOrder, if_pos rfl, enroll_members, AList.mem_insert, List.mem_append, h.listed, List.mem_singleton]
      exact Or.comm
  | false =>
    have present : memberID ∈ g.members := by
      by_contra absent
      exact Bool.noConfusion (new.mpr absent)
    refine ⟨?_, fun id => ?_⟩
    · rw [enroll_joinOrder, if_neg Bool.false_ne_true]
      exact h.nodup
    · rw [enroll_joinOrder, if_neg Bool.false_ne_true, enroll_members, AList.mem_insert, h.listed]
      refine ⟨Or.inr, ?_⟩
      rintro (rfl | member)
      · exact present
      · exact member

theorem Enumerates.hasLeader (h : g.Enumerates) : g.HasLeader := by
  intro some
  cases order : g.joinOrder with
  | nil =>
    refine absurd (keys_eq_nil.mp (List.eq_nil_iff_forall_not_mem.mpr fun id key => ?_)) some
    have listed := (h.listed id).mpr (AList.mem_keys.mpr key)
    rw [order] at listed
    cases listed
  | cons first rest =>
    have member : first ∈ g.members := (h.listed first).mp (by rw [order]; exact List.mem_cons_self)
    obtain ⟨leader, found⟩ := Option.isSome_iff_exists.mp (AList.lookup_isSome.mpr member)
    exact ⟨first, rest, leader, rfl, found⟩

theorem structured_new : newGroup.Structured := by
  refine ⟨⟨List.nodup_nil, fun id => ?_⟩, fun id member => ?_, ⟨fun _ => rfl, fun _ => rfl⟩, ?_, le_refl _⟩
  · exact ⟨fun listed => absurd listed List.not_mem_nil, fun member => absurd member (AList.notMem_empty id)⟩
  · cases member
  · rintro (clash | clash) <;> cases clash

theorem structured_reset : g.reset.Structured :=
  ⟨⟨structured_new.order.nodup, structured_new.order.listed⟩, structured_new.joined, structured_new.vacant,
    structured_new.led, structured_new.counted⟩

theorem structured_completeJoin (order : g.Enumerates) (low : 0 ≤ g.generation) (high : g.generation < 2147483647) :
    g.completeJoinLocked.Structured := by
  have next : int32 (g.generation + 1) = g.generation + 1 := int32_of_bounds (by omega) (by omega)
  by_cases none : g.members.entries.length = 0
  · rw [completeJoinLocked, if_pos none]
    refine ⟨⟨order.nodup, order.listed⟩, fun id member => ?_, ⟨fun _ => keys_eq_nil.mpr none, fun _ => rfl⟩, ?_, low⟩
    · cases member
    · rintro (clash | clash) <;> cases clash
  · obtain ⟨first, rest, leader, starts, found⟩ := order.hasLeader none
    have member : first ∈ g.members := AList.lookup_isSome.mp (by rw [found]; rfl)
    rw [completeJoinLocked, if_neg none]
    refine ⟨⟨order.nodup, order.listed⟩, fun id member => ?_, ⟨?_, fun empty => absurd (keys_eq_nil.mp empty) none⟩, ?_, ?_⟩
    · cases member
    · intro clash
      cases clash
    · intro _
      show g.joinOrder.headD [] ∈ g.members ∧ 1 ≤ int32 (g.generation + 1)
      rw [starts, next]
      exact ⟨member, by omega⟩
    · show 0 ≤ int32 (g.generation + 1)
      omega

theorem structured_begin (order : g.Enumerates) (some : g.members.entries.length ≠ 0) (low : 0 ≤ g.generation)
    (now : Time) : (g.beginRebalanceLocked now).Structured := by
  refine ⟨⟨order.nodup, order.listed⟩, fun id member => ?_, ⟨?_, fun empty => absurd (keys_eq_nil.mp empty) some⟩, ?_, low⟩
  · cases member
  · intro clash
    cases clash
  · rintro (clash | clash) <;> cases clash

theorem structured_emptied (order : g.Enumerates) (joined : ∀ id ∈ g.joined, id ∈ g.members)
    (none : g.members.entries.length = 0) : Structured { g with state := .empty, generation := 0, leaderID := [] } := by
  refine ⟨⟨order.nodup, order.listed⟩, joined, ⟨fun _ => keys_eq_nil.mpr none, fun _ => rfl⟩, ?_, le_refl _⟩
  rintro (clash | clash) <;> cases clash

theorem Structured.preparing (order : g.Enumerates) (joined : ∀ id ∈ g.joined, id ∈ g.members)
    (state : g.state = .preparingRebalance) (some : g.members.entries.length ≠ 0) (low : 0 ≤ g.generation) :
    g.Structured := by
  refine ⟨order, joined, ⟨fun empty => ?_, fun empty => absurd (keys_eq_nil.mp empty) some⟩, ?_, low⟩
  · rw [state] at empty
    cases empty
  · rw [state]
    rintro (clash | clash) <;> cases clash

theorem Structured.touch (h : g.Structured) (memberID : MemberID) (now : Time) : (g.touch memberID now).Structured := by
  have order := h.order.touch memberID now
  unfold Group.touch at order ⊢
  split
  · exact h
  · rename_i member found
    simp only [found] at order
    have inside : ∀ id ∈ g.members, id ∈ g.members.insert memberID { member with lastHeartbeat := now } :=
      fun id known => AList.mem_insert _ |>.mpr (Or.inr known)
    refine ⟨order, fun id known => inside id (h.joined id known), ⟨fun empty => ?_, fun none => ?_⟩, fun state => ?_,
      h.counted⟩
    · have nobody := h.vacant.mp empty
      have known : memberID ∈ g.members.keys := AList.mem_keys.mp (AList.lookup_isSome.mp (by rw [found]; rfl))
      rw [nobody] at known
      cases known
    · have known : memberID ∈ (g.members.insert memberID { member with lastHeartbeat := now }).keys :=
        AList.mem_keys.mp ((AList.mem_insert _).mpr (Or.inl rfl))
      rw [show (g.members.insert memberID { member with lastHeartbeat := now }).keys = [] from none] at known
      cases known
    · exact ⟨inside _ (h.led state).1, (h.led state).2⟩

theorem joined_drop (joined : ∀ id ∈ g.joined, id ∈ g.members) (gone : List MemberID) :
    ∀ id ∈ (g.drop gone).joined, id ∈ (g.drop gone).members := by
  intro id member
  obtain ⟨inside, present⟩ := Finset.mem_filter.mp member
  have known := joined id inside
  exact mem_remove.mpr ⟨known, fun left => present ⟨AList.mem_keys.mp known, left⟩⟩

theorem Structured.leaveGroup (h : g.Structured) (high : g.generation < 2147483647) (now : Time) (gone : List MemberID) :
    (g.leaveGroup now gone).Structured := by
  have order := h.order.drop gone
  unfold Group.leaveGroup
  dsimp only
  split
  · exact structured_emptied order (joined_drop h.joined gone) (by assumption)
  · split
    · exact structured_completeJoin order h.counted high
    · exact structured_begin order (by assumption) h.counted now

theorem Structured.reapExpired (h : g.Structured) (high : g.generation < 2147483647) (cfg : Config) (now clock : Time) :
    (g.reapExpired cfg now clock).Structured := by
  have order := h.order.drop (g.dead cfg now)
  have joined := joined_drop h.joined (g.dead cfg now)
  unfold Group.reapExpired
  dsimp only
  split
  · exact h
  · split
    · exact structured_emptied order joined (by assumption)
    · split
      · split
        · exact structured_completeJoin order h.counted high
        · exact .preparing order joined (by assumption) (by assumption) h.counted
      · exact structured_begin order (by assumption) h.counted clock

theorem Structured.expire (h : g.Structured) (high : g.generation < 2147483647) : g.expireRebalanceLocked.Structured :=
  structured_completeJoin (h.order.remove g.absent) h.counted high

theorem Structured.joinLoop (h : g.Structured) (high : g.generation < 2147483647) (now : Time) (memberID : MemberID)
    (deadline : Time) : (g.joinLoop now memberID deadline).2.Structured := by
  rcases joinLoop_group now memberID deadline with same | expired
  · rwa [same]
  · rw [expired]
    exact h.expire high

theorem Structured.joinWake (h : g.Structured) (high : g.generation < 2147483647) (now : Time) (wait : JoinWait) :
    (g.joinWake now wait).2.Structured := by
  rcases joinWake_group now wait with same | expired
  · rwa [same]
  · rw [expired]
    exact h.expire high

theorem Structured.enroll (h : g.Structured) (new : fresh = true ↔ memberID ∉ g.members) :
    (g.enroll cfg now memberID fresh req).Structured := by
  apply Structured.preparing (h.order.enroll new) _ enroll_state
  · intro none
    have member : memberID ∈ (g.enroll cfg now memberID fresh req).members.keys := by
      rw [← AList.mem_keys, enroll_members]
      exact (AList.mem_insert _).mpr (Or.inl rfl)
    rw [keys_eq_nil.mpr none] at member
    cases member
  · rw [enroll_generation]
    exact h.counted
  · intro id member
    rw [enroll_joined] at member
    rw [enroll_members, AList.mem_insert]
    rcases Finset.mem_insert.mp member with rfl | earlier
    · exact Or.inl rfl
    · split at earlier
      · exact Or.inr (h.joined id earlier)
      · cases earlier

theorem lookup_eq_none {id : MemberID} : g.members.lookup id = none ↔ id ∉ g.members := AList.lookup_eq_none

theorem requested_new {next : MemberID} (absent : next ∉ g.members) :
    decide (g.members.lookup req.memberID = none) = true ↔ g.requested next req ∉ g.members := by
  rw [decide_eq_true_eq, requested]
  split
  · exact ⟨fun _ => absent, fun _ => by assumption⟩
  · exact lookup_eq_none

theorem Structured.joinGroup (h : g.Structured) (high : g.generation < 2147483647) {next : MemberID}
    (absent : next ∉ g.members) : (g.joinGroup cfg now next req).2.Structured := by
  unfold Group.joinGroup
  split
  · exact h
  · split
    · exact h.touch req.memberID now
    · have enrolled : (g.enroll cfg now (g.requested next req) (decide (g.members.lookup req.memberID = none))
          req).Structured := h.enroll (requested_new absent)
      have below : (g.enroll cfg now (g.requested next req) (decide (g.members.lookup req.memberID = none))
          req).generation < 2147483647 := by rwa [enroll_generation]
      unfold awaitOthers
      dsimp only
      split
      · exact structured_completeJoin enrolled.order enrolled.counted below
      · exact enrolled.joinLoop below now _ _

theorem Structured.syncReturn (h : g.Structured) (memberID : MemberID) (generationID : Int) :
    (g.syncReturn memberID generationID).2.Structured := by
  unfold Group.syncReturn
  dsimp only
  split
  · rename_i completing
    refine ⟨⟨h.order.nodup, h.order.listed⟩, h.joined, ⟨fun clash => ?_, fun none => ?_⟩,
      fun _ => h.led (Or.inl completing.1), h.counted⟩
    · cases clash
    · have empty := h.vacant.mpr none
      rw [completing.1] at empty
      cases empty
  · exact h

theorem Structured.syncLoop (h : g.Structured) (now : Time) (memberID : MemberID) (generationID : Int) (deadline : Time) :
    (g.syncLoop now memberID generationID deadline).2.Structured := by
  unfold Group.syncLoop
  split
  · exact h.syncReturn memberID generationID
  · exact h

theorem Structured.syncGroup (h : g.Structured) (now : Time) (req : SyncGroupRequest) :
    (g.syncGroup now req).2.Structured := by
  have same : ∀ assignments changed, Structured { g with assignments := assignments, assignmentsChanged := changed } :=
    fun _ _ => ⟨⟨h.order.nodup, h.order.listed⟩, h.joined, h.vacant, h.led, h.counted⟩
  unfold Group.syncGroup
  split
  · exact h
  · dsimp only
    split
    · exact (same _ _).syncLoop now req.memberID req.generationID _
    · exact (same _ _).syncReturn req.memberID req.generationID

theorem Structured.heartbeat (h : g.Structured) (now : Time) (memberID : MemberID) (generationID : Int) :
    (g.heartbeat now memberID generationID).2.Structured := by
  unfold Group.heartbeat
  repeat' split
  all_goals first | exact h | exact h.touch memberID now

end Group

end PocketKafka.Coordinator
