import PocketKafka.Authz.Decisions

namespace PocketKafka.Authz

open Bytes Text

def RuleRequest.run (allow : Bool) (rules : List Rule) (request : RuleRequest) : Except Failure (List Rule) :=
  (request.prepare allow).map fun change => change.apply rules

def upsertAll (allow : Bool) : List Rule → List Rule → Except Failure (List Rule)
  | rules, [] => .ok rules
  | rules, r :: rest =>
    match (RuleRequest.upsert r).run allow rules with
    | .error failure => .error failure
    | .ok rules => upsertAll allow rules rest

def Rule.key (r : Rule) : Bytes × Option Bytes × Bytes :=
  (r.principal, (normalizeResourceType r.resourceType).toOption, (withName r).resourceName)

def Accepts (allow : Bool) (r : Rule) : Prop :=
  validateRule r = .ok () ∧ (grantsWildcardAdmin r = true → allow = true) ∧
    ∃ rt, normalizeResourceType r.resourceType = .ok rt

def Rule.Canonical (r : Rule) : Prop :=
  normalizeResourceType r.resourceType = .ok r.resourceType ∧ trimSpace r.resourceName ≠ []

def SameGrants (a b : List Rule) : Prop := ∀ principal op res, authorize a principal op res = authorize b principal op res

/-- The rules put one by one authorize what they authorize together, and each can be deleted again. -/
def EditsAgree (allow : Bool) (rules : List Rule) : Prop :=
  ∃ upserted replaced, upsertAll allow [] rules = .ok upserted ∧ (RuleRequest.replace rules).run allow [] = .ok replaced ∧
    SameGrants upserted replaced ∧
    ∀ r ∈ rules, ∃ left others,
      (RuleRequest.delete r.principal r.resourceType r.resourceName).run allow upserted = .ok left ∧
      (RuleRequest.replace (rules.erase r)).run allow [] = .ok others ∧ SameGrants left others

variable {allow : Bool} {r : Rule} {rules : List Rule}

def normalized (r : Rule) : Rule :=
  withName { r with resourceType := ((normalizeResourceType r.resourceType).toOption).getD r.resourceType }

theorem run_upsert (accepts : Accepts allow r) (rules : List Rule) :
    (RuleRequest.upsert r).run allow rules = .ok (upsertRule (withName r) rules) := by
  obtain ⟨valid, admin, _⟩ := accepts
  have permitted : wildcardAdminErr allow r = .ok () := by
    unfold wildcardAdminErr
    rw [if_pos]
    cases wild : grantsWildcardAdmin r with
    | false => rfl
    | true => rw [admin wild]; rfl
  simp only [RuleRequest.run, RuleRequest.prepare, valid, permitted]
  rfl

theorem prepareRules_ok (accepts : ∀ r ∈ rules, Accepts allow r) :
    prepareRules allow rules = .ok (rules.map normalized) := by
  induction rules with
  | nil => rfl
  | cons r rest ih =>
    obtain ⟨⟨valid, admin, rt, known⟩, later⟩ := List.forall_mem_cons.mp accepts
    have permitted : (decide (r.principal = wildcard) && !allow && containsOperation r.operations .admin) = false := by
      cases wild : grantsWildcardAdmin r with
      | false =>
        rw [grantsWildcardAdmin] at wild
        rw [Bool.and_right_comm, wild]
        rfl
      | true => rw [admin wild, Bool.not_true, Bool.and_false, Bool.false_and]
    rw [prepareRules, valid]
    dsimp only
    rw [permitted, known, ih later]
    simp [normalized, known, Except.toOption]

theorem run_replace (accepts : ∀ r ∈ rules, Accepts allow r) (before : List Rule) :
    (RuleRequest.replace rules).run allow before = .ok (rules.map normalized) := by
  simp only [RuleRequest.run, RuleRequest.prepare, prepareRules_ok accepts]
  rfl

theorem withName_operations (r : Rule) : (withName r).operations = r.operations := by
  unfold withName
  split <;> rfl

theorem withName_principal (r : Rule) : (withName r).principal = r.principal := by
  unfold withName
  split <;> rfl

theorem withName_type (r : Rule) : (withName r).resourceType = r.resourceType := by
  unfold withName
  split <;> rfl

theorem key_of_sameKey {a b : Rule} (same : sameKey (withName a) (withName b) = true) : a.key = b.key := by
  obtain ⟨principal, type, name⟩ := of_decide_eq_true same
  rw [withName_principal, withName_principal] at principal
  rw [withName_type, withName_type] at type
  rw [Rule.key, Rule.key, principal, type, name]

theorem upsertRule_append {rules : List Rule} (fresh : ∀ other ∈ rules, sameKey other r = false) :
    upsertRule r rules = rules ++ [r] := by
  induction rules with
  | nil => rfl
  | cons head rest ih =>
    obtain ⟨here, later⟩ := List.forall_mem_cons.mp fresh
    rw [upsertRule, here, ih later]
    rfl

theorem upsertAll_ok (before : List Rule) (accepts : ∀ r ∈ rules, Accepts allow r)
    (distinct : ((before ++ rules).map Rule.key).Nodup) :
    upsertAll allow (before.map withName) rules = .ok ((before ++ rules).map withName) := by
  induction rules generalizing before with
  | nil => rw [upsertAll, List.append_nil]
  | cons r rest ih =>
    obtain ⟨here, later⟩ := List.forall_mem_cons.mp accepts
    have fresh : ∀ other ∈ before.map withName, sameKey other (withName r) = false := by
      intro other member
      obtain ⟨a, inside, rfl⟩ := List.mem_map.mp member
      rw [Bool.eq_false_iff]
      intro same
      rw [List.map_append, List.map_cons] at distinct
      apply (List.nodup_cons.mp (List.nodup_middle.mp distinct)).1
      rw [← key_of_sameKey same]
      exact List.mem_append_left _ (List.mem_map_of_mem inside)
    have next := ih (before ++ [r]) later (by rwa [List.append_assoc, List.singleton_append])
    rw [List.map_append, List.append_assoc, List.singleton_append] at next
    rw [upsertAll, run_upsert here, upsertRule_append fresh]
    exact next

theorem run_delete (allow : Bool) {rt : Bytes} (known : normalizeResourceType r.resourceType = .ok rt) (rules : List Rule) :
    (RuleRequest.delete r.principal r.resourceType r.resourceName).run allow rules =
      .ok (rules.filter fun other => decide (¬ (other.principal = r.principal ∧ other.resourceType = rt ∧
        other.resourceName = r.resourceName))) := by
  simp only [RuleRequest.run, RuleRequest.prepare, known]
  rfl

theorem Rule.Canonical.withName (canonical : r.Canonical) : withName r = r := if_neg canonical.2

theorem Rule.Canonical.normalized (canonical : r.Canonical) : normalized r = r := by
  rw [Authz.normalized, canonical.1]
  exact canonical.withName

theorem map_canonical {f : Rule → Rule} (fixed : ∀ r : Rule, r.Canonical → f r = r) (canonical : ∀ r ∈ rules, r.Canonical) :
    rules.map f = rules := by
  rw [List.map_congr_left fun r member => fixed r (canonical r member)]
  exact List.map_id' rules

theorem filter_key_eq_erase (distinct : (rules.map Rule.key).Nodup) (member : r ∈ rules) :
    rules.filter (fun other => decide (¬ (other.principal = r.principal ∧ other.resourceType = r.resourceType ∧
      other.resourceName = r.resourceName))) = rules.erase r := by
  rw [distinct.of_map.erase_eq_filter]
  apply List.filter_congr
  intro other inside
  have unique : other.principal = r.principal ∧ other.resourceType = r.resourceType ∧ other.resourceName = r.resourceName ↔
      other = r := by
    constructor
    · rintro ⟨principal, type, name⟩
      apply List.inj_on_of_nodup_map distinct inside member
      simp only [Rule.key, withName, principal, type, name]
      split <;> simp [name]
    · rintro rfl
      exact ⟨rfl, rfl, rfl⟩
  simp only [unique, bne, decide_not, beq_eq_decide]

theorem editsAgree_of_canonical (accepts : ∀ r ∈ rules, Accepts allow r) (distinct : (rules.map Rule.key).Nodup)
    (canonical : ∀ r ∈ rules, r.Canonical) : EditsAgree allow rules := by
  have upserted := upsertAll_ok [] accepts distinct
  rw [List.map_nil, List.nil_append, map_canonical (fun _ h => h.withName) canonical] at upserted
  have replaced := run_replace accepts []
  rw [map_canonical (fun _ h => h.normalized) canonical] at replaced
  refine ⟨rules, rules, upserted, replaced, fun _ _ _ => rfl, ?_⟩
  intro r member
  have left := run_delete allow (canonical r member).1 rules
  rw [filter_key_eq_erase distinct member] at left
  have fewer : ∀ other ∈ rules.erase r, other ∈ rules := fun other => List.mem_of_mem_erase
  have others := run_replace (fun other inside => accepts other (fewer other inside)) []
  rw [map_canonical (fun _ h => h.normalized) fun other inside => canonical other (fewer other inside)] at others
  exact ⟨_, _, left, others, fun _ _ _ => rfl⟩

def Rule.granting (r : Rule) (operations : List Bytes) : Rule := { r with operations }

def readsOnly (r other : Rule) : List Bytes := if other = r then [ascii "Read"] else []

theorem key_granting (r : Rule) (operations : List Bytes) : (r.granting operations).key = r.key := by
  rw [Rule.key, Rule.key, Rule.granting, withName, withName]
  split <;> rfl

theorem accepts_readsOnly {target : Rule} (accepts : Accepts allow r) : Accepts allow (r.granting (readsOnly target r)) := by
  obtain ⟨valid, admin, known⟩ := accepts
  have harmless : grantsWildcardAdmin (r.granting (readsOnly target r)) = false := by
    rw [grantsWildcardAdmin, Rule.granting, readsOnly]
    by_cases here : r = target
    · have reading : containsOperation [ascii "Read"] .admin = false := by decide +kernel
      rw [if_pos here, Bool.and_eq_false_iff]
      exact .inr reading
    · rw [if_neg here, Bool.and_eq_false_iff]
      exact .inr rfl
  refine ⟨?_, fun admin => absurd admin (by rw [harmless]; decide), known⟩
  have operations : (readsOnly target r).find? (fun op => !knownOperationsSet (trimSpace op)) = none := by
    unfold readsOnly
    split
    · decide +kernel
    · rfl
  simp only [validateRule] at valid ⊢
  split at valid
  · cases valid
  rename_i principal
  split at valid
  · cases valid
  rename_i type
  rw [Rule.granting, if_neg principal, if_neg type, operations]

theorem principal_of_accepts (accepts : Accepts allow r) : r.principal ≠ [] := by
  intro blank
  have valid := accepts.1
  rw [validateRule, blank] at valid
  cases valid

theorem authorize_of_grants (member : r ∈ rules) (named : r.principal ≠ []) {op : Operation} (grants : r.Grants op) :
    authorize rules r.principal op ⟨r.resourceType, r.resourceName⟩ = true := by
  rw [authorize, Bool.and_eq_true, decide_eq_true_eq, authorizeLoop_iff]
  exact ⟨named, .inl ⟨r, member, ⟨.inl rfl, .inl rfl, .inl rfl⟩, ⟨rfl, rfl⟩, grants⟩⟩

theorem not_grants_nil (nothing : r.operations = []) (op : Operation) : ¬ r.Grants op := by
  rw [Rule.Grants, nothing]
  rintro (inside | ⟨_, inside, _⟩) <;> cases inside

theorem authorize_of_nothing (nothing : ∀ r ∈ rules, r.operations = []) (principal : Bytes) (op : Operation)
    (res : Resource) :
    authorize rules principal op res = false := by
  rw [Bool.eq_false_iff, ne_eq, authorize, Bool.and_eq_true, authorizeLoop_iff]
  rintro ⟨_, ⟨r, member, _, _, grants⟩ | ⟨_, _, none | ⟨r, member, _, _, grants⟩⟩⟩
  · exact not_grants_nil (nothing r member) op grants
  · cases none
  · exact not_grants_nil (nothing r member) op grants

theorem not_found_of_not_canonical {rt : Bytes} (known : normalizeResourceType r.resourceType = .ok rt)
    (other : ¬ r.Canonical) :
    ¬ ((withName r).principal = r.principal ∧ (withName r).resourceType = rt ∧
      (withName r).resourceName = r.resourceName) := by
  rintro ⟨_, type, name⟩
  rw [withName_type] at type
  apply other
  refine ⟨by rw [known, type], ?_⟩
  intro blank
  rw [withName, if_pos blank] at name
  have visible : trimSpace wildcard ≠ [] := by decide +kernel
  rw [← name] at blank
  exact visible blank

theorem not_editsAgree_of_not_canonical (accepts : ∀ r ∈ rules, Accepts allow r) (distinct : (rules.map Rule.key).Nodup)
    (member : r ∈ rules) (other : ¬ r.Canonical) :
    ¬ EditsAgree allow (rules.map fun a => a.granting (readsOnly r a)) := by
  rintro ⟨upserted, _, upserts, _, _, deletes⟩
  have accepted : ∀ a ∈ rules.map (fun a => a.granting (readsOnly r a)), Accepts allow a := by
    intro a inside
    obtain ⟨b, source, rfl⟩ := List.mem_map.mp inside
    exact accepts_readsOnly (accepts b source)
  have keys : (rules.map fun a => a.granting (readsOnly r a)).map Rule.key = rules.map Rule.key := by
    rw [List.map_map]
    exact List.map_congr_left fun a _ => key_granting a _
  rw [← keys] at distinct
  have inside : r.granting (readsOnly r r) ∈ rules.map fun a => a.granting (readsOnly r a) := List.mem_map_of_mem member
  obtain ⟨left, others, deleted, replaced, same⟩ := deletes _ inside
  -- The rule is still there after it was deleted, and grants reading.
  have stored := upsertAll_ok [] accepted distinct
  rw [List.map_nil, List.nil_append, upserts] at stored
  obtain ⟨_, _, rt, known⟩ := accepted _ inside
  rw [run_delete _ known] at deleted
  have remains : withName (r.granting (readsOnly r r)) ∈ left := by
    rw [← Except.ok.inj deleted, List.mem_filter, Except.ok.inj stored, decide_eq_true_eq]
    exact ⟨List.mem_map_of_mem inside, not_found_of_not_canonical known other⟩
  have reads : (withName (r.granting (readsOnly r r))).Grants .read := by
    rw [Rule.Grants, withName_operations, Rule.granting, readsOnly, if_pos rfl]
    exact .inr ⟨ascii "Read", List.mem_cons_self, .inl (by decide)⟩
  have named : (withName (r.granting (readsOnly r r))).principal ≠ [] := by
    rw [withName_principal]
    exact principal_of_accepts (accepted _ inside)
  have granted := authorize_of_grants remains named reads
  -- The other rules grant nothing.
  rw [run_replace fun a inside => accepted a (List.mem_of_mem_erase inside)] at replaced
  have nothing : ∀ a ∈ others, a.operations = [] := by
    intro a member
    rw [← Except.ok.inj replaced] at member
    obtain ⟨b, rest, rfl⟩ := List.mem_map.mp member
    obtain ⟨different, kept⟩ := distinct.of_map.mem_erase_iff.mp rest
    obtain ⟨c, _, rfl⟩ := List.mem_map.mp kept
    have apart : c ≠ r := fun same => different (by rw [same])
    rw [normalized, withName_operations, Rule.granting, readsOnly, if_neg apart]
  rw [same, authorize_of_nothing nothing] at granted
  cases granted

/-- For rules with different keys that both calls accept, putting them one by one, replacing them together and deleting
    them agree whatever they grant, exactly if each is given with the type as it is looked up and a name. -/
theorem edits_agree_iff (allow : Bool) (rules : List Rule) (accepts : ∀ r ∈ rules, Accepts allow r)
    (distinct : (rules.map Rule.key).Nodup) :
    (∀ operations : Rule → List Bytes, (∀ r ∈ rules, Accepts allow (r.granting (operations r))) →
      EditsAgree allow (rules.map fun r => r.granting (operations r))) ↔ ∀ r ∈ rules, r.Canonical := by
  constructor
  · intro agree r member
    by_contra other
    apply not_editsAgree_of_not_canonical accepts distinct member other
    exact agree (readsOnly r) fun a inside => accepts_readsOnly (accepts a inside)
  · intro canonical operations accepted
    apply editsAgree_of_canonical
    · intro r member
      obtain ⟨a, inside, rfl⟩ := List.mem_map.mp member
      exact accepted a inside
    · rw [List.map_map]
      exact (List.map_congr_left fun a _ => key_granting a (operations a)) ▸ distinct
    · intro r member
      obtain ⟨a, inside, rfl⟩ := List.mem_map.mp member
      exact canonical a inside

instance (allow : Bool) (r : Rule) : Decidable (Accepts allow r) :=
  have : Decidable (∃ rt, normalizeResourceType r.resourceType = .ok rt) :=
    match normalizeResourceType r.resourceType with
    | .ok rt => isTrue ⟨rt, rfl⟩
    | .error _ => isFalse nofun
  inferInstanceAs (Decidable (_ ∧ _ ∧ _))

theorem edits_agree_iff_ann :
    (∀ r ∈ [annReads], Accepts false r) ∧ ([annReads].map Rule.key).Nodup ∧
    ((∀ operations : Rule → List Bytes, (∀ r ∈ [annReads], Accepts false (r.granting (operations r))) →
      EditsAgree false ([annReads].map fun r => r.granting (operations r))) ↔ ∀ r ∈ [annReads], r.Canonical) := by
  have accepts : ∀ r ∈ [annReads], Accepts false r := by decide +kernel
  have distinct : ([annReads].map Rule.key).Nodup := List.nodup_singleton _
  exact ⟨accepts, distinct, edits_agree_iff false [annReads] accepts distinct⟩

def annReadsTopic : Rule := ⟨ascii "ann", ascii "Topic", ascii "t", [ascii "Read"]⟩

/-- Put, the rule grants nothing on the topic, although replacing it does, and deleting it leaves it in place. -/
theorem typed_rule_disagrees :
    Accepts false annReadsTopic ∧
    upsertAll false [] [annReadsTopic] = .ok [annReadsTopic] ∧
    (RuleRequest.replace [annReadsTopic]).run false [] = .ok [annReads] ∧
    authorize [annReadsTopic] (ascii "ann") .read ⟨resourceTopic, ascii "t"⟩ = false ∧
    authorize [annReads] (ascii "ann") .read ⟨resourceTopic, ascii "t"⟩ = true ∧
    (RuleRequest.delete (ascii "ann") (ascii "Topic") (ascii "t")).run false [annReadsTopic] = .ok [annReadsTopic] ∧
    ¬ EditsAgree false [annReadsTopic] := by
  have accepts : Accepts false annReadsTopic := by decide +kernel
  have upserts : upsertAll false [] [annReadsTopic] = .ok [annReadsTopic] := by decide +kernel
  have replaces : (RuleRequest.replace [annReadsTopic]).run false [] = .ok [annReads] := by decide +kernel
  have denied : authorize [annReadsTopic] (ascii "ann") .read ⟨resourceTopic, ascii "t"⟩ = false := by decide +kernel
  have granted : authorize [annReads] (ascii "ann") .read ⟨resourceTopic, ascii "t"⟩ = true := by decide +kernel
  refine ⟨accepts, upserts, replaces, denied, granted, by decide +kernel, ?_⟩
  rintro ⟨upserted, replaced, put, together, same, _⟩
  rw [upserts] at put
  rw [replaces] at together
  have equal := same (ascii "ann") .read ⟨resourceTopic, ascii "t"⟩
  rw [← Except.ok.inj put, ← Except.ok.inj together, denied, granted] at equal
  cases equal

end PocketKafka.Authz
