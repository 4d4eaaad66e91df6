import PocketKafka.Authz.Rules

namespace PocketKafka.Authz

open Bytes Text

/-- A text among the operations of a rule grants an operation: by its name, or because it includes it. -/
def TextGrants (text : Bytes) (op : Operation) : Prop :=
  equalFold text op.name = true ∨ ∃ granted : Operation, toLower text = toLower granted.name ∧ op ∈ granted.implied

def Rule.Grants (r : Rule) (op : Operation) : Prop := wildcard ∈ r.operations ∨ ∃ text ∈ r.operations, TextGrants text op

def Rule.AppliesTo (r : Rule) (principal : Bytes) (res : Resource) : Prop :=
  (r.principal = principal ∨ r.principal = wildcard) ∧ (r.resourceType = res.type ∨ r.resourceType = wildcard) ∧
    (r.resourceName = res.name ∨ r.resourceName = wildcard)

def Rule.NamesExactly (r : Rule) (res : Resource) : Prop := r.resourceType = res.type ∧ r.resourceName = res.name

instance (r : Rule) (res : Resource) : Decidable (r.NamesExactly res) := inferInstanceAs (Decidable (_ ∧ _))

instance (r : Rule) (principal : Bytes) (res : Resource) : Decidable (r.AppliesTo principal res) :=
  inferInstanceAs (Decidable (_ ∧ _ ∧ _))

theorem toLower_eq_foldCase {s : Bytes} (lower : ∀ c ∈ toLower s, c < 128) (fold : ∀ c ∈ foldCase s, c < 128) :
    toLower s = foldCase s := by
  fun_induction toLower s with
  | case1 rest ih =>
    have first : 196 ∈ foldCase (196 :: 176 :: rest) := List.mem_cons_self
    exact absurd (fold 196 first) (by decide)
  | case2 rest ih =>
    rw [foldCase] at fold ⊢
    rw [ih (List.forall_mem_cons.mp lower).2 (List.forall_mem_cons.mp fold).2]
  | case3 c rest _ noKelvin ih =>
    have small := (List.forall_mem_cons.mp lower).1
    have noLongS : ∀ more, c = 197 → rest = 191 :: more → False := by
      rintro _ rfl _
      exact absurd small (by decide)
    rw [foldCase.eq_3 c rest noLongS noKelvin] at fold ⊢
    rw [ih (List.forall_mem_cons.mp lower).2 (List.forall_mem_cons.mp fold).2]
  | case4 => rfl

theorem lower_name (op : Operation) : ∃ l : Bytes, toLower op.name = l ∧ foldCase op.name = l ∧ ∀ c ∈ l, c < 128 := by
  cases op
  · exact ⟨[100, 101, 115, 99, 114, 105, 98, 101], by decide, by decide, by simp⟩
  · exact ⟨[114, 101, 97, 100], by decide, by decide, by simp⟩
  · exact ⟨[119, 114, 105, 116, 101], by decide, by decide, by simp⟩
  · exact ⟨[97, 100, 109, 105, 110], by decide, by decide, by simp⟩
  · exact ⟨[99, 111, 110, 116, 114, 111, 108], by decide, by decide, by simp⟩

theorem foldCase_name_injective : ∀ op granted : Operation, foldCase op.name = toLower granted.name → op = granted := by
  intro op granted
  cases op <;> cases granted <;> decide

theorem equalFold_name_iff (op granted : Operation) : equalFold granted.name op.name = true ↔ granted = op := by
  cases op <;> cases granted <;> decide

theorem read_as {text : Bytes} {op granted : Operation} (same : equalFold text op.name = true)
    (known : toLower text = toLower granted.name) : granted = op := by
  have fold : foldCase text = foldCase op.name := of_decide_eq_true same
  have lower : ∀ c ∈ toLower text, c < 128 := by
    obtain ⟨l, same, _, small⟩ := lower_name granted
    rw [known, same]
    exact small
  have ascii : ∀ c ∈ foldCase text, c < 128 := by
    obtain ⟨l, _, same, small⟩ := lower_name op
    rw [fold, same]
    exact small
  refine (foldCase_name_injective op granted ?_).symm
  rw [← fold, ← toLower_eq_foldCase lower ascii, known]

theorem toLower_name_injective : ∀ op granted : Operation, toLower op.name = toLower granted.name → op = granted := by
  intro op granted
  cases op <;> cases granted <;> decide

theorem impliedOperations_known {text : Bytes} {granted : Operation} (known : toLower text = toLower granted.name) :
    impliedOperations text = granted.implied.map Operation.name := by
  have found : knownOperations.find? (fun op => decide (toLower text = toLower op.name)) = some granted := by
    rw [known]
    cases granted <;> decide
  rw [impliedOperations, found]

theorem textGrants_iff (text : Bytes) (op : Operation) :
    (impliedOperations text).any (fun granted => equalFold granted op.name) = true ↔ TextGrants text op := by
  by_cases known : ∃ granted : Operation, toLower text = toLower granted.name
  · obtain ⟨granted, known⟩ := known
    have included : (granted.implied.map Operation.name).any (fun granted => equalFold granted op.name) = true ↔
        op ∈ granted.implied := by
      rw [List.any_map, List.any_eq_true]
      constructor
      · rintro ⟨other, member, same⟩
        rw [← (equalFold_name_iff op other).mp same]
        exact member
      · exact fun member => ⟨op, member, (equalFold_name_iff op op).mpr rfl⟩
    rw [impliedOperations_known known, included]
    constructor
    · exact fun member => .inr ⟨granted, known, member⟩
    · rintro (same | ⟨other, read, member⟩)
      · rw [read_as same known]
        cases op <;> decide
      · rw [toLower_name_injective granted other (known.symm.trans read)]
        exact member
  · have unknown : knownOperations.find? (fun op => decide (toLower text = toLower op.name)) = none := by
      rw [List.find?_eq_none]
      intro granted _ same
      exact known ⟨granted, of_decide_eq_true same⟩
    rw [impliedOperations, unknown]
    simp only [List.any_cons, List.any_nil, Bool.or_false]
    constructor
    · exact .inl
    · rintro (same | ⟨granted, read, _⟩)
      · exact same
      · exact absurd ⟨granted, read⟩ known

theorem containsOperation_iff (r : Rule) (op : Operation) : containsOperation r.operations op = true ↔ r.Grants op := by
  rw [containsOperation, List.any_eq_true, Rule.Grants]
  simp only [Bool.or_eq_true, decide_eq_true_eq, textGrants_iff]
  constructor
  · rintro ⟨text, member, rfl | grants⟩
    · exact .inl member
    · exact .inr ⟨text, member, grants⟩
  · rintro (member | ⟨text, member, grants⟩)
    · exact ⟨wildcard, member, .inl rfl⟩
    · exact ⟨text, member, .inr grants⟩

section Loop

variable {principal : Bytes} {op : Operation} {res : Resource} {r : Rule} {rest : List Rule}
    {exactExists wildcardGrant : Bool}

def GrantedExactly (principal : Bytes) (op : Operation) (res : Resource) (rules : List Rule) : Prop :=
  ∃ r ∈ rules, r.AppliesTo principal res ∧ r.NamesExactly res ∧ r.Grants op

def Unnamed (principal : Bytes) (res : Resource) (rules : List Rule) : Prop :=
  ∀ r ∈ rules, r.AppliesTo principal res → ¬ r.NamesExactly res

def GrantedWidely (principal : Bytes) (op : Operation) (res : Resource) (rules : List Rule) : Prop :=
  ∃ r ∈ rules, r.AppliesTo principal res ∧ ¬ r.NamesExactly res ∧ r.Grants op

theorem appliesTo_iff : r.AppliesTo principal res ↔ principalMatches r.principal principal = true ∧
    ¬ (r.resourceType ≠ res.type ∧ r.resourceType ≠ wildcard) ∧
      ¬ (r.resourceName ≠ res.name ∧ r.resourceName ≠ wildcard) := by
  rw [Rule.AppliesTo, principalMatches]
  simp only [Bool.or_eq_true, decide_eq_true_eq, not_and_or, not_not, ne_eq]

theorem authorizeLoop_skip (other : ¬ r.AppliesTo principal res) :
    authorizeLoop principal op res (r :: rest) exactExists wildcardGrant =
      authorizeLoop principal op res rest exactExists wildcardGrant := by
  rw [authorizeLoop]
  split
  · rfl
  rename_i principals
  split
  · rfl
  rename_i types
  split
  · rfl
  rename_i names
  have matched : principalMatches r.principal principal = true := by simpa using principals
  exact absurd (appliesTo_iff.mpr ⟨matched, types, names⟩) other

theorem authorizeLoop_apply (applies : r.AppliesTo principal res) :
    authorizeLoop principal op res (r :: rest) exactExists wildcardGrant =
      if r.NamesExactly res then containsOperation r.operations op || authorizeLoop principal op res rest true wildcardGrant
      else authorizeLoop principal op res rest exactExists (wildcardGrant || containsOperation r.operations op) := by
  obtain ⟨principals, types, names⟩ := appliesTo_iff.mp applies
  rw [authorizeLoop, principals, if_neg types, if_neg names]
  rfl

theorem grantedExactly_cons : GrantedExactly principal op res (r :: rest) ↔
    r.AppliesTo principal res ∧ r.NamesExactly res ∧ r.Grants op ∨ GrantedExactly principal op res rest :=
  List.exists_mem_cons_iff _ _ _

theorem grantedWidely_cons : GrantedWidely principal op res (r :: rest) ↔
    r.AppliesTo principal res ∧ ¬ r.NamesExactly res ∧ r.Grants op ∨ GrantedWidely principal op res rest :=
  List.exists_mem_cons_iff _ _ _

theorem unnamed_cons : Unnamed principal res (r :: rest) ↔
    (r.AppliesTo principal res → ¬ r.NamesExactly res) ∧ Unnamed principal res rest := List.forall_mem_cons

theorem authorizeLoop_iff (rules : List Rule) :
    authorizeLoop principal op res rules exactExists wildcardGrant = true ↔
      GrantedExactly principal op res rules ∨
        exactExists = false ∧ Unnamed principal res rules ∧
          (wildcardGrant = true ∨ GrantedWidely principal op res rules) := by
  induction rules generalizing exactExists wildcardGrant with
  | nil => simp [authorizeLoop, GrantedExactly, GrantedWidely, Unnamed]
  | cons r rest ih =>
    rw [grantedExactly_cons, grantedWidely_cons, unnamed_cons]
    by_cases applies : r.AppliesTo principal res
    · rw [authorizeLoop_apply applies]
      by_cases names : r.NamesExactly res
      · rw [if_pos names, Bool.or_eq_true, containsOperation_iff, ih]
        simp only [applies, names]
        tauto
      · rw [if_neg names, ih, Bool.or_eq_true, containsOperation_iff]
        simp only [applies, names]
        tauto
    · rw [authorizeLoop_skip applies, ih]
      simp only [applies]
      tauto

end Loop

/-- A principal may do something if a rule about this very resource grants it or, where there is no such rule, if any
    rule that applies does. Which rules there are decides, not how they are listed. -/
theorem authorize_iff (rules : List Rule) (principal : Bytes) (op : Operation) (res : Resource) :
    (authorize rules principal op res = true ↔
      principal ≠ [] ∧
        ((∃ r ∈ rules, r.AppliesTo principal res ∧ r.NamesExactly res ∧ r.Grants op) ∨
          (∀ r ∈ rules, r.AppliesTo principal res → ¬ r.NamesExactly res) ∧
            ∃ r ∈ rules, r.AppliesTo principal res ∧ ¬ r.NamesExactly res ∧ r.Grants op)) ∧
    ∀ others : List Rule, (∀ r, r ∈ others ↔ r ∈ rules) →
      authorize others principal op res = authorize rules principal op res := by
  have decision : ∀ rules, authorize rules principal op res = true ↔ principal ≠ [] ∧
      (GrantedExactly principal op res rules ∨ Unnamed principal res rules ∧ GrantedWidely principal op res rules) := by
    intro rules
    rw [authorize, Bool.and_eq_true, authorizeLoop_iff, decide_eq_true_eq]
    simp only [true_and, Bool.false_eq_true, false_or]
  refine ⟨decision rules, ?_⟩
  intro others same
  rw [Bool.eq_iff_iff, decision, decision]
  simp only [GrantedExactly, GrantedWidely, Unnamed, same]

def annReads : Rule := ⟨ascii "ann", resourceTopic, ascii "t", [ascii "Read"]⟩

def allOnTopics : Rule := ⟨wildcard, resourceTopic, wildcard, [wildcard]⟩

theorem authorize_iff_reordered :
    (∀ r, r ∈ [annReads, allOnTopics] ↔ r ∈ [allOnTopics, annReads]) ∧
    authorize [annReads, allOnTopics] (ascii "ann") .write ⟨resourceTopic, ascii "t"⟩ =
      authorize [allOnTopics, annReads] (ascii "ann") .write ⟨resourceTopic, ascii "t"⟩ := by
  have same : ∀ r, r ∈ [annReads, allOnTopics] ↔ r ∈ [allOnTopics, annReads] := fun r => (List.Perm.swap _ _ _).mem_iff
  exact ⟨same, (authorize_iff _ _ _ _).2 _ same⟩

end PocketKafka.Authz
