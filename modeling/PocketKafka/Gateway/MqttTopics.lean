import PocketKafka.Lib.Split

namespace PocketKafka.Gateway

open Bytes Text

def mqttTopicToKafka (mqttTopic : Bytes) : Bytes :=
  match splitN 47 2 (trimPrefix mqttTopic (ascii "/")) with
  | first :: _ => if first ≠ [] then ascii "mqtt-" ++ first else ascii "mqtt-inbound"
  | [] => ascii "mqtt-inbound"

def topicKey (mqttTopic : Bytes) : Bytes :=
  match split 47 (trimPrefix mqttTopic (ascii "/")) with
  | _ :: second :: _ => second
  | _ => []

def mqttFilterToKafka (filter : Bytes) : Bytes :=
  mqttTopicToKafka (trimSuffix (trimSuffix filter (ascii "/#")) (ascii "/+"))

def kafkaTopicToMQTT (kafkaTopic : Bytes) : Bytes := kafkaTopic.map fun c => if c = 45 then 47 else c

/-- The levels of a filter against those of a topic, from the first to the last. -/
def matchLevels : List Bytes → List Bytes → Bool
  | [], topic => topic.isEmpty
  | level :: filter, topic =>
    if level = ascii "#" then filter.isEmpty
    else
      match topic with
      | [] => false
      | name :: topic => if level = ascii "+" ∨ level = name then matchLevels filter topic else false

def mqttTopicMatches (filter topic : Bytes) : Bool := matchLevels (split 47 filter) (split 47 topic)

structure ValidTopic (topic : Bytes) : Prop where
  nonempty : topic ≠ []
  hash : 35 ∉ topic
  plus : 43 ∉ topic

structure ValidFilter (filter : Bytes) : Prop where
  nonempty : filter ≠ []
  hash : ∀ level ∈ split 47 filter, 35 ∈ level → level = ascii "#"
  plus : ∀ level ∈ split 47 filter, 43 ∈ level → level = ascii "+"
  last : ascii "#" ∉ (split 47 filter).dropLast

def kafkaName (level : Bytes) : Bytes := if level ≠ [] then ascii "mqtt-" ++ level else ascii "mqtt-inbound"

def routingLevel : List Bytes → Bytes
  | [] :: second :: _ => second
  | first :: _ => first
  | [] => []

theorem mqttTopicToKafka_eq (topic : Bytes) : mqttTopicToKafka topic = kafkaName (routingLevel (split 47 topic)) := by
  have first := firstLevel_eq 47 topic
  have head := splitN_two_head 47 (trimPrefix topic (ascii "/"))
  rw [firstLevel, show ([47] : Bytes) = ascii "/" from rfl, ← head] at first
  rw [mqttTopicToKafka]
  have route : routingLevel (split 47 topic) = (splitN 47 2 (trimPrefix topic (ascii "/"))).headD [] := by
    rw [first]
    rfl
  rw [route]
  cases splitN 47 2 (trimPrefix topic (ascii "/")) <;> rfl

theorem mqttFilterToKafka_eq (filter : Bytes) :
    mqttFilterToKafka filter =
      kafkaName (routingLevel (dropLevel (ascii "+") (dropLevel (ascii "#") (split 47 filter)))) := by
  have hash : (47 : UInt8) ∉ ascii "#" := by decide
  have plus : (47 : UInt8) ∉ ascii "+" := by decide
  rw [mqttFilterToKafka, mqttTopicToKafka_eq, show ascii "/#" = 47 :: ascii "#" from rfl,
    show ascii "/+" = 47 :: ascii "+" from rfl, split_trimSuffix plus, split_trimSuffix hash]

theorem kafkaName_eq_iff (a b : Bytes) :
    kafkaName a = kafkaName b ↔ a = b ∨ a ∈ [[], ascii "inbound"] ∧ b ∈ [[], ascii "inbound"] := by
  have inbound : ascii "mqtt-inbound" = ascii "mqtt-" ++ ascii "inbound" := by decide
  unfold kafkaName
  rw [inbound]
  by_cases first : a = [] <;> by_cases second : b = []
  · simp [first, second]
  · simp [first, second, eq_comm]
  · simp [first, second]
  · simp only [first, second, ne_eq, not_false_eq_true, ↓reduceIte, List.append_cancel_left_eq, List.mem_cons,
      List.not_mem_nil, or_false, false_or]
    constructor
    · exact Or.inl
    · rintro (same | ⟨left, right⟩)
      · exact same
      · rw [left, right]

def mqttFirstLevel (s : Bytes) : Bytes := firstLevel 47 s

theorem mqttFirstLevel_eq (s : Bytes) : mqttFirstLevel s = routingLevel (split 47 s) := firstLevel_eq 47 s

/-- The filter names its first level, or it is one of the three that are read as an empty topic, and
    so is the topic. -/
def Routed (filter topic : Bytes) : Prop :=
  (mqttFirstLevel filter ≠ ascii "#" ∧ mqttFirstLevel filter ≠ ascii "+") ∨
    filter ∈ [ascii "/#", ascii "/+", ascii "/+/#"] ∧ mqttFirstLevel topic ∈ [[], ascii "inbound"]

theorem matchLevels_cons {level : Bytes} {filter topic : List Bytes} (covers : matchLevels (level :: filter) topic = true)
    (plain : level ≠ ascii "#") :
    ∃ name rest, topic = name :: rest ∧ (level = ascii "+" ∨ level = name) ∧ matchLevels filter rest = true := by
  cases topic with
  | nil => simp [matchLevels, plain] at covers
  | cons name rest =>
    rw [matchLevels, if_neg plain] at covers
    split at covers
    · rename_i same
      exact ⟨name, rest, rfl, same, covers⟩
    · cases covers

theorem routingLevel_mem {levels : List Bytes} (nonempty : levels ≠ []) : routingLevel levels ∈ levels := by
  unfold routingLevel
  split
  · simp
  · simp
  · exact absurd rfl nonempty

theorem kafkaName_ne_wildcard {topic : Bytes} (valid : ValidTopic topic) {wild : Bytes}
    (known : wild = ascii "#" ∨ wild = ascii "+") :
    kafkaName wild ≠ kafkaName (routingLevel (split 47 topic)) := by
  have member := routingLevel_mem (split_ne_nil 47 topic)
  have inside (c : UInt8) (absent : c ∉ topic) : routingLevel (split 47 topic) ≠ [c] := by
    intro same
    rw [same] at member
    exact absent (mem_of_mem_split member List.mem_cons_self).1
  rw [Ne, kafkaName_eq_iff]
  rcases known with rfl | rfl
  · rintro (same | ⟨empty, _⟩)
    · exact inside 35 valid.hash same.symm
    · revert empty
      decide
  · rintro (same | ⟨empty, _⟩)
    · exact inside 43 valid.plus same.symm
    · revert empty
      decide

theorem trimmed_slash (levels : List Bytes) :
    dropLevel (ascii "+") (dropLevel (ascii "#") ([] :: levels)) =
      [] :: dropEnd (ascii "+") (dropEnd (ascii "#") levels) := by
  rw [dropLevel_cons, dropLevel_cons]

theorem routingLevel_plus (rest : List Bytes) :
    routingLevel ([] :: dropEnd (ascii "+") (dropEnd (ascii "#") (ascii "+" :: rest))) =
      if rest = [] ∨ rest = [ascii "#"] then [] else ascii "+" := by
  have other : ascii "+" ≠ ascii "#" := by decide
  rw [dropEnd_cons other]
  cases left : dropEnd (ascii "#") rest with
  | nil =>
    have short : rest = [] ∨ rest = [ascii "#"] := by
      unfold dropEnd at left
      split at left
      · rename_i last
        obtain ⟨front, rfl⟩ := List.getLast?_eq_some_iff.mp last
        rw [List.dropLast_concat] at left
        right
        rw [left]
        rfl
      · exact Or.inl left
    rw [if_pos short]
    decide
  | cons next more =>
    have long : ¬ (rest = [] ∨ rest = [ascii "#"]) := by
      rintro (rfl | rfl)
      · simp [dropEnd] at left
      · simp [dropEnd] at left
    rw [if_neg long, dropEnd_cons_cons]
    rfl

def emptyFilters : List (List Bytes) := [[[], ascii "#"], [[], ascii "+"], [[], ascii "+", ascii "#"]]

theorem routing_levels {filter topic : List Bytes} (someFilter : filter ≠ [] ∧ filter ≠ [[]])
    (someTopic : topic ≠ [] ∧ topic ≠ [[]])
    (wildcard : ∀ wild, wild = ascii "#" ∨ wild = ascii "+" → kafkaName wild ≠ kafkaName (routingLevel topic))
    (covers : matchLevels filter topic = true) :
    kafkaName (routingLevel (dropLevel (ascii "+") (dropLevel (ascii "#") filter))) = kafkaName (routingLevel topic) ↔
      (routingLevel filter ≠ ascii "#" ∧ routingLevel filter ≠ ascii "+") ∨
        filter ∈ emptyFilters ∧ routingLevel topic ∈ [[], ascii "inbound"] := by
  obtain ⟨level, rest, rfl⟩ := List.exists_cons_of_ne_nil someFilter.1
  by_cases slash : level = []
  · -- The filter starts with a slash, and so does the topic.
    subst slash
    obtain ⟨name, names, rfl, same, tail⟩ := matchLevels_cons covers (by decide)
    obtain rfl : name = [] := (same.resolve_left (by decide)).symm
    have someRest : rest ≠ [] := fun none => someFilter.2 (by rw [none])
    have someNames : names ≠ [] := fun none => someTopic.2 (by rw [none])
    obtain ⟨next, more, rfl⟩ := List.exists_cons_of_ne_nil someRest
    obtain ⟨second, others, rfl⟩ := List.exists_cons_of_ne_nil someNames
    have route : routingLevel ([] :: second :: others) = second := rfl
    have own : routingLevel ([] :: next :: more) = next := rfl
    have empty : kafkaName [] = kafkaName second ↔ second ∈ [[], ascii "inbound"] := by
      rw [kafkaName_eq_iff]
      simp [eq_comm]
    rw [route] at wildcard ⊢
    rw [own, trimmed_slash]
    by_cases hash : next = ascii "#"
    · subst hash
      obtain rfl : more = [] := by simpa [matchLevels] using tail
      have left : routingLevel ([] :: dropEnd (ascii "+") (dropEnd (ascii "#") [ascii "#"])) = [] := by decide
      rw [left, empty]
      simp [emptyFilters]
    · by_cases plus : next = ascii "+"
      · subst plus
        rw [routingLevel_plus]
        by_cases short : more = [] ∨ more = [ascii "#"]
        · rw [if_pos short, empty]
          rcases short with rfl | rfl <;> simp [emptyFilters]
        · rw [if_neg short]
          have absent : [] :: ascii "+" :: more ∉ emptyFilters := by
            simp only [emptyFilters, List.mem_cons, List.cons.injEq, List.not_mem_nil, or_false, true_and]
            rintro (⟨wrong, _⟩ | nothing | one)
            · exact hash wrong
            · exact short (Or.inl nothing)
            · exact short (Or.inr one)
          simp [absent, wildcard _ (Or.inr rfl)]
      · -- An ordinary level stays in place and is the topic's too.
        obtain ⟨_, _, parts, same, _⟩ := matchLevels_cons tail hash
        obtain rfl : next = second := by
          rw [(List.cons.inj parts).1]
          exact same.resolve_left plus
        rw [dropEnd_cons hash, dropEnd_cons plus]
        simp [routingLevel, hash, plus]
  · have keeps (parts : List Bytes) : routingLevel (level :: parts) = level := by
      unfold routingLevel
      split
      · rename_i same
        exact absurd (List.cons.inj same).1 slash
      · rename_i same
        exact ((List.cons.inj same).1).symm
      · rename_i none
        cases none
    have absent : level :: rest ∉ emptyFilters := by
      simp [emptyFilters, slash]
    rw [dropLevel_cons, dropLevel_cons, keeps, keeps]
    simp only [absent, false_and, or_false]
    by_cases hash : level = ascii "#"
    · simp [hash, wildcard _ (Or.inl rfl)]
    · by_cases plus : level = ascii "+"
      · simp [plus, wildcard _ (Or.inr rfl)]
      · obtain ⟨name, names, rfl, same, _⟩ := matchLevels_cons covers hash
        obtain rfl : level = name := same.resolve_left plus
        rw [keeps]
        simp [hash, plus]

/-- A message is appended to the Kafka topic that a matching subscription reads exactly if the
    filter names its first level, or both are taken for an empty topic. -/
theorem mqtt_routing {filter topic : Bytes} (validFilter : ValidFilter filter) (validTopic : ValidTopic topic)
    (covers : mqttTopicMatches filter topic = true) :
    mqttFilterToKafka filter = mqttTopicToKafka topic ↔ Routed filter topic := by
  have some (s : Bytes) (nonempty : s ≠ []) : split 47 s ≠ [] ∧ split 47 s ≠ [[]] :=
    ⟨split_ne_nil 47 s, fun same => nonempty (split_injective 47 (same.trans (split_nil 47).symm))⟩
  have known : filter ∈ [ascii "/#", ascii "/+", ascii "/+/#"] ↔ split 47 filter ∈ emptyFilters := by
    have levels : emptyFilters = [ascii "/#", ascii "/+", ascii "/+/#"].map (split 47) := by decide
    rw [levels, List.mem_map_of_injective (split_injective 47)]
  rw [mqttFilterToKafka_eq, mqttTopicToKafka_eq, Routed, mqttFirstLevel_eq, mqttFirstLevel_eq, known]
  exact routing_levels (some filter validFilter.nonempty) (some topic validTopic.nonempty)
    (fun _ => kafkaName_ne_wildcard validTopic) covers

theorem mqtt_routing_sensors :
    ValidFilter (ascii "sensors/+/temp") ∧ ValidTopic (ascii "sensors/d1/temp") ∧
      mqttTopicMatches (ascii "sensors/+/temp") (ascii "sensors/d1/temp") = true ∧
      mqttFilterToKafka (ascii "sensors/+/temp") = mqttTopicToKafka (ascii "sensors/d1/temp") := by
  have validFilter : ValidFilter (ascii "sensors/+/temp") := ⟨by decide, by decide, by decide, by decide⟩
  have validTopic : ValidTopic (ascii "sensors/d1/temp") := ⟨by decide, by decide, by decide⟩
  exact ⟨validFilter, validTopic, by decide, (mqtt_routing validFilter validTopic (by decide)).mpr (Or.inl (by decide))⟩

/-- A subscription to everything reads a Kafka topic that no message is appended to. -/
theorem subscription_to_everything_misses :
    ∃ filter topic, ValidFilter filter ∧ ValidTopic topic ∧ mqttTopicMatches filter topic = true ∧
      mqttFilterToKafka filter = ascii "mqtt-#" ∧ mqttTopicToKafka topic = ascii "mqtt-sensors" :=
  ⟨ascii "#", ascii "sensors/d1/temp", ⟨by decide, by decide, by decide, by decide⟩, ⟨by decide, by decide, by decide⟩,
    by decide, by decide, by decide⟩

end PocketKafka.Gateway
