import PocketKafka.Gateway.MqttTopics

namespace PocketKafka.Gateway

open Bytes Text

/-- The levels of a filter against those of a topic: `+` stands for one level, a `#` at the end for any number of them. -/
inductive LevelsMatch : List Bytes → List Bytes → Prop
  | done : LevelsMatch [] []
  | rest (names : List Bytes) : LevelsMatch [ascii "#"] names
  | single {filter topic : List Bytes} (name : Bytes) (tail : LevelsMatch filter topic) :
      LevelsMatch (ascii "+" :: filter) (name :: topic)
  | same {level : Bytes} {filter topic : List Bytes} (hash : level ≠ ascii "#") (plus : level ≠ ascii "+")
      (tail : LevelsMatch filter topic) : LevelsMatch (level :: filter) (level :: topic)

def StartsWild (filter : Bytes) : Prop := filter.head? = some 35 ∨ filter.head? = some 43

def Reserved (topic : Bytes) : Prop := topic.head? = some 36

/-- Filters that start with a wildcard do not reach the reserved topics. -/
def StandardMatch (filter topic : Bytes) : Prop :=
  LevelsMatch (split 47 filter) (split 47 topic) ∧ ¬ (StartsWild filter ∧ Reserved topic)

theorem matchLevels_iff (filter topic : List Bytes) : matchLevels filter topic = true ↔ LevelsMatch filter topic := by
  induction filter generalizing topic with
  | nil =>
    rw [matchLevels, List.isEmpty_iff]
    constructor
    · rintro rfl
      exact .done
    · intro matched
      cases matched
      rfl
  | cons level filter ih =>
    rw [matchLevels.eq_def]
    dsimp only
    split
    · -- A `#` ends the loop: the rest of the topic is not looked at.
      rename_i hash
      subst hash
      rw [List.isEmpty_iff]
      constructor
      · rintro rfl
        exact .rest topic
      · intro matched
        cases matched with
        | rest names => rfl
        | same hash _ _ => exact absurd rfl hash
    · rename_i hash
      cases topic with
      | nil =>
        constructor
        · simp
        · intro matched
          cases matched
          exact absurd rfl hash
      | cons name topic =>
        dsimp only
        split
        · rename_i covers
          rw [ih]
          constructor
          · intro tail
            by_cases plus : level = ascii "+"
            · subst plus
              exact .single name tail
            · obtain rfl := covers.resolve_left plus
              exact .same hash plus tail
          · intro matched
            cases matched with
            | rest names => exact absurd rfl hash
            | single _ tail => exact tail
            | same _ _ tail => exact tail
        · rename_i differs
          constructor
          · simp
          · intro matched
            cases matched with
            | rest names => exact absurd rfl hash
            | single _ _ => exact absurd (Or.inl rfl) differs
            | same _ _ _ => exact absurd (Or.inr rfl) differs

/-- The matching of the gateway is the standard's but for reserved topics under a filter that starts with a wildcard. -/
theorem mqttTopicMatches_standard_iff (filter topic : Bytes) :
    (mqttTopicMatches filter topic = true ↔ StandardMatch filter topic) ↔
      ¬ (StartsWild filter ∧ Reserved topic ∧ LevelsMatch (split 47 filter) (split 47 topic)) := by
  have levels : mqttTopicMatches filter topic = true ↔ LevelsMatch (split 47 filter) (split 47 topic) :=
    matchLevels_iff (split 47 filter) (split 47 topic)
  rw [levels, StandardMatch]
  constructor
  · intro standard reached
    exact (standard.mp reached.2.2).2 ⟨reached.1, reached.2.1⟩
  · intro free
    exact ⟨fun covers => ⟨covers, fun reserved => free ⟨reserved.1, reserved.2, covers⟩⟩, fun standard => standard.1⟩

/-- A subscription to everything is sent the topics of the server. -/
theorem reserved_topic_matched :
    ValidFilter (ascii "#") ∧ ValidTopic (ascii "$SYS/uptime") ∧ mqttTopicMatches (ascii "#") (ascii "$SYS/uptime") = true ∧
      ¬ StandardMatch (ascii "#") (ascii "$SYS/uptime") :=
  ⟨⟨by decide, by decide, by decide, by decide⟩, ⟨by decide, by decide, by decide⟩, by decide,
    fun standard => standard.2 ⟨Or.inl (by decide), show _ = _ by decide⟩⟩

end PocketKafka.Gateway
