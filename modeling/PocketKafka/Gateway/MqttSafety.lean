import PocketKafka.Gateway.MqttWire

namespace PocketKafka.Gateway

open Bytes

namespace Checked

def index (b : Bytes) (i : Nat) : Except Failure UInt8 :=
  if i < b.length then .ok (b.getD i 0) else .error (.panic "index out of range")

def range (b : Bytes) (i j : Nat) : Except Failure Bytes :=
  if i ≤ j ∧ j ≤ b.length then .ok (slice b i j) else .error (.panic "slice bounds out of range")

def uint16 (b : Bytes) (i : Nat) : Except Failure Nat := do
  let field ← range b i (i + 2)
  return beUint field

def readMQTTString (b : Bytes) : Except Failure (Bytes × Nat) :=
  if b.length < 2 then .error (.error "short mqtt string")
  else do
    let n ← uint16 b 0
    if b.length < 2 + n then .error (.error "mqtt string overrun")
    else do
      let s ← range b 2 (2 + n)
      return (s, 2 + n)

def readFlagged (present : Bool) (payload : Bytes) (pos : Nat) : Except Failure (Bytes × Nat) :=
  if present then do
    let behind ← range payload pos payload.length
    let (s, n) ← readMQTTString behind
    return (s, pos + n)
  else return ([], pos)

def parseConnect (payload : Bytes) : Except Failure MqttConnectInfo :=
  if payload.length < 10 then .error (.error "short connect packet")
  else if ¬ (([0, 4] ++ ascii "MQTT").isPrefixOf payload) then .error (.error "unsupported protocol name")
  else do
    let level ← index payload 6
    if level ≠ 4 then .error (.error s!"unsupported protocol level {level}")
    else do
      let flags ← index payload 7
      let (clientID, pos) ← readFlagged true payload 10
      let will := flags &&& 0x04 != 0
      let (_, pos) ← readFlagged will payload pos
      let (_, pos) ← readFlagged will payload pos
      let named := flags &&& 0x80 != 0
      let (username, pos) ← readFlagged named payload pos
      let secret := flags &&& 0x40 != 0
      let (password, _) ← readFlagged secret payload pos
      return ⟨clientID, username, password, named, secret⟩

def parsePublish (flags : UInt8) (payload : Bytes) : Except Failure Publish :=
  if payload.length < 2 then .error (.error "short publish")
  else
    let qos := (flags >>> 1) &&& 3
    if qos = 3 then .error (.error "invalid publish qos")
    else do
      let tlen ← uint16 payload 0
      if payload.length < 2 + tlen then .error (.error "publish topic overrun")
      else do
        let topic ← range payload 2 (2 + tlen)
        let data ← range payload (2 + tlen) payload.length
        if 0 < qos then
          if data.length < 2 then .error (.error "short publish packet id")
          else do
            let packetID ← uint16 data 0
            let data ← range data 2 data.length
            return ⟨topic, data, qos, packetID⟩
        else return ⟨topic, data, qos, 0⟩

def readFilters (extra : Nat) (payload : Bytes) (pos : Nat) : Except Failure (List Bytes) :=
  if pos + 2 ≤ payload.length then
    match uint16 payload pos with
    | .error failure => .error failure
    | .ok tlen =>
      if payload.length < pos + 2 + tlen + extra then .ok []
      else
        match range payload (pos + 2) (pos + 2 + tlen) with
        | .error failure => .error failure
        | .ok filter => (readFilters extra payload (pos + 2 + tlen + extra)).map (filter :: ·)
  else .ok []
termination_by payload.length - pos

def parseUnsubscribe (payload : Bytes) : Except Failure (Nat × List Bytes) :=
  if payload.length < 4 then .error (.error "short unsubscribe")
  else do
    let packetID ← uint16 payload 0
    let filters ← readFilters 0 payload 2
    return (packetID, filters)

def parseSubscribe (payload : Bytes) : Except Failure (Nat × List Bytes) :=
  if payload.length < 3 then .error (.error "short subscribe")
  else do
    let packetID ← uint16 payload 0
    let filters ← readFilters 1 payload 2
    return (packetID, filters)

end Checked

theorem Checked.index_eq {b : Bytes} {i : Nat} (inside : i < b.length) : index b i = .ok (b.getD i 0) := if_pos inside

theorem Checked.range_eq {b : Bytes} {i j : Nat} (order : i ≤ j) (inside : j ≤ b.length) : range b i j = .ok (slice b i j) :=
  if_pos ⟨order, inside⟩

theorem Checked.uint16_eq {b : Bytes} {i : Nat} (inside : i + 2 ≤ b.length) :
    uint16 b i = .ok (beUint (slice b i (i + 2))) := by
  rw [uint16, range_eq (by omega) inside]
  rfl

theorem slice_end (b : Bytes) (i : Nat) : slice b i b.length = b.drop i := by
  rw [slice]
  exact List.take_of_length_le (by rw [List.length_drop])

theorem checked_readMQTTString (b : Bytes) : Checked.readMQTTString b = readMQTTString b := by
  unfold Checked.readMQTTString readMQTTString
  split
  · rfl
  · rename_i long
    rw [Checked.uint16_eq (by omega)]
    dsimp only [Bind.bind, Except.bind]
    split
    · rfl
    · rename_i inside
      rw [Checked.range_eq (by omega) (by omega)]
      rfl

theorem checked_readFlagged (present : Bool) {payload : Bytes} {pos : Nat} (inside : pos ≤ payload.length) :
    Checked.readFlagged present payload pos = readFlagged present payload pos := by
  unfold Checked.readFlagged readFlagged
  split
  · rw [Checked.range_eq inside le_rfl, slice_end, ← checked_readMQTTString]
    rfl
  · rfl

theorem checked_readFilters (extra : Nat) (payload : Bytes) (pos : Nat) :
    Checked.readFilters extra payload pos = .ok (readFilters extra payload pos) := by
  fun_induction readFilters extra payload pos with
  | case1 pos inside tlen short =>
    rw [Checked.readFilters, if_pos inside, Checked.uint16_eq inside]
    dsimp only
    rw [if_pos short]
  | case2 pos inside tlen long ih =>
    rw [Checked.readFilters, if_pos inside, Checked.uint16_eq inside]
    dsimp only
    rw [if_neg long, Checked.range_eq (by omega) (by omega)]
    dsimp only
    rw [ih]
    rfl
  | case3 pos outside => rw [Checked.readFilters, if_neg outside]

theorem checked_parseSubscribe (payload : Bytes) : Checked.parseSubscribe payload = parseSubscribe payload := by
  unfold Checked.parseSubscribe parseSubscribe
  split
  · rfl
  · rw [Checked.uint16_eq (by omega), checked_readFilters]
    rfl

theorem checked_parseUnsubscribe (payload : Bytes) : Checked.parseUnsubscribe payload = parseUnsubscribe payload := by
  unfold Checked.parseUnsubscribe parseUnsubscribe
  split
  · rfl
  · rw [Checked.uint16_eq (by omega), checked_readFilters]
    rfl

theorem checked_parsePublish (flags : UInt8) (payload : Bytes) :
    Checked.parsePublish flags payload = parsePublish flags payload := by
  unfold Checked.parsePublish parsePublish
  split
  · rfl
  · dsimp only
    split
    · rfl
    · rw [Checked.uint16_eq (by omega)]
      dsimp only [Bind.bind, Except.bind]
      split
      · rfl
      · rename_i long
        rw [Checked.range_eq (by omega) (by omega), Checked.range_eq (by omega) le_rfl, slice_end]
        dsimp only
        split
        · split
          · rfl
          · rename_i more
            rw [Checked.uint16_eq (by omega), Checked.range_eq (by omega) le_rfl, slice_end]
            rfl
        · rfl

inductive Placed : Bytes → List Bytes → Prop
  | done (rest : Bytes) : Placed rest []
  | field (gap : Bytes) {len s rest : Bytes} {fields : List Bytes} (width : len.length = 2) (counts : beUint len = s.length)
      (behind : Placed rest fields) : Placed (gap ++ (len ++ (s ++ rest))) (s :: fields)

theorem Placed.skip (gap : Bytes) {b : Bytes} {fields : List Bytes} (placed : Placed b fields) :
    Placed (gap ++ b) fields := by
  cases placed with
  | done rest => exact .done (gap ++ b)
  | field inner width counts behind =>
    rw [← List.append_assoc]
    exact .field (gap ++ inner) width counts behind

theorem drop_eq_slice (b : Bytes) {i j : Nat} (order : i ≤ j) : b.drop i = slice b i j ++ b.drop j := by
  have parts := List.take_append_drop (j - i) (b.drop i)
  rw [List.drop_drop, Nat.add_sub_cancel' order] at parts
  exact parts.symm

theorem Placed.drop {b : Bytes} {i j : Nat} {fields : List Bytes} (order : i ≤ j) (placed : Placed (b.drop j) fields) :
    Placed (b.drop i) fields := by
  rw [drop_eq_slice b order]
  exact placed.skip (slice b i j)

theorem readMQTTString_parts {b s : Bytes} {n : Nat} (done : readMQTTString b = .ok (s, n)) :
    ∃ len, b = len ++ (s ++ b.drop n) ∧ len.length = 2 ∧ beUint len = s.length ∧ n ≤ b.length := by
  unfold readMQTTString at done
  split at done
  · cases done
  dsimp only at done
  split at done
  · cases done
  rename_i long inside
  cases done
  refine ⟨slice b 0 2, ?_, by rw [slice_length]; omega, by rw [slice_length]; omega, by omega⟩
  rw [← drop_eq_slice b (by omega : 2 ≤ 2 + beUint (slice b 0 2)), ← drop_eq_slice b (by omega : 0 ≤ 2), List.drop_zero]

theorem readFlagged_order {present : Bool} {payload s : Bytes} {pos next : Nat}
    (done : readFlagged present payload pos = .ok (s, next)) (inside : pos ≤ payload.length) :
      pos ≤ next ∧ next ≤ payload.length := by
  unfold readFlagged at done
  split at done
  · cases found : readMQTTString (payload.drop pos) with
    | error failure =>
      rw [found] at done
      cases done
    | ok read =>
      rw [found] at done
      cases done
      obtain ⟨_, _, _, _, short⟩ := readMQTTString_parts found
      rw [List.length_drop] at short
      omega
  · cases done
    exact ⟨le_rfl, inside⟩

theorem Placed.flagged {present : Bool} {payload s : Bytes} {pos next : Nat} {fields : List Bytes}
    (done : readFlagged present payload pos = .ok (s, next)) (behind : Placed (payload.drop next) fields) :
    Placed (payload.drop pos) ((if present then [s] else []) ++ fields) ∧ (present = false → s = []) := by
  unfold readFlagged at done
  split at done
  · rename_i set
    cases found : readMQTTString (payload.drop pos) with
    | error failure =>
      rw [found] at done
      cases done
    | ok read =>
      rw [found] at done
      cases done
      obtain ⟨len, parts, width, counts, _⟩ := readMQTTString_parts found
      rw [if_pos set]
      rw [List.drop_drop] at parts
      refine ⟨?_, fun unset => absurd set (by rw [unset]; decide)⟩
      rw [parts]
      exact .field [] width counts behind
  · rename_i unset
    cases done
    rw [if_neg unset]
    exact ⟨behind, fun _ => rfl⟩

theorem readFilters_placed (extra : Nat) (payload : Bytes) (pos : Nat) :
    Placed (payload.drop pos) (readFilters extra payload pos) := by
  fun_induction readFilters extra payload pos with
  | case1 pos inside tlen short => exact .done _
  | case2 pos inside tlen long ih =>
    have first := drop_eq_slice payload (by omega : pos ≤ pos + 2)
    have second := drop_eq_slice payload (by omega : pos + 2 ≤ pos + 2 + tlen)
    rw [first, second]
    exact .field [] (by rw [slice_length]; omega) (by rw [slice_length]; omega) (ih.drop (by omega))
  | case3 pos outside => exact .done _

/-- The strings of a CONNECT packet; a name or a password that is not announced is empty. -/
def MqttConnectInfo.fields (info : MqttConnectInfo) : List Bytes :=
  info.clientID :: ((if info.hasUsername then [info.username] else []) ++ (if info.hasPassword then [info.password] else []))

theorem ok_bind {α β : Type} (a : α) (f : α → Except Failure β) : (Except.ok a >>= f) = f a := rfl

theorem bind_readFlagged {α : Type} {present : Bool} {payload : Bytes} {pos : Nat} (inside : pos ≤ payload.length)
    {f g : Bytes × Nat → Except Failure α} (same : ∀ s next, next ≤ payload.length → f (s, next) = g (s, next)) :
    Checked.readFlagged present payload pos >>= f = readFlagged present payload pos >>= g := by
  rw [checked_readFlagged present inside]
  cases found : readFlagged present payload pos with
  | error failure => rfl
  | ok read => exact same read.1 read.2 (readFlagged_order found inside).2

theorem readFlagged_true (payload : Bytes) (pos : Nat) :
    readFlagged true payload pos = (readMQTTString (payload.drop pos)).map fun read => (read.1, pos + read.2) := by
  rw [readFlagged, if_pos rfl]
  cases readMQTTString (payload.drop pos) <;> rfl

theorem checked_parseConnect (payload : Bytes) : Checked.parseConnect payload = parseConnect payload := by
  unfold Checked.parseConnect parseConnect
  split
  · rfl
  split
  · rfl
  rename_i long _
  rw [Checked.index_eq (by omega), Checked.index_eq (by omega), ok_bind]
  dsimp only
  split
  · rfl
  rw [ok_bind, checked_readFlagged true (by omega)]
  have start := readFlagged_true payload 10
  cases found : readMQTTString (payload.drop 10) with
  | error failure =>
    rw [found] at start
    rw [start]
    rfl
  | ok read =>
    rw [found] at start
    have inside := (readFlagged_order start (by omega)).2
    rw [start]
    refine bind_readFlagged inside fun _ pos₁ inside₁ => bind_readFlagged inside₁ fun _ pos₂ inside₂ => ?_
    exact bind_readFlagged inside₂ fun username pos₃ inside₃ => bind_readFlagged inside₃ fun password pos₄ _ => rfl

theorem parseConnect_placed {payload : Bytes} {info : MqttConnectInfo} (done : parseConnect payload = .ok info) :
    Placed (payload.drop 10) info.fields ∧ (info.hasUsername = false → info.username = []) ∧
      (info.hasPassword = false → info.password = []) := by
  unfold parseConnect at done
  split at done
  · cases done
  split at done
  · cases done
  rename_i long _
  dsimp only at done
  split at done
  · cases done
  obtain ⟨⟨clientID, n⟩, first, done⟩ := exists_of_bind done
  obtain ⟨⟨topic, pos₁⟩, second, done⟩ := exists_of_bind done
  obtain ⟨⟨message, pos₂⟩, third, done⟩ := exists_of_bind done
  obtain ⟨⟨username, pos₃⟩, fourth, done⟩ := exists_of_bind done
  obtain ⟨⟨password, pos₄⟩, fifth, done⟩ := exists_of_bind done
  cases done
  have start := readFlagged_true payload 10
  rw [first] at start
  have order₁ := readFlagged_order start (by omega)
  have order₂ := readFlagged_order second order₁.2
  have order₃ := readFlagged_order third order₂.2
  obtain ⟨secret, noSecret⟩ := Placed.flagged fifth (.done _)
  obtain ⟨named, noName⟩ := Placed.flagged fourth secret
  rw [List.append_nil] at named
  exact ⟨(Placed.flagged start (named.drop (by omega))).1, noName, noSecret⟩

/-- The parts of a PUBLISH packet, one behind the other: the topic with its length, the packet identifier if there is
    one, and the data. -/
def Publish.Parts (payload : Bytes) (p : Publish) : Prop :=
  ∃ len id, payload = len ++ (p.topic ++ (id ++ p.data)) ∧ len.length = 2 ∧ beUint len = p.topic.length ∧
    (p.qos = 0 → id = [] ∧ p.packetID = 0) ∧ (p.qos ≠ 0 → id.length = 2 ∧ p.packetID = beUint id)

theorem parsePublish_parts {flags : UInt8} {payload : Bytes} {p : Publish} (done : parsePublish flags payload = .ok p) :
    p.Parts payload := by
  unfold parsePublish at done
  split at done
  · cases done
  dsimp only at done
  split at done
  · cases done
  split at done
  · cases done
  rename_i long _ inside
  have parts : payload = slice payload 0 2 ++ (slice payload 2 (2 + beUint (slice payload 0 2)) ++
      payload.drop (2 + beUint (slice payload 0 2))) := by
    rw [← drop_eq_slice payload (by omega : 2 ≤ 2 + beUint (slice payload 0 2)), ← drop_eq_slice payload (by omega : 0 ≤ 2),
      List.drop_zero]
  have width : (slice payload 0 2).length = 2 := by
    rw [slice_length]
    omega
  have counts : beUint (slice payload 0 2) = (slice payload 2 (2 + beUint (slice payload 0 2))).length := by
    rw [slice_length]
    omega
  split at done
  · rename_i positive
    split at done
    · cases done
    · rename_i more
      cases done
      refine ⟨slice payload 0 2, slice (payload.drop (2 + beUint (slice payload 0 2))) 0 2, ?_, width, counts, ?_, ?_⟩
      · rw [← drop_eq_slice _ (by omega : 0 ≤ 2), List.drop_zero]
        exact parts
      · intro zero
        change flags >>> 1 &&& 3 = 0 at zero
        rw [zero] at positive
        exact absurd positive (by decide)
      · intro _
        exact ⟨by rw [slice_length]; omega, rfl⟩
  · rename_i zero
    cases done
    refine ⟨slice payload 0 2, [], parts, width, counts, fun _ => ⟨rfl, rfl⟩, ?_⟩
    intro other
    exact absurd (UInt8.pos_iff_ne_zero.mpr other) zero

def Returns {α : Type} (x : Except Failure α) : Prop := (∃ v, x = .ok v) ∨ ∃ text, x = .error (.error text)

theorem returns_ok {α : Type} (v : α) : Returns (.ok v) := Or.inl ⟨v, rfl⟩

theorem returns_error {α : Type} (text : String) : Returns (.error (.error text) : Except Failure α) := Or.inr ⟨text, rfl⟩

theorem Returns.bind {α β : Type} {x : Except Failure α} {f : α → Except Failure β} (first : Returns x)
    (second : ∀ v, Returns (f v)) :
    Returns (x >>= f) := by
  rcases first with ⟨v, rfl⟩ | ⟨text, rfl⟩
  · exact second v
  · exact returns_error text

theorem readMQTTString_returns (b : Bytes) : Returns (readMQTTString b) := by
  unfold readMQTTString
  split
  · exact returns_error _
  · dsimp only
    split
    · exact returns_error _
    · exact returns_ok _

theorem readFlagged_returns (present : Bool) (payload : Bytes) (pos : Nat) : Returns (readFlagged present payload pos) := by
  unfold readFlagged
  split
  · exact (readMQTTString_returns _).bind fun _ => returns_ok _
  · exact returns_ok _

theorem parseConnect_returns (payload : Bytes) : Returns (parseConnect payload) := by
  unfold parseConnect
  split
  · exact returns_error _
  split
  · exact returns_error _
  dsimp only
  split
  · exact returns_error _
  apply (readMQTTString_returns _).bind
  intro _
  apply (readFlagged_returns _ _ _).bind
  intro _
  apply (readFlagged_returns _ _ _).bind
  intro _
  apply (readFlagged_returns _ _ _).bind
  intro _
  exact (readFlagged_returns _ _ _).bind fun _ => returns_ok _

theorem parsePublish_returns (flags : UInt8) (payload : Bytes) : Returns (parsePublish flags payload) := by
  unfold parsePublish
  split
  · exact returns_error _
  dsimp only
  split
  · exact returns_error _
  split
  · exact returns_error _
  split
  · split
    · exact returns_error _
    · exact returns_ok _
  · exact returns_ok _

structure SafeConnect (payload : Bytes) : Prop where
  returns : Returns (Checked.parseConnect payload)
  placed : ∀ info, Checked.parseConnect payload = .ok info →
    Placed (payload.drop 10) info.fields ∧ (info.hasUsername = false → info.username = []) ∧
      (info.hasPassword = false → info.password = [])

structure SafePublish (flags : UInt8) (payload : Bytes) : Prop where
  returns : Returns (Checked.parsePublish flags payload)
  placed : ∀ p, Checked.parsePublish flags payload = .ok p → p.Parts payload

structure SafeFilters (parse : Bytes → Except Failure (Nat × List Bytes)) (payload : Bytes) : Prop where
  returns : Returns (parse payload)
  placed : ∀ id filters, parse payload = .ok (id, filters) →
    2 ≤ payload.length ∧ id = beUint (payload.take 2) ∧ Placed (payload.drop 2) filters

theorem safeConnect (payload : Bytes) : SafeConnect payload := by
  constructor
  · rw [checked_parseConnect]
    exact parseConnect_returns payload
  · intro info done
    rw [checked_parseConnect] at done
    exact parseConnect_placed done

theorem safePublish (flags : UInt8) (payload : Bytes) : SafePublish flags payload := by
  constructor
  · rw [checked_parsePublish]
    exact parsePublish_returns flags payload
  · intro p done
    rw [checked_parsePublish] at done
    exact parsePublish_parts done

theorem safeSubscribe (payload : Bytes) : SafeFilters Checked.parseSubscribe payload := by
  constructor
  · rw [checked_parseSubscribe, parseSubscribe]
    split
    · exact returns_error _
    · exact returns_ok _
  · intro id filters done
    rw [checked_parseSubscribe, parseSubscribe] at done
    split at done
    · cases done
    · cases done
      exact ⟨by omega, rfl, readFilters_placed 1 payload 2⟩

theorem safeUnsubscribe (payload : Bytes) : SafeFilters Checked.parseUnsubscribe payload := by
  constructor
  · rw [checked_parseUnsubscribe, parseUnsubscribe]
    split
    · exact returns_error _
    · exact returns_ok _
  · intro id filters done
    rw [checked_parseUnsubscribe, parseUnsubscribe] at done
    split at done
    · cases done
    · cases done
      exact ⟨by omega, rfl, readFilters_placed 0 payload 2⟩

theorem readMQTTPacket_allocated (stream : Bytes) (maxLen : Nat) : (readMQTTPacket stream maxLen).allocated ≤ maxLen := by
  unfold readMQTTPacket
  split
  · exact Nat.zero_le maxLen
  split
  · exact Nat.zero_le maxLen
  split
  · exact Nat.zero_le maxLen
  · rename_i short
    split
    · exact Nat.not_lt.mp short
    · exact Nat.not_lt.mp short

theorem readRemainingLoop_returns (digits multiplier value : Nat) (stream : Bytes) :
    Returns (readRemainingLoop digits multiplier value stream) := by
  induction digits generalizing multiplier value stream with
  | zero => exact returns_error _
  | succ digits ih =>
    cases stream with
    | nil => exact returns_error _
    | cons digit rest =>
      rw [readRemainingLoop]
      split
      · exact returns_ok _
      · exact ih _ _ _

theorem readMQTTPacket_returns (stream : Bytes) (maxLen : Nat) : Returns (readMQTTPacket stream maxLen).result := by
  unfold readMQTTPacket
  split
  · exact returns_error _
  rename_i first rest
  split
  · rename_i failure malformed
    have length : Returns (readRemainingLength rest) := readRemainingLoop_returns 4 1 0 rest
    rw [malformed] at length
    rcases length with ⟨_, wrong⟩ | ⟨text, same⟩
    · cases wrong
    · cases same
      exact returns_error text
  split
  · exact returns_error _
  split
  · exact returns_error _
  · exact returns_ok _

/-- No stream makes the reader allocate more than its limit or a parser reach outside its payload, and what the
    parsers return stands in the payload, each string behind its own length and apart from the others. -/
theorem mqtt_parsers_safe (stream : Bytes) (maxLen : Nat) :
    (readMQTTPacket stream maxLen).allocated ≤ maxLen ∧ Returns (readMQTTPacket stream maxLen).result ∧
      ∀ first payload rest, (readMQTTPacket stream maxLen).result = .ok (first, payload, rest) →
        SafeConnect payload ∧ SafePublish (first &&& 0x0f) payload ∧ SafeFilters Checked.parseSubscribe payload ∧
          SafeFilters Checked.parseUnsubscribe payload :=
  ⟨readMQTTPacket_allocated stream maxLen, readMQTTPacket_returns stream maxLen, fun first payload _ _ =>
    ⟨safeConnect payload, safePublish (first &&& 0x0f) payload, safeSubscribe payload, safeUnsubscribe payload⟩⟩

end PocketKafka.Gateway
