import PocketKafka.Protocol.Decoder

namespace PocketKafka.Protocol

open Bytes

inductive Field where
  | int8 (v : Int)
  | bool (v : Bool)
  | int16 (v : Int)
  | int32 (v : Int)
  | int64 (v : Int)
  | uvarint (v : Nat)
  | string (s : Bytes)
  | nullableString (s : Option Bytes)
  | bytes (b : Option Bytes)
  | arrayLen (n : Int)
  deriving DecidableEq, Repr

def writeInt16 (v : Int) : Bytes := putBE 2 (v % 65536).toNat

def writeInt32 (v : Int) : Bytes := putBE 4 (v % 4294967296).toNat

def Field.written : Field → Bytes
  | .int8 v => putBE 1 (v % 256).toNat
  | .bool v => [if v then 1 else 0]
  | .int16 v => writeInt16 v
  | .int32 v => writeInt32 v
  | .int64 v => putInt 8 v
  | .uvarint v => putUvarint v
  | .string s => writeInt16 s.length ++ s
  | .nullableString none => writeInt16 (-1)
  | .nullableString (some s) => writeInt16 s.length ++ s
  | .bytes none => writeInt32 (-1)
  | .bytes (some b) => writeInt32 b.length ++ b
  | .arrayLen n => writeInt32 n

/-- The value is one of the type that the method takes, and its length is one that the method can write. -/
def Field.InRange : Field → Prop
  | .int8 v => -128 ≤ v ∧ v < 128
  | .bool _ => True
  | .int16 v => -32768 ≤ v ∧ v < 32768
  | .int32 v => -2147483648 ≤ v ∧ v < 2147483648
  | .int64 v => -9223372036854775808 ≤ v ∧ v < 9223372036854775808
  | .uvarint v => v < 18446744073709551616
  | .string s => s.length < 32768
  | .nullableString s => (s.getD []).length < 32768
  | .bytes b => (b.getD []).length < 2147483648
  | .arrayLen n => -1 ≤ n ∧ n < 2147483648

instance : DecidablePred Field.InRange := fun f => by
  cases f <;> unfold Field.InRange <;> infer_instance

abbrev Writer := List Field

namespace Writer

variable {α : Type}

def bytes (w : Writer) : Bytes := w.flatMap Field.written

def InRange (w : Writer) : Prop := ∀ f ∈ w, f.InRange

instance (w : Writer) : Decidable w.InRange := inferInstanceAs (Decidable (∀ f ∈ w, f.InRange))

def seq (parts : List Writer) : Writer := parts.flatten

def fieldsIf (present : Bool) (w : Writer) : Writer := if present then w else []

def array (xs : List α) (element : α → Writer) : Writer := .arrayLen xs.length :: xs.flatMap element

theorem bytes_append (w w' : Writer) : bytes (w ++ w') = w.bytes ++ w'.bytes := List.flatMap_append

@[simp] theorem bytes_nil : bytes [] = [] := rfl

theorem inRange_append {w w' : Writer} : InRange (w ++ w') ↔ w.InRange ∧ w'.InRange := List.forall_mem_append

end Writer

namespace Decoder

variable {α β : Type}

def Yields (d : Decoder α) (b : Bytes) (v : α) : Prop :=
  ∀ front more : Bytes, d ⟨front ++ (b ++ more), front.length⟩ = .ok (v, ⟨front ++ (b ++ more), front.length + b.length⟩)

variable {d : Decoder α} {v : α}

theorem yields_pure (v : α) : Yields (pure v) [] v := fun _ _ => rfl

theorem Yields.map {b : Bytes} (h : Yields d b v) (f : α → β) : Yields (f <$> d) b (f v) := by
  intro front more
  show (d _).map (fun (v, r') => (f v, r')) = _
  rw [h front more]
  rfl

theorem Yields.bind {b b' : Bytes} {f : α → Decoder β} {v' : β} (first : Yields d b v) (second : Yields (f v) b' v') :
    Yields (d >>= f) (b ++ b') v' := by
  intro front more
  have read := first front (b' ++ more)
  have rest := second (front ++ b) more
  rw [List.append_assoc, List.length_append] at rest
  rw [List.append_assoc, List.length_append]
  show (d _).bind (fun (v, r') => f v r') = _
  rw [read]
  show f v _ = _
  rw [rest, Nat.add_assoc]

theorem yields_raw (b : Bytes) : Yields (readRaw b.length) b b := by
  intro front more
  have inside : ¬ (front ++ (b ++ more)).length < front.length + b.length := by
    simp only [List.length_append]
    omega
  rw [readRaw, if_neg inside, slice_middle front b more rfl rfl rfl]

theorem yields_int16 {v : Int} (lower : -32768 ≤ v) (upper : v < 32768) : Yields readInt16 (writeInt16 v) v := by
  have read := (yields_raw (writeInt16 v)).map fun b => int16 (beUint b)
  have same : int16 (beUint (writeInt16 v)) = v := by
    rw [writeInt16, beUint_putBE]
    unfold int16
    omega
  rw [same, writeInt16, putBE_length] at read
  exact read

theorem yields_int32 {v : Int} (lower : -2147483648 ≤ v) (upper : v < 2147483648) :
    Yields readInt32 (writeInt32 v) v := by
  have read := (yields_raw (writeInt32 v)).map fun b => int32 (beUint b)
  have same : int32 (beUint (writeInt32 v)) = v := by
    rw [writeInt32, beUint_putBE]
    unfold int32
    omega
  rw [same, writeInt32, putBE_length] at read
  exact read

theorem yields_behind {length : Decoder Int} {b front : Bytes} (read : Yields length front b.length) (null : α)
    (f : Bytes → α) :
    Yields (length >>= fun l => if l < 0 then pure null else f <$> readRaw l.toNat) (front ++ b) (f b) := by
  apply read.bind
  rw [if_neg (by omega), Int.toNat_natCast]
  exact (yields_raw b).map f

theorem yields_null {length : Decoder Int} {front : Bytes} (read : Yields length front (-1)) (null : α)
    (f : Bytes → α) : Yields (length >>= fun l => if l < 0 then pure null else f <$> readRaw l.toNat) front null := by
  rw [← List.append_nil front]
  apply read.bind
  rw [if_pos (by decide)]
  exact yields_pure null

/-- `v` is what is read from `w`, if `w` can be written at all. -/
def Recovers (d : Decoder α) (w : Writer) (v : α) : Prop := w.InRange → Yields d w.bytes v

variable {w w' : Writer}

theorem recovers_pure (v : α) : Recovers (pure v) [] v := fun _ => yields_pure v

theorem Recovers.map (h : Recovers d w v) (f : α → β) : Recovers (f <$> d) w (f v) := fun typed => (h typed).map f

theorem Recovers.bind {f : α → Decoder β} {v' : β} (first : Recovers d w v) (second : Recovers (f v) w' v') :
    Recovers (d >>= f) (w ++ w') v' := by
  intro typed
  have typed := Writer.inRange_append.mp typed
  rw [Writer.bytes_append]
  exact (first typed.1).bind (second typed.2)

theorem Recovers.next {f : α → Decoder β} {v' : β} {parts : List Writer} (first : Recovers d w v)
    (rest : Recovers (f v) (.seq parts) v') : Recovers (d >>= f) (.seq (w :: parts)) v' := first.bind rest

theorem recovers_done (v : α) : Recovers (pure v) (.seq []) v := recovers_pure v

theorem recovers_field {f : Field} (h : f.InRange → Yields d f.written v) : Recovers d [f] v := by
  intro typed
  rw [show Writer.bytes [f] = f.written from List.flatMap_singleton Field.written f]
  exact h (typed f List.mem_cons_self)

theorem recovers_int16 (v : Int) : Recovers readInt16 [.int16 v] v :=
  recovers_field fun typed => yields_int16 typed.1 typed.2

theorem recovers_int32 (v : Int) : Recovers readInt32 [.int32 v] v :=
  recovers_field fun typed => yields_int32 typed.1 typed.2

theorem recovers_int64 (v : Int) : Recovers readInt64 [.int64 v] v := by
  apply recovers_field
  intro typed
  have read := (yields_raw (putInt 8 v)).map fun b => int64 (beUint b)
  rw [int64_beUint_putInt typed.1 typed.2, putInt_length] at read
  exact read

theorem yields_string {s : Bytes} (short : s.length < 32768) :
    Yields readNullableString (writeInt16 s.length ++ s) (some s) :=
  yields_behind (yields_int16 (by omega) (by omega)) none some

theorem recovers_nullableString (s : Option Bytes) : Recovers readNullableString [.nullableString s] s := by
  apply recovers_field
  intro typed
  cases s with
  | none => exact yields_null (yields_int16 (by decide) (by decide)) none some
  | some s => exact yields_string typed

theorem recovers_string (s : Bytes) : Recovers readString [.string s] s :=
  recovers_field fun typed => (yields_string typed).map fun s => s.getD []

theorem yields_bytes {b : Bytes} (short : b.length < 2147483648) :
    Yields readBytes (writeInt32 b.length ++ b) (some b) :=
  yields_behind (yields_int32 (by omega) (by omega)) none some

theorem recovers_bytes (b : Option Bytes) : Recovers readBytes [.bytes b] b := by
  apply recovers_field
  intro typed
  cases b with
  | none => exact yields_null (yields_int32 (by decide) (by decide)) none some
  | some b => exact yields_bytes typed

/-- What is known of a field that only some versions have. -/
def carried (present : Bool) (v default : α) : α := if present then v else default

theorem recovers_fieldIf {default : α} {present : Bool} (h : Recovers d w v) :
    Recovers (fieldIf present d default) (Writer.fieldsIf present w) (carried present v default) := by
  cases present
  · exact recovers_pure default
  · exact h

theorem Recovers.unwritten {parts : List Writer} {present : Bool} (absent : present = false)
    (h : Recovers d (.seq parts) v) : Recovers d (.seq (.fieldsIf present w :: parts)) v := by
  rw [absent]
  exact h

theorem Recovers.unread {f : β → Decoder α} {d : Decoder β} {default : β} {present : Bool} (absent : present = false)
    (h : Recovers (f default) w v) : Recovers (fieldIf present d default >>= f) w v := by
  rw [absent]
  exact h

theorem recovers_repeated {xs : List β} {element : β → Writer} {norm : β → α}
    (each : ∀ x, Recovers d (element x) (norm x)) :
    Recovers (repeated d xs.length) (xs.flatMap element) (xs.map norm) := by
  induction xs with
  | nil => exact recovers_pure []
  | cons x xs ih => exact (each x).bind (ih.map (norm x :: ·))

theorem recovers_arrayLen (n : Int) : Recovers readArrayLen [.arrayLen n] n := by
  apply recovers_field
  intro typed
  obtain ⟨lower, upper⟩ := typed
  have read := (yields_int32 (by omega) upper).map fun l => if l < 0 then -1 else l
  have same : (if n < 0 then -1 else n) = n := by split <;> omega
  rw [same] at read
  exact read

theorem recovers_array {xs : List β} {element : β → Writer} {norm : β → α}
    (each : ∀ x, Recovers d (element x) (norm x)) :
    Recovers (readArray d) (Writer.array xs element) (xs.map norm) := by
  apply (recovers_arrayLen xs.length).bind
  rw [makeSlice, if_neg (by omega), Int.toNat_natCast]
  exact recovers_repeated each

variable {failure : Failure}

end Decoder

end PocketKafka.Protocol
