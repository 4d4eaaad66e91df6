import PocketKafka.Lib.Bytes
import PocketKafka.Lib.SelfDelimiting

namespace PocketKafka.Storage

open Bytes SelfDelimiting

abbrev Name := Bytes

structure CompactionManifest where
  old : List Name
  new : List Name
  deriving DecidableEq, Repr

def quote : UInt8 := 34

/-- The bytes that stand for themselves in a JSON string: printable ASCII without quotes, backslashes and
    the HTML characters that the encoder escapes. -/
def PlainByte (b : UInt8) : Prop := 32 ≤ b ∧ b ≤ 126 ∧ b ≠ quote ∧ b ≠ 92 ∧ b ≠ 38 ∧ b ≠ 60 ∧ b ≠ 62

instance (b : UInt8) : Decidable (PlainByte b) := inferInstanceAs (Decidable (_ ∧ _ ∧ _ ∧ _ ∧ _ ∧ _ ∧ _))

/-- A name that is written as it is. All names of segment files are. -/
def Plain (name : Name) : Prop := ∀ b ∈ name, PlainByte b

instance (name : Name) : Decidable (Plain name) := inferInstanceAs (Decidable (∀ b ∈ name, PlainByte b))

def marshalName (name : Name) : Bytes := quote :: (name ++ [quote])

def marshalNames : List Name → Bytes
  | [] => ascii "null"
  | name :: rest => ascii "[" ++ marshalName name ++ rest.flatMap (fun name => ascii "," ++ marshalName name) ++ ascii "]"

def marshalManifest (m : CompactionManifest) : Bytes :=
  ascii "\x7b\"old\":" ++ (marshalNames m.old ++ (ascii ",\"new\":" ++ (marshalNames m.new ++ ascii "\x7d")))

inductive ArrayState where
  | start
  | inside (name : Name)
  | behind
  | next

/-- Reads an array of strings up to its closing bracket. Escapes and white space, which are never written
    here, are refused. -/
def unmarshalArray : ArrayState → List Name → Parser UInt8 (List Name)
  | _, _, [] => none
  | .start, names, b :: rest =>
    if b = 93 then some (names, rest)
    else if b = quote then unmarshalArray (.inside []) names rest
    else none
  | .inside name, names, b :: rest =>
    if b = quote then unmarshalArray .behind (names ++ [name]) rest
    else if PlainByte b then unmarshalArray (.inside (name ++ [b])) names rest
    else none
  | .behind, names, b :: rest =>
    if b = 93 then some (names, rest)
    else if b = 44 then unmarshalArray .next names rest
    else none
  | .next, names, b :: rest => if b = quote then unmarshalArray (.inside []) names rest else none

def unmarshalNames : Parser UInt8 (List Name)
  | [] => none
  | b :: rest =>
    if b = 91 then unmarshalArray .start [] rest
    else andThen (token (ascii "null")) (fun _ rest => some ([], rest)) (b :: rest)

def unmarshalFields : Parser UInt8 CompactionManifest :=
  andThen (token (ascii "\x7b\"old\":")) fun _ =>
  andThen unmarshalNames fun old =>
  andThen (token (ascii ",\"new\":")) fun _ =>
  andThen unmarshalNames fun new =>
  andThen (token (ascii "\x7d")) fun _ rest => some (⟨old, new⟩, rest)

def unmarshalManifest (data : Bytes) : Option CompactionManifest := complete unmarshalFields data

theorem unmarshalArray_extends (state : ArrayState) (names : List Name) : Extends (unmarshalArray state names) := by
  intro xs v rest read ys
  induction xs generalizing state names with
  | nil => cases state <;> cases read
  | cons b xs ih =>
    cases state with
    | start =>
      rw [List.cons_append]
      rw [unmarshalArray] at read ⊢
      by_cases closes : b = 93
      · rw [if_pos closes] at read ⊢
        cases read
        rfl
      · rw [if_neg closes] at read ⊢
        by_cases opens : b = quote
        · rw [if_pos opens] at read ⊢
          exact ih _ _ read
        · rw [if_neg opens] at read
          cases read
    | inside name =>
      rw [List.cons_append]
      rw [unmarshalArray] at read ⊢
      by_cases closes : b = quote
      · rw [if_pos closes] at read ⊢
        exact ih _ _ read
      · rw [if_neg closes] at read ⊢
        by_cases plain : PlainByte b
        · rw [if_pos plain] at read ⊢
          exact ih _ _ read
        · rw [if_neg plain] at read
          cases read
    | behind =>
      rw [List.cons_append]
      rw [unmarshalArray] at read ⊢
      by_cases closes : b = 93
      · rw [if_pos closes] at read ⊢
        cases read
        rfl
      · rw [if_neg closes] at read ⊢
        by_cases goesOn : b = 44
        · rw [if_pos goesOn] at read ⊢
          exact ih _ _ read
        · rw [if_neg goesOn] at read
          cases read
    | next =>
      rw [List.cons_append]
      rw [unmarshalArray] at read ⊢
      by_cases opens : b = quote
      · rw [if_pos opens] at read ⊢
        exact ih _ _ read
      · rw [if_neg opens] at read
        cases read

theorem unmarshalNames_extends : Extends unmarshalNames := by
  intro xs v rest read ys
  cases xs with
  | nil => cases read
  | cons b xs =>
    rw [List.cons_append]
    rw [unmarshalNames] at read ⊢
    by_cases opens : b = 91
    · rw [if_pos opens] at read ⊢
      exact unmarshalArray_extends _ _ read ys
    · rw [if_neg opens] at read ⊢
      have null : Extends (andThen (token (ascii "null")) (fun _ rest => some (([] : List Name), rest))) := by
        apply (token_extends _).andThen
        intro _ xs v rest read ys
        cases read
        rfl
      exact null read ys

theorem unmarshalFields_extends : Extends unmarshalFields := by
  apply (token_extends _).andThen
  intro _
  apply unmarshalNames_extends.andThen
  intro old
  apply (token_extends _).andThen
  intro _
  apply unmarshalNames_extends.andThen
  intro new
  apply (token_extends _).andThen
  intro _ xs v rest read ys
  cases read
  rfl

theorem unmarshalArray_name {name : Name} (plain : Plain name) (front : Name) (names : List Name) (rest : Bytes) :
    unmarshalArray (.inside front) names (name ++ quote :: rest) =
      unmarshalArray .behind (names ++ [front ++ name]) rest := by
  induction name generalizing front with
  | nil => simp [unmarshalArray]
  | cons b name ih =>
    have head : PlainByte b := plain b (by simp)
    have different : b ≠ quote := head.2.2.1
    rw [List.cons_append, unmarshalArray, if_neg different, if_pos head, ih (fun c member => plain c (by simp [member]))]
    simp

theorem unmarshalArray_more {more : List Name} (plain : ∀ name ∈ more, Plain name) (names : List Name) (rest : Bytes) :
    unmarshalArray .behind names (more.flatMap (fun name => ascii "," ++ marshalName name) ++ 93 :: rest) =
      some (names ++ more, rest) := by
  induction more generalizing names with
  | nil => simp [unmarshalArray]
  | cons name more ih =>
    have step : unmarshalArray .behind names ((name :: more).flatMap (fun name => ascii "," ++ marshalName name) ++
      93 :: rest) =
        unmarshalArray (.inside []) names
          (name ++ quote :: (more.flatMap (fun name => ascii "," ++ marshalName name) ++ 93 :: rest)) := by
      have comma : ascii "," = [44] := by decide
      simp [comma, marshalName, unmarshalArray]
    rw [step, unmarshalArray_name (plain name (by simp)), ih (fun other member => plain other (by simp [member]))]
    simp

theorem unmarshalNames_marshal {names : List Name} (plain : ∀ name ∈ names, Plain name) (rest : Bytes) :
    unmarshalNames (marshalNames names ++ rest) = some (names, rest) := by
  cases names with
  | nil =>
    have null : ascii "null" = [110, 117, 108, 108] := by decide
    simp [marshalNames, null, unmarshalNames, andThen, token]
  | cons name more =>
    have opening : ascii "[" = [91] := by decide
    have closing : ascii "]" = [93] := by decide
    have step : unmarshalNames (marshalNames (name :: more) ++ rest) = unmarshalArray (.inside []) []
        (name ++ quote :: (more.flatMap (fun name => ascii "," ++ marshalName name) ++ 93 :: rest)) := by
      have start : quote ≠ 93 := by decide
      simp [marshalNames, opening, closing, marshalName, unmarshalNames, unmarshalArray, start]
    rw [step, unmarshalArray_name (plain name (by simp)),
      unmarshalArray_more (fun other member => plain other (by simp [member]))]
    simp

theorem unmarshalFields_marshal {m : CompactionManifest} (old : ∀ name ∈ m.old, Plain name)
    (new : ∀ name ∈ m.new, Plain name) : unmarshalFields (marshalManifest m) = some (m, []) := by
  rw [unmarshalFields, marshalManifest, andThen_eq (token_append _ _), andThen_eq (unmarshalNames_marshal old _),
    andThen_eq (token_append _ _), andThen_eq (unmarshalNames_marshal new _)]
  have closing : token (ascii "\x7d") (ascii "\x7d") = some ((), []) := by decide
  rw [andThen_eq closing]

theorem unmarshalManifest_marshal {m : CompactionManifest} (old : ∀ name ∈ m.old, Plain name)
    (new : ∀ name ∈ m.new, Plain name) : unmarshalManifest (marshalManifest m) = some m :=
  complete_eq (unmarshalFields_marshal old new)

example : marshalManifest ⟨[ascii "0.log", ascii "0.index"], []⟩ =
    ascii "\x7b\"old\":[\"0.log\",\"0.index\"],\"new\":null\x7d" := by decide

theorem unmarshalManifest_torn {m : CompactionManifest} (old : ∀ name ∈ m.old, Plain name)
    (new : ∀ name ∈ m.new, Plain name) {front rest : Bytes} (torn : marshalManifest m = front ++ rest)
    (more : rest ≠ []) : unmarshalManifest front = none := by
  apply complete_cut unmarshalFields_extends (v := m) _ more
  rw [← torn]
  exact unmarshalFields_marshal old new

end PocketKafka.Storage
