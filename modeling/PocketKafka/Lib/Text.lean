import PocketKafka.Lib.Decimal

namespace Text

open Bytes

def startsWith (s front : Bytes) : Bool := front.isPrefixOf s

def index (sep : Bytes) : Bytes → Option Nat
  | [] => if sep = [] then some 0 else none
  | c :: rest => if startsWith (c :: rest) sep then some 0 else (index sep rest).map (· + 1)

def lastIndex (sep : Bytes) : Bytes → Option Nat
  | [] => if sep = [] then some 0 else none
  | c :: rest =>
    match lastIndex sep rest with
    | some i => some (i + 1)
    | none => if startsWith (c :: rest) sep then some 0 else none

def splitN (c : UInt8) : Nat → Bytes → List Bytes
  | n + 2, s =>
    match index [c] s with
    | none => [s]
    | some i => s.take i :: splitN c (n + 1) (s.drop (i + 1))
  | _, s => [s]

/-- The characters that count as white space, as they are encoded. -/
def spaces : List Bytes :=
  [[9], [10], [11], [12], [13], [32], [0xc2, 0x85], [0xc2, 0xa0], [0xe1, 0x9a, 0x80], [0xe2, 0x80, 0x80],
    [0xe2, 0x80, 0x81], [0xe2, 0x80, 0x82], [0xe2, 0x80, 0x83], [0xe2, 0x80, 0x84], [0xe2, 0x80, 0x85],
    [0xe2, 0x80, 0x86], [0xe2, 0x80, 0x87], [0xe2, 0x80, 0x88], [0xe2, 0x80, 0x89], [0xe2, 0x80, 0x8a],
    [0xe2, 0x80, 0xa8], [0xe2, 0x80, 0xa9], [0xe2, 0x80, 0xaf], [0xe2, 0x81, 0x9f], [0xe3, 0x80, 0x80]]

/-- `fuel` bounds the number of characters that are taken away. -/
def trimLeft (among : List Bytes) : Nat → Bytes → Bytes
  | 0, s => s
  | fuel + 1, s =>
    match among.find? (startsWith s) with
    | none => s
    | some space => trimLeft among fuel (s.drop space.length)

def trimSpace (s : Bytes) : Bytes :=
  let s := trimLeft spaces s.length s
  (trimLeft (spaces.map List.reverse) s.length s.reverse).reverse

/-- The letters that have an ASCII letter as their upper case. The other characters are never compared with one. -/
def toUpper : Bytes → Bytes
  | 0xc5 :: 0xbf :: rest => 83 :: toUpper rest
  | 0xc4 :: 0xb1 :: rest => 73 :: toUpper rest
  | c :: rest => (if 97 ≤ c ∧ c ≤ 122 then c - 32 else c) :: toUpper rest
  | [] => []

def toLower : Bytes → Bytes
  | 0xc4 :: 0xb0 :: rest => 105 :: toLower rest
  | 0xe2 :: 0x84 :: 0xaa :: rest => 107 :: toLower rest
  | c :: rest => (if 65 ≤ c ∧ c ≤ 90 then c + 32 else c) :: toLower rest
  | [] => []

def foldCase : Bytes → Bytes
  | 0xc5 :: 0xbf :: rest => 115 :: foldCase rest
  | 0xe2 :: 0x84 :: 0xaa :: rest => 107 :: foldCase rest
  | c :: rest => (if 65 ≤ c ∧ c ≤ 90 then c + 32 else c) :: foldCase rest
  | [] => []

def equalFold (s t : Bytes) : Bool := foldCase s = foldCase t

def atoi (s : Bytes) : Option Int :=
  let (negative, digits) :=
    match s with
    | 45 :: rest => (true, rest)
    | 43 :: rest => (false, rest)
    | _ => (false, s)
  if digits = [] then none
  else
    (undecimal digits).bind fun n =>
      let v : Int := if negative then -n else n
      if v < -9223372036854775808 ∨ 9223372036854775807 < v then none else some v

theorem lastIndex_eq_none {c : UInt8} (more : Bytes) {s : Bytes} (absent : c ∉ s) : lastIndex (c :: more) s = none := by
  induction s with
  | nil => rfl
  | cons head tail ih =>
    have differs : c ≠ head := fun same => absent (same ▸ List.mem_cons_self)
    have rest := ih fun member => absent (List.mem_cons_of_mem _ member)
    simp [lastIndex, rest, startsWith, differs]

theorem lastIndex_append {c : UInt8} {more : Bytes} (front tail : Bytes) (absent : c ∉ more ++ tail) :
    lastIndex (c :: more) (front ++ (c :: more ++ tail)) = some front.length := by
  induction front with
  | nil =>
    have rest := lastIndex_eq_none more absent
    have here : startsWith (c :: (more ++ tail)) (c :: more) = true := by
      rw [startsWith, List.isPrefixOf_iff_prefix]
      exact ⟨tail, rfl⟩
    simp only [List.nil_append, List.cons_append, lastIndex, rest, here]
    rfl
  | cons head front ih => simp only [List.cons_append, lastIndex] at ih ⊢; rw [ih]; rfl

end Text
