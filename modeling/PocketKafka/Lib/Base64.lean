import PocketKafka.Lib.Bytes

namespace Base64

open Bytes

def alphabet : Bytes := ascii "ABCDEFGHIJKLMNOPQRSTUVWXYZabcdefghijklmnopqrstuvwxyz0123456789+/"

def pad : UInt8 := 61

def symbol (n : Nat) : UInt8 := alphabet.getD n pad

def value (c : UInt8) : Option Nat := alphabet.findIdx? (· == c)

def encode : Bytes → Bytes
  | a :: b :: c :: rest =>
    symbol (a.toNat / 4) :: symbol (a.toNat % 4 * 16 + b.toNat / 16) :: symbol (b.toNat % 16 * 4 + c.toNat / 64) ::
      symbol (c.toNat % 64) :: encode rest
  | [a, b] => [symbol (a.toNat / 4), symbol (a.toNat % 4 * 16 + b.toNat / 16), symbol (b.toNat % 16 * 4), pad]
  | [a] => [symbol (a.toNat / 4), symbol (a.toNat % 4 * 16), pad, pad]
  | [] => []

def first (a b : Nat) : UInt8 := UInt8.ofNat (a * 4 + b / 16)

def second (b c : Nat) : UInt8 := UInt8.ofNat (b % 16 * 16 + c / 4)

def third (c d : Nat) : UInt8 := UInt8.ofNat (c % 4 * 64 + d)

/-- Padding ends the text; the bits it leaves over are ignored. -/
def decodeQuads : Bytes → Option Bytes
  | [] => some []
  | a :: b :: c :: d :: rest => do
    let a ← value a
    let b ← value b
    if c = pad then
      if d = pad ∧ rest = [] then some [first a b] else none
    else
      let c ← value c
      if d = pad then
        if rest = [] then some [first a b, second b c] else none
      else
        let d ← value d
        let more ← decodeQuads rest
        some (first a b :: second b c :: third c d :: more)
  | _ => none

def decode (text : Bytes) : Option Bytes := decodeQuads (text.filter (fun c => c ≠ 10 ∧ c ≠ 13))

theorem alphabet_eq : alphabet =
    [65, 66, 67, 68, 69, 70, 71, 72, 73, 74, 75, 76, 77, 78, 79, 80, 81, 82, 83, 84, 85, 86, 87, 88, 89, 90,
      97, 98, 99, 100, 101, 102, 103, 104, 105, 106, 107, 108, 109, 110, 111, 112, 113, 114, 115, 116, 117, 118, 119,
        120, 121, 122,
      48, 49, 50, 51, 52, 53, 54, 55, 56, 57, 43, 47] := ascii_ofList _

theorem value_symbol : ∀ n < 64, value (symbol n) = some n := by
  unfold value symbol
  rw [alphabet_eq]
  decide +kernel

def IsText (c : UInt8) : Prop := c ∈ alphabet ∨ c = pad

theorem symbol_isText (n : Nat) : IsText (symbol n) := by
  unfold symbol
  by_cases inside : n < alphabet.length
  · rw [List.getD_eq_getElem _ _ inside]
    exact Or.inl (List.getElem_mem inside)
  · rw [List.getD_eq_default _ _ (Nat.le_of_not_lt inside)]
    exact Or.inr rfl

theorem symbol_ne_pad : ∀ n < 64, symbol n ≠ pad := by
  unfold symbol
  rw [alphabet_eq]
  decide +kernel

theorem encode_isText (data : Bytes) : ∀ c ∈ encode data, IsText c := by
  have last : IsText pad := Or.inr rfl
  fun_induction encode data with
  | case1 a b c rest ih => simpa [symbol_isText] using ih
  | case2 a b => simp [symbol_isText, last]
  | case3 a => simp [symbol_isText, last]
  | case4 => simp

theorem isText_plain {c : UInt8} (text : IsText c) : c ≠ 10 ∧ c ≠ 13 ∧ c ≠ 44 := by
  have plain : (pad :: alphabet).all (fun c => c ≠ 10 ∧ c ≠ 13 ∧ c ≠ 44) = true := by
    rw [alphabet_eq]
    decide +kernel
  apply of_decide_eq_true
  apply List.all_eq_true.mp plain
  rw [List.mem_cons]
  exact text.symm

theorem first_eq (a : UInt8) {r : Nat} (small : r < 16) : first (a.toNat / 4) (a.toNat % 4 * 16 + r) = a := by
  have whole : a.toNat / 4 * 4 + (a.toNat % 4 * 16 + r) / 16 = a.toNat := by omega
  rw [first, whole, UInt8.ofNat_toNat]

theorem second_eq (q : Nat) (b : UInt8) {r : Nat} (small : r < 4) :
    second (q * 16 + b.toNat / 16) (b.toNat % 16 * 4 + r) = b := by
  have bound := b.toNat_lt
  have whole : (q * 16 + b.toNat / 16) % 16 * 16 + (b.toNat % 16 * 4 + r) / 4 = b.toNat := by omega
  rw [second, whole, UInt8.ofNat_toNat]

theorem third_eq (q : Nat) (c : UInt8) : third (q * 4 + c.toNat / 64) (c.toNat % 64) = c := by
  have bound := c.toNat_lt
  have whole : (q * 4 + c.toNat / 64) % 4 * 64 + c.toNat % 64 = c.toNat := by omega
  rw [third, whole, UInt8.ofNat_toNat]

theorem decodeQuads_encode (data : Bytes) : decodeQuads (encode data) = some data := by
  fun_induction encode data with
  | case1 a b c rest ih =>
    have la := a.toNat_lt
    have lb := b.toNat_lt
    have lc := c.toNat_lt
    rw [decodeQuads, value_symbol _ (by omega), value_symbol _ (by omega)]
    simp only [Option.bind_eq_bind, Option.bind_some]
    rw [if_neg (symbol_ne_pad _ (by omega)), value_symbol _ (by omega), Option.bind_some,
      if_neg (symbol_ne_pad _ (by omega)), value_symbol _ (by omega), Option.bind_some, ih, Option.bind_some,
      first_eq a (by omega), second_eq _ b (by omega), third_eq]
  | case2 a b =>
    have la := a.toNat_lt
    have lb := b.toNat_lt
    have exact_second := second_eq (a.toNat % 4) b (r := 0) (by omega)
    rw [Nat.add_zero] at exact_second
    rw [decodeQuads, value_symbol _ (by omega), value_symbol _ (by omega)]
    simp only [Option.bind_eq_bind, Option.bind_some]
    rw [if_neg (symbol_ne_pad _ (by omega)), value_symbol _ (by omega), Option.bind_some, if_pos trivial,
      if_pos trivial, first_eq a (by omega), exact_second]
  | case3 a =>
    have la := a.toNat_lt
    have exact_first := first_eq a (r := 0) (by omega)
    rw [Nat.add_zero] at exact_first
    rw [decodeQuads, value_symbol _ (by omega), value_symbol _ (by omega)]
    simp only [Option.bind_eq_bind, Option.bind_some]
    rw [if_pos trivial, if_pos ⟨trivial, trivial⟩, exact_first]
  | case4 => rfl

theorem decode_encode (data : Bytes) : decode (encode data) = some data := by
  have kept : (encode data).filter (fun c => c ≠ 10 ∧ c ≠ 13) = encode data := by
    apply List.filter_eq_self.mpr
    intro c member
    obtain ⟨lf, cr, _⟩ := isText_plain (encode_isText data c member)
    exact decide_eq_true ⟨lf, cr⟩
  rw [decode, kept, decodeQuads_encode]

theorem encode_length (data : Bytes) : (encode data).length = 4 * ((data.length + 2) / 3) := by
  fun_induction encode data with
  | case1 a b c rest ih =>
    simp only [List.length_cons, ih]
    omega
  | case2 a b => simp
  | case3 a => simp
  | case4 => simp

end Base64
