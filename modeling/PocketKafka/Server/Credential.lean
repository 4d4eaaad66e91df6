import PocketKafka.Lib.Base64
import PocketKafka.Lib.Failure
import PocketKafka.Lib.Text

namespace PocketKafka.Server

open Bytes Text

inductive Mechanism where
  | sha256
  | sha512
  deriving DecidableEq, Repr

def Mechanism.name : Mechanism → Bytes
  | .sha256 => ascii "SCRAM-SHA-256"
  | .sha512 => ascii "SCRAM-SHA-512"

def Mechanism.keySize : Mechanism → Nat
  | .sha256 => 32
  | .sha512 => 64

structure Crypto where
  hash : Mechanism → Bytes → Bytes
  hmacSum : Mechanism → Bytes → Bytes → Bytes
  pbkdf2 : Mechanism → Bytes → Bytes → Int → Nat → Bytes
  hash_length : ∀ m data, (hash m data).length = m.keySize
  hmacSum_length : ∀ m key msg, (hmacSum m key msg).length = m.keySize

def defaultSCRAMIterations : Int := 15000

def maxIterations : Int := 1000000

def passwordMark : Bytes := ascii "pbkdf2-sha256"

def sha512Mark : Bytes := ascii "pbkdf2-sha512"

def scramMark : Bytes := ascii "scram-"

def mechanismByName (name : Bytes) : Option Mechanism :=
  let name := toUpper (trimSpace name)
  if name = ascii "SCRAM-SHA-256" then some .sha256
  else if name = ascii "SCRAM-SHA-512" then some .sha512
  else none

def looksLikeHash (v : Bytes) : Bool :=
  startsWith v (passwordMark ++ ascii "$") || startsWith v (sha512Mark ++ ascii "$") || startsWith v scramMark

def iterationsOf (text : Bytes) : Option Int :=
  (atoi text).filter fun n => decide (1 ≤ n ∧ n ≤ maxIterations)

def nonEmpty (text : Bytes) : Option Bytes := (Base64.decode text).filter fun b => decide (b ≠ [])

def verifyPassword (crypto : Crypto) (stored password : Bytes) : Bool :=
  match stored.splitOn 36 with
  | [mark, iterations, salt, key] =>
    let newHash : Option Mechanism :=
      if mark = passwordMark then some .sha256 else if mark = sha512Mark then some .sha512 else none
    match newHash, iterationsOf iterations, nonEmpty salt, nonEmpty key with
    | some newHash, some iterations, some salt, some want =>
      decide (crypto.pbkdf2 newHash password salt iterations want.length = want)
    | _, _, _, _ => false
  | _ => false

/-- `Matches`: a stored hash is verified, any other text is compared. -/
def passwordMatches (crypto : Crypto) (stored presented : Bytes) : Bool :=
  if looksLikeHash stored then verifyPassword crypto stored presented else decide (stored = presented)

structure Verifier where
  mechanism : Mechanism
  iterations : Int
  salt : Bytes
  storedKey : Bytes
  serverKey : Bytes
  deriving DecidableEq, Repr

def deriveVerifier (crypto : Crypto) (m : Mechanism) (password salt : Bytes) (iterations : Int) : Except String Verifier :=
  let iterations := if iterations ≤ 0 then defaultSCRAMIterations else iterations
  if maxIterations < iterations then
    .error s!"credential: {iterations} iterations exceeds the maximum of {maxIterations}"
  else
    let salted := crypto.pbkdf2 m password salt iterations m.keySize
    let clientKey := crypto.hmacSum m salted (ascii "Client Key")
    .ok ⟨m, iterations, salt, crypto.hash m clientKey, crypto.hmacSum m salted (ascii "Server Key")⟩

def Verifier.signature (crypto : Crypto) (v : Verifier) (key message : Bytes) : Bytes :=
  crypto.hmacSum v.mechanism key message

def keyOf (m : Mechanism) (text : Bytes) : Option Bytes :=
  (Base64.decode text).filter fun key => decide (key.length = m.keySize)

def parseVerifier (s : Bytes) : Except String Verifier :=
  match (trimSpace s).splitOn 36 with
  | [mark, iterations, salt, storedKey, serverKey] =>
    if startsWith mark scramMark then
      match mechanismByName (ascii "SCRAM-" ++ toUpper (mark.drop scramMark.length)) with
      | none => .error "credential: unsupported SCRAM verifier"
      | some m =>
        match iterationsOf iterations, nonEmpty salt, keyOf m storedKey, keyOf m serverKey with
        | none, _, _, _ => .error "credential: invalid SCRAM iteration count"
        | _, none, _, _ => .error "credential: invalid SCRAM salt"
        | _, _, none, _ => .error "credential: invalid SCRAM stored key"
        | _, _, _, none => .error "credential: invalid SCRAM server key"
        | some iterations, some salt, some storedKey, some serverKey =>
          .ok ⟨m, iterations, salt, storedKey, serverKey⟩
    else .error "credential: not a SCRAM verifier"
  | _ => .error "credential: not a SCRAM verifier"

end PocketKafka.Server
