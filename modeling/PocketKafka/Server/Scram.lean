import PocketKafka.Server.Credential

namespace PocketKafka.Server

open Bytes Text

structure ScramSession where
  mech : Mechanism
  verifier : Verifier
  clientNonce : Bytes
  serverNonce : Bytes
  authMessage : Bytes
  deriving DecidableEq, Repr

def scramBare (clientFirst : Bytes) : Bytes :=
  match index (ascii ",,") clientFirst with
  | some i => clientFirst.drop (i + 2)
  | none =>
    match index (ascii ",a=") clientFirst with
    | none => clientFirst
    | some i =>
      match index (ascii ",") (clientFirst.drop (i + 3)) with
      | none => clientFirst
      | some next => clientFirst.drop (i + 3 + next + 1)

def valueOf (name clientFirst : Bytes) : Bytes :=
  (((scramBare clientFirst).splitOn 44).find? (fun part => startsWith part name)).elim [] (List.drop name.length)

def scramNonce (clientFirst : Bytes) : Bytes := valueOf (ascii "r=") clientFirst

def unescapeSCRAMName : Bytes → Bytes
  | 61 :: a :: b :: rest =>
    if [a, b] = ascii "2C" then 44 :: unescapeSCRAMName rest
    else if [a, b] = ascii "3D" then 61 :: unescapeSCRAMName rest
    else 61 :: unescapeSCRAMName (a :: b :: rest)
  | c :: rest => c :: unescapeSCRAMName rest
  | [] => []

def scramUsername (clientFirst : Bytes) : Bytes := unescapeSCRAMName (valueOf (ascii "n=") clientFirst)

/-- The nonce is what `randomNonce` returned, `none` if it failed. -/
def newScramSession (m : Mechanism) (v : Verifier) (clientFirst : Bytes) (nonce : Option Bytes) :
    Except String (ScramSession × Bytes) :=
  let clientNonce := scramNonce clientFirst
  if clientNonce = [] then .error "missing client nonce"
  else
    match nonce with
    | none => .error "crypto/rand"
    | some serverNonce =>
      let serverFirst := ascii "r=" ++ (clientNonce ++ serverNonce) ++ ascii ",s=" ++ Base64.encode v.salt ++
        ascii ",i=" ++ ascii (toString v.iterations)
      .ok (⟨m, v, clientNonce, serverNonce, scramBare clientFirst ++ ascii "," ++ serverFirst ++ ascii ","⟩, serverFirst)

/-- The proof and the nonce of a client-final message: the last attribute of each name counts. -/
def finalAttributes (clientFinal : Bytes) : Bytes × Bytes :=
  (clientFinal.splitOn 44).foldl (fun (proof, nonce) part =>
    if startsWith part (ascii "p=") then (part.drop 2, nonce)
    else if startsWith part (ascii "r=") then (proof, part.drop 2)
    else (proof, nonce)) ([], [])

def xor (a b : Bytes) : Bytes := List.zipWith (· ^^^ ·) a b

def ScramSession.clientKey (crypto : Crypto) (s : ScramSession) (withoutProof proof : Bytes) : Bytes :=
  xor proof (s.verifier.signature crypto s.verifier.storedKey (s.authMessage ++ withoutProof))

def ScramSession.finish (crypto : Crypto) (s : ScramSession) (clientFinal : Bytes) : Except Failure Bytes :=
  if (clientFinal.splitOn 44).length < 3 then .error (.error "malformed client-final-message")
  else
    let (proofB64, fullNonce) := finalAttributes clientFinal
    if proofB64 = [] then .error (.error "missing client proof")
    else if fullNonce ≠ s.clientNonce ++ s.serverNonce then .error (.error "nonce mismatch")
    else
      match lastIndex (ascii ",p=") clientFinal with
      | none => .error (.error "malformed client-final-message")
      | some idx =>
        let authMessage := s.authMessage ++ clientFinal.take idx
        let clientSignature := s.verifier.signature crypto s.verifier.storedKey authMessage
        match Base64.decode proofB64 with
        | none => .error (.error "bad proof encoding")
        | some clientProof =>
          if clientProof.length ≠ s.mech.keySize then .error (.error "proof size mismatch")
          else if clientSignature.length < clientProof.length then .error (.panic "index out of range")
          else if crypto.hash s.mech (s.clientKey crypto (clientFinal.take idx) clientProof) ≠ s.verifier.storedKey then
            .error (.error "authentication failed")
          else
            let serverSignature := s.verifier.signature crypto s.verifier.serverKey authMessage
            .ok (ascii "v=" ++ Base64.encode serverSignature)

/-- The message carries a proof of the exchange by the client key of the verifier. -/
def ScramSession.ProvenBy (crypto : Crypto) (s : ScramSession) (clientFinal : Bytes) : Prop :=
  (finalAttributes clientFinal).2 = s.clientNonce ++ s.serverNonce ∧
  ∃ idx proof, lastIndex (ascii ",p=") clientFinal = some idx ∧
    Base64.decode (finalAttributes clientFinal).1 = some proof ∧ proof.length = s.mech.keySize ∧
    crypto.hash s.mech (s.clientKey crypto (clientFinal.take idx) proof) = s.verifier.storedKey

instance (crypto : Crypto) (s : ScramSession) (clientFinal : Bytes) : Decidable (s.ProvenBy crypto clientFinal) :=
  decidable_of_iff
    ((finalAttributes clientFinal).2 = s.clientNonce ++ s.serverNonce ∧
      ∃ idx ∈ lastIndex (ascii ",p=") clientFinal, ∃ proof ∈ Base64.decode (finalAttributes clientFinal).1,
        proof.length = s.mech.keySize ∧
        crypto.hash s.mech (s.clientKey crypto (clientFinal.take idx) proof) = s.verifier.storedKey)
    (by simp [ScramSession.ProvenBy])

theorem ScramSession.finish_ok {crypto : Crypto} {s : ScramSession} {clientFinal out : Bytes}
    (done : s.finish crypto clientFinal = .ok out) : s.ProvenBy crypto clientFinal := by
  simp only [finish] at done
  split at done
  · cases done
  split at done
  · cases done
  split at done
  · cases done
  rename_i nonce
  split at done
  · cases done
  rename_i idx found
  split at done
  · cases done
  rename_i proof decoded
  split at done
  · cases done
  rename_i size
  split at done
  · cases done
  split at done
  · cases done
  rename_i proven
  exact ⟨not_not.mp nonce, idx, proof, found, decoded, not_not.mp size, not_not.mp proven⟩

theorem newScramSession_ok {m : Mechanism} {v : Verifier} {clientFirst serverFirst : Bytes} {nonce : Option Bytes}
    {s : ScramSession} (done : newScramSession m v clientFirst nonce = .ok (s, serverFirst)) :
    s.mech = m ∧ s.verifier = v := by
  simp only [newScramSession] at done
  split at done
  · cases done
  split at done
  · cases done
  · cases done
    exact ⟨rfl, rfl⟩

theorem exists_newScramSession (m : Mechanism) (v : Verifier) {clientFirst : Bytes} (nonce : Bytes)
    (given : scramNonce clientFirst ≠ []) :
    ∃ s serverFirst, newScramSession m v clientFirst (some nonce) = .ok (s, serverFirst) ∧
      s.mech = m ∧ s.verifier = v ∧ s.clientNonce = scramNonce clientFirst ∧ s.serverNonce = nonce := by
  simp only [newScramSession, if_neg given]
  exact ⟨_, _, rfl, rfl, rfl, rfl, rfl⟩

theorem xor_xor {a b : Bytes} (size : a.length ≤ b.length) : xor (xor a b) b = a := by
  induction a generalizing b with
  | nil => rfl
  | cons x a ih =>
    cases b with
    | nil => cases size
    | cons y b =>
      show (x ^^^ y ^^^ y) :: xor (xor a b) b = x :: a
      rw [ih (Nat.le_of_succ_le_succ size), UInt8.xor_assoc, UInt8.xor_self, UInt8.xor_zero]

theorem xor_length (a b : Bytes) : (xor a b).length = min a.length b.length := List.length_zipWith

namespace ScramSession

def withoutProof (s : ScramSession) : Bytes := ascii "c=biws" ++ 44 :: (ascii "r=" ++ (s.clientNonce ++ s.serverNonce))

def proof (crypto : Crypto) (s : ScramSession) (key : Bytes) : Bytes :=
  xor key (s.verifier.signature crypto s.verifier.storedKey (s.authMessage ++ s.withoutProof))

def clientFinal (crypto : Crypto) (s : ScramSession) (key : Bytes) : Bytes :=
  s.withoutProof ++ 44 :: (ascii "p=" ++ Base64.encode (s.proof crypto key))

variable {crypto : Crypto} {s : ScramSession} {key : Bytes}

theorem proof_plain (data : Bytes) : 44 ∉ ascii "p=" ++ Base64.encode data := by
  rw [List.mem_append, not_or]
  refine ⟨by decide, ?_⟩
  intro member
  exact (Base64.isText_plain (Base64.encode_isText data 44 member)).2.2 rfl

theorem splitOn_proof (front data : Bytes) :
    (front ++ 44 :: (ascii "p=" ++ Base64.encode data)).splitOn 44 =
      front.splitOn 44 ++ [ascii "p=" ++ Base64.encode data] := by
  rw [← List.splitOn_eq_singleton (proof_plain data)]
  simp only [List.splitOn_eq_splitOnP]
  exact List.splitOnP_append_cons front _ (by simp)

theorem finalAttributes_proof (front data : Bytes) :
    finalAttributes (front ++ 44 :: (ascii "p=" ++ Base64.encode data)) =
      (Base64.encode data, (finalAttributes front).2) := by
  rw [finalAttributes, splitOn_proof, List.foldl_append]
  rfl

theorem withoutProof_parts (plain : 44 ∉ s.clientNonce ++ s.serverNonce) :
    s.withoutProof.splitOn 44 = [ascii "c=biws", ascii "r=" ++ (s.clientNonce ++ s.serverNonce)] := by
  have first : 44 ∉ ascii "c=biws" := by decide
  have second : 44 ∉ ascii "r=" ++ (s.clientNonce ++ s.serverNonce) := by
    rw [List.mem_append, not_or]
    exact ⟨by decide, plain⟩
  rw [withoutProof, List.splitOn_append_cons_self_of_not_mem first, List.splitOn_eq_singleton second]

theorem signature_length (mech : s.verifier.mechanism = s.mech) (key message : Bytes) :
    (s.verifier.signature crypto key message).length = s.mech.keySize := by
  rw [Verifier.signature, crypto.hmacSum_length, mech]

theorem proof_length (mech : s.verifier.mechanism = s.mech) (size : key.length = s.mech.keySize) :
    (s.proof crypto key).length = s.mech.keySize := by
  rw [proof, xor_length, signature_length mech, size, Nat.min_self]

theorem finish_proof (mech : s.verifier.mechanism = s.mech) (size : key.length = s.mech.keySize)
    (stored : crypto.hash s.mech key = s.verifier.storedKey) {front : Bytes}
    (parts : 2 ≤ (front.splitOn 44).length) (nonce : (finalAttributes front).2 = s.clientNonce ++ s.serverNonce) :
    s.finish crypto (front ++ 44 :: (ascii "p=" ++ Base64.encode
        (xor key (s.verifier.signature crypto s.verifier.storedKey (s.authMessage ++ front))))) =
      .ok (ascii "v=" ++ Base64.encode (s.verifier.signature crypto s.verifier.serverKey (s.authMessage ++ front))) := by
  have signed : (s.verifier.signature crypto s.verifier.storedKey (s.authMessage ++ front)).length = s.mech.keySize :=
    signature_length mech _ _
  have recovered : s.clientKey crypto front (xor key (s.verifier.signature crypto s.verifier.storedKey
      (s.authMessage ++ front))) = key := xor_xor (by rw [signed, size])
  have proofSize : (xor key (s.verifier.signature crypto s.verifier.storedKey (s.authMessage ++ front))).length =
      s.mech.keySize := by rw [xor_length, signed, size, Nat.min_self]
  generalize xor key (s.verifier.signature crypto s.verifier.storedKey (s.authMessage ++ front)) = proof
    at recovered proofSize
  have positive : 0 < s.mech.keySize := by cases s.mech <;> decide
  have shown : Base64.encode proof ≠ [] := by
    apply List.ne_nil_of_length_pos
    rw [Base64.encode_length]
    omega
  have found : lastIndex (ascii ",p=") (front ++ 44 :: (ascii "p=" ++ Base64.encode proof)) = some front.length :=
    lastIndex_append front _ (proof_plain _)
  have counted : ¬ (front.splitOn 44 ++ [ascii "p=" ++ Base64.encode proof]).length < 3 := by
    rw [List.length_append, List.length_singleton]
    omega
  simp only [finish, splitOn_proof, finalAttributes_proof, found, List.take_left, Base64.decode_encode, recovered]
  rw [if_neg counted, if_neg shown, if_neg (not_not.mpr nonce), if_neg (not_not.mpr proofSize),
    if_neg (by rw [signed, proofSize]; exact Nat.lt_irrefl _), if_neg (not_not.mpr stored)]

theorem finish_clientFinal (mech : s.verifier.mechanism = s.mech) (size : key.length = s.mech.keySize)
    (stored : crypto.hash s.mech key = s.verifier.storedKey) (plain : 44 ∉ s.clientNonce ++ s.serverNonce) :
    ∃ out, s.finish crypto (s.clientFinal crypto key) = .ok out := by
  refine ⟨_, finish_proof mech size stored ?_ ?_⟩
  · rw [withoutProof_parts plain]
    exact le_refl 2
  · rw [finalAttributes, withoutProof_parts plain]
    rfl

end ScramSession

end PocketKafka.Server
