import PocketKafka.Protocol.Requests
import PocketKafka.Protocol.Responses

namespace PocketKafka.Protocol

open Bytes Writer Decoder

def encodeSASLHandshakeRequest (req : SASLHandshakeRequest) : Writer := [.string req.mechanism]

def encodeSaslAuthenticateRequest (req : SaslAuthenticateRequest) : Writer := [.bytes req.authBytes]

theorem Decoder.Recovers.decode {α : Type} {d : Decoder α} {w : Writer} {v : α} (h : Recovers d w v) (typed : w.InRange) :
    Protocol.decode d w.bytes = .ok v := by
  have read := h typed [] []
  rw [List.append_nil, List.nil_append, List.length_nil, Nat.zero_add] at read
  rw [Protocol.decode, read]
  rfl

end PocketKafka.Protocol
