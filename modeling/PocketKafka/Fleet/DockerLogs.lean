import PocketKafka.Lib.Bytes
import PocketKafka.Lib.Failure

namespace PocketKafka.Fleet

open Bytes

def maxFrameSize : Nat := 10 * 2 ^ 20

def isFrameHeader (header : Bytes) : Bool :=
  header.getD 0 0 ≤ 2 && header.getD 1 0 = 0 && header.getD 2 0 = 0 && header.getD 3 0 = 0

/-- The loop, with what is still to be read. The reader ends with `failure`, or with `io.EOF` where there is none. -/
def decodeFrames (failure : Option Failure) (first : Bool) (buf bytes : Bytes) : Bytes × Option Failure :=
  if bytes.length < 8 then
    match failure with
    | none => (buf ++ bytes, none)
    | some f => if first then (buf ++ bytes, none) else (buf, some f)
  else if isFrameHeader (bytes.take 8) = false then (buf ++ bytes, none)
  else
    let frameSize := min (beUint (slice bytes 4 8)) maxFrameSize
    let rest := bytes.drop 8
    if frameSize = 0 then decodeFrames failure false buf rest
    else if rest.length < frameSize then (buf ++ rest, failure)
    else decodeFrames failure false (buf ++ rest.take frameSize) (rest.drop frameSize)
termination_by bytes.length
decreasing_by
  all_goals
    simp only [List.length_drop]
    omega

def decodeDockerMultiplexedStream (bytes : Bytes) (failure : Option Failure) : Bytes × Option Failure :=
  decodeFrames failure true [] bytes

structure DockerFrame where
  stream : Fin 3
  size : UInt32
  payload : Bytes
  sized : payload.length = size.toNat

namespace DockerFrame

def header (f : DockerFrame) : Bytes := UInt8.ofNat f.stream :: 0 :: 0 :: 0 :: putBE 4 f.size.toNat

def encode (f : DockerFrame) : Bytes := f.header ++ f.payload

end DockerFrame

/-- The whole stream gives all payloads, a stream that is cut inside a payload gives them up to the cut. -/
def Demultiplexed (fs : List DockerFrame) : Prop :=
  decodeDockerMultiplexedStream (fs.flatMap DockerFrame.encode) none = (fs.flatMap DockerFrame.payload, none) ∧
    ∀ before f after k, fs = before ++ f :: after → k < f.payload.length →
      decodeDockerMultiplexedStream (before.flatMap DockerFrame.encode ++ (f.header ++ f.payload.take k)) none =
        (before.flatMap DockerFrame.payload ++ f.payload.take k, none)

/-- No frame but the last is larger than the buffer, and the last by less than a header. -/
def Fits : List UInt32 → Prop
  | [] => True
  | [size] => size.toNat < maxFrameSize + 8
  | size :: sizes => size.toNat ≤ maxFrameSize ∧ Fits sizes

namespace DockerFrame

variable (f : DockerFrame) (first : Bool) (buf rest : Bytes)

theorem header_length : f.header.length = 8 := by simp [header]

theorem isFrameHeader_header : isFrameHeader f.header = true := by
  obtain ⟨⟨stream, small⟩, size, payload, sized⟩ := f
  have low : UInt8.ofNat stream ≤ 2 := by
    obtain rfl | rfl | rfl : stream = 0 ∨ stream = 1 ∨ stream = 2 := by omega
    all_goals decide
  simp [isFrameHeader, header, low]

theorem size_header : beUint (slice (f.header ++ rest) 4 8) = f.size.toNat := by
  have field : slice (f.header ++ rest) 4 8 = putBE 4 f.size.toNat := by
    rw [slice_append_left _ _ _ _ f.header_length.ge]
    simp [slice, header]
  have bound := f.size.toNat_lt
  rw [field, beUint_putBE, Nat.mod_eq_of_lt (by omega)]

theorem decode_header :
    decodeFrames none first buf (f.header ++ rest) =
      if rest.length < min f.size.toNat maxFrameSize then (buf ++ rest, none)
      else decodeFrames none false (buf ++ rest.take (min f.size.toNat maxFrameSize))
        (rest.drop (min f.size.toNat maxFrameSize)) := by
  have long : ¬ (f.header ++ rest).length < 8 := by
    rw [List.length_append, f.header_length]
    omega
  have front : (f.header ++ rest).take 8 = f.header := List.take_left' f.header_length
  have behind : (f.header ++ rest).drop 8 = rest := List.drop_left' f.header_length
  rw [decodeFrames, if_neg long, front, isFrameHeader_header, if_neg (by decide)]
  simp only [size_header, behind]
  split
  · rename_i zero
    rw [zero, if_neg (Nat.not_lt_zero _), List.take_zero, List.drop_zero, List.append_nil]
  · rfl

theorem decode_frame (fits : f.size.toNat ≤ maxFrameSize) :
    decodeFrames none first buf (f.encode ++ rest) = decodeFrames none false (buf ++ f.payload) rest := by
  have size : min f.size.toNat maxFrameSize = f.payload.length := by rw [f.sized, Nat.min_eq_left fits]
  rw [encode, List.append_assoc, decode_header, size, if_neg (by rw [List.length_append]; omega), List.take_left,
    List.drop_left]

theorem decode_cut {part : Bytes} (short : part.length < maxFrameSize + 8)
    (cut : part.length ≤ f.size.toNat) : decodeFrames none first buf (f.header ++ part) = (buf ++ part, none) := by
  rw [decode_header]
  split
  · rfl
  · rename_i enough
    rw [decodeFrames, if_pos]
    · rw [List.append_assoc, List.take_append_drop]
    · rw [List.length_drop]
      omega

end DockerFrame

theorem decode_frames {fs : List DockerFrame} (fits : ∀ f ∈ fs, f.size.toNat ≤ maxFrameSize) (first : Bool)
    (buf rest : Bytes) :
    ∃ flag, decodeFrames none first buf (fs.flatMap DockerFrame.encode ++ rest) =
      decodeFrames none flag (buf ++ fs.flatMap DockerFrame.payload) rest := by
  induction fs generalizing first buf with
  | nil => exact ⟨first, by simp⟩
  | cons f fs ih =>
    obtain ⟨flag, later⟩ := ih (fun g member => fits g (List.mem_cons_of_mem _ member)) false (buf ++ f.payload)
    refine ⟨flag, ?_⟩
    rw [List.flatMap_cons, List.append_assoc, f.decode_frame first buf _ (fits f List.mem_cons_self), later,
      List.flatMap_cons,
      List.append_assoc]

theorem decodeFrames_nil (flag : Bool) (buf : Bytes) : decodeFrames none flag buf [] = (buf, none) := by
  rw [decodeFrames, if_pos (by decide), List.append_nil]

theorem fits_cons {size : UInt32} {sizes : List UInt32} (some : sizes ≠ []) :
    Fits (size :: sizes) ↔ size.toNat ≤ maxFrameSize ∧ Fits sizes := by
  obtain ⟨next, later, rfl⟩ := List.exists_cons_of_ne_nil some
  exact Iff.rfl

theorem Fits.split {before : List UInt32} {size : UInt32} {after : List UInt32} (fits : Fits (before ++ size :: after)) :
    (∀ s ∈ before, s.toNat ≤ maxFrameSize) ∧ size.toNat < maxFrameSize + 8 := by
  induction before with
  | nil =>
    refine ⟨nofun, ?_⟩
    cases after with
    | nil => exact fits
    | cons next after =>
      have := fits.1
      omega
  | cons head before ih =>
    obtain ⟨small, rest⟩ := (fits_cons (by simp)).mp fits
    obtain ⟨front, last⟩ := ih rest
    exact ⟨List.forall_mem_cons.mpr ⟨small, front⟩, last⟩

theorem exists_of_not_fits {sizes : List UInt32} (unfit : ¬ Fits sizes) :
    ∃ before size after, sizes = before ++ size :: after ∧ (∀ s ∈ before, s.toNat ≤ maxFrameSize) ∧
      maxFrameSize < size.toNat ∧
      (after ≠ [] ∨ maxFrameSize + 8 ≤ size.toNat) := by
  induction sizes with
  | nil => exact absurd trivial unfit
  | cons size sizes ih =>
    by_cases last : sizes = []
    · subst last
      have large : maxFrameSize + 8 ≤ size.toNat := Nat.le_of_not_lt unfit
      exact ⟨[], size, [], rfl, nofun, by omega, Or.inr large⟩
    · by_cases small : size.toNat ≤ maxFrameSize
      · obtain ⟨before, large, after, rfl, front, rest⟩ := ih fun fits => unfit ((fits_cons last).mpr ⟨small, fits⟩)
        exact ⟨size :: before, large, after, rfl, List.forall_mem_cons.mpr ⟨small, front⟩, rest⟩
      · exact ⟨[], size, sizes, rfl, nofun, Nat.lt_of_not_le small, Or.inl last⟩

theorem demultiplexed_of_fits {fs : List DockerFrame} (fits : Fits (fs.map DockerFrame.size)) : Demultiplexed fs := by
  have parts : ∀ before f after, fs = before ++ f :: after →
      (∀ g ∈ before, g.size.toNat ≤ maxFrameSize) ∧ f.size.toNat < maxFrameSize + 8 := by
    rintro before f after rfl
    rw [List.map_append, List.map_cons] at fits
    obtain ⟨front, last⟩ := fits.split
    exact ⟨fun g member => front _ (List.mem_map_of_mem member), last⟩
  constructor
  · rcases List.eq_nil_or_concat fs with rfl | ⟨before, f, rfl⟩
    · exact decodeFrames_nil true []
    · rw [List.concat_eq_append] at parts ⊢
      obtain ⟨front, last⟩ := parts before f [] rfl
      obtain ⟨flag, passed⟩ := decode_frames front true [] f.encode
      rw [decodeDockerMultiplexedStream, List.flatMap_append, List.flatMap_singleton, passed, DockerFrame.encode,
        f.decode_cut flag _ (f.sized ▸ last) f.sized.le, List.flatMap_append, List.flatMap_singleton]
      rfl
  · intro before f after k whole inside
    obtain ⟨front, last⟩ := parts before f after whole
    obtain ⟨flag, passed⟩ := decode_frames front true [] (f.header ++ f.payload.take k)
    have cut : (f.payload.take k).length ≤ f.size.toNat := by
      rw [List.length_take, f.sized]
      omega
    rw [decodeDockerMultiplexedStream, passed, f.decode_cut flag _ (cut.trans_lt last) cut]
    rfl

theorem length_decodeFrames (failure : Option Failure) (flag : Bool) (buf bytes : Bytes) :
    (decodeFrames failure flag buf bytes).1.length ≤ buf.length + bytes.length := by
  fun_induction decodeFrames failure flag buf bytes with
  | case1 | case2 | case4 => exact List.length_append.le
  | case3 => exact Nat.le_add_right _ _
  | case5 flag buf bytes long header frameSize rest zero ih =>
    have shorter : rest.length ≤ bytes.length := (List.drop_sublist 8 bytes).length_le
    omega
  | case6 flag buf bytes long header frameSize rest some cut =>
    have shorter : rest.length ≤ bytes.length := (List.drop_sublist 8 bytes).length_le
    rw [List.length_append]
    omega
  | case7 flag buf bytes long header frameSize rest some whole ih =>
    have shorter : rest.length ≤ bytes.length := (List.drop_sublist 8 bytes).length_le
    have parts : (rest.take frameSize).length + (rest.drop frameSize).length = rest.length := by
      rw [← List.length_append, List.take_append_drop]
    rw [List.length_append] at ih
    omega

theorem length_encode (fs : List DockerFrame) :
    (fs.flatMap DockerFrame.encode).length = (fs.flatMap DockerFrame.payload).length + 8 * fs.length := by
  induction fs with
  | nil => rfl
  | cons f fs ih =>
    simp only [List.flatMap_cons, List.length_append, List.length_cons, ih, DockerFrame.encode, f.header_length]
    omega

theorem decode_copied {f : DockerFrame} {front tail : Bytes} (payload : f.payload = front ++ 3 :: tail)
    (filled : front.length = maxFrameSize) {after : List DockerFrame} (some : after ≠ []) (flag : Bool) (buf : Bytes) :
    decodeFrames none flag buf (f.encode ++ after.flatMap DockerFrame.encode) =
      (buf ++ f.payload ++ after.flatMap DockerFrame.encode, none) := by
  have size : min f.size.toNat maxFrameSize = front.length := by
    have length := f.sized
    rw [payload, List.length_append, List.length_cons] at length
    omega
  have long : 8 ≤ (after.flatMap DockerFrame.encode).length := by
    have := List.length_pos_iff.mpr some
    rw [length_encode]
    omega
  have other : ∀ x : Bytes, isFrameHeader ((3 :: x).take 8) = false := fun _ => rfl
  rw [DockerFrame.encode, List.append_assoc, f.decode_header, size, payload, List.append_assoc, List.take_left,
    List.drop_left,
    if_neg (by rw [List.length_append]; omega), decodeFrames, if_neg, List.cons_append, other, if_pos rfl]
  · simp
  · rw [List.cons_append, List.length_cons, List.length_append]
    omega

theorem decode_lost {f : DockerFrame} {n : Nat} (payload : f.payload = List.replicate (maxFrameSize + (8 + n)) 0)
    (flag : Bool)
    (buf : Bytes) : (decodeFrames none flag buf f.encode).1.length < buf.length + f.payload.length := by
  have sized : f.size.toNat = maxFrameSize + (8 + n) := by rw [← f.sized, payload, List.length_replicate]
  have size : min f.size.toNat maxFrameSize = maxFrameSize := by omega
  have header : isFrameHeader ((List.replicate (8 + n) (0 : UInt8)).take 8) = true := by
    rw [List.take_replicate, Nat.min_eq_left (Nat.le_add_right 8 n)]
    rfl
  have zero : beUint (slice (List.replicate (8 + n) 0) 4 8) = 0 := by
    rw [slice, List.drop_replicate, List.take_replicate, Nat.min_eq_left (by omega)]
    rfl
  have shorter := length_decodeFrames none false (buf ++ List.replicate maxFrameSize 0) (List.replicate n 0)
  rw [List.length_append, List.length_replicate, List.length_replicate] at shorter
  rw [DockerFrame.encode, f.decode_header, size, payload, List.length_replicate, if_neg (by omega), List.take_replicate,
    Nat.min_eq_left (Nat.le_add_right _ _), List.drop_replicate, Nat.add_sub_cancel_left, decodeFrames,
      List.length_replicate,
    if_neg (by omega), header, if_neg (by decide)]
  simp only [zero, Nat.zero_min, ↓reduceIte, List.drop_replicate, Nat.add_sub_cancel_left]
  omega

def blankFrame (size : UInt32) : DockerFrame := ⟨0, size, List.replicate size.toNat 0, List.length_replicate⟩

def markedFrame (size : UInt32) (large : maxFrameSize < size.toNat) : DockerFrame where
  stream := 1
  size := size
  payload := List.replicate maxFrameSize 0 ++ 3 :: List.replicate (size.toNat - maxFrameSize - 1) 0
  sized := by
    rw [List.length_append, List.length_cons, List.length_replicate, List.length_replicate]
    omega

theorem map_blankFrame (sizes : List UInt32) : (sizes.map blankFrame).map DockerFrame.size = sizes := by
  rw [List.map_map]
  exact List.map_id sizes

theorem blank_small {sizes : List UInt32} (small : ∀ s ∈ sizes, s.toNat ≤ maxFrameSize) :
    ∀ f ∈ sizes.map blankFrame, f.size.toNat ≤ maxFrameSize := by
  intro f member
  obtain ⟨s, listed, rfl⟩ := List.mem_map.mp member
  exact small s listed

theorem not_demultiplexed_marked (before after : List DockerFrame) (small : ∀ f ∈ before, f.size.toNat ≤ maxFrameSize)
    {size : UInt32}
    (large : maxFrameSize < size.toNat) (some : after ≠ []) :
    decodeDockerMultiplexedStream ((before ++ markedFrame size large :: after).flatMap DockerFrame.encode) none =
        ((before ++ [markedFrame size large]).flatMap DockerFrame.payload ++ after.flatMap DockerFrame.encode, none) ∧
      ¬ Demultiplexed (before ++ markedFrame size large :: after) := by
  obtain ⟨flag, passed⟩ := decode_frames small true [] ((markedFrame size large).encode ++ after.flatMap DockerFrame.encode)
  have result : decodeDockerMultiplexedStream ((before ++ markedFrame size large :: after).flatMap DockerFrame.encode) none =
      ((before ++ [markedFrame size large]).flatMap DockerFrame.payload ++ after.flatMap DockerFrame.encode, none) := by
    rw [decodeDockerMultiplexedStream, List.flatMap_append, List.flatMap_cons, passed,
      decode_copied (f := markedFrame size large) rfl List.length_replicate some]
    simp
  refine ⟨result, ?_⟩
  rintro ⟨whole, _⟩
  rw [result] at whole
  have lengths := congrArg (fun r => r.1.length) whole
  have more := List.length_pos_iff.mpr some
  simp only [List.flatMap_append, List.flatMap_cons, List.flatMap_nil, List.length_append, List.length_nil,
    length_encode] at lengths
  omega

/-- The payloads come out whatever they are exactly if the sizes fit. -/
theorem demultiplexed_iff (sizes : List UInt32) :
    (∀ fs : List DockerFrame, fs.map DockerFrame.size = sizes → Demultiplexed fs) ↔ Fits sizes := by
  constructor
  · intro all
    by_contra unfit
    obtain ⟨before, size, after, rfl, small, large, which⟩ := exists_of_not_fits unfit
    by_cases some : after = []
    · subst some
      have room := which.resolve_left (not_not.mpr rfl)
      obtain ⟨whole, _⟩ := all ((before ++ [size]).map blankFrame) (map_blankFrame _)
      obtain ⟨flag, passed⟩ := decode_frames (blank_small small) true [] (blankFrame size).encode
      have total : size.toNat = maxFrameSize + (8 + (size.toNat - maxFrameSize - 8)) := by omega
      have payload : (blankFrame size).payload = List.replicate (maxFrameSize + (8 + (size.toNat - maxFrameSize - 8))) 0 :=
        congrArg (List.replicate · 0) total
      have lost := decode_lost payload flag ([] ++ (before.map blankFrame).flatMap DockerFrame.payload)
      rw [decodeDockerMultiplexedStream, List.map_append, List.map_singleton, List.flatMap_append,
        List.flatMap_singleton, passed,
        List.flatMap_append, List.flatMap_singleton] at whole
      rw [whole, List.length_append, List.nil_append] at lost
      omega
    · have wrong := not_demultiplexed_marked _ (after.map blankFrame) (blank_small small) large (by simpa using some)
      apply wrong.2
      apply all
      rw [List.map_append, List.map_cons, map_blankFrame, map_blankFrame]
      rfl
  · rintro fits fs rfl
    exact demultiplexed_of_fits fits

theorem demultiplexed_iff_lines :
    Demultiplexed [⟨1, 3, ascii "out", rfl⟩, ⟨2, 4, ascii "fail", rfl⟩] ∧
      ∃ fs : List DockerFrame, fs.map DockerFrame.size = [3, 10485761, 2] ∧ ¬ Demultiplexed fs := by
  constructor
  · apply (demultiplexed_iff [3, 4]).mpr _ _ rfl
    exact ⟨by decide, show UInt32.toNat 4 < maxFrameSize + 8 by decide⟩
  · by_contra none
    have fits := (demultiplexed_iff [3, 10485761, 2]).mp fun fs sizes => by_contra fun wrong => none ⟨fs, sizes, wrong⟩
    exact absurd fits.2.1 (by decide)

/-- Behind a frame of one byte more than the buffer the header of the next one is part of the text. -/
theorem header_in_text :
    ∃ f g : DockerFrame, f.payload.length = 10485761 ∧ g.payload = ascii "ok" ∧
      decodeDockerMultiplexedStream ([f, g].flatMap DockerFrame.encode) none = (f.payload ++ (g.header ++ ascii "ok"),
        none) ∧
      ¬ Demultiplexed [f, g] := by
  have large : maxFrameSize < UInt32.toNat 10485761 := by decide
  have wrong := not_demultiplexed_marked [] [⟨1, 2, ascii "ok", rfl⟩] nofun large (by simp)
  refine ⟨markedFrame 10485761 large, ⟨1, 2, ascii "ok", rfl⟩, ?_, rfl, ?_, wrong.2⟩
  · exact (markedFrame 10485761 large).sized.trans (show UInt32.toNat 10485761 = 10485761 by decide)
  · have result := wrong.1
    rw [List.nil_append, List.nil_append, List.flatMap_singleton, List.flatMap_singleton] at result
    exact result

end PocketKafka.Fleet
