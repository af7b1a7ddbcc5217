import Nftables.Frame

/-!
# Frames can be told apart

A stream of frames has one reading.  The header of a message that fits denotes its length
(`number_header`), every four bytes are the header of a length that fits (`header_number`), and so
`decode?` takes exactly one whole frame off a stream (`decode?_eq_some_iff`).  `messages` reads a
stream as frames that follow each other.
-/

namespace Nftables.Frame

/-! ## Headers -/

@[simp] theorem length_header (n : Nat) : (header n).length = 4 := rfl

/-- The header of a length that fits denotes it. -/
theorem number_header {n : Nat} (h : n ≤ maxLength) : number (header n) = n := by
  simp only [maxLength] at h
  simp only [number, header, List.map_cons, List.map_nil, List.foldl_cons, List.foldl_nil,
    UInt8.toNat_ofNat']
  omega

/-- Four bytes denote a length that fits, and are the header of it. -/
theorem header_number {bs : Bytes} (h : bs.length = 4) :
    number bs ≤ maxLength ∧ header (number bs) = bs := by
  obtain ⟨a, b, c, d, rfl⟩ : ∃ a b c d, bs = [a, b, c, d] := by
    match bs, h with
    | [a, b, c, d], _ => exact ⟨a, b, c, d, rfl⟩
  have ha := a.toNat_lt
  have hb := b.toNat_lt
  have hc := c.toNat_lt
  have hd := d.toNat_lt
  simp only [number, header, maxLength, List.foldl_cons, List.foldl_nil, List.map_cons,
    List.map_nil, List.cons.injEq, and_true, ← UInt8.toNat_inj, UInt8.toNat_ofNat']
  omega

/-! ## One message -/

theorem length_frame (p : Bytes) : (frame p).length = 4 + p.length := by
  simp [frame]

/-- A frame at the start of a stream is read, and nothing of what follows it. -/
theorem decode?_frame_append {p : Bytes} (h : p.length ≤ maxLength) (rest : Bytes) :
    decode? (frame p ++ rest) = some (p, rest) := by
  have htake : (frame p ++ rest).take 4 = header p.length := by
    rw [frame, List.append_assoc, List.take_left' (length_header _)]
  have hdrop : (frame p ++ rest).drop 4 = p ++ rest := by
    rw [frame, List.append_assoc, List.drop_left' (length_header _)]
  simp only [decode?, htake, hdrop, number_header h, List.length_append, length_frame]
  rw [if_pos (by omega), List.take_left, List.drop_left]

/-- What is read off a stream is a frame at its start. -/
theorem eq_of_decode? {s p rest : Bytes} (h : decode? s = some (p, rest)) :
    p.length ≤ maxLength ∧ s = frame p ++ rest := by
  simp only [decode?] at h
  split at h
  case isFalse => cases h
  case isTrue hs =>
    obtain ⟨rfl, rfl⟩ : (s.drop 4).take _ = p ∧ (s.drop 4).drop _ = rest := by simpa using h
    have hfour : (s.take 4).length = 4 := by
      rw [List.length_take]
      omega
    obtain ⟨hfit, hheader⟩ := header_number hfour
    have hlen : ((s.drop 4).take (number (s.take 4))).length = number (s.take 4) := by
      rw [List.length_take]
      omega
    refine ⟨by omega, ?_⟩
    rw [frame, hlen, hheader, List.append_assoc, List.take_append_drop, List.take_append_drop]

theorem decode?_eq_some_iff {s p rest : Bytes} :
    decode? s = some (p, rest) ↔ p.length ≤ maxLength ∧ s = frame p ++ rest :=
  ⟨eq_of_decode?, fun ⟨h, e⟩ ↦ e ▸ decode?_frame_append h rest⟩

/-- Reading a message makes a stream shorter. -/
theorem length_lt_of_decode? {s p rest : Bytes} (h : decode? s = some (p, rest)) :
    rest.length < s.length := by
  rw [(eq_of_decode? h).2, List.length_append, length_frame]
  omega

/-! ## Streams of messages -/

/-- The messages of a stream, one after the other, up to the first that is not there to its end. -/
def messages (stream : Bytes) : List Bytes :=
  match _h : decode? stream with
  | some (payload, rest) => payload :: messages rest
  | none => []
termination_by stream.length
decreasing_by exact length_lt_of_decode? _h

theorem messages_frame_append {p : Bytes} (h : p.length ≤ maxLength) (rest : Bytes) :
    messages (frame p ++ rest) = p :: messages rest := by
  rw [messages]
  split
  case h_1 payload rest' hd =>
    rw [decode?_frame_append h] at hd
    cases hd
    rfl
  case h_2 hd =>
    rw [decode?_frame_append h] at hd
    cases hd

/-- The messages whose frames stand at the start of a stream are the first ones of the stream. -/
theorem messages_flatMap_frame_append {ps : List Bytes} (h : ∀ p ∈ ps, p.length ≤ maxLength)
    (rest : Bytes) : messages (ps.flatMap frame ++ rest) = ps ++ messages rest := by
  induction ps with
  | nil => rfl
  | cons p ps ih =>
    rw [List.flatMap_cons, List.append_assoc, messages_frame_append (h p (by simp)),
      ih fun q hq ↦ h q (by simp [hq]), List.cons_append]

/-- The first message of a stream can be taken off it. -/
theorem decode?_of_messages {s p : Bytes} {ps : List Bytes} (h : messages s = p :: ps) :
    ∃ rest, decode? s = some (p, rest) := by
  rw [messages] at h
  split at h
  case h_1 payload rest hd =>
    cases h
    exact ⟨rest, hd⟩
  case h_2 => cases h

end Nftables.Frame
