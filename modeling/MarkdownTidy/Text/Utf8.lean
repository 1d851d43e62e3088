namespace MarkdownTidy.Utf8

/-- Where the longest start of valid UTF-8 ends that includes the bytes before `offset`. -/
def validEndFrom (bytes : ByteArray) (offset : Nat) : Nat :=
  if _ : offset < bytes.size then
    match bytes.utf8DecodeChar? offset with
    | some c => validEndFrom bytes (offset + c.utf8Size)
    | none => offset
  else offset
termination_by bytes.size - offset
decreasing_by
  have := c.utf8Size_pos
  omega

/-- The number of bytes before the first that cannot be read as UTF-8. A character that is cut
off counts from its first byte. -/
def validEnd (bytes : ByteArray) : Nat :=
  validEndFrom bytes 0

def isContinuation (byte : UInt8) : Bool :=
  0x80 ≤ byte && byte ≤ 0xbf

/-- Whether a character of three bytes or four can start with these two. -/
def canStart (first second : UInt8) : Bool :=
  if first = 0xe0 then 0xa0 ≤ second && second ≤ 0xbf
  else if first = 0xed then 0x80 ≤ second && second ≤ 0x9f
  else if first = 0xf0 then 0x90 ≤ second && second ≤ 0xbf
  else if first = 0xf4 then 0x80 ≤ second && second ≤ 0x8f
  else 0xe1 ≤ first && first ≤ 0xf3 && isContinuation second

/-- How many bytes belong together where no character can be read: the start of one that breaks
off, or else a single byte. -/
def brokenLength : List UInt8 → Nat
  | first :: second :: rest =>
    if canStart first second then
      if 0xf0 ≤ first && rest.head?.any isContinuation then 3 else 2
    else 1
  | _ => 1

theorem brokenLength_pos (bytes : List UInt8) : 0 < brokenLength bytes := by
  unfold brokenLength
  split
  · split
    · split <;> decide
    · decide
  · decide

/-- Reads bytes as UTF-8. Where no character can be read, a replacement character stands for the
bytes that belong together. -/
def lossy : List UInt8 → List Char
  | [] => []
  | byte :: rest =>
    match (byte :: rest).toByteArray.utf8DecodeChar? 0 with
    | some c => c :: lossy ((byte :: rest).drop c.utf8Size)
    | none => '\ufffd' :: lossy ((byte :: rest).drop (brokenLength (byte :: rest)))
termination_by bytes => bytes.length
decreasing_by
  · have := c.utf8Size_pos
    simp only [List.length_drop, List.length_cons]
    omega
  · have := brokenLength_pos (byte :: rest)
    simp only [List.length_drop, List.length_cons]
    omega

/-- What is valid UTF-8 is read as it is. -/
theorem lossy_utf8EncodeChar (chars : List Char) :
    lossy (chars.flatMap String.utf8EncodeChar) = chars := by
  induction chars with
  | nil => rw [List.flatMap_nil, lossy]
  | cons c rest ih =>
    have read : ((c :: rest).flatMap String.utf8EncodeChar).toByteArray.utf8DecodeChar? 0 = some c :=
      List.utf8DecodeChar?_utf8Encode_cons
    have behind : ((c :: rest).flatMap String.utf8EncodeChar).drop c.utf8Size =
        rest.flatMap String.utf8EncodeChar := by
      rw [List.flatMap_cons, ← String.length_utf8EncodeChar, List.drop_left]
    obtain ⟨byte, others, bytes⟩ : ∃ byte others,
        (c :: rest).flatMap String.utf8EncodeChar = byte :: others := by
      refine List.exists_cons_of_ne_nil fun none => ?_
      rw [none] at read
      contradiction
    rw [bytes] at read behind ⊢
    rw [lossy, read]
    dsimp only
    rw [behind, ih]

end MarkdownTidy.Utf8
