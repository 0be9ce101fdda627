import PyTune.Proofs.LexicalFaults

/-!
# Lines and columns count bytes

The line of an offset is one more than the line feeds below it, and the column counts bytes from
the last of them (`Source.lineCol_eq`); the column is a 64-bit word and wraps at the largest
offset (`Source.lineCol_col_wraps`).
-/

namespace PyTune

open String (utf8Len)

namespace Source

/-- The number of line feed bytes of `src` at offsets below `n`. -/
def newlinesBelow (src : String) : Nat → Nat
  | 0 => 0
  | i + 1 => newlinesBelow src i + if byteAt? src i = some 10 then 1 else 0

/-- One past the offset of the last line feed byte of `src` below `n`, or `0` if there is none:
where the line that holds offset `n` starts. -/
def lineStartBelow (src : String) : Nat → Nat
  | 0 => 0
  | i + 1 => if byteAt? src i = some 10 then i + 1 else lineStartBelow src i

/-! ### The bytes of a text -/

theorem length_flatMap_utf8EncodeChar (cs : List Char) :
    (cs.flatMap String.utf8EncodeChar).length = utf8Len cs := by
  induction cs with
  | nil => rfl
  | cons c cs ih => simp [ih, Nat.add_comm]

/-- The bytes of a text are the encodings of its characters, one after another. -/
theorem byteAt?_eq_getElem? (src : String) (i : Nat) :
    byteAt? src i = (src.toList.flatMap String.utf8EncodeChar)[i]? := by
  have bytes : src.toByteArray = (src.toList.flatMap String.utf8EncodeChar).toByteArray := by
    rw [← String.utf8Encode_toList]
    rfl
  have size : src.utf8ByteSize = (src.toList.flatMap String.utf8EncodeChar).length := by
    rw [← String.size_toByteArray, bytes, List.size_toByteArray]
  unfold byteAt?
  split
  · next h =>
    rw [List.getElem?_eq_getElem (size ▸ h)]
    simp [String.getUTF8Byte, bytes, List.getElem_toByteArray]
  · next h =>
    rw [List.getElem?_eq_none (by omega)]

theorem byteAt?_of_size_le {src : String} {i : Nat} (h : src.utf8ByteSize ≤ i) :
    byteAt? src i = none := by
  simp [byteAt?, Nat.not_lt.2 h]

/-- The bytes of a character of the text, from the offset where it starts. -/
theorem byteAt?_char {src : String} {pre post : List Char} {c : Char}
    (h : src.toList = pre ++ c :: post) {j : Nat} (hj : j < c.utf8Size) :
    byteAt? src (utf8Len pre + j) = (String.utf8EncodeChar c)[j]? := by
  have before : (pre.flatMap String.utf8EncodeChar).length ≤ utf8Len pre + j := by
    rw [length_flatMap_utf8EncodeChar]
    omega
  rw [byteAt?_eq_getElem?, h, List.flatMap_append, List.flatMap_cons,
    List.getElem?_append_right before, length_flatMap_utf8EncodeChar, Nat.add_sub_cancel_left,
    List.getElem?_append_left (by simpa using hj)]

/-- The first byte of a character's encoding is a line feed exactly for the line feed. -/
theorem utf8EncodeChar_head_eq_newline (c : Char) :
    (String.utf8EncodeChar c)[0]? = some 10 ↔ c = '\n' := by
  constructor
  · intro h
    have wrap : ∀ n : Nat, UInt8.ofNat n = 10 → n % 256 = 10 := fun n e => by
      simpa using congrArg UInt8.toNat e
    simp only [String.utf8EncodeChar] at h
    -- one case per length of the encoding; only the one-byte case can start with a line feed
    repeat' split at h
    all_goals simp only [List.getElem?_cons_zero, Option.some.injEq] at h
    all_goals have := wrap _ h
    · apply Char.ext
      apply UInt32.toNat_inj.mp
      rw [show '\n'.val.toNat = 10 from rfl]
      omega
    all_goals omega
  · rintro rfl
    rfl

/-- No byte of a character's encoding after its first is a line feed: those are continuation
bytes, and a line feed is a byte that starts a character. -/
theorem utf8EncodeChar_tail_ne_newline (c : Char) {j : Nat} (hj : 0 < j) :
    (String.utf8EncodeChar c)[j]? ≠ some 10 := by
  intro h
  obtain ⟨lt, byte⟩ := List.getElem?_eq_some_iff.1 h
  have first : (String.utf8EncodeChar c)[j].IsUTF8FirstByte := by
    rw [byte]
    decide
  exact absurd (UInt8.isUTF8FirstByte_getElem_utf8EncodeChar.1 first) (Nat.pos_iff_ne_zero.1 hj)

/-! ### Counting line feeds below an offset -/

/-- Bytes that are not line feeds change neither the count of line feeds nor the start of the
line. -/
theorem counts_of_no_newline (src : String) {a b : Nat} (hab : a ≤ b)
    (h : ∀ j, a ≤ j → j < b → byteAt? src j ≠ some 10) :
    newlinesBelow src b = newlinesBelow src a ∧ lineStartBelow src b = lineStartBelow src a := by
  induction b, hab using Nat.le_induction with
  | base => exact ⟨rfl, rfl⟩
  | succ b hab ih =>
    have not_newline : byteAt? src b ≠ some 10 := h b hab (Nat.lt_succ_self b)
    obtain ⟨count, start⟩ := ih fun j hj hjb => h j hj (Nat.lt_succ_of_lt hjb)
    simp only [newlinesBelow, lineStartBelow, if_neg not_newline]
    exact ⟨by omega, start⟩

/-- Past the end of the text there are no more bytes, so no more line feeds. -/
theorem counts_past_end {src : String} {m : Nat} (h : src.utf8ByteSize ≤ m) :
    newlinesBelow src m = newlinesBelow src src.utf8ByteSize ∧
      lineStartBelow src m = lineStartBelow src src.utf8ByteSize :=
  counts_of_no_newline src h fun j hj _ => by
    rw [byteAt?_of_size_le hj]
    exact (Option.some_ne_none _).symm

/-- Across one character of the text the count goes up by one, and the line starts after it,
exactly when the character is a line feed. This holds at every offset inside the character as
well as at its end. -/
theorem counts_across_char {src : String} {pre post : List Char} {c : Char}
    (h : src.toList = pre ++ c :: post) {m : Nat} (lo : utf8Len pre < m)
    (hi : m ≤ utf8Len pre + c.utf8Size) :
    newlinesBelow src m = newlinesBelow src (utf8Len pre) + (if c = '\n' then 1 else 0) ∧
      lineStartBelow src m =
        if c = '\n' then utf8Len pre + 1 else lineStartBelow src (utf8Len pre) := by
  have first : byteAt? src (utf8Len pre) = some 10 ↔ c = '\n' := by
    have at_start := byteAt?_char h c.utf8Size_pos
    rw [Nat.add_zero] at at_start
    rw [at_start]
    exact utf8EncodeChar_head_eq_newline c
  obtain ⟨count, start⟩ := counts_of_no_newline src (a := utf8Len pre + 1) (b := m) lo
    fun j hj hjm => by
      obtain ⟨d, rfl⟩ := Nat.exists_eq_add_of_le hj
      rw [Nat.add_assoc, byteAt?_char h (by omega)]
      exact utf8EncodeChar_tail_ne_newline c (by omega)
  rw [count, start]
  simp only [newlinesBelow, lineStartBelow]
  by_cases hc : c = '\n'
  · simp [first.2 hc, hc]
  · simp [mt first.1 hc, hc]

/-! ### The walk of `lineStartFrom` -/

/-- Walking the characters from the byte offset of `cs`, `lineStartFrom` carries the count of
line feeds and the line start of the offset it has reached, capped at the target `offset`: the
walk stops at the first character that starts at or past `offset`, and the last character it
reads may end past `offset` only if it is not a line feed. So it ends with both for `offset`. -/
theorem lineStartFrom_eq (src : String) (offset : Nat) (cs : List Char) :
    ∀ pre : List Char, src.toList = pre ++ cs →
      lineStartFrom offset cs (utf8Len pre)
          (newlinesBelow src (min (utf8Len pre) offset) + 1)
          (lineStartBelow src (min (utf8Len pre) offset)) =
        (newlinesBelow src offset + 1, lineStartBelow src offset) := by
  induction cs with
  | nil =>
    intro pre h
    have whole : utf8Len pre = src.utf8ByteSize := by
      rw [← String.utf8Len_toList, h, List.append_nil]
    rw [lineStartFrom, whole]
    by_cases past : src.utf8ByteSize ≤ offset
    · obtain ⟨count, start⟩ := counts_past_end past
      rw [Nat.min_eq_left past, count, start]
    · rw [Nat.min_eq_right (by omega)]
  | cons c cs ih =>
    intro pre h
    rw [lineStartFrom]
    split
    · next reached => rw [Nat.min_eq_right reached]
    · next before =>
      have step := counts_across_char h (m := min (utf8Len pre + c.utf8Size) offset)
        (by have := c.utf8Size_pos; omega) (by omega)
      have rest := ih (pre ++ [c]) (by rw [h, List.append_assoc, List.singleton_append])
      rw [String.utf8Len_append, String.utf8Len_cons, String.utf8Len_nil, Nat.zero_add,
        step.1, step.2] at rest
      rw [Nat.min_eq_left (by omega)]
      by_cases hc : c = '\n' <;> simpa [hc] using rest

/-- The line of an offset is one more than the number of line feed bytes below it, and its
column counts the bytes from one past the last of them, as a 64-bit word. This holds at every
offset, those past the end of the text or inside a character included. -/
theorem lineCol_eq (src : String) (n : Nat) :
    lineCol src n =
      { line := 1 + newlinesBelow src n,
        col := (n - lineStartBelow src n + 1) % UInt64.size } := by
  have walk := lineStartFrom_eq src n src.toList [] rfl
  simp only [String.utf8Len_nil, Nat.zero_min, newlinesBelow, lineStartBelow, Nat.zero_add]
    at walk
  rw [lineCol, walk, Nat.add_comm]

-- offset `1` lies inside the two bytes of `é`, offset `4` after the second byte of line 2
example :
    lineCol "é\nab" 1 = { line := 1, col := 2 } ∧
      lineCol "é\nab" 4 = { line := 2, col := 2 } := by
  decide

/-- The column is a 64-bit word: at the largest offset on the first line it wraps to `0`, where
the count of bytes from the line's start is `2 ^ 64`. -/
theorem lineCol_col_wraps :
    lineCol "" (UInt64.size - 1) ≠
      { line := 1 + newlinesBelow "" (UInt64.size - 1),
        col := UInt64.size - 1 - lineStartBelow "" (UInt64.size - 1) + 1 } := by
  have empty : "".utf8ByteSize = 0 := rfl
  have start : lineStartBelow "" (UInt64.size - 1) = 0 := by
    rw [(counts_past_end (by rw [empty]; exact Nat.zero_le _)).2, empty]
    rfl
  rw [lineCol_eq, start]
  intro h
  have col := congrArg LineCol.col h
  dsimp only at col
  rw [show UInt64.size = 18446744073709551616 from rfl] at col
  omega

end Source

/-- Reading reports each syntax error at the line and column of a byte offset, the line one more
than the line feed bytes below it and the column its bytes from the line's start. -/
theorem Module.parse_error_position (src : String) (e : ParseError)
    (he : Module.parse src = .error e) :
    ∃ f n, e = ParseError.atOffset src f n ∧ e.line = 1 + Source.newlinesBelow src n ∧
      e.col = (n - Source.lineStartBelow src n + 1) % UInt64.size := by
  have fails : ∀ m, Module.parse src ≠ .ok m := fun m hm => by
    rw [hm] at he
    cases he
  obtain ⟨h, -, parsed⟩ := Module.parse_stops src fails
  rw [parsed] at he
  cases he
  refine ⟨h.fault, h.offset, rfl, ?_, ?_⟩ <;> simp [ParseError.atOffset, Source.lineCol_eq]

/-- Lines and columns count bytes: at every offset of every text, past its end and inside a
character included, the line is one more than the number of line feed bytes below the offset and
the column counts the bytes from one past the last of them, as a 64-bit word. Every syntax error
that reading reports stands at such a line and column. -/
theorem Source.lineCol_counts_bytes (src : String) :
    (∀ n, Source.lineCol src n =
      { line := 1 + Source.newlinesBelow src n,
        col := (n - Source.lineStartBelow src n + 1) % UInt64.size }) ∧
    ∀ e, Module.parse src = .error e → ∃ f n, e = ParseError.atOffset src f n ∧
      e.line = 1 + Source.newlinesBelow src n ∧
      e.col = (n - Source.lineStartBelow src n + 1) % UInt64.size :=
  ⟨Source.lineCol_eq src, Module.parse_error_position src⟩

end PyTune
