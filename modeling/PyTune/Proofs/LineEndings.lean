import PyTune.Proofs.Splice

/-!
# Line endings

`Text.crlf` writes each bare line feed as CR LF, one character at a time (`Text.crlfFrom`), and
offsets of a text and of its CRLF form correspond when the same characters stand before them
(`Text.OffsetsMatch`, `Text.crlf_text`).
-/

namespace PyTune

namespace Text

open String (utf8Len)

/-- The characters with each line feed that no carriage return precedes written as a carriage
return and a line feed; `cr` says whether a carriage return stands before them. -/
def crlfFrom : Bool → List Char → List Char
  | _, [] => []
  | cr, c :: cs => (if c = '\n' ∧ cr = false then ['\r', c] else [c]) ++ crlfFrom (c = '\r') cs

/-- Whether the last of the characters is a carriage return; with none, `cr`. -/
def endsCR : Bool → List Char → Bool
  | cr, [] => cr
  | _, c :: cs => endsCR (c = '\r') cs

/-- The text with CR LF line endings: a carriage return before every line feed that has none. -/
def crlf (s : String) : String :=
  String.ofList (crlfFrom false s.toList)

theorem crlfFrom_append : ∀ (cr : Bool) (xs ys : List Char),
    crlfFrom cr (xs ++ ys) = crlfFrom cr xs ++ crlfFrom (endsCR cr xs) ys
  | _, [], _ => rfl
  | cr, c :: cs, ys => by
    rw [List.cons_append, crlfFrom, crlfFrom, endsCR, crlfFrom_append _ cs ys, List.append_assoc]

/-- A second pass adds nothing: every line feed has its carriage return already. -/
theorem crlfFrom_crlfFrom : ∀ (b cr : Bool) (xs : List Char),
    crlfFrom b (crlfFrom cr xs) = crlfFrom (b && cr) xs
  | _, _, [] => rfl
  | b, cr, c :: cs => by
    rw [crlfFrom, crlfFrom_append]
    by_cases lf : c = '\n'
    · subst lf
      cases cr
      · -- the line feed gains its carriage return, which the second pass keeps
        simp only [Bool.and_false, and_self, if_true, crlfFrom, endsCR]
        simp [crlfFrom_crlfFrom false false cs]
      · cases b <;> simp [crlfFrom, endsCR, crlfFrom_crlfFrom]
    · simp [crlfFrom, endsCR, lf, crlfFrom_crlfFrom]

theorem crlfFrom_of_not_mem : ∀ {cr : Bool} {xs : List Char}, '\n' ∉ xs → crlfFrom cr xs = xs
  | _, [], _ => rfl
  | _, c :: cs, h => by
    have lf : c ≠ '\n' := fun e => h (e ▸ List.mem_cons_self)
    rw [crlfFrom, if_neg (fun both => lf both.1),
      crlfFrom_of_not_mem fun m => h (List.mem_cons_of_mem c m)]
    rfl

@[simp] theorem crlfFrom_nil (cr : Bool) : crlfFrom cr [] = [] := rfl

theorem crlfFrom_cons_of_ne {c : Char} (hc : c ≠ '\n') (cr : Bool) (cs : List Char) :
    crlfFrom cr (c :: cs) = c :: crlfFrom (c = '\r') cs := by
  rw [crlfFrom, if_neg fun both => hc both.1]
  rfl

@[simp] theorem crlfFrom_lf_false (cs : List Char) :
    crlfFrom false ('\n' :: cs) = '\r' :: '\n' :: crlfFrom false cs := by
  simp [crlfFrom]

@[simp] theorem crlfFrom_lf_true (cs : List Char) :
    crlfFrom true ('\n' :: cs) = '\n' :: crlfFrom false cs := by
  simp [crlfFrom]

/-- Characters without a line feed pass unchanged, and the carriage return flag goes on past
them. -/
theorem crlfFrom_append_of_not_mem {u : List Char} (hu : '\n' ∉ u) (cr : Bool) (r : List Char) :
    crlfFrom cr (u ++ r) = u ++ crlfFrom (endsCR cr u) r := by
  rw [crlfFrom_append, crlfFrom_of_not_mem hu]

theorem endsCR_append : ∀ (cr : Bool) (xs ys : List Char),
    endsCR cr (xs ++ ys) = endsCR (endsCR cr xs) ys
  | _, [], _ => rfl
  | _, _ :: xs, ys => endsCR_append _ xs ys

theorem endsCR_of_ne_nil : ∀ {xs : List Char}, xs ≠ [] → ∀ a b : Bool, endsCR a xs = endsCR b xs
  | [], h, _, _ => absurd rfl h
  | _ :: _, _, _, _ => rfl

theorem utf8Len_crlfFrom_mono (cr : Bool) (p m : List Char) :
    utf8Len (crlfFrom cr p) ≤ utf8Len (crlfFrom cr (p ++ m)) := by
  rw [crlfFrom_append, String.utf8Len_append]
  exact Nat.le_add_right _ _

/-- The CRLF form keeps every character, so it is no shorter. -/
theorem utf8Len_le_crlfFrom : ∀ (cr : Bool) (xs : List Char), utf8Len xs ≤ utf8Len (crlfFrom cr xs)
  | _, [] => Nat.le_refl _
  | cr, c :: cs => by
    have rest := utf8Len_le_crlfFrom (c = '\r') cs
    rw [crlfFrom, String.utf8Len_append, String.utf8Len_cons]
    split <;> simp only [String.utf8Len_cons, String.utf8Len_nil] <;> omega

/-! ### Runs of characters that no line ending belongs to -/

section Blind

variable {p : Char → Bool} (hn : p '\n' = false) (hr : p '\r' = false)
include hn hr

theorem ne_of_blind {c : Char} (hc : p c = true) : c ≠ '\n' ∧ c ≠ '\r' := by
  constructor <;> (rintro rfl; simp_all)

theorem takeWhile_crlfFrom : ∀ (cr : Bool) (xs : List Char),
    (crlfFrom cr xs).takeWhile p = xs.takeWhile p
  | _, [] => rfl
  | cr, c :: cs => by
    by_cases hc : p c = true
    · rw [crlfFrom_cons_of_ne (ne_of_blind hn hr hc).1, List.takeWhile_cons_of_pos hc,
        List.takeWhile_cons_of_pos hc, takeWhile_crlfFrom _ cs]
    · -- the character, or the carriage return put before it, ends both runs
      by_cases lf : c = '\n' ∧ cr = false
      · obtain ⟨rfl, rfl⟩ := lf
        simp [hr, hn]
      · simp [crlfFrom, lf, hc]

theorem dropWhile_crlfFrom : ∀ (cr : Bool) (xs : List Char),
    (crlfFrom cr xs).dropWhile p = crlfFrom (endsCR cr (xs.takeWhile p)) (xs.dropWhile p)
  | _, [] => rfl
  | cr, c :: cs => by
    by_cases hc : p c = true
    · rw [crlfFrom_cons_of_ne (ne_of_blind hn hr hc).1, List.dropWhile_cons_of_pos hc,
        List.dropWhile_cons_of_pos hc, List.takeWhile_cons_of_pos hc, dropWhile_crlfFrom _ cs]
      rfl
    · have stop : (crlfFrom cr (c :: cs)).dropWhile p = crlfFrom cr (c :: cs) := by
        by_cases lf : c = '\n' ∧ cr = false
        · obtain ⟨rfl, rfl⟩ := lf
          simp [hr]
        · simp [crlfFrom, lf, hc]
      rw [stop, List.dropWhile_cons_of_neg hc, List.takeWhile_cons_of_neg hc]
      rfl

omit hr in
theorem not_mem_takeWhile (xs : List Char) : '\n' ∉ xs.takeWhile p := fun m => by
  have := List.mem_takeWhile_imp m
  simp_all

end Blind

theorem crlf_toList (s : String) : (crlf s).toList = crlfFrom false s.toList :=
  String.toList_ofList

/-- Text that differs at most in line endings reads the same once both have CR LF ones. -/
theorem crlf_crlfFrom (cr : Bool) (xs : List Char) :
    crlf (String.ofList (crlfFrom cr xs)) = crlf (String.ofList xs) := by
  rw [crlf, crlf, String.toList_ofList, String.toList_ofList, crlfFrom_crlfFrom, Bool.false_and]

/-! ### Offsets that correspond -/

/-- Offset `o₁` of `src` and offset `o₂` of its CRLF form stand after the same characters. -/
def OffsetsMatch (src : String) (o₁ o₂ : Nat) : Prop :=
  ∃ pre, pre <+: src.toList ∧ utf8Len pre = o₁ ∧ utf8Len (crlfFrom false pre) = o₂

/-- As `OffsetsMatch`, or `o₁` stands at a line feed that gains a carriage return and `o₂`
past that carriage return. -/
def StartsMatch (src : String) (o₁ o₂ : Nat) : Prop :=
  OffsetsMatch src o₁ o₂ ∨
    ∃ pre, pre ++ ['\n'] <+: src.toList ∧ endsCR false pre = false ∧ utf8Len pre = o₁ ∧
      utf8Len (crlfFrom false pre) + 1 = o₂

theorem OffsetsMatch.starts {src : String} {o₁ o₂ : Nat} (h : OffsetsMatch src o₁ o₂) :
    StartsMatch src o₁ o₂ :=
  .inl h

theorem prefix_crlf {src : String} {pre : List Char} (h : pre <+: src.toList) :
    crlfFrom false pre <+: (crlf src).toList := by
  obtain ⟨rest, e⟩ := h
  exact ⟨_, by rw [crlf_toList, ← e, crlfFrom_append]⟩

theorem crlf_text_of_le {src : String} {a₁ a₂ b₁ b₂ : Nat} (ha : StartsMatch src a₁ a₂)
    (hb : OffsetsMatch src b₁ b₂) (hab : a₁ ≤ b₁) :
    crlf (Span.text ⟨a₂, b₂⟩ (crlf src)) = crlf (Span.text ⟨a₁, b₁⟩ src) := by
  obtain ⟨pb, hpb, rfl, rfl⟩ := hb
  rcases ha with ⟨pa, hpa, rfl, rfl⟩ | ⟨pa, hpa, plain, rfl, rfl⟩
  · -- both offsets after the same characters: the text between is read in both
    obtain ⟨mid, rfl⟩ := Boundary.prefix_of_utf8Len_le hpa hpb hab
    have whole : crlfFrom false (pa ++ mid) =
        crlfFrom false pa ++ crlfFrom (endsCR false pa) mid := crlfFrom_append _ _ _
    have inner := extract_prefixes (List.prefix_append _ _)
      (show crlfFrom false pa ++ crlfFrom (endsCR false pa) mid <+: (crlf src).toList from
        whole ▸ prefix_crlf hpb)
    simp only [Span.text]
    rw [whole, inner, List.drop_left, extract_prefixes (List.prefix_append pa mid) hpb,
      List.drop_left, crlf_crlfFrom]
  · -- the start stands past the carriage return that the line feed after `pa` gains
    obtain ⟨mid, rfl⟩ :=
      Boundary.prefix_of_utf8Len_le ((List.prefix_append pa ['\n']).trans hpa) hpb hab
    cases mid with
    | nil =>
      rw [List.append_nil] at hpb ⊢
      rw [Span.text, Span.text, extract_self, String.Pos.Raw.extract,
        if_pos (Nat.le_succ _)]
    | cons c rest =>
      have lf : c = '\n' := by
        obtain ⟨u, hu⟩ := hpa
        obtain ⟨v, hv⟩ := hpb
        have := congrArg (·[pa.length]?) (hu.trans hv.symm)
        simpa [eq_comm] using this
      subst lf
      have whole : crlfFrom false (pa ++ '\n' :: rest) =
          (crlfFrom false pa ++ ['\r']) ++ '\n' :: crlfFrom false rest := by
        rw [crlfFrom_append, plain, crlfFrom]
        simp
      have inner := extract_prefixes (List.prefix_append _ _)
        (show (crlfFrom false pa ++ ['\r']) ++ '\n' :: crlfFrom false rest <+: (crlf src).toList
          from whole ▸ prefix_crlf hpb)
      rw [String.utf8Len_append, show utf8Len ['\r'] = 1 from rfl] at inner
      simp only [Span.text]
      rw [whole, inner, List.drop_left,
        extract_prefixes (List.prefix_append pa _) hpb, List.drop_left,
        show '\n' :: crlfFrom false rest = crlfFrom true ('\n' :: rest) by simp [crlfFrom],
        crlf_crlfFrom]


/-- Between the ends of `pre` and of `pre ++ u`, where `u` holds no line feed, a text and its
CRLF form hold the same characters. -/
theorem text_of_not_mem {src : String} {pre u : List Char} (h : pre ++ u <+: src.toList)
    (hu : '\n' ∉ u) :
    Span.text ⟨utf8Len (crlfFrom false pre), utf8Len (crlfFrom false (pre ++ u))⟩ (crlf src) =
      Span.text ⟨utf8Len pre, utf8Len (pre ++ u)⟩ src := by
  have whole : crlfFrom false (pre ++ u) = crlfFrom false pre ++ u := by
    rw [crlfFrom_append, crlfFrom_of_not_mem hu]
  have inner := extract_prefixes (List.prefix_append (crlfFrom false pre) u)
    (show crlfFrom false pre ++ u <+: (crlf src).toList from whole ▸ prefix_crlf h)
  simp only [Span.text]
  rw [whole, inner, List.drop_left, extract_prefixes (List.prefix_append pre u) h, List.drop_left]

theorem extract_of_le (s : String) {a b : Nat} (h : b ≤ a) :
    String.Pos.Raw.extract s ⟨a⟩ ⟨b⟩ = "" := by
  simp [String.Pos.Raw.extract, h]

/-- Of corresponding offsets, the later one in the text stands no earlier in its CRLF form. -/
theorem StartsMatch.le_of_lt {src : String} {a₁ a₂ b₁ b₂ : Nat} (ha : StartsMatch src a₁ a₂)
    (hb : OffsetsMatch src b₁ b₂) (h : b₁ < a₁) : b₂ ≤ a₂ := by
  obtain ⟨pb, hpb, rfl, rfl⟩ := hb
  have grow : ∀ pa, pa <+: src.toList → utf8Len pb < utf8Len pa →
      utf8Len (crlfFrom false pb) ≤ utf8Len (crlfFrom false pa) := by
    intro pa hpa lt
    obtain ⟨mid, rfl⟩ := Boundary.prefix_of_utf8Len_le hpb hpa (Nat.le_of_lt lt)
    exact utf8Len_crlfFrom_mono false pb mid
  rcases ha with ⟨pa, hpa, rfl, rfl⟩ | ⟨pa, hpa, -, rfl, rfl⟩
  · exact grow pa hpa h
  · exact Nat.le_succ_of_le (grow pa ((List.prefix_append pa ['\n']).trans hpa) h)

/-- Between corresponding offsets, a text and its CRLF form agree up to line endings. -/
theorem crlf_text {src : String} {a₁ a₂ b₁ b₂ : Nat} (ha : StartsMatch src a₁ a₂)
    (hb : OffsetsMatch src b₁ b₂) :
    crlf (Span.text ⟨a₂, b₂⟩ (crlf src)) = crlf (Span.text ⟨a₁, b₁⟩ src) := by
  by_cases hab : a₁ ≤ b₁
  · exact crlf_text_of_le ha hb hab
  · -- an empty span in the text, and so in its CRLF form
    have le := ha.le_of_lt hb (Nat.lt_of_not_le hab)
    simp only [Span.text]
    rw [extract_of_le _ le, extract_of_le _ (Nat.le_of_not_le hab)]

end Text

end PyTune
