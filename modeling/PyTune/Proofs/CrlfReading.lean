import PyTune.Proofs.CrlfLexing
import PyTune.Proofs.Reading

/-!
# What the grammar looks at, up to line endings

No test of a token looks into a string literal (`Token.crlf_blind`), so lookaheads agree on CRLF
forms (`opensBlock_crlf`), and texts equal up to line endings bind the same names
(`boundNames_crlf`).
-/

namespace PyTune

open Text Scanner

/-! ### Tokens -/

namespace Token

/-- A string literal, plain or formatted: the tokens whose text line endings change. -/
def isString : Token → Bool
  | .str _ | .fstr _ => true
  | _ => false

/-- A function of tokens that does not look into the text of string literals takes the same
value on a token and on its CRLF form. -/
theorem crlf_blind {γ : Type} {f : Token → γ} (hs : ∀ r, f (.str (Text.crlf r)) = f (.str r))
    (hf : ∀ r, f (.fstr (Text.crlf r)) = f (.fstr r)) (tok : Token) : f tok.crlf = f tok := by
  cases tok
  case str r => exact hs r
  case fstr r => exact hf r
  all_goals rfl

@[simp] theorem fault?_crlf (tok : Token) : tok.crlf.fault? = tok.fault? :=
  crlf_blind (fun _ => rfl) (fun _ => rfl) tok

@[simp] theorem isLayout_crlf (tok : Token) : tok.crlf.isLayout = tok.isLayout :=
  crlf_blind (fun _ => rfl) (fun _ => rfl) tok

@[simp] theorem nameText?_crlf (tok : Token) : tok.crlf.nameText? = tok.nameText? :=
  crlf_blind (fun _ => rfl) (fun _ => rfl) tok

@[simp] theorem isStr_crlf (tok : Token) : tok.crlf.isStr = tok.isStr :=
  crlf_blind (fun _ => rfl) (fun _ => rfl) tok

@[simp] theorem startsExpression_crlf (tok : Token) :
    tok.crlf.startsExpression = tok.startsExpression :=
  crlf_blind (fun _ => rfl) (fun _ => rfl) tok

@[simp] theorem clauseKeyword?_crlf (tok : Token) : tok.crlf.clauseKeyword? = tok.clauseKeyword? :=
  crlf_blind (fun _ => rfl) (fun _ => rfl) tok

@[simp] theorem isOpening_crlf (tok : Token) : tok.crlf.isOpening = tok.isOpening :=
  crlf_blind (fun _ => rfl) (fun _ => rfl) tok

@[simp] theorem isClosing_crlf (tok : Token) : tok.crlf.isClosing = tok.isClosing :=
  crlf_blind (fun _ => rfl) (fun _ => rfl) tok

/-- Comparing with a token that is no string literal ignores line endings. -/
theorem crlf_beq (x : Token) {tok : Token} (h : tok.isString = false) :
    (x.crlf == tok) = (x == tok) := by
  cases x
  case str r => cases tok <;> first | rfl | cases h
  case fstr r => cases tok <;> first | rfl | cases h
  all_goals rfl

theorem isWord_of_nameText {tok : Token} (h : tok.nameText?.isSome = true) : tok.isWord = true := by
  cases tok <;> first | rfl | cases h

end Token

/-! ### Lookahead over the tokens ahead -/

/-- The lookahead tests a token the same way on its CRLF form. -/
theorem reachesBlockColon_crlf_head (t : Token) (ts : List Token) (depth lambdas : Nat) :
    reachesBlockColon (t.crlf :: ts) depth lambdas = reachesBlockColon (t :: ts) depth lambdas :=
  Token.crlf_blind (f := fun u => reachesBlockColon (u :: ts) depth lambdas)
    (fun _ => rfl) (fun _ => rfl) t

theorem reachesBlockColon_crlf : ∀ (ts : List Token) (depth lambdas : Nat),
    reachesBlockColon (ts.map Token.crlf) depth lambdas = reachesBlockColon ts depth lambdas
  | [], _, _ => rfl
  | t :: ts, depth, lambdas => by
    rw [List.map_cons, reachesBlockColon_crlf_head]
    unfold reachesBlockColon
    simp only [reachesBlockColon_crlf ts]

theorem opensBlock_crlf (ts : List Token) : opensBlock (ts.map Token.crlf) = opensBlock ts := by
  cases ts with
  | nil => rfl
  | cons t ts =>
    have ahead : reachesBlockColon (t :: ts.map Token.crlf) 0 0 = reachesBlockColon (t :: ts) 0 0 := by
      rw [← reachesBlockColon_crlf_head, ← List.map_cons, reachesBlockColon_crlf]
    rw [List.map_cons, Token.crlf_blind (f := fun u => opensBlock (u :: ts.map Token.crlf))
      (fun _ => rfl) (fun _ => rfl) t]
    unfold opensBlock
    simp only [ahead]

theorem withItemsGroup_crlf : ∀ (ts : List Token) (depth : Nat) (items : Bool),
    withItemsGroup (ts.map Token.crlf) depth items = withItemsGroup ts depth items
  | [], _, _ => rfl
  | t :: ts, depth, items => by
    have next : ((ts.map Token.crlf).head? == some .colon) = (ts.head? == some .colon) := by
      cases ts with
      | nil => rfl
      | cons u us => simp only [List.map_cons, List.head?_cons, Option.some_beq_some,
          Token.crlf_beq u (show Token.colon.isString = false from rfl)]
    rw [List.map_cons, Token.crlf_blind (f := fun u => withItemsGroup (u :: ts.map Token.crlf) depth items)
      (fun _ => rfl) (fun _ => rfl) t]
    unfold withItemsGroup
    simp only [withItemsGroup_crlf ts, next]

/-! ### Texts that differ only in line endings -/

namespace Text

open String (utf8Len)

theorem mem_crlfFrom {c : Char} : ∀ {cr : Bool} {xs : List Char}, c ∈ xs → c ∈ crlfFrom cr xs
  | _, [], m => m
  | cr, x :: xs, m => by
    rw [crlfFrom]
    rcases List.mem_cons.1 m with rfl | m
    · refine List.mem_append_left _ ?_
      split <;> simp
    · exact List.mem_append_right _ (mem_crlfFrom m)

theorem crlf_of_not_mem {s : String} (h : '\n' ∉ s.toList) : crlf s = s := by
  rw [crlf, crlfFrom_of_not_mem h, String.ofList_toList]

/-- A text without line feeds is the only text with its CRLF form. -/
theorem eq_of_crlf_eq {a b : String} (h : crlf a = crlf b) (ha : '\n' ∉ a.toList) : b = a := by
  have hb : '\n' ∉ b.toList := fun m => by
    have gained : '\n' ∈ crlfFrom false b.toList := mem_crlfFrom m
    rw [← crlf_toList, ← h, crlf_of_not_mem ha] at gained
    exact ha gained
  rw [← crlf_of_not_mem hb, ← h, crlf_of_not_mem ha]

theorem lf_not_mem_of_isIdentifier {s : String} (h : isIdentifier s = true) : '\n' ∉ s.toList := by
  unfold isIdentifier at h
  intro m
  cases e : s.toList with
  | nil => rw [e] at m; cases m
  | cons c rest =>
    rw [e] at h m
    simp only [Bool.and_eq_true, List.all_eq_true] at h
    rcases List.mem_cons.1 m with rfl | m
    · exact absurd h.1 (by decide +kernel)
    · exact absurd (h.2 _ m) (by decide +kernel)

/-- Of two texts with the same CRLF form, either is an identifier iff the other is. -/
theorem isIdentifier_crlf_eq {a b : String} (h : crlf a = crlf b) :
    isIdentifier b = isIdentifier a := by
  by_cases ha : isIdentifier a = true
  · rw [eq_of_crlf_eq h (lf_not_mem_of_isIdentifier ha)]
  · by_cases hb : isIdentifier b = true
    · rw [eq_of_crlf_eq h.symm (lf_not_mem_of_isIdentifier hb)]
    · rw [Bool.not_eq_true] at ha hb
      rw [ha, hb]

theorem endsCR_false_of_forall {xs : List Char} (h : ∀ c ∈ xs, c ≠ '\r') : endsCR false xs = false := by
  induction xs with
  | nil => rfl
  | cons c cs ih =>
    rw [endsCR, decide_eq_false (h c List.mem_cons_self)]
    exact ih fun d m => h d (List.mem_cons_of_mem c m)

/-- Blanks at the start go together with the carriage returns that line feeds gain. -/
theorem dropWhile_space_crlfFrom : ∀ (cr : Bool) (xs : List Char),
    (crlfFrom cr xs).dropWhile isWhiteSpace = crlfFrom false (xs.dropWhile isWhiteSpace)
  | _, [] => rfl
  | cr, c :: cs => by
    by_cases hc : isWhiteSpace c = true
    · have blank : ∀ d ∈ (if c = '\n' ∧ cr = false then ['\r', c] else [c]), isWhiteSpace d = true := by
        split <;> simp [hc, show isWhiteSpace '\r' = true by decide]
      rw [crlfFrom, List.dropWhile_append_of_pos blank, List.dropWhile_cons_of_pos hc,
        dropWhile_space_crlfFrom]
    · have lf : c ≠ '\n' := by rintro rfl; exact hc (by decide)
      have cr' : c ≠ '\r' := by rintro rfl; exact hc (by decide)
      rw [crlfFrom_cons_of_ne lf, List.dropWhile_cons_of_neg hc, List.dropWhile_cons_of_neg hc,
        crlfFrom_cons_of_ne lf, decide_eq_false cr']

/-- Blanks at the end go together with the carriage returns that line feeds gain. -/
theorem dropEnd_space_crlfFrom (cr : Bool) (xs : List Char) :
    ((crlfFrom cr xs).reverse.dropWhile isWhiteSpace).reverse =
      crlfFrom cr ((xs.reverse.dropWhile isWhiteSpace).reverse) := by
  induction xs using List.reverseRecOn with
  | nil => rfl
  | append_singleton xs c ih =>
    rw [crlfFrom_append, List.reverse_append, List.reverse_append, List.reverse_singleton,
      List.singleton_append]
    by_cases hc : isWhiteSpace c = true
    · have blank : ∀ d ∈ (crlfFrom (endsCR cr xs) [c]).reverse, isWhiteSpace d = true := by
        simp only [crlfFrom, List.append_nil]
        split <;> simp [hc, show isWhiteSpace '\r' = true by decide]
      rw [List.dropWhile_append_of_pos blank, List.dropWhile_cons_of_pos hc, ih]
    · have lf : c ≠ '\n' := by rintro rfl; exact hc (by decide)
      rw [crlfFrom_cons_of_ne lf, crlfFrom_nil, List.reverse_singleton, List.singleton_append,
        List.dropWhile_cons_of_neg hc, List.dropWhile_cons_of_neg hc, List.reverse_cons,
        List.reverse_cons, List.reverse_reverse, List.reverse_reverse, crlfFrom_append,
        crlfFrom_cons_of_ne lf, crlfFrom_nil]

theorem trim_crlf (s : String) : trim (crlf s) = crlf (trim s) := by
  simp only [trim, trimEnd, trimStart, crlf, String.toList_ofList, dropWhile_space_crlfFrom,
    dropEnd_space_crlfFrom]

/-- Leading stars never meet a line ending. -/
theorem dropStars_crlf (s : String) :
    String.ofList ((crlf s).toList.dropWhile (· == '*')) =
      crlf (String.ofList (s.toList.dropWhile (· == '*'))) := by
  have stars : endsCR false (s.toList.takeWhile (· == '*')) = false :=
    endsCR_false_of_forall fun c m => by
      have := List.mem_takeWhile_imp m
      simp only [beq_iff_eq] at this
      rw [this]
      decide
  rw [crlf_toList, dropWhile_crlfFrom (by decide) (by decide), stars, crlf, String.toList_ofList]

end Text

/-- Two spans whose ends correspond in a source and in its CRLF form. -/
def Span.Crlf (src : String) (sp₁ sp₂ : Span) : Prop :=
  StartsMatch src sp₁.start sp₂.start ∧ OffsetsMatch src sp₁.stop sp₂.stop

theorem Span.Crlf.text {src : String} {sp₁ sp₂ : Span} (h : Span.Crlf src sp₁ sp₂) :
    Text.crlf (sp₂.text (Text.crlf src)) = Text.crlf (sp₁.text src) :=
  crlf_text h.1 h.2

/-- A target's name, if it has one, is read alike from two texts with the same CRLF form. -/
theorem boundName_crlf {x₁ x₂ : String} (h : Text.crlf x₂ = Text.crlf x₁) :
    (if Text.isIdentifier (Text.trim (String.ofList (x₂.toList.dropWhile (· == '*')))) then
      some (Text.trim (String.ofList (x₂.toList.dropWhile (· == '*')))) else none) =
    (if Text.isIdentifier (Text.trim (String.ofList (x₁.toList.dropWhile (· == '*')))) then
      some (Text.trim (String.ofList (x₁.toList.dropWhile (· == '*')))) else none) := by
  have name : Text.crlf (Text.trim (String.ofList (x₁.toList.dropWhile (· == '*')))) =
      Text.crlf (Text.trim (String.ofList (x₂.toList.dropWhile (· == '*')))) := by
    rw [← Text.trim_crlf, ← Text.trim_crlf, ← Text.dropStars_crlf, ← Text.dropStars_crlf, h]
  rw [Text.isIdentifier_crlf_eq name]
  split
  · next ident => rw [Text.eq_of_crlf_eq name (Text.lf_not_mem_of_isIdentifier ident)]
  · rfl

/-- The names an assignment binds are read alike from corresponding targets. -/
theorem boundNames_crlf {src : String} {ts₁ ts₂ : List Span}
    (h : List.Forall₂ (Span.Crlf src) ts₁ ts₂) :
    boundNames (Text.crlf src) ts₂ = boundNames src ts₁ := by
  induction h with
  | nil => simp only [boundNames, List.filterMap_nil]
  | cons hd _ ih =>
    unfold boundNames at ih ⊢
    rw [List.filterMap_cons, List.filterMap_cons, ih]
    dsimp only
    rw [boundName_crlf hd.text]

end PyTune
