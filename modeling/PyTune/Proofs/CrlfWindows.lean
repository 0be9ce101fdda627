import PyTune.Proofs.CrlfReading

/-!
# Reading a source and its CRLF form alike

The grammar sees a tape only through a few windows, and for a source and its CRLF form
(`CrlfTapes`) each shows the same up to line endings. So the rules built on them alone read the
two tapes alike (`Grammar.Twin`), a relation that composes along `bind`.
-/

namespace PyTune

open Text (OffsetsMatch StartsMatch)
open Scanner (LexAlike)

/-- Two texts alike up to line endings: the same once both have CR LF ones. -/
def Text.CrlfAlike (a b : String) : Prop :=
  Text.crlf a = Text.crlf b

/-- Every tail of the tokens, read at an index, is the tokens from that index on. -/
theorem Tape.getD_tailsOf : ∀ (ts : List Token) (i : Nat),
    ((Tape.tailsOf ts)[i]?).getD [] = ts.drop i
  | [], 0 => rfl
  | [], _ + 1 => rfl
  | _ :: _, 0 => rfl
  | _ :: ts, i + 1 => by
    rw [Tape.tailsOf, List.getElem?_cons_succ, List.drop_succ_cons]
    exact Tape.getD_tailsOf ts i

/-! ### The two tapes -/

/-- The tapes of a source and of its CRLF form, whose lexemes match one for one. -/
structure CrlfTapes where
  src : String
  first : Tape
  second : Tape
  source_first : first.source = src
  source_second : second.source = Text.crlf src
  lexemes : List.Forall₂ (LexAlike src) first.lexemes.toList second.lexemes.toList
  rests : ∀ i : Nat, (second.rests[i]?).getD [] = ((first.rests[i]?).getD []).map Token.crlf

namespace CrlfTapes

variable (p : CrlfTapes)

theorem size_eq : p.second.lexemes.size = p.first.lexemes.size := by
  have same := p.lexemes.length_eq
  rw [Array.length_toList, Array.length_toList] at same
  exact same.symm

/-- The ends of a text and of its CRLF form stand after the same characters. -/
theorem ends_match (src : String) :
    OffsetsMatch src src.utf8ByteSize (Text.crlf src).utf8ByteSize :=
  ⟨src.toList, List.prefix_refl _, String.utf8Len_toList src,
    by rw [← String.utf8Len_toList (Text.crlf src), Text.crlf_toList]⟩

/-- The two tapes give matching lexemes at every index: past their lexemes, the ends of input
at the ends of their texts. -/
theorem lexemeAt (i : Nat) : LexAlike p.src (p.first.lexemeAt i) (p.second.lexemeAt i) := by
  unfold Tape.lexemeAt
  by_cases lt : i < p.first.lexemes.size
  · have lt₂ : i < p.second.lexemes.size := by
      rw [p.size_eq]
      exact lt
    rw [Array.getElem?_eq_getElem lt, Array.getElem?_eq_getElem lt₂, Option.getD_some,
      Option.getD_some]
    have alike := p.lexemes.get (i := i) (by rw [Array.length_toList]; exact lt)
      (by rw [Array.length_toList]; exact lt₂)
    simpa only [List.get_eq_getElem, Array.getElem_toList] using alike
  · have past₂ : p.second.lexemes.size ≤ i := by
      rw [p.size_eq]
      omega
    rw [Array.getElem?_eq_none (by omega), Array.getElem?_eq_none past₂, Option.getD_none,
      Option.getD_none, p.source_first, p.source_second]
    have ends := ends_match p.src
    exact ⟨rfl, ends.starts, fun _ _ => ends, fun word => by cases word⟩

theorem fault?_eq (i : Nat) :
    (p.second.lexemeAt i).token.fault? = (p.first.lexemeAt i).token.fault? := by
  rw [(p.lexemeAt i).token, Token.fault?_crlf]

/-- Cursors that stand alike on the two tapes: at the same lexeme, with the ends of code at
corresponding offsets. -/
structure Alike (c₁ c₂ : Cursor) : Prop where
  index : c₂.index = c₁.index
  lastEnd : OffsetsMatch p.src c₁.lastEnd c₂.lastEnd

theorem Alike.start : p.Alike ⟨0, 0⟩ ⟨0, 0⟩ :=
  ⟨rfl, ⟨[], List.nil_prefix, rfl, rfl⟩⟩

variable {p}

theorem Alike.lexemeAt {c₁ c₂ : Cursor} (hc : p.Alike c₁ c₂) :
    LexAlike p.src (p.first.lexemeAt c₁.index) (p.second.lexemeAt c₂.index) := by
  rw [hc.index]
  exact p.lexemeAt c₁.index

/-- Past lexemes that match and are no fault, the cursors stand alike again. -/
theorem Alike.past {c₁ c₂ : Cursor} {l₁ l₂ : Lexeme} (hc : p.Alike c₁ c₂)
    (hl : LexAlike p.src l₁ l₂) (hf : l₁.token.fault? = none) :
    p.Alike (c₁.past l₁) (c₂.past l₂) := by
  refine ⟨by simp only [Cursor.past, hc.index], ?_⟩
  simp only [Cursor.past, hl.token, Token.isLayout_crlf]
  split
  · exact hc.lastEnd
  · next layout => exact hl.stop hf (by simpa using layout)

end CrlfTapes

/-- Lexemes that match one for one have the same tokens but for the text of string literals. -/
theorem Scanner.tokens_of_forall₂ {src : String} {ls₁ ls₂ : List Lexeme}
    (h : List.Forall₂ (LexAlike src) ls₁ ls₂) :
    ls₂.map (·.token) = (ls₁.map (·.token)).map Token.crlf := by
  induction h with
  | nil => rfl
  | cons alike _ ih => rw [List.map_cons, List.map_cons, List.map_cons, alike.token, ih]

/-- The tapes of a source and of its CRLF form, when no string literal in single quotes is
carried onto the next line. -/
def CrlfTapes.ofSource (src : String)
    (hq : ∀ l ∈ (Lexeme.scan src).toList, l.token.continuesQuote = false) : CrlfTapes where
  src := src
  first := Tape.ofSource src
  second := Tape.ofSource (Text.crlf src)
  source_first := rfl
  source_second := rfl
  lexemes := Lexeme.scan_crlf src hq
  rests i := by
    simp only [Tape.ofSource, List.getElem?_toArray, Tape.getD_tailsOf]
    rw [Scanner.tokens_of_forall₂ (Lexeme.scan_crlf src hq), List.map_drop]

namespace Grammar

variable {α β γ δ : Type} {p : CrlfTapes}

/-- Two readings end alike: both with values that `R` relates and cursors that stand alike,
or both stopped. -/
def Ends (p : CrlfTapes) (R : α → β → Prop) {ε₁ ε₂ : Type} {q₁ : α × Cursor → Prop}
    {q₂ : β × Cursor → Prop} : Except ε₁ (Subtype q₁) → Except ε₂ (Subtype q₂) → Prop
  | .ok r₁, .ok r₂ => R r₁.1.1 r₂.1.1 ∧ p.Alike r₁.1.2 r₂.1.2
  | .error _, .error _ => True
  | _, _ => False

/-- `g₁` on the tape of a source and `g₂` on the tape of its CRLF form read alike from any
cursors that stand alike. -/
def Twin (p : CrlfTapes) (R : α → β → Prop) (g₁ : Grammar α) (g₂ : Grammar β) : Prop :=
  ∀ c₁ c₂, p.Alike c₁ c₂ → Ends p R (g₁ p.first c₁) (g₂ p.second c₂)

namespace Ends

variable {R : α → β → Prop} {S : γ → δ → Prop}

theorem mono {R' : α → β → Prop} (h : ∀ a b, R a b → R' a b) {ε₁ ε₂ : Type}
    {q₁ : α × Cursor → Prop} {q₂ : β × Cursor → Prop} :
    ∀ {r₁ : Except ε₁ (Subtype q₁)} {r₂ : Except ε₂ (Subtype q₂)}, Ends p R r₁ r₂ → Ends p R' r₁ r₂
  | .ok _, .ok _, ⟨related, alike⟩ => ⟨h _ _ related, alike⟩
  | .error _, .error _, _ => trivial

/-- Readings that end alike go on alike: the second parts read alike from values that the
first relates. -/
theorem bind {x₁ : Grammar α} {x₂ : Grammar β} {k₁ : α → Grammar γ} {k₂ : β → Grammar δ}
    {c₁ c₂ : Cursor} (hx : Ends p R (x₁ p.first c₁) (x₂ p.second c₂))
    (hk : ∀ a₁ a₂ d₁ d₂, R a₁ a₂ → p.Alike d₁ d₂ → Ends p S (k₁ a₁ p.first d₁) (k₂ a₂ p.second d₂)) :
    Ends p S ((x₁ >>= k₁) p.first c₁) ((x₂ >>= k₂) p.second c₂) := by
  rw [bind_run, bind_run]
  revert hx
  rcases x₁ p.first c₁ with e₁ | ⟨⟨a₁, d₁⟩, h₁⟩ <;>
    rcases x₂ p.second c₂ with e₂ | ⟨⟨a₂, d₂⟩, h₂⟩
  · intro
    trivial
  · intro stuck
    exact stuck.elim
  · intro stuck
    exact stuck.elim
  · rintro ⟨related, alike⟩
    have second := hk a₁ a₂ d₁ d₂ related alike
    dsimp only
    revert second
    rcases k₁ a₁ p.first d₁ with f₁ | ⟨⟨b₁, e₁⟩, g₁⟩ <;>
      rcases k₂ a₂ p.second d₂ with f₂ | ⟨⟨b₂, e₂⟩, g₂⟩ <;>
      exact id

/-- Looking at the tapes moves no cursor: what follows reads from the cursors looked from. -/
theorem look_bind {f₁ : Tape → Cursor → α} {f₂ : Tape → Cursor → β} {k₁ : α → Grammar γ}
    {k₂ : β → Grammar δ} {c₁ c₂ : Cursor}
    (h : Ends p S (k₁ (f₁ p.first c₁) p.first c₁) (k₂ (f₂ p.second c₂) p.second c₂)) :
    Ends p S ((Grammar.look f₁ >>= k₁) p.first c₁) ((Grammar.look f₂ >>= k₂) p.second c₂) := by
  rw [bind_run, bind_run]
  dsimp only [Grammar.look]
  revert h
  rcases k₁ (f₁ p.first c₁) p.first c₁ with f₁ | ⟨⟨b₁, e₁⟩, g₁⟩ <;>
    rcases k₂ (f₂ p.second c₂) p.second c₂ with f₂ | ⟨⟨b₂, e₂⟩, g₂⟩ <;>
    exact id

end Ends

namespace Twin

variable {R : α → β → Prop} {S : γ → δ → Prop}

theorem pure {a : α} {b : β} (h : R a b) : Twin p R (Pure.pure a) (Pure.pure b) := by
  intro c₁ c₂ hc
  exact And.intro h hc

/-- Two readings that stop wherever they stand. -/
theorem of_stops {g₁ : Grammar α} {g₂ : Grammar β} (h₁ : ∀ c, ∃ e, g₁ p.first c = .error e)
    (h₂ : ∀ c, ∃ e, g₂ p.second c = .error e) : Twin p R g₁ g₂ := by
  intro c₁ c₂ _
  obtain ⟨e₁, stops₁⟩ := h₁ c₁
  obtain ⟨e₂, stops₂⟩ := h₂ c₂
  rw [stops₁, stops₂]
  trivial

theorem fail_stops (f : GrammarFault) (t : Tape) (c : Cursor) :
    ∃ e, (Grammar.fail f : Grammar α) t c = .error e := by
  unfold Grammar.fail
  dsimp only
  split <;> exact ⟨_, rfl⟩

theorem fail {f g : GrammarFault} : Twin p R (Grammar.fail f) (Grammar.fail g) :=
  of_stops (fail_stops f _) (fail_stops g _)

theorem exhausted : Twin p R Grammar.exhausted Grammar.exhausted :=
  fail

/-- Failing stops both readings before what would follow. -/
theorem fail_bind {f g : GrammarFault} {k₁ : α → Grammar γ} {k₂ : β → Grammar δ} :
    Twin p S (Grammar.fail f >>= k₁) (Grammar.fail g >>= k₂) := by
  refine of_stops (fun c => ?_) (fun c => ?_) <;> rw [bind_run]
  · obtain ⟨e, stops⟩ := fail_stops (α := α) f p.first c
    rw [stops]
    exact ⟨e, rfl⟩
  · obtain ⟨e, stops⟩ := fail_stops (α := β) g p.second c
    rw [stops]
    exact ⟨e, rfl⟩

/-- Twin readings compose: the second parts read alike from values that the first relates. -/
theorem bind {x₁ : Grammar α} {x₂ : Grammar β} {k₁ : α → Grammar γ} {k₂ : β → Grammar δ}
    (hx : Twin p R x₁ x₂) (hk : ∀ a₁ a₂, R a₁ a₂ → Twin p S (k₁ a₁) (k₂ a₂)) :
    Twin p S (x₁ >>= k₁) (x₂ >>= k₂) :=
  fun c₁ c₂ hc => Ends.bind (hx c₁ c₂ hc) fun a₁ a₂ d₁ d₂ related alike => hk a₁ a₂ related d₁ d₂ alike

theorem map {x₁ : Grammar α} {x₂ : Grammar β} {f : α → γ} {g : β → δ} (hx : Twin p R x₁ x₂)
    (hf : ∀ a b, R a b → S (f a) (g b)) : Twin p S (f <$> x₁) (g <$> x₂) :=
  bind hx fun a b related => pure (hf a b related)

/-- A first part whose two values are equal, and a second part that reads alike from each. -/
theorem bind_eq {x₁ x₂ : Grammar α} {k₁ : α → Grammar γ} {k₂ : α → Grammar δ}
    (hx : Twin p Eq x₁ x₂) (hk : ∀ a, Twin p S (k₁ a) (k₂ a)) : Twin p S (x₁ >>= k₁) (x₂ >>= k₂) :=
  bind hx fun a _ e => e ▸ hk a

/-- Reading for nothing: whatever the values, none is kept. -/
theorem discard {x₁ : Grammar α} {x₂ : Grammar β} (hx : Twin p R x₁ x₂) :
    Twin p Eq (x₁ >>= fun _ => Pure.pure ()) (x₂ >>= fun _ => Pure.pure ()) :=
  bind hx fun _ _ _ => pure rfl

theorem ite {c₁ c₂ : Prop} [Decidable c₁] [Decidable c₂] (hc : c₂ ↔ c₁) {a₁ b₁ : Grammar α}
    {a₂ b₂ : Grammar β} (ha : Twin p R a₁ a₂) (hb : Twin p R b₁ b₂) :
    Twin p R (if c₁ then a₁ else b₁) (if c₂ then a₂ else b₂) := by
  by_cases h : c₁
  · rw [if_pos h, if_pos (hc.2 h)]
    exact ha
  · rw [if_neg h, if_neg (mt hc.1 h)]
    exact hb

/-- Looking at the two tapes gives values that `R` relates. -/
theorem look {f : Tape → Cursor → α} {g : Tape → Cursor → β}
    (h : ∀ c₁ c₂, p.Alike c₁ c₂ → R (f p.first c₁) (g p.second c₂)) :
    Twin p R (Grammar.look f) (Grammar.look g) := by
  intro c₁ c₂ hc
  exact And.intro (h c₁ c₂ hc) hc

theorem read_bind {k₁ : Tape → Grammar γ} {k₂ : Tape → Grammar δ}
    (h : Twin p S (k₁ p.first) (k₂ p.second)) : Twin p S (read >>= k₁) (read >>= k₂) :=
  bind (R := fun t₁ t₂ => t₁ = p.first ∧ t₂ = p.second) (look fun _ _ _ => ⟨rfl, rfl⟩)
    fun _ _ tapes => by
      rw [tapes.1, tapes.2]
      exact h

end Twin

/-- Twin readings from cursors at which the next token of the first tape is `tok`. -/
def TwinAt (p : CrlfTapes) (tok : Token) (R : α → β → Prop) (g₁ : Grammar α) (g₂ : Grammar β) :
    Prop :=
  ∀ c₁ c₂, p.Alike c₁ c₂ → (p.first.lexemeAt c₁.index).token = tok →
    Ends p R (g₁ p.first c₁) (g₂ p.second c₂)

namespace TwinAt

variable {tok : Token} {R : α → β → Prop} {S : γ → δ → Prop}

theorem of_twin {g₁ : Grammar α} {g₂ : Grammar β} (h : Twin p R g₁ g₂) : TwinAt p tok R g₁ g₂ :=
  fun c₁ c₂ hc _ => h c₁ c₂ hc

theorem bind {x₁ : Grammar α} {x₂ : Grammar β} {k₁ : α → Grammar γ} {k₂ : β → Grammar δ}
    (hx : TwinAt p tok R x₁ x₂) (hk : ∀ a₁ a₂, R a₁ a₂ → Twin p S (k₁ a₁) (k₂ a₂)) :
    TwinAt p tok S (x₁ >>= k₁) (x₂ >>= k₂) :=
  fun c₁ c₂ hc ht =>
    Ends.bind (hx c₁ c₂ hc ht) fun a₁ a₂ d₁ d₂ related alike => hk a₁ a₂ related d₁ d₂ alike

end TwinAt

/-! ### The windows -/

theorem peek_twin : Twin p (fun tok₁ tok₂ => tok₂ = tok₁.crlf) peek peek :=
  Twin.look fun _ _ hc => hc.lexemeAt.token

/-- Reading on after the next token, by a rule that reads the same on a token and on its CRLF
form. -/
theorem Twin.peek_bind_crlf {R : α → β → Prop} {k₁ : Token → Grammar α} {k₂ : Token → Grammar β}
    (hk : ∀ tok, k₂ tok.crlf = k₂ tok) (h : ∀ tok, Twin p R (k₁ tok) (k₂ tok)) :
    Twin p R (peek >>= k₁) (peek >>= k₂) :=
  Twin.bind peek_twin fun tok _ e => by
    rw [e, hk tok]
    exact h tok

/-- Reading on after the next token, by a rule that looks into no string literal's text. -/
theorem Twin.peek_bind {R : α → β → Prop} {k₁ : Token → Grammar α} {k₂ : Token → Grammar β}
    (hs : ∀ r, k₂ (.str (Text.crlf r)) = k₂ (.str r))
    (hf : ∀ r, k₂ (.fstr (Text.crlf r)) = k₂ (.fstr r)) (h : ∀ tok, Twin p R (k₁ tok) (k₂ tok)) :
    Twin p R (peek >>= k₁) (peek >>= k₂) :=
  Twin.peek_bind_crlf (Token.crlf_blind (f := k₂) hs hf) h

/-- Reading on after the next token, by a rule that may rely on which token it is. -/
theorem Twin.peek_bind_at {R : α → β → Prop} {k₁ : Token → Grammar α} {k₂ : Token → Grammar β}
    (hs : ∀ r, k₂ (.str (Text.crlf r)) = k₂ (.str r))
    (hf : ∀ r, k₂ (.fstr (Text.crlf r)) = k₂ (.fstr r)) (h : ∀ tok, TwinAt p tok R (k₁ tok) (k₂ tok)) :
    Twin p R (peek >>= k₁) (peek >>= k₂) := by
  intro c₁ c₂ hc
  refine Ends.look_bind ?_
  rw [hc.lexemeAt.token, Token.crlf_blind (f := k₂) hs hf]
  exact h _ c₁ c₂ hc rfl

theorem peekStart_twin : Twin p (StartsMatch p.src) peekStart peekStart :=
  Twin.look fun _ _ hc => hc.lexemeAt.start

theorem position_twin : Twin p Eq position position :=
  Twin.look fun _ _ hc => hc.index.symm

theorem lastEnd_twin : Twin p (OffsetsMatch p.src) lastEnd lastEnd :=
  Twin.look fun _ _ hc => hc.lastEnd

theorem upcoming_twin : Twin p (fun ts₁ ts₂ => ts₂ = ts₁.map Token.crlf) upcoming upcoming :=
  Twin.look fun _ _ hc => by
    rw [hc.index]
    exact p.rests _

theorem secondIsName_twin : Twin p Eq secondIsName secondIsName :=
  Twin.look fun c₁ c₂ hc => by
    rw [hc.index, (p.lexemeAt (c₁.index + 1)).token, Token.nameText?_crlf]

theorem startsExpression_twin : Twin p Eq startsExpression startsExpression :=
  Twin.bind peek_twin fun _ _ e => Twin.pure (by rw [e, Token.startsExpression_crlf])

theorem comprehensionFollows_twin : Twin p Eq comprehensionFollows comprehensionFollows :=
  Twin.peek_bind (fun _ => rfl) (fun _ => rfl) fun _ => Twin.pure rfl

/-- The lexemes consumed since an index match one for one. -/
theorem consumedSince_twin (i : Nat) :
    Twin p (List.Forall₂ (LexAlike p.src)) (consumedSince i) (consumedSince i) :=
  Twin.look fun c₁ c₂ hc => by
    rw [hc.index, Array.toList_extract, Array.toList_extract, List.extract_eq_take_drop,
      List.extract_eq_take_drop]
    refine List.rel_filter (fun l₁ l₂ alike => ?_) (List.forall₂_take _ (List.forall₂_drop _ p.lexemes))
    simp only [alike.token, Token.isLayout_crlf]

theorem text_twin {a₁ b₁ a₂ b₂ : Nat} (ha : StartsMatch p.src a₁ a₂)
    (hb : OffsetsMatch p.src b₁ b₂) : Twin p Text.CrlfAlike (text a₁ b₁) (text a₂ b₂) := by
  unfold text
  refine Twin.read_bind (Twin.pure ?_)
  rw [p.source_first, p.source_second]
  exact (Text.crlf_text ha hb).symm

/-! ### Consuming lexemes -/

/-- Consuming the next lexeme from cursors that stand alike: the two lexemes under them. -/
theorem bump_ends {c₁ c₂ : Cursor} (hc : p.Alike c₁ c₂) :
    Ends p (fun l₁ l₂ => l₁ = p.first.lexemeAt c₁.index ∧ LexAlike p.src l₁ l₂)
      (bump p.first c₁) (bump p.second c₂) := by
  have alike := hc.lexemeAt
  have same : (p.second.lexemeAt c₂.index).token.fault? =
      (p.first.lexemeAt c₁.index).token.fault? := by
    rw [hc.index]
    exact p.fault?_eq c₁.index
  unfold Grammar.bump
  split <;> split
  · trivial
  · next f₁ h₁ h₂ =>
    rw [same, h₁] at h₂
    cases h₂
  · next h₁ f₂ h₂ =>
    rw [same, h₁] at h₂
    cases h₂
  · next h₁ _ =>
    exact And.intro ⟨rfl, alike⟩ (hc.past alike h₁)

theorem bump_twin : Twin p (LexAlike p.src) bump bump :=
  fun _ _ hc => (bump_ends hc).mono fun _ _ consumed => consumed.2

/-- Consuming a name or a keyword: its text is the same in both sources. -/
theorem bump_word {tok : Token} (hw : tok.isWord = true) :
    TwinAt p tok (fun l₁ l₂ => l₂.span.text (Text.crlf p.src) = l₁.span.text p.src) bump bump :=
  fun _ _ hc ht => (bump_ends hc).mono fun _ _ ⟨under, alike⟩ =>
    alike.text (by rw [under, ht]; exact hw)

theorem skip_twin : Twin p Eq skip skip := by
  unfold skip
  exact Twin.bind bump_twin fun _ _ _ => Twin.pure rfl

/-- Consuming the next lexeme, then reading on alike. -/
theorem Twin.skip_bind {R : α → β → Prop} {k₁ : Unit → Grammar α} {k₂ : Unit → Grammar β}
    (h : Twin p R (k₁ ()) (k₂ ())) : Twin p R (skip >>= k₁) (skip >>= k₂) :=
  Twin.bind_eq skip_twin fun _ => h

/-- Expecting a token that is no string literal. -/
theorem expect_twin {tok : Token} (ht : tok.isString = false) (e : Expectation) :
    Twin p Eq (expect tok e) (expect tok e) := by
  unfold expect
  refine Twin.bind peek_twin fun tok₁ _ same => ?_
  rw [same, Token.crlf_beq tok₁ ht]
  exact Twin.ite Iff.rfl skip_twin Twin.fail

theorem expectName_twin (e : Expectation) : Twin p Eq (expectName e) (expectName e) := by
  unfold expectName
  refine Twin.bind peek_twin fun tok₁ _ same => ?_
  rw [same, Token.nameText?_crlf]
  split
  · exact Twin.skip_bind (Twin.pure rfl)
  · exact Twin.fail

theorem skipWhile_twin {q : Token → Bool} (hs : ∀ r, q (.str (Text.crlf r)) = q (.str r))
    (hf : ∀ r, q (.fstr (Text.crlf r)) = q (.fstr r)) :
    ∀ fuel, Twin p Eq (skipWhile q fuel) (skipWhile q fuel) := by
  intro fuel
  induction fuel with
  | zero => exact Twin.pure rfl
  | succ fuel ih =>
    rw [skipWhile.eq_2]
    refine Twin.bind peek_twin fun tok₁ _ same => ?_
    rw [same, Token.crlf_blind (f := q) hs hf tok₁]
    exact Twin.ite Iff.rfl (Twin.skip_bind ih) (Twin.pure rfl)

theorem skipNewlines_twin : Twin p Eq skipNewlines skipNewlines := by
  unfold skipNewlines
  refine Twin.read_bind ?_
  rw [p.size_eq]
  exact skipWhile_twin (fun _ => rfl) (fun _ => rfl) _

theorem eatSemicolon_twin : Twin p Eq eatSemicolon eatSemicolon := by
  unfold eatSemicolon
  refine Twin.peek_bind (fun _ => rfl) (fun _ => rfl) fun _ => ?_
  split
  · exact Twin.pure rfl
  · exact Twin.skip_bind (Twin.peek_bind (fun _ => rfl) (fun _ => rfl) fun _ => by
      split <;> exact Twin.pure rfl)

theorem endLine_twin : Twin p Eq endLine endLine := by
  unfold endLine
  refine Twin.peek_bind (fun _ => rfl) (fun _ => rfl) fun _ => ?_
  split
  · exact skip_twin
  · exact Twin.pure rfl
  · exact Twin.pure rfl
  · exact Twin.fail

/-! ### Names -/

theorem dottedTail_twin : ∀ fuel, Twin p Eq (dottedTail fuel) (dottedTail fuel) := by
  intro fuel
  induction fuel with
  | zero => exact Twin.exhausted
  | succ fuel ih =>
    rw [dottedTail.eq_2]
    refine Twin.peek_bind (fun _ => rfl) (fun _ => rfl) fun _ => ?_
    split
    · exact Twin.skip_bind (Twin.bind_eq (Twin.discard (expectName_twin _)) fun _ => ih)
    · exact Twin.pure rfl

/-- A dotted name reads as texts alike up to line endings: its source text runs from its first
name to its last, with whatever stands between. -/
theorem dottedName_twin : Twin p Text.CrlfAlike dottedName dottedName := by
  unfold dottedName
  refine Twin.bind peekStart_twin fun a₁ a₂ starts => ?_
  refine Twin.bind_eq (Twin.discard (expectName_twin _)) fun _ => ?_
  refine Twin.read_bind ?_
  rw [p.size_eq]
  refine Twin.bind_eq (dottedTail_twin _) fun _ => ?_
  exact Twin.bind lastEnd_twin fun b₁ b₂ stops => text_twin starts stops

theorem asName_twin : Twin p Eq asName asName := by
  unfold asName
  refine Twin.peek_bind (fun _ => rfl) (fun _ => rfl) fun _ => ?_
  split
  · exact Twin.skip_bind (Twin.bind_eq (expectName_twin _) fun _ => Twin.pure rfl)
  · exact Twin.pure rfl

end Grammar

end PyTune
