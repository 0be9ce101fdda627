import Mathlib
import PyTune.Tree.Render

/-!
# Splicing text into a source

`splice src cs` writes each chunk's text in at its byte offset. When the offsets rise between
characters (`Splices`), every character of `src` is kept in order and only the chunks' texts
are added (`Splices.erase`).
-/

namespace PyTune

open String (utf8Len)

/-! ### Offsets between characters -/

/-- `a` is the offset of a place between two characters of `src`, or of one of its ends. -/
def Boundary (src : String) (a : Nat) : Prop :=
  ∃ pre, pre <+: src.toList ∧ utf8Len pre = a

namespace Boundary

variable {src : String}

theorem zero (src : String) : Boundary src 0 := ⟨[], List.nil_prefix, rfl⟩

theorem size (src : String) : Boundary src src.utf8ByteSize :=
  ⟨src.toList, List.prefix_refl _, String.utf8Len_toList src⟩

theorem le_size {a : Nat} (h : Boundary src a) : a ≤ src.utf8ByteSize := by
  obtain ⟨pre, hp, rfl⟩ := h
  rw [← String.utf8Len_toList]
  exact String.utf8Len_le_of_prefix hp

/-- Of two prefixes of the source, the one with fewer bytes is a prefix of the other. -/
theorem prefix_of_utf8Len_le {p q : List Char} (hp : p <+: src.toList) (hq : q <+: src.toList)
    (h : utf8Len p ≤ utf8Len q) : p <+: q := by
  rcases List.prefix_or_prefix_of_prefix hp hq with hpq | hqp
  · exact hpq
  · obtain ⟨t, rfl⟩ := hqp
    have empty : utf8Len t = 0 := by
      simp only [String.utf8Len_append] at h
      omega
    rw [String.utf8Len_eq_zero.mp empty, List.append_nil]

end Boundary

/-- The text between the ends of two prefixes of the source is the characters between them. -/
theorem extract_prefixes {src : String} {p q : List Char} (hpq : p <+: q) (hq : q <+: src.toList) :
    String.Pos.Raw.extract src ⟨utf8Len p⟩ ⟨utf8Len q⟩ = String.ofList (q.drop p.length) := by
  obtain ⟨seg, rfl⟩ := hpq
  obtain ⟨rest, hrest⟩ := hq
  have whole : src = String.ofList (p ++ seg ++ rest) := by
    rw [hrest, String.ofList_toList]
  rw [whole, String.utf8Len_append, String.extract_of_valid, List.drop_left]

theorem extract_self (src : String) (a : Nat) : String.Pos.Raw.extract src ⟨a⟩ ⟨a⟩ = "" := by
  simp [String.Pos.Raw.extract]

/-- Between three places in order, the text from the first to the second and from the second
to the third is the text from the first to the third. -/
theorem extract_append {src : String} {a b c : Nat} (ha : Boundary src a) (hb : Boundary src b)
    (hc : Boundary src c) (hab : a ≤ b) (hbc : b ≤ c) :
    String.Pos.Raw.extract src ⟨a⟩ ⟨b⟩ ++ String.Pos.Raw.extract src ⟨b⟩ ⟨c⟩ =
      String.Pos.Raw.extract src ⟨a⟩ ⟨c⟩ := by
  obtain ⟨pa, hpa, rfl⟩ := ha
  obtain ⟨pb, hpb, rfl⟩ := hb
  obtain ⟨pc, hpc, rfl⟩ := hc
  have hab' := Boundary.prefix_of_utf8Len_le hpa hpb hab
  have hbc' := Boundary.prefix_of_utf8Len_le hpb hpc hbc
  rw [extract_prefixes hab' hpb, extract_prefixes hbc' hpc,
    extract_prefixes (hab'.trans hbc') hpc, ← String.ofList_append]
  obtain ⟨s₁, rfl⟩ := hab'
  obtain ⟨s₂, rfl⟩ := hbc'
  simp

/-! ### Chunks -/

/-- A text to write into a source at a byte offset. -/
structure Chunk where
  offset : Nat
  text : String
deriving DecidableEq, Repr

/-- The offsets of chunks rise from `lo` and stay at most `hi`, each at a place between two
characters of the source. -/
def Rising (src : String) : Nat → List Chunk → Nat → Prop
  | lo, [], hi => lo ≤ hi
  | lo, c :: cs, hi => lo ≤ c.offset ∧ Boundary src c.offset ∧ Rising src c.offset cs hi

/-- The source from offset `lo` up to `hi`, with each chunk written in at its offset. -/
def spliceFrom (src : String) : Nat → List Chunk → Nat → String
  | lo, [], hi => String.Pos.Raw.extract src ⟨lo⟩ ⟨hi⟩
  | lo, c :: cs, hi =>
    String.Pos.Raw.extract src ⟨lo⟩ ⟨c.offset⟩ ++ c.text ++ spliceFrom src c.offset cs hi

/-- The whole source with each chunk written in at its offset. -/
def splice (src : String) (cs : List Chunk) : String :=
  spliceFrom src 0 cs src.utf8ByteSize

example : splice "ab\n" [⟨0, "# c\n"⟩, ⟨3, "x\n"⟩] = "# c\nab\nx\n" := by decide

/-- `out` is the source with the chunks written in, at offsets that rise, each between two
characters. -/
structure Splices (src : String) (cs : List Chunk) (out : String) : Prop where
  rising : Rising src 0 cs src.utf8ByteSize
  eq : out = splice src cs

section

variable {src : String}

theorem Rising.le {lo hi : Nat} : ∀ {cs : List Chunk}, Rising src lo cs hi → lo ≤ hi
  | [], h => h
  | _ :: _, ⟨hlo, _, h⟩ => Nat.le_trans hlo h.le

theorem Rising.append {lo mid hi : Nat} :
    ∀ {cs ds : List Chunk}, Rising src lo cs mid → Rising src mid ds hi → Rising src lo (cs ++ ds) hi
  | [], [], hc, hd => Nat.le_trans hc hd
  | [], _ :: _, hc, ⟨hlo, hb, hd⟩ => ⟨Nat.le_trans hc hlo, hb, hd⟩
  | _ :: _, _, ⟨hlo, hb, hc⟩, hd => ⟨hlo, hb, hc.append hd⟩

theorem Rising.weaken {lo hi hi' : Nat} (hle : hi ≤ hi') :
    ∀ {cs : List Chunk}, Rising src lo cs hi → Rising src lo cs hi'
  | [], h => Nat.le_trans h hle
  | _ :: _, ⟨hlo, hb, h⟩ => ⟨hlo, hb, h.weaken hle⟩

/-- A chunk at `mid`, after chunks that rise to `mid`. -/
theorem Rising.snoc {lo mid hi : Nat} {cs : List Chunk} (h : Rising src lo cs mid)
    (hmid : Boundary src mid) (hle : mid ≤ hi) (t : String) :
    Rising src lo (cs ++ [⟨mid, t⟩]) hi :=
  h.append ⟨Nat.le_refl _, hmid, hle⟩

/-- Copying on from where the last chunk went: the spliced text reaches further. -/
theorem spliceFrom_extend {lo mid hi : Nat} (hmid : Boundary src mid) (hhi : Boundary src hi)
    (hle : mid ≤ hi) :
    ∀ {cs : List Chunk}, Boundary src lo → Rising src lo cs mid →
      spliceFrom src lo cs mid ++ String.Pos.Raw.extract src ⟨mid⟩ ⟨hi⟩ = spliceFrom src lo cs hi
  | [], hlo, h => extract_append hlo hmid hhi h hle
  | c :: cs, _, ⟨_, hb, h⟩ => by
    simp only [spliceFrom, String.append_assoc]
    rw [spliceFrom_extend hmid hhi hle hb h]

/-- Writing a text where the copying has got to adds a chunk there. -/
theorem spliceFrom_write {lo mid : Nat} (t : String) :
    ∀ cs : List Chunk, spliceFrom src lo cs mid ++ t = spliceFrom src lo (cs ++ [⟨mid, t⟩]) mid
  | [] => by simp [spliceFrom, extract_self]
  | c :: cs => by
    simp only [spliceFrom, List.cons_append, String.append_assoc]
    rw [spliceFrom_write t cs]

/-- With their texts left out, the chunks give back the source between `lo` and `hi`. -/
theorem spliceFrom_erase {lo hi : Nat} (hhi : Boundary src hi) :
    ∀ {cs : List Chunk}, Boundary src lo → Rising src lo cs hi →
      spliceFrom src lo (cs.map fun c => ⟨c.offset, ""⟩) hi = String.Pos.Raw.extract src ⟨lo⟩ ⟨hi⟩
  | [], _, _ => rfl
  | c :: cs, hlo, ⟨hle, hb, h⟩ => by
    simp only [List.map_cons, spliceFrom, String.append_empty]
    rw [spliceFrom_erase hhi hb h, extract_append hlo hb hhi hle h.le]

/-- A spliced text keeps the source: without the chunks' texts it is the source itself. -/
theorem Splices.erase {cs : List Chunk} {out : String} (h : Splices src cs out) :
    splice src (cs.map fun c => ⟨c.offset, ""⟩) = src := by
  unfold splice
  rw [spliceFrom_erase (Boundary.size src) (Boundary.zero src) h.rising]
  exact String.extract_zero_rawEndPos src

end

end PyTune
