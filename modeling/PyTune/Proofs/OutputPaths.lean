import Mathlib.Data.List.Induction
import Mathlib.Data.List.TakeDrop
import Mathlib.Data.List.TakeWhile
import PyTune.Path

/-!
# Where the optimised copy of a file goes

A path is its lead followed by its segments (`Path.write_lead_segments`), so each fact about
`Path.output` is a fact about lists of segments. The output is never the input, and sits
beside it under the name `FastName` gives (`Path.output_beside`).
-/

namespace PyTune.Path

/-- The components of a path, by which two paths name the same file: the root `/` or the `.`
that starts a relative path, then every segment that names a component. -/
def components (p : String) : List (List Char) :=
  (if (lead p).isEmpty then [] else [lead p]) ++ (segments p).filter isComponent

/-- `FastName f f'`: the optimised copy of a file named `f` is named `f'`. `_FAST` goes before
the last dot of `f` when that dot is not its first character, and after `f` otherwise. -/
inductive FastName : String → String → Prop
  | beforeDot (stem ext : List Char) (named : stem ≠ []) (last : '.' ∉ ext) :
      FastName (String.ofList (stem ++ '.' :: ext))
        (String.ofList (stem ++ "_FAST".toList ++ '.' :: ext))
  | atEnd (f : String)
      (noStem : ∀ stem ext, f.toList = stem ++ '.' :: ext → '.' ∉ ext → stem = []) :
      FastName f (f ++ "_FAST")

/-! ### Paths written from a lead and segments -/

/-- The path with lead `l` and segments `segs`. -/
def write (l : List Char) (segs : List (List Char)) : String :=
  String.ofList (l ++ ['/'].intercalate segs)

/-- Segments that read back as written after the lead `l`: at least one, none holding a
separator, and a text after the lead that starts no other lead. After the root anything may
follow; after `.` the first segment is empty; with no lead the text starts neither with a
separator nor with a `.` segment. -/
structure Layout (l : List Char) (segs : List (List Char)) : Prop where
  ne_nil : segs ≠ []
  no_sep : ∀ s ∈ segs, '/' ∉ s
  lead_cases : l = ['/'] ∨ (l = ['.'] ∧ segs.head? = some []) ∨
    (l = [] ∧ segs.head? ≠ some ['.'] ∧ (segs.head? = some [] → segs = [[]]))

theorem lead_cases (p : String) : lead p = [] ∨ lead p = ['/'] ∨ lead p = ['.'] := by
  unfold lead
  split <;> simp

theorem lead_starts (p : String) : lead p <+: p.toList := by
  unfold lead
  split <;> simp_all

/-- No segment of a split holds the separator. -/
theorem not_mem_of_mem_splitOn {xs s : List Char} (h : s ∈ xs.splitOn '/') : '/' ∉ s := by
  induction xs generalizing s with
  | nil => simp_all
  | cons x xs ih =>
    rw [List.splitOn_cons_eq_if_modifyHead] at h
    split at h
    · rcases List.mem_cons.1 h with rfl | h
      · simp
      · exact ih h
    · obtain ⟨r, rs, hr⟩ := List.exists_cons_of_ne_nil (List.splitOn_ne_nil '/' xs)
      rw [hr, List.modifyHead_cons] at h
      rcases List.mem_cons.1 h with rfl | h
      · rename_i sep
        simp only [List.mem_cons, not_or]
        exact ⟨fun e => sep (by simp [← e]), ih (hr ▸ List.mem_cons_self)⟩
      · exact ih (hr ▸ List.mem_cons_of_mem _ h)

/-- Every path is written from its own lead and segments. -/
theorem write_lead_segments (p : String) : write (lead p) (segments p) = p := by
  obtain ⟨rest, hrest⟩ := lead_starts p
  rw [write, segments, List.intercalate_splitOn, ← hrest, List.drop_left, hrest,
    String.ofList_toList]

/-- A segment that starts the text after no lead is neither empty nor `.`, unless the text is
empty. -/
theorem head_splitOn_of_noLead {cs : List Char} (root : ∀ t, cs ≠ '/' :: t) (dot : cs ≠ ['.'])
    (dotSep : ∀ t, cs ≠ '.' :: '/' :: t) :
    (cs.splitOn '/').head? ≠ some ['.'] ∧ ((cs.splitOn '/').head? = some [] → cs = []) := by
  match cs with
  | [] => simp
  | c :: cs =>
    have hc : c ≠ '/' := fun e => root cs (by rw [e])
    obtain ⟨r, rs, hr⟩ := List.exists_cons_of_ne_nil (List.splitOn_ne_nil '/' cs)
    rw [List.splitOn_cons_eq_if_modifyHead, if_neg (by simpa using hc), hr, List.modifyHead_cons]
    refine ⟨fun e => ?_, by simp⟩
    obtain ⟨rfl, rfl⟩ : c = '.' ∧ r = [] := by simpa using e
    cases cs with
    | nil => exact dot rfl
    | cons d ds =>
      by_cases hd : d = '/'
      · exact dotSep ds (by rw [hd])
      · rw [List.splitOn_cons_eq_if_modifyHead, if_neg (by simpa using hd)] at hr
        obtain ⟨r', rs', hr'⟩ := List.exists_cons_of_ne_nil (List.splitOn_ne_nil '/' ds)
        simp [hr'] at hr

theorem layout_lead_segments (p : String) : Layout (lead p) (segments p) := by
  refine ⟨List.splitOn_ne_nil _ _, fun s hs => not_mem_of_mem_splitOn hs, ?_⟩
  unfold segments lead
  split
  · exact .inl rfl
  · next h => exact .inr (.inl ⟨rfl, by simp [h]⟩)
  · next h => exact .inr (.inl ⟨rfl, by simp [h, List.splitOn_cons_eq_if_modifyHead]⟩)
  · next root dot dotSep =>
    obtain ⟨notDot, empty⟩ := head_splitOn_of_noLead (fun t e => root t e) dot
      (fun t e => dotSep t e)
    refine .inr (.inr ⟨rfl, by simpa using notDot, fun e => ?_⟩)
    simp [empty (by simpa using e)]

@[simp] theorem toList_write (l : List Char) (segs : List (List Char)) :
    (write l segs).toList = l ++ ['/'].intercalate segs :=
  String.toList_ofList

/-- A text that starts neither with a separator nor with a `.` segment has no lead. -/
theorem lead_of_noLead {cs : List Char} (root : ∀ t, cs ≠ '/' :: t) (dot : cs ≠ ['.'])
    (dotSep : ∀ t, cs ≠ '.' :: '/' :: t) : lead (String.ofList cs) = [] := by
  unfold lead
  rw [String.toList_ofList]
  split <;> simp_all

/-- Joining segments ends with the last one. -/
theorem intercalate_append_singleton {xs : List (List Char)} (h : xs ≠ []) (y : List Char) :
    ['/'].intercalate (xs ++ [y]) = ['/'].intercalate xs ++ '/' :: y := by
  induction xs with
  | nil => exact absurd rfl h
  | cons x xs ih =>
    cases xs with
    | nil => simp [List.intercalate_cons_cons]
    | cons x' xs' =>
      rw [List.cons_append, List.cons_append, List.intercalate_cons_cons, ← List.cons_append,
        ih (List.cons_ne_nil _ _), List.intercalate_cons_cons]
      simp

namespace Layout

variable {l : List Char} {segs : List (List Char)}

theorem lead_write (h : Layout l segs) : lead (write l segs) = l := by
  rcases h.lead_cases with rfl | ⟨rfl, hd⟩ | ⟨rfl, hd, hempty⟩
  · simp [lead, write]
  · obtain ⟨rest, rfl⟩ : ∃ rest, segs = [] :: rest := by
      cases segs <;> simp_all
    cases rest with
    | nil => simp [lead, write]
    | cons r rs => simp [lead, write, List.intercalate_cons_cons]
  · obtain ⟨x, rest, rfl⟩ := List.exists_cons_of_ne_nil h.ne_nil
    unfold write
    rw [List.nil_append]
    cases x with
    | nil => simp_all [lead]
    | cons c x =>
      have hc : c ≠ '/' := fun e => h.no_sep _ List.mem_cons_self (by simp [e])
      have notDot : c :: x ≠ ['.'] := by simpa using hd
      obtain ⟨tail, htail⟩ : ∃ tail, ['/'].intercalate ((c :: x) :: rest) = c :: (x ++ tail) := by
        cases rest with
        | nil => exact ⟨[], by simp⟩
        | cons r rs => exact ⟨'/' :: ['/'].intercalate (r :: rs), by simp [List.intercalate_cons_cons]⟩
      rw [htail]
      apply lead_of_noLead
      · intro t e
        exact hc (List.cons.inj e).1
      · intro e
        obtain ⟨rfl, hx⟩ := List.cons.inj e
        exact notDot (by simp_all)
      · intro t e
        obtain ⟨rfl, hx⟩ := List.cons.inj e
        cases x with
        | nil => exact notDot rfl
        | cons d x =>
          obtain ⟨rfl, -⟩ := List.cons.inj hx
          exact h.no_sep _ List.mem_cons_self (by simp)

theorem segments_write (h : Layout l segs) : segments (write l segs) = segs := by
  rw [segments, h.lead_write, toList_write, List.drop_left,
    List.splitOn_intercalate '/' h.no_sep h.ne_nil]

end Layout

/-! ### File names and parents, segment by segment -/

/-- Segments with those that name no component dropped from their end. -/
def trimEnd (segs : List (List Char)) : List (List Char) :=
  (segs.reverse.dropWhile (! isComponent ·)).reverse

theorem filter_trimEnd (segs : List (List Char)) :
    (trimEnd segs).filter isComponent = segs.filter isComponent := by
  induction segs using List.reverseRecOn with
  | nil => rfl
  | append_singleton segs x ih =>
    by_cases hx : isComponent x = true
    · simp [trimEnd, hx]
    · simp [trimEnd, hx, ← ih]

theorem trimEnd_append_nonComponent (segs : List (List Char)) {x : List Char}
    (hx : isComponent x = false) : trimEnd (segs ++ [x]) = trimEnd segs := by
  simp [trimEnd, hx]

theorem trimEnd_append_component (segs : List (List Char)) {x : List Char}
    (hx : isComponent x = true) : trimEnd (segs ++ [x]) = segs ++ [x] := by
  simp [trimEnd, hx]

/-- Trimmed segments are empty or end with a component. -/
theorem trimEnd_cases (segs : List (List Char)) :
    trimEnd segs = [] ∨ ∃ k x, trimEnd segs = k ++ [x] ∧ isComponent x = true := by
  induction segs using List.reverseRecOn with
  | nil => exact .inl rfl
  | append_singleton segs x ih =>
    by_cases hx : isComponent x = true
    · exact .inr ⟨segs, x, trimEnd_append_component segs hx, hx⟩
    · rw [trimEnd_append_nonComponent segs (by simpa using hx)]
      exact ih

theorem trimEnd_trimEnd (segs : List (List Char)) : trimEnd (trimEnd segs) = trimEnd segs := by
  rcases trimEnd_cases segs with h | ⟨k, x, h, hx⟩
  · rewrite [h]
    rfl
  · rw [h, trimEnd_append_component k hx]

theorem trimEnd_leading (segs : List (List Char)) : trimEnd segs <+: segs := by
  induction segs using List.reverseRecOn with
  | nil => exact List.prefix_refl _
  | append_singleton segs x ih =>
    by_cases hx : isComponent x = true
    · rewrite [trimEnd_append_component segs hx]
      exact List.prefix_refl _
    · rewrite [trimEnd_append_nonComponent segs (by simpa using hx)]
      exact ih.trans (List.prefix_append _ _)

/-- The file name and the parent of a path whose segments end with a component. -/
theorem fileName?_of_segments {p : String} {k : List (List Char)} {n : List Char}
    (h : segments p = k ++ [n]) (hn : isComponent n = true) (notUp : n ≠ ['.', '.']) :
    fileName? p = some (String.ofList n) := by
  simp [fileName?, h, hn, notUp]

theorem parent_of_segments {p : String} {k : List (List Char)} {n : List Char}
    (h : segments p = k ++ [n]) (hn : isComponent n = true) :
    parent p = write (lead p) (trimEnd k) := by
  simp [parent, write, trimEnd, h, hn]

/-- A path with a file name: its segments are some segments `a`, the file name, then segments
that name no component; its parent is written from `a` without its trailing non-components. -/
theorem fileName?_eq_some {p : String} {f : String} (h : fileName? p = some f) :
    ∃ a s b, segments p = a ++ s :: b ∧ isComponent s = true ∧
      (∀ x ∈ b, isComponent x = false) ∧ s ≠ ['.', '.'] ∧ f = String.ofList s ∧
      parent p = write (lead p) (trimEnd a) := by
  unfold fileName? at h
  split at h
  · next s found =>
    obtain ⟨hs, as, bs, hsplit, before⟩ := List.find?_eq_some_iff_append.1 found
    split at h
    · cases h
    · next notUp =>
      cases h
      have segs : segments p = bs.reverse ++ s :: as.reverse := by
        rw [← List.reverse_reverse (segments p), hsplit]
        simp
      refine ⟨bs.reverse, s, as.reverse, segs, hs, fun x hx => by simpa using before x (by simpa using hx),
        by simpa using notUp, rfl, ?_⟩
      have skip : (as ++ s :: bs).dropWhile (! isComponent ·) = s :: bs := by
        rw [List.dropWhile_append_of_pos (fun a ha => before a ha)]
        simp [hs]
      simp only [parent, write, hsplit, skip, trimEnd, List.reverse_reverse]
      rfl
  · cases h

namespace Layout

variable {l : List Char} {segs : List (List Char)}

/-- A non-empty prefix of a layout is a layout. -/
theorem of_leading (h : Layout l segs) {k : List (List Char)} (hk : k <+: segs) (ne : k ≠ []) :
    Layout l k := by
  obtain ⟨rest, rfl⟩ := hk
  have head : (k ++ rest).head? = k.head? := by
    obtain ⟨x, k', rfl⟩ := List.exists_cons_of_ne_nil ne
    rfl
  refine ⟨ne, fun s hs => h.no_sep s (List.mem_append_left _ hs), ?_⟩
  rcases h.lead_cases with hl | ⟨hl, hd⟩ | ⟨hl, hd, hempty⟩
  · exact .inl hl
  · exact .inr (.inl ⟨hl, head ▸ hd⟩)
  · refine .inr (.inr ⟨hl, head ▸ hd, fun e => ?_⟩)
    have whole := hempty (head.trans e)
    obtain ⟨x, k', rfl⟩ := List.exists_cons_of_ne_nil ne
    simp_all

end Layout

/-- The parent of a path with a file name has the path's lead, and its segments trim to the
segments before the file name. -/
theorem parent_layout {p : String} {a : List (List Char)} {s : List Char} {b : List (List Char)}
    (h : segments p = a ++ s :: b) (hp : parent p = write (lead p) (trimEnd a)) :
    lead (parent p) = lead p ∧ trimEnd (segments (parent p)) = trimEnd a := by
  rcases trimEnd_cases a with e | ⟨k, x, e, hx⟩
  · -- the parent is the lead alone
    rw [hp, e]
    rcases lead_cases p with hl | hl | hl <;> rw [hl] <;> exact ⟨rfl, rfl⟩
  · have pre : trimEnd a <+: segments p := h ▸ (trimEnd_leading a).trans (List.prefix_append _ _)
    have lay := (layout_lead_segments p).of_leading pre (by simp [e])
    rw [hp, lay.lead_write, lay.segments_write, trimEnd_trimEnd]
    exact ⟨rfl, rfl⟩

/-! ### Writing a name after a path -/

/-- Joining segments ends with the last one, after whatever the others give. -/
theorem intercalate_concat (xs : List (List Char)) :
    ∃ pre, ∀ y, ['/'].intercalate (xs ++ [y]) = pre ++ y := by
  by_cases h : xs = []
  · exact ⟨[], fun y => by simp [h]⟩
  · exact ⟨['/'].intercalate xs ++ ['/'], fun y => by rw [intercalate_append_singleton h]; simp⟩

theorem endsWith_sep_iff (q : String) : q.endsWith "/" = true ↔ ['/'] <:+ q.toList := by
  rw [← String.endsWith_toSlice, String.Slice.endsWith_string_iff]
  simp

/-- Writing a name `n` after a path `q` (with a separator, unless `q` is empty or ends with
one) adds `n` as one segment after those of `q`, a last empty one dropped. -/
theorem push_layout (q : String) {n : List Char} (hn : isComponent n = true) (sep : '/' ∉ n) :
    ∃ segs, (if !q.isEmpty && !q.endsWith "/" then q ++ "/" ++ String.ofList n
        else q ++ String.ofList n) = write (lead q) (segs ++ [n]) ∧
      Layout (lead q) (segs ++ [n]) ∧ trimEnd segs = trimEnd (segments q) := by
  have lay := layout_lead_segments q
  have whole : q.toList = lead q ++ ['/'].intercalate (segments q) := by
    rw [← toList_write, write_lead_segments]
  have isEmpty : q.isEmpty = true ↔ q.toList = [] := by simp
  have notEmpty : n ≠ [] := by rintro rfl; simp [isComponent] at hn
  have notDot : n ≠ ['.'] := by rintro rfl; simp [isComponent] at hn
  obtain ⟨segs, x, hsegs⟩ : ∃ segs x, segments q = segs ++ [x] := by
    rcases List.eq_nil_or_concat (segments q) with e | ⟨segs, x, e⟩
    · exact absurd e lay.ne_nil
    · exact ⟨segs, x, by simpa using e⟩
  obtain ⟨pre, hpre⟩ := intercalate_concat segs
  have text : q.toList = lead q ++ (pre ++ x) := by rw [whole, hsegs, hpre]
  have noSep : ∀ s ∈ segs ++ [n], '/' ∉ s := by
    intro s hs
    rcases List.mem_append.1 hs with hs | hs
    · exact lay.no_sep s (by rw [hsegs]; exact List.mem_append_left _ hs)
    · rw [List.mem_singleton.1 hs]
      exact sep
  split
  · next plain =>
    have nonEmpty : q.toList ≠ [] := fun e => by simp [isEmpty.2 e] at plain
    refine ⟨segs ++ [x], ?_, ⟨by simp, ?_, ?_⟩, by rw [hsegs]⟩
    · apply String.ext
      rw [toList_write, intercalate_append_singleton (by simp), ← hsegs]
      simp [whole]
    · rw [← hsegs]
      intro s hs
      rcases List.mem_append.1 hs with hs | hs
      · exact lay.no_sep s hs
      · rw [List.mem_singleton.1 hs]
        exact sep
    · have head : (segs ++ [x] ++ [n]).head? = (segments q).head? := by
        rw [hsegs]
        cases segs <;> rfl
      rw [head]
      rcases lay.lead_cases with hl | hl | ⟨hl, hd, hempty⟩
      · exact .inl hl
      · exact .inr (.inl hl)
      · refine .inr (.inr ⟨hl, hd, fun e => ?_⟩)
        -- only the empty path has an empty first segment and no lead
        have one := hempty e
        rw [one] at whole
        simp [hl] at whole
        exact absurd (by simp [whole]) nonEmpty
  · next ended =>
    have lastEmpty : x = [] := by
      by_contra hx
      obtain ⟨x', c, hx'⟩ : ∃ x' c, x = x' ++ [c] := by
        rcases List.eq_nil_or_concat x with e | ⟨x', c, e⟩
        · exact absurd e hx
        · exact ⟨x', c, by simpa using e⟩
      have notSep : c ≠ '/' := fun e =>
        lay.no_sep x (by rw [hsegs]; simp) (by simp [hx', e])
      have last : q.toList.getLast? = some c := by rw [text, hx']; simp
      rw [Bool.and_eq_true, not_and_or] at ended
      rcases ended with empty | slash
      · have : q.toList = [] := isEmpty.1 (by simpa using empty)
        simp [this] at last
      · obtain ⟨t, ht⟩ := (endsWith_sep_iff q).1 (by simpa using slash)
        rw [← ht] at last
        simp at last
        exact notSep last.symm
    subst lastEmpty
    refine ⟨segs, ?_, ⟨by simp, noSep, ?_⟩, ?_⟩
    · apply String.ext
      rw [toList_write, hpre]
      simp [text]
    · rcases lay.lead_cases with hl | ⟨hl, hd⟩ | ⟨hl, hd, hempty⟩
      · exact .inl hl
      · cases segs with
        | nil =>
          -- the path `.` alone takes a separator before a name
          have pre0 : pre = [] := by simpa using (hpre []).symm
          have dotOnly : q.toList = ['.'] := by rewrite [text, hl, pre0]; rfl
          have e1 : q.isEmpty = false := by
            cases h : q.isEmpty
            · rfl
            · simp [isEmpty.1 h] at dotOnly
          have e2 : q.endsWith "/" = false := by
            cases h : q.endsWith "/"
            · rfl
            · obtain ⟨t, ht⟩ := (endsWith_sep_iff q).1 h
              have := congrArg List.getLast? (ht.trans dotOnly)
              simp at this
          simp [e1, e2] at ended
        | cons y ys => exact .inr (.inl ⟨hl, by simpa [hsegs] using hd⟩)
      · refine .inr (.inr ⟨hl, ?_, ?_⟩)
        · cases segs with
          | nil => simpa using notDot
          | cons y ys => simpa [hsegs] using hd
        · cases segs with
          | nil => simp [notEmpty]
          | cons y ys =>
            intro e
            have := hempty (by simpa [hsegs] using e)
            simp [hsegs] at this
    · rw [hsegs, trimEnd_append_nonComponent segs (by rfl)]

theorem Layout.components_write {l : List Char} {segs : List (List Char)} (h : Layout l segs) :
    components (write l segs) = (if l.isEmpty then [] else [l]) ++ segs.filter isComponent := by
  rw [components, h.lead_write, h.segments_write]

/-! ### The name of the copy -/

/-- The name of the copy for a stem and an optional extension. -/
def markedName : String × Option String → String
  | (stem, some e) => stem ++ "_FAST." ++ e
  | (stem, none) => stem ++ "_FAST"

theorem output_of_fileName {p f : String} (h : fileName? p = some f) :
    output p = withFileName p (markedName (splitExtension f)) := by
  unfold output
  rw [h]
  dsimp only
  rcases hs : splitExtension f with ⟨stem, ext⟩
  cases ext <;> rfl

theorem output_of_no_fileName {p : String} (h : fileName? p = none) :
    output p = withFileName p "_FAST" := by
  unfold output
  rewrite [h]
  rfl

namespace FastName

variable {f f' : String}

/-- The copy's name holds the characters of the name and those of `_FAST`. -/
theorem mem_iff (h : FastName f f') (c : Char) :
    c ∈ f'.toList ↔ c ∈ f.toList ∨ c ∈ "_FAST".toList := by
  cases h with
  | beforeDot stem ext => simp only [String.toList_ofList, List.mem_append, List.mem_cons]; tauto
  | atEnd => simp

theorem length_eq (h : FastName f f') : f'.toList.length = f.toList.length + 5 := by
  cases h with
  | beforeDot stem ext => simp; omega
  | atEnd => simp

/-- A file name that is a path component and holds no separator gives one. -/
theorem isComponent (h : FastName f f') : Path.isComponent f'.toList = true := by
  have mark : '_' ∈ f'.toList := (h.mem_iff '_').2 (.inr (by decide))
  cases hf : f'.toList with
  | nil => simp [hf] at mark
  | cons c cs =>
    simp only [Path.isComponent, List.isEmpty_cons, Bool.not_false, Bool.true_and, bne_iff_ne,
      ne_eq]
    rintro ⟨rfl, rfl⟩
    simp [hf] at mark

theorem not_up (h : FastName f f') : f'.toList ≠ ['.', '.'] := fun e => by
  have mark : '_' ∈ f'.toList := (h.mem_iff '_').2 (.inr (by decide))
  simp [e] at mark

theorem no_sep (h : FastName f f') (sep : '/' ∉ f.toList) : '/' ∉ f'.toList := by
  rw [h.mem_iff]
  rintro (inF | inMark)
  · exact sep inF
  · simp at inMark

end FastName

/-- Splitting a file name at its extension and marking the stem gives the name `FastName`
prescribes: `_FAST` before the last dot, unless that dot starts the name. -/
theorem fastName_splitExtension (f : String) (notUp : f ≠ "..") :
    FastName f (markedName (splitExtension f)) := by
  have whole := List.takeWhile_append_dropWhile (p := (· != '.')) (l := f.toList.reverse)
  have noDot : '.' ∉ f.toList.reverse.takeWhile (· != '.') := fun m => by
    simpa using List.mem_takeWhile_imp m
  simp only [splitExtension, beq_iff_eq, notUp, if_false, List.span_eq_takeWhile_dropWhile]
  split
  · -- no dot at all
    next rest split =>
    obtain ⟨-, hrest⟩ := Prod.mk.inj split
    refine .atEnd f fun stem ext e _ => ?_
    rw [hrest, List.append_nil] at whole
    have dot : '.' ∈ f.toList.reverse := by rw [List.mem_reverse, e]; simp
    rw [← whole] at dot
    exact absurd dot noDot
  · next afterRev d beforeRev split =>
    obtain ⟨hafter, hrest⟩ := Prod.mk.inj split
    have isDot : d = '.' := by
      have := List.head_dropWhile_not (· != '.') (l := f.toList.reverse) (by simp [hrest])
      simpa [hrest] using this
    subst isDot
    have split : f.toList = beforeRev.reverse ++ '.' :: afterRev.reverse := by
      rw [← List.reverse_reverse f.toList, ← whole, hrest, hafter]
      simp
    have extNoDot : '.' ∉ afterRev.reverse := by simpa [hafter] using noDot
    split
    · -- the only dot starts the name
      next empty =>
      rw [List.isEmpty_iff] at empty
      subst empty
      refine .atEnd f fun stem ext e last => ?_
      rw [split] at e
      cases stem with
      | nil => rfl
      | cons c stem =>
        obtain ⟨-, rest⟩ := List.cons.inj (by simpa using e)
        exact absurd (by rw [rest]; simp) extNoDot
    · next named =>
      have := FastName.beforeDot beforeRev.reverse afterRev.reverse (by simpa using named) extNoDot
      rw [← split, String.ofList_toList] at this
      convert this using 1
      apply String.ext
      simp [markedName]

/-! ### The output path -/

/-- The part of the components that the lead of a path gives. -/
theorem components_eq (p : String) :
    components p = (if (lead p).isEmpty then [] else [lead p]) ++ (segments p).filter isComponent :=
  rfl

/-- With a file name `f`, the output is written from the lead of `p`, some segments and the
name of the copy; the same segments followed by `f` give the components of `p`, and their
trimmed form its parent. -/
theorem output_named {p f : String} (hf : fileName? p = some f) :
    ∃ name segs, FastName f name ∧ output p = write (lead p) (segs ++ [name.toList]) ∧
      Layout (lead p) (segs ++ [name.toList]) ∧ parent p = write (lead p) (trimEnd segs) ∧
      components p =
        (if (lead p).isEmpty then [] else [lead p]) ++ segs.filter isComponent ++ [f.toList] := by
  obtain ⟨a, s, b, hsegs, hs, hb, notUp, rfl, hpar⟩ := fileName?_eq_some hf
  have out := output_of_fileName hf
  have fast := fastName_splitExtension (String.ofList s) (fun e => notUp (by
    simpa using congrArg String.toList e))
  generalize markedName (splitExtension (String.ofList s)) = name at fast out
  have noSep : '/' ∉ s := (layout_lead_segments p).no_sep s (by rw [hsegs]; simp)
  obtain ⟨segs, hw, lay, htrim⟩ :=
    push_layout (parent p) fast.isComponent (fast.no_sep (by simpa using noSep))
  obtain ⟨plead, ptrim⟩ := parent_layout hsegs hpar
  rw [plead, String.ofList_toList] at hw
  rw [plead] at lay
  refine ⟨name, segs, fast, ?_, lay, by rw [hpar, htrim, ptrim], ?_⟩
  · rewrite [out, ← hw, withFileName, hf]
    rfl
  · have before : segs.filter isComponent = a.filter isComponent := by
      rw [← filter_trimEnd segs, htrim, ptrim, filter_trimEnd]
    rw [components_eq, hsegs, before, String.toList_ofList]
    simp [hs, List.filter_eq_nil_iff.2 (fun x hx => by simpa using hb x hx)]

/-- With no file name, the output is written from the lead of `p` and segments that keep the
components of `p`, then `_FAST`. -/
theorem output_unnamed {p : String} (hf : fileName? p = none) :
    ∃ segs, output p = write (lead p) (segs ++ ["_FAST".toList]) ∧
      Layout (lead p) (segs ++ ["_FAST".toList]) ∧
      components p = (if (lead p).isEmpty then [] else [lead p]) ++ segs.filter isComponent := by
  obtain ⟨segs, hw, lay, htrim⟩ := push_layout p (n := "_FAST".toList) (by decide) (by decide)
  refine ⟨segs, ?_, lay, ?_⟩
  · rewrite [output_of_no_fileName hf, ← hw, withFileName, hf]
    rfl
  · rw [components_eq, ← filter_trimEnd (segments p), ← htrim, filter_trimEnd]

/-- The optimised copy of a file is never the file itself. Beside a file named `f` it has the
same parent and the name that `FastName` gives; a path with no file name gets `_FAST` pushed
as a new last component. -/
theorem output_beside (p : String) :
    components (output p) ≠ components p ∧
      (∀ f, fileName? p = some f →
        parent (output p) = parent p ∧ ∃ f', FastName f f' ∧ fileName? (output p) = some f') ∧
      (fileName? p = none → components (output p) = components p ++ ["_FAST".toList]) := by
  cases hf : fileName? p with
  | some f =>
    obtain ⟨name, segs, fast, out, lay, hpar, hcomp⟩ := output_named hf
    have outSegs : segments (output p) = segs ++ [name.toList] := by rw [out, lay.segments_write]
    refine ⟨fun e => ?_, fun f' e => ?_, fun e => absurd e (by simp)⟩
    · -- the last components are the two names, of different lengths
      rw [out, lay.components_write, hcomp, List.filter_append, List.filter_cons,
        if_pos fast.isComponent, List.filter_nil, ← List.append_assoc] at e
      have := congrArg List.length (List.singleton_inj.1 (List.append_cancel_left e))
      rw [fast.length_eq] at this
      simp at this
    · cases e
      refine ⟨?_, name, fast, ?_⟩
      · rw [parent_of_segments outSegs fast.isComponent, out, lay.lead_write, hpar]
      · rw [fileName?_of_segments outSegs fast.isComponent fast.not_up, String.ofList_toList]
  | none =>
    obtain ⟨segs, out, lay, hcomp⟩ := output_unnamed hf
    have pushed : components (output p) = components p ++ ["_FAST".toList] := by
      rw [out, lay.components_write, hcomp, List.filter_append, List.filter_cons,
        if_pos (show isComponent "_FAST".toList = true by decide), List.filter_nil,
        List.append_assoc]
    refine ⟨fun e => ?_, fun f e => absurd e (by simp), fun _ => pushed⟩
    have := congrArg List.length (pushed.symm.trans e)
    simp at this

example : output "archive.tar.py" = "archive.tar_FAST.py" := by decide +kernel

example : output ".bashrc" = ".bashrc_FAST" := by decide +kernel

example : output "pkg/sub/" = "pkg/sub_FAST" := by decide +kernel

end PyTune.Path
