-- SUMMARY: Places in a text by line and column, and the components and the trimmed form of texts put behind one another.
import Mathlib.Data.List.DropRight
import Mathlib.Data.List.Induction
import Mathlib.Data.List.Nodup
import LogoSyntax.Proofs.Token.Reading

/-!
# Places in a text

`place before` is the line and column of a character that has `before` in front of
it, and `textFrom` cuts a text off at a place: it gives what is left of the line and
the lines behind it. The two belong together (`textFrom_place`).

Blank text between two texts keeps their components apart (`componentsFrom_append`),
and trimming a text around a word trims what stands on either side of the word
(`trim_around_word`).
-/

namespace LogoSyntax

open Text

namespace Text

/-! ## Lines and columns -/

/-- The place behind a character that stands in the given one. -/
def nextPlace (p : Nat × Nat) (c : Char) : Nat × Nat :=
  if c = '\n' then (p.1 + 1, 1) else (p.1, p.2 + 1)

/-- The line and column behind a text, both counted from one. -/
def place (before : List Char) : Nat × Nat :=
  before.foldl nextPlace (1, 1)

@[simp] theorem place_nil : place [] = (1, 1) := rfl

theorem place_concat (before : List Char) (c : Char) :
    place (before ++ [c]) = nextPlace (place before) c := by
  rw [place, List.foldl_append]
  rfl

theorem place_newline (before : List Char) :
    place (before ++ ['\n']) = ((place before).1 + 1, 1) :=
  place_concat before '\n'

theorem place_of_ne {c : Char} (hc : c ≠ '\n') (before : List Char) :
    place (before ++ [c]) = ((place before).1, (place before).2 + 1) := by
  rw [place_concat, nextPlace, if_neg hc]

theorem place_pos (before : List Char) : 0 < (place before).1 ∧ 0 < (place before).2 := by
  induction before using List.reverseRecOn with
  | nil => exact ⟨Nat.one_pos, Nat.one_pos⟩
  | append_singleton before c ih =>
    rw [place_concat, nextPlace]
    split
    · exact ⟨Nat.succ_pos _, Nat.one_pos⟩
    · exact ⟨ih.1, Nat.succ_pos _⟩

/-- What a text holds from a place on: the end of a line, and the lines behind it. -/
def textFrom (cs : List Char) (p : Nat × Nat) : List (List Char) :=
  ((cs.splitOn '\n').drop (p.1 - 1)).modifyHead (List.drop (p.2 - 1))

theorem textFrom_next_line {p : Nat × Nat} (hp : 0 < p.1) (cs : List Char) :
    textFrom cs (p.1 + 1, 1) = (textFrom cs p).tail := by
  rw [textFrom, textFrom, List.tail_modifyHead, List.tail_drop, Nat.sub_add_cancel hp]
  exact congrFun List.modifyHead_id _

theorem textFrom_next_col {p : Nat × Nat} (hp : 0 < p.2) (cs : List Char) :
    textFrom cs (p.1, p.2 + 1) = (textFrom cs p).modifyHead List.tail := by
  have hcol : p.2 + 1 - 1 = p.2 - 1 + 1 := by omega
  rw [textFrom, textFrom, List.modifyHead_modifyHead, hcol]
  exact congrArg (List.modifyHead · _) (funext fun line => (List.tail_drop ..).symm)

/-- A text is cut off at the place where it begins behind another one. -/
theorem textFrom_place (before rest : List Char) :
    textFrom (before ++ rest) (place before) = rest.splitOn '\n' := by
  induction before using List.reverseRecOn generalizing rest with
  | nil =>
    obtain ⟨piece, pieces, hs⟩ := List.exists_cons_of_ne_nil (List.splitOn_ne_nil '\n' rest)
    simp [textFrom, hs]
  | append_singleton before c ih =>
    obtain ⟨hline, hcol⟩ := place_pos before
    rw [List.append_assoc, List.singleton_append]
    by_cases hc : c = '\n'
    · subst hc
      rw [place_newline, textFrom_next_line hline, ih, splitOn_newline, List.tail_cons]
    · rw [place_of_ne hc, textFrom_next_col hcol, ih, splitOn_cons_of_ne hc,
        List.modifyHead_modifyHead]
      exact congrFun List.modifyHead_id _

/-- The text in some line and column begins with `raw`. -/
def PointsAt (cs : List Char) (line col : Nat) (raw : String) : Prop :=
  0 < line ∧ 0 < col ∧ ∃ text, (textFrom cs (line, col)).head? = some text ∧ raw.toList <+: text

theorem prefix_of_head_splitOn {cs text : List Char} (h : (cs.splitOn '\n').head? = some text) :
    text <+: cs := by
  induction cs generalizing text with
  | nil =>
    obtain rfl : [] = text := by simpa using h
    exact List.nil_prefix
  | cons c cs ih =>
    by_cases hc : c = '\n'
    · subst hc
      rw [splitOn_newline] at h
      obtain rfl : [] = text := by simpa using h
      exact List.nil_prefix
    · rw [splitOn_cons_of_ne hc, List.head?_modifyHead] at h
      obtain ⟨piece, hpiece, rfl⟩ := Option.map_eq_some_iff.1 h
      exact (List.prefix_cons_inj c).2 (ih hpiece)

/-- What a text holds in its first line and column it begins with. -/
theorem PointsAt.prefix_of_first {cs : List Char} {raw : String} (h : PointsAt cs 1 1 raw) :
    raw.toList <+: cs := by
  obtain ⟨-, -, text, htext, hraw⟩ := h
  rw [show textFrom cs (1, 1) = _ from textFrom_place [] cs] at htext
  exact hraw.trans (prefix_of_head_splitOn htext)

theorem splitOn_word_append {w : List Char} (h : '\n' ∉ w) (cs : List Char) :
    (w ++ cs).splitOn '\n' = (cs.splitOn '\n').modifyHead (w ++ ·) := by
  induction w with
  | nil => exact (congrFun List.modifyHead_id _).symm
  | cons c w ih =>
    obtain ⟨hc, hw⟩ := not_or.1 (mt List.mem_cons.2 h)
    rw [List.cons_append, splitOn_cons_of_ne (Ne.symm hc), ih hw, List.modifyHead_modifyHead]
    rfl

theorem newline_not_mem {w : List Char} (hw : IsWord w) : '\n' ∉ w := by
  intro h
  simpa [isBlank] using hw.2 _ h

/-- The place behind `before` points at a word that stands there. -/
theorem pointsAt_place {w : List Char} (hw : IsWord w) (before behind : List Char) :
    PointsAt (before ++ w ++ behind) (place before).1 (place before).2 (String.ofList w) := by
  obtain ⟨hline, hcol⟩ := place_pos before
  obtain ⟨piece, pieces, hs⟩ := List.exists_cons_of_ne_nil (List.splitOn_ne_nil '\n' behind)
  refine ⟨hline, hcol, w ++ piece, ?_, by simp⟩
  rw [List.append_assoc, textFrom_place, splitOn_word_append (newline_not_mem hw), hs]
  rfl

/-! ## Trimming -/

theorem isBlank_of_mem {cs : List Char} (h : isBlankText cs = true) {c : Char} (hc : c ∈ cs) :
    isBlank c = true :=
  List.all_eq_true.1 h c hc

theorem trimLeft_append_of_blank {lead : List Char} (h : isBlankText lead = true)
    (cs : List Char) : trimLeft (lead ++ cs) = trimLeft cs :=
  List.dropWhile_append_of_pos fun _ hc => isBlank_of_mem h hc

theorem trimRight_append_of_blank {trail : List Char} (h : isBlankText trail = true)
    (cs : List Char) : trimRight (cs ++ trail) = trimRight cs := by
  have hreverse : isBlankText trail.reverse = true := by simpa [isBlankText] using h
  rw [trimRight, trimRight, List.reverse_append]
  exact congrArg List.reverse (trimLeft_append_of_blank hreverse cs.reverse)

theorem trim_append_of_blank {trail : List Char} (h : isBlankText trail = true)
    (cs : List Char) : trim (cs ++ trail) = trim cs := by
  rw [trim, trim, trimLeft, trimLeft, List.dropWhile_append]
  split
  · next hnil =>
    have htrail : trail.dropWhile isBlank = [] := by
      simpa [trimLeft] using trimLeft_append_of_blank h []
    rw [htrail, List.isEmpty_iff.1 hnil]
  · exact trimRight_append_of_blank h _

theorem trimLeft_before_word {w : List Char} (hw : IsWord w) (before behind : List Char) :
    trimLeft (before ++ w ++ behind) = trimLeft before ++ w ++ behind := by
  obtain ⟨c, w, rfl⟩ := List.exists_cons_of_ne_nil hw.1
  have hc := hw.2 c List.mem_cons_self
  rw [List.append_assoc, trimLeft, List.dropWhile_append, List.cons_append,
    List.dropWhile_cons_of_neg (by simp [hc]), List.append_assoc, List.cons_append]
  split
  · next h => rw [trimLeft, List.isEmpty_iff.1 h, List.nil_append]
  · rfl

/-- Dropping at the back of two texts stops in the second one, if not before. -/
theorem rdropWhile_append {p : Char → Bool} {c : Char} (h : p c = false) (cs ds : List Char) :
    (cs ++ [c] ++ ds).rdropWhile p = cs ++ [c] ++ ds.rdropWhile p := by
  have hreverse : (cs ++ [c] ++ ds).reverse = ds.reverse ++ c :: cs.reverse := by simp
  rw [List.rdropWhile, List.rdropWhile, hreverse, List.dropWhile_append]
  split
  · next hnil => simp [List.isEmpty_iff.1 hnil, h]
  · simp

theorem trimRight_behind_word {w : List Char} (hw : IsWord w) (before behind : List Char) :
    trimRight (before ++ w ++ behind) = before ++ w ++ trimRight behind := by
  obtain ⟨front, c, rfl⟩ := exists_append_singleton hw.1
  have hc := hw.2 c (by simp)
  rw [trimRight_eq_rdropWhile, trimRight_eq_rdropWhile, ← List.append_assoc]
  exact rdropWhile_append hc (before ++ front) behind

/-- Around a word, a text is trimmed on either side of it. -/
theorem trim_around_word {w : List Char} (hw : IsWord w) (before behind : List Char) :
    trim (before ++ w ++ behind) = trimLeft before ++ w ++ trimRight behind := by
  rw [trim, trimLeft_before_word hw, trimRight_behind_word hw]

theorem exists_eq_append_trimLeft (cs : List Char) :
    ∃ lead, cs = lead ++ trimLeft cs ∧ isBlankText lead = true :=
  ⟨cs.takeWhile isBlank, List.takeWhile_append_dropWhile.symm, List.all_takeWhile⟩

theorem exists_eq_trimRight_append (cs : List Char) :
    ∃ trail, cs = trimRight cs ++ trail ∧ isBlankText trail = true := by
  refine ⟨cs.rtakeWhile isBlank, List.rdropWhile_append_rtakeWhile.symm, ?_⟩
  exact List.all_eq_true.2 fun c hc => List.mem_rtakeWhile_imp hc

/-- A text is its trimmed form with blank text on either side. -/
theorem exists_eq_append_trim (cs : List Char) :
    ∃ lead trail, cs = lead ++ trim cs ++ trail ∧ isBlankText lead = true ∧
      isBlankText trail = true := by
  obtain ⟨lead, hlead, hblank⟩ := exists_eq_append_trimLeft cs
  obtain ⟨trail, htrail, hblank'⟩ := exists_eq_trimRight_append (trimLeft cs)
  refine ⟨lead, trail, ?_, hblank, hblank'⟩
  rw [List.append_assoc, trim, ← htrail, ← hlead]

theorem isBlankText_of_trim_eq_nil {cs : List Char} (h : trim cs = []) :
    isBlankText cs = true := by
  obtain ⟨lead, trail, hcs, hlead, htrail⟩ := exists_eq_append_trim cs
  rw [hcs, h]
  simpa [isBlankText] using And.intro hlead htrail

theorem mem_of_mem_trim {cs : List Char} {c : Char} (h : c ∈ trim cs) : c ∈ cs := by
  obtain ⟨lead, trail, hcs, -, -⟩ := exists_eq_append_trim cs
  rw [hcs]
  simp [h]

end Text

theorem head?_trimRight {cs : List Char} {c : Char} (h : (trimRight cs).head? = some c) :
    cs.head? = some c := by
  obtain ⟨trail, hcs, -⟩ := exists_eq_trimRight_append cs
  rw [hcs, List.head?_append, h]
  rfl

/-- A word between two texts, with no character beside it that continues it. -/
structure IsWordBetween (before w behind : List Char) : Prop where
  isWord : IsWord w
  blank_before : ∀ c, before.getLast? = some c → isBlank c = true
  blank_behind : ∀ c, behind.head? = some c → isBlank c = true

/-- A text that begins with no blank character begins with a word. -/
theorem exists_first_word {c : Char} (hc : isBlank c = false) (rest : List Char) :
    ∃ w behind, c :: rest = c :: w ++ behind ∧ IsWordBetween [] (c :: w) behind := by
  refine ⟨rest.takeWhile (!isBlank ·), rest.dropWhile (!isBlank ·), ?_, ?_, by simp, ?_⟩
  · rw [List.cons_append, List.takeWhile_append_dropWhile]
  · refine ⟨by simp, List.forall_mem_cons.2 ⟨hc, fun d hd => ?_⟩⟩
    simpa using List.all_eq_true.1 List.all_takeWhile d hd
  · intro d hd
    obtain ⟨ds, hds⟩ := List.head?_eq_some_iff.1 hd
    have hd := List.head?_dropWhile_not (!isBlank ·) rest
    simpa [hds] using hd

theorem IsWordBetween.widen {before w behind lead trail : List Char}
    (h : IsWordBetween before w behind) (hlead : isBlankText lead = true)
    (htrail : isBlankText trail = true) : IsWordBetween (lead ++ before) w (behind ++ trail) := by
  refine ⟨h.isWord, fun c hc => ?_, fun c hc => ?_⟩
  · rw [List.getLast?_append] at hc
    rcases Option.or_eq_some_iff.1 hc with hc | ⟨-, hc⟩
    · exact h.blank_before c hc
    · exact isBlank_of_mem hlead (List.mem_of_getLast? hc)
  · rw [List.head?_append] at hc
    rcases Option.or_eq_some_iff.1 hc with hc | ⟨-, hc⟩
    · exact h.blank_behind c hc
    · exact isBlank_of_mem htrail (List.mem_of_head? hc)

/-! ## Components of texts behind one another -/

namespace Component

theorem consChar_append (col : Nat) (c : Char) {ws : List Component} (h : ws ≠ [])
    (vs : List Component) : consChar col c (ws ++ vs) = consChar col c ws ++ vs := by
  obtain ⟨w, ws, rfl⟩ := List.exists_cons_of_ne_nil h
  rw [List.cons_append, consChar, consChar]
  split <;> rfl

end Component

/-- Where one of two texts is blank at the border, no component reaches across. -/
theorem componentsFrom_append {as bs : List Char} (col : Nat)
    (h : (∀ c, as.getLast? = some c → isBlank c = true) ∨
      ∀ c, bs.head? = some c → isBlank c = true) :
    componentsFrom col (as ++ bs) =
      componentsFrom col as ++ componentsFrom (col + as.length) bs := by
  induction as generalizing col with
  | nil => rfl
  | cons c as ih =>
    have hih := ih (col + 1) (h.imp_left fun has d hd => has d (by simp [List.getLast?_cons, hd]))
    rw [List.cons_append, componentsFrom, componentsFrom, hih, List.length_cons,
      Nat.add_right_comm col 1, ← Nat.add_assoc]
    split
    · rfl
    · next hc =>
      by_cases hnil : componentsFrom (col + 1) as = []
      · rw [hnil, List.nil_append]
        refine Component.consChar_of_gap (fun w hw => ?_) c
        have hle := le_col_of_mem hw
        cases as with
        | nil =>
          have hbs := h.resolve_left fun has => hc (has c rfl)
          have hlt := Component.lt_col_of_mem hbs hw
          simp only [List.length_nil] at hlt
          omega
        | cons d as =>
          simp only [List.length_cons] at hle
          omega
      · exact Component.consChar_append col c hnil _

/-- A word between blank characters is a component, and those on either side of it
    are found as if it were not there. -/
theorem componentsFrom_around_word {before w behind : List Char} (col : Nat)
    (h : IsWordBetween before w behind) :
    componentsFrom col (before ++ w ++ behind) =
      componentsFrom col before ++ ⟨col + before.length, w⟩ ::
        componentsFrom (col + before.length + w.length) behind := by
  rw [List.append_assoc, componentsFrom_append col (.inl h.blank_before),
    componentsFrom_word _ h.isWord]
  rintro c rest rfl
  exact h.blank_behind c rfl

theorem nodup_componentsFrom (col : Nat) (cs : List Char) : (componentsFrom col cs).Nodup :=
  (Component.pairwise_col col cs).imp fun hlt heq => by simp [heq] at hlt

/-- A component is a word of the text, and the components in front of it are those of
    the text in front of the word. -/
theorem exists_split_of_componentsFrom {col : Nat} {cs : List Char} {ws vs : List Component}
    {w : Component} (h : componentsFrom col cs = ws ++ w :: vs) :
    ∃ before behind, cs = before ++ w.chars ++ behind ∧ IsWordBetween before w.chars behind ∧
      w.col = col + before.length ∧ componentsFrom col before = ws := by
  have hmem : w ∈ componentsFrom col cs := by simp [h]
  obtain ⟨before, behind, rfl, hcol, hw, hbefore, hbehind⟩ := Component.maximal_of_mem hmem
  have hbetween : IsWordBetween before w.chars behind := ⟨hw, hbefore, hbehind⟩
  refine ⟨before, behind, rfl, hbetween, hcol, ?_⟩
  have hnodup := nodup_componentsFrom col (before ++ w.chars ++ behind)
  rw [h, List.nodup_middle, List.nodup_cons, List.mem_append, not_or] at hnodup
  obtain ⟨⟨hws, hvs⟩, -⟩ := hnodup
  have hsplit := componentsFrom_around_word col hbetween
  rw [h, ← hcol] at hsplit
  exact ((List.append_cons_inj_of_notMem hws hvs).1 hsplit).1.symm

theorem componentsFrom_of_blank {cs : List Char} (h : isBlankText cs = true) (col : Nat) :
    componentsFrom col cs = [] := by
  induction cs generalizing col with
  | nil => rfl
  | cons c cs ih =>
    obtain ⟨hc, hcs⟩ : isBlank c = true ∧ isBlankText cs = true := by
      simpa [isBlankText] using h
    rw [componentsFrom, if_pos hc, ih hcs]

/-- Components are found wherever a text begins, in columns of their own. -/
theorem componentsFrom_add (col n : Nat) (cs : List Char) :
    componentsFrom (col + n) cs = (componentsFrom col cs).map fun w => ⟨w.col + n, w.chars⟩ := by
  induction cs generalizing col with
  | nil => rfl
  | cons c cs ih =>
    rw [componentsFrom, componentsFrom, Nat.add_right_comm, ih]
    split
    · rfl
    · cases componentsFrom (col + 1) cs with
      | nil => rfl
      | cons w ws =>
        have hcol : w.col + n = col + n + 1 ↔ w.col = col + 1 := by omega
        simp only [List.map_cons, Component.consChar, hcol]
        split <;> rfl

/-! ## Words -/

namespace Text

/-- The components of a text without their columns. -/
def words (cs : List Char) : List (List Char) :=
  (components cs).map Component.chars

theorem map_chars_componentsFrom (col : Nat) (cs : List Char) :
    (componentsFrom (col + 1) cs).map Component.chars = words cs := by
  rw [Nat.add_comm, componentsFrom_add, List.map_map]
  rfl

theorem words_spread {ws : List (List Char)} (h : ∀ w ∈ ws, IsWord w) (fresh : Bool) :
    words (spread fresh ws) = ws :=
  chars_spread 1 h fresh

theorem words_append {as bs : List Char}
    (h : (∀ c, as.getLast? = some c → isBlank c = true) ∨
      ∀ c, bs.head? = some c → isBlank c = true) : words (as ++ bs) = words as ++ words bs := by
  rw [words, components, componentsFrom_append 1 h, List.map_append, Nat.add_comm 1,
    map_chars_componentsFrom as.length]
  rfl

theorem words_of_blank {cs : List Char} (h : isBlankText cs = true) : words cs = [] := by
  rw [words, components, componentsFrom_of_blank h]
  rfl

theorem words_before_blank {blank : List Char} (h : isBlankText blank = true) (cs : List Char) :
    words (cs ++ blank) = words cs := by
  rw [words_append (.inr fun c hc => isBlank_of_mem h (List.mem_of_head? hc)), words_of_blank h,
    List.append_nil]

theorem words_behind_blank {blank : List Char} (h : isBlankText blank = true) (cs : List Char) :
    words (blank ++ cs) = words cs := by
  rw [words_append (.inl fun c hc => isBlank_of_mem h (List.mem_of_getLast? hc)),
    words_of_blank h, List.nil_append]

/-- Blank text between two texts keeps their words apart. -/
theorem words_around_blank {blank : List Char} (hne : blank ≠ []) (h : isBlankText blank = true)
    (as bs : List Char) : words (as ++ blank ++ bs) = words as ++ words bs := by
  have hlast : ∀ c, (as ++ blank).getLast? = some c → isBlank c = true := by
    intro c hc
    rw [List.getLast?_append_of_ne_nil _ hne] at hc
    exact isBlank_of_mem h (List.mem_of_getLast? hc)
  rw [words_append (.inl hlast), words_before_blank h]

/-- Trimming takes no word away. -/
theorem words_trim (cs : List Char) : words (trim cs) = words cs := by
  obtain ⟨lead, trail, hcs, hlead, htrail⟩ := exists_eq_append_trim cs
  calc words (trim cs)
    _ = words (lead ++ trim cs) := (words_behind_blank hlead _).symm
    _ = words (lead ++ trim cs ++ trail) := (words_before_blank htrail _).symm
    _ = words cs := by rw [← hcs]

end Text

end LogoSyntax
