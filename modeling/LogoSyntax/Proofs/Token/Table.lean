-- SUMMARY: The token table has one line for each token, and the lines tell the tokens.
import Mathlib
import LogoSyntax.Token.Table
import LogoSyntax.Proofs.Text.Quoted
import LogoSyntax.Proofs.Token.Alone
import LogoSyntax.Proofs.Token.Classification

/-!
# Reading the token table

The spaces at the end of a line are dropped from all that was written so far. They never
reach an earlier line, since the kind of the token is in front of them, and so a table is
its lines one behind the other (`tableBy_eq`).

A line begins with its token's heading: the mark, the place and the kind, each told from
the next by a character that it does not have. What stands behind the heading is the
quoted raw text, if any, which is told from what follows it. The value need not be read
off: a raw text is a word, and the word decides the value. So the lines of the tokens of
a source tell the tokens (`eq_of_rowBy_eq`), and so does the table (`table_tells_tokens`).
-/

namespace LogoSyntax

open Text

namespace Text

/-! ## Padding and trimming -/

theorem replicate_append_cons (n : Nat) (c : Char) (cs : List Char) :
    List.replicate n c ++ c :: cs = c :: (List.replicate n c ++ cs) := by
  rw [List.append_cons, ← List.replicate_succ', List.replicate_succ, List.cons_append]

theorem dropWhile_leftpad {cs : List Char} (h : ' ' ∉ cs) (width : Nat) :
    (cs.leftpad width ' ').dropWhile (· == ' ') = cs := by
  rw [List.leftpad, List.dropWhile_append_of_pos (by simp)]
  cases cs with
  | nil => rfl
  | cons c cs =>
    have hc : c ≠ ' ' := fun hc => h (hc ▸ List.mem_cons_self)
    simp [hc]

end Text

theorem TokenKind.name_spec (kind : TokenKind) : ' ' ∉ kind.name.toList ∧
    '\n' ∉ kind.name.toList ∧ kind.name.toList ≠ [] := by
  have hall : ∀ kind ∈ all, ' ' ∉ kind.name.toList ∧ '\n' ∉ kind.name.toList ∧
      kind.name.toList ≠ [] := by
    decide
  exact hall kind kind.mem_all

theorem TokenKind.name_injective : Function.Injective TokenKind.name := by
  have hall : ∀ k ∈ all, ∀ l ∈ all, k.name = l.name → k = l := by
    decide
  exact fun k l => hall k k.mem_all l l.mem_all

namespace Token

/-! ## Lines of tokens -/

/-- A token's line, without the line break: the padded line without the spaces at its end. -/
def rowBy (visible : Char → Bool) (t : Token) : List Char :=
  (t.paddedRowBy visible).rdropWhile (· == ' ')

/-- What the line of a token begins with: the mark, the place and the name of the kind. -/
def heading (t : Token) : List Char :=
  t.mark :: (Nat.repr t.line).toList.leftpad 4 ' '
    ++ ':' :: (Nat.repr t.col).toList.rightpad 4 ' '
    ++ ' ' :: t.kind.name.toList

/-- What the line of a token shows behind the heading, without the spaces between them:
    the raw text and the value. -/
def details (visible : Char → Bool) (t : Token) : List Char :=
  (if t.raw.isEmpty then [] else ' ' :: quotedBy visible t.raw.toList)
    ++ (match t.value with
        | none => []
        | some value => [' ', '=', ' '] ++ value.toList)

/-- The spaces behind the name of a kind. -/
def gap (t : Token) : List Char :=
  List.replicate (18 - t.kind.name.toList.length) ' '

/-- What is left behind the heading when the spaces at the end are dropped. -/
def remainder (visible : Char → Bool) (t : Token) : List Char :=
  (t.gap ++ t.details visible).rdropWhile (· == ' ')

theorem paddedRowBy_eq (visible : Char → Bool) (t : Token) :
    t.paddedRowBy visible = t.heading ++ (t.gap ++ t.details visible) := by
  unfold paddedRowBy details
  cases t.value <;> simp [heading, gap, List.rightpad]

theorem exists_heading_eq (t : Token) : ∃ front c, t.heading = front ++ [c] ∧ c ≠ ' ' := by
  obtain ⟨hspace, -, hne⟩ := t.kind.name_spec
  obtain ⟨front, c, hname⟩ := exists_append_singleton hne
  have hc : c ∈ t.kind.name.toList := by simp [hname]
  have hheading : t.heading = t.mark :: (Nat.repr t.line).toList.leftpad 4 ' '
      ++ ':' :: (Nat.repr t.col).toList.rightpad 4 ' ' ++ ' ' :: front ++ [c] := by
    simp [heading, hname]
  exact ⟨_, c, hheading, ne_of_mem_of_not_mem hc hspace⟩

/-- The spaces at the end of a line are dropped from what stands behind its heading,
    whatever was written in front of the line. -/
theorem rdropWhile_append_paddedRowBy (visible : Char → Bool) (t : Token) (before : List Char) :
    (before ++ t.paddedRowBy visible).rdropWhile (· == ' ') =
      before ++ (t.heading ++ t.remainder visible) := by
  obtain ⟨front, c, hheading, hc⟩ := t.exists_heading_eq
  have hspace : (c == ' ') = false := by simpa using hc
  have hdrop := rdropWhile_append (p := (· == ' ')) hspace (before ++ front)
    (t.gap ++ t.details visible)
  simpa [paddedRowBy_eq, remainder, hheading] using hdrop

theorem rowBy_eq (visible : Char → Bool) (t : Token) :
    t.rowBy visible = t.heading ++ t.remainder visible :=
  rdropWhile_append_paddedRowBy visible t []

/-- No line ends in a space. -/
theorem not_space_suffix_rowBy (visible : Char → Bool) (t : Token) :
    ¬ [' '] <:+ t.rowBy visible := by
  rintro ⟨front, hrow⟩
  have hne : t.rowBy visible ≠ [] := by simp [← hrow]
  have hlast : ¬ ((t.rowBy visible).getLast hne == ' ') = true :=
    List.rdropWhile_last_not (· == ' ') (t.paddedRowBy visible) hne
  simp [← hrow] at hlast

/-- What a token adds to a table is its line and a line break. -/
theorem appendRowBy_eq (visible : Char → Bool) (written : List Char) (t : Token) :
    appendRowBy visible written t = (t.rowBy visible ++ ['\n']).reverse ++ written := by
  have hdrop := rdropWhile_append_paddedRowBy visible t written.reverse
  rw [← rowBy_eq] at hdrop
  have hreverse := congrArg List.reverse hdrop
  simp only [List.rdropWhile, List.reverse_append, List.reverse_reverse] at hreverse
  rw [appendRowBy, hreverse]
  simp

/-- A table is the lines of its tokens, one behind the other. -/
theorem tableBy_eq (visible : Char → Bool) (ts : List Token) :
    tableBy visible ts = ts.flatMap fun t => t.rowBy visible ++ ['\n'] := by
  have hfold : ∀ written, ts.foldl (appendRowBy visible) written =
      (ts.flatMap fun t => t.rowBy visible ++ ['\n']).reverse ++ written := by
    induction ts with
    | nil => exact fun written => rfl
    | cons t ts ih =>
      intro written
      rw [List.foldl_cons, ih, appendRowBy_eq, List.flatMap_cons, ← List.append_assoc,
        ← List.reverse_append]
  rw [tableBy, hfold, List.append_nil, List.reverse_reverse]

theorem tableBy_append (visible : Char → Bool) (ts us : List Token) :
    tableBy visible (ts ++ us) = tableBy visible ts ++ tableBy visible us := by
  simp only [tableBy_eq, List.flatMap_append]

theorem rowBy_ne_nil (visible : Char → Bool) (t : Token) : t.rowBy visible ≠ [] := by
  simp [rowBy_eq, heading]

/-- The line of a token ends in a character that is no space. -/
theorem exists_rowBy_eq (visible : Char → Bool) (t : Token) :
    ∃ front c, t.rowBy visible = front ++ [c] ∧ c ≠ ' ' := by
  obtain ⟨front, c, hrow⟩ := exists_append_singleton (t.rowBy_ne_nil visible)
  refine ⟨front, c, hrow, ?_⟩
  rintro rfl
  exact t.not_space_suffix_rowBy visible ⟨front, hrow.symm⟩

/-- The lines of a table stand alone: the table of two lists of tokens, one behind the
    other, is their tables, one behind the other. Each line ends in a line break with a
    character in front of it that is no space. Dropping the spaces at the end of all that was
    written takes nothing from what was written before the token, which is held in reverse,
    and the token adds the same to it as to nothing. -/
theorem rows_stand_alone :
    (∀ ts us, renderTable (ts ++ us) = renderTable ts ++ renderTable us) ∧
    (∀ t, ∃ front c, (renderTable [t]).toList = front ++ [c, '\n'] ∧ c ≠ ' ') ∧
    ∀ visible written t, written <:+ appendRowBy visible written t ∧
      appendRowBy visible written t = appendRowBy visible [] t ++ written := by
  refine ⟨fun ts us => ?_, fun t => ?_, fun visible written t => ?_⟩
  · rw [renderTable, tableBy_append, String.ofList_append]
    rfl
  · obtain ⟨front, c, hrow, hc⟩ := t.exists_rowBy_eq isVisible
    refine ⟨front, c, ?_, hc⟩
    simp [renderTable, tableBy_eq, hrow]
  · have hrow := appendRowBy_eq visible written t
    refine ⟨⟨_, hrow.symm⟩, ?_⟩
    rw [hrow, appendRowBy_eq, List.append_nil]

/-- A raw text may end in spaces, and so may a value with a line break in it. -/
example : renderTable [⟨.word, "\"a  ", some "a \n  ", true, 7, 12345⟩] =
    "    7:12345 WORD               \"\\\"a  \" = a \n\n" := by
  cbv

/-! ## Headings -/

theorem matched_eq_of_mark_eq {t u : Token} (h : t.mark = u.mark) : t.matched = u.matched := by
  unfold mark at h
  cases ht : t.matched <;> cases hu : u.matched <;> simp [ht, hu] at h ⊢

/-- A heading tells whether the token is matched, where it stands and of which kind it
    is, and where the heading ends. -/
theorem heading_append_inj {t u : Token} {rest rest' : List Char}
    (hrest : ∀ c ∈ rest.head?, c = ' ') (hrest' : ∀ c ∈ rest'.head?, c = ' ')
    (h : t.heading ++ rest = u.heading ++ rest') :
    t.matched = u.matched ∧ t.line = u.line ∧ t.col = u.col ∧ t.kind = u.kind ∧
      rest = rest' := by
  have hline : ∀ n, ':' ∉ (Nat.repr n).toList.leftpad 4 ' ' := by
    intro n
    have hdigits : ':' ∉ (Nat.repr n).toList := notMem_repr rfl n
    simp [hdigits, -Nat.toList_repr]
  have hspace : ∀ n, ' ' ∉ (Nat.repr n).toList := notMem_repr rfl
  have hparts : ∀ (t : Token) (rest : List Char), t.heading ++ rest =
      t.mark :: ((Nat.repr t.line).toList.leftpad 4 ' ' ++ ':' :: ((Nat.repr t.col).toList ++
        ' ' :: (List.replicate (4 - (Nat.repr t.col).toList.length) ' ' ++
          (t.kind.name.toList ++ rest)))) := by
    intro t rest
    simp [heading, List.rightpad, replicate_append_cons]
  rw [hparts, hparts] at h
  -- A colon ends the line number and a space the column. A number that is wider than its
  -- column of the table has no padding, so neither is found by counting characters.
  obtain ⟨hmark, h⟩ := List.cons.inj h
  obtain ⟨hpadded, h⟩ := append_inj_of_notMem (hline _) (hline _) (by simp) (by simp) h
  obtain ⟨hcol, h⟩ := append_inj_of_notMem (hspace _) (hspace _) (by simp) (by simp)
    (List.cons.inj h).2
  rw [hcol] at h
  obtain ⟨hkind, htail⟩ := append_inj_of_notMem t.kind.name_spec.1 u.kind.name_spec.1 hrest hrest'
    (List.append_cancel_left (List.cons.inj h).2)
  have hdigits : (Nat.repr t.line).toList = (Nat.repr u.line).toList := by
    rw [← dropWhile_leftpad (hspace t.line) 4, hpadded, dropWhile_leftpad (hspace u.line)]
  exact ⟨matched_eq_of_mark_eq hmark, Nat.repr_inj.1 (String.toList_injective hdigits),
    Nat.repr_inj.1 (String.toList_injective hcol),
    TokenKind.name_injective (String.toList_injective hkind), htail⟩

/-! ## Lines of the tokens of a source -/

/-- Some source has the token. -/
def IsRead (t : Token) : Prop :=
  ∃ source, t ∈ tokenize source

theorem remainder_of_raw_eq {t : Token} (visible : Char → Bool) (hraw : t.raw = "")
    (hvalue : t.value = none) : t.remainder visible = [] := by
  rw [remainder, List.rdropWhile_eq_nil_iff]
  simp [details, gap, hraw, hvalue]

theorem exists_remainder_eq {t : Token} (visible : Char → Bool) (hraw : t.raw ≠ "") :
    ∃ value, t.remainder visible =
      ' ' :: (t.gap ++ (quotedBy visible t.raw.toList ++ value)) := by
  obtain ⟨value, hdetails⟩ : ∃ value, t.details visible =
      ' ' :: (quotedBy visible t.raw.toList ++ value) := by
    rw [details, if_neg (by simpa using hraw)]
    exact ⟨_, rfl⟩
  obtain ⟨quoted, hquoted⟩ : ∃ quoted, quotedBy visible t.raw.toList = quoted ++ ['"'] :=
    ⟨_, rfl⟩
  have hquote : ('"' == ' ') = false := by decide
  have hdrop := rdropWhile_append (p := (· == ' ')) hquote (t.gap ++ ' ' :: quoted) value
  refine ⟨value.rdropWhile (· == ' '), ?_⟩
  rw [remainder, hdetails, hquoted]
  simpa [gap, replicate_append_cons] using hdrop

theorem IsRead.regular {t : Token} (h : t.IsRead) : t.Regular :=
  let ⟨_, ht⟩ := h
  regular_of_mem_tokenize ht

theorem IsRead.value_eq_none {t : Token} (h : t.IsRead) (hraw : t.raw = "") : t.value = none := by
  rcases h.regular.raw.1 hraw with hk | hk
  · simpa [hk] using h.regular.value
  · simpa [hk] using h.regular.value

/-- Tokens of sources agree if they agree in all but the value, which the raw text
    decides. -/
theorem IsRead.ext {t u : Token} (ht : t.IsRead) (hu : u.IsRead) (hmatched : t.matched = u.matched)
    (hline : t.line = u.line) (hcol : t.col = u.col) (hkind : t.kind = u.kind)
    (hraw : t.raw = u.raw) : t = u := by
  by_cases h : t.raw = ""
  · have hvalue : t.value = u.value := by
      rw [ht.value_eq_none h, hu.value_eq_none (hraw ▸ h)]
    cases t
    cases u
    simp_all
  · -- Alone, the raw text is read to either token, moved to the first place of a source.
    obtain ⟨source, ht⟩ := ht
    obtain ⟨source', hu⟩ := hu
    have hread := (tokenize_raw ht h).symm.trans ((congrArg tokenize hraw).trans
      (tokenize_raw hu (hraw ▸ h)))
    have hmoved := (List.cons.inj hread).1
    cases t
    cases u
    simp_all [movedTo]

theorem IsRead.head_remainder {t : Token} (h : t.IsRead) (visible : Char → Bool) :
    ∀ c ∈ (t.remainder visible).head?, c = ' ' := by
  by_cases hraw : t.raw = ""
  · simp [remainder_of_raw_eq visible hraw (h.value_eq_none hraw)]
  · obtain ⟨value, hremainder⟩ := exists_remainder_eq visible hraw
    simp [hremainder]

/-- The lines of two tokens of sources differ if the tokens do, whatever characters are
    shown as themselves in them. -/
theorem eq_of_rowBy_eq {visible visible' : Char → Bool} {t u : Token} (ht : t.IsRead)
    (hu : u.IsRead) (h : t.rowBy visible = u.rowBy visible') : t = u := by
  rw [rowBy_eq, rowBy_eq] at h
  obtain ⟨hmatched, hline, hcol, hkind, hremainder⟩ :=
    heading_append_inj (ht.head_remainder visible) (hu.head_remainder visible') h
  refine ht.ext hu hmatched hline hcol hkind ?_
  -- The kinds agree, and whether a token has a raw text is up to its kind.
  have hempty : t.raw = "" ↔ u.raw = "" := by
    rw [ht.regular.raw, hu.regular.raw, hkind]
  by_cases hraw : t.raw = ""
  · rw [hraw, hempty.1 hraw]
  · obtain ⟨value, hvalue⟩ := exists_remainder_eq visible hraw
    obtain ⟨value', hvalue'⟩ := exists_remainder_eq visible' (mt hempty.2 hraw)
    have hgap : t.gap = u.gap := by rw [gap, gap, hkind]
    rw [hvalue, hvalue', hgap] at hremainder
    have hquoted := List.append_cancel_left (List.cons.inj hremainder).2
    exact String.toList_injective (quotedBy_append_inj hquoted).1

/-! ## Line breaks -/

/-- The characters of a value are some of those of the component. -/
theorem value_subset_of_classify {cs : List Char} {kind : TokenKind} {value : String}
    (h : classify cs = some (kind, some value)) : value.toList ⊆ cs := by
  have hvalue : kind.hasValue = true := (classify_eq_some h).2.symm
  have hkeyword : kind.isKeyword = false := by
    cases kind <;> simp_all [TokenKind.hasValue, TokenKind.isKeyword]
  obtain ⟨s, -, -, -, hpayload⟩ := exists_shape_of_classify h hkeyword
  cases hs : s.payload with
  | nothing => simp [hs, Payload.of] at hpayload
  | whole => simp [Option.some.inj (hs ▸ hpayload)]
  | afterFirst => simpa [Option.some.inj (hs ▸ hpayload)] using List.tail_subset cs

theorem IsRead.newline_not_mem_value {t : Token} (h : t.IsRead) {value : String}
    (hvalue : t.value = some value) : '\n' ∉ value.toList := by
  have hmarker : t.kind.isMarker = false := by
    have hkind := h.regular.value.1 (by simp [hvalue])
    cases hk : t.kind <;> simp_all [TokenKind.isMarker]
  obtain ⟨source, ht⟩ := h
  obtain ⟨w, hw, hclassify⟩ := exists_word_of_mem_tokenize ht hmarker
  exact fun hmem => newline_not_mem hw (value_subset_of_classify (hvalue ▸ hclassify) hmem)

theorem newline_not_mem_heading (t : Token) : '\n' ∉ t.heading := by
  have hmark : '\n' ≠ t.mark := by
    unfold mark
    split <;> decide
  have hdigits : ∀ n, '\n' ∉ (Nat.repr n).toList := notMem_repr rfl
  simp [heading, hmark, hdigits, t.kind.name_spec.2.1, -Nat.toList_repr]

/-- The line of a token of a source has no line break in it. -/
theorem IsRead.newline_not_mem_rowBy {t : Token} (h : t.IsRead) (visible : Char → Bool) :
    '\n' ∉ t.rowBy visible := by
  have hdetails : '\n' ∉ t.details visible := by
    unfold details
    have hraw := newline_not_mem_quotedBy visible t.raw.toList
    cases hvalue : t.value with
    | none => split <;> simp [hraw]
    | some value =>
      have hmem := h.newline_not_mem_value hvalue
      split <;> simp [hraw, hmem]
  have hgap : '\n' ∉ t.gap := by simp [gap]
  intro hmem
  have hpadded := (List.rdropWhile_prefix (· == ' ') (l := t.paddedRowBy visible)).subset hmem
  rw [paddedRowBy_eq] at hpadded
  simp [t.newline_not_mem_heading, hgap, hdetails] at hpadded

/-! ## Tables -/

/-- The line breaks divide a table into the lines of its tokens. -/
theorem eq_of_tableBy_eq {visible visible' : Char → Bool} {ts us : List Token}
    (hts : ∀ t ∈ ts, t.IsRead) (hus : ∀ u ∈ us, u.IsRead)
    (h : tableBy visible ts = tableBy visible' us) : ts = us := by
  rw [tableBy_eq, tableBy_eq] at h
  induction ts generalizing us with
  | nil =>
    cases us with
    | nil => rfl
    | cons u us => simp at h
  | cons t ts ih =>
    cases us with
    | nil => simp at h
    | cons u us =>
      obtain ⟨ht, hts⟩ := List.forall_mem_cons.1 hts
      obtain ⟨hu, hus⟩ := List.forall_mem_cons.1 hus
      simp only [List.flatMap_cons, List.append_assoc, List.singleton_append] at h
      obtain ⟨hrow, hrest⟩ := append_inj_of_notMem (ht.newline_not_mem_rowBy visible)
        (hu.newline_not_mem_rowBy visible') (by simp) (by simp) h
      rw [eq_of_rowBy_eq ht hu hrow, ih hts hus (List.cons.inj hrest).2]

/-- The table of the tokens of a source has one line for each of them, without a line
    break in it or a space at its end. It tells the tokens, whichever characters are shown
    as themselves between the quotes. -/
theorem table_tells_tokens (source : String) :
    (∀ visible, tableBy visible (tokenize source) =
        (tokenize source).flatMap (fun t => t.rowBy visible ++ ['\n']) ∧
      ∀ t ∈ tokenize source, '\n' ∉ t.rowBy visible ∧ ¬ [' '] <:+ t.rowBy visible) ∧
    (∀ visible visible' source', tableBy visible (tokenize source) =
      tableBy visible' (tokenize source') → tokenize source = tokenize source') ∧
    ∀ source', renderTable (tokenize source) = renderTable (tokenize source') →
      tokenize source = tokenize source' := by
  have hread : ∀ source, ∀ t ∈ tokenize source, t.IsRead := fun source t ht => ⟨source, ht⟩
  have htells : ∀ visible visible' source', tableBy visible (tokenize source) =
      tableBy visible' (tokenize source') → tokenize source = tokenize source' :=
    fun visible visible' source' => eq_of_tableBy_eq (hread source) (hread source')
  refine ⟨fun visible => ⟨tableBy_eq visible _, fun t ht =>
    ⟨(hread source t ht).newline_not_mem_rowBy visible, t.not_space_suffix_rowBy visible⟩⟩,
    htells, fun source' h => htells _ _ source' (String.ofList_injective h)⟩

/-- The second of two sources has a space in front, a tab for the space between two words,
    and a word behind the component that no shape fits. -/
theorem table_tells_tokens_of_spaced_source :
    renderTable (tokenize "fd :x\n1.2\"3") = renderTable (tokenize " fd\t:x\n1.2\"3 bk") ∧
      tokenize "fd :x\n1.2\"3" = tokenize " fd\t:x\n1.2\"3 bk" := by
  have h : renderTable (tokenize "fd :x\n1.2\"3") =
      renderTable (tokenize " fd\t:x\n1.2\"3 bk") := by
    cbv
  exact ⟨h, (table_tells_tokens _).2.2 _ h⟩

end Token

end LogoSyntax
