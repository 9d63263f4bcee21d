import CometLang.Proofs.Numerals
import CometLang.Proofs.TagReading

/-!
# Tags and the tokens they name

A tag has one of four shapes: it is the tag of a fixed kind, a text from quote to
quote, a name behind its marker, or a whole number behind one of two markers. No tag
has two shapes, although the markers overlap with fixed tags and with each other. A
tag names a token if and only if it has a shape, and the shape is that of the tags of
the token's kind.

The tag of the token is the tag that named it, but for the longer marker of a whole
number, which is written as the shorter one. So a tag, and likewise a text of tags, is
read again from what the tokens write to tokens of the same kinds and values.
-/

namespace CometLang

open Numeral Text

/-! ## The shapes of tags -/

/-- How a tag can be made up. -/
inductive TagShape where
  | fixed
  | string
  | identifier
  | literal
deriving DecidableEq, Repr

namespace TagShape

/-- The tag is made up so. -/
def Has : TagShape → String → Prop
  | fixed, tag => ∃ kind : Kind, kind.tag? = some tag
  | string, tag =>
      2 ≤ tag.utf8ByteSize ∧ tag.toList.head? = some '"' ∧ tag.toList.getLast? = some '"'
  | identifier, tag => ∃ name, name ≠ "" ∧ tag = "id_" ++ name
  | literal, tag =>
      ∃ digits, IsWhole Char.isDigit digits ∧ (tag = "cmt_" ++ digits ∨ tag = "comet_" ++ digits)

/-- The shape of the tags of a kind. -/
def ofKind : Kind → TagShape
  | .identifier => identifier
  | .cometLiteral => literal
  | .string => string
  | _ => fixed

theorem ofKind_of_tag?
    {kind : Kind}
    {tag : String}
    (h : kind.tag? = some tag) :
    ofKind kind = .fixed := by
  cases kind <;> first | rfl | cases h

/-- A text from quote to quote has two characters at least if it has two bytes. -/
theorem string_has_iff
    (tag : String) :
    string.Has tag ↔ isClosedString tag.toList = true := by
  simp only [Has, isClosedString, Bool.and_eq_true, decide_eq_true_eq, beq_iff_eq,
    ← byteLength_toList, and_assoc]
  constructor
  · rintro ⟨htwo, hhead, hlast⟩
    refine ⟨?_, hhead, hlast⟩
    obtain ⟨rest, hrest⟩ := List.head?_eq_some_iff.1 hhead
    rw [hrest] at htwo ⊢
    cases rest with
    | nil =>
        revert htwo
        decide
    | cons c rest =>
        simp
  · rintro ⟨htwo, hhead, hlast⟩
    exact ⟨Nat.le_trans htwo (length_le_byteLength _), hhead, hlast⟩

end TagShape

namespace Token

/-! ## What a tag names -/

/-- The tag names a token of this kind and this value. -/
inductive Names : String → Kind → String → Prop
  | fixed
      {tag value : String}
      {kind : Kind}
      (htag : kind.tag? = some tag)
      (hvalue : kind.lexeme? = some value) :
      Names tag kind value
  | string
      {tag : String}
      (hclosed : isClosedString tag.toList = true) :
      Names tag .string tag
  | identifier
      {name : String}
      (hname : name ≠ "") :
      Names ("id_" ++ name) .identifier name
  | literal
      {digits : String}
      (hdigits : isCometLiteral digits.toList = true) :
      Names ("cmt_" ++ digits) .cometLiteral digits
  | longLiteral
      {digits : String}
      (hdigits : isCometLiteral digits.toList = true) :
      Names ("comet_" ++ digits) .cometLiteral digits

/-- A tag with the longer marker of a literal is one. -/
theorem readTag?_longLiteral
    {digits : String}
    (h : isCometLiteral digits.toList = true) :
    readTag? ("comet_" ++ digits) = some (.cometLiteral, digits) := by
  have hliteral : literalOfTag? ("comet_" ++ digits).toList = some digits.toList := by
    have hshort : "cmt_".toList.isPrefixOf? ("comet_".toList ++ digits.toList) = none :=
      rfl
    have hlong : "comet_".toList.isPrefixOf? ("comet_".toList ++ digits.toList)
        = some digits.toList :=
      rfl
    rw [String.toList_append, literalOfTag?, hshort, hlong]
    simp [Option.filter, h]
  rw [readTag?_of_literalOfTag? hliteral, String.ofList_toList]

/-- A text behind a marker is what is left of the tag. -/
theorem eq_append_of_isPrefixOf?
    {marker tag : String}
    {rest : List Char}
    (h : marker.toList.isPrefixOf? tag.toList = some rest) :
    tag = marker ++ String.ofList rest := by
  rw [List.isPrefixOf?_eq_some_iff_append_eq] at h
  rw [← String.toList_inj, String.toList_append, String.toList_ofList, h]

/-- What is read from a tag is what the tag names. -/
theorem readTag?_eq_some_iff
    {tag value : String}
    {kind : Kind} :
    readTag? tag = some (kind, value) ↔ Names tag kind value := by
  constructor
  · intro h
    rw [readTag?] at h
    cases hfixed : Kind.ofTag? tag with
    | some kind' =>
        rw [hfixed] at h
        cases h
        have htag : kind.tag? = some tag := by
          simpa using List.find?_some hfixed
        obtain ⟨value, hvalue⟩ := Kind.exists_lexeme htag
        rw [hvalue]
        exact .fixed htag hvalue
    | none =>
        rw [hfixed] at h
        dsimp only at h
        split at h
        · next hclosed =>
            cases h
            exact .string hclosed
        · cases hname : identifierOfTag? tag.toList with
          | some name =>
              rw [hname] at h
              cases h
              obtain ⟨hmarker, hne⟩ := Option.filter_eq_some_iff.1 hname
              rw [eq_append_of_isPrefixOf? hmarker]
              refine .identifier ?_
              rw [← String.toList_eq_nil_iff.ne, String.toList_ofList]
              simpa using hne
          | none =>
              rw [hname] at h
              obtain ⟨digits, hliteral, heq⟩ := Option.map_eq_some_iff.1 h
              cases heq
              obtain ⟨hmarker, hdigits⟩ := Option.filter_eq_some_iff.1 hliteral
              rw [← String.toList_ofList (l := digits)] at hdigits
              rcases Option.or_eq_some_iff.1 hmarker with hshort | ⟨-, hlong⟩
              · rw [eq_append_of_isPrefixOf? hshort]
                exact .literal hdigits
              · rw [eq_append_of_isPrefixOf? hlong]
                exact .longLiteral hdigits
  · intro h
    cases h with
    | fixed htag hvalue =>
        rw [readTag?_fixed htag, hvalue]
        rfl
    | string hclosed =>
        exact readTag?_string hclosed
    | identifier hname =>
        exact readTag?_identifier (String.toList_eq_nil_iff.ne.2 hname)
    | literal hdigits =>
        exact readTag?_literal hdigits
    | longLiteral hdigits =>
        exact readTag?_longLiteral hdigits

namespace Names

variable {tag value : String} {kind : Kind}

/-- A tag names one kind and one value. -/
theorem unique
    {kind' : Kind}
    {value' : String}
    (h : Names tag kind value)
    (h' : Names tag kind' value') :
    kind = kind' ∧ value = value' := by
  have hread := readTag?_eq_some_iff.2 h
  rw [readTag?_eq_some_iff.2 h', Option.some.injEq, Prod.mk.injEq] at hread
  exact ⟨hread.1.symm, hread.2.symm⟩

/-- The tag has the shape of the tags of its kind. -/
theorem shape
    (h : Names tag kind value) :
    (TagShape.ofKind kind).Has tag := by
  cases h with
  | fixed htag _ =>
      rw [TagShape.ofKind_of_tag? htag]
      exact ⟨kind, htag⟩
  | string hclosed =>
      exact (TagShape.string_has_iff tag).2 hclosed
  | identifier hname =>
      exact ⟨value, hname, rfl⟩
  | literal hdigits =>
      exact ⟨value, isCometLiteral_iff_isWhole.1 hdigits, .inl rfl⟩
  | longLiteral hdigits =>
      exact ⟨value, isCometLiteral_iff_isWhole.1 hdigits, .inr rfl⟩

/-- The value is the spelling of the kind, if the kind has one. -/
theorem lexeme
    (h : Names tag kind value) :
    kind.lexeme?.getD value = value := by
  cases h with
  | fixed _ hvalue =>
      rw [hvalue]
      rfl
  | string _ | identifier _ | literal _ | longLiteral _ =>
      rfl

end Names

/-- Every tag of some shape names a token of a kind with such tags. -/
theorem exists_names
    {shape : TagShape}
    {tag : String}
    (h : shape.Has tag) :
    ∃ kind value, Names tag kind value ∧ TagShape.ofKind kind = shape := by
  cases shape with
  | fixed =>
      obtain ⟨kind, htag⟩ := h
      obtain ⟨value, hvalue⟩ := Kind.exists_lexeme htag
      exact ⟨kind, value, .fixed htag hvalue, TagShape.ofKind_of_tag? htag⟩
  | string =>
      exact ⟨.string, tag, .string ((TagShape.string_has_iff tag).1 h), rfl⟩
  | identifier =>
      obtain ⟨name, hname, rfl⟩ := h
      exact ⟨.identifier, name, .identifier hname, rfl⟩
  | literal =>
      obtain ⟨digits, hdigits, rfl | rfl⟩ := h
      · exact ⟨.cometLiteral, digits, .literal (isCometLiteral_iff_isWhole.2 hdigits), rfl⟩
      · exact ⟨.cometLiteral, digits, .longLiteral (isCometLiteral_iff_isWhole.2 hdigits), rfl⟩

/-- The shapes of tags exclude each other. -/
theorem shape_eq_of_has
    {shape shape' : TagShape}
    {tag : String}
    (h : shape.Has tag)
    (h' : shape'.Has tag) :
    shape = shape' := by
  obtain ⟨kind, value, hnames, rfl⟩ := exists_names h
  obtain ⟨kind', value', hnames', rfl⟩ := exists_names h'
  rw [(hnames.unique hnames').1]

/-- A token is read from a tag if the tag names it. -/
theorem names_of_ofTag
    {tag : String}
    {position : Position}
    {t : Token}
    (h : ofTag tag position = .ok t) :
    Names tag t.kind t.value := by
  rw [ofTag] at h
  split at h
  · next kind value hread =>
      cases h
      exact readTag?_eq_some_iff.1 hread
  · cases h

/-- A tag without a shape is malformed. -/
theorem ofTag_of_forall_not_has
    {tag : String}
    (h : ∀ shape : TagShape, ¬shape.Has tag)
    (position : Position) :
    ofTag tag position = .error ⟨.malformedTag tag, position⟩ := by
  rw [ofTag]
  split
  · next kind value hread =>
      exact absurd (readTag?_eq_some_iff.1 hread).shape (h _)
  · rfl

/-! ## Tags written again -/

section

variable {tag : String} {t : Token}

/-- The token writes the tag that named it, unless that has the longer marker. -/
theorem Names.tag_eq
    (h : Names tag t.kind t.value)
    (hshort : ∀ digits, IsWhole Char.isDigit digits → tag ≠ "comet_" ++ digits) :
    t.tag = tag := by
  obtain ⟨kind, value, span⟩ := t
  cases h with
  | fixed htag _ =>
      exact tag_of_tag? htag
  | string _ | identifier _ | literal _ =>
      rfl
  | longLiteral hdigits =>
      exact absurd rfl (hshort _ (isCometLiteral_iff_isWhole.1 hdigits))

/-- A whole number behind the longer marker is written behind the shorter one. -/
theorem Names.tag_eq_of_longMarker
    {digits : String}
    (h : Names ("comet_" ++ digits) t.kind t.value)
    (hdigits : IsWhole Char.isDigit digits) :
    t.tag = "cmt_" ++ digits := by
  obtain ⟨kind, value, span⟩ := t
  have hliteral := isCometLiteral_iff_isWhole.2 hdigits
  obtain ⟨rfl, rfl⟩ := h.unique (.longLiteral hliteral)
  rfl

/-- What the token writes names it again. -/
theorem Names.again
    (h : Names tag t.kind t.value) :
    Names t.tag t.kind t.value := by
  obtain ⟨kind, value, span⟩ := t
  cases h with
  | fixed htag hvalue =>
      exact .fixed (by rwa [tag_of_tag? htag]) hvalue
  | string hclosed =>
      exact .string hclosed
  | identifier hname =>
      exact .identifier hname
  | literal hdigits | longLiteral hdigits =>
      exact .literal hdigits

/-- A word that is a tag is read back from what its token writes. -/
theorem Names.exists_readsBack
    (h : Names tag t.kind t.value)
    (hword : IsWord tag.toList)
    (file : String) :
    ∃ texts, t.ReadsBack file texts := by
  have hread : readTag? t.tag = some (t.kind, t.kind.lexeme?.getD t.value) := by
    rw [h.lexeme]
    exact readTag?_eq_some_iff.2 h.again
  -- Behind a marker the value is a word itself.
  have hvalue {marker : String} (htag : tag = marker ++ t.value) (hne : t.value.toList ≠ []) :
      IsWord t.value.toList := by
    refine ⟨hne, fun c hc => hword.2 c ?_⟩
    rw [htag, String.toList_append]
    exact List.mem_append_right _ hc
  obtain ⟨kind, value, span⟩ := t
  have hne (hdigits : isCometLiteral value.toList = true) : value.toList ≠ [] := by
    intro hnil
    rw [hnil] at hdigits
    cases hdigits
  cases h with
  | fixed htag _ =>
      have heq := tag_of_tag? (t := ⟨kind, value, span⟩) htag
      refine ⟨_, readsBack_of_word file (heq ▸ hword) ?_ hread⟩
      intro hhead
      rw [heq] at hhead
      exact absurd hhead (Kind.start_of_tag? kind kind.mem_all tag htag).2.1
  | string hclosed =>
      exact ⟨_, readsBack_of_word file hword (fun _ => hclosed) hread⟩
  | identifier hname =>
      exact ⟨_, readsBack_of_marker file "id_" (by decide) (by decide)
        (hvalue rfl (String.toList_eq_nil_iff.ne.2 hname)) rfl hread⟩
  | literal hdigits =>
      exact ⟨_, readsBack_of_marker file "cmt_" (by decide) (by decide)
        (hvalue rfl (hne hdigits)) rfl hread⟩
  | longLiteral hdigits =>
      exact ⟨_, readsBack_of_marker file "cmt_" (by decide) (by decide)
        (hvalue rfl (hne hdigits)) rfl hread⟩

end

/-! ## Texts of tags -/

/-- The words that an open string has so far, latest first. -/
structure OpenParts (parts : List (List Char)) : Prop where
  words : ∀ text ∈ parts, IsWord text
  opening : ∃ opening middle,
    parts.reverse = opening :: middle ∧ opening.head? = some '"' ∧
      isClosedString opening = false ∧ ∀ text ∈ middle, closesString text = false

namespace OpenParts

variable {parts : List (List Char)} {text : List Char}

theorem single
    (hword : IsWord text)
    (hhead : text.head? = some '"')
    (hopen : isClosedString text = false) :
    OpenParts [text] :=
  ⟨by simpa using hword, text, [], rfl, hhead, hopen, by simp⟩

theorem cons
    (h : OpenParts parts)
    (hword : IsWord text)
    (hopen : closesString text = false) :
    OpenParts (text :: parts) := by
  obtain ⟨hwords, opening, middle, hparts, hhead, hfirst, hmiddle⟩ := h
  refine ⟨List.forall_mem_cons.2 ⟨hword, hwords⟩, opening, middle ++ [text], ?_, hhead, hfirst, ?_⟩
  · rw [List.reverse_cons, hparts, List.cons_append]
  · simpa [or_imp, forall_and] using ⟨hmiddle, hopen⟩

/-- The token of a string that is closed is read back. -/
theorem exists_readsBack
    (h : OpenParts parts)
    (hword : IsWord text)
    (hclosing : closesString text = true)
    {position : Position}
    {t : Token}
    (ht : ofTag (stringText (text :: parts)) position = .ok t)
    (file : String) :
    t.kind = .string ∧ ∃ texts, t.ReadsBack file texts := by
  obtain ⟨hwords, opening, middle, hparts, hhead, hfirst, hmiddle⟩ := h
  have htext : stringText (text :: parts)
      = String.ofList (joinWords (opening :: middle ++ [text])) := by
    rw [stringText, List.reverse_cons, hparts]
  have hread : readTag? (stringText (text :: parts))
      = some (.string, stringText (text :: parts)) := by
    apply readTag?_string
    rw [htext, String.toList_ofList]
    exact isClosedString_joinWords hhead hclosing middle
  rw [ofTag_eq hread] at ht
  cases ht
  refine ⟨rfl, _, readsBack_string file rfl htext ?_ hhead hfirst hmiddle hclosing⟩
  intro text' htext'
  rw [← hparts, List.mem_append, List.mem_reverse, List.mem_singleton] at htext'
  rcases htext' with hmem | rfl
  · exact hwords text' hmem
  · exact hword

end OpenParts

/-- Every token of a text of tags is spelt as it is written, and its tag is read back. -/
theorem readsBack_of_readWords
    {file : String}
    {opening? : Option (Word × List (List Char))}
    {words : List Word}
    {tokens : List Token}
    (h : readWords file opening? words = .ok tokens)
    (hwords : ∀ word ∈ words, IsWord word.text)
    (hopen : ∀ opening ∈ opening?, OpenParts opening.2)
    (file' : String) :
    ∀ t ∈ tokens, t.kind.lexeme?.getD t.value = t.value ∧ ∃ texts, t.ReadsBack file' texts := by
  induction words generalizing opening? tokens with
  | nil =>
      cases opening? with
      | none =>
          cases h
          exact List.forall_mem_nil _
      | some opening =>
          cases h
  | cons word rest ih =>
      rw [List.forall_mem_cons] at hwords
      obtain ⟨hword, hrest⟩ := hwords
      have hnone : ∀ opening ∈ (none : Option (Word × List (List Char))), OpenParts opening.2 := by
        simp
      cases opening? with
      | none =>
          rw [readWords] at h
          split at h
          · next hstart =>
              rw [Bool.and_eq_true, beq_iff_eq, Bool.not_eq_true'] at hstart
              refine ih h hrest ?_
              rintro opening ⟨⟩
              exact .single hword hstart.1 hstart.2
          · obtain ⟨t, tokens', ht, hbehind, rfl⟩ := exists_of_read_cons h
            have hnames := names_of_ofTag ht
            refine List.forall_mem_cons.2 ⟨⟨hnames.lexeme, ?_⟩, ih hbehind hrest hnone⟩
            refine hnames.exists_readsBack ?_ file'
            rwa [Word.toText, String.toList_ofList]
      | some opening =>
          have hparts := hopen opening rfl
          rw [readWords] at h
          split at h
          · next hclosing =>
              obtain ⟨t, tokens', ht, hbehind, rfl⟩ := exists_of_read_cons h
              obtain ⟨hkind, hback⟩ := hparts.exists_readsBack hword hclosing ht file'
              refine List.forall_mem_cons.2 ⟨⟨?_, hback⟩, ih hbehind hrest hnone⟩
              rw [hkind]
              rfl
          · next hgoes =>
              refine ih h hrest ?_
              rintro opening' ⟨⟩
              exact hparts.cons hword (by simpa using hgoes)

/-- Tokens that are spelt as they are written come back as they were. -/
theorem map_kind_and_value_of_returns
    {tokens tokens' : List Token}
    (h : List.Forall₂ Returns tokens tokens')
    (hspelt : ∀ t ∈ tokens, t.kind.lexeme?.getD t.value = t.value) :
    tokens'.map kind = tokens.map kind ∧ tokens'.map value = tokens.map value := by
  induction h with
  | nil =>
      exact ⟨rfl, rfl⟩
  | cons hfirst _ ih =>
      rw [List.forall_mem_cons] at hspelt
      obtain ⟨hkinds, hvalues⟩ := ih hspelt.2
      simp only [List.map_cons, hkinds, hvalues, hfirst.kind, hfirst.value, hspelt.1, and_self]

/-- The tokens of a text of tags are read again from the tags they write. -/
theorem exists_readTags_again
    {source file : String}
    {tokens : List Token}
    (h : readTags source file = .ok tokens)
    (file' : String) :
    ∃ tokens', readTags (" ".intercalate (tokens.map tag)) file' = .ok tokens' ∧
      tokens'.map kind = tokens.map kind ∧ tokens'.map value = tokens.map value := by
  have hback := readsBack_of_readWords h (fun word hword => (Word.of_mem_splitFrom hword).2)
    (by simp) file'
  obtain ⟨tokens', hread, hreturns⟩ :=
    exists_readTags_of_readsBack fun t ht => ⟨.inl (hback t ht).1, (hback t ht).2⟩
  exact ⟨tokens', hread, map_kind_and_value_of_returns hreturns fun t ht => (hback t ht).1⟩

/--
A tag is read to a token if and only if it has one of the four shapes, which exclude
each other, and else it is malformed. The token that is read is of a kind whose tags
have this shape, and its value is the spelling of the kind, if there is one. It writes
the tag again, with the shorter marker for the longer one, and what it writes is read
to a token of the same kind and value. So is every text of tags.
-/
theorem tag_codec
    (tag : String)
    (position : Position) :
    ((∃ t, ofTag tag position = .ok t) ↔ ∃ shape : TagShape, shape.Has tag) ∧
      (∀ shape shape' : TagShape, shape.Has tag → shape'.Has tag → shape = shape') ∧
      ((¬∃ shape : TagShape, shape.Has tag) →
        ofTag tag position = .error ⟨.malformedTag tag, position⟩) ∧
      (∀ t, ofTag tag position = .ok t →
        (TagShape.ofKind t.kind).Has tag ∧
          t.kind.lexeme?.getD t.value = t.value ∧
          (∀ digits, IsWhole Char.isDigit digits → tag = "comet_" ++ digits →
            t.tag = "cmt_" ++ digits) ∧
          ((∀ digits, IsWhole Char.isDigit digits → tag ≠ "comet_" ++ digits) →
            t.tag = tag) ∧
          ∀ position', ∃ t', ofTag t.tag position' = .ok t' ∧
            t'.kind = t.kind ∧ t'.value = t.value) ∧
      ∀ source file tokens, readTags source file = .ok tokens →
        ∀ file', ∃ tokens',
          readTags (" ".intercalate (tokens.map Token.tag)) file' = .ok tokens' ∧
            tokens'.map kind = tokens.map kind ∧ tokens'.map value = tokens.map value := by
  refine ⟨⟨?_, ?_⟩, fun _ _ => shape_eq_of_has, ?_, ?_, fun _ _ _ => exists_readTags_again⟩
  · rintro ⟨t, ht⟩
    exact ⟨_, (names_of_ofTag ht).shape⟩
  · rintro ⟨shape, hshape⟩
    obtain ⟨kind, value, hnames, -⟩ := exists_names hshape
    exact ⟨_, ofTag_eq (readTag?_eq_some_iff.2 hnames) position⟩
  · intro hnone
    exact ofTag_of_forall_not_has (fun shape hshape => hnone ⟨shape, hshape⟩) position
  · intro t ht
    have hnames := names_of_ofTag ht
    refine ⟨hnames.shape, hnames.lexeme, ?_, hnames.tag_eq, ?_⟩
    · rintro digits hdigits rfl
      exact hnames.tag_eq_of_longMarker hdigits
    · intro position'
      exact ⟨_, ofTag_eq (readTag?_eq_some_iff.2 hnames.again) position', rfl, rfl⟩

/-- The token of the tag `comet_-07` at the start of a file `a`. -/
def longMarked : Token :=
  ⟨.cometLiteral, "-07", ⟨⟨0, "a"⟩, ⟨9, "a"⟩⟩⟩

/--
The longer marker is written as the shorter one, and what is written is read to the
same number. A text of tags in which a string opens with a lone quote is read again.
-/
theorem tag_codec_longMarked :
    ofTag "comet_-07" ⟨0, "a"⟩ = .ok longMarked ∧ longMarked.tag = "cmt_-07" ∧
      (∃ t', ofTag "cmt_-07" ⟨4, "b"⟩ = .ok t' ∧ t'.kind = .cometLiteral ∧ t'.value = "-07") ∧
      ∃ tokens', readTags "cmt_-07 \" id_x\" comet_token" "b" = .ok tokens' ∧
        tokens'.map kind = [.cometLiteral, .string, .comet] ∧
        tokens'.map value = ["-07", "\" id_x\"", "Comet"] := by
  have hread : ofTag "comet_-07" ⟨0, "a"⟩ = .ok longMarked := by
    decide +kernel
  have hdigits : IsWhole Char.isDigit "-07" :=
    isCometLiteral_iff_isWhole.1 (by decide)
  obtain ⟨-, -, -, hnamed, htexts⟩ := tag_codec "comet_-07" ⟨0, "a"⟩
  obtain ⟨-, -, hlong, -, hagain⟩ := hnamed longMarked hread
  have htag : longMarked.tag = "cmt_-07" := hlong "-07" hdigits rfl
  refine ⟨hread, htag, ?_, ?_⟩
  · rw [← htag]
    exact hagain ⟨4, "b"⟩
  · exact htexts "comet_-07  \"  id_x\" comet_token" "a"
      [longMarked, ⟨.string, "\" id_x\"", ⟨⟨11, "a"⟩, ⟨18, "a"⟩⟩⟩,
        ⟨.comet, "Comet", ⟨⟨20, "a"⟩, ⟨31, "a"⟩⟩⟩] (by decide +kernel) "b"

end Token
end CometLang
