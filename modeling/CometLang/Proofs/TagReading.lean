import Mathlib.Data.List.Forall2
import CometLang.Proofs.Scanning
import CometLang.Proofs.Words

/-!
# Tags are read back

Every token that is found in a program has a tag of one word, or it is a string
whose words are all part of the tag. So when the tags are joined by spaces and
split again, each token gets back the words of its own tag. These are read to a
token of the same kind; its value is the same too if the kind carries one, and
else it is the spelling that is written for the kind.
-/

namespace CometLang

open Text

instance (text : List Char) : Decidable (IsWord text) :=
  decidable_of_iff (text ≠ [] ∧ text.all (!isBlank ·) = true) (by simp [IsWord])

namespace Kind

theorem mem_all
    (kind : Kind) :
    kind ∈ all := by
  cases kind <;> decide

/-- Fixed kinds are told apart by their tags. -/
theorem ofTag?_of_tag? :
    ∀ kind ∈ all, ∀ tag ∈ kind.tag?, ofTag? tag = some kind := by
  decide +kernel

/-- The kinds that have a tag are those that have a spelling. -/
theorem isSome_lexeme? :
    ∀ kind ∈ all, kind.lexeme?.isSome = kind.tag?.isSome := by
  decide +kernel

/-- A kind with a tag has a spelling. -/
theorem exists_lexeme
    {kind : Kind}
    {tag : String}
    (h : kind.tag? = some tag) :
    ∃ lexeme, kind.lexeme? = some lexeme := by
  rw [← Option.isSome_iff_exists, isSome_lexeme? kind kind.mem_all, h]
  rfl

/-- A fixed tag is a word, and starts like no other tag. -/
theorem start_of_tag? :
    ∀ kind ∈ all, ∀ tag ∈ kind.tag?,
      IsWord tag.toList ∧ tag.toList.head? ≠ some '"' ∧
        "id_".toList.isPrefixOf tag.toList = false := by
  decide +kernel

/-- A word of the tables is the spelling of its kind, or starts in lower case. -/
theorem spelling_of_mem :
    ∀ entry ∈ reserved ++ operators,
      entry.2.tag?.isSome = true ∧
        (entry.2.lexeme? = some entry.1 ∨
          entry.1 = "reception" ∨ entry.1 = "transmission") := by
  decide +kernel

/-- What starts like no fixed tag is none. -/
theorem ofTag?_eq_none
    {tag : String}
    (h : ∀ kind : Kind, kind.tag? ≠ some tag) :
    ofTag? tag = none := by
  simpa [ofTag?] using fun kind _ => h kind

end Kind

namespace WordClass

/-- What the class of a word says about the word. -/
def Tells (text : List Char) : WordClass → Prop
  | token kind =>
      (String.ofList text, kind) ∈ Kind.reserved ++ Kind.operators ∨
        (kind = .cometLiteral ∧ isCometLiteral text = true) ∨
        (kind = .identifier ∧ text.all isNameChar = true)
  | openString => text.head? = some '"'
  | openComment => "/*".toList <+: text
  | misspelt _ | unrecognised => True

theorem tells_of
    (text : List Char) :
    Tells text (of text) := by
  have hlookup {table : List (String × Kind)} {kind : Kind}
      (hfound : table.lookup (String.ofList text) = some kind) :
      (String.ofList text, kind) ∈ table := by
    obtain ⟨before, after, rfl, -⟩ := List.lookup_eq_some_iff.1 hfound
    simp
  rw [of]
  cases hreserved : Kind.ofReserved? (String.ofList text) with
  | some kind =>
      exact .inl (List.mem_append_left _ (hlookup hreserved))
  | none =>
      dsimp only
      split
      · next hliteral =>
          exact .inr (.inl ⟨rfl, hliteral⟩)
      · cases hoperator : Kind.ofOperator? (String.ofList text) with
        | some kind =>
            exact .inl (List.mem_append_right _ (hlookup hoperator))
        | none =>
            dsimp only
            split
            · next hname =>
                rw [Bool.and_eq_true] at hname
                cases Kind.misspelt? (String.ofList text) with
                | some keyword =>
                    trivial
                | none =>
                    exact .inr (.inr ⟨rfl, hname.2⟩)
            · split
              · next hquote =>
                  exact beq_iff_eq.1 hquote
              · split
                · next hcomment =>
                    exact List.isPrefixOf_iff_prefix.1 hcomment
                · trivial

end WordClass

namespace Token

/-! ## One tag -/

/-- What is read from the tag of a fixed kind. -/
theorem readTag?_fixed
    {kind : Kind}
    {tag : String}
    (h : kind.tag? = some tag) :
    readTag? tag = some (kind, kind.lexeme?.getD "") := by
  rw [readTag?, Kind.ofTag?_of_tag? kind kind.mem_all tag h]

/-- A tag that starts with a quote and ends with one is a string. -/
theorem readTag?_string
    {tag : String}
    (h : isClosedString tag.toList = true) :
    readTag? tag = some (.string, tag) := by
  have hnone : Kind.ofTag? tag = none := by
    apply Kind.ofTag?_eq_none
    intro kind htag
    have hstart := (Kind.start_of_tag? kind kind.mem_all tag htag).2.1
    simp only [isClosedString, Bool.and_eq_true, beq_iff_eq] at h
    exact hstart h.1.2
  rw [readTag?, hnone, if_pos h]

/-- A tag with the marker of an identifier is one. -/
theorem readTag?_identifier
    {name : String}
    (h : name.toList ≠ []) :
    readTag? ("id_" ++ name) = some (.identifier, name) := by
  have htag : ("id_" ++ name).toList = "id_".toList ++ name.toList := by
    simp
  have hnone : Kind.ofTag? ("id_" ++ name) = none := by
    apply Kind.ofTag?_eq_none
    intro kind hkind
    have hstart := (Kind.start_of_tag? kind kind.mem_all _ hkind).2.2
    rw [htag] at hstart
    cases hstart
  have hopen : isClosedString ("id_".toList ++ name.toList) = false := by
    simp [isClosedString]
  have hname : identifierOfTag? ("id_".toList ++ name.toList) = some name.toList := by
    have hprefix : "id_".toList.isPrefixOf? ("id_".toList ++ name.toList) = some name.toList :=
      rfl
    rw [identifierOfTag?, hprefix]
    simp [Option.filter, h]
  rw [readTag?, hnone, htag, hopen, hname]
  simp

/-- No fixed tag is a literal behind a marker. -/
theorem literalOfTag?_of_tag? :
    ∀ kind ∈ Kind.all, ∀ tag ∈ kind.tag?, literalOfTag? tag.toList = none := by
  decide +kernel

/-- A tag that has a literal behind one of the two markers is that literal. -/
theorem readTag?_of_literalOfTag?
    {tag : String}
    {literal : List Char}
    (h : literalOfTag? tag.toList = some literal) :
    readTag? tag = some (.cometLiteral, String.ofList literal) := by
  have hnone : Kind.ofTag? tag = none := by
    apply Kind.ofTag?_eq_none
    intro kind hkind
    have hfixed := literalOfTag?_of_tag? kind kind.mem_all tag hkind
    rw [h] at hfixed
    cases hfixed
  -- Both markers start with the same letter, which starts no string and no name.
  have hhead : tag.toList.head? = some 'c' := by
    obtain ⟨hmarker, -⟩ := Option.filter_eq_some_iff.1 h
    rcases Option.or_eq_some_iff.1 hmarker with hshort | ⟨-, hlong⟩
    · rw [← List.isPrefixOf?_eq_some_iff_append_eq.1 hshort]
      rfl
    · rw [← List.isPrefixOf?_eq_some_iff_append_eq.1 hlong]
      rfl
  have hopen : isClosedString tag.toList = false := by
    simp [isClosedString, hhead]
  have hname : identifierOfTag? tag.toList = none := by
    obtain ⟨rest, hrest⟩ := List.head?_eq_some_iff.1 hhead
    rw [hrest]
    rfl
  rw [readTag?, hnone, hopen, hname, h]
  simp

/-- A tag with the marker of a literal is one. -/
theorem readTag?_literal
    {literal : String}
    (h : isCometLiteral literal.toList = true) :
    readTag? ("cmt_" ++ literal) = some (.cometLiteral, literal) := by
  have hliteral : literalOfTag? ("cmt_" ++ literal).toList = some literal.toList := by
    have hprefix : "cmt_".toList.isPrefixOf? ("cmt_".toList ++ literal.toList)
        = some literal.toList :=
      rfl
    rw [String.toList_append, literalOfTag?, hprefix]
    simp [Option.filter, h]
  rw [readTag?_of_literalOfTag? hliteral, String.ofList_toList]

/-! ## The words of a tag -/

/-- The token at another place, with the spelling that is written for its kind. -/
def respelt
    (t : Token)
    (span : Span) : Token :=
  ⟨t.kind, t.kind.lexeme?.getD t.value, span⟩

/-- The words of the tag are read back to the token, whatever follows. -/
structure ReadsBack
    (file : String)
    (t : Token)
    (texts : List (List Char)) : Prop where
  nonempty : texts ≠ []
  words : ∀ text ∈ texts, IsWord text
  tag : joinWords texts = t.tag.toList
  read :
    ∀ words rest, words.map Word.text = texts →
      ∃ span, readWords file none (words ++ rest)
        = (readWords file none rest).map (t.respelt span :: ·)

/-- What a tag says is what is read at its word. -/
theorem ofTag_eq
    {tag : String}
    {kind : Kind}
    {value : String}
    (h : readTag? tag = some (kind, value))
    (position : Position) :
    ofTag tag position = .ok ⟨kind, value, Span.ofLength position tag.utf8ByteSize⟩ := by
  rw [ofTag, h]

/-- A tag of one word is read back if the word does not open a string. -/
theorem readsBack_of_word
    (file : String)
    {t : Token}
    (hword : IsWord t.tag.toList)
    (hopen : t.tag.toList.head? = some '"' → isClosedString t.tag.toList = true)
    (hread : readTag? t.tag = some (t.kind, t.kind.lexeme?.getD t.value)) :
    t.ReadsBack file [t.tag.toList] := by
  refine ⟨by simp, by simpa using hword, by simp [joinWords], ?_⟩
  intro words rest hwords
  obtain ⟨word, tail, rfl, htext, htail⟩ := List.map_eq_cons_iff.1 hwords
  obtain rfl := List.map_eq_nil_iff.1 htail
  refine ⟨Span.ofLength ⟨word.offset, file⟩ t.tag.utf8ByteSize, ?_⟩
  have hplain : ¬(word.text.head? == some '"' && !isClosedString word.text) = true := by
    rw [htext]
    simpa using hopen
  have htag : word.toText = t.tag := by
    rw [Word.toText, htext, String.ofList_toList]
  rw [List.singleton_append, readWords, if_neg hplain, htag, ofTag_eq hread]
  cases readWords file none rest <;> rfl

/-- A tag that marks a value is read back if the value is a word. -/
theorem readsBack_of_marker
    (file : String)
    {t : Token}
    (marker : String)
    (hmarker : IsWord marker.toList)
    (hquote : marker.toList.head? ≠ some '"')
    (hvalue : IsWord t.value.toList)
    (htag : t.tag = marker ++ t.value)
    (hread : readTag? t.tag = some (t.kind, t.kind.lexeme?.getD t.value)) :
    t.ReadsBack file [t.tag.toList] := by
  have hlist : t.tag.toList = marker.toList ++ t.value.toList := by
    rw [htag, String.toList_append]
  apply readsBack_of_word file _ _ hread
  · rw [hlist]
    refine ⟨by simp [hvalue.1], ?_⟩
    intro c hc
    rcases List.mem_append.1 hc with hfront | hback
    · exact hmarker.2 c hfront
    · exact hvalue.2 c hback
  · rw [hlist, List.head?_append_of_ne_nil _ hmarker.1]
    intro hhead
    exact absurd hhead hquote

/-- Words from one that starts with a quote to one that ends with a quote are a string. -/
theorem isClosedString_joinWords
    {opening closing : List Char}
    (hopening : opening.head? = some '"')
    (hclosing : closesString closing = true)
    (middle : List (List Char)) :
    isClosedString (joinWords (opening :: middle ++ [closing])) = true := by
  rw [closesString, beq_iff_eq] at hclosing
  have hjoin : joinWords (opening :: middle ++ [closing])
      = joinWords (opening :: middle) ++ ' ' :: closing := by
    rw [joinWords_append (by simp) (by simp)]
    simp [joinWords]
  have hhead : (joinWords (opening :: middle)).head? = some '"' := by
    cases middle with
    | nil =>
        simpa [joinWords] using hopening
    | cons next middle =>
        rw [joinWords_cons_cons, List.head?_append, hopening]
        rfl
  obtain ⟨tail, htail⟩ := List.head?_eq_some_iff.1 hhead
  rw [hjoin, htail, isClosedString]
  simp only [List.length_append, List.length_cons, List.head?_cons, List.cons_append,
    List.getLast?_cons, List.getLast?_append, hclosing]
  simp
  omega

/-- A tag and the words behind it can be read if each of them can. -/
theorem exists_of_read_cons
    {file tag : String}
    {position : Position}
    {rest : List Word}
    {tokens : List Token}
    (h : (do
      let token ← ofTag tag position
      let tokens ← readWords file none rest
      return token :: tokens) = .ok tokens) :
    ∃ t tokens', ofTag tag position = .ok t ∧ readWords file none rest = .ok tokens' ∧
      tokens = t :: tokens' := by
  cases htag : ofTag tag position with
  | error fault =>
      rw [htag] at h
      cases h
  | ok t =>
      cases hrest : readWords file none rest with
      | error fault =>
          rw [htag, hrest] at h
          cases h
      | ok tokens' =>
          rw [htag, hrest] at h
          cases h
          exact ⟨t, tokens', rfl, rfl, rfl⟩

/-- An open string takes in words to the first one that ends with a quote. -/
theorem readWords_string
    (file : String)
    (opening : Word)
    (parts : List (List Char))
    {middle : List Word}
    (hmiddle : ∀ word ∈ middle, closesString word.text = false)
    {closing : Word}
    (hclosing : closesString closing.text = true)
    (rest : List Word) :
    readWords file (some (opening, parts)) (middle ++ closing :: rest)
      = (ofTag (stringText (((middle ++ [closing]).map Word.text).reverse ++ parts))
          ⟨opening.offset, file⟩) >>= fun token =>
            (readWords file none rest).map (token :: ·) := by
  induction middle generalizing parts with
  | nil =>
      rw [List.nil_append, readWords, if_pos hclosing]
      rfl
  | cons word middle ih =>
      have hword : ¬closesString word.text = true := by
        simp [hmiddle word (by simp)]
      rw [List.cons_append, readWords, if_neg hword,
        ih _ fun word' hword' => hmiddle word' (by simp [hword'])]
      simp

/-- The words of a string are read back one by one. -/
theorem readsBack_string
    (file : String)
    {t : Token}
    {opening closing : List Char}
    {middle : List (List Char)}
    (hkind : t.kind = .string)
    (hvalue : t.value = String.ofList (joinWords (opening :: middle ++ [closing])))
    (hwords : ∀ text ∈ opening :: middle ++ [closing], IsWord text)
    (hopening : opening.head? = some '"')
    (hopen : isClosedString opening = false)
    (hmiddle : ∀ text ∈ middle, closesString text = false)
    (hclosing : closesString closing = true) :
    t.ReadsBack file (opening :: middle ++ [closing]) := by
  have htag : t.tag = String.ofList (joinWords (opening :: middle ++ [closing])) := by
    rw [tag, hkind, hvalue]
  refine ⟨by simp, hwords, by simp [htag], ?_⟩
  intro words rest hmap
  obtain ⟨front, last, rfl, hfront, hlast⟩ := List.map_eq_append_iff.1 hmap
  obtain ⟨w, ws, rfl, hw, hws⟩ := List.map_eq_cons_iff.1 hfront
  obtain ⟨v, vs, rfl, hv, hvs⟩ := List.map_eq_cons_iff.1 hlast
  obtain rfl := List.map_eq_nil_iff.1 hvs
  have hstart : (w.text.head? == some '"' && !isClosedString w.text) = true := by
    rw [hw]
    simp [hopening, hopen]
  have hmiddle' : ∀ word ∈ ws, closesString word.text = false := by
    intro word hword
    exact hmiddle _ (hws ▸ List.mem_map_of_mem hword)
  have htext : stringText (((ws ++ [v]).map Word.text).reverse ++ [w.text]) = t.value := by
    rw [stringText, hvalue]
    simp [hw, hws, hv]
  have hread : readTag? t.value = some (.string, t.value) := by
    apply readTag?_string
    rw [hvalue, String.toList_ofList]
    exact isClosedString_joinWords hopening hclosing middle
  refine ⟨Span.ofLength ⟨w.offset, file⟩ t.value.utf8ByteSize, ?_⟩
  rw [List.append_assoc, List.cons_append, readWords, if_pos hstart, List.singleton_append,
    readWords_string file w _ hmiddle' (hv ▸ hclosing), htext, ofTag_eq hread]
  rw [respelt, hkind]
  rfl

/-! ## Tokens of programs -/

/-- The value is the spelling of the kind, if it has one, but for two keywords in lower case. -/
def WellSpelt (t : Token) : Prop :=
  t.kind.lexeme?.getD t.value = t.value ∨ t.value = "reception" ∨ t.value = "transmission"

theorem tag_of_tag?
    {t : Token}
    {tag : String}
    (h : t.kind.tag? = some tag) :
    t.tag = tag := by
  rw [Token.tag]
  split
  · next hkind =>
      simp [hkind, Kind.tag?] at h
  · next hkind =>
      simp [hkind, Kind.tag?] at h
  · next hkind =>
      simp [hkind, Kind.tag?] at h
  · rw [h]
    rfl

/-- A word that is a token is well spelt, and its tag is read back. -/
theorem readsBack_ofWord
    (file file' : String)
    {kind : Kind}
    {word : Word}
    (hword : IsWord word.text)
    (hclass : WordClass.of word.text = .token kind) :
    (ofWord file kind word).WellSpelt ∧
      ∃ texts, (ofWord file kind word).ReadsBack file' texts := by
  have htells := WordClass.tells_of word.text
  rw [hclass] at htells
  have hvalue : IsWord word.toText.toList := by
    rwa [Word.toText, String.toList_ofList]
  rcases htells with hmem | ⟨rfl, hliteral⟩ | ⟨rfl, -⟩
  · obtain ⟨htag, hspelling⟩ := Kind.spelling_of_mem _ hmem
    obtain ⟨tag, htag⟩ := Option.isSome_iff_exists.1 htag
    obtain ⟨lexeme, hlexeme⟩ := Kind.exists_lexeme htag
    obtain ⟨hfixed, hquote, -⟩ := Kind.start_of_tag? kind kind.mem_all tag htag
    have heq : (ofWord file kind word).tag = tag := tag_of_tag? htag
    constructor
    · rcases hspelling with hspelling | hlower
      · exact .inl (by simp [ofWord, Word.toText, hspelling])
      · exact .inr hlower
    · refine ⟨_, readsBack_of_word file' (heq ▸ hfixed) ?_ ?_⟩
      · intro hhead
        rw [heq] at hhead
        exact absurd hhead hquote
      · rw [heq, readTag?_fixed htag]
        simp [ofWord, hlexeme]
  · refine ⟨.inl rfl, _, readsBack_of_marker file' "cmt_" (by decide) (by decide) ?_ rfl ?_⟩
    · exact hvalue
    · exact readTag?_literal (by simpa [ofWord, Word.toText] using hliteral)
  · refine ⟨.inl rfl, _, readsBack_of_marker file' "id_" (by decide) (by decide) ?_ rfl ?_⟩
    · exact hvalue
    · exact readTag?_identifier hvalue.1

/-- Every token that is found in words is well spelt, and its tag is read back. -/
theorem Scans.readsBack
    {file : String}
    {words : List Word}
    {tokens : List Token}
    (h : Scans file words tokens)
    (hwords : ∀ word ∈ words, IsWord word.text)
    (file' : String) :
    ∀ t ∈ tokens, t.WellSpelt ∧ ∃ texts, t.ReadsBack file' texts := by
  induction h with
  | none =>
      simp
  | word hclass _ ih =>
      rw [List.forall_mem_cons] at hwords ⊢
      exact ⟨readsBack_ofWord file file' hwords.1 hclass, ih hwords.2⟩
  | @closedString word _ _ hclass hclosed _ ih =>
      rw [List.forall_mem_cons] at hwords ⊢
      refine ⟨⟨.inl rfl, _, readsBack_of_word file' ?_ ?_ ?_⟩, ih hwords.2⟩
      · simpa [ofWord, tag, Word.toText] using hwords.1
      · intro _
        simpa [ofWord, tag, Word.toText] using hclosed
      · apply readTag?_string
        simpa [ofWord, tag, Word.toText] using hclosed
  | @string opening closing middle _ _ hclass hopen hmiddle hclosing _ ih =>
      rw [List.forall_mem_cons]
      simp only [List.forall_mem_append, List.forall_mem_cons] at hwords
      obtain ⟨⟨hfirst, hinner⟩, hlast, hrest⟩ := hwords
      have htells := WordClass.tells_of opening.text
      rw [hclass] at htells
      refine ⟨⟨.inl rfl, opening.text :: middle.map Word.text ++ [closing.text], ?_⟩, ih hrest⟩
      refine readsBack_string file' rfl ?_ ?_ htells hopen ?_ hclosing
      · simp [ofString, stringText]
      · simp only [List.forall_mem_append, List.forall_mem_cons, List.forall_mem_map]
        exact ⟨⟨hfirst, hinner⟩, hlast, List.forall_mem_nil _⟩
      · simpa using hmiddle
  | closedComment _ _ _ _ ih =>
      exact ih fun word hword => hwords word (by simp [hword])
  | comment _ _ _ _ _ ih =>
      exact ih fun word hword => hwords word (by simp [hword])

/-- The second token is what is read from the tag of the first. -/
structure Returns (t t' : Token) : Prop where
  kind : t'.kind = t.kind
  tag : t'.tag = t.tag
  /-- The value is kept, or it is the spelling of the kind. -/
  value : t'.value = t.kind.lexeme?.getD t.value
  /-- Only keywords in lower case are spelt in another way. -/
  spelling : t'.value ≠ t.value → t.value = "reception" ∨ t.value = "transmission"

/-- The spelling of a fixed kind is not part of a tag. -/
@[simp] theorem tag_respelt
    (t : Token)
    (span : Span) :
    (t.respelt span).tag = t.tag := by
  obtain ⟨kind, value, place⟩ := t
  cases kind <;> rfl

theorem returns_respelt
    {t : Token}
    (h : t.WellSpelt)
    (span : Span) :
    t.Returns (t.respelt span) := by
  refine ⟨rfl, t.tag_respelt span, rfl, ?_⟩
  intro hne
  rcases h with hspelt | hlower
  · exact absurd hspelt hne
  · exact hlower

/-- Tokens whose tags are read back one by one are read back from all of them. -/
theorem exists_readWords
    {file : String}
    {tokens : List Token}
    (h : ∀ t ∈ tokens, t.WellSpelt ∧ ∃ texts, t.ReadsBack file texts) :
    ∃ groups : List (List (List Char)),
      groups.map joinWords = tokens.map (·.tag.toList) ∧
        (∀ group ∈ groups, group ≠ [] ∧ ∀ text ∈ group, IsWord text) ∧
        ∀ words, words.map Word.text = groups.flatten →
          ∃ tokens', readWords file none words = .ok tokens' ∧
            List.Forall₂ Returns tokens tokens' := by
  induction tokens with
  | nil =>
      refine ⟨[], rfl, by simp, ?_⟩
      intro words hwords
      obtain rfl := List.map_eq_nil_iff.1 hwords
      exact ⟨[], rfl, .nil⟩
  | cons t tokens ih =>
      rw [List.forall_mem_cons] at h
      obtain ⟨⟨hspelt, texts, ht⟩, hrest⟩ := h
      obtain ⟨groups, htags, hgroups, hread⟩ := ih hrest
      refine ⟨texts :: groups, by simp [ht.tag, htags], ?_, ?_⟩
      · rw [List.forall_mem_cons]
        exact ⟨⟨ht.nonempty, ht.words⟩, hgroups⟩
      · intro words hwords
        obtain ⟨front, back, rfl, hfront, hback⟩ := List.map_eq_append_iff.1 hwords
        obtain ⟨tokens', htokens', hrel⟩ := hread back hback
        obtain ⟨span, hspan⟩ := ht.read front back hfront
        refine ⟨t.respelt span :: tokens', ?_, .cons (returns_respelt hspelt span) hrel⟩
        rw [hspan, htokens']
        rfl

/-- Tokens whose tags are read back one by one are read back from the joined tags. -/
theorem exists_readTags_of_readsBack
    {file : String}
    {tokens : List Token}
    (h : ∀ t ∈ tokens, t.WellSpelt ∧ ∃ texts, t.ReadsBack file texts) :
    ∃ tokens', readTags (" ".intercalate (tokens.map tag)) file = .ok tokens' ∧
      List.Forall₂ Returns tokens tokens' := by
  obtain ⟨groups, htags, hgroups, hread⟩ := exists_readWords h
  exact hread _ (map_text_split_intercalate (by rw [htags, List.map_map]; rfl) hgroups)

/-- The tags of a program are read back, token by token. -/
theorem exists_readTags
    {source file : String}
    {tokens : List Token}
    (h : scan source file = .ok tokens)
    (file' : String) :
    ∃ tokens', readTags (" ".intercalate (tokens.map tag)) file' = .ok tokens' ∧
      List.Forall₂ Returns tokens tokens' := by
  have hwords : ∀ word ∈ Word.split source, IsWord word.text := fun word hword =>
    (Word.of_mem_splitFrom hword).2
  exact exists_readTags_of_readsBack ((scans_of_scanWords h).readsBack hwords file')

end Token
end CometLang
