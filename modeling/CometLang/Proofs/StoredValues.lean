import CometLang.Proofs.CometText
import CometLang.Proofs.Culprits
import CometLang.Proofs.Lasting
import CometLang.Proofs.Placement

/-!
# What a machine keeps

A value comes from a literal, from another name, from an operation or from a
line of the input, and it is kept in four places: in the open frames, in the
closed ones, in the table, and in the frames that were put down in the table.
Whatever programs are run one after the other, and however they end, all these
values are numerals. They are whole numbers in the digits of ASCII unless the
input has offered something else.
-/

namespace CometLang

open Numeral

namespace Machine

/-- Every value that the machine keeps anywhere is good. -/
structure Stores
    (good : String → Prop)
    (m : Machine) : Prop where
  frames :
    ∀ frame ∈ m.scopes.frames, ∀ name value, frame.get? name = some value → good value
  history :
    ∀ frame ∈ m.scopes.history, ∀ name value, frame.get? name = some value → good value
  table :
    ∀ name entry, m.table.get? name = some entry → good entry.value
  snapshots :
    ∀ name entry, m.table.get? name = some entry →
      ∀ frame ∈ entry.frames, ∀ other value, frame.get? other = some value → good value

/-- The machine after the programs of all calls were run on it, one after the other. -/
def afterAll
    (calls : List (Settings × List Token))
    (m : Machine) : Machine :=
  calls.foldl (fun m call => (run call.1 (Derivation.parse call.2).tree).after m) m

variable {good : String → Prop}

theorem stores_of_sound
    {m : Machine}
    (h : m.visible.Sound good) :
    m.Stores good where
  frames := h.frames
  history frame hframe := h.closed frame (List.mem_reverse.1 hframe)
  table name entry hentry := (h.table name entry hentry).value
  snapshots name entry hentry := (h.table name entry hentry).frames

/-- A fresh machine keeps nothing yet, so it is sound if its input is. -/
theorem sound_fresh
    {input : List UInt8}
    (h : ∀ text ∈ offered input, isNumeral text.toList = true → good text) :
    (fresh input).visible.Sound good :=
  ⟨by simp [fresh, visible, Scopes.empty], by simp [fresh, visible, Scopes.empty],
    by simp [fresh, visible], h⟩

/-- What one run of an accepted program leaves is sound. -/
theorem sound_after_run
    {tokens : List Token}
    (haccept : (Derivation.parse tokens).verdict = .accept)
    (hliteral : ∀ t ∈ tokens, t.kind = .cometLiteral → good t.value)
    (htotal : ∀ n, good (wholeText n))
    (settings : Settings)
    {m : Machine}
    (hm : m.visible.Sound good) :
    ((run settings (Derivation.parse tokens).tree).after m).visible.Sound good := by
  have hends := Derivation.ends_run_parse haccept hliteral htotal settings hm
  rw [Action.after]
  cases hend : run settings (Derivation.parse tokens).tree m with
  | ok a m' =>
      rw [hend] at hends
      exact hends.1
  | error fault m' =>
      rw [hend] at hends
      exact hends.1

/-- If the literals that are read are good, then so is all that is kept in the end. -/
theorem stores_afterAll
    {calls : List (Settings × List Token)}
    (hcalls : ∀ call ∈ calls, Token.Read call.2 ∧
      (Derivation.parse call.2).verdict = .accept)
    (hwhole : ∀ text, IsWhole Char.isDigit text → good text)
    {input : List UInt8}
    (hinput : ∀ text ∈ offered input, isNumeral text.toList = true → good text) :
    (afterAll calls (fresh input)).Stores good := by
  -- From any sound machine, by induction on the calls.
  have hsound (m : Machine) (hm : m.visible.Sound good) :
      (afterAll calls m).visible.Sound good := by
    induction calls generalizing m with
    | nil =>
        exact hm
    | cons call calls ih =>
        rw [List.forall_mem_cons] at hcalls
        obtain ⟨⟨hread, haccept⟩, hrest⟩ := hcalls
        refine ih hrest _ (sound_after_run haccept ?_ (fun n => ?_) call.1 hm)
        · intro t ht hkind
          exact hwhole _ (isCometLiteral_iff_isWhole.1 (hread.literal t ht hkind))
        · exact hwhole _ (isWhole_wholeText n)
  exact stores_of_sound (hsound _ (sound_fresh hinput))

/--
Let programs that were read and accepted be run one after the other, with any
settings, from a fresh machine with any input. However the runs end, all values
that are kept are numerals in the decimal digits of any script. If no line of the
input is such a numeral with a point or with a digit that is not one of ASCII,
then all values that are kept are whole numbers in the digits of ASCII.
-/
theorem stores_numerals_after_runs
    (input : List UInt8)
    (calls : List (Settings × List Token))
    (hcalls : ∀ call ∈ calls, Token.Read call.2 ∧
      (Derivation.parse call.2).verdict = .accept) :
    (afterAll calls (fresh input)).Stores (IsDecimal Text.isDecimalDigit) ∧
      ((∀ text ∈ offered input, ¬IsFractional Text.isDecimalDigit text ∧
          ¬(IsDecimal Text.isDecimalDigit text ∧ HasForeignDigit text.toList)) →
        (afterAll calls (fresh input)).Stores (IsWhole Char.isDigit)) := by
  constructor
  · refine stores_afterAll hcalls (fun text hwhole => hwhole.isDecimal.of_ascii) ?_
    intro text _ hnumeral
    exact isNumeral_iff.1 hnumeral
  · intro hinput
    refine stores_afterAll hcalls (fun text hwhole => hwhole) ?_
    intro text htext hnumeral
    obtain ⟨hpoint, hforeign⟩ := hinput text htext
    have hdecimal := isNumeral_iff.1 hnumeral
    exact (hdecimal.ascii fun hdigit => hforeign ⟨hdecimal, hdigit⟩).isWhole hpoint

/-- The tokens of `Comet x = -7 ; x = Reception ( "x" ) ;` -/
def askedForX : List Token :=
  [⟨.comet, "Comet", ⟨⟨0, "s"⟩, ⟨5, "s"⟩⟩⟩,
   ⟨.identifier, "x", ⟨⟨6, "s"⟩, ⟨7, "s"⟩⟩⟩,
   ⟨.assignment, "=", ⟨⟨8, "s"⟩, ⟨9, "s"⟩⟩⟩,
   ⟨.cometLiteral, "-7", ⟨⟨10, "s"⟩, ⟨12, "s"⟩⟩⟩,
   ⟨.semicolon, ";", ⟨⟨13, "s"⟩, ⟨14, "s"⟩⟩⟩,
   ⟨.identifier, "x", ⟨⟨15, "s"⟩, ⟨16, "s"⟩⟩⟩,
   ⟨.assignment, "=", ⟨⟨17, "s"⟩, ⟨18, "s"⟩⟩⟩,
   ⟨.reception, "Reception", ⟨⟨19, "s"⟩, ⟨28, "s"⟩⟩⟩,
   ⟨.openParen, "(", ⟨⟨29, "s"⟩, ⟨30, "s"⟩⟩⟩,
   ⟨.string, "\"x\"", ⟨⟨31, "s"⟩, ⟨34, "s"⟩⟩⟩,
   ⟨.closeParen, ")", ⟨⟨35, "s"⟩, ⟨36, "s"⟩⟩⟩,
   ⟨.semicolon, ";", ⟨⟨37, "s"⟩, ⟨38, "s"⟩⟩⟩]

/--
A line that is one Arabic digit is received and kept, and then the input is
exhausted. If there was no input from the start, only the literal is kept.
-/
theorem stores_numerals_after_askedForX :
    (Token.Read askedForX ∧ (Derivation.parse askedForX).verdict = .accept) ∧
      ((afterAll [({}, askedForX)] (fresh [0xd9, 0xa3, 10])).table.get? "x").map Entry.value
        = some "٣" ∧
      (afterAll [({}, askedForX), ({}, askedForX)] (fresh [0xd9, 0xa3, 10])).Stores
        (IsDecimal Text.isDecimalDigit) ∧
      (afterAll [({}, askedForX)] (fresh [])).Stores (IsWhole Char.isDigit) := by
  have hscan : Token.scan "Comet x = -7 ; x = Reception ( \"x\" ) ;" "s" = .ok askedForX := by
    decide +kernel
  have haccept : (Derivation.parse askedForX).verdict = .accept := by
    decide +kernel
  have hcall : Token.Read askedForX ∧ (Derivation.parse askedForX).verdict = .accept :=
    ⟨⟨_, "s", .inl hscan⟩, haccept⟩
  refine ⟨hcall, ?_, ?_, ?_⟩
  · decide +kernel
  · exact (stores_numerals_after_runs _ _ (by simpa using hcall)).1
  · exact (stores_numerals_after_runs _ _ (by simpa using hcall)).2 (by simp [offered, inputLines])

end Machine
end CometLang
