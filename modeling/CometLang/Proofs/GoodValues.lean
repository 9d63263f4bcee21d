import CometLang.Proofs.Invariance

/-!
# Values that stay good

Which values are good is left open. A world is sound if all values that it
keeps are good: those in the open frames and in the closed ones, the latest
writes, and the values in the frames that were put down with these. The input
belongs to it too, since a line of it can become a value: if a line that is
still to be read is a numeral, then it is good.

Everything that a program does to a world keeps it sound, as long as the values
that it writes are good.
-/

namespace CometLang

/-- All values of the frame are good. -/
def Frame.Holds
    (good : String → Prop)
    (frame : Frame) : Prop :=
  ∀ name value, frame.get? name = some value → good value

/-- The written value is good, and so are those in the frames of the time. -/
structure Entry.Holds
    (good : String → Prop)
    (entry : Entry) : Prop where
  value : good entry.value
  frames : ∀ frame ∈ entry.frames, frame.Holds good

section Frames

variable {good : String → Prop}

theorem Frame.holds_empty :
    Frame.Holds good Table.empty := by
  intro name value hget
  simp at hget

theorem Frame.holds_insert
    {frame : Frame}
    {name value : String}
    (h : frame.Holds good)
    (hvalue : good value) :
    Frame.Holds good (frame.insert name value) := by
  intro other text hget
  rcases Table.get?_insert_eq_some hget with ⟨-, rfl⟩ | hold
  · exact hvalue
  · exact h other text hold

end Frames

/-! ## Lines of the input -/

/-- The lines of the input, each with the newline that ends it. -/
def inputLines : List UInt8 → List (List UInt8)
  | [] => []
  | byte :: rest =>
      if byte = 10 then
        [byte] :: inputLines rest
      else
        match inputLines rest with
        | [] => [[byte]]
        | line :: others => (byte :: line) :: others

/-- What the lines of the input say, the blanks around them removed. -/
def offered (input : List UInt8) : List String :=
  (inputLines input).filterMap fun line =>
    (String.fromUTF8? ⟨line.toArray⟩).map Text.trimmed

/-- The first line goes to the first newline, and the others stand behind it. -/
theorem inputLines_eq_cons
    {input : List UInt8}
    (h : input ≠ []) :
    inputLines input
      = (input.takeWhile (· != 10) ++ (input.dropWhile (· != 10)).take 1)
        :: inputLines ((input.dropWhile (· != 10)).drop 1) := by
  induction input with
  | nil =>
      exact absurd rfl h
  | cons byte rest ih =>
      rw [inputLines]
      by_cases hbyte : byte = 10
      · subst hbyte
        simp
      · rw [if_neg hbyte, List.takeWhile_cons_of_pos (by simpa using hbyte),
          List.dropWhile_cons_of_pos (by simpa using hbyte)]
        cases rest with
        | nil =>
            simp [inputLines]
        | cons next rest =>
            rw [ih (by simp)]
            rfl

/-- What stands behind the first line was offered before. -/
theorem offered_of_behind
    {input : List UInt8}
    {text : String}
    (h : text ∈ offered ((input.dropWhile (· != 10)).drop 1)) :
    text ∈ offered input := by
  by_cases hinput : input = []
  · subst hinput
    exact h
  · rw [offered, inputLines_eq_cons hinput, List.filterMap_cons]
    split
    · exact h
    · exact List.mem_cons_of_mem _ h

/-- What the first line says is offered. -/
theorem offered_of_first
    {input : List UInt8}
    {line : String}
    (hline : input.takeWhile (· != 10) ++ (input.dropWhile (· != 10)).take 1 ≠ [])
    (h : String.fromUTF8?
      ⟨(input.takeWhile (· != 10) ++ (input.dropWhile (· != 10)).take 1).toArray⟩ = some line) :
    Text.trimmed line ∈ offered input := by
  have hinput : input ≠ [] := by
    rintro rfl
    exact hline rfl
  rw [offered, inputLines_eq_cons hinput, List.filterMap_cons, h]
  exact List.mem_cons_self

/-! ## Sound worlds -/

/-- All values that the world keeps are good, and so is every numeral that it can read. -/
structure World.Sound
    (good : String → Prop)
    (w : World) : Prop where
  frames : ∀ frame ∈ w.frames, frame.Holds good
  closed : ∀ frame ∈ w.closed, frame.Holds good
  table : ∀ name entry, w.table.get? name = some entry → entry.Holds good
  input : ∀ text ∈ offered w.input, Numeral.isNumeral text.toList = true → good text

namespace World.Sound

variable {good : String → Prop}
variable {w : World}

theorem opened
    (h : w.Sound good) :
    (Change.opened w).Sound good := by
  refine ⟨?_, h.closed, h.table, h.input⟩
  exact List.forall_mem_cons.2 ⟨Frame.holds_empty, h.frames⟩

theorem left
    (h : w.Sound good) :
    (Change.closed w).Sound good := by
  rw [Change.closed]
  split
  · exact h
  · next frame rest hframes =>
      have hall := h.frames
      rw [hframes, List.forall_mem_cons] at hall
      exact ⟨hall.2, List.forall_mem_cons.2 ⟨hall.1, h.closed⟩, h.table, h.input⟩

end World.Sound

/-- When any value is good, any world is sound. -/
theorem World.sound_of_forall
    {good : String → Prop}
    (h : ∀ text, good text)
    (w : World) :
    w.Sound good :=
  ⟨fun _ _ _ value _ => h value, fun _ _ _ value _ => h value,
    fun _ entry _ => ⟨h entry.value, fun _ _ _ value _ => h value⟩, fun text _ _ => h text⟩

/-! ## What keeps a world sound -/

namespace Change.Upholds

open Abstract World

variable {good : String → Prop}
variable {blame : Fault → Prop}

theorem inSoundBlock
    {body : Change Unit}
    (h : Upholds (Sound good) blame body fun _ => True) :
    Upholds (Sound good) blame (Change.inBlock body) fun _ => True :=
  h.inBlock (fun _ hw => hw.opened) fun _ hw => hw.left

theorem record
    {name value : String}
    (hvalue : good value) :
    Upholds (Sound good) blame (Change.record name value) fun _ => True := by
  intro w hw
  refine ⟨⟨hw.frames, hw.closed, ?_, hw.input⟩, trivial⟩
  intro other entry hget
  rcases Table.get?_insert_eq_some hget with ⟨-, rfl⟩ | hold
  · exact ⟨hvalue, hw.frames⟩
  · exact hw.table other entry hold

theorem emit
    {settings : Settings}
    {text : String}
    {position : Position}
    (hio : ¬ settings.sink.TakesAll → ∀ message, blame ⟨.io message, position⟩) :
    Upholds (Sound good) blame (Change.emit settings text position) fun _ => True := by
  intro w hw
  have hsound (output : Array UInt8) : Sound good { w with output := output } :=
    ⟨hw.frames, hw.closed, hw.table, hw.input⟩
  rw [Change.emit]
  cases hrefusal : settings.sink.refusal? w.output w.flushes text.toUTF8.toList with
  | none =>
      exact ⟨hsound _, trivial⟩
  | some refusal =>
      exact ⟨hsound _, hio (Sink.not_takesAll hrefusal) refusal.message⟩

theorem flush
    {settings : Settings}
    {position : Position}
    (hio : ∀ message, blame ⟨.io message, position⟩) :
    Upholds (Sound good) blame (Change.flush settings position) fun _ => True := by
  intro w hw
  have hsound : Sound good { w with flushes := w.flushes + 1 } :=
    ⟨hw.frames, hw.closed, hw.table, hw.input⟩
  rw [Change.flush]
  cases settings.sink.flushError? w.output w.flushes with
  | none =>
      exact ⟨hsound, trivial⟩
  | some message =>
      exact ⟨hsound, hio message⟩

/-- A numeral that is received is good, and it is taken from the input. -/
theorem receive
    {position : Position}
    (hexhausted : blame ⟨.inputExhausted, position⟩)
    (hio : ∀ message, blame ⟨.io message, position⟩) :
    Upholds (Sound good) blame (Change.receive position) fun line =>
      Numeral.isNumeral (Text.trimmed line).toList = true → good (Text.trimmed line) := by
  intro w hw
  have hsound : Sound good { w with input := (w.input.dropWhile (· != 10)).drop 1 } :=
    ⟨hw.frames, hw.closed, hw.table, fun text htext => hw.input text (offered_of_behind htext)⟩
  rw [Change.receive]
  split
  · exact ⟨hsound, hexhausted⟩
  · next hline =>
      split
      · next text htext =>
          exact ⟨hsound, hw.input _ (offered_of_first hline htext)⟩
      · exact ⟨hsound, hio _⟩

theorem declare
    {n : Name}
    {value : String}
    (hvalue : good value)
    (hdeclared : blame ⟨.alreadyDeclared n.text, n.position⟩) :
    Upholds (Sound good) blame (n.declare value) fun _ => True := by
  intro w hw
  have hframes := hw.frames
  rw [Name.declare]
  split
  · refine ⟨⟨?_, hw.closed, hw.table, hw.input⟩, trivial⟩
    simpa using Frame.holds_insert Frame.holds_empty hvalue
  · next frame rest heq =>
      rw [heq, List.forall_mem_cons] at hframes
      split
      · exact ⟨hw, hdeclared⟩
      · refine ⟨⟨?_, hw.closed, hw.table, hw.input⟩, trivial⟩
        exact List.forall_mem_cons.2 ⟨Frame.holds_insert hframes.1 hvalue, hframes.2⟩

theorem assign
    {n : Name}
    {value : String}
    (hvalue : good value)
    (hundeclared : blame ⟨.undeclared n.text, n.position⟩) :
    Upholds (Sound good) blame (n.assign value) fun _ => True := by
  intro w hw
  rw [Name.assign]
  split
  · next index _ =>
      refine ⟨⟨?_, hw.closed, hw.table, hw.input⟩, trivial⟩
      intro frame hframe
      obtain ⟨i, hi, rfl⟩ := List.mem_iff_getElem.1 hframe
      rw [List.getElem_modify]
      split
      · exact Frame.holds_insert (hw.frames _ (List.getElem_mem _)) hvalue
      · exact hw.frames _ (List.getElem_mem _)
  · exact ⟨hw, hundeclared⟩

end Change.Upholds

/-- The value of a name is found in one of the frames. -/
theorem Abstract.Name.yields_value
    {good : String → Prop}
    {blame : Fault → Prop}
    {frames : List Frame}
    {n : Name}
    (h : ∀ frame ∈ frames, frame.Holds good)
    (hundeclared : blame ⟨.undeclared n.text, n.position⟩) :
    Yields good blame (n.value frames) := by
  rw [Name.value]
  cases hfound : frames.findSome? (·.get? n.text) with
  | some value =>
      obtain ⟨frame, hframe, hget⟩ := List.exists_of_findSome?_eq_some hfound
      exact h frame hframe n.text value hget
  | none =>
      exact hundeclared

end CometLang
