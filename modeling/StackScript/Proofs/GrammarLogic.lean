import StackScript.Proofs.Sturdy

/-!
# Reasoning about grammar rules

`Parser.Ensures` says of a parser that it never leaves the boundaries of the source, and that its
result meets a condition, provided that the phrases it waits for are what their goals promise
(`Goal.Meets`).  There is one lemma for each step that parsers are made of, so that the proof about
a rule follows the text of the rule.

If all rules keep the promises of their goals, so does reading a whole source (`drive_ensures`).
-/

namespace StackScript

open SyntaxTree

/-- A node that starts at a boundary and is content, and that is sturdy under a condition. -/
structure SyntaxTree.Draft (source : List Char) (P : Prop) (t : SyntaxTree) : Prop where
  start : Boundary source t.info.start
  content : t.isContent = true
  sturdy : P → t.Sturdy source

theorem SyntaxTree.Draft.mono {source : List Char} {P Q : Prop} {t : SyntaxTree}
    (h : t.Draft source P) (hQ : Q → P) : t.Draft source Q :=
  ⟨h.start, h.content, fun hq => h.sturdy (hQ hq)⟩

/-- A finished node: it is sturdy and content. -/
abbrev SyntaxTree.Built (source : List Char) : SyntaxTree → Prop := Draft source True

theorem SyntaxTree.Draft.built {source : List Char} {P : Prop} {t : SyntaxTree}
    (h : t.Draft source P) (hP : P) : t.Built source :=
  h.mono fun _ => hP

namespace Grammar

variable {source : List Char} {β γ σ : Type}

/-! ### What goals promise -/

/-- The tree of the phrase can become part of another tree, as an expression or as a pattern. -/
def Cover.Usable (c : Cover) : Prop :=
  c.pending = false ∨ c.assignable = true ∨ c.pattern = true ∨ c.element = true

/-- The tree of a phrase is sturdy, if it can become part of another tree. -/
def Piece.Good (source : List Char) (p : Piece) : Prop := p.tree.Draft source p.cover.Usable

theorem Piece.Good.built {p : Piece} (h : p.Good source) (hp : p.cover.pending = false) :
    p.tree.Built source :=
  Draft.built h (.inl hp)

theorem Piece.good_of_built {p : Piece} (h : p.tree.Built source) : p.Good source :=
  Draft.mono h fun _ => trivial

/-- The tree of a phrase is finished, whatever it is used for. -/
structure Piece.Solid (source : List Char) (p : Piece) : Prop where
  built : p.tree.Built source
  settled : p.cover.pending = false

/-- The goals of expressions, which may turn out to be something else. -/
def Goal.isOpen : Goal → Bool
  | .expression _ | .assignment _ | .binary _ _ | .unary _ | .constructor _ | .access _ |
    .operand _ | .awaited _ | .awaiting _ | .lastAccess _ => true
  | _ => false

/-- What a goal promises of its phrase. -/
structure Goal.Meets (source : List Char) (goal : Goal) (p : Piece) : Prop where
  good : p.Good source
  settled : goal.isOpen = false → p.cover.pending = false

theorem Piece.Good.meets {p : Piece} (h : p.Good source) {goal : Goal}
    (hgoal : goal.isOpen = true) : goal.Meets source p :=
  ⟨h, fun hclosed => absurd hgoal (by simp [hclosed])⟩

theorem Piece.Solid.meets {p : Piece} (h : p.Solid source) (goal : Goal) : goal.Meets source p :=
  ⟨Piece.good_of_built h.built, fun _ => h.settled⟩

theorem Goal.Meets.solid {p : Piece} {goal : Goal} (h : goal.Meets source p)
    (hgoal : goal.isOpen = false) : p.Solid source :=
  ⟨h.good.built (h.settled hgoal), h.settled hgoal⟩

/-- What a rule comes to keeps to boundaries of the source, and the value it gives meets a
condition. -/
inductive Rule.Yields (source : List Char) (Q : β → Prop) : Rule β → Prop
  | done {b : β} {s : Scanner} (hs : s.Reads source) (hb : Q b) : Yields source Q (.done b s)
  | fail {t : Token} (ht : t.In source) : Yields source Q (.fail t)
  | await {goal : Goal} {s : Scanner} {resume : Piece → Scanner → Rule β} (hs : s.Reads source)
      (h : ∀ p s', goal.Meets source p → s'.Reads source → Yields source Q (resume p s')) :
      Yields source Q (.await goal s resume)
  | either {first second : Goal} {s : Scanner} {resume : Piece → Scanner → Rule β}
      (hs : s.Reads source)
      (h : ∀ p s', first.Meets source p ∨ second.Meets source p → s'.Reads source →
        Yields source Q (resume p s')) :
      Yields source Q (.either first second s resume)

theorem Rule.Yields.andThen {Q : β → Prop} {R : γ → Prop} {r : Rule β} (h : r.Yields source Q)
    {next : β → Scanner → Rule γ}
    (hnext : ∀ b s, Q b → s.Reads source → (next b s).Yields source R) :
    (r.andThen next).Yields source R := by
  induction h with
  | done hs hb => exact hnext _ _ hb hs
  | fail ht => exact .fail ht
  | await hs _ ih => exact .await hs fun p s' => ih p s'
  | either hs _ ih => exact .either hs fun p s' => ih p s'

theorem Rule.Yields.mono {Q R : β → Prop} {r : Rule β} (h : r.Yields source Q)
    (hQ : ∀ b, Q b → R b) : r.Yields source R := by
  induction h with
  | done hs hb => exact .done hs (hQ _ hb)
  | fail ht => exact .fail ht
  | await hs _ ih => exact .await hs ih
  | either hs _ ih => exact .either hs ih

namespace Parser

/-- From any place in the source, the parser keeps to boundaries, and its result meets a
condition. -/
def Ensures (source : List Char) (p : Parser β) (Q : β → Prop) : Prop :=
  ∀ s, s.Reads source → (p s).Yields source Q

/-- The parser keeps to boundaries. -/
abbrev Keeps (source : List Char) (p : Parser β) : Prop := p.Ensures source fun _ => True

namespace Ensures

variable {p q : Parser β} {Q : β → Prop} {R : γ → Prop}

theorem pure {b : β} (h : Q b) : (pure b : Parser β).Ensures source Q := fun _ hs => .done hs h

theorem bind {f : β → Parser γ} (hp : p.Ensures source Q)
    (hf : ∀ b, Q b → (f b).Ensures source R) : (p >>= f).Ensures source R :=
  fun s hs => (hp s hs).andThen fun b s' hb hs' => hf b hb s' hs'

/-- Go on without looking at what the result meets. -/
theorem seq {f : β → Parser γ} (hp : p.Ensures source Q) (hf : ∀ b, (f b).Ensures source R) :
    (p >>= f).Ensures source R :=
  hp.bind fun b _ => hf b

theorem mono {Q' : β → Prop} (h : p.Ensures source Q) (hQ : ∀ b, Q b → Q' b) :
    p.Ensures source Q' :=
  fun s hs => (h s hs).mono hQ

theorem keeps (h : p.Ensures source Q) : p.Keeps source := h.mono fun _ _ => trivial

theorem ite {c : Prop} [Decidable c] (hp : c → p.Ensures source Q)
    (hq : ¬c → q.Ensures source Q) : (if c then p else q).Ensures source Q := by
  split
  · next h => exact hp h
  · next h => exact hq h

end Ensures

/-! ### Steps -/

theorem keeps_pure (b : β) : (pure b : Parser β).Keeps source := .pure trivial

theorem keeps_peek : peek.Keeps source := fun _ hs => .done hs trivial

theorem keeps_peekSecond : peekSecond.Keeps source := fun _ hs => .done hs trivial

theorem keeps_free : free.Keeps source := fun _ hs =>
  -- The token changes, but not where it stands.
  .done ⟨⟨hs.token.start, hs.token.stop⟩, hs.here, hs.next, hs.last⟩ trivial

theorem keeps_advance : advance.Keeps source := fun _ hs => .done hs.advance trivial

theorem reject_ensures (Q : β → Prop) : (reject : Parser β).Ensures source Q := fun _ hs =>
  .fail hs.token

theorem ensure_ensures (holds : Bool) : (ensure holds).Ensures source fun _ => holds = true :=
  .ite (fun h => .pure h) fun _ => reject_ensures _

theorem phrase_ensures (goal : Goal) : (phrase goal).Ensures source (goal.Meets source) :=
  fun _ hs => .await hs fun _ _ hp hs' => .done hs' hp

theorem either_ensures (first second : Goal) :
    (either first second).Ensures source fun p => first.Meets source p ∨ second.Meets source p :=
  fun _ hs => .either hs fun _ _ hp hs' => .done hs' hp

theorem keeps_following (site : Site) : (following site).Keeps source :=
  keeps_peek.seq fun _ => keeps_pure _

theorem keeps_accept (text : String) : (accept text).Keeps source :=
  keeps_peek.seq fun _ => .ite (fun _ => keeps_advance.seq fun _ => keeps_pure _)
    fun _ => keeps_pure _

theorem keeps_expect (text : String) : (expect text).Keeps source :=
  (keeps_accept text).seq fun _ => (ensure_ensures _).keeps

theorem keeps_acceptWord (text : String) : (acceptWord text).Keeps source :=
  keeps_peek.seq fun _ => .ite (fun _ => keeps_advance.seq fun _ => keeps_pure _)
    fun _ => keeps_pure _

theorem keeps_expectWord (text : String) : (expectWord text).Keeps source :=
  (keeps_acceptWord text).seq fun _ => (ensure_ensures _).keeps

/-- What every round of a loop keeps holds of the state in which it comes to its result. -/
theorem repeating_ensures {step : σ → Parser (σ ⊕ β)} {I : σ → Prop} {Q : β → Prop}
    (hstep : ∀ x, I x → (step x).Ensures source (Sum.elim I Q)) {start : σ} (hstart : I start) :
    (repeating step start).Ensures source Q := by
  have hrounds (n : Nat) : ∀ x, I x → (repeating.rounds step n x).Ensures source Q := by
    induction n with
    | zero => exact fun x _ => reject_ensures _
    | succ n ih =>
      intro x hx
      refine (hstep x hx).bind fun r hr => ?_
      cases r with
      | inl x => exact ih x hr
      | inr b => exact .pure hr
  exact fun s hs => hrounds s.limit start hstart s hs

theorem keeps_repeating {step : σ → Parser (σ ⊕ β)} (hstep : ∀ x, (step x).Keeps source)
    (start : σ) : (repeating step start).Keeps source := by
  refine repeating_ensures (I := fun _ => True) (fun x _ => (hstep x).mono fun r _ => ?_) trivial
  cases r <;> trivial

/-! ### Trees -/

theorem position_ensures : position.Ensures source fun m => Boundary source m.byte := fun _ hs =>
  .done hs hs.token.start

theorem node_ensures {kind : String} {start : Mark} (hstart : Boundary source start.byte)
    (hkind : kind ∉ commentKinds) (cs : List SyntaxTree) :
    (node kind start cs).Ensures source
      (Draft source (Shaped kind cs ∧ ∀ c ∈ cs, c.Sturdy source)) := by
  intro s hs
  refine .done hs ⟨hstart, ?_, fun ⟨hshape, hcs⟩ => .node hstart hs.last hshape hcs⟩
  simpa [isContent, isComment, SyntaxTree.kind, info, commentKinds] using hkind

/-- A node of a kind that asks for no children. -/
theorem node_built {kind : String} {start : Mark} (hstart : Boundary source start.byte)
    (hkind : kind ∉ demandingKinds) {cs : List SyntaxTree} (hcs : ∀ c ∈ cs, c.Sturdy source) :
    (node kind start cs).Ensures source (Built source) := by
  have hcomment : kind ∉ commentKinds := fun h => hkind (List.mem_append_right _ h)
  exact (node_ensures hstart hcomment cs).mono fun _ ht =>
    ht.built ⟨shaped_of_not_mem hkind cs, hcs⟩

/-- A node without children. -/
theorem bare_built {kind : String} {start : Mark} (hstart : Boundary source start.byte)
    (hkind : kind ∉ demandingKinds) : (node kind start []).Ensures source (Built source) :=
  node_built hstart hkind (by simp)

theorem leaf_built {kind : String} (hkind : kind ∉ demandingKinds) :
    (leaf kind).Ensures source (Built source) :=
  position_ensures.bind fun _ hstart => keeps_advance.seq fun _ => bare_built hstart hkind

theorem solid_built {p : Piece} (hp : p.Good source) : (solid p).Ensures source (Built source) := by
  refine (ensure_ensures _).bind fun _ h => .pure (hp.built ?_)
  simpa using h

theorem value_built (site : Site) : (value site).Ensures source (Built source) :=
  (phrase_ensures _).bind fun _ hp => solid_built hp.good

theorem expressionTree_built (site : Site) : (expressionTree site).Ensures source (Built source) :=
  (phrase_ensures _).bind fun _ hp => solid_built hp.good

theorem keeps_semicolon (afterValue : Bool) : (semicolon afterValue).Keeps source :=
  keeps_peek.seq fun _ => .ite (fun _ => keeps_expect _) fun _ => keeps_pure _

end Parser

/-! ### Driving the rules -/

/-- What waits in a list takes a phrase of which `Q` holds, and leads to a phrase of which `F`
holds. -/
def Awaits (source : List Char) (F : Piece → Prop) : (Piece → Prop) → List Waiting → Prop
  | Q, [] => ∀ p, Q p → F p
  | Q, w :: ws => ∃ R, (∀ p s, Q p → s.Reads source → (w.resume p s).Yields source R) ∧
      Awaits source F R ws

theorem Awaits.mono {F Q Q' : Piece → Prop} {ws : List Waiting} (h : Awaits source F Q ws)
    (hQ : ∀ p, Q' p → Q p) : Awaits source F Q' ws := by
  cases ws with
  | nil => exact fun p hp => h p (hQ p hp)
  | cons w ws =>
    obtain ⟨R, hw, hws⟩ := h
    exact ⟨R, fun p s hp => hw p s (hQ p hp), hws⟩

/-- Another phrase can be read in place of the one that does not fit. -/
structure Alternative.Fits (source : List Char) (F : Piece → Prop) (a : Alternative) : Prop where
  start : a.start.Reads source
  waiting : Awaits source F (a.goal.Meets source) a.waiting

theorem Waiting.settle_subset (w : Waiting) (others : List Alternative) :
    w.settle others ⊆ others := by
  unfold settle
  split
  · exact List.drop_subset _ _
  · exact List.Subset.refl _

/-- What was found is a phrase that meets a condition, or a token of the source. -/
def Finds (source : List Char) (F : Piece → Prop) : Except Token Piece → Prop
  | .ok p => F p
  | .error t => t.In source

/-- **Driving the rules.**  If every rule keeps the promise of its goal, then what is read in the
end is what the last one that waits promises. -/
theorem drive_ensures {rules : Goal → Parser Piece}
    (hrules : ∀ goal, (rules goal).Ensures source (goal.Meets source)) {F Q : Piece → Prop}
    (n : Nat) {waiting : List Waiting} {others : List Alternative} {r : Rule Piece}
    (hr : r.Yields source Q) (hwaiting : Awaits source F Q waiting)
    (hothers : ∀ a ∈ others, a.Fits source F) :
    Finds source F (drive rules n waiting others r) := by
  -- What the running rule ensures changes with each step, so that `Q` is generalized; `F` stays.
  fun_induction drive rules n waiting others r generalizing Q with
  | case1 n waiting t =>
    cases hr with
    | fail ht => exact ht
  | case2 n others p s =>
    cases hr with
    | done hs hp => exact hwaiting p hp
  | case3 waiting others t =>
    cases hr with
    | fail ht => exact ht
  | case4 waiting others p s =>
    cases hr with
    | done hs hp => exact hs.token
  | case5 waiting others goal s resume =>
    cases hr with
    | await hs h => exact hs.token
  | case6 waiting others first second s resume =>
    cases hr with
    | either hs h => exact hs.token
  | case7 waiting n a others t ih =>
    -- The rule failed, and the last alternative is read with all that waits for it.
    obtain ⟨ha, hothers⟩ := List.forall_mem_cons.1 hothers
    exact ih (hrules a.goal a.start ha.start) ha.waiting hothers
  | case8 n w waiting others p s ih =>
    obtain ⟨R, hw, hwaiting⟩ := hwaiting
    cases hr with
    | done hs hp =>
      exact ih (hw p s hp hs) hwaiting fun a ha => hothers a (w.settle_subset others ha)
  | case9 n waiting others goal s resume w =>
    rename_i ih
    cases hr with
    | await hs h => exact ih (hrules goal s hs) ⟨Q, h, hwaiting⟩ hothers
  | case10 n waiting others first second s resume longer =>
    rename_i ih
    cases hr with
    | either hs h =>
      -- The same list waits for both readings, and takes a phrase of either goal.
      have hboth : Awaits source F (fun p => first.Meets source p ∨ second.Meets source p)
          longer := ⟨Q, h, hwaiting⟩
      refine ih (hrules first s hs) (hboth.mono fun p => .inl) ?_
      exact List.forall_mem_cons.2 ⟨⟨hs, hboth.mono fun p => .inr⟩, hothers⟩

end Grammar

end StackScript
