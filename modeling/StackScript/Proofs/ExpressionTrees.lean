import StackScript.Proofs.GrammarLogic

/-!
# Trees of expressions

The rules for expressions keep the promises of their goals.  Each lemma here is about one rule, and
its proof follows the text of the rule.  Rules whose trees nobody looks at need only keep to
boundaries of the source.
-/

namespace StackScript.Grammar

open SyntaxTree Grammar.Parser

variable {source : List Char}

/-- A node of a kind that asks for no children, with children that are sturdy if it is used. -/
theorem Piece.good_of_draft {t : SyntaxTree} {cover : Cover} {kind : String}
    {cs : List SyntaxTree} (ht : t.Draft source (Shaped kind cs ∧ ∀ c ∈ cs, c.Sturdy source))
    (hkind : kind ∉ demandingKinds) (hcs : cover.Usable → ∀ c ∈ cs, c.Sturdy source) :
    Piece.Good source ⟨t, cover⟩ :=
  ht.mono fun h => ⟨shaped_of_not_mem hkind cs, hcs h⟩

/-- A piece whose node has no children. -/
theorem bare_good {kind : String} {start : Mark} (hstart : Boundary source start.byte)
    (hkind : kind ∉ demandingKinds) (cover : Cover) :
    (do return ⟨← node kind start [], cover⟩ : Parser Piece).Ensures source (Piece.Good source) :=
  (bare_built hstart hkind).bind fun _ ht => .pure (Piece.good_of_built ht)

/-! ### Lists in brackets -/

/-- Items are sturdy if all of them can be patterns, or all of them are expressions. -/
def Items.Good (source : List Char) (l : Items) : Prop :=
  ∀ t ∈ l.trees, t.Draft source (l.patterns = true ∨ l.pending = false)

theorem Items.Good.add {l l' : Items} {p : Piece} (hl : l.Good source) (hp : p.Good source)
    (htrees : l'.trees = p.tree :: l.trees)
    (hpatterns : l'.patterns = (l.patterns && p.cover.element))
    (hpending : l'.pending = (l.pending || p.cover.pending)) : l'.Good source := by
  unfold Items.Good
  simp only [htrees, hpatterns, hpending, List.forall_mem_cons, Bool.and_eq_true,
    Bool.or_eq_false_iff]
  refine ⟨Draft.mono hp ?_, fun t ht => (hl t ht).mono ?_⟩
  · rintro (⟨-, h⟩ | ⟨-, h⟩)
    · exact .inr (.inr (.inr h))
    · exact .inl h
  · exact Or.imp And.left And.left

theorem items_good (close : String) {item : Parser Piece}
    (hitem : item.Ensures source (Piece.Good source)) :
    (items close item).Ensures source (Items.Good source) := by
  have hempty : Items.Good source Items.empty := by simp [Items.Good, Items.empty]
  refine (repeating_ensures (Q := Items.Good source) (fun l hl => ?_) hempty).bind fun l hl => ?_
  · refine (keeps_accept close).seq fun _ => .ite (fun _ => .pure hl) fun _ => ?_
    refine (keeps_accept ",").seq fun _ => .ite (fun _ => .pure hl) fun _ => ?_
    refine hitem.bind fun p hp => (keeps_accept close).seq fun _ => .ite (fun _ => ?_) fun _ => ?_
    · exact .pure (hl.add hp rfl rfl rfl)
    · exact (keeps_expect ",").seq fun _ => .pure (hl.add hp rfl rfl rfl)
  · exact .pure fun t ht => hl t (List.mem_reverse.1 ht)

theorem listItem_good : listItem.Ensures source (Piece.Good source) := by
  refine position_ensures.bind fun start hstart => ?_
  refine (keeps_accept "...").seq fun _ => .ite (fun _ => ?_) fun _ => ?_
  · refine (phrase_ensures _).bind fun p hp => ?_
    refine (node_ensures hstart (by decide) _).bind fun t ht => ?_
    refine .pure (Piece.good_of_draft ht (by decide) fun h => ?_)
    -- What the spread can be used for, its operand can be used for.
    have husable : p.cover.Usable := by
      simp only [Cover.Usable] at h ⊢
      tauto
    simpa using hp.good.sturdy husable
  · exact (phrase_ensures _).mono fun p hp => hp.good

theorem keeps_parameters : parameters.Keeps source :=
  (keeps_expect "(").seq fun _ => (items_good ")" listItem_good).seq fun _ =>
    (ensure_ensures _).keeps

theorem keeps_arguments : arguments.Keeps source :=
  (keeps_expect "(").seq fun _ => (items_good ")" listItem_good).keeps

theorem Items.Good.sturdy {l : Items} (hl : l.Good source)
    (h : l.patterns = true ∨ l.pending = false) : ∀ t ∈ l.trees, t.Sturdy source :=
  fun t ht => (hl t ht).sturdy h

/-- Items in brackets or braces. -/
theorem Items.Good.enclosed {l : Items} (hl : l.Good source) {t : SyntaxTree} {kind : String}
    (ht : t.Draft source (Shaped kind l.trees ∧ ∀ c ∈ l.trees, c.Sturdy source))
    (hkind : kind ∉ demandingKinds) :
    Piece.Good source ⟨t, { assignable := l.patterns, pattern := l.patterns, element := l.patterns,
                            pending := l.pending }⟩ := by
  refine Piece.good_of_draft ht hkind fun h => hl.sturdy ?_
  simp only [Cover.Usable] at h
  tauto

theorem array_good : array.Ensures source (Piece.Good source) := by
  refine position_ensures.bind fun start hstart => (keeps_expect "[").seq fun _ => ?_
  refine (items_good "]" listItem_good).bind fun l hl => ?_
  exact (node_ensures hstart (by decide) _).bind fun t ht => .pure (hl.enclosed ht (by decide))

/-- A node that stands around something. -/
theorem shaped_wrapper {kind : String} (hkind : kind ∈ wrapperKinds) {c : SyntaxTree}
    {cs : List SyntaxTree} (hc : c ∈ cs) (hcontent : c.isContent = true) : Shaped kind cs := by
  have hall : ∀ kind ∈ wrapperKinds, neededParts kind = [] ∧ kind ≠ "lexical_declaration" := by
    decide
  obtain ⟨hparts, hopening⟩ := hall kind hkind
  exact ⟨by simp [hparts], fun _ => ⟨c, hc, hcontent⟩, fun h => absurd h hopening⟩

theorem wrapped_built {kind : String} (hkind : kind ∈ wrapperKinds) {start : Mark}
    (hstart : Boundary source start.byte) {t : SyntaxTree} (ht : t.Built source) :
    (node kind start [t]).Ensures source (Built source) := by
  have hall : ∀ kind ∈ wrapperKinds, kind ∉ commentKinds := by decide
  refine (node_ensures hstart (hall kind hkind) _).mono fun w hw => hw.built ⟨?_, ?_⟩
  · exact shaped_wrapper hkind (by simp) ht.content
  · simpa using ht.sturdy trivial

theorem joined_ensures {ts : List SyntaxTree} {P : Prop} (hts : ∀ t ∈ ts, t.Draft source P) :
    (joined ts).Ensures source fun us => (∀ u ∈ us, u.Draft source P) ∧ (ts ≠ [] → us ≠ []) := by
  unfold joined
  split
  · next t u ts =>
    refine (node_ensures (hts t (by simp)).start (by decide) _).bind fun w hw => .pure ⟨?_, by simp⟩
    simp only [List.mem_singleton, forall_eq]
    exact hw.mono fun hP => ⟨shaped_of_not_mem (by decide) _, fun c hc => (hts c hc).sturdy hP⟩
  · exact .pure ⟨hts, id⟩

theorem parenthesized_good : parenthesized.Ensures source (Piece.Good source) := by
  refine position_ensures.bind fun start hstart => (keeps_expect "(").seq fun _ => ?_
  refine (items_good ")" listItem_good).bind fun l hl => ?_
  refine (joined_ensures hl).bind fun inner hinner => ?_
  refine (node_ensures hstart (by decide) _).bind fun t ht => .pure (ht.mono fun h => ?_)
  -- The piece can be used only as an expression, and then there is something in the parentheses.
  obtain ⟨hpending, htrees⟩ : l.pending = false ∧ l.trees ≠ [] := by
    simp only [Cover.Usable] at h
    simp at h
    tauto
  obtain ⟨c, cs, rfl⟩ := List.exists_cons_of_ne_nil (hinner.2 htrees)
  refine ⟨shaped_wrapper (by decide) (by simp) (hinner.1 c (by simp)).content, fun d hd => ?_⟩
  exact (hinner.1 d hd).sturdy (.inr hpending)

/-! ### Functions -/

theorem keeps_functionTail : functionTail.Keeps source :=
  keeps_parameters.seq fun _ => (phrase_ensures _).seq fun _ => keeps_pure _

theorem keeps_functionHead (named : Bool) : (functionHead named).Keeps source := by
  refine (keeps_expectWord _).seq fun _ => (keeps_accept _).seq fun generator => ?_
  refine keeps_peek.seq fun _ => .ite (fun _ => ?_) fun _ => ?_
  · exact keeps_advance.seq fun _ => keeps_functionTail.seq fun _ => keeps_pure _
  · exact (ensure_ensures _).seq fun _ => keeps_functionTail.seq fun _ => keeps_pure _

/-! ### Objects and classes -/

theorem propertyName_built : propertyName.Ensures source (Built source) := by
  refine keeps_peek.seq fun t => ?_
  split
  · exact leaf_built (by decide)
  · exact leaf_built (by decide)
  · exact leaf_built (by decide)
  · exact leaf_built (by decide)
  · refine position_ensures.bind fun start hstart => (keeps_expect _).seq fun _ => ?_
    refine (value_built _).bind fun inner hinner => (keeps_expect _).seq fun _ => ?_
    exact node_built hstart (by decide) (by simpa using hinner.sturdy trivial)

theorem keeps_modifier (words : List String) (inClass : Bool) :
    (modifier words inClass).Keeps source :=
  keeps_peekSecond.seq fun _ => keeps_peek.seq fun _ =>
    .ite (fun _ => keeps_advance.seq fun _ => keeps_pure _) fun _ => keeps_pure _

theorem keeps_staticGetter : staticGetter.Keeps source := by
  intro s hs
  unfold staticGetter
  split
  · exact .done hs.advance.advance trivial
  · exact .done hs trivial

theorem keeps_modifiers (inClass : Bool) : (modifiers inClass).Keeps source := by
  refine keeps_staticGetter.seq fun getter => .ite (fun _ => (keeps_pure _).seq fun _ => ?_)
    fun _ => (keeps_modifier _ _).seq fun _ => ?_
  all_goals
    refine (keeps_modifier _ _).seq fun _ => (keeps_accept _).seq fun _ => ?_
    exact .ite (fun _ => (keeps_pure _).seq fun _ => keeps_pure _)
      fun _ => (keeps_modifier _ _).seq fun _ => keeps_pure _

theorem method_good {start : Mark} (hstart : Boundary source start.byte) :
    (method start).Ensures source (Piece.Good source) := by
  refine propertyName_built.seq fun _ => keeps_functionTail.seq fun _ => ?_
  exact bare_good hstart (by decide) _

theorem defaultedTarget_good {start : Mark} (hstart : Boundary source start.byte) :
    (defaultedTarget start).Ensures source (Piece.Good source) := by
  refine (keeps_expect _).seq fun _ => (value_built _).bind fun v hv => ?_
  refine (node_built hstart (by decide) ?_).bind fun t ht => .pure (Piece.good_of_built ht)
  simpa using (hv.sturdy trivial).inField _

theorem pair_good {start : Mark} (hstart : Boundary source start.byte) {key : SyntaxTree}
    (hkey : key.Sturdy source) : (pair start key).Ensures source (Piece.Good source) := by
  refine (keeps_expect _).seq fun _ => keeps_peek.seq fun second => ?_
  refine listItem_good.bind fun p hp => ?_
  refine (node_ensures hstart (by decide) _).bind fun t ht => .pure (ht.mono fun h => ⟨?_, ?_⟩)
  · exact shaped_of_parts (by decide) (by simp [neededParts])
  · have husable : p.cover.Usable := by
      simp only [Cover.Usable, Bool.or_eq_false_iff] at h ⊢
      tauto
    simpa using ⟨hkey.inField _, (hp.sturdy husable).inField _⟩

theorem bracketedProperty_good : bracketedProperty.Ensures source (Piece.Good source) := by
  refine position_ensures.bind fun start hstart => (keeps_expect _).seq fun _ => ?_
  refine (items_good "]" listItem_good).bind fun l hl => keeps_peek.seq fun t => ?_
  refine .ite (fun _ => ?_) fun _ => ?_
  · exact (ensure_ensures _).seq fun _ => defaultedTarget_good hstart
  · refine (ensure_ensures _).bind fun _ h => ?_
    have hpending : l.pending = false := by
      simp at h
      tauto
    refine (node_built hstart (by decide) (hl.sturdy (.inr hpending))).bind fun key hkey => ?_
    refine .ite (fun _ => keeps_functionTail.seq fun _ => ?_) fun _ => ?_
    · exact bare_good hstart (by decide) _
    · exact pair_good hstart (hkey.sturdy trivial)

theorem namedProperty_good : namedProperty.Ensures source (Piece.Good source) := by
  refine position_ensures.bind fun start hstart => keeps_peek.seq fun t => ?_
  refine propertyName_built.bind fun key hkey => keeps_peek.seq fun second => ?_
  refine .ite (fun _ => keeps_functionTail.seq fun _ => ?_) fun _ => .ite (fun _ => ?_) fun _ => ?_
  · exact bare_good hstart (by decide) _
  · exact pair_good hstart (hkey.sturdy trivial)
  · refine (ensure_ensures _).seq fun _ => .ite (fun _ => defaultedTarget_good hstart) fun _ => ?_
    exact bare_good hstart (by decide) _

theorem property_good : property.Ensures source (Piece.Good source) := by
  refine position_ensures.bind fun start hstart => keeps_peek.seq fun t => ?_
  refine .ite (fun _ => ?_) fun _ => .ite (fun _ => ?_) fun _ => ?_
  · refine listItem_good.bind fun p hp => .pure (Draft.mono hp fun h => ?_)
    simp only [Cover.Usable] at h ⊢
    tauto
  · exact (phrase_ensures _).seq fun _ => (ensure_ensures _).seq fun _ =>
      defaultedTarget_good hstart
  · refine (keeps_modifiers _).seq fun m => .ite (fun _ => method_good hstart) fun _ => ?_
    exact keeps_peek.seq fun _ => .ite (fun _ => bracketedProperty_good)
      fun _ => namedProperty_good

theorem object_good : object.Ensures source (Piece.Good source) := by
  refine position_ensures.bind fun start hstart => (keeps_expect _).seq fun _ => ?_
  refine (items_good _ property_good).bind fun l hl => ?_
  exact (node_ensures hstart (by decide) _).bind fun t ht => .pure (hl.enclosed ht (by decide))

theorem keeps_classMember : classMember.Keeps source := by
  refine (keeps_accept _).seq fun _ => .ite (fun _ => keeps_pure _) fun _ => ?_
  refine keeps_peek.seq fun t => keeps_peekSecond.seq fun second => .ite (fun _ => ?_) fun _ => ?_
  · exact keeps_advance.seq fun _ => (phrase_ensures _).seq fun _ => keeps_pure _
  · refine (keeps_modifiers _).seq fun m => propertyName_built.seq fun _ => ?_
    refine keeps_peek.seq fun t => .ite (fun _ => keeps_functionTail) fun _ => ?_
    refine .ite (fun _ => keeps_pure _) fun _ => ?_
    refine .ite (fun _ => keeps_functionTail) fun _ => (keeps_accept _).seq fun _ => ?_
    exact .ite (fun _ => (value_built _).seq fun _ => keeps_semicolon _) fun _ => keeps_semicolon _

theorem keeps_classMembers : classMembers.Keeps source :=
  keeps_repeating (fun _ => (keeps_accept _).seq fun _ => .ite (fun _ => keeps_pure _)
    fun _ => keeps_classMember.seq fun _ => keeps_pure _) ()

theorem keeps_classHead (named : Bool) : (classHead named).Keeps source := by
  refine (keeps_expectWord _).seq fun _ => keeps_peek.seq fun t => ?_
  refine .ite (fun _ => keeps_advance.seq fun _ => ?_) fun _ => (ensure_ensures _).seq fun _ => ?_
  all_goals
    refine (keeps_acceptWord _).seq fun _ => .ite (fun _ => (value_built _).seq fun _ => ?_)
      fun _ => ?_
    all_goals exact (keeps_expect _).seq fun _ => keeps_classMembers

/-! ### Templates and regular expressions -/

theorem keeps_templateText : templateText.Keeps source := by
  intro s hs
  unfold templateText
  split
  · exact .done (scan_reads (hs.next.forward _) _) trivial
  · exact .fail hs.token

theorem template_built : template.Ensures source (Built source) := by
  refine position_ensures.bind fun start hstart => ?_
  refine (keeps_repeating (fun _ => ?_) ()).seq fun _ => ?_
  · refine keeps_templateText.seq fun _ => .ite (fun _ => ?_) fun _ => keeps_pure _
    exact (expressionTree_built _).seq fun _ => keeps_peek.seq fun _ =>
      (ensure_ensures _).seq fun _ => keeps_pure _
  · exact bare_built hstart (by decide)

theorem regex_built (site : Site) : (regex site).Ensures source (Built source) := by
  refine position_ensures.bind fun start hstart => ?_
  refine Ensures.seq (Q := fun _ => True) (fun s hs => ?_) fun _ => bare_built hstart (by decide)
  split
  · exact .done (scan_reads (hs.here.forward _) _) trivial
  · exact .fail hs.token

/-! ### Values -/

theorem keeps_memberName : memberName.Keeps source :=
  keeps_peek.seq fun _ => (ensure_ensures _).seq fun _ => keeps_advance

theorem keeps_index : index.Keeps source :=
  (keeps_expect _).seq fun _ => (expressionTree_built _).seq fun _ => keeps_expect _

theorem construction_good (site : Site) :
    (construction site).Ensures source (Piece.Good source) := by
  refine position_ensures.bind fun start hstart => (keeps_expectWord _).seq fun _ => ?_
  refine (keeps_accept _).seq fun _ => .ite (fun _ => ?_) fun _ => ?_
  · exact (keeps_expectWord _).seq fun _ => bare_good hstart (by decide) _
  · refine (phrase_ensures _).bind fun p hp => (solid_built hp.good).seq fun _ => ?_
    refine (keeps_following _).seq fun _ => .ite (fun _ => ?_) fun _ => ?_
    · exact keeps_arguments.seq fun _ => (ensure_ensures _).seq fun _ =>
        bare_good hstart (by decide) _
    · exact bare_good hstart (by decide) _

theorem importValue_good : importValue.Ensures source (Piece.Good source) := by
  refine position_ensures.bind fun start hstart => (keeps_expectWord _).seq fun _ => ?_
  refine keeps_peek.seq fun _ => .ite (fun _ => ?_) fun _ => ?_
  · exact keeps_arguments.seq fun _ => (ensure_ensures _).seq fun _ =>
      bare_good hstart (by decide) _
  · refine (keeps_accept _).seq fun chained => .ite (fun _ => (keeps_expect _).seq fun _ => ?_)
      fun _ => ?_
    all_goals
      refine (keeps_acceptWord _).seq fun _ => .ite (fun _ => ?_) fun _ => ?_
      · exact bare_good hstart (by decide) _
      · exact keeps_memberName.seq fun _ => bare_good hstart (by decide) _

/-- A piece whose node is the next token. -/
theorem leaf_good {kind : String} (hkind : kind ∉ demandingKinds) (cover : Cover) :
    (do return ⟨← leaf kind, cover⟩ : Parser Piece).Ensures source (Piece.Good source) :=
  (leaf_built hkind).bind fun _ ht => .pure (Piece.good_of_built ht)

theorem function_good {start : Mark} (hstart : Boundary source start.byte) (generator : Bool) :
    (made (if generator then "generator_function" else "function_expression") start []).Ensures
      source (Piece.Good source) := by
  cases generator with
  | true => exact bare_good hstart (by decide) _
  | false => exact bare_good hstart (by decide) _

theorem wordValue_good (site : Site) (t : Token) :
    (wordValue site t).Ensures source (Piece.Good source) := by
  refine position_ensures.bind fun start hstart => ?_
  split
  · next h => exact leaf_good (by rw [h]; decide) _
  · next h => exact leaf_good (by rw [h]; decide) _
  · next h => exact leaf_good (by rw [h]; decide) _
  · next h => exact leaf_good (by rw [h]; decide) _
  · next h => exact leaf_good (by rw [h]; decide) _
  · exact leaf_good (by decide) _
  · exact (keeps_functionHead _).seq fun generator => function_good hstart generator
  · exact (keeps_classHead _).seq fun _ => bare_good hstart (by decide) _
  · exact construction_good site
  · exact importValue_good
  · exact reject_ensures _
  · refine keeps_peekSecond.seq fun second => .ite (fun _ => keeps_advance.seq fun _ => ?_)
      fun _ => (ensure_ensures _).seq fun _ => leaf_good (by decide) _
    exact (keeps_functionHead _).seq fun generator => function_good hstart generator

theorem primary_good (site : Site) : (primary site).Ensures source (Piece.Good source) := by
  refine keeps_peek.seq fun t => ?_
  split
  · exact wordValue_good site t
  · exact leaf_good (by decide) _
  · exact leaf_good (by decide) _
  · exact keeps_peekSecond.seq fun _ => (ensure_ensures _).seq fun _ => leaf_good (by decide) _
  · split
    · exact parenthesized_good
    · exact array_good
    · exact object_good
    · exact template_built.bind fun _ ht => .pure (Piece.good_of_built ht)
    · exact (regex_built site).bind fun _ ht => .pure (Piece.good_of_built ht)
    · exact (regex_built site).bind fun _ ht => .pure (Piece.good_of_built ht)
    · exact reject_ensures _
  · exact reject_ensures _

theorem accesses_good (site : Site) (calls : Bool) {first : Piece} (hfirst : first.Good source) :
    (accesses site calls first).Ensures source (Piece.Good source) := by
  refine repeating_ensures (I := Piece.Good source) (fun p hp => ?_) hfirst
  have hnode {kind : String} (hkind : kind ∉ demandingKinds) (cover : Cover) :
      (do return .inl ⟨← node kind (startOf p.tree) [], cover⟩ : Parser (Piece ⊕ Piece)).Ensures
        source (Sum.elim (Piece.Good source) (Piece.Good source)) :=
    (bare_built hp.start hkind).bind fun _ ht => .pure (Piece.good_of_built ht)
  refine (keeps_following site).seq fun t => .ite (fun _ => .pure hp) fun _ => ?_
  refine .ite (fun _ => keeps_advance.seq fun _ => keeps_memberName.seq fun _ =>
    hnode (by decide) _) fun _ => ?_
  refine .ite (fun _ => keeps_index.seq fun _ => hnode (by decide) _) fun _ => ?_
  refine .ite (fun _ => template_built.seq fun _ => hnode (by decide) _) fun _ => ?_
  refine .ite (fun _ => keeps_advance.seq fun _ => keeps_peek.seq fun _ => ?_) fun _ => ?_
  · refine .ite (fun _ => (ensure_ensures _).seq fun _ => keeps_arguments.seq fun _ =>
      (ensure_ensures _).seq fun _ => hnode (by decide) _) fun _ => ?_
    exact .ite (fun _ => keeps_index.seq fun _ => hnode (by decide) _)
      fun _ => keeps_memberName.seq fun _ => hnode (by decide) _
  · refine .ite (fun _ => keeps_arguments.seq fun _ => ?_) fun _ => .pure hp
    refine (bare_built hp.start (by decide)).bind fun _ ht => ?_
    exact .ite (fun _ => .pure (Piece.good_of_built ht))
      fun _ => (ensure_ensures _).seq fun _ => .pure (Piece.good_of_built ht)

theorem access_good (site : Site) : (access site).Ensures source (Piece.Good source) :=
  (primary_good site).bind fun _ hp => accesses_good site true hp

/-! ### Braces -/

theorem braced_ensures {closes : Token → Bool} {statements tentative plain : Goal}
    {Q : Piece → Prop} (hstatements : ∀ p, statements.Meets source p → Q p)
    (htentative : ∀ p, tentative.Meets source p → Q p)
    (hplain : ∀ p, plain.Meets source p → Q p) :
    (braced closes statements tentative plain).Ensures source Q := by
  refine Ensures.seq (Q := fun _ => True) (fun s hs => .done hs trivial) fun (first, second) => ?_
  dsimp only
  split
  · exact (phrase_ensures _).mono hstatements
  · exact (phrase_ensures _).mono hplain
  · exact (either_ensures _ _).mono fun p hp => hp.elim (htentative p) (hplain p)
  · exact (either_ensures _ _).mono fun p hp => hp.elim (hplain p) (hstatements p)

/-! ### Operators -/

theorem updates_good (site : Site) {first : Piece} (hfirst : first.Good source) :
    (updates site first).Ensures source (Piece.Good source) := by
  refine repeating_ensures (I := Piece.Good source) (fun p hp => ?_) hfirst
  refine (keeps_following site).seq fun t => .ite (fun _ => ?_) fun _ => .pure hp
  refine (solid_built hp).bind fun tree htree => keeps_advance.seq fun _ => ?_
  refine (bare_built htree.start (by decide)).bind fun update hupdate => ?_
  exact (accesses_good site true (Piece.good_of_built hupdate)).bind fun q hq => .pure hq

theorem arrowBody_good (site : Site) : (arrowBody site).Ensures source (Piece.Good source) := by
  refine (keeps_expect _).seq fun _ => keeps_peek.seq fun _ => .ite (fun _ => ?_) fun _ => ?_
  · exact braced_ensures (fun p => Goal.Meets.good) (fun p => Goal.Meets.good)
      fun p => Goal.Meets.good
  · exact (phrase_ensures _).mono fun p => Goal.Meets.good

theorem arrowTail_good {start : Mark} (hstart : Boundary source start.byte) (site : Site) :
    (arrowTail start site).Ensures source (Piece.Good source) := by
  refine (arrowBody_good site).bind fun body hbody => (solid_built hbody).seq fun _ => ?_
  refine (bare_good hstart (by decide) _).bind fun p hp => .ite (fun _ => ?_) fun _ => .pure hp
  exact (accesses_good site true hp).bind fun q hq => updates_good site hq

theorem completed_good (site : Site) {operand : Piece} (hoperand : operand.Good source) :
    (completed site operand).Ensures source (Piece.Good source) := by
  refine repeating_ensures (I := Piece.Good source) (fun p hp => ?_) hoperand
  -- Behind the operand there is an arrow, an assignment or an assignment that also computes.
  refine (keeps_following site).seq fun t => .ite (fun _ => ?_) fun _ => .ite (fun h => ?_)
    fun _ => .ite (fun _ => ?_) fun _ => .pure hp
  · exact (arrowTail_good hp.start site).bind fun q hq => .pure hq
  · refine keeps_advance.seq fun _ => (value_built site).bind fun right hright => ?_
    have hassignable : p.cover.assignable = true := by
      simp at h
      exact h.2
    have hleft := hp.sturdy (.inr (.inl hassignable))
    refine (node_built hp.start (by decide) ?_).bind fun t ht => .pure (Piece.good_of_built ht)
    simpa using ⟨hleft.inField _, (hright.sturdy trivial).inField _⟩
  · refine (solid_built hp).seq fun _ => keeps_advance.seq fun _ => ?_
    exact (value_built site).seq fun _ =>
      (bare_good hp.start (by decide) _).bind fun q hq => .pure hq

theorem operand_good (site : Site) : (operand site).Ensures source (Piece.Good source) :=
  (phrase_ensures _).bind fun _ hp => (updates_good site hp.good).bind fun _ hq =>
    completed_good site hq

theorem constructor_good (site : Site) : (constructor site).Ensures source (Piece.Good source) := by
  refine position_ensures.bind fun start hstart => (primary_good site).bind fun _ hfirst => ?_
  refine (accesses_good site false hfirst).bind fun p hp => (keeps_following site).seq fun _ => ?_
  refine .ite (fun _ => (arrowBody_good site).bind fun body hbody => ?_) fun _ => .pure hp
  exact (solid_built hbody).seq fun _ => bare_good hstart (by decide) _

theorem awaited_good (site : Site) : (awaited site).Ensures source (Piece.Good source) := by
  refine position_ensures.bind fun start hstart => keeps_advance.seq fun _ => ?_
  exact (phrase_ensures _).bind fun p hp => (solid_built hp.good).seq fun _ =>
    bare_good hstart (by decide) _

theorem lastAccess_good (site : Site) : (lastAccess site).Ensures source (Piece.Good source) :=
  (phrase_ensures _).bind fun _ hp => (solid_built hp.good).seq fun _ => keeps_peek.seq fun _ =>
    (ensure_ensures _).seq fun _ => .pure hp.good

theorem awaitOperand_good (site : Site) (second : Token) :
    (awaitOperand site second).Ensures source (Piece.Good source) :=
  .ite (fun _ => (either_ensures _ _).mono fun _ hp => hp.elim Goal.Meets.good Goal.Meets.good)
    fun _ => (phrase_ensures _).mono fun _ => Goal.Meets.good

theorem yielded_good (site : Site) : (yielded site).Ensures source (Piece.Good source) := by
  refine position_ensures.bind fun start hstart => keeps_advance.seq fun _ => ?_
  refine (keeps_following site).seq fun t => .ite (fun _ => keeps_advance.seq fun _ => ?_)
    fun _ => .ite (fun _ => ?_) fun _ => ?_
  · exact (value_built site).seq fun _ => bare_good hstart (by decide) _
  · exact (value_built site).seq fun _ => bare_good hstart (by decide) _
  · refine (bare_built hstart (by decide)).bind fun t ht => ?_
    refine (accesses_good site true (Piece.good_of_built ht)).bind fun p hp => ?_
    exact (updates_good site hp).bind fun q hq => completed_good site hq

theorem unary_good (site : Site) : (unary site).Ensures source (Piece.Good source) := by
  refine position_ensures.bind fun start hstart => keeps_peek.seq fun t => ?_
  have hoperator {kind : String} (hkind : kind ∉ demandingKinds) :
      (do
        advance
        let _ ← solid (← phrase (.unary site))
        made kind start [] : Parser Piece).Ensures source (Piece.Good source) :=
    keeps_advance.seq fun _ => (phrase_ensures _).bind fun _ hp =>
      (solid_built hp.good).seq fun _ => bare_good hstart hkind _
  refine keeps_peekSecond.seq fun second => .ite (fun _ => hoperator (by decide)) fun _ => ?_
  refine .ite (fun _ => hoperator (by decide)) fun _ => ?_
  refine .ite (fun _ => awaitOperand_good site second) fun _ => ?_
  refine .ite (fun _ => yielded_good site) fun _ => .ite (fun _ => ?_) fun _ => ?_
  · exact keeps_advance.seq fun _ => keeps_advance.seq fun _ =>
      (arrowTail_good hstart site).bind fun p hp => completed_good site hp
  · exact (phrase_ensures _).mono fun _ => Goal.Meets.good

/-- The text of an operator names no kind that asks for children. -/
theorem text_not_mem_of_bindingLevel? {site : Site} {t : Token} {l : Nat}
    (h : bindingLevel? site t = some l) : t.text ∉ demandingKinds := by
  unfold bindingLevel? at h
  split at h
  · split at h
    all_goals first | contradiction | (next htext => rw [htext]; decide)
  · split at h
    · next hword =>
      simp only [Bool.or_eq_true, Bool.and_eq_true, beq_iff_eq] at hword
      rcases hword with hword | ⟨-, hword⟩ <;> rw [hword] <;> decide
    · contradiction
  · contradiction

theorem binary_good (level : Nat) (site : Site) :
    (binary level site).Ensures source (Piece.Good source) := by
  refine (phrase_ensures _).bind fun first hfirst => ?_
  refine repeating_ensures (I := Piece.Good source) (fun p hp => ?_) hfirst.good
  refine (keeps_following site).seq fun t => ?_
  split
  · exact .pure hp
  · next l h =>
    refine .ite (fun _ => .pure hp) fun _ => (solid_built hp).bind fun left hleft => ?_
    refine (leaf_built (text_not_mem_of_bindingLevel? h)).bind fun operator hoperator => ?_
    refine (phrase_ensures _).bind fun q hq => (solid_built hq.good).bind fun right hright => ?_
    refine (node_ensures hleft.start (by decide) _).bind fun tree htree => ?_
    refine .pure (Piece.good_of_built (htree.built ⟨?_, ?_⟩))
    · exact shaped_of_parts (by decide) (by simp [neededParts, partNames])
    · simpa using ⟨(hleft.sturdy trivial).inField _, (hoperator.sturdy trivial).unnamed.inField _,
        (hright.sturdy trivial).inField _⟩

theorem assignment_good (site : Site) : (assignment site).Ensures source (Piece.Good source) := by
  refine (phrase_ensures _).bind fun p hp => (keeps_following site).seq fun t => ?_
  refine .ite (fun _ => ?_) fun _ => .pure hp.good
  refine (solid_built hp.good).bind fun test htest => keeps_advance.seq fun _ => ?_
  exact (value_built _).seq fun _ => (keeps_expect _).seq fun _ => (value_built _).seq fun _ =>
    bare_good htest.start (by decide) _

theorem expression_good (site : Site) : (expression site).Ensures source (Piece.Good source) := by
  refine (value_built site).bind fun first hfirst => ?_
  refine (repeating_ensures (I := AllSturdy source) (Q := AllSturdy source) (fun ts hts => ?_)
    allSturdy_nil).bind fun rest hrest => ?_
  · refine (keeps_following site).seq fun _ => .ite (fun _ => keeps_advance.seq fun _ => ?_)
      fun _ => .pure hts
    exact (value_built site).bind fun t ht => .pure (allSturdy_cons.2 ⟨ht.sturdy trivial, hts⟩)
  · split
    · exact .pure (Piece.good_of_built hfirst)
    · have hall : AllSturdy source (first :: rest.reverse) :=
        allSturdy_cons.2 ⟨hfirst.sturdy trivial, allSturdy_reverse.2 hrest⟩
      exact (node_built hfirst.start (by decide) hall).bind fun t ht =>
        .pure (Piece.good_of_built ht)

end StackScript.Grammar
