import StackScript.Proofs.ExpressionTrees

/-!
# Trees of statements

The rules for statements keep the promises of their goals, and with those for expressions so do all
rules (`rules_ensure`).  Hence every source is read as a tree in which nothing is missing
(`SyntaxTree.ofSource_sturdy`).
-/

namespace StackScript

namespace Grammar

open SyntaxTree Grammar.Parser

variable {source : List Char}

theorem made_solid {kind : String} {start : Mark} {cs : List SyntaxTree}
    (h : (node kind start cs).Ensures source (Built source)) :
    (made kind start cs).Ensures source (Piece.Solid source) :=
  h.bind fun _ ht => .pure ⟨ht, rfl⟩

theorem statementNode_solid {kind : String} {start : Mark} (hstart : Boundary source start.byte)
    (hkind : kind ∉ demandingKinds) :
    (statementNode kind start).Ensures source (Piece.Solid source) :=
  made_solid (bare_built hstart hkind)

theorem statement_phrase : (phrase .statement).Ensures source (Piece.Solid source) :=
  (phrase_ensures _).mono fun _ hp => hp.solid rfl

/-- One more statement behind others, the last one first. -/
theorem gather_sturdy {ts : List SyntaxTree} (hts : AllSturdy source ts) :
    (do return .inl ((← phrase .statement).tree :: ts) :
      Parser (List SyntaxTree ⊕ List SyntaxTree)).Ensures source
        (Sum.elim (AllSturdy source) (AllSturdy source)) :=
  statement_phrase.bind fun _ hp => .pure (allSturdy_cons.2 ⟨hp.built.sturdy trivial, hts⟩)

theorem statementsToBrace_sturdy : statementsToBrace.Ensures source (AllSturdy source) := by
  refine (repeating_ensures (I := AllSturdy source) (Q := AllSturdy source) (fun ts hts => ?_)
    allSturdy_nil).bind fun ts hts => .pure (allSturdy_reverse.2 hts)
  exact (keeps_accept _).seq fun _ => .ite (fun _ => .pure hts) fun _ => gather_sturdy hts

theorem block_solid (mixed : Bool) : (block mixed).Ensures source (Piece.Solid source) := by
  refine position_ensures.bind fun start hstart => (keeps_expect _).seq fun _ => ?_
  refine .ite (fun _ => keeps_free.seq fun _ => ?_) fun _ => ?_
  all_goals exact statementsToBrace_sturdy.bind fun body hbody =>
    made_solid (node_built hstart (by decide) hbody)

theorem closedBlock_solid : closedBlock.Ensures source (Piece.Solid source) :=
  (phrase_ensures _).bind fun _ hp => keeps_peek.seq fun _ => (ensure_ensures _).seq fun _ =>
    .pure (hp.solid rfl)

theorem condition_built : condition.Ensures source (Built source) := by
  refine position_ensures.bind fun start hstart => (keeps_expect _).seq fun _ => ?_
  refine (expressionTree_built _).bind fun inner hinner => (keeps_expect _).seq fun _ => ?_
  exact wrapped_built (by decide) hstart hinner

/-! ### Declarations -/

theorem declaredTarget_sturdy : declaredTarget.Ensures source (Sturdy source) := by
  refine keeps_peek.seq fun t => .ite (fun _ => ?_) fun _ => ?_
  · -- A literal is read first, and taken for a pattern only if its cover says that it is one.
    refine .ite (fun _ => array_good.bind fun p hp => ?_) fun _ => object_good.bind fun p hp => ?_
    all_goals
      refine (ensure_ensures _).bind fun _ hpattern => .pure (hp.sturdy ?_).asPattern
      exact .inr (.inr (.inl hpattern))
  · exact (ensure_ensures _).seq fun _ =>
      (leaf_built (by decide)).mono fun _ ht => ht.sturdy trivial

theorem declaratorFrom_built {target : SyntaxTree} (htarget : target.Sturdy source) (site : Site) :
    (declaratorFrom target site).Ensures source (Built source) := by
  have hshape (more : List SyntaxTree) :
      Shaped "variable_declarator" (inField "name" target :: more) :=
    shaped_of_parts (by decide) (by simp [neededParts, partNames])
  refine keeps_peek.seq fun t => .ite (fun _ => keeps_advance.seq fun _ => ?_) fun _ => ?_
  · refine (value_built site).bind fun v hv => ?_
    refine (node_ensures htarget.start (by decide) _).mono fun t ht => ht.built ⟨hshape _, ?_⟩
    simpa using ⟨htarget.inField _, (hv.sturdy trivial).inField _⟩
  · refine (node_ensures htarget.start (by decide) _).mono fun t ht => ht.built ⟨hshape _, ?_⟩
    simpa using htarget.inField _

theorem declarators_sturdy : declarators.Ensures source (AllSturdy source) := by
  refine declaredTarget_sturdy.bind fun target htarget => ?_
  refine (declaratorFrom_built htarget _).bind fun first hfirst => ?_
  refine (repeating_ensures (I := fun x => AllSturdy source (x.1 :: x.2)) (Q := AllSturdy source)
    (fun (d, ds) hds => ?_) (by simpa using hfirst.sturdy trivial)).bind
      fun found hfound => .pure (allSturdy_reverse.2 hfound)
  refine keeps_peek.seq fun t => .ite (fun _ => keeps_advance.seq fun _ => ?_) fun _ => ?_
  · exact declaredTarget_sturdy.bind fun target htarget =>
      (declaratorFrom_built htarget _).bind fun e he =>
        .pure (allSturdy_cons.2 ⟨he.sturdy trivial, hds⟩)
  · exact (keeps_semicolon _).seq fun _ => .pure hds

theorem declaration_solid {keyword : String} (hkeyword : keyword ∉ demandingKinds) :
    (declaration keyword).Ensures source (Piece.Solid source) := by
  refine position_ensures.bind fun start hstart => (leaf_built hkeyword).bind fun kind hkind => ?_
  refine declarators_sturdy.bind fun found hfound => made_solid ?_
  have hcs : AllSturdy source (inField "kind" (unnamed kind) :: found) :=
    allSturdy_cons.2 ⟨(hkind.sturdy trivial).unnamed.inField _, hfound⟩
  unfold declarationNode
  split
  · exact node_built hstart (by decide) hcs
  · refine (node_ensures hstart (by decide) _).mono fun t ht => ht.built ⟨⟨?_, ?_, by simp⟩, hcs⟩
    · simp [neededParts, partNames]
    · simp [wrapperKinds]

theorem text_of_isWord {t : Token} {word : String} (h : t.isWord word = true) : t.text = word := by
  simp only [Token.isWord, Bool.and_eq_true, beq_iff_eq] at h
  exact h.2

theorem text_not_mem_of_any {t : Token}
    (h : t.isWord "var" = true ∨ t.isWord "let" = true ∨ t.isWord "const" = true) :
    t.text ∉ demandingKinds := by
  rcases h with h | h | h <;> rw [text_of_isWord h] <;> decide

/-! ### Choices and loops -/

theorem choice_solid : choice.Ensures source (Piece.Solid source) := by
  refine position_ensures.bind fun start hstart => (keeps_expectWord _).seq fun _ => ?_
  refine condition_built.bind fun test htest => statement_phrase.bind fun body hbody => ?_
  have hparts (more : List SyntaxTree) (hmore : AllSturdy source more) :
      (made "if_statement" start ([inField "condition" test, inField "consequence" body.tree] ++
        more)).Ensures source (Piece.Solid source) := by
    refine made_solid ((node_ensures hstart (by decide) _).mono fun t ht => ht.built ⟨?_, ?_⟩)
    · exact shaped_of_parts (by decide) (by simp [neededParts, partNames])
    · exact allSturdy_cons.2 ⟨(htest.sturdy trivial).inField _,
        allSturdy_cons.2 ⟨(hbody.built.sturdy trivial).inField _, hmore⟩⟩
  refine position_ensures.bind fun otherwise hotherwise => (keeps_acceptWord _).seq fun _ => ?_
  refine .ite (fun _ => statement_phrase.bind fun alternative halternative => ?_) fun _ => ?_
  · refine (wrapped_built (by decide) hotherwise halternative.built).bind fun clause hclause => ?_
    exact hparts _ (by simpa using (hclause.sturdy trivial).inField _)
  · exact hparts [] (by simp)

theorem keeps_membersTarget : membersTarget.Keeps source := by
  refine keeps_peek.seq fun t => .ite (fun _ => keeps_advance.seq fun _ => ?_) fun _ => ?_
  · refine declaredTarget_sturdy.bind fun target htarget => ?_
    exact (declaratorFrom_built htarget _).seq fun _ => keeps_peek.seq fun _ =>
      (ensure_ensures _).keeps
  · refine keeps_peekSecond.seq fun _ => .ite (fun _ => keeps_advance.seq fun _ => ?_) fun _ => ?_
    · exact declaredTarget_sturdy.seq fun _ => keeps_pure _
    · exact (phrase_ensures _).seq fun _ => (ensure_ensures _).keeps

theorem membersLoop_solid : membersLoop.Ensures source (Piece.Solid source) := by
  refine position_ensures.bind fun start hstart => (keeps_expectWord _).seq fun _ => ?_
  refine (keeps_acceptWord _).seq fun _ => (keeps_expect _).seq fun _ => ?_
  refine keeps_membersTarget.seq fun _ => keeps_peek.seq fun _ => (ensure_ensures _).seq fun _ => ?_
  refine keeps_advance.seq fun _ => (expressionTree_built _).seq fun _ => ?_
  exact (keeps_expect _).seq fun _ => statement_phrase.seq fun _ =>
    statementNode_solid hstart (by decide)

theorem keeps_countingStart : countingStart.Keeps source := by
  refine keeps_peek.seq fun t => keeps_peekSecond.seq fun _ => .ite (fun _ => ?_) fun _ => ?_
  · exact keeps_advance.seq fun _ => declarators_sturdy.seq fun _ => keeps_pure _
  · refine (keeps_accept _).seq fun _ => .ite (fun _ => ?_) fun _ => keeps_pure _
    exact (expressionTree_built _).seq fun _ => keeps_expect _

theorem countingLoop_solid : countingLoop.Ensures source (Piece.Solid source) := by
  refine position_ensures.bind fun start hstart => (keeps_expectWord _).seq fun _ => ?_
  refine (keeps_expect _).seq fun _ => keeps_countingStart.seq fun _ => ?_
  -- The test and the step may be left out; what follows is the same.
  refine (keeps_accept _).seq fun _ => .ite (fun _ => (expressionTree_built _).seq fun _ =>
    (keeps_expect _).seq fun _ => ?_) fun _ => ?_
  all_goals
    refine (keeps_accept _).seq fun _ => .ite (fun _ => (expressionTree_built _).seq fun _ =>
      (keeps_expect _).seq fun _ => ?_) fun _ => ?_
    all_goals exact statement_phrase.seq fun _ => statementNode_solid hstart (by decide)

theorem whileLoop_solid : whileLoop.Ensures source (Piece.Solid source) :=
  position_ensures.bind fun _ hstart => (keeps_expectWord _).seq fun _ =>
    condition_built.seq fun _ => statement_phrase.seq fun _ =>
      statementNode_solid hstart (by decide)

theorem doLoop_solid : doLoop.Ensures source (Piece.Solid source) := by
  refine position_ensures.bind fun start hstart => (keeps_expectWord _).seq fun _ => ?_
  refine statement_phrase.seq fun _ => (keeps_expectWord _).seq fun _ => ?_
  refine condition_built.seq fun _ => keeps_peek.seq fun _ => .ite (fun _ => ?_) fun _ => ?_
  · exact (keeps_accept _).seq fun _ => statementNode_solid hstart (by decide)
  · exact statementNode_solid hstart (by decide)

theorem keeps_caseBody : caseBody.Keeps source :=
  keeps_repeating (fun _ => keeps_peek.seq fun _ => .ite (fun _ => keeps_pure _)
    fun _ => statement_phrase.seq fun _ => keeps_pure _) ()

theorem switch_solid : switch.Ensures source (Piece.Solid source) := by
  refine position_ensures.bind fun start hstart => (keeps_expectWord _).seq fun _ => ?_
  refine condition_built.seq fun _ => (keeps_expect _).seq fun _ => ?_
  refine (keeps_repeating (fun _ => ?_) ()).seq fun _ => statementNode_solid hstart (by decide)
  refine (keeps_accept _).seq fun _ => .ite (fun _ => keeps_pure _) fun _ => ?_
  refine (keeps_acceptWord _).seq fun _ => .ite (fun _ => ?_) fun _ => ?_
  · exact (keeps_expect _).seq fun _ => keeps_caseBody.seq fun _ => keeps_pure _
  · exact (keeps_expectWord _).seq fun _ => (expressionTree_built _).seq fun _ =>
      (keeps_expect _).seq fun _ => keeps_caseBody.seq fun _ => keeps_pure _

/-! ### Jumps and guards -/

theorem jump_solid {keyword : String} (hkeyword : keyword ++ "_statement" ∉ demandingKinds) :
    (jump keyword).Ensures source (Piece.Solid source) := by
  refine position_ensures.bind fun start hstart => keeps_advance.seq fun _ => ?_
  refine keeps_peek.seq fun _ => .ite (fun _ => keeps_advance.seq fun _ => ?_) fun _ => ?_
  all_goals exact (keeps_semicolon _).seq fun _ => statementNode_solid hstart hkeyword

theorem result_solid : result.Ensures source (Piece.Solid source) := by
  refine position_ensures.bind fun start hstart => (keeps_expectWord _).seq fun _ => ?_
  refine keeps_peek.seq fun _ => .ite (fun _ => ?_)
    fun _ => (expressionTree_built _).seq fun _ => ?_
  all_goals exact (keeps_semicolon _).seq fun _ => statementNode_solid hstart (by decide)

theorem throwing_solid : throwing.Ensures source (Piece.Solid source) :=
  position_ensures.bind fun _ hstart => (keeps_expectWord _).seq fun _ =>
    (expressionTree_built _).seq fun _ => (keeps_semicolon _).seq fun _ =>
      statementNode_solid hstart (by decide)

theorem keeps_catchClause : catchClause.Keeps source := by
  refine (keeps_acceptWord _).seq fun _ => .ite (fun _ => (keeps_accept _).seq fun _ => ?_)
    fun _ => keeps_pure _
  refine .ite (fun _ => declaredTarget_sturdy.seq fun _ => (keeps_expect _).seq fun _ => ?_)
    fun _ => ?_
  all_goals exact (phrase_ensures _).seq fun _ => keeps_pure _

theorem keeps_finallyClause : finallyClause.Keeps source :=
  (keeps_acceptWord _).seq fun _ => .ite (fun _ => (phrase_ensures _).seq fun _ => keeps_pure _)
    fun _ => keeps_pure _

theorem guarded_solid : guarded.Ensures source (Piece.Solid source) := by
  refine position_ensures.bind fun start hstart => (keeps_expectWord _).seq fun _ => ?_
  exact (phrase_ensures _).seq fun _ => keeps_catchClause.seq fun _ =>
    keeps_finallyClause.seq fun _ => statementNode_solid hstart (by decide)

theorem withMembers_solid : withMembers.Ensures source (Piece.Solid source) :=
  position_ensures.bind fun _ hstart => (keeps_expectWord _).seq fun _ =>
    condition_built.seq fun _ => statement_phrase.seq fun _ =>
      statementNode_solid hstart (by decide)

/-! ### Modules -/

theorem keeps_exchangedName : exchangedName.Keeps source :=
  keeps_peek.seq fun _ => (ensure_ensures _).seq fun _ => keeps_advance

theorem keeps_localName : localName.Keeps source :=
  keeps_peek.seq fun _ => (ensure_ensures _).seq fun _ => keeps_advance

theorem keeps_exportedName : exportedName.Keeps source :=
  keeps_exchangedName.seq fun _ => (keeps_acceptWord _).seq fun _ =>
    .ite (fun _ => keeps_exchangedName) fun _ => keeps_pure _

theorem keeps_importedName : importedName.Keeps source :=
  keeps_peek.seq fun _ => keeps_exchangedName.seq fun _ => (keeps_acceptWord _).seq fun _ =>
    .ite (fun _ => keeps_localName) fun _ => (ensure_ensures _).keeps

theorem keeps_exchangedNames {name : Parser Unit} (hname : name.Keeps source) :
    (exchangedNames name).Keeps source := by
  refine (keeps_expect _).seq fun _ => (keeps_accept _).seq fun _ =>
    .ite (fun _ => keeps_expect _) fun _ => keeps_repeating (fun _ => ?_) ()
  refine (keeps_accept _).seq fun _ => .ite (fun _ => keeps_pure _) fun _ => hname.seq fun _ => ?_
  refine (keeps_accept _).seq fun _ => .ite (fun _ => keeps_pure _) fun _ => ?_
  exact (keeps_expect _).seq fun _ => keeps_pure _

theorem keeps_moduleName : moduleName.Keeps source := by
  refine keeps_peek.seq fun _ => (ensure_ensures _).seq fun _ => keeps_advance.seq fun _ => ?_
  refine keeps_peek.seq fun _ => .ite (fun _ => keeps_advance.seq fun _ => ?_) fun _ => keeps_pure _
  exact object_good.bind fun p hp => (solid_built hp).seq fun _ => keeps_pure _

theorem keeps_allNames {name : Parser Unit} (hname : name.Keeps source) :
    (allNames name).Keeps source :=
  (keeps_expect _).seq fun _ => (keeps_expectWord _).seq fun _ => hname

theorem keeps_importClause : importClause.Keeps source := by
  have hnames (more : Bool) : (do
      if more then
        if (← peek).isMark "*" then allNames localName else exchangedNames importedName :
      Parser Unit).Keeps source :=
    .ite (fun _ => keeps_peek.seq fun _ => .ite (fun _ => keeps_allNames keeps_localName)
      fun _ => keeps_exchangedNames keeps_importedName) fun _ => keeps_pure _
  refine keeps_peek.seq fun _ => .ite (fun _ => keeps_advance.seq fun _ => ?_) fun _ => ?_
  · exact (keeps_accept _).seq fun more => hnames more
  · exact (keeps_pure _).seq fun more => hnames more

theorem importing_solid : importing.Ensures source (Piece.Solid source) := by
  refine position_ensures.bind fun start hstart => (keeps_expectWord _).seq fun _ => ?_
  refine keeps_peek.seq fun _ => .ite (fun _ => keeps_importClause.seq fun _ =>
    (keeps_expectWord _).seq fun _ => ?_) fun _ => ?_
  all_goals exact keeps_moduleName.seq fun _ => (keeps_semicolon _).seq fun _ =>
    statementNode_solid hstart (by decide)

theorem namedDefinition_solid : namedDefinition.Ensures source (Piece.Solid source) := by
  refine position_ensures.bind fun start hstart => keeps_peek.seq fun _ => .ite (fun _ => ?_)
    fun _ => ?_
  · exact (keeps_classHead _).seq fun _ => statementNode_solid hstart (by decide)
  · refine (keeps_acceptWord _).seq fun _ => (keeps_functionHead _).seq fun generator => ?_
    cases generator with
    | true => exact statementNode_solid hstart (by decide)
    | false => exact statementNode_solid hstart (by decide)

theorem definition_solid : definition.Ensures source (Piece.Solid source) :=
  namedDefinition_solid.bind fun _ hp => keeps_peek.seq fun _ => (ensure_ensures _).seq fun _ =>
    .pure hp

theorem effect_solid : effect.Ensures source (Piece.Solid source) := by
  refine position_ensures.bind fun start hstart => (expressionTree_built _).bind fun t ht => ?_
  exact (keeps_semicolon _).seq fun _ => made_solid (wrapped_built (by decide) hstart ht)

theorem keeps_defaultExport : defaultExport.Keeps source := by
  refine keeps_peek.seq fun t => keeps_peekSecond.seq fun second => .ite (fun h => ?_) fun _ => ?_
  · have htext : t.text ∉ demandingKinds := text_not_mem_of_any (by simp at h; tauto)
    exact (declaration_solid htext).seq fun _ => keeps_pure _
  · exact .ite (fun _ => (either_ensures _ _).seq fun _ => keeps_pure _)
      fun _ => (phrase_ensures _).seq fun _ => keeps_pure _

theorem exportedValue_solid : exportedValue.Ensures source (Piece.Solid source) := by
  refine position_ensures.bind fun start hstart => (value_built _).bind fun t ht => ?_
  exact (keeps_semicolon _).seq fun _ => made_solid (wrapped_built (by decide) hstart ht)

theorem exporting_solid : exporting.Ensures source (Piece.Solid source) := by
  refine position_ensures.bind fun start hstart => (keeps_expectWord _).seq fun _ => ?_
  have hend : (statementNode "export_statement" start).Ensures source (Piece.Solid source) :=
    statementNode_solid hstart (by decide)
  refine keeps_peek.seq fun t => (keeps_acceptWord _).seq fun _ => ?_
  refine .ite (fun _ => keeps_defaultExport.seq fun _ => hend) fun _ => .ite (fun _ => ?_)
    fun _ => .ite (fun _ => ?_) fun _ => .ite (fun h => ?_) fun _ => ?_
  · refine keeps_advance.seq fun _ => (keeps_acceptWord _).seq fun _ =>
      .ite (fun _ => keeps_exchangedName.seq fun _ => ?_) fun _ => ?_
    all_goals exact (keeps_expectWord _).seq fun _ => keeps_moduleName.seq fun _ =>
      (keeps_semicolon _).seq fun _ => hend
  · refine (keeps_exchangedNames keeps_exportedName).seq fun _ => keeps_peek.seq fun _ => ?_
    refine keeps_peek.seq fun _ => .ite (fun _ => keeps_advance.seq fun _ =>
      keeps_moduleName.seq fun _ => ?_) fun _ => ?_
    all_goals exact (keeps_semicolon _).seq fun _ => hend
  · have htext : t.text ∉ demandingKinds := text_not_mem_of_any (by simpa using h)
    exact (declaration_solid htext).seq fun _ => hend
  · exact keeps_peekSecond.seq fun _ => (ensure_ensures _).seq fun _ =>
      namedDefinition_solid.seq fun _ => hend

/-! ### Any statement -/

theorem debugging_solid : debugging.Ensures source (Piece.Solid source) :=
  position_ensures.bind fun _ hstart => keeps_advance.seq fun _ => (keeps_semicolon _).seq fun _ =>
    statementNode_solid hstart (by decide)

theorem labeled_solid : labeled.Ensures source (Piece.Solid source) :=
  position_ensures.bind fun _ hstart => keeps_advance.seq fun _ => (keeps_expect _).seq fun _ =>
    statement_phrase.seq fun _ => statementNode_solid hstart (by decide)

theorem either_solid {first second : Goal} (hfirst : first.isOpen = false)
    (hsecond : second.isOpen = false) :
    (either first second).Ensures source (Piece.Solid source) :=
  (either_ensures _ _).mono fun _ hp => hp.elim (·.solid hfirst) (·.solid hsecond)

theorem wordStatement_solid (t second : Token) :
    (wordStatement t second).Ensures source (Piece.Solid source) := by
  unfold wordStatement
  split
  · exact choice_solid
  · exact either_solid rfl rfl
  · exact whileLoop_solid
  · exact doLoop_solid
  · exact switch_solid
  · exact jump_solid (by decide)
  · exact jump_solid (by decide)
  · exact result_solid
  · exact throwing_solid
  · exact guarded_solid
  · exact withMembers_solid
  · exact debugging_solid
  · exact declaration_solid (by decide)
  · exact declaration_solid (by decide)
  · exact either_solid rfl rfl
  · exact either_solid rfl rfl
  · exact .ite (fun _ => effect_solid) fun _ => importing_solid
  · refine .ite (fun _ => labeled_solid) fun _ => .ite (fun _ => declaration_solid (by decide))
      fun _ => .ite (fun _ => exporting_solid) fun _ => .ite (fun _ => either_solid rfl rfl)
        fun _ => effect_solid

theorem statement_solid : statement.Ensures source (Piece.Solid source) := by
  refine keeps_peek.seq fun t => .ite (fun _ => ?_) fun _ => .ite (fun _ => ?_) fun _ => ?_
  · exact keeps_peekSecond.seq fun second => wordStatement_solid t second
  · exact braced_ensures (fun _ hp => hp.solid rfl) (fun _ hp => hp.solid rfl)
      fun _ hp => hp.solid rfl
  · refine .ite (fun _ => ?_) fun _ => effect_solid
    exact position_ensures.bind fun _ hstart => keeps_advance.seq fun _ =>
      statementNode_solid hstart (by decide)

theorem script_solid : script.Ensures source (Piece.Solid source) := by
  refine (repeating_ensures (I := AllSturdy source) (Q := AllSturdy source) (fun ts hts => ?_)
    allSturdy_nil).bind fun ts hts => ?_
  · exact keeps_peek.seq fun _ => .ite (fun _ => .pure hts) fun _ => gather_sturdy hts
  · exact made_solid (node_built (boundary_zero source) (by decide) (allSturdy_reverse.2 hts))

/-! ### All rules -/

/-- **Every rule keeps the promise of its goal.** -/
theorem rules_ensure (goal : Goal) : (rules goal).Ensures source (goal.Meets source) := by
  cases goal with
  | statement => exact statement_solid.mono fun _ hp => hp.meets _
  | block mixed => exact (block_solid mixed).mono fun _ hp => hp.meets _
  | closedBlock => exact closedBlock_solid.mono fun _ hp => hp.meets _
  | definition => exact definition_solid.mono fun _ hp => hp.meets _
  | effect => exact effect_solid.mono fun _ hp => hp.meets _
  | exportedValue => exact exportedValue_solid.mono fun _ hp => hp.meets _
  | membersLoop => exact membersLoop_solid.mono fun _ hp => hp.meets _
  | countingLoop => exact countingLoop_solid.mono fun _ hp => hp.meets _
  | expression site => exact (expression_good site).mono fun _ hp => hp.meets rfl
  | assignment site => exact (assignment_good site).mono fun _ hp => hp.meets rfl
  | binary level site => exact (binary_good level site).mono fun _ hp => hp.meets rfl
  | unary site => exact (unary_good site).mono fun _ hp => hp.meets rfl
  | constructor site => exact (constructor_good site).mono fun _ hp => hp.meets rfl
  | access site => exact (access_good site).mono fun _ hp => hp.meets rfl
  | operand site => exact (operand_good site).mono fun _ hp => hp.meets rfl
  | awaited site => exact (awaited_good site).mono fun _ hp => hp.meets rfl
  | awaiting site =>
    exact (either_ensures _ _).mono fun p hp =>
      (hp.elim Goal.Meets.good Goal.Meets.good : p.Good source).meets rfl
  | lastAccess site => exact (lastAccess_good site).mono fun _ hp => hp.meets rfl

/-- What is found in a source: a finished tree, or a token that stands in it. -/
theorem parse_ensures (source : List Char) :
    (∃ t, parse source = .ok t ∧ t.Built source) ∨
    (∃ t, parse source = .error t ∧ t.In source) := by
  have hstart : (skipInterpreter (Scanner.ofSource source)).Reads source :=
    skipInterpreter_reads (Scanner.ofSource_reads source)
  unfold parse
  dsimp only
  split
  · exact .inr ⟨_, rfl, hstart.token⟩
  · have hfinds : Finds source (Piece.Solid source) (drive rules (stepLimit source) [] []
        (script (skipInterpreter (Scanner.ofSource source)))) :=
      drive_ensures rules_ensure _ (script_solid _ hstart) (fun _ => id) (by simp)
    revert hfinds
    cases drive rules (stepLimit source) [] [] _ with
    | ok p => exact fun hp => .inl ⟨p.tree, rfl, hp.built⟩
    | error t => exact fun ht => .inr ⟨t, rfl, ht⟩

end Grammar

/-- **The tree of a source is sturdy**, also where the source does not follow the grammar. -/
theorem SyntaxTree.ofSource_sturdy (source : String) :
    (SyntaxTree.ofSource source).Sturdy source.toList := by
  unfold SyntaxTree.ofSource
  rcases Grammar.parse_ensures source.toList with ⟨t, ht, hbuilt⟩ | ⟨t, ht, hin⟩
  · rw [ht]
    exact hbuilt.sturdy trivial
  · rw [ht]
    have herror : Shaped "ERROR" [] := shaped_of_not_mem (by decide) _
    have hprogram (cs : List SyntaxTree) : Shaped "program" cs := shaped_of_not_mem (by decide) _
    have hstop : Boundary source.toList source.utf8ByteSize := by
      rw [← String.size_toByteArray, ← String.utf8Encode_toList]
      exact boundary_size _
    refine .node (boundary_zero _) hstop (hprogram _) (allSturdy_cons.2 ⟨?_, allSturdy_nil⟩)
    exact .node hin.start hin.stop herror allSturdy_nil

end StackScript
