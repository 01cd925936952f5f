import StackScript.Grammar
import StackScript.Proofs.ListingText
import StackScript.Proofs.Occurrences
import StackScript.Proofs.WellFormed

/-!
# Listings in the history of a scope

A program holds the slots of its variables and not their names.  A listing asks a scope for the
names, right after the program was compiled or much later, when the names may mean other slots.

* `Row.Shows` : a row and its line show the variable that an occurrence refers to;
* `Subject.rows_of_prefix` : a listing in which nothing was found stays the same while the scope
  grows;
* `Program.WellFormed.reportOf_eq_none` : nothing is found in compiled programs;
* `Act.listing_lasts` : hence a compiled program has one listing for all times, with the names that
  the script has.
-/

namespace StackScript

variable {α : Type}

/-! ### Rows for variables -/

/-- The row is that of an instruction for a variable. -/
def Row.isAccess (r : Row) : Bool := r.opcode.any Opcode.isAccess

/-- The row shows the variable that an occurrence refers to, by its slot and by its name.  The name
stands at the end of its line, which has so many digits a word. -/
structure Row.Shows (digits : Nat) (r : Row) (o : Occurrence) : Prop where
  opcode : r.opcode = some o.opcode
  slot : ∃ slot : Nat, r.words[1]? = some (slot : Int) ∧ o.RefersTo slot
  operand : r.operand = "(" ++ o.name ++ ")"
  line : ("(" ++ o.name ++ ")").toList <:+ (r.line digits).toList

/-- A line ends with what stands between brackets, since the bracket is no blank. -/
theorem Row.bracketed_suffix_line {r : Row} {name : String} (hdiagnostic : r.diagnostic = none)
    (hoperand : r.operand = "(" ++ name ++ ")") (digits : Nat) :
    ("(" ++ name ++ ")").toList <:+ (r.line digits).toList := by
  have hnote : r.note = "(" ++ name ++ ")" := by rw [note, hdiagnostic, hoperand]
  have hsolid : Text.Solid [')'] :=
    ⟨List.cons_ne_nil _ _, fun c hc => by rw [List.mem_singleton.1 hc]; decide⟩
  have hend (front : String) : (front ++ ("(" ++ name ++ ")")).toList =
      (front.toList ++ ("(" ++ name).toList) ++ ([')'] ++ []) := by
    simp
  rw [line, hnote, String.toList_ofList, hend, Text.trimRight_append hsolid]
  exact ⟨_, by rw [← String.toList_append, hend]; rfl⟩

namespace Subject

variable {s : Subject α}

/-- Code that can be read has one row for each instruction. -/
theorem placed_ofProgram {p : Program} (scope : Scope α) (h : p.decoded.fault = none) :
    (ofProgram p scope true).placed = p.decoded.instructions.map Located.placed := by
  obtain ⟨is, fault, tail, hdecode, hplaced, htail⟩ :=
    exists_placed_eq (s := ofProgram p scope true) rfl
  have hdecoded : p.decoded = ⟨Code.locate 0 is, fault⟩ := hdecode
  rw [hdecoded] at h ⊢
  obtain rfl : fault = none := h
  cases htail
  rw [hplaced, List.append_nil]

theorem opcode_row_placed (s : Subject α) (l : Located) :
    (s.row l.placed).opcode = some l.instruction.opcode :=
  congrArg (fun shown => shown.2.1) (s.shown_row_placed l)

theorem operandWord_row_placed (s : Subject α) (l : Located) :
    (s.row l.placed).words[1]? = l.instruction.operand? :=
  congrArg (fun shown => shown.2.2) (s.shown_row_placed l)

/-- The row of an instruction for a variable, where the scope has a name for the slot. -/
theorem shows_row_placed {l : Located} {o : Occurrence}
    (hl : l.instruction.opcode.isAccess = true) (h : l.instruction.Accesses s.scope o)
    (digits : Nat) : (s.row l.placed).Shows digits o := by
  obtain ⟨hop, slot, hoperand, hslot, hname⟩ := h
  have hreference : s.reference? l.instruction.opcode slot = some ("(" ++ o.name ++ ")") := by
    cases hopcode : l.instruction.opcode with
    | loadContext | setContext => simp [reference?, hname]
    | halt | const | add | sub | mul | div | eq | jump | jumpIfFalse =>
      simp [hopcode, Opcode.isAccess] at hl
  have hpiece : l.placed.piece = .withOperand l.instruction.opcode slot := by
    simp [Located.placed, Instruction.piece, hoperand]
  have hshown : (s.row l.placed).operand = "(" ++ o.name ++ ")" := by
    simp [row, hpiece, operandOf, hreference]
  have hdiagnostic : (s.row l.placed).diagnostic = none := by
    simp [row, diagnosticOf, hpiece, hreference]
  exact ⟨by rw [opcode_row_placed, hop], ⟨slot, by rw [operandWord_row_placed, hoperand], hslot⟩,
    hshown, Row.bracketed_suffix_line hdiagnostic hshown digits⟩

/-- The rows for variables, given the instructions of the code. -/
theorem filter_isAccess_map_row (s : Subject α) (ls : List Located) :
    ((ls.map Located.placed).map s.row).filter Row.isAccess =
      (ls.filter fun l => l.instruction.opcode.isAccess).map fun l => s.row l.placed := by
  rw [List.map_map, List.filter_map]
  congr 2
  funext l
  simp [Row.isAccess, opcode_row_placed]

theorem forall₂_shows_row {ls : List Located} {os : List Occurrence}
    (h : List.Forall₂ (Instruction.Accesses s.scope)
      ((ls.map Located.instruction).filter fun i => i.opcode.isAccess) os) (digits : Nat) :
    List.Forall₂ (Row.Shows digits) (((ls.map Located.placed).map s.row).filter Row.isAccess) os := by
  rw [filter_isAccess_map_row, List.forall₂_map_left_iff]
  rw [List.filter_map, List.forall₂_map_left_iff] at h
  have hall : ∀ l ∈ ls.filter fun l => l.instruction.opcode.isAccess,
      l.instruction.opcode.isAccess = true := fun l hl => (List.mem_filter.1 hl).2
  exact ((List.forall₂_and_left _ _).2 ⟨hall, h⟩).imp fun l o hlo =>
    shows_row_placed hlo.1 hlo.2 digits

/-! ### The same rows in later scopes -/

variable {p : Program} {scope later : Scope α} {showJumps : Bool}

/-- Only what operands refer to depends on the scope. -/
theorem pieces_ofProgram (code : List Int) :
    (ofProgram p later showJumps).pieces code = (ofProgram p scope showJumps).pieces code := by
  have hopcode (w : Int) :
      (ofProgram p later showJumps).opcode? w = (ofProgram p scope showJumps).opcode? w := rfl
  fun_induction (ofProgram p scope showJumps).pieces code with
  | case1 => rfl
  | case2 w rest hop ih => simp only [pieces, hopcode, hop, ih]
  | case3 w rest op hop i hform ih => simp only [pieces, hopcode, hop, hform, ih]
  | case4 w op hop f hform => simp only [pieces, hopcode, hop, hform]
  | case5 w op hop f hform x rest ih => simp only [pieces, hopcode, hop, hform, ih]

theorem placed_of_scope : (ofProgram p later showJumps).placed =
    (ofProgram p scope showJumps).placed :=
  congrArg (Piece.place 0) (pieces_ofProgram p.code)

theorem reference?_of_prefix (hnames : scope.names <+: later.names) {op : Opcode} {x : Int}
    {text : String} (h : (ofProgram p scope showJumps).reference? op x = some text) :
    (ofProgram p later showJumps).reference? op x = some text := by
  cases op with
  | loadContext | setContext =>
    obtain ⟨name, hname, rfl⟩ := Option.map_eq_some_iff.1 h
    have hlater : later.name? x = some name := Scope.name?_of_prefix hnames hname
    exact Option.map_eq_some_iff.2 ⟨name, hlater, rfl⟩
  | halt | const | add | sub | mul | div | eq | jump | jumpIfFalse => exact h

/-- What a piece without report shows. -/
theorem reference?_of_reportOf {q : Placed} (h : s.reportOf q = none) {op : Opcode} {x : Int}
    (hpiece : q.piece = .withOperand op x) : ∃ text, s.reference? op x = some text := by
  refine Option.ne_none_iff_exists'.1 fun hnone => ?_
  simp [reportOf, diagnosticOf, hpiece, hnone] at h

theorem row_of_prefix (hnames : scope.names <+: later.names) {q : Placed}
    (h : (ofProgram p scope showJumps).reportOf q = none) :
    (ofProgram p later showJumps).row q = (ofProgram p scope showJumps).row q ∧
      (ofProgram p later showJumps).reportOf q = none := by
  obtain ⟨offset, piece⟩ := q
  cases piece with
  | unknown word => cases h
  | bare op => exact ⟨rfl, rfl⟩
  | truncated op => cases h
  | withOperand op x =>
    obtain ⟨text, htext⟩ := reference?_of_reportOf h rfl
    have hlater := reference?_of_prefix hnames htext
    simp [row, reportOf, operandOf, diagnosticOf, htext, hlater]

/-- **A listing in which nothing was found stays the same** while the scope grows. -/
theorem rows_of_prefix (hnames : scope.names <+: later.names)
    (h : ∀ q ∈ (ofProgram p scope showJumps).placed,
      (ofProgram p scope showJumps).reportOf q = none) :
    (ofProgram p later showJumps).rows = (ofProgram p scope showJumps).rows ∧
      ∀ q ∈ (ofProgram p later showJumps).placed,
        (ofProgram p later showJumps).reportOf q = none := by
  have hrow := fun q hq => row_of_prefix hnames (h q hq)
  rw [rows, rows, placed_of_scope]
  exact ⟨List.map_congr_left fun q hq => (hrow q hq).1, fun q hq => (hrow q hq).2⟩

/-- Where nothing is found, the code is read to its end. -/
theorem readRows_of_reportOf (h : ∀ q ∈ s.placed, s.reportOf q = none) (earlier : List String) :
    s.readRows earlier = .ok s.rows [] := by
  have hlegible : s.Legible := by
    refine spells_placed_iff.1 fun q hq => ?_
    cases hpiece : q.piece with
    | unknown | bare | truncated => trivial
    | withOperand op x =>
      obtain ⟨text, htext⟩ := reference?_of_reportOf (h q hq) hpiece
      exact fun hnone => by simp [htext] at hnone
  rw [readRows_of_legible hlegible, reports, List.filterMap_eq_nil_iff.2 h]

end Subject

/-! ### Listings of compiled programs -/

/-- Slots that exist have names, so nothing is found in a well-formed program. -/
theorem Program.WellFormed.reportOf_eq_none {p : Program} {scope : Scope α}
    (h : p.WellFormed scope.slotCount) :
    ∀ q ∈ (Subject.ofProgram p scope true).placed,
      (Subject.ofProgram p scope true).reportOf q = none := by
  have hname {k : Int} (hk : 0 ≤ k ∧ k < scope.slotCount) : scope.name? k ≠ none := by
    obtain ⟨n, rfl⟩ := Int.eq_ofNat_of_zero_le hk.1
    have hlt : n < scope.names.length := by rw [Scope.length_names]; omega
    rw [Scope.name?_natCast, List.getElem?_eq_getElem hlt]
    exact Option.some_ne_none _
  rw [Subject.placed_ofProgram scope h.decodes]
  intro q hq
  obtain ⟨l, hl, rfl⟩ := List.mem_map.1 hq
  by_contra hreport
  -- The program has been verified, so the report could only be about a slot.
  have hverified := (Program.verify_eq_ok_iff.1 h.verified).2.2 l hl
  have hconcerns := (Subject.operandFault?_eq_none_iff rfl rfl).1 hverified hreport
  have hsound := h.operands l hl
  obtain ⟨k, hx, hreference⟩ := Subject.reportOf_placed_ne_none_iff.1 hreport
  obtain ⟨offset, i⟩ := l
  cases i with
  | loadContext m | setContext m =>
    obtain rfl := Option.some.inj hx
    exact hname hsound (Option.map_eq_none_iff.1 hreference)
  | halt | add | sub | mul | div | eq => cases hx
  | const | jump | jumpIfFalse =>
    rcases Piece.concernsSlot_withOperand.1 hconcerns with hop | hop <;> cases hop

theorem Script.forall₂_shows_of_plan {s : Settings} {scope : Scope α} {script : Script} {a : Plan}
    (h : script.plan s scope = .ok a) (hscope : scope.Coherent) (digits : Nat) :
    let subject := Subject.ofProgram (a.program s.name) (scope.defineAll script.names) true
    List.Forall₂ (Row.Shows digits) (subject.rows.filter Row.isAccess)
      (script.occurrences scope.names) := by
  intro subject
  have hcode : (a.code 0 [] ++ [Instruction.halt]).filter (fun i => i.opcode.isAccess) =
      a.accesses := by
    rw [List.filter_append, Plan.filter_isAccess_code]
    exact List.append_nil _
  rw [Subject.rows, Subject.placed_ofProgram _ (by rw [Plan.decoded_program]), Plan.decoded_program]
  refine Subject.forall₂_shows_row ?_ digits
  rw [Code.map_instruction_locate, hcode]
  exact Script.accesses_of_plan h hscope

/-- Whatever was read before, a program is listed as these rows and this text, and nothing is found
wrong in it. -/
def Program.ListedAs (p : Program) (scope : Scope α) (rows : List Row) (text : String) : Prop :=
  let subject := Subject.ofProgram p scope true
  ∀ earlier, subject.readRows earlier = .ok rows [] ∧ subject.readText earlier = .ok text []

theorem Program.listedAs_of_prefix {p : Program} {scope later : Scope α}
    (hnames : scope.names <+: later.names)
    (h : ∀ q ∈ (Subject.ofProgram p scope true).placed,
      (Subject.ofProgram p scope true).reportOf q = none) :
    p.ListedAs later (Subject.ofProgram p scope true).rows
      ((Subject.ofProgram p scope true).textOf (Subject.ofProgram p scope true).rows) := by
  obtain ⟨hrows, hlater⟩ := Subject.rows_of_prefix hnames h
  intro earlier
  have hread := Subject.readRows_of_reportOf hlater earlier
  have htext := Subject.readText_of_ok hread
  rw [hrows] at hread htext
  exact ⟨hread, htext⟩

namespace Act

/-- The program that an act gives in a scope. -/
def program? (scope : Scope α) : Act α → Option Program
  | define _ _ => none
  | compile script s => (script.compile s scope).result.toOption
  | compileEach script s => (script.compileEach s scope).result.toOption.map Report.program

/-- The occurrences of variables in what an act compiles. -/
def occurrences (scope : Scope α) : Act α → List Occurrence
  | define _ _ => []
  | compile script _ => script.occurrences scope.names
  | compileEach script s => (script.survivors s scope).occurrences scope.names

/-- A program comes of the plan of a script, and so do the scope and the occurrences. -/
theorem exists_plan {scope : Scope α} (hscope : scope.Level) {act : Act α} {p : Program}
    (h : act.program? scope = some p) :
    ∃ (script : Script) (s : Settings) (a : Plan), script.plan s scope = .ok a ∧
      p = a.program s.name ∧ scope.enact act = scope.defineAll script.names ∧
      act.occurrences scope = script.occurrences scope.names := by
  cases act with
  | define name initial => simp [program?] at h
  | compile script s =>
    cases hresult : (script.compile s scope).result with
    | ok q =>
      obtain rfl : q = p := by simpa [program?, hresult, Except.toOption] using h
      obtain ⟨a, ha, rfl⟩ := Script.compile_eq_ok_iff.1 hresult
      exact ⟨script, s, a, ha, rfl, (Script.compile_of_plan ha).2, rfl⟩
    | error f => simp [program?, hresult, Except.toOption] at h
  | compileEach script s =>
    rcases Script.compileEach_cases hscope s script with
      ⟨-, a, ha, hresult, hgrown⟩ | ⟨-, _, _, hresult, -⟩
    · obtain rfl : a.program s.name = p := by simpa [program?, hresult, Except.toOption] using h
      exact ⟨script.survivors s scope, s, a, ha, rfl, hgrown, rfl⟩
    · simp [program?, hresult, Except.toOption] at h

/-- **Listings last.**  Whatever happened to a scope before an act and whatever happens to it
afterwards, the program of the act is listed in one and the same way from then on.  Nothing is found
wrong in it, and the rows for variables show those that the occurrences in the script refer to, one
by one, with their names at the end of their lines in the text. -/
theorem listing_lasts (globals : List String) (before : List (Act α)) (act : Act α) (p : Program)
    (h : act.program? ((Scope.empty globals).after before) = some p) :
    ∃ rows text digits,
      (∀ later, p.ListedAs ((Scope.empty globals).after (before ++ act :: later)) rows text) ∧
      text = String.intercalate "\n" (Subject.header :: rows.map (Row.line · digits)) ∧
      (∀ row ∈ rows, row.diagnostic = none) ∧
      List.Forall₂ (Row.Shows digits) (rows.filter Row.isAccess)
        (act.occurrences ((Scope.empty globals).after before)) := by
  have hscope : ((Scope.empty globals : Scope α).after before).Coherent :=
    Scope.coherent_after globals before
  obtain ⟨script, s, a, ha, rfl, henact, hoccurrences⟩ := exists_plan hscope.level h
  have hfound := (Script.wellFormed_of_plan hscope.bounded ha).reportOf_eq_none
  refine ⟨_, _, _, fun later => Program.listedAs_of_prefix ?_ hfound, rfl, ?_, ?_⟩
  · have hgrows := Scope.grows_after (hscope.level.defineAll script.names) later
    rw [Scope.after_append, Scope.after_cons, henact]
    exact hgrows.prefix_names
  · intro row hrow
    obtain ⟨q, hq, rfl⟩ := List.mem_map.1 hrow
    obtain ⟨hnone, -⟩ | ⟨report, hreport, -⟩ := Subject.reportOf_cases _ q
    · exact hnone
    · rw [hfound q hq] at hreport
      cases hreport
  · rw [hoccurrences]
    exact Script.forall₂_shows_of_plan ha hscope _

/-- A script that declares a name anew, with the value that the name had. -/
def shadowing : Script :=
  let source := "a; let [a, b] = a; b;"
  .ofTree source.toUTF8 (.ofSource source)

/-- The first `a` is the one defined before the script, and the others are the one that the script
declares; the value is there once for each name. -/
theorem listing_shadowing_lasts :
    let scope : Scope Unit := (Scope.empty []).after [.define "a" none]
    let act : Act Unit := .compile shadowing .standard
    (act.occurrences scope).map (fun o => (o.name, o.declared.length)) =
      [("a", 1), ("a", 2), ("a", 2), ("a", 3), ("b", 3), ("b", 3)] ∧
    ∃ p, act.program? scope = some p ∧ ∃ rows text digits,
      (∀ later, p.ListedAs ((Scope.empty []).after ([.define "a" none] ++ act :: later)) rows
        text) ∧
      text = String.intercalate "\n" (Subject.header :: rows.map (Row.line · digits)) ∧
      (∀ row ∈ rows, row.diagnostic = none) ∧
      List.Forall₂ (Row.Shows digits) (rows.filter Row.isAccess) (act.occurrences scope) := by
  intro scope act
  have hcompiles : (act.program? scope).isSome = true := by decide +kernel
  obtain ⟨p, hprogram⟩ := Option.isSome_iff_exists.1 hcompiles
  exact ⟨by decide +kernel, p, hprogram, listing_lasts [] [.define "a" none] act p hprogram⟩

end Act

end StackScript
