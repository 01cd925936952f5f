import StackScript.Grammar
import StackScript.Session
import StackScript.Proofs.PassPlan

/-!
# Dialogues over one scope

Requests are compiled one after the other, and all of them share one scope.  A request that is
refused may have defined and shadowed names before it stopped; the requests behind it cannot tell.

* `converse` : a dialogue, for any state that requests share;
* `Thins` : some of the refused exchanges of a dialogue are left out;
* `converse_of_thins` : where a refused request keeps the state, leaving some of them out changes
  neither the other answers nor the final state;
* `Request.scope_of_refused`, `Session.session_of_refused` : requests over a scope and inputs of
  an interactive session are of that kind, as long as there are as many initial values as names;
* `refused_requests_leave_no_trace` : hence refused requests are invisible.
-/

namespace StackScript

variable {α ι σ : Type}

/-! ### Dialogues -/

/-- What was asked, and the answer. -/
structure Exchange (ι : Type) where
  asked : ι
  answer : Except Fault Program

/-- The answer is a refusal. -/
def Exchange.Refused (x : Exchange ι) : Prop := ∃ e, x.answer = .error (.refused e)

/-- Ask one thing after the other.  A step gives an answer and the state for the next one. -/
def converse (step : σ → ι → Except Fault Program × σ) : σ → List ι → List (Exchange ι) × σ
  | s, [] => ([], s)
  | s, i :: is =>
    let rest := converse step (step s i).2 is
    (⟨i, (step s i).1⟩ :: rest.1, rest.2)

/-- Some exchanges are left out, all of them refused. -/
inductive Thins : List (Exchange ι) → List (Exchange ι) → Prop
  | nil : Thins [] []
  | keep (x : Exchange ι) {xs ys : List (Exchange ι)} (h : Thins xs ys) : Thins (x :: xs) (x :: ys)
  | drop {x : Exchange ι} (hx : x.Refused) {xs ys : List (Exchange ι)} (h : Thins xs ys) :
      Thins (x :: xs) ys

/-- **Leaving out refused exchanges.**  If a refused step keeps the state, as long as something holds
that all steps keep, then the other requests alone lead to the same answers and the same final
state. -/
theorem converse_of_thins {step : σ → ι → Except Fault Program × σ} (Inv : σ → Prop)
    (hinv : ∀ s i, Inv s → Inv (step s i).2)
    (hstep : ∀ s i e, Inv s → (step s i).1 = .error (.refused e) → (step s i).2 = s)
    {is : List ι} {s : σ} (hs : Inv s) {kept : List (Exchange ι)}
    (h : Thins (converse step s is).1 kept) :
    converse step s (kept.map Exchange.asked) = (kept, (converse step s is).2) := by
  induction is generalizing s kept with
  | nil =>
    cases h
    rfl
  | cons i is ih =>
    simp only [converse] at h ⊢
    cases h with
    | keep _ h => simp only [List.map_cons, converse, ih (hinv s i hs) h]
    | drop hx h =>
      obtain ⟨e, he⟩ := hx
      -- The state behind the request is the state before it, where `ih` goes on.
      rw [hstep s i e hs he] at h ⊢
      exact ih hs h

/-- What holds at the start and is kept by every step holds at the end. -/
theorem converse_invariant {step : σ → ι → Except Fault Program × σ} {Inv : σ → Prop}
    (hstep : ∀ s i, Inv s → Inv (step s i).2) {is : List ι} {s : σ} (hs : Inv s) :
    Inv (converse step s is).2 := by
  induction is generalizing s with
  | nil => exact hs
  | cons i is ih => exact ih (hstep s i hs)

/-! ### Requests over a scope -/

/-- A request to compile a source text, or a tree that was read from a source. -/
inductive Request where
  | text (source : String) (settings : Settings)
  | tree (source : ByteArray) (root : SyntaxTree) (settings : Settings)

namespace Request

/-- Compile what is requested. -/
def compile (parse : Parser) : Request → Scope α → Outcome α (Except Fault Program)
  | text source s, scope => compileSource parse source s scope
  | tree source root s, scope => (Script.ofTree source root).compile s scope

/-- Requests one after the other, over one scope. -/
def dialogue (parse : Parser) : Scope α → List Request → List (Exchange Request) × Scope α :=
  converse fun scope r => ((r.compile parse scope).result, (r.compile parse scope).scope)

end Request

/-- **What compilation can come to**, with the scope that it leaves. -/
theorem Script.compile_cases (s : Settings) (scope : Scope α) (script : Script) :
    (∃ p, (script.compile s scope).result = .ok p ∧ p.name = s.name) ∨
    (∃ e, (script.compile s scope).result = .error (.refused e) ∧
      (scope.Level → (script.compile s scope).scope = scope)) ∨
    (∃ why, (script.compile s scope).result = .error (.broken why)) := by
  cases hplan : script.plan s scope with
  | ok a => exact .inl ⟨a.program s.name, (compile_of_plan hplan).1, rfl⟩
  | error f =>
    cases f with
    | refused e => exact .inr (.inl ⟨e, compile_of_refused hplan⟩)
    | broken why => exact .inr (.inr ⟨why, (compile_of_broken hplan).1⟩)

theorem Script.scope_of_refused {s : Settings} {scope : Scope α} (hscope : scope.Level)
    {script : Script} {e : CompileError}
    (h : (script.compile s scope).result = .error (.refused e)) :
    (script.compile s scope).scope = scope := by
  rcases script.compile_cases s scope with ⟨p, hp, -⟩ | ⟨e', -, hkept⟩ | ⟨why, hwhy⟩
  · rw [hp] at h
    cases h
  · exact hkept hscope
  · rw [hwhy] at h
    cases h

/-- A refused request leaves the scope as it was. -/
theorem Request.scope_of_refused {parse : Parser} {scope : Scope α} (hscope : scope.Level)
    {r : Request} {e : CompileError} (h : (r.compile parse scope).result = .error (.refused e)) :
    (r.compile parse scope).scope = scope := by
  cases r with
  | text source s => exact Script.scope_of_refused hscope h
  | tree source root s => exact Script.scope_of_refused hscope h

theorem Request.level_compile {parse : Parser} {scope : Scope α} (hscope : scope.Level)
    (r : Request) : (r.compile parse scope).scope.Level := by
  cases r with
  | text source s => exact Script.level_compile hscope s _
  | tree source root s => exact Script.level_compile hscope s _

/-! ### Inputs of an interactive session -/

/-- The program that was answered, if it was one. -/
def Exchange.program? : Exchange ι → Option Program
  | ⟨_, .ok p⟩ => some p
  | ⟨_, .error _⟩ => none

namespace Session

/-- Inputs one after the other, in one session. -/
def dialogue (setup : SessionSettings) : Session α → List String →
    List (Exchange String) × Session α :=
  converse fun s source => ((s.submit setup source).result, (s.submit setup source).session)

theorem result_submit (s : Session α) (setup : SessionSettings) (source : String) :
    (s.submit setup source).result =
      ((Script.ofSource setup.parse source).compile (s.settings setup) s.scope).result := by
  cases hr : ((Script.ofSource setup.parse source).compile (s.settings setup) s.scope).result with
  | ok p => simp only [submit, compileSource, hr]
  | error f => cases f <;> simp only [submit, compileSource, hr]

theorem scope_submit (s : Session α) (setup : SessionSettings) (source : String) :
    (s.submit setup source).session.scope =
      ((Script.ofSource setup.parse source).compile (s.settings setup) s.scope).scope := by
  cases hr : ((Script.ofSource setup.parse source).compile (s.settings setup) s.scope).result with
  | ok p => simp only [submit, compileSource, hr]
  | error f => cases f <;> simp only [submit, compileSource, hr]

/-- **What an input can come to**: its program is kept under the number of the input, or nothing
changes, or the session breaks down. -/
theorem submit_cases (s : Session α) (setup : SessionSettings) (source : String) :
    (∃ p, (s.submit setup source).result = .ok p ∧ p.name = s!"input_{s.programs.length}" ∧
      (s.submit setup source).session.programs = s.programs ++ [p]) ∨
    (∃ e, (s.submit setup source).result = .error (.refused e) ∧
      (s.submit setup source).session.programs = s.programs ∧
      (s.scope.Level → (s.submit setup source).session = s)) ∨
    (∃ why, (s.submit setup source).result = .error (.broken why) ∧
      (s.submit setup source).session.programs = s.programs) := by
  rcases (Script.ofSource setup.parse source).compile_cases (s.settings setup) s.scope with
    ⟨p, hp, hname⟩ | ⟨e, he, hkept⟩ | ⟨why, hwhy⟩
  · refine .inl ⟨p, by rw [result_submit, hp], hname, ?_⟩
    simp only [submit, compileSource, hp]
  · refine .inr (.inl ⟨e, by rw [result_submit, he], ?_, fun hscope => ?_⟩)
    · simp only [submit, compileSource, he]
    · simp only [submit, compileSource, he, hkept hscope]
  · refine .inr (.inr ⟨why, by rw [result_submit, hwhy], ?_⟩)
    simp only [submit, compileSource, hwhy]

theorem session_of_refused {s : Session α} (hs : s.scope.Level) {setup : SessionSettings}
    {source : String} {e : CompileError}
    (h : (s.submit setup source).result = .error (.refused e)) :
    (s.submit setup source).session = s := by
  rcases s.submit_cases setup source with ⟨p, hp, -⟩ | ⟨e', -, -, hkept⟩ | ⟨why, hwhy, -⟩
  · rw [hp] at h
    cases h
  · exact hkept hs
  · rw [hwhy] at h
    cases h

theorem level_submit {s : Session α} (hs : s.scope.Level) (setup : SessionSettings)
    (source : String) : (s.submit setup source).session.scope.Level := by
  rw [scope_submit]
  exact Script.level_compile hs _ _

/-- After any inputs there are as many initial values as names. -/
theorem level_dialogue (setup : SessionSettings) (inputs : List String) :
    (dialogue setup (start : Session α) inputs).2.scope.Level :=
  converse_invariant (fun (s : Session α) source (hs : s.scope.Level) =>
    level_submit hs setup source) (Scope.level_empty _)

/-- The programs of a session are named by their numbers. -/
def Numbered (s : Session α) : Prop :=
  ∀ (i : Nat) (p : Program), s.programs[i]? = some p → p.name = s!"input_{i}"

theorem Numbered.submit {s : Session α} (h : s.Numbered) (setup : SessionSettings)
    (source : String) : (s.submit setup source).session.Numbered := by
  rcases s.submit_cases setup source with ⟨p, -, hname, hprograms⟩ | ⟨e, -, hs, -⟩ | ⟨why, -, hs⟩
  · intro i q hq
    rw [hprograms, List.getElem?_append] at hq
    split at hq
    · exact h i q hq
    · next hi =>
      -- Behind the programs so far there is only the new one.
      have hlt : i - s.programs.length < 1 := (List.getElem?_eq_some_iff.1 hq).1
      obtain rfl : i = s.programs.length := by omega
      simp only [Nat.sub_self, List.getElem?_cons_zero, Option.some.injEq] at hq
      rw [← hq, hname]
  · intro i q hq
    rw [hs] at hq
    exact h i q hq
  · intro i q hq
    rw [hs] at hq
    exact h i q hq

theorem numbered_start : (start : Session α).Numbered := by
  intro i p h
  simp [start] at h

/-- A session keeps the programs that it answers, in their order. -/
theorem programs_dialogue (setup : SessionSettings) (inputs : List String) (s : Session α) :
    (dialogue setup s inputs).2.programs =
      s.programs ++ (dialogue setup s inputs).1.filterMap Exchange.program? := by
  induction inputs generalizing s with
  | nil => simp [dialogue, converse]
  | cons source inputs ih =>
    have hrest := ih (s.submit setup source).session
    simp only [dialogue, converse] at hrest ⊢
    rw [hrest]
    rcases s.submit_cases setup source with ⟨p, hp, -, hs⟩ | ⟨e, he, hs, -⟩ | ⟨why, hwhy, hs⟩
    · simp [hp, hs, Exchange.program?]
    · simp [he, hs, List.filterMap_cons, Exchange.program?]
    · simp [hwhy, hs, List.filterMap_cons, Exchange.program?]

end Session

/-! ### Refused requests -/

/-- **Refused requests leave no trace.**  Leave out any of the refused requests to one scope: the
others get the answers they got, and the scope at the end is the same.  The same holds of the inputs
of an interactive session, so that it keeps the same programs: those that it answered, each named
by its number.  The parser may be any. -/
theorem refused_requests_leave_no_trace :
    (∀ (parse : Parser) (scope : Scope α) (requests : List Request)
        (kept : List (Exchange Request)),
      scope.Level → Thins (Request.dialogue parse scope requests).1 kept →
        Request.dialogue parse scope (kept.map Exchange.asked) =
          (kept, (Request.dialogue parse scope requests).2)) ∧
    (∀ (setup : SessionSettings) (inputs : List String) (kept : List (Exchange String)),
      let first := Session.dialogue setup (.start : Session α) inputs
      Thins first.1 kept →
        Session.dialogue setup .start (kept.map Exchange.asked) = (kept, first.2) ∧
        first.2.programs = kept.filterMap Exchange.program? ∧
        ∀ (i : Nat) (p : Program), first.2.programs[i]? = some p → p.name = s!"input_{i}") := by
  constructor
  · intro parse scope requests kept hscope h
    exact converse_of_thins Scope.Level (fun scope r hs => r.level_compile hs)
      (fun scope r e hs => Request.scope_of_refused hs) hscope h
  · intro setup inputs kept first h
    have hkept : Session.dialogue setup .start (kept.map Exchange.asked) = (kept, first.2) :=
      converse_of_thins (fun s => s.scope.Level)
        (fun s source hs => Session.level_submit hs setup source)
        (fun s source e hs => Session.session_of_refused hs) (Scope.level_empty _) h
    have hprograms := Session.programs_dialogue setup (kept.map Exchange.asked) (.start : Session α)
    rw [hkept] at hprograms
    exact ⟨hkept, hprograms,
      converse_invariant (fun s source hs => hs.submit setup source) Session.numbered_start⟩

/-- The first request gives `a` a new slot before it is refused.  Without it the second one finds
the same slot, and an interactive session gives it the same number. -/
theorem refused_shadowing_leaves_no_trace :
    let scope : Scope Unit := (Scope.empty []).defineAll ["a"]
    let both := Request.dialogue .ofSource scope
      [.text "let a = z" .standard, .text "a" .standard]
    let setup : SessionSettings := ⟨.ofSource, .standard, true⟩
    let inputs := Session.dialogue setup (.start : Session Unit) ["let a = z", "1"]
    scope.Level ∧ Thins both.1 both.1.tail ∧ Thins inputs.1 inputs.1.tail ∧
    Request.dialogue .ofSource scope [.text "a" .standard] = (both.1.tail, both.2) ∧
    Session.dialogue setup .start ["1"] = (inputs.1.tail, inputs.2) := by
  intro scope both setup inputs
  have hscope : scope.Level := (Scope.level_empty []).defineAll ["a"]
  have hboth : Thins both.1 both.1.tail :=
    .drop ⟨⟨.unbound "z", ⟨1, 8⟩⟩, (Script.compile_of_refused (by with_unfolding_all rfl)).1⟩
      (.keep _ .nil)
  have hinputs : Thins inputs.1 inputs.1.tail := by
    refine .drop ⟨⟨.unbound "z", ⟨1, 8⟩⟩, ?_⟩ (.keep _ .nil)
    dsimp only
    rw [Session.result_submit]
    exact (Script.compile_of_refused (by with_unfolding_all rfl)).1
  exact ⟨hscope, hboth, hinputs, refused_requests_leave_no_trace.1 _ _ _ _ hscope hboth,
    (refused_requests_leave_no_trace.2 _ _ _ hinputs).1⟩

end StackScript
